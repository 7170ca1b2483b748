/-
  Quelay.Agent.SessionManager.Commands — the way of a command from a C2I call to the
  session manager (`thrift_srv.rs`, `agent.rs`, `session_manager.rs`).

  Any number of Thrift threads call at once. A handler turns its call into an `AgentCmd`
  and waits for room in the channel of 64; `Agent::run` takes the commands one by one and
  waits for room in the session manager's channel, also of 64, into which the uplink tasks
  put their `StreamFinished`; `run` takes them from there between two turns of its select,
  so not while it reconnects. A reply goes back over the call's own oneshot channel, so
  the command carries the call's number.

  The session manager is `Manager`, with `Rearm` for its sessions: `run` clears the session
  in `on_link_failed`, and restores the uplinks and drains the queue when it has installed
  a new one.

  Commands are handled in the order they were sent in, one reply each, and only while a
  session is installed; and a `StreamFinished` is never dropped for its text
  (`calls_answered`).

  What the pumps are told by `link_enable` is `Transfer`'s; `RuntimeConfig` is read by
  nobody.
-/

import Quelay.Agent.SessionManager.AcceptLoop
import Quelay.Agent.SessionManager.Queue
import Quelay.Thrift.Mapping

namespace Quelay.Agent.SessionManager

open Quelay.Lib Quelay.Domain Quelay.Thrift Framing

/-! ## Commands -/

/-- `call` is the number of the call that waits for the reply. -/
inductive AgentCmd where
  | streamStart (call : Nat) (uuid : Uuid) (info : DomainStreamInfo) (priority : Priority)
  | getConnStats (call : Nat)
  | linkEnable (enabled : Bool)
  | setMaxConcurrent (n : UInt64)
  deriving DecidableEq

inductive SessionCommand where
  | streamStart (call : Nat) (uuid : Uuid) (info : DomainStreamInfo) (priority : Priority)
  | streamFinished (uuid : String)
  | getConnStats (call : Nat)
  | setMaxConcurrent (limit : Option Nat)
  | linkEnable (enabled : Bool)
  deriving DecidableEq

/-- `Agent::run`: a limit of 0 is none. -/
def AgentCmd.forward : AgentCmd → SessionCommand
  | .streamStart call uuid info priority => .streamStart call uuid info priority
  | .getConnStats call => .getConnStats call
  | .linkEnable enabled => .linkEnable enabled
  | .setMaxConcurrent n => .setMaxConcurrent (if n = 0 then none else some n.toNat)

/-- The calls of the C2I interface that become commands. -/
inductive Request where
  | streamStart (uuid : String) (info : WireStreamInfo) (priority : Int8)
  | getConnStats
  | linkEnable (enabled : Bool)
  | setMaxConcurrent (n : Int32)

/-- The handlers: `none` where the call returns at once, for a text that is no uuid. A
    negative limit is sign-extended. -/
def Request.toCmd (uuids : UuidText) (call : Nat) : Request → Option AgentCmd
  | .streamStart text info priority =>
    (uuids.parseStr text).map fun uuid => .streamStart call uuid (streamInfoOfWire info) (.fromI8 priority)
  | .getConnStats => some (.getConnStats call)
  | .linkEnable enabled => some (.linkEnable enabled)
  | .setMaxConcurrent n => some (.setMaxConcurrent n.toInt64.toUInt64)

/-! ## State -/

def commandSlots : Nat := 64

structure Commands where
  rearm : Rearm
  manager : Manager
  calls : Nat
  /-- Handlers in `send_cmd`. -/
  sending : List AgentCmd
  cmdRx : List AgentCmd
  /-- The command that `Agent::run` has taken. -/
  agent : Option AgentCmd
  smRx : List SessionCommand
  /-- The replies to `stream_start`, with the calls they went to. -/
  returned : List (Nat × Reply)
  /-- The sessions whose statistics went to `get_conn_stats`; without one, the default did. -/
  stats : List (Nat × Option Nat)
  /-- Ghosts: the commands in the order they went into the first channel, and in the order
      they were handled. -/
  sent : List AgentCmd
  handled : List SessionCommand

inductive CommandsAct where
  | call (r : Request)
  | send (i : Nat)
  | recv
  | forward
  | dispatch (opens : PendingStream → OpenResult)
  | loop (a : Rearm.LoopAct)
  | run (a : Rearm.RunAct) (restores : Nat → Bool) (opens : PendingStream → OpenResult)
  | lose (sid : Nat)
  | pumpExits (number : Nat)
  | takeStream (number : Nat)
  | ends (number : Nat)
  | deregister (number : Nat)
  | finish (number : Nat)
  | timerSnapshot
  | timerRemove (uuids : List Uuid)

namespace Commands

def init (maxConcurrent maxPending : Nat) : Commands :=
  ⟨.init, .init maxConcurrent maxPending, 0, [], [], none, [], [], [], [], []⟩

variable (json : SerdeJson StreamHeader) (uuids : UuidText)

def setManager (c : Commands) (m : Manager) : Commands := { c with manager := m }

/-- `dispatch_cmd`. Whatever `on_stream_start` replies goes to the call. -/
def dispatchCmd (c : Commands) (opens : PendingStream → OpenResult) : SessionCommand → Option Commands
  | .streamStart call uuid info priority =>
    (c.manager.step json (.streamStart uuid info priority opens)).map fun m =>
      { c with
        manager := m
        returned := c.returned ++ (m.replies.drop c.manager.replies.length).map fun r => (call, r) }
  | .streamFinished text =>
    match uuids.parseStr text with
    | some uuid => (c.manager.step json (.streamFinished uuid opens)).map c.setManager
    | none => some c
  | .getConnStats call => some { c with stats := c.stats ++ [(call, c.rearm.session)] }
  | .setMaxConcurrent limit => (c.manager.step json (.setMaxConcurrent limit opens)).map c.setManager
  | .linkEnable enabled =>
    if enabled then some c else (c.rearm.runStep .linkEnable).map fun rearm => { c with rearm := rearm }

/-- What `run` does to the streams as it goes on. -/
def runManager (m : Manager) (restores : Nat → Bool) (opens : PendingStream → OpenResult) : Rearm.RunAct → Option Manager
  | .onLinkFailed => m.step json .linkFailed
  | .install => m.step json (.reconnect restores opens)
  -- A command.
  | .linkEnable => none
  | _ => some m

def taskStep (c : Commands) (a : SessionManager.Act) : Option Commands := (c.manager.step json a).map c.setManager

def step (c : Commands) : CommandsAct → Option Commands
  | .call r => some { c with calls := c.calls + 1, sending := c.sending ++ (r.toCmd uuids c.calls).toList }
  | .send i =>
    match c.sending[i]? with
    | some cmd =>
      if c.cmdRx.length < commandSlots then
        some { c with sending := c.sending.eraseIdx i, cmdRx := c.cmdRx ++ [cmd], sent := c.sent ++ [cmd] }
      else none
    | none => none
  | .recv =>
    match c.agent, c.cmdRx with
    | none, cmd :: rest => some { c with agent := some cmd, cmdRx := rest }
    | _, _ => none
  | .forward =>
    match c.agent with
    | some cmd =>
      if c.smRx.length < commandSlots then some { c with agent := none, smRx := c.smRx ++ [cmd.forward] } else none
    | none => none
  | .dispatch opens =>
    match c.rearm.run, c.smRx with
    | .select, cmd :: rest =>
      dispatchCmd json uuids { c with smRx := rest, handled := c.handled ++ [cmd] } opens cmd
    | _, _ => none
  | .loop a => (c.rearm.loopStep a).map fun rearm => { c with rearm := rearm }
  | .run a restores opens =>
    match c.rearm.runStep a, runManager json c.manager restores opens a with
    | some rearm, some m => some { c with rearm := rearm, manager := m }
    | _, _ => none
  | .lose sid => (c.rearm.step (.lose sid)).map fun rearm => { c with rearm := rearm }
  | .pumpExits number => taskStep json c (.pumpExits number)
  | .takeStream number => taskStep json c (.takeStream number)
  | .ends number => taskStep json c (.ends number)
  | .deregister number => taskStep json c (.deregister number)
  -- `StreamFinished` goes into the channel, and the task is gone.
  | .finish number =>
    if c.smRx.length < commandSlots then
      (c.manager.step json (.finish number)).map fun m =>
        { c with
          manager := m
          smRx := c.smRx ++ (m.finished.drop c.manager.finished.length).map fun u => .streamFinished (uuids.toText u) }
    else none
  | .timerSnapshot => taskStep json c .timerSnapshot
  | .timerRemove uuids => taskStep json c (.timerRemove uuids)

end Commands

/-! ## The session manager from outside -/

namespace Manager

variable {json : SerdeJson StreamHeader} {opens : PendingStream → OpenResult} {m m' : Manager}

/-- Whether it has a session, its replies, and the `StreamFinished` on their way to it. -/
def outside (m : Manager) : Bool × List Reply × List Uuid := (m.remote.session, m.replies, m.finished)

theorem Failed.outside {p : PendingStream} (h : Failed json opens m p m') : m'.outside = m.outside := by
  rcases h with ⟨-, rfl⟩ | ⟨-, rfl⟩ <;> rfl

theorem outside_promotePending (m : Manager) : (promotePending json opens m).outside = m.outside := by
  have hc := promotePending_cases json opens m
  generalize promotePending json opens m = m' at hc ⊢
  cases hc with
  | idle => rfl
  | promoted => rfl
  | failed _ hf => exact hf.outside

theorem outside_drainPending (m : Manager) (hlive : m.remote.session = true) :
    (drainPending json opens m).outside = m.outside := by
  obtain ⟨kept, m', hdrains, heq⟩ := drainPending_drains json opens m hlive
  rw [heq]
  have := hdrains.invariant (I := fun _ m' => m'.outside = m.outside) (fun _ _ hi => hi)
    (fun _ hf hi => hf.outside.trans hi) [] rfl
  exact this

theorem outside_restoreActive (m : Manager) (restores : Nat → Bool) : (m.restoreActive restores).outside = m.outside :=
  restoreActive_keeps (P := fun m' => m'.outside = m.outside) (fun hm _ _ => hm) (fun hm => hm) rfl

/-- A start gets one reply, whatever comes of it. -/
theorem outside_start {uuid : Uuid} {info : DomainStreamInfo} {priority : Priority}
    (h : m.step json (.streamStart uuid info priority opens) = some m') :
    ∃ status, m'.outside = (m.remote.session, m.replies ++ [⟨m.newStream uuid info priority, status⟩], m.finished) := by
  simp only [step, Option.some.injEq] at h
  have hc := onStreamStart_cases json opens { m with started := m.started + 1, opens := opens }
    (m.newStream uuid info priority)
  rw [h] at hc
  cases hc with
  | running => exact ⟨.running, rfl⟩
  | queued hnot | refused hnot =>
    have hsame := Unopened.keeps (P := fun m' => m'.outside = m.outside) hnot rfl Failed.outside
    obtain ⟨hsession, hrest⟩ := Prod.mk.inj hsame
    obtain ⟨-, hfinished⟩ := Prod.mk.inj hrest
    exact ⟨_, Prod.ext hsession (Prod.ext rfl hfinished)⟩

theorem outside_finished {uuid : Uuid} (h : m.step json (.streamFinished uuid opens) = some m') :
    m'.outside = (m.remote.session, m.replies, m.finished.erase uuid) := by
  simp only [step, Option.some.injEq] at h
  rw [← h]
  exact outside_promotePending _

theorem outside_setMax {limit : Option Nat} (h : m.step json (.setMaxConcurrent limit opens) = some m') :
    m'.outside = m.outside := by
  simp only [step, Option.some.injEq] at h
  rw [← h]
  exact outside_promotePending _

theorem outside_reconnect {restores : Nat → Bool} (h : m.step json (.reconnect restores opens) = some m') :
    m'.outside = (true, m.replies, m.finished) := by
  simp only [step] at h
  split at h
  · cases h
  · cases h
    rw [outside_drainPending _ (session_restoreActive ..), outside_restoreActive]
    rfl

/-- The uplink tasks and the timer go on among themselves, up to `StreamFinished`. -/
def Act.inner : Act → Prop
  | .pumpExits _ => True
  | .takeStream _ => True
  | .ends _ => True
  | .deregister _ => True
  | .timerSnapshot => True
  | .timerRemove _ => True
  | _ => False

theorem outside_inner {a : Act} (ha : Act.inner a) (h : m.step json a = some m') : m'.outside = m.outside := by
  cases a with
  | pumpExits number | takeStream number | timerSnapshot =>
    cases h
    rfl
  | ends number | deregister number =>
    obtain ⟨t, -, -, -, rfl⟩ := taskStep_cases h
    rfl
  | timerRemove uuids =>
    simp only [step] at h
    split at h
    · cases h
      rfl
    · cases h
  | _ => exact ha.elim

theorem outside_finish {number : Nat} (h : m.step json (.finish number) = some m') :
    ∃ uuid, m'.outside = (m.remote.session, m.replies, m.finished ++ [uuid]) := by
  obtain ⟨t, -, -, -, rfl⟩ := taskStep_cases h
  exact ⟨t.uuid, rfl⟩

end Manager

/-! ## The session -/

namespace Rearm

variable {m m' : Rearm}

theorem session_loop {a : LoopAct} (h : m.loopStep a = some m') : m'.session = m.session := by
  cases a with
  | snapshot =>
    simp only [loopStep] at h
    split at h
    · split at h
      · cases h
        rfl
      · cases h
        rfl
    · cases h
  | acceptOk | acceptErr | headerErr | spawn | close =>
    simp only [loopStep] at h
    split at h
    · cases h
      rfl
    · cases h
  | insert =>
    simp only [loopStep] at h
    split at h
    · split at h
      · cases h
      · cases h
        rfl
    · cases h
  | wait =>
    simp only [loopStep] at h
    split at h
    · split at h
      · cases h
        rfl
      · cases h
        rfl
    · cases h
  | wake =>
    simp only [loopStep] at h
    split at h
    · cases h
      rfl
    · cases h

/-- The session goes when `run` has seen it fail, and comes when `run` has another. -/
theorem session_run {a : RunAct} (h : m.runStep a = some m') :
    (a = .onLinkFailed ∧ m'.session = none) ∨ (a = .install ∧ m'.session.isSome = true) ∨
      (a ≠ .onLinkFailed ∧ a ≠ .install ∧ m'.session = m.session) := by
  cases a with
  | onLinkFailed =>
    simp only [runStep] at h
    split at h
    · cases h
      exact .inl ⟨rfl, rfl⟩
    · cases h
  | install =>
    simp only [runStep] at h
    split at h
    · cases h
      exact .inr (.inl ⟨rfl, rfl⟩)
    · cases h
  | changed | reconnect | notify =>
    simp only [runStep] at h
    split at h
    · cases h
      exact .inr (.inr ⟨by simp, by simp, rfl⟩)
    · cases h
  | linkEnable =>
    simp only [runStep] at h
    split at h
    · split at h
      · cases h
        exact .inr (.inr ⟨by simp, by simp, rfl⟩)
      · cases h
        exact .inr (.inr ⟨by simp, by simp, rfl⟩)
    · cases h

end Rearm

namespace Commands

variable {json : SerdeJson StreamHeader} {uuids : UuidText} {maxConcurrent maxPending : Nat} {c c' : Commands}

/-- The session manager runs as it does alone, with the session that `run` has. -/
structure Managed (json : SerdeJson StreamHeader) (maxConcurrent maxPending : Nat) (m : Manager) (rearm : Rearm) : Prop where
  manager : Reach (Manager.step json) anyStep (.init maxConcurrent maxPending) m
  link : rearm.Inv
  session : m.remote.session = rearm.session.isSome

theorem Managed.selecting {m : Manager} {rearm : Rearm} (h : Managed json maxConcurrent maxPending m rearm)
    (hrun : rearm.run = .select) : m.remote.session = true ∧ rearm.session.isSome = true := by
  have hsome : rearm.session.isSome = true := by rw [(h.link.watches (.inl hrun)).1]; rfl
  exact ⟨h.session.trans hsome, hsome⟩

theorem Managed.step {m m' : Manager} {rearm : Rearm} (h : Managed json maxConcurrent maxPending m rearm) {a : SessionManager.Act}
    (hs : m.step json a = some m') (hsession : m'.remote.session = m.remote.session) :
    Managed json maxConcurrent maxPending m' rearm :=
  ⟨.step a h.manager trivial hs, h.link, hsession.trans h.session⟩

theorem Managed.rearms {m : Manager} {rearm rearm' : Rearm} (h : Managed json maxConcurrent maxPending m rearm)
    (hi : rearm'.Inv) (hsession : rearm'.session = rearm.session) : Managed json maxConcurrent maxPending m rearm' :=
  ⟨h.manager, hi, by rw [hsession, h.session]⟩

theorem Managed.run {m m' : Manager} {rearm rearm' : Rearm} (h : Managed json maxConcurrent maxPending m rearm)
    {a : Rearm.RunAct} {restores : Nat → Bool} {opens : PendingStream → OpenResult} (hr : rearm.runStep a = some rearm')
    (hm : runManager json m restores opens a = some m') :
    Managed json maxConcurrent maxPending m' rearm' ∧ m'.replies = m.replies ∧ m'.finished = m.finished := by
  have hi := Rearm.run_inv h.link hr
  rcases Rearm.session_run hr with ⟨rfl, hnone⟩ | ⟨rfl, hsome⟩ | ⟨hne, hne', hsame⟩
  · cases hm
    exact ⟨⟨.step .linkFailed h.manager trivial rfl, hi, by rw [hnone]; rfl⟩, rfl, rfl⟩
  · obtain ⟨hlive, hrest⟩ := Prod.mk.inj (Manager.outside_reconnect hm)
    obtain ⟨hreplies, hfinished⟩ := Prod.mk.inj hrest
    exact ⟨⟨.step (.reconnect restores opens) h.manager trivial hm, hi, hlive.trans hsome.symm⟩, hreplies, hfinished⟩
  · cases a with
    | onLinkFailed => exact absurd rfl hne
    | install => exact absurd rfl hne'
    | linkEnable => cases hm
    | changed | reconnect | notify =>
      cases hm
      exact ⟨h.rearms hi hsame, rfl, rfl⟩

/-! ## The commands on their way -/

def fromClient : SessionCommand → Bool
  | .streamFinished _ => false
  | _ => true

def start? : SessionCommand → Option (Nat × Uuid × DomainStreamInfo × Priority)
  | .streamStart call uuid info priority => some (call, uuid, info, priority)
  | _ => none

def sample? : SessionCommand → Option Nat
  | .getConnStats call => some call
  | _ => none

def finished? : SessionCommand → Option String
  | .streamFinished text => some text
  | _ => none

/-- The start that a reply is for, and the call it went to. -/
def asked (x : Nat × Reply) : Nat × Uuid × DomainStreamInfo × Priority :=
  (x.1, x.2.stream.uuid, x.2.stream.info, x.2.stream.priority)

structure Ordered (uuids : UuidText) (c : Commands) : Prop where
  inOrder : c.sent.map AgentCmd.forward =
    (c.handled ++ c.smRx).filter fromClient ++ (c.agent.toList ++ c.cmdRx).map AgentCmd.forward
  answered : c.returned.map asked = c.handled.filterMap start?
  replied : c.returned.map (·.2) = c.manager.replies
  sampled : c.stats.map (·.1) = c.handled.filterMap sample?
  sessions : ∀ x ∈ c.stats, x.2.isSome = true
  finishing : c.smRx.filterMap finished? = c.manager.finished.map uuids.toText
  readable : ∀ text, .streamFinished text ∈ c.handled ++ c.smRx → ∃ uuid, uuids.parseStr text = some uuid

/-- Nothing moves in the channels. -/
theorem Ordered.same (hi : Ordered uuids c) {m : Manager} (hr : m.replies = c.manager.replies)
    (hf : m.finished = c.manager.finished) (rearm : Rearm) (calls : Nat) (sending : List AgentCmd) :
    Ordered uuids { c with manager := m, rearm := rearm, calls := calls, sending := sending } :=
  ⟨hi.inOrder, hi.answered, hi.replied.trans hr.symm, hi.sampled, hi.sessions, by rw [hf]; exact hi.finishing, hi.readable⟩

theorem fromClient_forward (cmd : AgentCmd) : fromClient cmd.forward = true ∧ finished? cmd.forward = none := by
  cases cmd <;> exact ⟨rfl, rfl⟩

theorem Ordered.send (hi : Ordered uuids c) (cmd : AgentCmd) (sending : List AgentCmd) :
    Ordered uuids { c with sending := sending, cmdRx := c.cmdRx ++ [cmd], sent := c.sent ++ [cmd] } := by
  refine ⟨?_, hi.answered, hi.replied, hi.sampled, hi.sessions, hi.finishing, hi.readable⟩
  dsimp only
  rw [List.map_append, hi.inOrder]
  simp only [List.map_append, List.append_assoc]

theorem Ordered.forward (hi : Ordered uuids c) {cmd : AgentCmd} (hagent : c.agent = some cmd) :
    Ordered uuids { c with agent := none, smRx := c.smRx ++ [cmd.forward] } := by
  obtain ⟨hclient, hnot⟩ := fromClient_forward cmd
  refine ⟨?_, hi.answered, hi.replied, hi.sampled, hi.sessions, ?_, fun text htext => ?_⟩
  · dsimp only
    rw [hi.inOrder, hagent]
    simp only [List.filter_append, List.filter_cons, hclient, if_true, List.filter_nil, Option.toList_some, Option.toList_none,
      List.map_append, List.map_cons, List.map_nil, List.nil_append, List.append_assoc]
  · dsimp only
    rw [List.filterMap_append, List.filterMap_cons, hnot, List.filterMap_nil, List.append_nil]
    exact hi.finishing
  · rw [← List.append_assoc] at htext
    rcases List.mem_append.mp htext with htext | htext
    · exact hi.readable text htext
    · cases cmd <;> cases List.mem_singleton.mp htext

/-- A task's `StreamFinished` goes into the channel. -/
theorem Ordered.finish (huuids : uuids.Inverts) (hi : Ordered uuids c) {m : Manager} {uuid : Uuid}
    (hr : m.replies = c.manager.replies) (hf : m.finished = c.manager.finished ++ [uuid]) :
    Ordered uuids { c with manager := m, smRx := c.smRx ++ [.streamFinished (uuids.toText uuid)] } := by
  refine ⟨?_, hi.answered, hi.replied.trans hr.symm, hi.sampled, hi.sessions, ?_, fun text htext => ?_⟩
  · dsimp only
    rw [hi.inOrder, ← List.append_assoc, List.filter_append]
    simp [fromClient]
  · dsimp only
    rw [hf, List.filterMap_append, hi.finishing, List.map_append]
    rfl
  · rw [← List.append_assoc] at htext
    rcases List.mem_append.mp htext with htext | htext
    · exact hi.readable text htext
    · cases List.mem_singleton.mp htext
      exact ⟨uuid, huuids uuid⟩

/-- The session manager takes the next command. -/
theorem Ordered.take (hi : Ordered uuids c) {cmd : SessionCommand} {rest : List SessionCommand} (hq : c.smRx = cmd :: rest)
    {m : Manager} {rearm : Rearm} {returned : List (Nat × Reply)} {stats : List (Nat × Option Nat)}
    (hanswered : returned.map asked = (c.handled ++ [cmd]).filterMap start?) (hreplied : returned.map (·.2) = m.replies)
    (hsampled : stats.map (·.1) = (c.handled ++ [cmd]).filterMap sample?) (hsessions : ∀ x ∈ stats, x.2.isSome = true)
    (hfinishing : rest.filterMap finished? = m.finished.map uuids.toText) :
    Ordered uuids { c with
      rearm := rearm, manager := m, smRx := rest, returned := returned, stats := stats, handled := c.handled ++ [cmd] } := by
  have hsame : c.handled ++ c.smRx = c.handled ++ [cmd] ++ rest := by
    rw [hq, List.append_assoc, List.singleton_append]
  refine ⟨?_, hanswered, hreplied, hsampled, hsessions, hfinishing, ?_⟩
  · dsimp only
    rw [hi.inOrder, hsame]
  · dsimp only
    rw [← hsame]
    exact hi.readable

/-- A command that a filter passes over. -/
theorem filterMap_snoc_none {α β : Type} {f : α → Option β} {l : List α} {a : α} (h : f a = none) :
    (l ++ [a]).filterMap f = l.filterMap f := by
  rw [List.filterMap_append, List.filterMap_cons, h, List.filterMap_nil, List.append_nil]

theorem dispatch_ok (huuids : uuids.Inverts) (hm : Managed json maxConcurrent maxPending c.manager c.rearm)
    (hi : Ordered uuids c) (hrun : c.rearm.run = .select) {opens : PendingStream → OpenResult} {cmd : SessionCommand}
    {rest : List SessionCommand} (hq : c.smRx = cmd :: rest)
    (h : dispatchCmd json uuids { c with smRx := rest, handled := c.handled ++ [cmd] } opens cmd = some c') :
    Managed json maxConcurrent maxPending c'.manager c'.rearm ∧ Ordered uuids c' ∧ c'.calls = c.calls ∧
      c'.sending = c.sending ∧ c'.sent = c.sent := by
  have hstart := hi.answered
  have hsample := hi.sampled
  have hfin := hi.finishing
  rw [hq] at hfin
  cases cmd with
  | streamStart call uuid info priority =>
    simp only [dispatchCmd] at h
    obtain ⟨m, hs, rfl⟩ := Option.map_eq_some_iff.mp h
    obtain ⟨status, hout⟩ := Manager.outside_start hs
    obtain ⟨hsession, hrest⟩ := Prod.mk.inj hout
    obtain ⟨hreplies, hfinished⟩ := Prod.mk.inj hrest
    refine ⟨hm.step hs hsession, hi.take hq ?_ ?_ ?_ hi.sessions ?_, rfl, rfl, rfl⟩
    · rw [hreplies, List.drop_left, List.map_append, hstart, List.filterMap_append]
      rfl
    · rw [hreplies, List.drop_left, List.map_append, hi.replied]
      rfl
    · rw [hsample, filterMap_snoc_none rfl]
    · rw [hfinished]
      exact hfin
  | streamFinished text =>
    -- The next text in the channel is that of the next uuid.
    obtain ⟨uuid, more, hmore, rfl, hfin'⟩ : ∃ uuid more, c.manager.finished = uuid :: more ∧ text = uuids.toText uuid ∧
        rest.filterMap finished? = more.map uuids.toText := by
      have hcons : text :: rest.filterMap finished? = c.manager.finished.map uuids.toText := hfin
      obtain ⟨uuid, more, hmore, htext, hrest⟩ := List.map_eq_cons_iff.mp hcons.symm
      exact ⟨uuid, more, hmore, htext.symm, hrest.symm⟩
    simp only [dispatchCmd, huuids uuid] at h
    obtain ⟨m, hs, rfl⟩ := Option.map_eq_some_iff.mp h
    obtain ⟨hsession, hrest⟩ := Prod.mk.inj (Manager.outside_finished hs)
    obtain ⟨hreplies, hfinished⟩ := Prod.mk.inj hrest
    refine ⟨hm.step hs hsession, hi.take hq ?_ (hi.replied.trans hreplies.symm) ?_ hi.sessions ?_, rfl, rfl, rfl⟩
    · rw [hstart, filterMap_snoc_none rfl]
    · rw [hsample, filterMap_snoc_none rfl]
    · rw [hfinished, hmore, List.erase_cons_head]
      exact hfin'
  | getConnStats call =>
    cases h
    refine ⟨hm, hi.take hq ?_ hi.replied ?_ (fun x hx => ?_) hfin, rfl, rfl, rfl⟩
    · rw [hstart, filterMap_snoc_none rfl]
    · rw [List.map_append, hsample, List.filterMap_append]
      rfl
    · rcases List.mem_append.mp hx with hx | hx
      · exact hi.sessions x hx
      · rw [List.mem_singleton.mp hx]
        exact (hm.selecting hrun).2
  | setMaxConcurrent limit =>
    simp only [dispatchCmd] at h
    obtain ⟨m, hs, rfl⟩ := Option.map_eq_some_iff.mp h
    obtain ⟨hsession, hrest⟩ := Prod.mk.inj (Manager.outside_setMax hs)
    obtain ⟨hreplies, hfinished⟩ := Prod.mk.inj hrest
    refine ⟨hm.step hs hsession, hi.take hq ?_ (hi.replied.trans hreplies.symm) ?_ hi.sessions ?_, rfl, rfl, rfl⟩
    · rw [hstart, filterMap_snoc_none rfl]
    · rw [hsample, filterMap_snoc_none rfl]
    · rw [hfinished]
      exact hfin
  | linkEnable enabled =>
    have hnone : c.returned.map asked = (c.handled ++ [SessionCommand.linkEnable enabled]).filterMap start? := by
      rw [hstart, filterMap_snoc_none rfl]
    have hnone' : c.stats.map (·.1) = (c.handled ++ [SessionCommand.linkEnable enabled]).filterMap sample? := by
      rw [hsample, filterMap_snoc_none rfl]
    cases enabled with
    | true =>
      cases h
      exact ⟨hm, hi.take hq hnone hi.replied hnone' hi.sessions hfin, rfl, rfl, rfl⟩
    | false =>
      simp only [dispatchCmd] at h
      obtain ⟨rearm, hr, rfl⟩ := Option.map_eq_some_iff.mp h
      have hsame : rearm.session = c.rearm.session := by
        rcases Rearm.session_run hr with ⟨he, -⟩ | ⟨he, -⟩ | ⟨-, -, hsame⟩
        · cases he
        · cases he
        · exact hsame
      exact ⟨hm.rearms (Rearm.run_inv hm.link hr) hsame, hi.take hq hnone hi.replied hnone' hi.sessions hfin, rfl, rfl, rfl⟩

/-! ## The calls -/

def AgentCmd.call? : AgentCmd → Option Nat
  | .streamStart call _ _ _ => some call
  | .getConnStats call => some call
  | _ => none

def call? : SessionCommand → Option Nat
  | .streamStart call _ _ _ => some call
  | .getConnStats call => some call
  | _ => none

/-- Every call has sent one command at most. -/
structure Numbered (c : Commands) : Prop where
  once : ((c.sending ++ c.sent).filterMap AgentCmd.call?).Nodup
  below : ∀ n ∈ (c.sending ++ c.sent).filterMap AgentCmd.call?, n < c.calls

theorem Numbered.same (hi : Numbered c) (hcalls : c'.calls = c.calls) (hsending : c'.sending = c.sending)
    (hsent : c'.sent = c.sent) : Numbered c' := by
  refine ⟨?_, ?_⟩
  · rw [hsending, hsent]
    exact hi.once
  · rw [hsending, hsent, hcalls]
    exact hi.below

theorem call_toCmd {r : Request} {call n : Nat} {cmd : AgentCmd} (h : r.toCmd uuids call = some cmd)
    (hn : AgentCmd.call? cmd = some n) : n = call := by
  cases r with
  | streamStart text info priority =>
    obtain ⟨u, -, rfl⟩ := Option.map_eq_some_iff.mp h
    exact (Option.some.inj hn).symm
  | getConnStats =>
    cases h
    exact (Option.some.inj hn).symm
  | linkEnable enabled | setMaxConcurrent limit =>
    cases h
    cases hn

theorem Numbered.call (hi : Numbered c) (r : Request) :
    Numbered { c with calls := c.calls + 1, sending := c.sending ++ (r.toCmd uuids c.calls).toList } := by
  -- The new command's number, if it has one.
  have hnew : ∀ n ∈ (r.toCmd uuids c.calls).toList.filterMap AgentCmd.call?, n = c.calls := by
    intro n hn
    obtain ⟨cmd, hcmd, hn⟩ := List.mem_filterMap.mp hn
    exact call_toCmd (Option.mem_toList.mp hcmd) hn
  have hperm : ((c.sending ++ (r.toCmd uuids c.calls).toList ++ c.sent).filterMap AgentCmd.call?).Perm
      ((r.toCmd uuids c.calls).toList.filterMap AgentCmd.call? ++ (c.sending ++ c.sent).filterMap AgentCmd.call?) := by
    rw [← List.filterMap_append]
    refine List.Perm.filterMap _ ?_
    rw [← List.append_assoc]
    exact List.perm_append_comm.append_right _
  refine ⟨hperm.nodup_iff.mpr (List.nodup_append.mpr ⟨?_, hi.once, fun n hn n' hn' => ?_⟩), fun n hn => ?_⟩
  · cases hcmd : r.toCmd uuids c.calls with
    | none => exact List.nodup_nil
    | some cmd =>
      rw [Option.toList_some, List.filterMap_cons]
      split
      · exact List.nodup_nil
      · exact List.nodup_singleton _
  · rw [hnew n hn]
    exact Nat.ne_of_gt (hi.below n' hn')
  · rcases List.mem_append.mp (hperm.mem_iff.mp hn) with hn | hn
    · rw [hnew n hn]
      exact Nat.lt_succ_self _
    · exact Nat.lt_succ_of_lt (hi.below n hn)

theorem Numbered.send (hi : Numbered c) {i : Nat} {cmd : AgentCmd} (h : c.sending[i]? = some cmd) (cmdRx : List AgentCmd) :
    Numbered { c with sending := c.sending.eraseIdx i, cmdRx := cmdRx, sent := c.sent ++ [cmd] } := by
  obtain ⟨hlt, hcmd⟩ := List.getElem?_eq_some_iff.mp h
  have hperm : ((c.sending.eraseIdx i ++ (c.sent ++ [cmd])).filterMap AgentCmd.call?).Perm
      ((c.sending ++ c.sent).filterMap AgentCmd.call?) := by
    refine List.Perm.filterMap _ ?_
    have hsending := List.getElem_cons_eraseIdx_perm hlt
    rw [hcmd] at hsending
    refine List.Perm.trans ?_ (hsending.append_right c.sent)
    rw [← List.append_assoc]
    exact List.perm_append_singleton cmd _
  exact ⟨hperm.nodup_iff.mpr hi.once, fun n hn => hi.below n (hperm.mem_iff.mp hn)⟩

/-! ## Every run -/

structure Ok (json : SerdeJson StreamHeader) (uuids : UuidText) (maxConcurrent maxPending : Nat) (c : Commands) : Prop where
  managed : Managed json maxConcurrent maxPending c.manager c.rearm
  ordered : Ordered uuids c
  numbered : Numbered c

theorem init_ok : Ok json uuids maxConcurrent maxPending (init maxConcurrent maxPending) :=
  ⟨⟨.init, Rearm.init_inv, rfl⟩,
    ⟨rfl, rfl, rfl, rfl, fun _ hx => absurd hx List.not_mem_nil, rfl, fun _ hx => absurd hx List.not_mem_nil⟩,
    ⟨List.nodup_nil, fun _ hn => absurd hn List.not_mem_nil⟩⟩

/-- The tasks and the timer go on. -/
theorem Ok.task (hi : Ok json uuids maxConcurrent maxPending c) {a : SessionManager.Act} (ha : Manager.Act.inner a)
    (h : taskStep json c a = some c') : Ok json uuids maxConcurrent maxPending c' := by
  obtain ⟨m, hs, rfl⟩ := Option.map_eq_some_iff.mp h
  obtain ⟨hsession, hrest⟩ := Prod.mk.inj (Manager.outside_inner ha hs)
  obtain ⟨hreplies, hfinished⟩ := Prod.mk.inj hrest
  exact ⟨hi.managed.step hs hsession, hi.ordered.same hreplies hfinished _ _ _, hi.numbered.same rfl rfl rfl⟩

theorem step_ok (huuids : uuids.Inverts) (hi : Ok json uuids maxConcurrent maxPending c) {a : CommandsAct}
    (h : step json uuids c a = some c') : Ok json uuids maxConcurrent maxPending c' := by
  cases a with
  | call r =>
    cases h
    exact ⟨hi.managed, hi.ordered.same rfl rfl _ _ _, hi.numbered.call r⟩
  | send i =>
    simp only [step] at h
    split at h
    · rename_i cmd hcmd
      split at h
      · cases h
        exact ⟨hi.managed, hi.ordered.send cmd _, hi.numbered.send hcmd _⟩
      · cases h
    · cases h
  | recv =>
    simp only [step] at h
    split at h
    · rename_i cmd rest hagent hq
      cases h
      refine ⟨hi.managed, ⟨?_, hi.ordered.answered, hi.ordered.replied, hi.ordered.sampled, hi.ordered.sessions,
        hi.ordered.finishing, hi.ordered.readable⟩, hi.numbered.same rfl rfl rfl⟩
      dsimp only
      rw [hi.ordered.inOrder, hagent, hq]
      rfl
    · cases h
  | forward =>
    simp only [step] at h
    split at h
    · rename_i cmd hagent
      split at h
      · cases h
        exact ⟨hi.managed, hi.ordered.forward hagent, hi.numbered.same rfl rfl rfl⟩
      · cases h
    · cases h
  | dispatch opens =>
    simp only [step] at h
    split at h
    · rename_i cmd rest hrun hq
      obtain ⟨hm, ho, hcalls, hsending, hsent⟩ := dispatch_ok huuids hi.managed hi.ordered hrun hq h
      exact ⟨hm, ho, hi.numbered.same hcalls hsending hsent⟩
    · cases h
  | loop a =>
    simp only [step] at h
    obtain ⟨rearm, hr, rfl⟩ := Option.map_eq_some_iff.mp h
    refine ⟨hi.managed.rearms (Rearm.loop_inv hi.managed.link hr) (Rearm.session_loop hr), hi.ordered.same rfl rfl _ _ _, ?_⟩
    exact hi.numbered.same rfl rfl rfl
  | run a restores opens =>
    simp only [step] at h
    split at h
    · rename_i rearm m hr hm
      cases h
      obtain ⟨hmanaged, hreplies, hfinished⟩ := hi.managed.run hr hm
      exact ⟨hmanaged, hi.ordered.same hreplies hfinished _ _ _, hi.numbered.same rfl rfl rfl⟩
    · cases h
  | lose sid =>
    simp only [step] at h
    obtain ⟨rearm, hr, rfl⟩ := Option.map_eq_some_iff.mp h
    have hsame : rearm.session = c.rearm.session := by
      cases hr
      rfl
    exact ⟨hi.managed.rearms (Rearm.step_inv hi.managed.link hr) hsame, hi.ordered.same rfl rfl _ _ _, hi.numbered.same rfl rfl rfl⟩
  | pumpExits number => exact hi.task (a := .pumpExits number) trivial h
  | takeStream number => exact hi.task (a := .takeStream number) trivial h
  | ends number => exact hi.task (a := .ends number) trivial h
  | deregister number => exact hi.task (a := .deregister number) trivial h
  | finish number =>
    simp only [step] at h
    split at h
    · obtain ⟨m, hs, rfl⟩ := Option.map_eq_some_iff.mp h
      obtain ⟨uuid, hout⟩ := Manager.outside_finish hs
      obtain ⟨hsession, hrest⟩ := Prod.mk.inj hout
      obtain ⟨hreplies, hfinished⟩ := Prod.mk.inj hrest
      refine ⟨hi.managed.step hs hsession, ?_, hi.numbered.same rfl rfl rfl⟩
      rw [hfinished, List.drop_left]
      exact hi.ordered.finish huuids hreplies hfinished
    · cases h
  | timerSnapshot => exact hi.task (a := .timerSnapshot) trivial h
  | timerRemove uuids => exact hi.task (a := .timerRemove uuids) trivial h

theorem call_forward (cmd : AgentCmd) : call? cmd.forward = AgentCmd.call? cmd := by
  cases cmd <;> rfl

theorem filterMap_forward (cmds : List AgentCmd) :
    (cmds.map AgentCmd.forward).filterMap call? = cmds.filterMap AgentCmd.call? := by
  rw [List.filterMap_map]
  exact List.filterMap_congr fun cmd _ => call_forward cmd

theorem filterMap_fromClient (cmds : List SessionCommand) : (cmds.filter fromClient).filterMap call? = cmds.filterMap call? := by
  induction cmds with
  | nil => rfl
  | cons cmd cmds ih =>
    cases cmd with
    | streamFinished text => exact ih
    | streamStart | getConnStats | setMaxConcurrent | linkEnable =>
      simp only [List.filter_cons, fromClient, if_true, List.filterMap_cons, ih]

/-- A handled command was sent, and no other with its call's number. -/
theorem Ok.handled_once (hi : Ok json uuids maxConcurrent maxPending c) : (c.handled.filterMap call?).Nodup := by
  have hsub : (c.handled.filterMap call?).Sublist (c.sent.filterMap AgentCmd.call?) := by
    rw [← filterMap_forward, hi.ordered.inOrder, List.filterMap_append, filterMap_fromClient, List.filterMap_append,
      List.append_assoc]
    exact List.sublist_append_left ..
  refine List.Nodup.sublist hsub (List.Nodup.sublist ?_ hi.numbered.once)
  rw [List.filterMap_append]
  exact List.sublist_append_right ..

theorem starts_sublist (cmds : List SessionCommand) : ((cmds.filterMap start?).map (·.1)).Sublist (cmds.filterMap call?) := by
  induction cmds with
  | nil => exact List.Sublist.refl _
  | cons cmd cmds ih =>
    cases cmd with
    | streamStart call uuid info priority => exact ih.cons_cons call
    | getConnStats call => exact ih.cons call
    | streamFinished | setMaxConcurrent | linkEnable => exact ih

/-- None of the handlers, `Agent::run` and the session manager's select has a command that
    it could pass on or handle. -/
def Idle (json : SerdeJson StreamHeader) (uuids : UuidText) (c : Commands) : Prop :=
  c.rearm.run = .select ∧ (∀ i, step json uuids c (.send i) = none) ∧ step json uuids c .recv = none ∧
    step json uuids c .forward = none ∧ ∀ opens, step json uuids c (.dispatch opens) = none

variable (json uuids c) in
theorem dispatchCmd_some (opens : PendingStream → OpenResult) (hrun : c.rearm.run = .select) (cmd : SessionCommand) :
    ∃ c', dispatchCmd json uuids c opens cmd = some c' := by
  cases cmd with
  | streamStart | getConnStats | setMaxConcurrent => exact ⟨_, rfl⟩
  | streamFinished text =>
    simp only [dispatchCmd]
    split
    · exact ⟨_, rfl⟩
    · exact ⟨_, rfl⟩
  | linkEnable enabled =>
    cases enabled with
    | true => exact ⟨_, rfl⟩
    | false =>
      simp only [dispatchCmd, Rearm.runStep, hrun, if_true]
      cases c.rearm.session with
      | none => exact ⟨_, rfl⟩
      | some sid => exact ⟨_, rfl⟩

/-- Nothing is held up on the way. -/
theorem Idle.empty (h : Idle json uuids c) : c.sending = [] ∧ c.cmdRx = [] ∧ c.agent = none ∧ c.smRx = [] := by
  obtain ⟨hrun, hsend, hrecv, hforward, hdispatch⟩ := h
  have hsm : c.smRx = [] := by
    cases hq : c.smRx with
    | nil => rfl
    | cons cmd rest =>
      have hnone := hdispatch fun _ => .refused
      simp only [step, hrun, hq] at hnone
      obtain ⟨c', hsome⟩ := dispatchCmd_some json uuids { c with smRx := rest, handled := c.handled ++ [cmd] }
        (fun _ => .refused) hrun cmd
      cases hnone.symm.trans hsome
  have hagent : c.agent = none := by
    cases ha : c.agent with
    | none => rfl
    | some cmd =>
      simp only [step, ha, hsm] at hforward
      cases hforward
  have hcmd : c.cmdRx = [] := by
    cases hq : c.cmdRx with
    | nil => rfl
    | cons cmd rest =>
      simp only [step, hagent, hq] at hrecv
      cases hrecv
  refine ⟨?_, hcmd, hagent, hsm⟩
  cases hq : c.sending with
  | nil => rfl
  | cons cmd rest =>
    have hnone := hsend 0
    simp only [step, hq, List.getElem?_cons_zero, hcmd] at hnone
    cases hnone

/-- The commands of all callers are handled in the order they got into the channel, none is
    lost or handled twice; every start gets one reply, with its own call's uuid, stream and
    priority, and no call gets two; commands are handled only while a session is installed,
    so the statistics are always a session's; when nobody can pass on or handle anything,
    every command has been handled; the uuid of every `StreamFinished` is read back; and the
    session manager is in a state that it reaches alone. -/
theorem calls_answered (huuids : uuids.Inverts) (h : Reach (step json uuids) anyStep (init maxConcurrent maxPending) c) :
    c.sent.map AgentCmd.forward =
        (c.handled ++ c.smRx).filter fromClient ++ (c.agent.toList ++ c.cmdRx).map AgentCmd.forward ∧
      c.returned.map asked = c.handled.filterMap start? ∧ c.returned.map (·.2) = c.manager.replies ∧
      (c.returned.map (·.1)).Nodup ∧
      (c.rearm.run = .select → c.manager.remote.session = true) ∧
      c.stats.map (·.1) = c.handled.filterMap sample? ∧ (∀ x ∈ c.stats, x.2.isSome = true) ∧
      (Idle json uuids c → c.sending = [] ∧ c.handled.filter fromClient = c.sent.map AgentCmd.forward) ∧
      (∀ text, .streamFinished text ∈ c.handled ++ c.smRx → ∃ uuid, uuids.parseStr text = some uuid) ∧
      Reach (Manager.step json) anyStep (.init maxConcurrent maxPending) c.manager := by
  have hi : Ok json uuids maxConcurrent maxPending c := h.invariant init_ok fun hi _ hs => step_ok huuids hi hs
  refine ⟨hi.ordered.inOrder, hi.ordered.answered, hi.ordered.replied, ?_, fun hrun => (hi.managed.selecting hrun).1,
    hi.ordered.sampled, hi.ordered.sessions, fun hidle => ?_, hi.ordered.readable, hi.managed.manager⟩
  · have hcalls : c.returned.map (·.1) = (c.handled.filterMap start?).map (·.1) := by
      rw [← hi.ordered.answered, List.map_map]
      rfl
    rw [hcalls]
    exact List.Nodup.sublist (starts_sublist _) hi.handled_once
  · obtain ⟨hsending, hcmd, hagent, hsm⟩ := hidle.empty
    refine ⟨hsending, ?_⟩
    rw [hi.ordered.inOrder, hcmd, hagent, hsm]
    simp

/-- Every command on its way is passed on and handled, one at a time. -/
def passOne : List CommandsAct := [.send 0, .recv, .forward, .dispatch Manager.allOpen]

/-- The connection is lost and made anew. -/
def reconnects : List CommandsAct :=
  [.onLinkFailed, .reconnect, .install, .notify].map fun a => .run a (fun _ => true) Manager.allOpen

/-- The first call is answered at once. The second comes while the link is down, and is
    answered when there is a session again; so is the third, about the connection. -/
theorem calls_answered_outage :
    ∃ c, Reach (step Manager.plainJson hyphenated) anyStep (init 1 2) c ∧
      c.returned.map (fun x => (x.1, x.2.status)) = [(0, .running), (1, .pending 1)] ∧ c.stats = [(2, some 1)] ∧
      (c.returned.map (·.1)).Nodup := by
  obtain ⟨c, hr, hp⟩ := Reach.exists_run (step Manager.plainJson hyphenated) anyStep (init 1 2)
    ([.call (.streamStart "00000000-0000-0000-0000-000000000001" ⟨none, none⟩ 0)] ++ passOne ++
      [.loop .snapshot, .lose 0, .loop .acceptErr, .loop .close, .run .changed (fun _ => true) Manager.allOpen,
        .call (.streamStart "00000000-0000-0000-0000-000000000002" ⟨none, none⟩ 0), .send 0, .recv, .forward,
        .call .getConnStats] ++ reconnects ++ [.dispatch Manager.allOpen] ++ passOne)
    (fun c => c.returned.map (fun x => (x.1, x.2.status)) = [(0, .running), (1, .pending 1)] ∧ c.stats = [(2, some 1)])
    (by decide +kernel)
  obtain ⟨hreturned, hstats⟩ := of_decide_eq_true hp
  obtain ⟨-, -, -, honce, -⟩ := calls_answered hyphenated_inverts hr
  exact ⟨c, hr, hreturned, hstats, honce⟩

end Commands

end Quelay.Agent.SessionManager
