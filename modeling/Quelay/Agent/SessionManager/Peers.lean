/-
  Quelay.Agent.SessionManager.Peers — the two agents of a link and their sessions.

  The client agent makes a connection each time `reconnect_loop` gets through; the server
  agent's `listen` starts a task for each that comes in, and the task puts the session into
  the channel of 16 that `try_connect` takes sessions from. So the server can take a session
  that was lost long ago, and sessions in another order than they were made in
  (`quelay-quic/src/transport.rs`, `session_manager.rs`, `main.rs`). Inside, each agent is
  `Rearm`: `run`, `accept_loop` and the sessions. A connection has the client's number for
  it.

  One end of a connection that is closed or lost is lost at the other end some time later.
  The state that `get_link_state` returns is set by `run`, from `Connecting` at the start.

  When nothing is left to do, both agents have the two ends of one live connection, the
  newest, and their accept loops are on it (`sessions_agree`).
-/

import Quelay.Agent.SessionManager.AcceptLoop
import Quelay.Thrift.Mapping

namespace Quelay.Agent.SessionManager

open Quelay.Lib Quelay.Thrift

/-! ## One agent -/

/-- `SessionManager` with the link state it shares with the Thrift handler. -/
structure Endpoint where
  core : Rearm
  linkState : LinkState

namespace Endpoint

def init : Endpoint := ⟨.init, .connecting⟩

/-- The session that the accept loop has. -/
def accepting (n : Endpoint) : Option Nat :=
  match n.core.accept with
  | .accept sid | .header sid => some sid
  | _ => none

/-- The loop's session is lost. -/
def lostLoop (n : Endpoint) : Bool := n.accepting.any fun sid => (n.core.sessions sid).lost

def loopStep (n : Endpoint) (a : Rearm.LoopAct) : Option Endpoint := (n.core.loopStep a).map fun core => { n with core := core }

/-- `accept_stream` fails with the connection only. -/
def acceptErr (n : Endpoint) : Option Endpoint := if n.lostLoop then n.loopStep .acceptErr else none

/-- The new link state is written down when `run` sees a failure and when it has installed a
    session. -/
def runStep (n : Endpoint) (a : Rearm.RunAct) : Option Endpoint :=
  (n.core.runStep a).map fun core =>
    ⟨core,
      match a with
      | .changed => .failed
      | .install => .normal
      | _ => n.linkState⟩

def lose (n : Endpoint) (sid : Nat) : Endpoint :=
  { n with core := { n.core with
    sessions := Function.update n.core.sessions sid { n.core.sessions sid with lost := true } } }

end Endpoint

/-! ## Two agents -/

def listenSlots : Nat := 16

/-- `serverConn`: the connection of each of the server's sessions. `arriving`: connections
    whose task at the server has not sent its session; `refused`: those whose task failed. -/
structure Peers where
  client : Endpoint
  server : Endpoint
  serverConn : Nat → Nat
  arriving : List Nat
  sessRx : List Nat
  refused : List Nat

inductive Side where
  | client
  | server
  deriving DecidableEq, Repr

inductive PeersAct where
  | loop (side : Side) (a : Rearm.LoopAct)
  | run (side : Side) (a : Rearm.RunAct)
  | connect
  | arrive (conn : Nat)
  | refuse (conn : Nat)
  | recv
  | hears (side : Side) (sid : Nat)
  | cut (side : Side) (sid : Nat)

namespace Peers

def init : Peers := ⟨.init, .init, fun _ => 0, [], [], []⟩

def endpoint (p : Peers) : Side → Endpoint
  | .client => p.client
  | .server => p.server

def set (p : Peers) (n : Endpoint) : Side → Peers
  | .client => { p with client := n }
  | .server => { p with server := n }

/-- The other end of the session's connection is gone. -/
def otherGone (p : Peers) : Side → Nat → Bool
  | .client, sid =>
    p.refused.contains sid ||
      (List.range p.server.core.opened).any fun j => p.serverConn j == sid && (p.server.core.sessions j).lost
  | .server, sid => (p.client.core.sessions (p.serverConn sid)).lost

def step (p : Peers) : PeersAct → Option Peers
  | .loop side .acceptErr => (p.endpoint side).acceptErr.map (p.set · side)
  | .loop side a => ((p.endpoint side).loopStep a).map (p.set · side)
  -- A new session is made below.
  | .run _ .reconnect => none
  | .run side a => ((p.endpoint side).runStep a).map (p.set · side)
  | .connect =>
    (p.client.runStep .reconnect).map fun n => { p with client := n, arriving := p.arriving ++ [p.client.core.opened] }
  | .arrive conn =>
    if conn ∈ p.arriving ∧ p.sessRx.length < listenSlots then
      some { p with arriving := p.arriving.erase conn, sessRx := p.sessRx ++ [conn] }
    else none
  | .refuse conn =>
    if conn ∈ p.arriving then some { p with arriving := p.arriving.erase conn, refused := conn :: p.refused } else none
  | .recv =>
    match p.sessRx with
    | conn :: rest =>
      (p.server.runStep .reconnect).map fun n =>
        { p with server := n, sessRx := rest, serverConn := Function.update p.serverConn p.server.core.opened conn }
    | [] => none
  | .hears side sid =>
    if sid < (p.endpoint side).core.opened ∧ ((p.endpoint side).core.sessions sid).lost = false ∧ p.otherGone side sid then
      some (p.set ((p.endpoint side).lose sid) side)
    else none
  -- The network fails, for this end.
  | .cut side sid => if sid < (p.endpoint side).core.opened then some (p.set ((p.endpoint side).lose sid) side) else none

/-- The steps of one agent that wait for nothing outside: not for a stream or a header of the
    peer, nor for the operator. -/
def ownDue (p : Peers) (side : Side) : List PeersAct :=
  [.loop side .snapshot, .loop side .acceptErr, .loop side .insert, .loop side .close, .loop side .wait,
    .loop side .wake, .run side .changed, .run side .onLinkFailed, .run side .install, .run side .notify] ++
  -- Reading a header on a lost connection fails.
  (if (p.endpoint side).lostLoop then [.loop side .headerErr] else []) ++
  (List.range (p.endpoint side).core.opened).map (.hears side)

def due (p : Peers) : List PeersAct :=
  p.ownDue .client ++ p.ownDue .server ++ [.connect, .recv] ++ p.arriving.map .arrive

/-- Nothing is left to do. -/
def Rest (p : Peers) : Prop := ∀ a ∈ p.due, (p.step a).isNone = true

instance (p : Peers) : Decidable p.Rest := inferInstanceAs (Decidable (∀ a ∈ p.due, (p.step a).isNone = true))

end Peers

/-! ## The sessions an agent has been through -/

namespace Rearm

variable {m m' : Rearm}

/-- Every session but the newest was closed by this agent. -/
structure Past (m : Rearm) : Prop where
  newest : (∀ sid, m.run ≠ .install sid) → m.watched + 1 = m.opened
  coming : ∀ sid, m.run = .install sid → sid + 1 = m.opened ∧ m.watched < sid
  closed : ∀ sid, sid < m.opened → sid ≠ m.watched → m.run ≠ .install sid → 0 < (m.sessions sid).version
  replacing : m.run = .reconnecting ∨ (∃ sid, m.run = .install sid) → 0 < (m.sessions m.watched).version
  loop : ∀ sid, holds m.accept sid → sid < m.opened

theorem init_past : Past init := by
  refine ⟨fun _ => rfl, ?_, ?_, ?_, ?_⟩
  · intro sid h
    cases h
  · intro sid hlt hne
    have hlt : sid < 1 := hlt
    have hne : sid ≠ 0 := hne
    omega
  · rintro (h | ⟨_, h⟩) <;> cases h
  · rintro sid (h | h | h | h) <;> cases h

theorem Past.watched_lt (hp : Past m) : m.watched < m.opened := by
  by_cases h : ∃ sid, m.run = .install sid
  · obtain ⟨sid, h⟩ := h
    obtain ⟨hnew, hlt⟩ := hp.coming sid h
    omega
  · have hnew := hp.newest fun sid hr => h ⟨sid, hr⟩
    omega

/-- The loop moves, and sessions may be closed. -/
theorem Past.move (hp : Past m) (hrun : m'.run = m.run) (hw : m'.watched = m.watched) (ho : m'.opened = m.opened)
    (hv : ∀ i, (m.sessions i).version ≤ (m'.sessions i).version)
    (hl : ∀ sid, holds m'.accept sid → sid < m.opened) : Past m' := by
  refine ⟨?_, ?_, ?_, ?_, ?_⟩
  · rw [hrun, hw, ho]
    exact hp.newest
  · rw [hrun, hw, ho]
    exact hp.coming
  · intro sid hlt hne hnot
    rw [ho] at hlt
    rw [hw] at hne
    rw [hrun] at hnot
    exact Nat.lt_of_lt_of_le (hp.closed sid hlt hne hnot) (hv sid)
  · intro h
    rw [hrun] at h
    rw [hw]
    exact Nat.lt_of_lt_of_le (hp.replacing h) (hv _)
  · intro sid h
    rw [ho]
    exact hl sid h

theorem not_holds_of {pc : AcceptPc} (h : pc = .snapshot ∨ pc = .wait ∨ pc = .parked) (sid : Nat) : ¬ holds pc sid := by
  rcases h with rfl | rfl | rfl <;> simp [holds]

theorem session_eq (hi : Inv m) {sid : Nat} (h : m.session = some sid) : sid = m.watched := by
  cases hr : m.run with
  | select => exact Option.some.inj (h.symm.trans (hi.watches (.inl hr)).1)
  | restoring => exact Option.some.inj (h.symm.trans (hi.watches (.inr hr)).1)
  | failed => exact Option.some.inj (h.symm.trans (hi.failing hr).1)
  | reconnecting => cases h.symm.trans (hi.cleared (.inl hr))
  | install i => cases h.symm.trans (hi.cleared (.inr ⟨i, hr⟩))

theorem loop_past {a : LoopAct} (hp : Past m) (hi : Inv m) (h : m.loopStep a = some m') : Past m' := by
  have hsame : ∀ i, (m.sessions i).version ≤ (m.sessions i).version := fun _ => Nat.le_refl _
  cases a with
  | snapshot =>
    simp only [loopStep] at h
    split at h
    · split at h
      · rename_i sid hs
        cases h
        refine hp.move rfl rfl rfl hsame ?_
        rintro i (h | h | h | h) <;> cases h
        rw [session_eq hi hs]
        exact hp.watched_lt
      · cases h
        exact hp.move rfl rfl rfl hsame fun i hh => absurd hh (not_holds_of (.inr (.inl rfl)) i)
    · cases h
  | acceptOk =>
    simp only [loopStep] at h
    split at h
    · rename_i sid hs
      cases h
      refine hp.move rfl rfl rfl hsame ?_
      rintro i (h | h | h | h) <;> cases h
      exact hp.loop _ (.inl hs)
    · cases h
  | acceptErr =>
    simp only [loopStep] at h
    split at h
    · rename_i sid hs
      cases h
      refine hp.move rfl rfl rfl hsame ?_
      rintro i (h | h | h | h) <;> cases h
      exact hp.loop _ (.inl hs)
    · cases h
  | headerErr =>
    simp only [loopStep] at h
    split at h
    · cases h
      exact hp.move rfl rfl rfl hsame fun i hh => absurd hh (not_holds_of (.inl rfl) i)
    · cases h
  | spawn =>
    simp only [loopStep] at h
    split at h
    · rename_i sid hs
      cases h
      refine hp.move rfl rfl rfl hsame ?_
      rintro i (h | h | h | h) <;> cases h
      exact hp.loop _ (.inr (.inl hs))
    · cases h
  | insert =>
    simp only [loopStep] at h
    split at h
    · split at h
      · cases h
      · cases h
        exact hp.move rfl rfl rfl hsame fun i hh => absurd hh (not_holds_of (.inl rfl) i)
    · cases h
  | close =>
    simp only [loopStep] at h
    split at h
    · rename_i sid hs
      cases h
      exact hp.move rfl rfl rfl (version_closeSession m sid) fun i hh => absurd hh (not_holds_of (.inr (.inl rfl)) i)
    · cases h
  | wait =>
    simp only [loopStep] at h
    split at h
    · split at h
      · cases h
        exact hp.move rfl rfl rfl hsame fun i hh => absurd hh (not_holds_of (.inl rfl) i)
      · cases h
        exact hp.move rfl rfl rfl hsame fun i hh => absurd hh (not_holds_of (.inr (.inr rfl)) i)
    · cases h
  | wake =>
    simp only [loopStep] at h
    split at h
    · cases h
      exact hp.move rfl rfl rfl hsame fun i hh => absurd hh (not_holds_of (.inl rfl) i)
    · cases h

/-- `run` moves, and has no new session. -/
theorem Past.moveRun (hp : Past m) (hnot : ∀ sid, m.run ≠ .install sid) (hnot' : ∀ sid, m'.run ≠ .install sid)
    (hover : m'.run = .reconnecting → 0 < (m.sessions m.watched).version) (hw : m'.watched = m.watched)
    (ho : m'.opened = m.opened) (hs : m'.sessions = m.sessions) (ha : m'.accept = m.accept) : Past m' := by
  refine ⟨fun _ => ?_, fun sid hr => absurd hr (hnot' sid), fun sid hlt hne _ => ?_, fun h => ?_, ?_⟩
  · rw [hw, ho]
    exact hp.newest hnot
  · rw [hs]
    exact hp.closed sid (ho ▸ hlt) (hw ▸ hne) (hnot sid)
  · rw [hs, hw]
    rcases h with h | ⟨sid, h⟩
    · exact hover h
    · exact absurd h (hnot' sid)
  · rw [ha, ho]
    exact hp.loop

theorem run_past {a : RunAct} (hp : Past m) (hi : Inv m) (h : m.runStep a = some m') : Past m' := by
  cases a with
  | changed =>
    simp only [runStep] at h
    split at h
    · rename_i hc
      cases h
      exact hp.moveRun (by rw [hc.1]; simp) (by simp) (by simp) rfl rfl rfl rfl
    · cases h
  | onLinkFailed =>
    simp only [runStep] at h
    split at h
    · rename_i hr
      cases h
      exact hp.moveRun (by rw [hr]; simp) (by simp) (fun _ => (hi.failing hr).2) rfl rfl rfl rfl
    · cases h
  | reconnect =>
    simp only [runStep] at h
    split at h
    · rename_i hr
      cases h
      refine ⟨fun hn => absurd rfl (hn m.opened), ?_, ?_, fun _ => hp.replacing (.inl hr), ?_⟩
      · intro sid hr'
        cases hr'
        exact ⟨rfl, hp.watched_lt⟩
      · intro sid hlt hne hnot
        have hlt : sid < m.opened + 1 := hlt
        have hne' : sid ≠ m.opened := by
          rintro rfl
          exact hnot rfl
        exact hp.closed sid (by omega) hne (by rw [hr]; simp)
      · intro sid hh
        exact Nat.lt_succ_of_lt (hp.loop sid hh)
    · cases h
  | install =>
    simp only [runStep] at h
    split at h
    · rename_i sid hr
      cases h
      obtain ⟨hnew, hlt⟩ := hp.coming sid hr
      refine ⟨fun _ => hnew, ?_, ?_, ?_, hp.loop⟩
      · intro i hr'
        cases hr'
      · intro i hi' hne _
        by_cases hw : i = m.watched
        · rw [hw]
          exact hp.replacing (.inr ⟨sid, hr⟩)
        · refine hp.closed i hi' hw ?_
          rw [hr]
          intro heq
          exact hne (RunPc.install.inj heq).symm
      · rintro (hr' | ⟨_, hr'⟩) <;> cases hr'
    · cases h
  | notify =>
    simp only [runStep] at h
    split at h
    · rename_i hr
      cases h
      exact hp.moveRun (by rw [hr]; simp) (by simp) (by simp) rfl rfl rfl rfl
    · cases h
  | linkEnable =>
    simp only [runStep] at h
    split at h
    · split at h
      · rename_i sid _
        cases h
        exact hp.move rfl rfl rfl (version_closeSession m sid) hp.loop
      · cases h
        exact hp
    · cases h

end Rearm

namespace Endpoint

variable {n n' : Endpoint}

/-- What `get_link_state` returns: `Connecting` as long as the first session has not failed,
    though there is a session. -/
def told (m : Rearm) : LinkState :=
  match m.run with
  | .select | .restoring => if m.watched = 0 then .connecting else .normal
  | _ => .failed

structure Ok (n : Endpoint) : Prop where
  inv : Rearm.Inv n.core
  past : Rearm.Past n.core
  told : n.linkState = told n.core

theorem init_ok : Ok init := ⟨Rearm.init_inv, Rearm.init_past, rfl⟩

theorem loop_run {m m' : Rearm} {a : Rearm.LoopAct} (h : m.loopStep a = some m') :
    m'.run = m.run ∧ m'.watched = m.watched ∧ m'.opened = m.opened := by
  cases a <;> simp only [Rearm.loopStep] at h <;> (repeat' split at h) <;> cases h <;> exact ⟨rfl, rfl, rfl⟩

theorem loop_ok {a : Rearm.LoopAct} (hi : Ok n) (h : n.loopStep a = some n') : Ok n' := by
  obtain ⟨m, hm, rfl⟩ := Option.map_eq_some_iff.mp h
  obtain ⟨hrun, hw, _⟩ := loop_run hm
  refine ⟨Rearm.loop_inv hi.inv hm, Rearm.loop_past hi.past hi.inv hm, ?_⟩
  have htold : Endpoint.told m = Endpoint.told n.core := by rw [Endpoint.told, Endpoint.told, hrun, hw]
  rw [htold]
  exact hi.told

theorem run_ok {a : Rearm.RunAct} (hi : Ok n) (h : n.runStep a = some n') : Ok n' := by
  obtain ⟨m, hm, rfl⟩ := Option.map_eq_some_iff.mp h
  refine ⟨Rearm.run_inv hi.inv hm, Rearm.run_past hi.past hi.inv hm, ?_⟩
  have htold := hi.told
  cases a with
  | changed =>
    simp only [Rearm.runStep] at hm
    split at hm
    · cases hm
      rfl
    · cases hm
  | onLinkFailed | reconnect =>
    simp only [Rearm.runStep] at hm
    split at hm
    · rename_i hr
      cases hm
      rw [Endpoint.told, hr] at htold
      exact htold
    · cases hm
  | install =>
    simp only [Rearm.runStep] at hm
    split at hm
    · rename_i sid hr
      cases hm
      have hlt := (hi.past.coming sid hr).2
      have hne : sid ≠ 0 := by omega
      exact (if_neg hne).symm
    · cases hm
  | notify =>
    simp only [Rearm.runStep] at hm
    split at hm
    · rename_i hr
      cases hm
      rw [Endpoint.told, hr] at htold
      exact htold
    · cases hm
  | linkEnable =>
    simp only [Rearm.runStep] at hm
    split at hm
    · split at hm
      · cases hm
        exact htold
      · cases hm
        exact htold
    · cases hm

theorem lose_ok (hi : Ok n) (sid : Nat) : Ok (n.lose sid) := by
  have hstep : n.core.step (.lose sid) = some (n.lose sid).core := rfl
  refine ⟨Rearm.step_inv hi.inv hstep, hi.past.move rfl rfl rfl (fun i => ?_) hi.past.loop, hi.told⟩
  show (n.core.sessions i).version ≤
    (Function.update n.core.sessions sid { n.core.sessions sid with lost := true } i).version
  by_cases h : i = sid
  · subst h
    rw [Function.update_self]
  · rw [Function.update_of_ne h]

/-- A session that the agent went past is lost. -/
theorem Ok.gone (hi : Ok n) {sid : Nat} (hlt : sid < n.core.opened) (hne : sid ≠ n.core.watched)
    (hrun : n.core.run ≠ .install sid) : (n.core.sessions sid).lost = true :=
  hi.inv.closedLost sid (hi.past.closed sid hlt hne hrun)

end Endpoint

namespace Peers

variable {p p' : Peers} {side : Side}

/-! ## An agent at rest -/

theorem due_own {a : PeersAct} (h : a ∈ p.ownDue side) : a ∈ p.due := by
  cases side with
  | client => exact List.mem_append_left _ (List.mem_append_left _ (List.mem_append_left _ h))
  | server => exact List.mem_append_left _ (List.mem_append_left _ (List.mem_append_right _ h))

theorem Rest.own (h : Rest p) (side : Side) {a : PeersAct} (ha : a ∈ p.ownDue side) : p.step a = none :=
  Option.isNone_iff_eq_none.mp (h a (due_own ha))

theorem Rest.loop (h : Rest p) (side : Side) (a : Rearm.LoopAct) (ha : .loop side a ∈ p.ownDue side) (hne : a ≠ .acceptErr) :
    (p.endpoint side).core.loopStep a = none := by
  have hnone := h.own side ha
  cases a with
  | acceptErr => exact absurd rfl hne
  | _ => simpa only [step, Endpoint.loopStep, Option.map_eq_none_iff] using hnone

theorem Rest.run (h : Rest p) (side : Side) (a : Rearm.RunAct) (ha : .run side a ∈ p.ownDue side) (hne : a ≠ .reconnect) :
    (p.endpoint side).core.runStep a = none := by
  have hnone := h.own side ha
  cases a with
  | reconnect => exact absurd rfl hne
  | _ => simpa only [step, Endpoint.runStep, Option.map_eq_none_iff] using hnone

/-- Nothing is left of `run`: it is in its select and has seen everything, or waits for a
    session. -/
theorem Rest.run_cases (h : Rest p) (hi : (p.endpoint side).Ok) :
    ((p.endpoint side).core.run = .select ∧ ((p.endpoint side).core.sessions (p.endpoint side).core.watched).version = 0) ∨
      (p.endpoint side).core.run = .reconnecting := by
  have hchanged := h.run side .changed (by simp [ownDue]) (by simp)
  have hfailed := h.run side .onLinkFailed (by simp [ownDue]) (by simp)
  have hinstall := h.run side .install (by simp [ownDue]) (by simp)
  have hnotify := h.run side .notify (by simp [ownDue]) (by simp)
  cases hr : (p.endpoint side).core.run with
  | select =>
    refine .inl ⟨rfl, ?_⟩
    have hseen := (hi.inv.watches (.inl hr)).2
    simp only [Rearm.runStep, hr, true_and] at hchanged
    split at hchanged
    · cases hchanged
    · omega
  | failed =>
    simp only [Rearm.runStep, hr, if_true] at hfailed
    cases hfailed
  | reconnecting => exact .inr rfl
  | install sid =>
    simp only [Rearm.runStep, hr] at hinstall
    cases hinstall
  | restoring =>
    simp only [Rearm.runStep, hr, if_true] at hnotify
    cases hnotify

/-- Nothing is left of the accept loop: it has a live session. -/
theorem Rest.loop_cases (h : Rest p) (hi : (p.endpoint side).Ok) (hr : (p.endpoint side).core.run = .select)
    (hv : ((p.endpoint side).core.sessions (p.endpoint side).core.watched).version = 0) :
    ∃ sid, (p.endpoint side).accepting = some sid ∧ ((p.endpoint side).core.sessions sid).lost = false := by
  have hsnapshot := h.loop side .snapshot (by simp [ownDue]) (by simp)
  have hinsert := h.loop side .insert (by simp [ownDue]) (by simp)
  have hclose := h.loop side .close (by simp [ownDue]) (by simp)
  have hwait := h.loop side .wait (by simp [ownDue]) (by simp)
  have hwake := h.loop side .wake (by simp [ownDue]) (by simp)
  cases ha : (p.endpoint side).core.accept with
  | snapshot =>
    have hs := (hi.inv.watches (.inl hr)).1
    simp [Rearm.loopStep, ha, hr, hs] at hsnapshot
  | accept sid =>
    have hacc : (p.endpoint side).accepting = some sid := by rw [Endpoint.accepting, ha]
    refine ⟨sid, hacc, ?_⟩
    have herr : p.step (.loop side .acceptErr) = none := h.own side (by simp [ownDue])
    simp only [step, Endpoint.acceptErr, Endpoint.lostLoop, hacc, Option.any_some, Endpoint.loopStep, Rearm.loopStep, ha] at herr
    cases hl : ((p.endpoint side).core.sessions sid).lost with
    | false => rfl
    | true =>
      rw [hl] at herr
      cases herr
  | header sid =>
    have hacc : (p.endpoint side).accepting = some sid := by rw [Endpoint.accepting, ha]
    refine ⟨sid, hacc, ?_⟩
    cases hl : ((p.endpoint side).core.sessions sid).lost with
    | false => rfl
    | true =>
      have hlost : (p.endpoint side).lostLoop = true := by rw [Endpoint.lostLoop, hacc]; exact hl
      have herr := h.loop side .headerErr (by simp [ownDue, hlost]) (by simp)
      simp only [Rearm.loopStep, ha] at herr
      cases herr
  | insert sid =>
    simp [Rearm.loopStep, ha, hr] at hinsert
  | close sid =>
    simp only [Rearm.loopStep, ha] at hclose
    cases hclose
  | wait =>
    simp only [Rearm.loopStep, ha, if_true] at hwait
    split at hwait <;> cases hwait
  | parked =>
    simp only [Rearm.loopStep, ha, true_and] at hwake
    split at hwake
    · cases hwake
    · rename_i hw
      rcases hi.inv.parked ha hr with hin | hlt
      · exact absurd hin hw
      · omega

/-- An agent at rest accepts on the live session it has installed, or waits for one. -/
theorem Rest.endpoint_cases (h : Rest p) (hi : (p.endpoint side).Ok) :
    (∃ sid, (p.endpoint side).core.session = some sid ∧ (p.endpoint side).core.watched = sid ∧
      (p.endpoint side).core.run = .select ∧ ((p.endpoint side).core.sessions sid).lost = false ∧
      (p.endpoint side).accepting = some sid) ∨ (p.endpoint side).core.run = .reconnecting := by
  rcases h.run_cases hi with ⟨hr, hv⟩ | hr
  · obtain ⟨sid, hacc, hlive⟩ := h.loop_cases hi hr hv
    have hholds : Rearm.holds (p.endpoint side).core.accept sid := by
      rw [Endpoint.accepting] at hacc
      split at hacc
      · rename_i heq
        cases hacc
        exact .inl heq
      · rename_i heq
        cases hacc
        exact .inr (.inl heq)
      · cases hacc
    have hsid : sid = (p.endpoint side).core.watched := by
      by_contra hne
      rw [hi.gone (hi.past.loop sid hholds) hne (by rw [hr]; simp)] at hlive
      cases hlive
    refine .inl ⟨sid, ?_, hsid.symm, hr, hlive, hacc⟩
    rw [hsid]
    exact (hi.inv.watches (.inl hr)).1
  · exact .inr hr

/-! ## Connections -/

/-- Every connection is on its way to the server, was refused there, or is one of the
    server's sessions. -/
structure Linked (p : Peers) : Prop where
  placed : ∀ conn, conn < p.client.core.opened → conn ∈ p.arriving ∨ conn ∈ p.sessRx ∨ conn ∈ p.refused ∨
    ∃ j, j < p.server.core.opened ∧ p.serverConn j = conn
  known : ∀ j, j < p.server.core.opened → p.serverConn j < p.client.core.opened
  coming : ∀ conn, conn ∈ p.arriving ∨ conn ∈ p.sessRx → conn < p.client.core.opened

structure Ok (p : Peers) : Prop where
  client : p.client.Ok
  server : p.server.Ok
  linked : Linked p

theorem init_ok : Ok init := by
  refine ⟨Endpoint.init_ok, Endpoint.init_ok, ?_, ?_, ?_⟩
  · intro conn hlt
    have hlt : conn < 1 := hlt
    exact .inr (.inr (.inr ⟨0, Nat.one_pos, by show 0 = conn; omega⟩))
  · intro j _
    exact Nat.one_pos
  · rintro conn (h | h) <;> cases h

theorem Ok.endpoint (hi : Ok p) (side : Side) : (p.endpoint side).Ok := by
  cases side with
  | client => exact hi.client
  | server => exact hi.server

/-- One agent moves, with the sessions it has. -/
theorem Ok.set (hi : Ok p) {n : Endpoint} (hn : n.Ok) (ho : n.core.opened = (p.endpoint side).core.opened) :
    Ok (p.set n side) := by
  cases side with
  | client =>
    refine ⟨hn, hi.server, ?_, ?_, ?_⟩
    · intro conn hlt
      exact hi.linked.placed conn (ho ▸ hlt)
    · intro j hj
      show p.serverConn j < n.core.opened
      rw [ho]
      exact hi.linked.known j hj
    · intro conn hm
      show conn < n.core.opened
      rw [ho]
      exact hi.linked.coming conn hm
  | server =>
    refine ⟨hi.client, hn, ?_, ?_, hi.linked.coming⟩
    · intro conn hlt
      rcases hi.linked.placed conn hlt with h | h | h | ⟨j, hj, hc⟩
      · exact .inl h
      · exact .inr (.inl h)
      · exact .inr (.inr (.inl h))
      · exact .inr (.inr (.inr ⟨j, ho.symm ▸ hj, hc⟩))
    · intro j hj
      exact hi.linked.known j (ho ▸ hj)

theorem run_opened {m m' : Rearm} {a : Rearm.RunAct} (h : m.runStep a = some m') (hne : a ≠ .reconnect) :
    m'.opened = m.opened := by
  cases a with
  | reconnect => exact absurd rfl hne
  | _ => simp only [Rearm.runStep] at h; (repeat' split at h) <;> cases h <;> rfl

theorem reconnect_opened {m m' : Rearm} (h : m.runStep .reconnect = some m') : m'.opened = m.opened + 1 := by
  simp only [Rearm.runStep] at h
  split at h
  · cases h
    rfl
  · cases h

theorem Ok.moveLoop (hi : Ok p) {a : Rearm.LoopAct} (h : ((p.endpoint side).loopStep a).map (p.set · side) = some p') :
    Ok p' := by
  obtain ⟨n, hn, rfl⟩ := Option.map_eq_some_iff.mp h
  obtain ⟨m, hm, rfl⟩ := Option.map_eq_some_iff.mp hn
  exact hi.set (Endpoint.loop_ok (hi.endpoint side) hn) (Endpoint.loop_run hm).2.2

theorem Ok.moveRun (hi : Ok p) {a : Rearm.RunAct} (hne : a ≠ .reconnect)
    (h : ((p.endpoint side).runStep a).map (p.set · side) = some p') : Ok p' := by
  obtain ⟨n, hn, rfl⟩ := Option.map_eq_some_iff.mp h
  obtain ⟨m, hm, rfl⟩ := Option.map_eq_some_iff.mp hn
  exact hi.set (Endpoint.run_ok (hi.endpoint side) hn) (run_opened hm hne)

/-- The client makes a connection. -/
theorem Ok.connect (hi : Ok p) (h : p.step .connect = some p') : Ok p' := by
  obtain ⟨n, hn, rfl⟩ := Option.map_eq_some_iff.mp h
  obtain ⟨m, hm, rfl⟩ := Option.map_eq_some_iff.mp hn
  have ho := reconnect_opened hm
  refine ⟨Endpoint.run_ok hi.client hn, hi.server, ?_, ?_, ?_⟩
  · intro conn hlt
    have hlt : conn < m.opened := hlt
    by_cases hnew : conn = p.client.core.opened
    · exact .inl (by rw [hnew]; simp)
    · rcases hi.linked.placed conn (by omega) with h | h | h | h
      · exact .inl (List.mem_append_left _ h)
      · exact .inr (.inl h)
      · exact .inr (.inr (.inl h))
      · exact .inr (.inr (.inr h))
  · intro j hj
    have hlt := hi.linked.known j hj
    show p.serverConn j < m.opened
    omega
  · intro conn hm
    show conn < m.opened
    rcases hm with hm | hm
    · rcases List.mem_append.mp hm with hm | hm
      · have hlt := hi.linked.coming conn (.inl hm)
        omega
      · rw [List.mem_singleton.mp hm]
        omega
    · have hlt := hi.linked.coming conn (.inr hm)
      omega

/-- The server takes a session. -/
theorem Ok.recv (hi : Ok p) (h : p.step .recv = some p') : Ok p' := by
  simp only [step] at h
  split at h
  · rename_i conn rest hrx
    obtain ⟨n, hn, rfl⟩ := Option.map_eq_some_iff.mp h
    obtain ⟨m, hm, rfl⟩ := Option.map_eq_some_iff.mp hn
    have ho := reconnect_opened hm
    have hself : Function.update p.serverConn p.server.core.opened conn p.server.core.opened = conn :=
      Function.update_self _ _ _
    have hold : ∀ j, j < p.server.core.opened →
        Function.update p.serverConn p.server.core.opened conn j = p.serverConn j := fun j hj =>
      Function.update_of_ne (by omega) _ _
    have hconn : conn < p.client.core.opened := hi.linked.coming conn (.inr (by rw [hrx]; exact List.mem_cons_self))
    refine ⟨hi.client, Endpoint.run_ok hi.server hn, ?_, ?_, ?_⟩
    · intro c hlt
      rcases hi.linked.placed c hlt with h | h | h | ⟨j, hj, hc⟩
      · exact .inl h
      · rw [hrx] at h
        rcases List.mem_cons.mp h with rfl | h
        · exact .inr (.inr (.inr ⟨p.server.core.opened, by show _ < m.opened; omega, hself⟩))
        · exact .inr (.inl h)
      · exact .inr (.inr (.inl h))
      · exact .inr (.inr (.inr ⟨j, by show j < m.opened; omega, (hold j hj).trans hc⟩))
    · intro j hj
      have hj : j < m.opened := hj
      show Function.update p.serverConn p.server.core.opened conn j < p.client.core.opened
      by_cases hnew : j = p.server.core.opened
      · rw [hnew, hself]
        exact hconn
      · rw [hold j (by omega)]
        exact hi.linked.known j (by omega)
    · rintro c (hm | hm)
      · exact hi.linked.coming c (.inl hm)
      · exact hi.linked.coming c (.inr (by rw [hrx]; exact List.mem_cons_of_mem _ hm))
  · cases h

/-- A connection leaves its task. -/
theorem Linked.leave (hi : Linked p) {conn : Nat} (hm : conn ∈ p.arriving) {sessRx refused : List Nat}
    (hs : ∀ c, c ∈ p.sessRx → c ∈ sessRx) (hr : ∀ c, c ∈ p.refused → c ∈ refused)
    (hto : conn ∈ sessRx ∨ conn ∈ refused) (hs' : ∀ c, c ∈ sessRx → c = conn ∨ c ∈ p.sessRx) :
    Linked { p with arriving := p.arriving.erase conn, sessRx := sessRx, refused := refused } := by
  refine ⟨?_, hi.known, ?_⟩
  · intro c hlt
    by_cases hc : c = conn
    · subst hc
      rcases hto with h | h
      · exact .inr (.inl h)
      · exact .inr (.inr (.inl h))
    · rcases hi.placed c hlt with h | h | h | h
      · exact .inl ((List.mem_erase_of_ne hc).mpr h)
      · exact .inr (.inl (hs c h))
      · exact .inr (.inr (.inl (hr c h)))
      · exact .inr (.inr (.inr h))
  · rintro c (h | h)
    · exact hi.coming c (.inl (List.mem_of_mem_erase h))
    · rcases hs' c h with rfl | h
      · exact hi.coming c (.inl hm)
      · exact hi.coming c (.inr h)

theorem step_ok {a : PeersAct} (hi : Ok p) (h : p.step a = some p') : Ok p' := by
  cases a with
  | loop side a =>
    cases a with
    | acceptErr =>
      simp only [step, Endpoint.acceptErr] at h
      split at h
      · exact hi.moveLoop h
      · cases h
    | _ => exact hi.moveLoop h
  | run side a =>
    cases a with
    | reconnect => cases h
    | _ => exact hi.moveRun (by simp) h
  | connect => exact hi.connect h
  | recv => exact hi.recv h
  | arrive conn =>
    simp only [step] at h
    split at h
    · rename_i hc
      cases h
      refine ⟨hi.client, hi.server, hi.linked.leave hc.1 (fun c hm => List.mem_append_left _ hm) (fun _ hm => hm)
        (.inl (by simp)) fun c hm => ?_⟩
      rcases List.mem_append.mp hm with hm | hm
      · exact .inr hm
      · exact .inl (List.mem_singleton.mp hm)
    · cases h
  | refuse conn =>
    simp only [step] at h
    split at h
    · rename_i hc
      cases h
      exact ⟨hi.client, hi.server, hi.linked.leave hc (fun _ hm => hm) (fun _ hm => List.mem_cons_of_mem _ hm)
        (.inr List.mem_cons_self) fun _ hm => .inr hm⟩
    · cases h
  | hears side sid =>
    simp only [step] at h
    split at h
    · cases h
      exact hi.set (Endpoint.lose_ok (hi.endpoint side) sid) rfl
    · cases h
  | cut side sid =>
    simp only [step] at h
    split at h
    · cases h
      exact hi.set (Endpoint.lose_ok (hi.endpoint side) sid) rfl
    · cases h

/-! ## Agreement -/

theorem Rest.not_gone (h : Rest p) (side : Side) {sid : Nat} (hlt : sid < (p.endpoint side).core.opened)
    (hlive : ((p.endpoint side).core.sessions sid).lost = false) : p.otherGone side sid = false := by
  have hmem : .hears side sid ∈ p.ownDue side :=
    List.mem_append_right _ (List.mem_map.mpr ⟨sid, List.mem_range.mpr hlt, rfl⟩)
  have hnone := h.own side hmem
  simp only [step] at hnone
  split at hnone
  · cases hnone
  · rename_i hcond
    cases hg : p.otherGone side sid with
    | false => rfl
    | true => exact absurd ⟨hlt, hlive, hg⟩ hcond

/-- The server does not wait for a session while the client has one. -/
theorem Rest.server_has (h : Rest p) (hi : Ok p) {sid : Nat} (hlt : sid < p.client.core.opened)
    (hlive : (p.client.core.sessions sid).lost = false) : p.server.core.run ≠ .reconnecting := by
  intro hr
  have hgone := h.not_gone .client hlt hlive
  simp only [otherGone, Bool.or_eq_false_iff] at hgone
  have hrecv : (p.step .recv).isNone = true := h _ (by simp [due])
  have hrx : p.sessRx = [] := by
    cases hrx : p.sessRx with
    | nil => rfl
    | cons conn rest =>
      simp only [step, hrx, Endpoint.runStep, Rearm.runStep, hr, if_true] at hrecv
      cases hrecv
  rcases hi.linked.placed sid hlt with hm | hm | hm | ⟨j, hj, hc⟩
  · have harrive : (p.step (.arrive sid)).isNone = true := h _ (by simp [due, hm])
    have hroom : p.sessRx.length < listenSlots := by rw [hrx]; decide
    simp only [step, hm, hroom, and_self, if_true] at harrive
    cases harrive
  · rw [hrx] at hm
    cases hm
  · have hnot : p.refused.contains sid = true := List.contains_iff_mem.mpr hm
    rw [hnot] at hgone
    cases hgone.1
  · -- The server has been through this session and has closed it.
    have hlost : (p.server.core.sessions j).lost = true := by
      by_cases hw : j = p.server.core.watched
      · rw [hw]
        exact hi.server.inv.closedLost _ (hi.server.past.replacing (.inl hr))
      · exact hi.server.gone hj hw (by rw [hr]; simp)
    have hall := List.any_eq_false.mp hgone.2 j (List.mem_range.mpr hj)
    rw [hc, hlost] at hall
    simp at hall

/-- Both have the two ends of the client's newest connection, which is live, and their accept
    loops are on it. -/
def Agreed (p : Peers) : Prop :=
  ∃ i j, p.client.core.session = some i ∧ p.server.core.session = some j ∧ p.serverConn j = i ∧
    i + 1 = p.client.core.opened ∧ (p.client.core.sessions i).lost = false ∧ (p.server.core.sessions j).lost = false ∧
    p.client.accepting = some i ∧ p.server.accepting = some j ∧
    p.client.linkState = (if i = 0 then .connecting else .normal) ∧
    p.server.linkState = (if j = 0 then .connecting else .normal)

theorem Rest.agreed (hrest : Rest p) (hi : Ok p) : Agreed p := by
  have hconnect : (p.step .connect).isNone = true := hrest _ (by simp [due])
  -- The client is not waiting: nothing keeps it from connecting.
  obtain ⟨i, hci, hcw, hcr, hclive, hcacc⟩ : ∃ i, p.client.core.session = some i ∧ p.client.core.watched = i ∧
      p.client.core.run = .select ∧ (p.client.core.sessions i).lost = false ∧ p.client.accepting = some i := by
    rcases hrest.endpoint_cases (hi.endpoint .client) with hend | hr
    · exact hend
    · have hr : p.client.core.run = .reconnecting := hr
      simp only [step, Endpoint.runStep, Rearm.runStep, hr, if_true] at hconnect
      cases hconnect
  have hclt : i < p.client.core.opened := hcw ▸ hi.client.past.watched_lt
  obtain ⟨j, hsj, hsw, hsr, hslive, hsacc⟩ : ∃ j, p.server.core.session = some j ∧ p.server.core.watched = j ∧
      p.server.core.run = .select ∧ (p.server.core.sessions j).lost = false ∧ p.server.accepting = some j := by
    rcases hrest.endpoint_cases (hi.endpoint .server) with hend | hr
    · exact hend
    · exact absurd hr (hrest.server_has hi hclt hclive)
  have hslt : j < p.server.core.opened := hsw ▸ hi.server.past.watched_lt
  -- The server's session is live, so the client has not gone past its connection.
  have hsame : p.serverConn j = i := by
    have hlive : (p.client.core.sessions (p.serverConn j)).lost = false := hrest.not_gone .server hslt hslive
    by_contra hne
    rw [hi.client.gone (hi.linked.known j hslt) (by rw [hcw]; exact hne) (by rw [hcr]; simp)] at hlive
    cases hlive
  refine ⟨i, j, hci, hsj, hsame, ?_, hclive, hslive, hcacc, hsacc, ?_, ?_⟩
  · rw [← hcw]
    exact hi.client.past.newest (by rw [hcr]; simp)
  · rw [hi.client.told, Endpoint.told, hcr, hcw]
  · rw [hi.server.told, Endpoint.told, hsr, hsw]

/-- When nothing is left to do, the agents have the two ends of the newest connection, which
    is live at both, and their accept loops are on it. Both say that the link is up, except
    on the session they started with. -/
theorem sessions_agree (h : Reach step anyStep init p) (hrest : Rest p) :
    ∃ i j, p.client.core.session = some i ∧ p.server.core.session = some j ∧ p.serverConn j = i ∧
      i + 1 = p.client.core.opened ∧ (p.client.core.sessions i).lost = false ∧ (p.server.core.sessions j).lost = false ∧
      p.client.accepting = some i ∧ p.server.accepting = some j ∧
      p.client.linkState = (if i = 0 then .connecting else .normal) ∧
      p.server.linkState = (if j = 0 then .connecting else .normal) :=
  hrest.agreed (h.invariant init_ok fun hi _ hs => step_ok hi hs)

/-- The accept loop finds its session lost and closes it, and `run` clears it. -/
def noticeLoss (side : Side) : List PeersAct :=
  [.loop side .acceptErr, .loop side .close, .loop side .wait, .run side .changed, .run side .onLinkFailed]

/-- `run` installs the session it has got, and the loop accepts on it. -/
def resumeOn (side : Side) : List PeersAct :=
  [.run side .install, .run side .notify, .loop side .wake, .loop side .snapshot]

/-- The client loses two connections before the server has noticed the first. The server
    takes the second, which is lost by then, and after it the third. -/
theorem sessions_agree_late :
    ∃ p, Reach step anyStep init p ∧ Rest p ∧ p.client.core.opened = 3 ∧
      ∃ i j, p.client.core.session = some i ∧ p.server.core.session = some j ∧ p.serverConn j = i ∧ i + 1 = 3 := by
  obtain ⟨p, hr, hp⟩ := Reach.exists_run step anyStep init
    [[.loop .client .snapshot, .loop .server .snapshot, .cut .client 0], noticeLoss .client, [.connect], resumeOn .client,
      [.cut .client 1], noticeLoss .client, [.connect], resumeOn .client,
      [.hears .server 0], noticeLoss .server, [.arrive 1, .arrive 2, .recv], resumeOn .server,
      [.hears .server 1], noticeLoss .server, [.recv], resumeOn .server].flatten
    (fun p => p.Rest ∧ p.client.core.opened = 3) (by decide +kernel)
  obtain ⟨hrest, hopened⟩ := of_decide_eq_true hp
  obtain ⟨i, j, hci, hsj, hsame, hnew, _⟩ := sessions_agree hr hrest
  exact ⟨p, hr, hrest, hopened, i, j, hci, hsj, hsame, hopened ▸ hnew⟩

end Peers

end Quelay.Agent.SessionManager
