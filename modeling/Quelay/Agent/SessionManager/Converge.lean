/-
  Quelay.Agent.SessionManager.Converge — after the last loss the two agents come to agree.

  The steps that are due (`Peers.due`) are those that the agents and the connections under
  way take of themselves: no new loss, no stream or header of a client, no operator. `work`
  counts what is left of them, and every one makes it less. So from wherever losses have
  brought the two agents, they are at rest after at most `work` such steps, in whatever
  order these come, and agree then (`sessions_converge`).

  A connection is dead when one of its ends is lost, or the server refused it. No due step
  kills a connection: an end is lost by itself only after the other one, and closed only
  when it is lost. So the client connects once more at most, and only if its newest
  connection is dead; what the server has to go through is the sessions in the channel and
  those arriving. Each of them costs it one round of `run`, and each round one of the
  accept loop.
-/

import Quelay.Agent.SessionManager.Peers
import Quelay.Lib.Settles
import Mathlib.Data.Finset.Card

namespace Quelay.Agent.SessionManager

open Quelay.Lib Quelay.Thrift

/-! ## What is left to do -/

namespace Rearm

/-- The rounds that `run` has ahead, in steps. `extra` is the weight of a new connection. -/
def runWork (extra : Nat) (dead : Nat → Bool) (m : Rearm) : Nat :=
  match m.run with
  | .select => if dead m.watched then 25 + extra else 0
  | .failed => 24 + extra
  | .reconnecting => 23 + extra
  | .install sid => if dead sid then 42 + extra else 22
  | .restoring => if dead m.watched then 41 + extra else 21

def loopPos : AcceptPc → Nat
  | .insert _ => 6
  | .header _ => 6
  | .snapshot => 5
  | .accept _ => 4
  | .close _ => 3
  | .wait => 2
  | .parked => 1

/-- Each notification is worth a round of the loop. -/
def loopWork (m : Rearm) : Nat :=
  10 * (m.sessionRestored.permit.toNat + m.sessionRestored.woken.length) + loopPos m.accept

/-- The sessions that are not lost. -/
def live (m : Rearm) : Nat := ((Finset.range m.opened).filter fun sid => (m.sessions sid).lost = false).card

def endWork (extra : Nat) (dead : Nat → Bool) (m : Rearm) : Nat := m.live + (m.runWork extra dead + m.loopWork)

end Rearm

namespace Peers

/-- One end of the connection is lost, or the server refused it. -/
def dead (p : Peers) (conn : Nat) : Bool := (p.client.core.sessions conn).lost || p.otherGone .client conn

/-- The same, of each agent's own sessions. -/
def deadAt (p : Peers) : Side → Nat → Bool
  | .client, sid => p.dead sid
  | .server, sid => p.dead (p.serverConn sid)

/-- A new connection is work for the server, and the client makes one in each round. -/
def extraAt : Side → Nat
  | .client => 23
  | .server => 0

def workAt (p : Peers) (side : Side) : Nat := (p.endpoint side).core.endWork (extraAt side) (p.deadAt side)

def work (p : Peers) : Nat := 22 * p.arriving.length + 21 * p.sessRx.length + (p.workAt .client + p.workAt .server)

/-- The step is due. -/
def isDue (p : Peers) (a : PeersAct) : Prop := a ∈ p.due

end Peers

/-! ## One agent -/

namespace Rearm

variable {m m' : Rearm}

/-- A loop's turn that is due brings it forward. -/
theorem loop_work {a : LoopAct} (ha : a ∈ [.snapshot, .acceptErr, .insert, .close, .wait, .wake, .headerErr])
    (h : m.loopStep a = some m') : m'.loopWork < m.loopWork := by
  cases a with
  | snapshot =>
    simp only [loopStep] at h
    split at h
    · rename_i hpc
      split at h
      · cases h
        simp [loopWork, loopPos, hpc.1]
      · cases h
        simp [loopWork, loopPos, hpc.1]
    · cases h
  | acceptErr | headerErr =>
    simp only [loopStep] at h
    split at h
    · rename_i hpc
      cases h
      simp [loopWork, loopPos, hpc]
    · cases h
  | insert =>
    simp only [loopStep] at h
    split at h
    · rename_i hpc
      split at h
      · cases h
      · cases h
        simp [loopWork, loopPos, hpc]
    · cases h
  | close =>
    simp only [loopStep] at h
    split at h
    · rename_i hpc
      cases h
      simp [loopWork, loopPos, hpc, closeSession]
    · cases h
  | wait =>
    simp only [loopStep] at h
    split at h
    · rename_i hpc
      split at h
      · rename_i hpermit
        cases h
        simp only [loopWork, loopPos, hpc, hpermit, Notify.take, Bool.toNat_true, Bool.toNat_false]
        omega
      · cases h
        simp [loopWork, loopPos, hpc, Notify.park]
    · cases h
  | wake =>
    simp only [loopStep] at h
    split at h
    · rename_i hpc
      cases h
      have hlen := List.length_erase_of_mem hpc.2
      have hpos := List.length_pos_of_mem hpc.2
      simp only [loopWork, loopPos, hpc.1, Notify.resume, hlen]
      omega
    · cases h
  | acceptOk | spawn => simp at ha

theorem loopWork_notify (n : Notify Unit) :
    n.notifyOne.permit.toNat + n.notifyOne.woken.length ≤ n.permit.toNat + n.woken.length + 1 := by
  unfold Notify.notifyOne
  split
  · simp only [Bool.toNat_true]
    omega
  · simp only [List.length_append, List.length_singleton]
    omega

theorem loopWork_le (hi : Inv m) : m.loopWork ≤ 26 := by
  have hpermit : m.sessionRestored.permit.toNat ≤ 1 := Bool.toNat_le _
  have hwoken : m.sessionRestored.woken.length ≤ 1 := by
    have hnodup := (List.nodup_append.mp hi.awaited.nodup).2.1
    match hw : m.sessionRestored.woken with
    | [] => exact Nat.zero_le _
    | [_] => exact Nat.le_refl _
    | () :: () :: _ => simp [hw] at hnodup
  have hpos : loopPos m.accept ≤ 6 := by
    cases m.accept <;> simp [loopPos]
  simp only [loopWork]
  omega

theorem runWork_le (extra : Nat) (dead : Nat → Bool) (m : Rearm) : m.runWork extra dead ≤ 42 + extra := by
  unfold runWork
  split <;> (try split) <;> omega

theorem live_le (m : Rearm) : m.live ≤ m.opened := by
  calc m.live ≤ (Finset.range m.opened).card := Finset.card_filter_le _ _
    _ = m.opened := Finset.card_range _

/-- So does a step of `run`, if it only leaves a session that is dead. -/
theorem run_work (extra : Nat) {dead : Nat → Bool} {a : RunAct} (ha : a ∈ [.changed, .onLinkFailed, .install, .notify])
    (hdead : a = .changed → dead m.watched = true) (h : m.runStep a = some m') :
    m'.runWork extra dead + m'.loopWork < m.runWork extra dead + m.loopWork := by
  cases a with
  | changed =>
    simp only [runStep] at h
    split at h
    · rename_i hpc
      cases h
      simp only [runWork, loopWork, hpc.1, hdead rfl, if_true]
      omega
    · cases h
  | onLinkFailed =>
    simp only [runStep] at h
    split at h
    · rename_i hpc
      cases h
      simp only [runWork, loopWork, hpc]
      omega
    · cases h
  | install =>
    simp only [runStep] at h
    split at h
    · rename_i sid hpc
      cases h
      simp only [runWork, loopWork, hpc]
      split <;> omega
    · cases h
  | notify =>
    simp only [runStep] at h
    split at h
    · rename_i hpc
      cases h
      have := loopWork_notify m.sessionRestored
      simp only [runWork, loopWork, hpc]
      split <;> omega
    · cases h
  | reconnect | linkEnable => simp at ha

/-- What the loop does to the sessions: it closes the one it has given up, and gives up none
    but with an error. -/
theorem loop_effect {a : LoopAct} (h : m.loopStep a = some m') :
    (m'.sessions = m.sessions ∧ ∀ sid, m'.accept = .close sid → a = .acceptErr ∧ m.accept = .accept sid) ∨
      ∃ sid, m.accept = .close sid ∧ m'.sessions = Function.update m.sessions sid (m.sessions sid).close ∧
        m'.accept = .wait := by
  cases a with
  | close =>
    simp only [loopStep] at h
    split at h
    · rename_i sid hpc
      cases h
      exact .inr ⟨sid, hpc, rfl, rfl⟩
    · cases h
  | acceptErr =>
    simp only [loopStep] at h
    split at h
    · rename_i sid hpc
      cases h
      refine .inl ⟨rfl, fun i he => ?_⟩
      cases he
      exact ⟨rfl, hpc⟩
    · cases h
  | acceptOk | headerErr | spawn | snapshot | insert | wait | wake =>
    simp only [loopStep] at h
    repeat' split at h
    all_goals first
      | cases h
        exact .inl ⟨rfl, fun i he => by cases he⟩
      | cases h

/-- `run` closes the session it has, at the operator's command. -/
theorem run_effect {a : RunAct} (h : m.runStep a = some m') :
    m'.accept = m.accept ∧ m.opened ≤ m'.opened ∧
      (m'.sessions = m.sessions ∨
        ∃ sid, m.session = some sid ∧ m'.sessions = Function.update m.sessions sid (m.sessions sid).close) := by
  cases a with
  | linkEnable =>
    simp only [runStep] at h
    split at h
    · split at h
      · rename_i sid hsid
        cases h
        exact ⟨rfl, Nat.le_refl _, .inr ⟨sid, hsid, rfl⟩⟩
      · cases h
        exact ⟨rfl, Nat.le_refl _, .inl rfl⟩
    · cases h
  | reconnect =>
    simp only [runStep] at h
    split at h
    · cases h
      exact ⟨rfl, Nat.le_succ _, .inl rfl⟩
    · cases h
  | changed | onLinkFailed | install | notify =>
    simp only [runStep] at h
    split at h
    · cases h
      exact ⟨rfl, Nat.le_refl _, .inl rfl⟩
    · cases h

/-- The loop closes lost sessions only, and a session that is not made yet is not lost. -/
structure Tidy (m : Rearm) : Prop where
  closing : ∀ sid, m.accept = .close sid → (m.sessions sid).lost = true
  fresh : ∀ sid, m.opened ≤ sid → (m.sessions sid).lost = false

theorem init_tidy : Tidy init := ⟨fun sid h => (by cases h), fun _ _ => rfl⟩

/-- An existing session is lost. -/
theorem Tidy.lose (ht : Tidy m) {sid : Nat} (hlt : sid < m.opened) (q : QuicSession) (hq : q.lost = true) :
    Tidy { m with sessions := Function.update m.sessions sid q } := by
  refine ⟨fun i he => ?_, fun i hi => ?_⟩ <;> dsimp only
  · by_cases h : i = sid
    · rw [h, Function.update_self]
      exact hq
    · rw [Function.update_of_ne h]
      exact ht.closing i he
  · have hne : i ≠ sid := Nat.ne_of_gt (Nat.lt_of_lt_of_le hlt hi)
    rw [Function.update_of_ne hne]
    exact ht.fresh i hi

theorem Tidy.loop (ht : Tidy m) (hp : Past m) {a : LoopAct}
    (herr : a = .acceptErr → ∀ sid, m.accept = .accept sid → (m.sessions sid).lost = true) (h : m.loopStep a = some m') :
    Tidy m' := by
  have ho := (Endpoint.loop_run h).2.2
  rcases loop_effect h with ⟨hs, hclose⟩ | ⟨sid, hsid, hs, ha⟩
  · refine ⟨fun sid he => ?_, fun sid hle => ?_⟩
    · obtain ⟨rfl, hacc⟩ := hclose sid he
      rw [hs]
      exact herr rfl sid hacc
    · rw [hs]
      exact ht.fresh sid (ho ▸ hle)
  · have hl := ht.lose (hp.loop sid (.inr (.inr (.inr hsid)))) (m.sessions sid).close rfl
    refine ⟨fun i he => ?_, fun i hle => ?_⟩
    · rw [ha] at he
      cases he
    · rw [hs]
      exact hl.fresh i (ho ▸ hle)

theorem Tidy.run (ht : Tidy m) (hp : Past m) (hi : Inv m) {a : RunAct} (h : m.runStep a = some m') : Tidy m' := by
  obtain ⟨ha, ho, hs | ⟨sid, hsid, hs⟩⟩ := run_effect h
  · refine ⟨fun i he => ?_, fun i hle => ?_⟩
    · rw [hs]
      exact ht.closing i (ha ▸ he)
    · rw [hs]
      exact ht.fresh i (Nat.le_trans ho hle)
  · have hlt : sid < m.opened := by
      rw [session_eq hi hsid]
      exact hp.watched_lt
    have hl := ht.lose hlt (m.sessions sid).close rfl
    refine ⟨fun i he => ?_, fun i hle => ?_⟩
    · rw [hs]
      exact hl.closing i (ha ▸ he)
    · rw [hs]
      exact hl.fresh i (Nat.le_trans ho hle)

theorem live_congr (ho : m'.opened = m.opened) (hl : ∀ i, (m'.sessions i).lost = (m.sessions i).lost) : m'.live = m.live := by
  simp only [live, ho, hl]

theorem runWork_congr {extra : Nat} {dead : Nat → Bool} (hr : m'.run = m.run) (hw : m'.watched = m.watched) :
    m'.runWork extra dead = m.runWork extra dead := by
  simp only [runWork, hr, hw]

/-- A loop's turn loses nothing that was not lost. -/
theorem loop_lost (ht : Tidy m) {a : LoopAct} (h : m.loopStep a = some m') (i : Nat) :
    (m'.sessions i).lost = (m.sessions i).lost := by
  rcases loop_effect h with ⟨hs, _⟩ | ⟨sid, hsid, hs, _⟩
  · rw [hs]
  · rw [hs]
    by_cases hi : i = sid
    · rw [hi, Function.update_self, ht.closing sid hsid]
      rfl
    · rw [Function.update_of_ne hi]

theorem run_sessions {a : RunAct} (ha : a ∈ [.changed, .onLinkFailed, .install, .notify]) (h : m.runStep a = some m') :
    m'.sessions = m.sessions ∧ m'.opened = m.opened := by
  cases a with
  | changed | onLinkFailed | install | notify =>
    simp only [runStep] at h
    split at h
    · cases h
      exact ⟨rfl, rfl⟩
    · cases h
  | reconnect | linkEnable => simp at ha

theorem reconnect_eq (h : m.runStep .reconnect = some m') :
    m.run = .reconnecting ∧ m' = { m with opened := m.opened + 1, run := .install m.opened } := by
  simp only [runStep] at h
  split at h
  · rename_i hr
    cases h
    exact ⟨hr, rfl⟩
  · cases h

theorem live_succ (m : Rearm) (pc : RunPc) : ({ m with opened := m.opened + 1, run := pc } : Rearm).live ≤ m.live + 1 := by
  simp only [live, Finset.range_add_one]
  calc _ ≤ (insert m.opened ((Finset.range m.opened).filter fun sid => (m.sessions sid).lost = false)).card := by
        apply Finset.card_le_card
        rw [Finset.filter_insert]
        split
        · exact Finset.Subset.refl _
        · exact Finset.subset_insert _ _
    _ ≤ _ := Finset.card_insert_le _ _

/-- A new session may be dead, which costs another round. -/
theorem reconnect_work (extra : Nat) (dead : Nat → Bool) (h : m.runStep .reconnect = some m') :
    m'.endWork extra dead ≤ m.endWork extra dead + 20 := by
  obtain ⟨hr, rfl⟩ := reconnect_eq h
  have hlive := live_succ m (.install m.opened)
  simp only [endWork, runWork, loopWork, hr]
  split <;> omega

theorem reconnect_work_live (extra : Nat) {dead : Nat → Bool} (h : m.runStep .reconnect = some m')
    (hnew : dead m.opened = false) : m'.endWork extra dead + extra ≤ m.endWork extra dead := by
  obtain ⟨hr, rfl⟩ := reconnect_eq h
  have hlive := live_succ m (.install m.opened)
  simp only [endWork, runWork, loopWork, hr, hnew, Bool.false_eq_true, if_false]
  omega

/-- The session is lost that was not. -/
theorem live_lose {sid : Nat} (hlt : sid < m.opened) (hlive : (m.sessions sid).lost = false) (q : QuicSession)
    (hq : q.lost = true) : ({ m with sessions := Function.update m.sessions sid q } : Rearm).live < m.live := by
  apply Finset.card_lt_card
  rw [Finset.ssubset_iff_of_subset]
  · refine ⟨sid, ?_, ?_⟩
    · simp [hlt, hlive]
    · simp [hq]
  · intro i hi
    simp only [Finset.mem_filter, Finset.mem_range] at hi ⊢
    refine ⟨hi.1, ?_⟩
    by_cases h : i = sid
    · rw [h]
      exact hlive
    · rw [Function.update_of_ne h] at hi
      exact hi.2

end Rearm

/-! ## Both agents, through every step -/

namespace Endpoint

variable {n n' : Endpoint}

theorem acceptErr_eq (h : n.acceptErr = some n') : n.lostLoop = true ∧ n.loopStep .acceptErr = some n' := by
  simp only [acceptErr] at h
  split at h
  · exact ⟨‹_›, h⟩
  · cases h

theorem lostLoop_accept (h : n.lostLoop = true) {sid : Nat} (ha : n.core.accept = .accept sid) :
    (n.core.sessions sid).lost = true := by
  simpa only [lostLoop, accepting, ha, Option.any_some] using h

end Endpoint

namespace Peers

variable {p p' : Peers} {side : Side}

structure Steady (p : Peers) : Prop where
  ok : Ok p
  tidy : ∀ side, Rearm.Tidy (p.endpoint side).core
  refused : ∀ conn, conn ∈ p.refused → conn < p.client.core.opened

theorem init_steady : Steady init := by
  refine ⟨init_ok, fun side => ?_, ?_⟩
  · cases side with
    | client => exact Rearm.init_tidy
    | server => exact Rearm.init_tidy
  · intro conn h
    cases h

theorem set_tidy (ht : ∀ side, Rearm.Tidy (p.endpoint side).core) {n : Endpoint} (hn : Rearm.Tidy n.core) (s : Side) :
    Rearm.Tidy ((p.set n side).endpoint s).core := by
  cases side with
  | client =>
    cases s with
    | client => exact hn
    | server => exact ht .server
  | server =>
    cases s with
    | client => exact ht .client
    | server => exact hn

theorem set_refused (n : Endpoint) : (p.set n side).refused = p.refused := by cases side <;> rfl

theorem set_opened {n : Endpoint} (ho : n.core.opened = (p.endpoint side).core.opened) :
    (p.set n side).client.core.opened = p.client.core.opened := by
  cases side with
  | client => exact ho
  | server => rfl

/-- One agent moves, with the sessions it has. -/
theorem Steady.set (hi : Steady p) {n : Endpoint} (hok : Ok (p.set n side)) (ho : n.core.opened = (p.endpoint side).core.opened)
    (hn : Rearm.Tidy n.core) : Steady (p.set n side) := by
  refine ⟨hok, set_tidy hi.tidy hn, fun conn hm => ?_⟩
  rw [set_opened ho]
  exact hi.refused conn (set_refused n ▸ hm)

theorem Steady.loop (hi : Steady p) {a : Rearm.LoopAct} {n : Endpoint} (hok : Ok (p.set n side))
    (herr : a = .acceptErr → (p.endpoint side).lostLoop = true) (h : (p.endpoint side).loopStep a = some n) :
    Steady (p.set n side) := by
  obtain ⟨m, hm, rfl⟩ := Option.map_eq_some_iff.mp h
  refine hi.set hok (Endpoint.loop_run hm).2.2 ((hi.tidy side).loop (hi.ok.endpoint side).past ?_ hm)
  intro ha sid hacc
  exact Endpoint.lostLoop_accept (herr ha) hacc

theorem Steady.run (hi : Steady p) {a : Rearm.RunAct} (hne : a ≠ .reconnect) {n : Endpoint} (hok : Ok (p.set n side))
    (h : (p.endpoint side).runStep a = some n) : Steady (p.set n side) := by
  obtain ⟨m, hm, rfl⟩ := Option.map_eq_some_iff.mp h
  exact hi.set hok (run_opened hm hne) ((hi.tidy side).run (hi.ok.endpoint side).past (hi.ok.endpoint side).inv hm)

theorem Steady.lose (hi : Steady p) {sid : Nat} (hlt : sid < (p.endpoint side).core.opened)
    (hok : Ok (p.set ((p.endpoint side).lose sid) side)) : Steady (p.set ((p.endpoint side).lose sid) side) :=
  hi.set hok rfl ((hi.tidy side).lose hlt _ rfl)

theorem step_steady {a : PeersAct} (hi : Steady p) (h : p.step a = some p') : Steady p' := by
  have hok := step_ok hi.ok h
  cases a with
  | loop side a =>
    cases a with
    | acceptErr =>
      obtain ⟨n, hn, rfl⟩ := Option.map_eq_some_iff.mp h
      obtain ⟨hlost, hn⟩ := Endpoint.acceptErr_eq hn
      exact hi.loop hok (fun _ => hlost) hn
    | _ =>
      obtain ⟨n, hn, rfl⟩ := Option.map_eq_some_iff.mp h
      exact hi.loop hok (fun he => by cases he) hn
  | run side a =>
    cases a with
    | reconnect => cases h
    | _ =>
      obtain ⟨n, hn, rfl⟩ := Option.map_eq_some_iff.mp h
      exact hi.run (by simp) hok hn
  | connect =>
    obtain ⟨n, hn, rfl⟩ := Option.map_eq_some_iff.mp h
    obtain ⟨m, hm, rfl⟩ := Option.map_eq_some_iff.mp hn
    refine ⟨hok, fun side => ?_, fun conn hc => ?_⟩
    · cases side with
      | client => exact (hi.tidy .client).run hi.ok.client.past hi.ok.client.inv hm
      | server => exact hi.tidy .server
    · have hlt := hi.refused conn hc
      have ho := reconnect_opened hm
      show conn < m.opened
      omega
  | recv =>
    simp only [step] at h
    split at h
    · obtain ⟨n, hn, rfl⟩ := Option.map_eq_some_iff.mp h
      obtain ⟨m, hm, rfl⟩ := Option.map_eq_some_iff.mp hn
      refine ⟨hok, fun side => ?_, hi.refused⟩
      cases side with
      | client => exact hi.tidy .client
      | server => exact (hi.tidy .server).run hi.ok.server.past hi.ok.server.inv hm
    · cases h
  | arrive conn =>
    simp only [step] at h
    split at h
    · cases h
      refine ⟨hok, fun side => ?_, hi.refused⟩
      cases side with
      | client => exact hi.tidy .client
      | server => exact hi.tidy .server
    · cases h
  | refuse conn =>
    simp only [step] at h
    split at h
    · rename_i hmem
      cases h
      refine ⟨hok, fun side => ?_, fun c hc => ?_⟩
      · cases side with
        | client => exact hi.tidy .client
        | server => exact hi.tidy .server
      · rcases List.mem_cons.mp hc with rfl | hc
        · exact hi.ok.linked.coming c (.inl hmem)
        · exact hi.refused c hc
    · cases h
  | hears side sid =>
    simp only [step] at h
    split at h
    · rename_i hcond
      cases h
      exact hi.lose hcond.1 hok
    · cases h
  | cut side sid =>
    simp only [step] at h
    split at h
    · rename_i hlt
      cases h
      exact hi.lose hlt hok
    · cases h

/-! ## The steps that are due -/

theorem due_loop {a : Rearm.LoopAct} (h : .loop side a ∈ p.due) :
    a ∈ [.snapshot, .acceptErr, .insert, .close, .wait, .wake, .headerErr] := by
  simp only [due, ownDue, List.mem_append, List.mem_cons, List.mem_map, List.mem_ite_nil_right, List.not_mem_nil] at h
  cases a with
  | acceptOk | spawn => simp at h
  | _ => simp

theorem due_run {a : Rearm.RunAct} (h : .run side a ∈ p.due) : a ∈ [.changed, .onLinkFailed, .install, .notify] := by
  simp only [due, ownDue, List.mem_append, List.mem_cons, List.mem_map, List.mem_ite_nil_right, List.not_mem_nil] at h
  cases a with
  | reconnect | linkEnable => simp at h
  | _ => simp

theorem not_due_refuse {conn : Nat} : .refuse conn ∉ p.due := by simp [due, ownDue]

theorem not_due_cut {sid : Nat} : .cut side sid ∉ p.due := by simp [due, ownDue]

/-- Nothing is lost at the agent that moved. -/
theorem dead_set {n : Endpoint} (ho : n.core.opened = (p.endpoint side).core.opened)
    (hl : ∀ i, (n.core.sessions i).lost = ((p.endpoint side).core.sessions i).lost) : (p.set n side).dead = p.dead := by
  funext conn
  cases side with
  | client =>
    show ((n.core.sessions conn).lost || p.otherGone .client conn) = _
    rw [hl]
    rfl
  | server =>
    have ho : n.core.opened = p.server.core.opened := ho
    have hl : ∀ i, (n.core.sessions i).lost = (p.server.core.sessions i).lost := hl
    simp only [dead, otherGone, set, ho, hl]

/-- An end is lost whose connection is dead. -/
theorem dead_lose {sid : Nat} (hlt : sid < (p.endpoint side).core.opened) (hgone : p.otherGone side sid = true) :
    (p.set ((p.endpoint side).lose sid) side).dead = p.dead := by
  funext conn
  cases side with
  | client =>
    show ((Function.update p.client.core.sessions sid _ conn).lost || p.otherGone .client conn) = _
    by_cases hc : conn = sid
    · subst hc
      rw [dead, hgone, Bool.or_true, Bool.or_true]
    · rw [Function.update_of_ne hc]
      rfl
  | server =>
    by_cases hc : p.serverConn sid = conn
    · -- The client's end is lost, and that is enough.
      have hlost : (p.client.core.sessions conn).lost = true := hc ▸ hgone
      simp only [dead, set, hlost, Bool.true_or]
    · simp only [dead, set, otherGone, Endpoint.lose]
      congr 2
      refine List.any_congr rfl fun j => ?_
      by_cases hj : j = sid
      · rw [hj, beq_false_of_ne hc, Bool.false_and, Bool.false_and]
      · rw [Function.update_of_ne hj]
        rfl

/-- The server's new session is not lost. -/
theorem dead_recv (hfresh : (p.server.core.sessions p.server.core.opened).lost = false) (n : Endpoint)
    (hs : n.core.sessions = p.server.core.sessions) (ho : n.core.opened = p.server.core.opened + 1) (rest : List Nat)
    (conn : Nat) :
    (Peers.mk p.client n (Function.update p.serverConn p.server.core.opened conn) p.arriving rest p.refused).dead = p.dead := by
  funext c
  simp only [dead, otherGone, hs, ho, List.range_succ, List.any_append, List.any_cons, List.any_nil, Function.update_self,
    hfresh, Bool.and_false, Bool.or_false]
  congr 2
  rw [Bool.eq_iff_iff, List.any_eq_true, List.any_eq_true]
  refine exists_congr fun j => and_congr_right fun hj => ?_
  rw [Function.update_of_ne (Nat.ne_of_lt (List.mem_range.mp hj))]

theorem set_deadAt {n : Endpoint} (hd : (p.set n side).dead = p.dead) (s : Side) : (p.set n side).deadAt s = p.deadAt s := by
  have hc : (p.set n side).serverConn = p.serverConn := by cases side <;> rfl
  funext sid
  cases s <;> simp only [deadAt, hd, hc]

/-- One agent has less left to do. -/
theorem work_set {n : Endpoint} (hd : (p.set n side).dead = p.dead)
    (hlt : n.core.endWork (extraAt side) (p.deadAt side) < p.workAt side) : (p.set n side).work < p.work := by
  have hat := set_deadAt hd
  simp only [work, workAt, hat] at hlt ⊢
  cases side with
  | client =>
    simp only [set, endpoint] at hlt ⊢
    omega
  | server =>
    simp only [set, endpoint] at hlt ⊢
    omega

/-- The link state changes for `run` only when its session is closed. -/
theorem Steady.watched_dead (hi : Steady p) {n : Endpoint} (h : (p.endpoint side).runStep .changed = some n) :
    p.deadAt side (p.endpoint side).core.watched = true := by
  obtain ⟨m, hm, rfl⟩ := Option.map_eq_some_iff.mp h
  simp only [Rearm.runStep] at hm
  split at hm
  · rename_i hc
    have hlost := (hi.ok.endpoint side).inv.closedLost _ (Nat.lt_of_le_of_lt (Nat.zero_le _) hc.2)
    cases side with
    | client =>
      have hlost : (p.client.core.sessions p.client.core.watched).lost = true := hlost
      simp only [deadAt, endpoint, dead, hlost, Bool.true_or]
    | server =>
      simp only [deadAt, endpoint, dead, otherGone, Bool.or_eq_true, List.any_eq_true, Bool.and_eq_true, beq_iff_eq]
      exact .inr (.inr ⟨_, List.mem_range.mpr hi.ok.server.past.watched_lt, rfl, hlost⟩)
  · cases hm

theorem loop_falls (hi : Steady p) {a : Rearm.LoopAct} {n : Endpoint}
    (ha : a ∈ [.snapshot, .acceptErr, .insert, .close, .wait, .wake, .headerErr])
    (h : (p.endpoint side).loopStep a = some n) : (p.set n side).work < p.work := by
  obtain ⟨m, hm, rfl⟩ := Option.map_eq_some_iff.mp h
  obtain ⟨hrun, hw, ho⟩ := Endpoint.loop_run hm
  have hlost := Rearm.loop_lost (hi.tidy side) hm
  apply work_set (dead_set ho hlost)
  have hfall := Rearm.loop_work ha hm
  simp only [workAt, Rearm.endWork, Rearm.live_congr ho hlost, Rearm.runWork_congr hrun hw]
  omega

theorem run_falls (hi : Steady p) {a : Rearm.RunAct} {n : Endpoint} (ha : a ∈ [.changed, .onLinkFailed, .install, .notify])
    (h : (p.endpoint side).runStep a = some n) : (p.set n side).work < p.work := by
  have hdead : a = .changed → p.deadAt side (p.endpoint side).core.watched = true := by
    rintro rfl
    exact hi.watched_dead h
  obtain ⟨m, hm, rfl⟩ := Option.map_eq_some_iff.mp h
  obtain ⟨hs, ho⟩ := Rearm.run_sessions ha hm
  have hlost : ∀ i, (m.sessions i).lost = ((p.endpoint side).core.sessions i).lost := fun i => by rw [hs]
  apply work_set (dead_set ho hlost)
  have hfall := Rearm.run_work (extraAt side) ha hdead hm
  simp only [workAt, Rearm.endWork, Rearm.live_congr ho hlost]
  omega

theorem hears_falls {sid : Nat} (hlt : sid < (p.endpoint side).core.opened)
    (hlive : ((p.endpoint side).core.sessions sid).lost = false) (hgone : p.otherGone side sid = true) :
    (p.set ((p.endpoint side).lose sid) side).work < p.work := by
  apply work_set (dead_lose hlt hgone)
  have hfall := Rearm.live_lose hlt hlive { (p.endpoint side).core.sessions sid with lost := true } rfl
  simp only [workAt, Rearm.endWork]
  exact Nat.add_lt_add_right hfall _

/-- A connection that is not made yet is not dead. -/
theorem Steady.new_dead (hi : Steady p) : p.dead p.client.core.opened = false := by
  have hfresh : (p.client.core.sessions p.client.core.opened).lost = false := (hi.tidy .client).fresh _ (Nat.le_refl _)
  simp only [dead, otherGone, hfresh, Bool.false_or, Bool.or_eq_false_iff]
  constructor
  · rw [← Bool.not_eq_true, List.contains_iff_mem]
    intro hm
    exact Nat.lt_irrefl _ (hi.refused _ hm)
  · rw [List.any_eq_false]
    intro j hj
    have hlt := hi.ok.linked.known j (List.mem_range.mp hj)
    rw [beq_false_of_ne (Nat.ne_of_lt hlt)]
    simp

theorem workAt_client (hc : p'.client = p.client) (hd : p'.dead = p.dead) : p'.workAt .client = p.workAt .client := by
  have hat : p'.deadAt .client = p.deadAt .client := hd
  simp only [workAt, endpoint, hc, hat]

theorem connect_falls (hi : Steady p) (h : p.step .connect = some p') : p'.work < p.work := by
  obtain ⟨n, hn, rfl⟩ := Option.map_eq_some_iff.mp h
  obtain ⟨m, hm, rfl⟩ := Option.map_eq_some_iff.mp hn
  have hnew : p.deadAt .client p.client.core.opened = false := hi.new_dead
  have hcost := Rearm.reconnect_work_live 23 hm hnew
  obtain ⟨_, rfl⟩ := Rearm.reconnect_eq hm
  simp only [work, List.length_append, List.length_singleton]
  show _ + (Rearm.endWork 23 (p.deadAt .client) _ + p.workAt .server) < _ + (Rearm.endWork 23 (p.deadAt .client) _ + _)
  dsimp only [endpoint]
  omega

theorem recv_falls (hi : Steady p) (h : p.step .recv = some p') : p'.work < p.work := by
  simp only [step] at h
  split at h
  · rename_i conn rest hrx
    obtain ⟨n, hn, rfl⟩ := Option.map_eq_some_iff.mp h
    obtain ⟨m, hm, rfl⟩ := Option.map_eq_some_iff.mp hn
    have hcost := fun dead => Rearm.reconnect_work 0 dead hm
    obtain ⟨hr, hm⟩ := Rearm.reconnect_eq hm
    have hfresh := (hi.tidy .server).fresh _ (Nat.le_refl _)
    have hdead := dead_recv hfresh ⟨m, p.server.linkState⟩ (by rw [hm]) (by rw [hm]) rest conn
    -- While it waits, the server's work does not depend on what is dead.
    have hwaits : ∀ dead, p.server.core.endWork 0 dead = p.workAt .server := by
      intro dead
      simp only [workAt, endpoint, Rearm.endWork, Rearm.runWork, hr, extraAt]
    have hclient := workAt_client (by rfl) hdead
    have hserver : ∀ dead, m.endWork 0 dead ≤ p.workAt .server + 20 := fun dead => hwaits dead ▸ hcost dead
    simp only [work, hrx, List.length_cons, hclient]
    refine Nat.lt_of_le_of_lt (Nat.add_le_add_left (Nat.add_le_add_left (hserver _) _) _) ?_
    omega
  · cases h

theorem arrive_falls {conn : Nat} (h : p.step (.arrive conn) = some p') : p'.work < p.work := by
  simp only [step] at h
  split at h
  · rename_i hc
    cases h
    have hlen := List.length_erase_of_mem hc.1
    have hpos := List.length_pos_of_mem hc.1
    simp only [work, List.length_append, List.length_singleton, hlen]
    show _ + (p.workAt .client + p.workAt .server) < _
    omega
  · cases h

/-- Each step that is due leaves less to do. -/
theorem due_falls {a : PeersAct} (hi : Steady p) (ha : isDue p a) (h : p.step a = some p') : p'.work < p.work := by
  cases a with
  | loop side a =>
    have hmem := due_loop ha
    cases a with
    | acceptErr =>
      obtain ⟨n, hn, rfl⟩ := Option.map_eq_some_iff.mp h
      exact loop_falls hi hmem (Endpoint.acceptErr_eq hn).2
    | _ =>
      obtain ⟨n, hn, rfl⟩ := Option.map_eq_some_iff.mp h
      exact loop_falls hi hmem hn
  | run side a =>
    have hmem := due_run ha
    cases a with
    | reconnect => cases h
    | _ =>
      obtain ⟨n, hn, rfl⟩ := Option.map_eq_some_iff.mp h
      exact run_falls hi hmem hn
  | connect => exact connect_falls hi h
  | recv => exact recv_falls hi h
  | arrive conn => exact arrive_falls h
  | refuse conn => exact absurd ha not_due_refuse
  | hears side sid =>
    simp only [step] at h
    split at h
    · rename_i hcond
      cases h
      exact hears_falls hcond.1 hcond.2.1 hcond.2.2
    · cases h
  | cut side sid => exact absurd ha not_due_cut

theorem work_due : Falls step isDue Steady work := ⟨fun hi _ h => step_steady hi h, fun hi ha h => due_falls hi ha h⟩

theorem Steady.work_le (hi : Steady p) :
    p.work ≤ 22 * p.arriving.length + 21 * p.sessRx.length + p.client.core.opened + p.server.core.opened + 159 := by
  have hclient := Rearm.loopWork_le hi.ok.client.inv
  have hserver := Rearm.loopWork_le hi.ok.server.inv
  have hclient' := Rearm.runWork_le 23 (p.deadAt .client) p.client.core
  have hserver' := Rearm.runWork_le 0 (p.deadAt .server) p.server.core
  have hlive := Rearm.live_le p.client.core
  have hlive' := Rearm.live_le p.server.core
  simp only [work, workAt, endpoint, extraAt, Rearm.endWork]
  omega

/-- Whatever was lost, closed or refused so far, in whatever order: left to themselves the
    agents come to rest after a bounded number of steps, however these interleave, and agree
    then. -/
theorem sessions_converge (h : Reach step anyStep init p) :
    (∀ n q, ReachIn step isDue p n q →
      n ≤ 22 * p.arriving.length + 21 * p.sessRx.length + p.client.core.opened + p.server.core.opened + 159) ∧
    (∃ q, Reach step isDue p q ∧ Rest q) ∧ ∀ q, Reach step isDue p q → Rest q → Agreed q := by
  have hi : Steady p := h.invariant init_steady fun hi _ hs => step_steady hi hs
  refine ⟨fun n q hq => ?_, ?_, fun q hq hrest => hrest.agreed (work_due.inv hi hq).ok⟩
  · have hfall := (work_due.bounded hi hq).2
    have hle := hi.work_le
    omega
  · obtain ⟨q, hq, hnone⟩ := work_due.settles hi
    refine ⟨q, hq, fun a ha => ?_⟩
    rw [hnone a ha]
    rfl

/-- The client has lost two connections, the first of them at its own end only, and the
    server has refused the second. -/
theorem sessions_converge_refused :
    ∃ p, Reach step anyStep init p ∧ ¬ Rest p ∧ p.refused = [1] ∧ ∃ q, Reach step isDue p q ∧ Rest q ∧ Agreed q := by
  obtain ⟨p, hr, hp⟩ := Reach.exists_run step anyStep init
    [[.loop .client .snapshot, .loop .server .snapshot, .cut .client 0], noticeLoss .client,
      [.connect, .refuse 1], resumeOn .client].flatten
    (fun p => ¬ p.Rest ∧ p.refused = [1]) (by decide +kernel)
  obtain ⟨hrest, hrefused⟩ := of_decide_eq_true hp
  obtain ⟨_, ⟨q, hq, hstill⟩, hagree⟩ := sessions_converge hr
  exact ⟨p, hr, hrest, hrefused, q, hq, hstill, hagree q hq hstill⟩

end Peers

end Quelay.Agent.SessionManager
