/-
  Quelay.Agent.SessionManager.AcceptLoop — `accept_loop` is awake whenever a live session
  is installed.

  `run` puts a new session in place and notifies `session_restored` under one lock.
  `accept_loop` takes a snapshot of the session, and waits for the notification when there
  was none, or when the one it had is lost and it has closed it. Its snapshot may be old by
  then, and permits may be left from sessions that it went past; but every session that
  was installed after the snapshot has left a permit, and a session that it closed itself
  has failed for `run` to see.

  A session is its connection and its watch channel, on which only `Failed` is ever sent:
  what is there to see is how often. `run`'s receiver is a clone of one that has seen
  nothing.
-/

import Quelay.Lib.Machine
import Quelay.Lib.Notify
import Mathlib.Logic.Function.Basic

namespace Quelay.Agent.SessionManager

open Quelay.Lib

/-! ## State -/

/-- `QuicSession`: whether the connection is lost, and the version of the link state. -/
structure QuicSession where
  lost : Bool
  version : Nat
  deriving DecidableEq, Repr

/-- `close`: `send_replace(Failed)`, and the connection is closed. -/
def QuicSession.close (q : QuicSession) : QuicSession := ⟨true, q.version + 1⟩

/-- `accept_loop`: `insert` is on its way to the lock with a downlink's handle or stream,
    `wait` on its way to `session_restored`. -/
inductive AcceptPc where
  | snapshot
  | accept (sid : Nat)
  | header (sid : Nat)
  | insert (sid : Nat)
  | close (sid : Nat)
  | wait
  | parked
  deriving DecidableEq, Repr

/-- `run`: in its select; or with a failed session, and on its way to a new one. In
    `restoring` it holds the lock. -/
inductive RunPc where
  | select
  | failed
  | reconnecting
  | install (sid : Nat)
  | restoring
  deriving DecidableEq, Repr

structure Rearm where
  /-- The installed session. -/
  session : Option Nat
  sessions : Nat → QuicSession
  opened : Nat
  sessionRestored : Notify Unit
  accept : AcceptPc
  run : RunPc
  /-- `state_rx`: the session it belongs to, and the version it has seen. -/
  watched : Nat
  seen : Nat

namespace Rearm

def init : Rearm := ⟨some 0, fun _ => ⟨false, 0⟩, 1, .empty, .snapshot, .select, 0, 0⟩

def closeSession (m : Rearm) (sid : Nat) : Rearm :=
  { m with sessions := Function.update m.sessions sid (m.sessions sid).close }

/-! ## Steps -/

inductive LoopAct where
  | snapshot
  | acceptOk
  | acceptErr
  | headerErr
  | spawn
  | insert
  | close
  | wait
  | wake

def loopStep (m : Rearm) : LoopAct → Option Rearm
  | .snapshot =>
    if m.accept = .snapshot ∧ m.run ≠ .restoring then
      match m.session with
      | some sid => some { m with accept := .accept sid }
      | none => some { m with accept := .wait }
    else none
  | .acceptOk =>
    match m.accept with
    | .accept sid => some { m with accept := .header sid }
    | _ => none
  -- The connection is lost; nothing below depends on that.
  | .acceptErr =>
    match m.accept with
    | .accept sid => some { m with accept := .close sid }
    | _ => none
  -- The header cannot be read, or the downlink cannot be started.
  | .headerErr =>
    match m.accept with
    | .header _ => some { m with accept := .snapshot }
    | _ => none
  | .spawn =>
    match m.accept with
    | .header sid => some { m with accept := .insert sid }
    | _ => none
  | .insert =>
    match m.accept with
    | .insert _ => if m.run = .restoring then none else some { m with accept := .snapshot }
    | _ => none
  | .close =>
    match m.accept with
    | .close sid => some { m.closeSession sid with accept := .wait }
    | _ => none
  | .wait =>
    if m.accept = .wait then
      if m.sessionRestored.permit then some { m with sessionRestored := m.sessionRestored.take, accept := .snapshot }
      else some { m with sessionRestored := m.sessionRestored.park (), accept := .parked }
    else none
  | .wake =>
    if m.accept = .parked ∧ () ∈ m.sessionRestored.woken then
      some { m with sessionRestored := m.sessionRestored.resume (), accept := .snapshot }
    else none

inductive RunAct where
  | changed
  | onLinkFailed
  | reconnect
  | install
  | notify
  | linkEnable

def runStep (m : Rearm) : RunAct → Option Rearm
  | .changed =>
    if m.run = .select ∧ m.seen < (m.sessions m.watched).version then
      some { m with seen := (m.sessions m.watched).version, run := .failed }
    else none
  | .onLinkFailed => if m.run = .failed then some { m with session := none, run := .reconnecting } else none
  | .reconnect =>
    if m.run = .reconnecting then some { m with opened := m.opened + 1, run := .install m.opened } else none
  | .install =>
    match m.run with
    | .install sid => some { m with session := some sid, watched := sid, seen := 0, run := .restoring }
    | _ => none
  | .notify =>
    if m.run = .restoring then some { m with sessionRestored := m.sessionRestored.notifyOne, run := .select } else none
  -- `link_enable(false)`, a command: it closes the session.
  | .linkEnable =>
    if m.run = .select then
      match m.session with
      | some sid => some (m.closeSession sid)
      | none => some m
    else none

inductive Act where
  | loop (a : LoopAct)
  | run (a : RunAct)
  | lose (sid : Nat)

/-- A connection can be lost at any time, also before its session is installed. -/
def step (m : Rearm) : Act → Option Rearm
  | .loop a => m.loopStep a
  | .run a => m.runStep a
  | .lose sid => some { m with sessions := Function.update m.sessions sid { m.sessions sid with lost := true } }

/-! ## The invariant -/

/-- The session of the loop's snapshot. -/
def holds (pc : AcceptPc) (sid : Nat) : Prop :=
  pc = .accept sid ∨ pc = .header sid ∨ pc = .insert sid ∨ pc = .close sid

structure Inv (m : Rearm) : Prop where
  closedLost : ∀ sid, 0 < (m.sessions sid).version → (m.sessions sid).lost = true
  watches : m.run = .select ∨ m.run = .restoring → m.session = some m.watched ∧ m.seen = 0
  failing : m.run = .failed → m.session = some m.watched ∧ 0 < (m.sessions m.watched).version
  cleared : m.run = .reconnecting ∨ (∃ sid, m.run = .install sid) → m.session = none
  awaited : m.sessionRestored.Awaited fun _ => m.accept = .parked
  view : ∀ sid, holds m.accept sid → m.run = .select → sid ≠ m.watched → m.sessionRestored.permit = true
  waiting : m.accept = .wait → m.run = .select →
    m.sessionRestored.permit = true ∨ 0 < (m.sessions m.watched).version
  parked : m.accept = .parked → m.run = .select →
    () ∈ m.sessionRestored.woken ∨ 0 < (m.sessions m.watched).version

theorem init_inv : Inv init := by
  refine ⟨nofun, fun _ => ⟨rfl, rfl⟩, nofun, ?_, ⟨List.nodup_nil, ?_, nofun⟩, ?_, nofun, nofun⟩
  · rintro (h | ⟨_, h⟩) <;> cases h
  · exact fun _ => ⟨nofun, nofun⟩
  · rintro sid (h | h | h | h) <;> cases h

variable {m m' : Rearm}

/-- Sessions fail and are lost; nothing else happens. -/
theorem Inv.sessions (hi : Inv m) {sessions : Nat → QuicSession}
    (hv : ∀ sid, (m.sessions sid).version ≤ (sessions sid).version)
    (hl : ∀ sid, 0 < (sessions sid).version → (sessions sid).lost = true) : Inv { m with sessions := sessions } := by
  refine ⟨hl, hi.watches, fun h => ?_, hi.cleared, hi.awaited, hi.view, fun ha hr => ?_, fun ha hr => ?_⟩
  · exact ⟨(hi.failing h).1, Nat.lt_of_lt_of_le (hi.failing h).2 (hv _)⟩
  · exact (hi.waiting ha hr).imp_right fun h => Nat.lt_of_lt_of_le h (hv _)
  · exact (hi.parked ha hr).imp_right fun h => Nat.lt_of_lt_of_le h (hv _)

theorem version_closeSession (m : Rearm) (sid i : Nat) : (m.sessions i).version ≤ ((m.closeSession sid).sessions i).version := by
  by_cases h : i = sid
  · subst h
    simp [closeSession, QuicSession.close]
  · simp [closeSession, h]

theorem Inv.closeSession (hi : Inv m) (sid : Nat) : Inv (m.closeSession sid) := by
  refine hi.sessions (version_closeSession m sid) fun i hv => ?_
  by_cases h : i = sid
  · subst h
    simp [QuicSession.close]
  · rw [Function.update_of_ne h] at hv ⊢
    exact hi.closedLost i hv

/-- The loop moves and does not wait. -/
theorem Inv.moveLoop (hi : Inv m) {pc : AcceptPc} (hp : m.accept ≠ .parked) (hp' : pc ≠ .parked) (hw : pc ≠ .wait)
    (hv : ∀ sid, holds pc sid → holds m.accept sid ∨ (m.run = .select → sid = m.watched)) : Inv { m with accept := pc } := by
  refine ⟨hi.closedLost, hi.watches, hi.failing, hi.cleared, ?_, ?_, fun h => absurd h hw, fun h => absurd h hp'⟩
  · exact hi.awaited.congr fun _ => iff_of_false hp hp'
  · intro sid hh hr hne
    rcases hv sid hh with hh | hcur
    · exact hi.view sid hh hr hne
    · exact absurd (hcur hr) hne

/-- The loop moves on with the session it holds. -/
theorem Inv.carry (hi : Inv m) {pc : AcceptPc} {sid : Nat} (hh : holds m.accept sid) (hp : m.accept ≠ .parked)
    (hp' : pc ≠ .parked) (hw : pc ≠ .wait) (hnext : ∀ i, holds pc i → i = sid) : Inv { m with accept := pc } := by
  refine hi.moveLoop hp hp' hw fun i hi' => .inl ?_
  rw [hnext i hi']
  exact hh

/-- The loop goes to wait. -/
theorem Inv.toWait (hi : Inv m) (hp : m.accept ≠ .parked)
    (hw : m.run = .select → m.sessionRestored.permit = true ∨ 0 < (m.sessions m.watched).version) :
    Inv { m with accept := .wait } := by
  refine ⟨hi.closedLost, hi.watches, hi.failing, hi.cleared, ?_, ?_, fun _ => hw, nofun⟩
  · exact hi.awaited.congr fun _ => iff_of_false hp nofun
  · rintro sid (h | h | h | h) <;> cases h

/-- The loop has its notification, and turns round. -/
theorem Inv.rearmed (hi : Inv m) {n : Notify Unit} (hn : n.Awaited fun _ => False) :
    Inv { m with sessionRestored := n, accept := .snapshot } := by
  refine ⟨hi.closedLost, hi.watches, hi.failing, hi.cleared, ?_, ?_, nofun, nofun⟩
  · exact hn.congr fun _ => iff_of_false id nofun
  · rintro sid (h | h | h | h) <;> cases h

theorem loop_inv {a : LoopAct} (hi : Inv m) (h : m.loopStep a = some m') : Inv m' := by
  cases a with
  | snapshot =>
    simp only [loopStep] at h
    split at h
    · rename_i hc
      split at h
      · rename_i sid hsession
        cases h
        refine hi.moveLoop (by rw [hc.1]; simp) (by simp) (by simp) fun i hh => .inr fun hr => ?_
        have hcur := (hi.watches (.inl hr)).1
        rw [hsession] at hcur
        rcases hh with hh | hh | hh | hh
        · cases hh
          exact Option.some.inj hcur
        all_goals cases hh
      · rename_i hsession
        cases h
        refine hi.toWait (by rw [hc.1]; simp) fun hr => ?_
        rw [(hi.watches (.inl hr)).1] at hsession
        cases hsession
    · cases h
  | acceptOk =>
    simp only [loopStep] at h
    split at h
    · rename_i sid hpc
      cases h
      refine hi.carry (.inl hpc) (by rw [hpc]; simp) (by simp) (by simp) fun i hh => ?_
      simpa [holds, eq_comm] using hh
    · cases h
  | acceptErr =>
    simp only [loopStep] at h
    split at h
    · rename_i sid hpc
      cases h
      refine hi.carry (.inl hpc) (by rw [hpc]; simp) (by simp) (by simp) fun i hh => ?_
      simpa [holds, eq_comm] using hh
    · cases h
  | headerErr =>
    simp only [loopStep] at h
    split at h
    · rename_i sid hpc
      cases h
      refine hi.moveLoop (by rw [hpc]; simp) (by simp) (by simp) fun i hh => ?_
      rcases hh with hh | hh | hh | hh <;> cases hh
    · cases h
  | spawn =>
    simp only [loopStep] at h
    split at h
    · rename_i sid hpc
      cases h
      refine hi.carry (.inr (.inl hpc)) (by rw [hpc]; simp) (by simp) (by simp) fun i hh => ?_
      simpa [holds, eq_comm] using hh
    · cases h
  | insert =>
    simp only [loopStep] at h
    split at h
    · rename_i sid hpc
      split at h
      · cases h
      · cases h
        refine hi.moveLoop (by rw [hpc]; simp) (by simp) (by simp) fun i hh => ?_
        rcases hh with hh | hh | hh | hh <;> cases hh
    · cases h
  | close =>
    simp only [loopStep] at h
    split at h
    · rename_i sid hpc
      cases h
      have hclosed := hi.closeSession sid
      refine hclosed.toWait (by rw [show (m.closeSession sid).accept = m.accept from rfl, hpc]; simp) fun hr => ?_
      -- The session it closes is the installed one, or a later one has left a permit.
      by_cases hcur : sid = m.watched
      · refine .inr ?_
        show 0 < (Function.update m.sessions sid _ m.watched).version
        rw [hcur, Function.update_self]
        exact Nat.succ_pos _
      · exact .inl (hi.view sid (.inr (.inr (.inr hpc))) hr hcur)
    · cases h
  | wait =>
    simp only [loopStep] at h
    split at h
    · rename_i hpc
      split at h
      · cases h
        refine hi.rearmed (hi.awaited.take.congr fun _ => iff_of_false (by rw [hpc]; simp) id)
      · rename_i hpermit
        cases h
        have hpermit : m.sessionRestored.permit = false := by simpa using hpermit
        refine ⟨hi.closedLost, hi.watches, hi.failing, hi.cleared, ?_, ?_, nofun, fun _ hr => .inr ?_⟩
        · have hpark := hi.awaited.park (t := ()) (by rw [hpc]; simp) hpermit
          exact hpark.congr fun _ => iff_of_true (.inr rfl) rfl
        · rintro sid (h | h | h | h) <;> cases h
        · exact (hi.waiting hpc hr).resolve_left (by rw [hpermit]; simp)
    · cases h
  | wake =>
    simp only [loopStep] at h
    split at h
    · rename_i hc
      cases h
      exact hi.rearmed ((hi.awaited.resume hc.2).congr fun _ => iff_of_false (fun h => h.2 rfl) id)
    · cases h

theorem run_inv {a : RunAct} (hi : Inv m) (h : m.runStep a = some m') : Inv m' := by
  cases a with
  | changed =>
    simp only [runStep] at h
    split at h
    · rename_i hc
      cases h
      have hwatch := hi.watches (.inl hc.1)
      refine ⟨hi.closedLost, ?_, fun _ => ⟨hwatch.1, Nat.lt_of_le_of_lt (Nat.zero_le _) hc.2⟩, ?_, hi.awaited, nofun, nofun, nofun⟩
      · rintro (h | h) <;> cases h
      · rintro (h | ⟨_, h⟩) <;> cases h
    · cases h
  | onLinkFailed =>
    simp only [runStep] at h
    split at h
    · cases h
      refine ⟨hi.closedLost, ?_, nofun, fun _ => rfl, hi.awaited, nofun, nofun, nofun⟩
      rintro (h | h) <;> cases h
    · cases h
  | reconnect =>
    simp only [runStep] at h
    split at h
    · rename_i hr
      cases h
      refine ⟨hi.closedLost, ?_, nofun, fun _ => hi.cleared (.inl hr), hi.awaited, nofun, nofun, nofun⟩
      rintro (h | h) <;> cases h
    · cases h
  | install =>
    simp only [runStep] at h
    split at h
    · cases h
      refine ⟨hi.closedLost, fun _ => ⟨rfl, rfl⟩, nofun, ?_, hi.awaited, nofun, nofun, nofun⟩
      rintro (h | ⟨_, h⟩) <;> cases h
    · cases h
  | notify =>
    simp only [runStep] at h
    split at h
    · rename_i hr
      cases h
      -- The permit is stored, or the loop is woken.
      have hpermit : m.accept ≠ .parked → m.sessionRestored.notifyOne.permit = true := by
        intro hp
        have hnone : m.sessionRestored.waiters = [] := by
          refine List.eq_nil_iff_forall_not_mem.mpr fun t ht => hp ?_
          exact (hi.awaited.mem t).mp (List.mem_append_left _ ht)
        simp [Notify.notifyOne, hnone]
      refine ⟨hi.closedLost, fun _ => hi.watches (.inr hr), nofun, ?_, hi.awaited.notifyOne, ?_, ?_, ?_⟩
      · rintro (h | ⟨_, h⟩) <;> cases h
      · intro sid hh _ _
        refine hpermit fun hp => ?_
        have hp : m.accept = .parked := hp
        unfold holds at hh
        rw [show ({ m with sessionRestored := m.sessionRestored.notifyOne, run := RunPc.select } : Rearm).accept = m.accept
          from rfl, hp] at hh
        rcases hh with h | h | h | h <;> cases h
      · intro ha _
        have ha : m.accept = .wait := ha
        exact .inl (hpermit (by rw [ha]; simp))
      · intro ha _
        have hmem := (hi.awaited.mem ()).mpr ha
        refine .inl ?_
        show () ∈ m.sessionRestored.notifyOne.woken
        unfold Notify.notifyOne
        split
        · rename_i hnone
          rwa [hnone, List.nil_append] at hmem
        · simp
    · cases h
  | linkEnable =>
    simp only [runStep] at h
    split at h
    · split at h
      · cases h
        exact hi.closeSession _
      · cases h
        exact hi
    · cases h

theorem step_inv {a : Act} (hi : Inv m) (h : m.step a = some m') : Inv m' := by
  cases a with
  | loop a => exact loop_inv hi h
  | run a => exact run_inv hi h
  | lose sid =>
    cases h
    refine hi.sessions (fun i => ?_) fun i hv => ?_
    · by_cases he : i = sid
      · subst he
        simp
      · simp [he]
    · by_cases he : i = sid
      · subst he
        simp
      · rw [Function.update_of_ne he] at hv ⊢
        exact hi.closedLost i hv

/-! ## Every run -/

/-- While a live session is installed and `run` has notified of it, the loop is not parked
    without a notification; and a parked loop that has none leaves `run` a failure to see. -/
theorem accept_loop_awake (h : Reach step anyStep init m) :
    (∀ sid, m.session = some sid → (m.sessions sid).lost = false → m.run ≠ .restoring →
      ¬ (m.accept = .parked ∧ () ∉ m.sessionRestored.woken ∧ m.sessionRestored.permit = false)) ∧
    (m.accept = .parked → () ∉ m.sessionRestored.woken → m.run = .select →
      ∃ m', m.step (.run .changed) = some m' ∧ m'.run = .failed) := by
  have hi : Inv m := h.invariant init_inv fun hi _ hs => step_inv hi hs
  have hchange : m.accept = .parked → () ∉ m.sessionRestored.woken → m.run = .select →
      0 < (m.sessions m.watched).version := fun ha hw hr => (hi.parked ha hr).resolve_left hw
  constructor
  · rintro sid hsession hlive hrun ⟨ha, hw, _⟩
    -- The installed session has failed, whatever `run` is doing.
    have hfailed : ∀ (hcur : m.session = some m.watched), 0 < (m.sessions m.watched).version → False := by
      intro hcur hv
      rw [hsession] at hcur
      cases Option.some.inj hcur
      rw [hi.closedLost _ hv] at hlive
      cases hlive
    cases hr : m.run with
    | select => exact hfailed (hi.watches (.inl hr)).1 (hchange ha hw hr)
    | failed => exact hfailed (hi.failing hr).1 (hi.failing hr).2
    | reconnecting =>
      rw [hi.cleared (.inl hr)] at hsession
      cases hsession
    | install sid' =>
      rw [hi.cleared (.inr ⟨sid', hr⟩)] at hsession
      cases hsession
    | restoring => exact hrun hr
  · intro ha hw hr
    have hv := hchange ha hw hr
    rw [← (hi.watches (.inl hr)).2] at hv
    refine ⟨{ m with seen := (m.sessions m.watched).version, run := .failed }, ?_, rfl⟩
    simp only [step, runStep, hr, hv, and_self, if_true]

/-- Two sessions fail. The loop reads a header while the first is replaced, and goes past
    that notification; the permit is spent on its first wait for the third session, and at
    the second the notification wakes it. -/
theorem woken_after_spent_permit :
    ∃ m, Reach step anyStep init m ∧ m.session = some 2 ∧ (m.sessions 2).lost = false ∧ m.run = .select ∧
      m.accept = .parked ∧ m.sessionRestored.permit = false ∧ () ∈ m.sessionRestored.woken := by
  obtain ⟨m, hr, hm⟩ := Reach.exists_run step anyStep init
    [.loop .snapshot, .loop .acceptOk, .run .linkEnable, .run .changed, .run .onLinkFailed, .run .reconnect, .run .install,
      .run .notify, .loop .spawn, .loop .insert, .loop .snapshot, .lose 1, .loop .acceptErr, .loop .close, .loop .wait,
      .run .changed, .run .onLinkFailed, .loop .snapshot, .loop .wait, .run .reconnect, .run .install, .run .notify]
    (fun m => m.session = some 2 ∧ (m.sessions 2).lost = false ∧ m.run = .select ∧ m.accept = .parked ∧
      m.sessionRestored.permit = false) (by decide +kernel)
  obtain ⟨hsession, hlive, hrun, haccept, hpermit⟩ := of_decide_eq_true hm
  refine ⟨m, hr, hsession, hlive, hrun, haccept, hpermit, ?_⟩
  by_contra hw
  exact (accept_loop_awake hr).1 2 hsession hlive (by rw [hrun]; simp) ⟨haccept, hw, hpermit⟩

end Rearm

end Quelay.Agent.SessionManager
