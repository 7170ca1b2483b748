/-
  Quelay.Lib.Notify — a notification cell awaited by several tasks.

  `notifyOne` wakes the task that has waited longest, or else stores a permit (at most
  one). A task that starts to wait takes a stored permit, or parks at the end of the
  queue. A task that gives up waiting leaves the queue; if it had been woken and not
  yet run, its notification goes to the next task.
-/

import Mathlib.Data.List.Basic

namespace Quelay.Lib

structure Notify (τ : Type) where
  permit : Bool
  waiters : List τ
  woken : List τ
  deriving DecidableEq, Repr

namespace Notify

variable {τ : Type}

def empty : Notify τ := ⟨false, [], []⟩

def notifyOne (n : Notify τ) : Notify τ :=
  match n.waiters with
  | [] => { n with permit := true }
  | t :: ts => { n with waiters := ts, woken := n.woken ++ [t] }

def take (n : Notify τ) : Notify τ := { n with permit := false }

def park (n : Notify τ) (t : τ) : Notify τ := { n with waiters := n.waiters ++ [t] }

/-- The woken task runs. -/
def resume [DecidableEq τ] (n : Notify τ) (t : τ) : Notify τ := { n with woken := n.woken.erase t }

/-- The task gives up waiting. -/
def cancel [DecidableEq τ] (n : Notify τ) (t : τ) : Notify τ :=
  if t ∈ n.woken then (n.resume t).notifyOne else { n with waiters := n.waiters.erase t }

/-! ## Who waits -/

/-- The tasks in the cell are those that await it, each once; a permit is kept only
    while nobody waits. -/
structure Awaited (n : Notify τ) (awaits : τ → Prop) : Prop where
  nodup : (n.waiters ++ n.woken).Nodup
  mem : ∀ t, t ∈ n.waiters ++ n.woken ↔ awaits t
  permit : n.permit = true → n.waiters = []

/-- A notification is stored, or on its way to a task that it has woken. -/
def Pending (n : Notify τ) : Prop := n.permit = true ∨ n.woken ≠ []

instance [DecidableEq τ] (n : Notify τ) : Decidable n.Pending := inferInstanceAs (Decidable (_ ∨ _))

variable {n : Notify τ} {awaits awaits' : τ → Prop}

theorem Awaited.congr (h : n.Awaited awaits) (ha : ∀ t, awaits t ↔ awaits' t) : n.Awaited awaits' :=
  ⟨h.nodup, fun t => (h.mem t).trans (ha t), h.permit⟩

theorem Awaited.notifyOne (h : n.Awaited awaits) : n.notifyOne.Awaited awaits := by
  unfold Notify.notifyOne
  split
  · exact ⟨h.nodup, h.mem, fun _ => by assumption⟩
  · rename_i t ts hw
    have hp : (t :: (ts ++ n.woken)).Perm (ts ++ (n.woken ++ [t])) := by
      rw [← List.append_assoc]
      exact (List.perm_append_singleton t _).symm
    have hnodup := h.nodup
    have hmem := h.mem
    rw [hw, List.cons_append] at hnodup hmem
    refine ⟨hp.nodup_iff.mp hnodup, fun x => (hp.mem_iff.symm).trans (hmem x), fun hpermit => ?_⟩
    have := h.permit hpermit
    rw [hw] at this
    cases this

theorem Awaited.take (h : n.Awaited awaits) : n.take.Awaited awaits := ⟨h.nodup, h.mem, nofun⟩

theorem Awaited.park (h : n.Awaited awaits) {t : τ} (ht : ¬ awaits t) (hp : n.permit = false) :
    (n.park t).Awaited fun x => awaits x ∨ x = t := by
  have hperm : (t :: (n.waiters ++ n.woken)).Perm (n.waiters ++ [t] ++ n.woken) := by
    rw [List.append_assoc]
    exact List.perm_middle.symm
  refine ⟨?_, fun x => ?_, fun hpermit => ?_⟩
  · refine hperm.nodup_iff.mp (List.nodup_cons.mpr ⟨fun hm => ht ((h.mem t).mp hm), h.nodup⟩)
  · show x ∈ n.waiters ++ [t] ++ n.woken ↔ _
    rw [← hperm.mem_iff, List.mem_cons, h.mem x]
    exact or_comm
  · rw [show (n.park t).permit = n.permit from rfl, hp] at hpermit
    cases hpermit

/-- A task that waits and has not been woken leaves no permit behind. -/
theorem Awaited.no_permit (h : n.Awaited awaits) {t : τ} (ht : awaits t) (hw : t ∉ n.woken) : n.permit = false := by
  cases hp : n.permit with
  | false => rfl
  | true =>
    have hm := (h.mem t).mpr ht
    rw [h.permit hp, List.nil_append] at hm
    exact absurd hm hw

theorem notifyOne_pending (n : Notify τ) : n.notifyOne.Pending := by
  unfold Notify.notifyOne
  split
  · exact .inl rfl
  · exact .inr (by simp)

/-- How many notifications are pending. -/
def pendingCount (n : Notify τ) : Nat := n.permit.toNat + n.woken.length

theorem pendingCount_notifyOne (n : Notify τ) : n.notifyOne.pendingCount ≤ n.pendingCount + 1 := by
  unfold pendingCount Notify.notifyOne
  split
  · simp only [Bool.toNat_true]
    omega
  · simp only [List.length_append, List.length_singleton]
    omega

theorem pendingCount_take (hp : n.permit = true) : n.take.pendingCount + 1 = n.pendingCount := by
  simp only [pendingCount, Notify.take, hp, Bool.toNat_true, Bool.toNat_false]
  omega

@[simp] theorem pendingCount_park (n : Notify τ) (t : τ) : (n.park t).pendingCount = n.pendingCount := rfl

variable [DecidableEq τ]

theorem Awaited.resume (h : n.Awaited awaits) {t : τ} (ht : t ∈ n.woken) :
    (n.resume t).Awaited fun x => awaits x ∧ x ≠ t := by
  have hnot : t ∉ n.waiters := fun hw => (List.nodup_append.mp h.nodup).2.2 t hw t ht rfl
  have herase : n.waiters ++ n.woken.erase t = (n.waiters ++ n.woken).erase t := by
    rw [List.erase_append_right _ hnot]
  refine ⟨?_, fun x => ?_, h.permit⟩
  · show (n.waiters ++ n.woken.erase t).Nodup
    rw [herase]
    exact h.nodup.erase t
  · show x ∈ n.waiters ++ n.woken.erase t ↔ _
    rw [herase, h.nodup.mem_erase_iff, h.mem x]
    exact and_comm

theorem Awaited.cancel (h : n.Awaited awaits) (t : τ) : (n.cancel t).Awaited fun x => awaits x ∧ x ≠ t := by
  unfold Notify.cancel
  split
  · rename_i ht
    exact (h.resume ht).notifyOne
  · rename_i ht
    have herase : n.waiters.erase t ++ n.woken = (n.waiters ++ n.woken).erase t := by
      by_cases hw : t ∈ n.waiters
      · rw [List.erase_append_left _ hw]
      · rw [List.erase_append_right _ hw, List.erase_of_not_mem hw, List.erase_of_not_mem ht]
    refine ⟨?_, fun x => ?_, fun hp => ?_⟩
    · show (n.waiters.erase t ++ n.woken).Nodup
      rw [herase]
      exact h.nodup.erase t
    · show x ∈ n.waiters.erase t ++ n.woken ↔ _
      rw [herase, h.nodup.mem_erase_iff, h.mem x]
      exact and_comm
    · show n.waiters.erase t = []
      rw [h.permit hp, List.erase_nil]

/-- A notification survives a task that gives up. -/
theorem Pending.cancel (h : n.Pending) (t : τ) : (n.cancel t).Pending := by
  unfold Notify.cancel
  split
  · exact notifyOne_pending _
  · exact h

theorem pendingCount_resume {t : τ} (ht : t ∈ n.woken) : (n.resume t).pendingCount + 1 = n.pendingCount := by
  have hpos := List.length_pos_of_mem ht
  simp only [pendingCount, Notify.resume, List.length_erase_of_mem ht]
  omega

/-- A task that gives up waiting hands its notification on, if it has one. -/
theorem pendingCount_cancel (n : Notify τ) (t : τ) : (n.cancel t).pendingCount ≤ n.pendingCount := by
  unfold Notify.cancel
  split
  · rename_i ht
    have hgiven := pendingCount_notifyOne (n.resume t)
    have hleft := pendingCount_resume ht
    omega
  · exact Nat.le_refl _

end Notify

end Quelay.Lib
