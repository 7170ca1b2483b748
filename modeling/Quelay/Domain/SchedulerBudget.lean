/-
  Quelay.Domain.SchedulerBudget — what one call of `schedule` gives out, in any state
  of the scheduler: the allocations it returns sum to at most the budget.
-/

import Quelay.Domain.Scheduler
import Mathlib.Algebra.BigOperators.Group.List.Basic

namespace Quelay.Domain

/-- The bytes of an allocation list. -/
def allocSum (l : List (Uuid × Nat)) : Nat := (l.map (·.2)).sum

@[simp] theorem allocSum_nil : allocSum [] = 0 := rfl

@[simp] theorem allocSum_cons (x : Uuid × Nat) (l : List (Uuid × Nat)) : allocSum (x :: l) = x.2 + allocSum l := by
  simp [allocSum]

@[simp] theorem allocSum_append (l l' : List (Uuid × Nat)) : allocSum (l ++ l') = allocSum l + allocSum l' := by
  simp [allocSum]

theorem allocSum_perm {l l' : List (Uuid × Nat)} (h : l.Perm l') : allocSum l = allocSum l' := (h.map _).sum_nat

/-- The bytes an allocation list gives a stream. -/
def allocOf (l : List (Uuid × Nat)) (id : Uuid) : Nat := ((l.filter (·.1 = id)).map (·.2)).sum

theorem allocOf_cons (x : Uuid × Nat) (l : List (Uuid × Nat)) (id : Uuid) :
    allocOf (x :: l) id = (if x.1 = id then x.2 else 0) + allocOf l id := by
  by_cases h : x.1 = id
  · simp [allocOf, h]
  · simp [allocOf, h]

theorem allocOf_eq_zero {l : List (Uuid × Nat)} {id : Uuid} (h : ∀ x ∈ l, x.1 ≠ id) : allocOf l id = 0 := by
  induction l with
  | nil => rfl
  | cons x l ih =>
    rw [allocOf_cons, if_neg (h x List.mem_cons_self), ih fun y hy => h y (List.mem_cons_of_mem _ hy)]

theorem allocOf_le_allocSum (l : List (Uuid × Nat)) (id : Uuid) : allocOf l id ≤ allocSum l := by
  induction l with
  | nil => simp [allocOf]
  | cons x l ih =>
    rw [allocOf_cons, allocSum_cons]
    split
    · omega
    · omega

theorem allocOf_append (l l' : List (Uuid × Nat)) (id : Uuid) : allocOf (l ++ l') id = allocOf l id + allocOf l' id := by
  simp [allocOf]

theorem allocOf_addAlloc (l : List (Uuid × Nat)) (id j : Uuid) (n : Nat) :
    allocOf (DrrScheduler.addAlloc l id n) j = allocOf l j + if j = id then n else 0 := by
  induction l with
  | nil =>
    by_cases h : j = id
    · subst h; simp [DrrScheduler.addAlloc, allocOf]
    · simp [DrrScheduler.addAlloc, allocOf, h, Ne.symm h]
  | cons x l ih =>
    obtain ⟨i, m⟩ := x
    simp only [DrrScheduler.addAlloc]
    split
    · rename_i hi
      subst hi
      by_cases h : j = i
      · subst h
        simp [allocOf]
        omega
      · simp [allocOf, h, Ne.symm h]
    · by_cases hij : i = j
      · subst hij
        simp only [allocOf, List.filter_cons, decide_true, if_true, List.map_cons, List.sum_cons] at ih ⊢
        rw [ih]
        omega
      · simpa only [allocOf, List.filter_cons, decide_eq_true_eq, hij, if_false] using ih

theorem allocOf_perm {l l' : List (Uuid × Nat)} (h : l.Perm l') (id : Uuid) : allocOf l id = allocOf l' id :=
  ((h.filter _).map _).sum_nat

namespace DrrScheduler

theorem allocSum_addAlloc (l : List (Uuid × Nat)) (id : Uuid) (n : Nat) :
    allocSum (addAlloc l id n) = allocSum l + n := by
  induction l with
  | nil => simp [addAlloc]
  | cons x l ih =>
    simp only [addAlloc]
    split
    · simp only [allocSum_cons]
      omega
    · simp only [allocSum_cons, ih]
      omega

/-- The strict phase moves bytes from the budget to the result. -/
theorem strictPhase_sum {streams : Uuid → Option StreamEntry} {ids : List Uuid} {budget left : Nat}
    {result result' : List (Uuid × Nat)} (h : strictPhase streams ids budget result = .ok (left, result')) :
    allocSum result' + left = allocSum result + budget := by
  induction ids generalizing budget result with
  | nil =>
    simp only [strictPhase, Except.ok.injEq, Prod.mk.injEq] at h
    rw [h.1, h.2]
  | cons id ids ih =>
    simp only [strictPhase] at h
    split at h
    · simp only [Except.ok.injEq, Prod.mk.injEq] at h
      rw [h.1, h.2]
    · split at h
      · cases h
      · split at h
        · have := ih h
          simp only [allocSum_append, allocSum_cons, allocSum_nil] at this
          omega
        · exact ih h

/-- So does a turn. -/
theorem turn_sum {b b' : Bulk} {sent : Bool} (h : turn b = .ok (sent, b')) :
    allocSum b'.allocs + b'.budget = allocSum b.allocs + b.budget := by
  rcases turn_cases h with ⟨_, _, rfl⟩ | ⟨id, rest, e, _, _, _, ⟨_, _, rfl⟩ | ⟨_, _, rfl⟩⟩
  · rfl
  · have : turnSend b.budget e ≤ b.budget := by unfold turnSend; omega
    simp only [allocSum_addAlloc]
    omega
  · rfl

theorem mandatoryRound_sum (n : Nat) (b : Bulk) :
    allocSum (mandatoryRound n b).1.allocs + (mandatoryRound n b).1.budget = allocSum b.allocs + b.budget := by
  induction n generalizing b with
  | zero => rfl
  | succ n ih =>
    simp only [mandatoryRound]
    split
    · rfl
    · split
      · rfl
      · rename_i ht
        rw [ih, turn_sum ht]

theorem extraTurns_sum (n idle : Nat) (b : Bulk) :
    allocSum (extraTurns n idle b).1.allocs + (extraTurns n idle b).1.budget = allocSum b.allocs + b.budget := by
  fun_induction extraTurns n idle b with
  | case1 => rfl
  | case2 _ _ _ _ ht ih => rw [ih, turn_sum ht]
  | case3 _ _ _ _ ht ih => rw [ih, turn_sum ht]
  | case4 => rfl

theorem schedule_sum_le {s : DrrScheduler} {budget : Nat} {order : HashOrder} {allocs : List (Uuid × Nat)}
    (h : (s.schedule budget order).2 = .ok allocs) : allocSum allocs ≤ budget := by
  unfold schedule at h
  split at h
  · cases h
  · rename_i left result hs
    have hstrict := strictPhase_sum hs
    rw [allocSum_nil] at hstrict
    simp only at h
    split at h
    · simp only [Except.ok.injEq] at h
      subst h
      omega
    · have h1 := mandatoryRound_sum s.bulkOrder.length ⟨s, left, []⟩
      split at h
      · cases h
      · rename_i b _ hm
        rw [hm] at h1
        have h2 := extraTurns_sum s.bulkOrder.length 0 b
        split at h
        · cases h
        · rename_i b' _ hx
          rw [hx] at h2
          simp only [Except.ok.injEq] at h
          subst h
          rw [allocSum_append, allocSum_perm (order.perm b'.allocs)]
          simp only [allocSum_nil] at h1 h2
          omega

end DrrScheduler

end Quelay.Domain
