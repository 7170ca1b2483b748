/-
  Quelay.Domain.SchedulerWork — a call of `schedule` ends, and leaves budget over only
  when nobody can use it.

  `extraTurnsFor` is phase 2 as the source writes it, a `while` loop given a number of
  passes: a pass over an empty deque changes nothing, so nothing about the loop's end is
  built into it. A turn that sends spends budget, and as many turns in a row as there
  are streams without sending end the loop, so `(budget + 1) * (n + 1)` passes are
  enough (`schedule_terminates`). Budget that is left has been offered to every stream
  (`left_over_unusable`).
-/

import Quelay.Domain.SchedulerTurns

namespace Quelay.Domain

namespace DrrScheduler

/-! ## The loop ends -/

/-- Phase 2, stopped after `passes` passes of its loop. -/
def extraTurnsFor (n : Nat) : Nat → Nat → Bulk → Option (Bulk × Except SchedError Unit)
  | 0, _, _ => none
  | passes + 1, idle, b =>
    if 0 < b.budget ∧ idle < n then
      match b.sched.bulkOrder with
      | [] => extraTurnsFor n passes idle b
      | _ :: _ =>
        match turn b with
        | .error e => some (b, .error e)
        | .ok (true, b') => extraTurnsFor n passes 0 b'
        | .ok (false, b') => extraTurnsFor n passes (idle + 1) b'
    else some (b, .ok ())

/-- `schedule` with its loop stopped after `passes` passes. -/
def scheduleFor (s : DrrScheduler) (budget : Nat) (order : HashOrder) (passes : Nat) :
    Option (DrrScheduler × Except SchedError (List (Uuid × Nat))) :=
  match strictPhase s.streams s.c2iQueue budget [] with
  | .error e => some (s, .error e)
  | .ok (budget, result) =>
    let n := s.bulkOrder.length
    if n = 0 ∨ budget = 0 then some (s, .ok result)
    else match mandatoryRound n ⟨s, budget, []⟩ with
      | (b, .error e) => some (b.sched, .error e)
      | (b, .ok _) =>
        match extraTurnsFor n passes 0 b with
        | none => none
        | some (b, .error e) => some (b.sched, .error e)
        | some (b, .ok _) => some (b.sched, .ok (result ++ order.list b.allocs))

/-- Enough passes for a loop that starts with `budget` and `idle` turns counted. -/
def passesFor (n budget idle : Nat) : Nat := budget * (n + 1) + (n - idle) + 1

theorem passesFor_sent (n idle : Nat) {budget budget' : Nat} (h : budget' < budget) :
    passesFor n budget' 0 + 1 ≤ passesFor n budget idle := by
  have : (budget' + 1) * (n + 1) ≤ budget * (n + 1) := Nat.mul_le_mul_right _ h
  rw [Nat.add_mul] at this
  unfold passesFor
  omega

theorem extraTurnsFor_eq {n idle : Nat} {b : Bulk} (hn : b.sched.bulkOrder.length = n) {passes : Nat}
    (h : passesFor n b.budget idle ≤ passes) : extraTurnsFor n passes idle b = some (extraTurns n idle b) := by
  fun_induction extraTurns n idle b generalizing passes with
  | case1 idle b hg e ht =>
    obtain ⟨p, rfl⟩ : ∃ p, passes = p + 1 := ⟨passes - 1, by unfold passesFor at h; omega⟩
    obtain ⟨id, rest, ho⟩ := List.exists_cons_of_length_pos (l := b.sched.bulkOrder) (by omega)
    simp only [extraTurnsFor, if_pos hg, ho, ht]
  | case2 idle b hg b' ht ih =>
    obtain ⟨p, rfl⟩ : ∃ p, passes = p + 1 := ⟨passes - 1, by unfold passesFor at h; omega⟩
    obtain ⟨id, rest, ho⟩ := List.exists_cons_of_length_pos (l := b.sched.bulkOrder) (by omega)
    simp only [extraTurnsFor, if_pos hg, ho, ht]
    have hlt := passesFor_sent n idle ((turn_budget ht).1 rfl)
    exact ih ((turn_shape ht).bulk.length_eq.trans hn) (by omega)
  | case3 idle b hg b' ht ih =>
    obtain ⟨p, rfl⟩ : ∃ p, passes = p + 1 := ⟨passes - 1, by unfold passesFor at h; omega⟩
    obtain ⟨id, rest, ho⟩ := List.exists_cons_of_length_pos (l := b.sched.bulkOrder) (by omega)
    simp only [extraTurnsFor, if_pos hg, ho, ht]
    refine ih ((turn_shape ht).bulk.length_eq.trans hn) ?_
    rw [(turn_budget ht).2 rfl]
    unfold passesFor at h ⊢
    omega
  | case4 idle b hg =>
    obtain ⟨p, rfl⟩ : ∃ p, passes = p + 1 := ⟨passes - 1, by unfold passesFor at h; omega⟩
    simp only [extraTurnsFor, if_neg hg]

/-- In any state, `(budget + 1) * (n + 1)` passes of the loop finish the call. -/
theorem schedule_terminates (s : DrrScheduler) (budget : Nat) (order : HashOrder) {passes : Nat}
    (h : (budget + 1) * (s.bulkOrder.length + 1) ≤ passes) :
    s.scheduleFor budget order passes = some (s.schedule budget order) := by
  unfold scheduleFor schedule
  cases hs : strictPhase s.streams s.c2iQueue budget [] with
  | error e => rfl
  | ok r =>
    obtain ⟨left, result⟩ := r
    have hleft : left ≤ budget := by
      have := strictPhase_sum hs
      rw [allocSum_nil] at this
      omega
    simp only
    by_cases h0 : s.bulkOrder.length = 0 ∨ left = 0
    · rw [if_pos h0, if_pos h0]
    · rw [if_neg h0, if_neg h0]
      have hshape := mandatoryRound_shape s.bulkOrder.length ⟨s, left, []⟩
      have hsum := mandatoryRound_sum s.bulkOrder.length ⟨s, left, []⟩
      rcases hm : mandatoryRound s.bulkOrder.length ⟨s, left, []⟩ with ⟨b, r⟩
      rw [hm] at hshape hsum
      have hb : b.budget ≤ budget := by
        simp only [allocSum_nil] at hsum
        omega
      have hpasses : passesFor s.bulkOrder.length b.budget 0 ≤ passes := by
        have hmul : b.budget * (s.bulkOrder.length + 1) ≤ budget * (s.bulkOrder.length + 1) :=
          Nat.mul_le_mul_right _ hb
        rw [Nat.add_mul] at h
        unfold passesFor
        omega
      cases r with
      | error e => rfl
      | ok u =>
        simp only [extraTurnsFor_eq hshape.bulk.length_eq hpasses]
        rcases extraTurns s.bulkOrder.length 0 b with ⟨c, e | u⟩
        · rfl
        · rfl

end DrrScheduler

/-! ## Budget left over -/

namespace Traced

/-- No call of the sequence registers an id that is registered. -/
def FreshRun (ops : List Op) : Prop := ∀ pre op, pre ++ [op] <+: ops → Fresh (run pre) op

theorem FreshRun.tables {ops : List Op} (h : FreshRun ops) : Tables (run ops) := by
  induction ops using List.reverseRecOn with
  | nil => exact tables_start
  | append_singleton ops op ih =>
    rw [run_concat]
    refine apply_tables (ih fun pre o hp => h pre o (List.IsPrefix.trans hp (List.prefix_append ops [op]))) ?_
    exact h ops op (List.prefix_refl _)

instance (t : Traced) : (op : Op) → Decidable (Fresh t op)
  | .register id _ => inferInstanceAs (Decidable (t.sched.streams id = none))
  | .deregister _ => inferInstanceAs (Decidable True)
  | .setQuantum _ _ => inferInstanceAs (Decidable True)
  | .setBacklog _ _ => inferInstanceAs (Decidable True)
  | .schedule _ _ => inferInstanceAs (Decidable True)

/-- `FreshRun` as a check that runs. -/
def freshFrom (t : Traced) : List Op → Bool
  | [] => true
  | op :: ops => decide (Fresh t op) && freshFrom (t.apply op) ops

theorem FreshRun.of_check {ops : List Op} (h : freshFrom start ops = true) : FreshRun ops := by
  have hgen : ∀ (ops : List Op) (t : Traced), freshFrom t ops = true →
      ∀ pre op, pre ++ [op] <+: ops → Fresh (pre.foldl apply t) op := by
    intro ops
    induction ops with
    | nil =>
      intro t _ pre op hp
      have := List.prefix_nil.mp hp
      simp at this
    | cons o ops ih =>
      intro t ht pre op hp
      simp only [freshFrom, Bool.and_eq_true, decide_eq_true_eq] at ht
      cases pre with
      | nil =>
        obtain ⟨rest, hr⟩ := hp
        simp only [List.nil_append, List.cons_append, List.cons.injEq] at hr
        exact hr.1 ▸ ht.1
      | cons p pre =>
        obtain ⟨rfl, hrest⟩ := List.cons_prefix_cons.mp hp
        exact ih (t.apply p) ht.2 pre op hrest
  exact hgen ops start h

end Traced

namespace DrrScheduler

open Traced

theorem addAlloc_mem {l : List (Uuid × Nat)} {id : Uuid} {n : Nat} {x : Uuid × Nat} (h : x ∈ addAlloc l id n) :
    x.1 = id ∨ ∃ y ∈ l, y.1 = x.1 := by
  induction l with
  | nil =>
    simp only [addAlloc, List.mem_singleton] at h
    exact .inl (by rw [h])
  | cons y l ih =>
    simp only [addAlloc] at h
    split at h
    · rename_i hy
      rcases List.mem_cons.mp h with rfl | h
      · exact .inl hy
      · exact .inr ⟨x, List.mem_cons_of_mem _ h, rfl⟩
    · rcases List.mem_cons.mp h with rfl | h
      · exact .inr ⟨_, List.mem_cons_self, rfl⟩
      · rcases ih h with h | ⟨z, hz, hx⟩
        · exact .inl h
        · exact .inr ⟨z, List.mem_cons_of_mem _ hz, hx⟩

/-- The bulk streams' allocations are all theirs. -/
theorem Turns.allocs_ids {k : Nat} {s : DrrScheduler} {left : Nat} {b : Bulk} (h : Turns ⟨s, left, []⟩ k b) :
    ∀ x ∈ b.allocs, x.1 ∈ s.bulkOrder := by
  have hboth : (∀ j ∈ b.sched.bulkOrder, j ∈ s.bulkOrder) ∧ ∀ x ∈ b.allocs, x.1 ∈ s.bulkOrder := by
    refine h.invariant (P := fun c => (∀ j ∈ c.sched.bulkOrder, j ∈ s.bulkOrder) ∧ ∀ x ∈ c.allocs, x.1 ∈ s.bulkOrder)
      (fun {c d sent} _ ht hc => ⟨fun j hj => hc.1 j ((turn_shape ht).bulk.mem_iff.mp hj), ?_⟩)
      ⟨fun _ hj => hj, fun _ hx => by cases hx⟩
    intro x hx
    rcases turn_cases ht with ⟨_, _, rfl⟩ | ⟨j, rest, e, ho, _, _, ⟨_, _, rfl⟩ | ⟨_, _, rfl⟩⟩
    · exact hc.2 x hx
    · rcases addAlloc_mem hx with h | ⟨y, hy, h⟩
      · rw [h]
        exact hc.1 j (by simp [ho])
      · rw [← h]
        exact hc.2 y hy
    · exact hc.2 x hx
  exact hboth.2

theorem Turns.allocs_mem {k : Nat} {s : DrrScheduler} {left : Nat} {b : Bulk} (h : Turns ⟨s, left, []⟩ k b) {id : Uuid}
    (hid : id ∉ s.bulkOrder) : allocOf b.allocs id = 0 := by
  apply allocOf_eq_zero
  rintro x hx rfl
  exact hid (h.allocs_ids x hx)

/-- What a call gives a strict stream: its need, cut by what the streams before it in
    the queue left of the budget. -/
theorem allocOf_strict {t : Traced} (ht : Tables t) {budget : Nat} {order : HashOrder} {k : Nat} {b : Bulk}
    (hb : Turns ⟨t.sched, t.sched.bulkBudget budget, []⟩ k b) {pre post : List Uuid} {id : Uuid}
    (hq : t.sched.c2iQueue = pre ++ id :: post) :
    allocOf (strictGrants t.sched.streams t.sched.c2iQueue budget ++ order.list b.allocs) id =
      min (budget - strictNeeds t.sched.streams pre) (strictNeed t.sched.streams id) := by
  have hin : id ∈ t.sched.c2iQueue := by simp [hq]
  have hout : id ∉ t.sched.bulkOrder := by
    obtain ⟨p, hp, hs⟩ := (ht.c2iMem id).mp hin
    intro hm
    obtain ⟨p', hp', hs'⟩ := (ht.bulkMem id).mp hm
    rw [hp] at hp'
    cases hp'
    rw [hs] at hs'
    cases hs'
  have hnd := ht.c2iNodup
  rw [hq] at hnd
  rw [allocOf_append, allocOf_perm (order.perm b.allocs), hb.allocs_mem hout, hq, allocOf_strictGrants hnd, Nat.add_zero]

/-- And a bulk stream: what its turns sent. -/
theorem allocOf_bulk {t : Traced} (ht : Tables t) {budget : Nat} {order : HashOrder} {b : Bulk} {id : Uuid}
    (hin : id ∈ t.sched.bulkOrder) :
    allocOf (strictGrants t.sched.streams t.sched.c2iQueue budget ++ order.list b.allocs) id = allocOf b.allocs id := by
  have hout : ∀ x ∈ strictGrants t.sched.streams t.sched.c2iQueue budget, x.1 ≠ id := by
    rintro x hx rfl
    obtain ⟨p, hp, hs⟩ := (ht.bulkMem x.1).mp hin
    obtain ⟨p', hp', hs'⟩ := (ht.c2iMem x.1).mp (strictGrants_mem hx)
    rw [hp] at hp'
    cases hp'
    rw [hs] at hs'
    cases hs'
  rw [allocOf_append, allocOf_eq_zero hout, allocOf_perm (order.perm b.allocs), Nat.zero_add]

/-- Budget is left over only when no bulk stream can send and every strict stream has
    what its backlog and quantum let it have. -/
theorem left_over_unusable {t : Traced} (ht : Tables t) {budget : Nat} {order : HashOrder} {allocs : List (Uuid × Nat)}
    (h : (t.sched.schedule budget order).2 = .ok allocs) (hlt : allocSum allocs < budget) {id : Uuid} {e : StreamEntry}
    (he : t.sched.streams id = some e) :
    if e.priority.isStrict then allocOf allocs id = min e.backlog e.quantum else e.backlog = 0 ∨ e.quantum = 0 := by
  obtain ⟨k, b, hturns, rfl, hend⟩ := schedule_turns ht.known.1 h
  have hgrants : allocSum (strictGrants t.sched.streams t.sched.c2iQueue budget) + t.sched.bulkBudget budget = budget := by
    have := strictPhase_sum (strictPhase_eq ht.known.1 budget [])
    simpa [bulkBudget] using this
  have hbulk := hturns.sum
  simp only [allocSum_nil] at hbulk
  rw [allocSum_append, allocSum_perm (order.perm b.allocs)] at hlt
  have hleft : 0 < b.budget := by omega
  cases hs : e.priority.isStrict with
  | true =>
    obtain ⟨pre, post, hq⟩ := List.append_of_mem (ht.of_strict he hs).1
    rw [if_pos rfl, allocOf_strict ht hturns hq]
    have hneed : strictNeed t.sched.streams id = min e.backlog e.quantum := by simp [strictNeed, he]
    have hroom : strictNeeds t.sched.streams t.sched.c2iQueue < budget := by
      unfold bulkBudget at hbulk
      omega
    rw [hq, strictNeeds_append, strictNeeds_cons] at hroom
    rw [← hneed]
    omega
  | false => exact (hend hleft).2 id (ht.of_bulk he hs).2 e he

end DrrScheduler

namespace Traced

/-- In every state reached without registering a registered id, a call ends, spends at
    most its budget, and leaves budget over only when no stream can use it. -/
theorem schedule_work_conserving (ops : List Op) (hf : FreshRun ops) (budget : Nat) (order : HashOrder) :
    (∀ passes, (budget + 1) * ((run ops).sched.bulkOrder.length + 1) ≤ passes →
      (run ops).sched.scheduleFor budget order passes = some ((run ops).sched.schedule budget order)) ∧
    ∀ allocs, ((run ops).sched.schedule budget order).2 = .ok allocs →
      allocSum allocs ≤ budget ∧
      (allocSum allocs < budget → ∀ id e, (run ops).sched.streams id = some e →
        if e.priority.isStrict then allocOf allocs id = min e.backlog e.quantum else e.backlog = 0 ∨ e.quantum = 0) := by
  refine ⟨fun passes hp => DrrScheduler.schedule_terminates _ budget order hp, fun allocs h => ?_⟩
  exact ⟨DrrScheduler.schedule_sum_le h, fun hlt id e he => DrrScheduler.left_over_unusable hf.tables h hlt he⟩

/-- A strict stream, a bulk stream whose quantum is set to 0, and budget to spare. -/
def quantumZeroed : List Op :=
  [.register ⟨1⟩ .c2iPriorityMin, .register ⟨2⟩ .bulkPriorityMin, .setQuantum ⟨2⟩ 0, .setBacklog ⟨1⟩ 10, .setBacklog ⟨2⟩ 7]

theorem quantum_zero_conserving :
    ((run quantumZeroed).sched.schedule 100 .inserted).2 = .ok [(⟨1⟩, 10)] ∧
      (run quantumZeroed).sched.scheduleFor 100 .inserted 202 = some ((run quantumZeroed).sched.schedule 100 .inserted) :=
  ⟨by decide +kernel, (schedule_work_conserving quantumZeroed (.of_check (by decide +kernel)) 100 .inserted).1 202 (by decide +kernel)⟩

end Traced

end Quelay.Domain
