/-
  Quelay.Domain.SchedulerDeficit — whether the `u32` deficit can overflow.

  A turn adds the quantum and takes off what was sent. The subtraction takes at most
  what is there. The addition has no guard: a stream with less backlog than quantum
  keeps the difference at every turn, and within one call it is given a turn for every
  backlog the budget holds, because the backlog is not lowered (`one_byte_overflows`).
  No call of a run overflows if, before each, every bulk stream's deficit has room for
  one more quantum and for those differences (`deficits_stay_in_u32`).
-/

import Quelay.Domain.SchedulerTurns

namespace Quelay.Domain

/-- The most a stream's deficit can be when a call with `left` bytes for bulk streams
    has added its quantum. -/
def StreamEntry.peak (e : StreamEntry) (left : Nat) : Nat :=
  e.deficit + e.quantum + (left - 1) / e.backlog * (e.quantum - e.backlog)

theorem StreamEntry.peak_mono (e : StreamEntry) {l l' : Nat} (h : l ≤ l') : e.peak l ≤ e.peak l' := by
  have hdiv : (l - 1) / e.backlog ≤ (l' - 1) / e.backlog := Nat.div_le_div_right (by omega)
  have hmul := Nat.mul_le_mul_right (e.quantum - e.backlog) hdiv
  unfold peak
  omega

namespace DrrScheduler

/-! ## One call -/

/-- Every bulk stream's deficit has room for a call. -/
def DeficitsHaveRoom (s : DrrScheduler) (budget : Nat) : Prop :=
  ∀ id ∈ s.bulkOrder, ∀ e, s.streams id = some e → e.peak (s.bulkBudget budget) < 2 ^ 32

/-- No turn of a call adds past the `u32`, and none takes off more than is there. -/
structure NoDeficitFault (s : DrrScheduler) (budget : Nat) (order : HashOrder) : Prop where
  adds : ∀ id, (s.schedule budget order).2 ≠ .error (.deficitOverflow id)
  subs : ∀ left k b id rest e, Turns ⟨s, left, []⟩ k b → b.sched.bulkOrder = id :: rest → b.sched.streams id = some e →
    turnSend b.budget e ≤ e.deficit + e.quantum

/-- While budget is left, a deficit has grown by at most the difference of quantum and
    backlog for each whole backlog that was allocated. -/
def Grown (s : DrrScheduler) (b : Bulk) : Prop :=
  ∀ id e, s.streams id = some e → ∃ d, b.sched.streams id = some { e with deficit := d } ∧
    (0 < b.budget → d ≤ e.deficit + allocOf b.allocs id / e.backlog * (e.quantum - e.backlog))

theorem grown_turn {s : DrrScheduler} {b c : Bulk} {sent : Bool} (h : Grown s b) (hb : 0 < b.budget)
    (ht : turn b = .ok (sent, c)) : Grown s c := by
  intro j e hj
  obtain ⟨d, hd, hle⟩ := h j e hj
  rcases turn_cases ht with ⟨_, _, rfl⟩ | ⟨id, rest, e', _, he', _, ⟨_, hp, rfl⟩ | ⟨_, _, rfl⟩⟩
  · exact ⟨d, hd, hle⟩
  · by_cases hji : j = id
    · subst hji
      cases hd.symm.trans he'
      refine ⟨d + e.quantum - turnSend b.budget { e with deficit := d },
        by simp only [afterTurn, Function.update_self], fun hpos => ?_⟩
      simp only [allocOf_addAlloc, if_pos] at hpos ⊢
      have hsend : turnSend b.budget { e with deficit := d } = min (d + e.quantum) e.backlog := by
        unfold turnSend at hpos ⊢
        simp only at hpos ⊢
        omega
      rw [hsend] at hp hpos ⊢
      have hbase := hle hb
      by_cases hclip : d + e.quantum ≤ e.backlog
      · -- All of the deficit was sent.
        omega
      · have hwhole : min (d + e.quantum) e.backlog = e.backlog := by omega
        rw [hwhole] at hp ⊢
        rw [Nat.add_div_right _ hp, Nat.succ_mul]
        omega
    · refine ⟨d, by simp only [afterTurn, Function.update_of_ne hji]; exact hd, fun hpos => ?_⟩
      simp only [allocOf_addAlloc, if_neg hji, Nat.add_zero]
      exact hle hb
  · by_cases hji : j = id
    · subst hji
      cases hd.symm.trans he'
      exact ⟨0, by simp only [afterTurn, Function.update_self], fun _ => Nat.zero_le _⟩
    · exact ⟨d, by simp only [afterTurn, Function.update_of_ne hji]; exact hd, hle⟩

theorem Turns.grown {s : DrrScheduler} {left k : Nat} {b : Bulk} (h : Turns ⟨s, left, []⟩ k b) : Grown s b :=
  h.invariant (P := Grown s) (fun hb ht hg => grown_turn hg hb ht) fun _ e he =>
    ⟨e.deficit, he, fun _ => Nat.le_add_right _ _⟩

/-- So the next addition stays below the peak. -/
theorem turn_fits {s : DrrScheduler} {left k : Nat} {b : Bulk} (h : Turns ⟨s, left, []⟩ k b) (hb : 0 < b.budget)
    (hroom : ∀ id ∈ s.bulkOrder, ∀ e, s.streams id = some e → e.peak left < 2 ^ 32) (id : Uuid) :
    turn b ≠ .error (.deficitOverflow id) := by
  intro hfail
  unfold turn at hfail
  split at hfail
  · cases hfail
  · rename_i j rest ho
    split at hfail
    · cases hfail
    · rename_i e' he'
      split at hfail
      · rename_i hover
        have hin : j ∈ s.bulkOrder := h.shape.bulk.mem_iff.mp (by simp [ho])
        obtain ⟨e, he⟩ := Option.isSome_iff_exists.mp ((h.shape.isSome j).symm.trans (by simp [he']))
        obtain ⟨d, hd, hle⟩ := h.grown j e he
        cases hd.symm.trans he'
        -- What has been allocated left budget over, so it is less than all of it.
        have halloc : allocOf b.allocs j ≤ left - 1 := by
          have hsum := h.sum
          have hone := allocOf_le_allocSum b.allocs j
          simp only [allocSum_nil, Nat.zero_add] at hsum
          omega
        have hmul : allocOf b.allocs j / e.backlog * (e.quantum - e.backlog) ≤
            (left - 1) / e.backlog * (e.quantum - e.backlog) :=
          Nat.mul_le_mul_right _ (Nat.div_le_div_right halloc)
        have hpeak := hroom j hin e he
        have hgrown := hle hb
        unfold StreamEntry.peak at hpeak
        simp only at hover
        omega
      · split at hfail
        · cases hfail
        · cases hfail

theorem mandatoryRound_fits {s : DrrScheduler} {left : Nat}
    (hroom : ∀ id ∈ s.bulkOrder, ∀ e, s.streams id = some e → e.peak left < 2 ^ 32)
    (n : Nat) {k : Nat} {b : Bulk} (h : Turns ⟨s, left, []⟩ k b) (id : Uuid) :
    (mandatoryRound n b).2 ≠ .error (.deficitOverflow id) := by
  induction n generalizing b k with
  | zero => simp [mandatoryRound]
  | succ n ih =>
    simp only [mandatoryRound]
    split
    · simp
    · rename_i hb
      split
      · rename_i e hfail
        intro he
        simp only [Except.error.injEq] at he
        subst he
        exact turn_fits h (by omega) hroom id hfail
      · rename_i ht
        exact ih (.step h (by omega) ht)

theorem extraTurns_fits {s : DrrScheduler} {left : Nat}
    (hroom : ∀ id ∈ s.bulkOrder, ∀ e, s.streams id = some e → e.peak left < 2 ^ 32)
    (n idle : Nat) {k : Nat} {b : Bulk} (h : Turns ⟨s, left, []⟩ k b) (id : Uuid) :
    (extraTurns n idle b).2 ≠ .error (.deficitOverflow id) := by
  fun_induction extraTurns n idle b generalizing k with
  | case1 _ _ hg e hfail =>
    intro he
    simp only [Except.error.injEq] at he
    subst he
    exact turn_fits h hg.1 hroom id hfail
  | case2 _ _ hg _ ht ih => exact ih (.step h hg.1 ht)
  | case3 _ _ hg _ ht ih => exact ih (.step h hg.1 ht)
  | case4 => simp

/-- The strict phase fails only on an id without an entry. -/
theorem strictPhase_errs {streams : Uuid → Option StreamEntry} {ids : List Uuid} {budget : Nat} {acc : List (Uuid × Nat)}
    {e : SchedError} (h : strictPhase streams ids budget acc = .error e) : ∃ id, e = .streamNotFound id := by
  induction ids generalizing budget acc with
  | nil => cases h
  | cons id ids ih =>
    simp only [strictPhase] at h
    split at h
    · cases h
    · split at h
      · simp only [Except.error.injEq] at h
        exact ⟨id, h.symm⟩
      · split at h
        · exact ih h
        · exact ih h

/-- The strict phase leaves no more than the strict needs do, whatever is queued. -/
theorem strictPhase_left {streams : Uuid → Option StreamEntry} {ids : List Uuid} {budget left : Nat}
    {acc result : List (Uuid × Nat)} (h : strictPhase streams ids budget acc = .ok (left, result)) :
    left ≤ budget - strictNeeds streams ids := by
  induction ids generalizing budget acc with
  | nil =>
    simp only [strictPhase, Except.ok.injEq, Prod.mk.injEq] at h
    simp [h.1]
  | cons id ids ih =>
    simp only [strictPhase] at h
    split at h
    · simp only [Except.ok.injEq, Prod.mk.injEq] at h
      omega
    · split at h
      · cases h
      · rename_i e he
        have hneed : strictNeed streams id = min e.backlog e.quantum := by simp [strictNeed, he]
        rw [strictNeeds_cons, hneed]
        split at h
        · have := ih h
          omega
        · have := ih h
          omega

/-- With room for its deficits, a call has no fault. -/
theorem DeficitsHaveRoom.noFault {s : DrrScheduler} {budget : Nat} (h : s.DeficitsHaveRoom budget) (order : HashOrder) :
    s.NoDeficitFault budget order := by
  constructor
  · intro id
    unfold schedule
    cases hs : strictPhase s.streams s.c2iQueue budget [] with
    | error e =>
      have hnever := strictPhase_errs hs
      simp only
      intro he
      simp only [Except.error.injEq] at he
      subst he
      obtain ⟨j, hj⟩ := hnever
      cases hj
    | ok r =>
      obtain ⟨left, result⟩ := r
      have hroom : ∀ id ∈ s.bulkOrder, ∀ e, s.streams id = some e → e.peak left < 2 ^ 32 :=
        fun j hj e he => Nat.lt_of_le_of_lt (e.peak_mono (strictPhase_left hs)) (h j hj e he)
      have hstart : Turns ⟨s, left, []⟩ 0 ⟨s, left, []⟩ := .refl
      simp only
      split
      · simp
      · have hf := mandatoryRound_fits hroom s.bulkOrder.length hstart id
        split
        · rename_i hm
          rw [hm] at hf
          simpa using hf
        · rename_i b _ hm
          obtain ⟨k, hk, -⟩ := mandatoryRound_turns hm
          have hx := extraTurns_fits hroom s.bulkOrder.length 0 hk id
          split
          · rename_i he
            rw [he] at hx
            simpa using hx
          · simp
  · intro left k b id rest e _ _ _
    unfold turnSend
    omega

/-! ## A stream alone -/

theorem turn_overflows {b : Bulk} {id : Uuid} {rest : List Uuid} {e : StreamEntry} (ho : b.sched.bulkOrder = id :: rest)
    (he : b.sched.streams id = some e) (h : 2 ^ 32 ≤ e.deficit + e.quantum) : turn b = .error (.deficitOverflow id) := by
  unfold turn
  rw [ho]
  simp only [he]
  rw [if_pos h]

/-- With less backlog than quantum, a turn sends the backlog and keeps the rest. -/
theorem lone_turn {b : Bulk} {id : Uuid} {e : StreamEntry} (ho : b.sched.bulkOrder = [id])
    (he : b.sched.streams id = some e) (hfit : e.deficit + e.quantum < 2 ^ 32) (hb : 0 < e.backlog)
    (hq : e.backlog < e.quantum) (hleft : e.backlog ≤ b.budget) :
    ∃ c, turn b = .ok (true, c) ∧ c.sched.bulkOrder = [id] ∧ c.budget = b.budget - e.backlog ∧
      c.sched.streams id = some { e with deficit := e.deficit + e.quantum - e.backlog } := by
  have hsend : turnSend b.budget e = e.backlog := by
    unfold turnSend
    omega
  refine ⟨⟨b.sched.afterTurn id [] e (e.deficit + e.quantum - e.backlog), b.budget - e.backlog,
    addAlloc b.allocs id e.backlog⟩, ?_, rfl, rfl, by simp only [afterTurn, Function.update_self]⟩
  unfold turn
  rw [ho]
  simp only [he]
  rw [if_neg (by omega), hsend, if_pos hb]

/-- `m` more turns, paid by `m` backlogs, take the deficit past the `u32`. -/
theorem lone_extraTurns {id : Uuid} {m : Nat} {b : Bulk} {e : StreamEntry} (ho : b.sched.bulkOrder = [id])
    (he : b.sched.streams id = some e) (hb : 0 < e.backlog) (hq : e.backlog < e.quantum)
    (hm : 2 ^ 32 ≤ e.deficit + e.quantum + m * (e.quantum - e.backlog)) (hleft : m * e.backlog < b.budget) :
    (extraTurns 1 0 b).2 = .error (.deficitOverflow id) := by
  have fails : ∀ {b : Bulk} {e : StreamEntry}, b.sched.bulkOrder = [id] → b.sched.streams id = some e → 0 < b.budget →
      2 ^ 32 ≤ e.deficit + e.quantum → (extraTurns 1 0 b).2 = .error (.deficitOverflow id) := by
    intro b e ho he hpos hover
    have ht := turn_overflows ho he hover
    rw [extraTurns, if_pos ⟨hpos, Nat.one_pos⟩]
    split
    · rename_i hx
      rw [ht] at hx
      cases hx
      rfl
    · rename_i hx
      rw [ht] at hx
      cases hx
    · rename_i hx
      rw [ht] at hx
      cases hx
  induction m generalizing b e with
  | zero => exact fails ho he (by omega) (by omega)
  | succ m ih =>
    rw [Nat.succ_mul] at hm hleft
    by_cases hover : 2 ^ 32 ≤ e.deficit + e.quantum
    · exact fails ho he (by omega) hover
    · obtain ⟨c, ht, hoc, hbc, hec⟩ := lone_turn ho he (by omega) hb hq (by omega)
      have hstep : extraTurns 1 0 b = extraTurns 1 0 c := by
        rw [extraTurns, if_pos ⟨by omega, Nat.one_pos⟩]
        split
        · rename_i hx; rw [ht] at hx; cases hx
        · rename_i hx; rw [ht] at hx; cases hx; rfl
        · rename_i hx; rw [ht] at hx; cases hx
      rw [hstep]
      exact ih hoc hec hb hq (by simp only; omega) (by simp only; omega)

/-- For a stream alone the room is exactly what a call needs. -/
theorem lone_stream_iff {s : DrrScheduler} {id : Uuid} {e : StreamEntry} {budget : Nat} (hc : s.c2iQueue = [])
    (ho : s.bulkOrder = [id]) (he : s.streams id = some e) (hb : 0 < budget) (order : HashOrder) :
    s.NoDeficitFault budget order ↔ s.DeficitsHaveRoom budget := by
  refine ⟨fun h => ?_, fun h => h.noFault order⟩
  have hbudget : s.bulkBudget budget = budget := by simp [bulkBudget, hc]
  intro j hj e' he'
  rw [ho, List.mem_singleton] at hj
  subst hj
  cases he.symm.trans he'
  rw [hbudget]
  by_contra hpeak
  refine h.adds j ?_
  unfold schedule
  rw [hc]
  simp only [strictPhase, ho, List.length_singleton]
  rw [if_neg (by omega)]
  unfold StreamEntry.peak at hpeak
  by_cases hover : 2 ^ 32 ≤ e.deficit + e.quantum
  · have ht := turn_overflows (b := ⟨s, budget, []⟩) ho he hover
    simp only [mandatoryRound, if_neg (Nat.ne_of_gt hb), ht]
  · -- It is the extra turns that pass the `u32`, so there is a backlog below the quantum.
    have hgrow : 0 < (budget - 1) / e.backlog * (e.quantum - e.backlog) := by omega
    have hq : e.backlog < e.quantum := by
      have := Nat.pos_of_mul_pos_left hgrow
      omega
    have hdiv : 0 < (budget - 1) / e.backlog := Nat.pos_of_mul_pos_right hgrow
    have hback : 0 < e.backlog := Nat.pos_of_ne_zero fun h0 => by simp [h0] at hdiv
    obtain ⟨m, hm⟩ : ∃ m, (budget - 1) / e.backlog = m + 1 := ⟨(budget - 1) / e.backlog - 1, by omega⟩
    have hpaid : (m + 1) * e.backlog ≤ budget - 1 := hm ▸ Nat.div_mul_le_self _ _
    rw [hm, Nat.succ_mul] at hpeak
    rw [Nat.succ_mul] at hpaid
    obtain ⟨c, ht, hoc, hbc, hec⟩ := lone_turn (b := ⟨s, budget, []⟩) ho he (by omega) hback hq (by simp only; omega)
    have hx := lone_extraTurns (m := m) hoc hec hback hq (by simp only; omega) (by simp only at hbc ⊢; omega)
    simp only [mandatoryRound, if_neg (Nat.ne_of_gt hb), ht]
    rcases hr : extraTurns 1 0 c with ⟨d, r⟩
    rw [hr] at hx
    simp only at hx
    subst hx
    rfl

end DrrScheduler

namespace Traced

/-! ## Whole runs -/

/-- In every run whose calls of `schedule` find room for the deficits, no call adds past
    the `u32` or takes off more than is there. -/
theorem deficits_stay_in_u32 (ops : List Op)
    (h : ∀ pre budget order, pre ++ [.schedule budget order] <+: ops → (run pre).sched.DeficitsHaveRoom budget) :
    ∀ pre budget order, pre ++ [.schedule budget order] <+: ops → (run pre).sched.NoDeficitFault budget order := by
  intro pre budget order hp
  exact (h pre budget order hp).noFault order

/-- One bulk stream with `n` bytes. -/
def oneBulk (n : Nat) : List Op := [.register ⟨1⟩ .bulkPriorityMin, .setBacklog ⟨1⟩ n]

/-- Two calls of 5000 bytes, the second with the deficit the first one cut off. -/
theorem two_calls_stay_in_u32 :
    (run (oneBulk 10000 ++ [.schedule 5000 .inserted])).sched.NoDeficitFault 5000 .inserted := by
  refine deficits_stay_in_u32 (oneBulk 10000 ++ [.schedule 5000 .inserted] ++ [.schedule 5000 .inserted])
    (fun pre budget order hp => ?_) _ _ _ (List.prefix_refl _)
  obtain ⟨post, hpost⟩ := hp
  match pre, hpost with
  | [], h => simp [oneBulk] at h
  | [_], h => simp [oneBulk] at h
  | [_, _], h =>
    simp only [oneBulk, List.cons_append, List.nil_append, List.cons.injEq, Op.schedule.injEq] at h
    obtain ⟨rfl, rfl, ⟨rfl, rfl⟩, -⟩ := h
    intro id hid e he
    have ho : (run (oneBulk 10000)).sched.bulkOrder = [⟨1⟩] := by decide +kernel
    obtain rfl : id = ⟨1⟩ := List.mem_singleton.mp (ho ▸ hid)
    have hone : (run (oneBulk 10000)).sched.streams ⟨1⟩ = some ⟨.bulkPriorityMin, 0, 4096, 10000⟩ := by decide +kernel
    cases hone.symm.trans he
    decide +kernel
  | [_, _, _], h =>
    simp only [oneBulk, List.cons_append, List.nil_append, List.cons.injEq, Op.schedule.injEq] at h
    obtain ⟨rfl, rfl, rfl, ⟨rfl, rfl⟩, -⟩ := h
    intro id hid e he
    have ho : (run (oneBulk 10000 ++ [.schedule 5000 .inserted])).sched.bulkOrder = [⟨1⟩] := by decide +kernel
    obtain rfl : id = ⟨1⟩ := List.mem_singleton.mp (ho ▸ hid)
    have hone : (run (oneBulk 10000 ++ [.schedule 5000 .inserted])).sched.streams ⟨1⟩ =
      some ⟨.bulkPriorityMin, 3192, 4096, 10000⟩ := by decide +kernel
    cases hone.symm.trans he
    decide +kernel
  | _ :: _ :: _ :: _ :: _, h => simp [oneBulk] at h

/-- One byte of backlog against a budget of two million: a turn for each byte of it. -/
theorem one_byte_overflows :
    ∃ id, ((run (oneBulk 1)).sched.schedule 2000000 .inserted).2 = .error (.deficitOverflow id) := by
  by_contra hnone
  have hsafe : (run (oneBulk 1)).sched.NoDeficitFault 2000000 .inserted := by
    refine ⟨fun id h => hnone ⟨id, h⟩, fun left k b id rest e _ _ _ => ?_⟩
    unfold DrrScheduler.turnSend
    omega
  have hone : (run (oneBulk 1)).sched.streams ⟨1⟩ = some ⟨.bulkPriorityMin, 0, 4096, 1⟩ := by decide +kernel
  have hroom := (DrrScheduler.lone_stream_iff (by decide +kernel) (by decide +kernel) hone (by decide) .inserted).mp hsafe
  have := hroom ⟨1⟩ (by decide +kernel) _ hone
  revert this
  decide +kernel

end Traced

end Quelay.Domain
