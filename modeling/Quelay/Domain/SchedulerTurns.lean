/-
  Quelay.Domain.SchedulerTurns — one call of `schedule`, taken apart.

  What the strict phase gives each stream depends on the budget and on the streams
  before it only through `strictNeed`, what backlog and quantum let a strict stream
  have (`strictPhase_eq`). The bulk phase is some number of turns, each with budget
  left (`Turns`); it ends with the budget spent, or after as many idle turns in a row
  as there are streams (`bulk_turns`). Backlogs and quanta do not change within a call.
-/

import Quelay.Domain.SchedulerBudget
import Quelay.Domain.SchedulerTables

namespace Quelay.Domain

namespace DrrScheduler

/-! ## The strict phase -/

/-- What backlog and quantum let a strict stream have in one call. -/
def strictNeed (streams : Uuid → Option StreamEntry) (id : Uuid) : Nat :=
  match streams id with
  | none => 0
  | some e => min e.backlog e.quantum

def strictNeeds (streams : Uuid → Option StreamEntry) (ids : List Uuid) : Nat := (ids.map (strictNeed streams)).sum

@[simp] theorem strictNeeds_nil (streams : Uuid → Option StreamEntry) : strictNeeds streams [] = 0 := rfl

@[simp] theorem strictNeeds_cons (streams : Uuid → Option StreamEntry) (id : Uuid) (ids : List Uuid) :
    strictNeeds streams (id :: ids) = strictNeed streams id + strictNeeds streams ids := by
  simp [strictNeeds]

@[simp] theorem strictNeeds_append (streams : Uuid → Option StreamEntry) (l l' : List Uuid) :
    strictNeeds streams (l ++ l') = strictNeeds streams l + strictNeeds streams l' := by
  simp [strictNeeds]

/-- The allocations of the strict phase, in the order of the queue. -/
def strictGrants (streams : Uuid → Option StreamEntry) : List Uuid → Nat → List (Uuid × Nat)
  | [], _ => []
  | id :: ids, budget =>
    if 0 < min budget (strictNeed streams id) then
      (id, min budget (strictNeed streams id)) :: strictGrants streams ids (budget - strictNeed streams id)
    else strictGrants streams ids (budget - strictNeed streams id)

theorem strictGrants_zero (streams : Uuid → Option StreamEntry) (ids : List Uuid) : strictGrants streams ids 0 = [] := by
  induction ids with
  | nil => rfl
  | cons id ids ih => simp [strictGrants, ih]

/-- Every queued stream in turn takes its need, as far as the budget goes. -/
theorem strictPhase_eq {streams : Uuid → Option StreamEntry} {ids : List Uuid} (hk : ∀ id ∈ ids, (streams id).isSome)
    (budget : Nat) (acc : List (Uuid × Nat)) :
    strictPhase streams ids budget acc = .ok (budget - strictNeeds streams ids, acc ++ strictGrants streams ids budget) := by
  induction ids generalizing budget acc with
  | nil => simp [strictPhase, strictGrants]
  | cons id ids ih =>
    have hrest := ih fun i hi => hk i (List.mem_cons_of_mem _ hi)
    obtain ⟨e, he⟩ := Option.isSome_iff_exists.mp (hk id List.mem_cons_self)
    have hneed : strictNeed streams id = min e.backlog e.quantum := by simp [strictNeed, he]
    have hsend : min (min budget e.backlog) e.quantum = min budget (strictNeed streams id) := by
      rw [hneed]
      omega
    simp only [strictPhase, he, hsend, strictGrants, strictNeeds_cons]
    by_cases h0 : budget = 0
    · subst h0
      simp [strictGrants_zero]
    · rw [if_neg h0]
      by_cases hp : 0 < min budget (strictNeed streams id)
      · rw [if_pos hp, if_pos hp, hrest]
        have h1 : budget - min budget (strictNeed streams id) = budget - strictNeed streams id := by omega
        have h2 : budget - strictNeed streams id - strictNeeds streams ids =
            budget - (strictNeed streams id + strictNeeds streams ids) := by omega
        rw [h1, h2]
        simp
      · rw [if_neg hp, if_neg hp, hrest]
        have h1 : strictNeed streams id = 0 := by omega
        simp [h1]

theorem strictGrants_mem {streams : Uuid → Option StreamEntry} {ids : List Uuid} {budget : Nat} {x : Uuid × Nat}
    (h : x ∈ strictGrants streams ids budget) : x.1 ∈ ids := by
  induction ids generalizing budget with
  | nil => cases h
  | cons id ids ih =>
    simp only [strictGrants] at h
    split at h
    · rcases List.mem_cons.mp h with rfl | h
      · exact List.mem_cons_self
      · exact List.mem_cons_of_mem _ (ih h)
    · exact List.mem_cons_of_mem _ (ih h)

/-- A stream's bytes are its need, cut by what the streams before it left. -/
theorem allocOf_strictGrants {streams : Uuid → Option StreamEntry} {pre post : List Uuid} {id : Uuid}
    (hn : (pre ++ id :: post).Nodup) (budget : Nat) :
    allocOf (strictGrants streams (pre ++ id :: post) budget) id =
      min (budget - strictNeeds streams pre) (strictNeed streams id) := by
  induction pre generalizing budget with
  | nil =>
    have hout : ∀ b, allocOf (strictGrants streams post b) id = 0 := by
      intro b
      apply allocOf_eq_zero
      intro x hx hid
      exact (List.nodup_cons.mp hn).1 (hid ▸ strictGrants_mem hx)
    simp only [List.nil_append, strictGrants, strictNeeds_nil, Nat.sub_zero]
    split
    · rw [allocOf_cons, if_pos rfl, hout]
      omega
    · rw [hout]
      omega
  | cons a pre ih =>
    have hne : a ≠ id := by
      intro e
      subst e
      exact (List.nodup_cons.mp hn).1 (by simp)
    have hrest := ih (List.nodup_cons.mp hn).2 (budget - strictNeed streams a)
    have hb : budget - strictNeed streams a - strictNeeds streams pre =
        budget - strictNeeds streams (a :: pre) := by
      rw [strictNeeds_cons]
      omega
    rw [hb] at hrest
    simp only [List.cons_append, strictGrants]
    split
    · rw [allocOf_cons, if_neg hne, hrest]
      omega
    · exact hrest

/-! ## Turns -/

/-- `k` turns in a row, each with budget left. -/
inductive Turns (b : Bulk) : Nat → Bulk → Prop
  | refl : Turns b 0 b
  | step {k : Nat} {c d : Bulk} {sent : Bool} : Turns b k c → 0 < c.budget → turn c = .ok (sent, d) → Turns b (k + 1) d

theorem Turns.single {b c : Bulk} {sent : Bool} (hb : 0 < b.budget) (h : turn b = .ok (sent, c)) : Turns b 1 c :=
  .step .refl hb h

theorem Turns.trans {j k : Nat} {b c d : Bulk} (h : Turns b j c) (h' : Turns c k d) : Turns b (j + k) d := by
  induction h' with
  | refl => exact h
  | step _ hb ht ih => exact .step ih hb ht

/-- What every turn preserves, any number of turns preserves. -/
theorem Turns.invariant {P : Bulk → Prop}
    (hstep : ∀ {b c : Bulk} {sent : Bool}, 0 < b.budget → turn b = .ok (sent, c) → P b → P c)
    {k : Nat} {b c : Bulk} (h : Turns b k c) (hb : P b) : P c := by
  induction h with
  | refl => exact hb
  | step _ hpos ht ih => exact hstep hpos ht ih

theorem Turns.shape {k : Nat} {b c : Bulk} (h : Turns b k c) : SameShape b.sched c.sched :=
  h.invariant (P := fun x => SameShape b.sched x.sched) (fun _ ht hx => hx.trans (turn_shape ht)) (.refl _)

theorem Turns.sum {k : Nat} {b c : Bulk} (h : Turns b k c) :
    allocSum c.allocs + c.budget = allocSum b.allocs + b.budget :=
  h.invariant (P := fun x => allocSum x.allocs + x.budget = allocSum b.allocs + b.budget)
    (fun _ ht hx => (turn_sum ht).trans hx) rfl

theorem Turns.budget_le {k : Nat} {b c : Bulk} (h : Turns b k c) : c.budget ≤ b.budget := by
  refine h.invariant (P := fun x => x.budget ≤ b.budget) (fun {x y sent} _ ht hx => ?_) (Nat.le_refl _)
  have hb := turn_budget ht
  cases sent with
  | true => exact Nat.le_trans (Nat.le_of_lt (hb.1 rfl)) hx
  | false => exact hb.2 rfl ▸ hx

theorem mandatoryRound_turns {n : Nat} {b c : Bulk} (h : mandatoryRound n b = (c, .ok ())) :
    ∃ k, Turns b k c ∧ (0 < c.budget → k = n) := by
  induction n generalizing b with
  | zero =>
    simp only [mandatoryRound, Prod.mk.injEq, and_true] at h
    exact ⟨0, h ▸ .refl, fun _ => rfl⟩
  | succ n ih =>
    simp only [mandatoryRound] at h
    split at h
    · rename_i h0
      simp only [Prod.mk.injEq, and_true] at h
      subst h
      exact ⟨0, .refl, fun hp => by omega⟩
    · rename_i h0
      split at h
      · cases h
      · rename_i d ht
        obtain ⟨k, hk, hfull⟩ := ih h
        refine ⟨1 + k, (Turns.single (by omega) ht).trans hk, fun hp => ?_⟩
        rw [hfull hp]
        omega

/-- A stream that cannot send, whatever budget it is offered. -/
def Spent (s : DrrScheduler) (id : Uuid) : Prop := ∀ e, s.streams id = some e → e.backlog = 0 ∨ e.quantum = 0

/-! ## What a call leaves as it was -/

/-- The part of an entry that a call does not change. -/
def load (s : DrrScheduler) (id : Uuid) : Option (Priority × Nat × Nat) :=
  (s.streams id).map fun e => (e.priority, e.quantum, e.backlog)

theorem load_some {s : DrrScheduler} {id : Uuid} {e : StreamEntry} (h : s.streams id = some e) :
    s.load id = some (e.priority, e.quantum, e.backlog) := by
  simp [load, h]

theorem load_afterTurn {s : DrrScheduler} {id : Uuid} {e : StreamEntry} (he : s.streams id = some e)
    (rest : List Uuid) (d : Nat) (j : Uuid) : (s.afterTurn id rest e d).load j = s.load j := by
  by_cases h : j = id
  · subst h
    simp [load, afterTurn, he]
  · simp [load, afterTurn, h]

theorem turn_load {b c : Bulk} {sent : Bool} (h : turn b = .ok (sent, c)) (j : Uuid) : c.sched.load j = b.sched.load j := by
  rcases turn_cases h with ⟨_, _, rfl⟩ | ⟨id, rest, e, _, he, _, ⟨_, _, rfl⟩ | ⟨_, _, rfl⟩⟩
  · rfl
  · exact load_afterTurn he _ _ j
  · exact load_afterTurn he _ _ j

theorem Turns.load {k : Nat} {b c : Bulk} (h : Turns b k c) (j : Uuid) : c.sched.load j = b.sched.load j :=
  h.invariant (P := fun x => x.sched.load j = b.sched.load j) (fun _ ht hx => (turn_load ht j).trans hx) rfl

theorem Spent.of_load {s t : DrrScheduler} {id : Uuid} (h : s.Spent id) (hl : t.load id = s.load id) : t.Spent id := by
  intro e he
  rw [load_some he] at hl
  cases hs : s.streams id with
  | none => simp [DrrScheduler.load, hs] at hl
  | some e' =>
    rw [load_some hs] at hl
    simp only [Option.some.injEq, Prod.mk.injEq] at hl
    rw [hl.2.1, hl.2.2]
    exact h e' hs

/-- A turn moves the front of the deque to its back. -/
theorem turn_rotates {b c : Bulk} {sent : Bool} {id : Uuid} {rest : List Uuid} (h : turn b = .ok (sent, c))
    (ho : b.sched.bulkOrder = id :: rest) : c.sched.bulkOrder = rest ++ [id] := by
  rcases turn_cases h with ⟨hnil, _, _⟩ | ⟨j, r, e, ho', _, _, ⟨_, _, rfl⟩ | ⟨_, _, rfl⟩⟩
  · rw [ho] at hnil
    cases hnil
  · rw [ho] at ho'
    cases ho'
    rfl
  · rw [ho] at ho'
    cases ho'
    rfl

/-- An idle turn with budget left shows its stream spent. -/
theorem idle_turn_spent {b c : Bulk} {id : Uuid} {rest : List Uuid} (hb : 0 < b.budget) (h : turn b = .ok (false, c))
    (ho : b.sched.bulkOrder = id :: rest) : c.sched.Spent id := by
  refine Spent.of_load (fun e he => ?_) (turn_load h id)
  rcases turn_cases h with ⟨hnil, _, _⟩ | ⟨j, r, e', ho', he', _, ⟨hs, _⟩ | ⟨_, hz, _⟩⟩
  · rw [ho] at hnil
    cases hnil
  · cases hs
  · rw [ho] at ho'
    cases ho'
    cases he.symm.trans he'
    unfold turnSend at hz
    omega

/-- Phase 2: if it ends with budget left, the whole deque has been found spent, in at
    least as many turns as were left to count. -/
theorem extraTurns_turns {n idle : Nat} {b c : Bulk} (h : extraTurns n idle b = (c, .ok ()))
    (hn : b.sched.bulkOrder.length = n)
    (hidle : ∃ front back, b.sched.bulkOrder = front ++ back ∧ back.length = idle ∧ ∀ id ∈ back, b.sched.Spent id) :
    ∃ k, Turns b k c ∧ (0 < c.budget → n ≤ k + idle ∧ ∀ id ∈ c.sched.bulkOrder, c.sched.Spent id) := by
  fun_induction extraTurns n idle b with
  | case1 => cases h
  | case2 idle b hg b' ht ih =>
    have hlen : b'.sched.bulkOrder.length = n := (turn_shape ht).bulk.length_eq.trans hn
    obtain ⟨k, hk, hend⟩ := ih h hlen ⟨b'.sched.bulkOrder, [], by simp, rfl, fun _ hm => by cases hm⟩
    refine ⟨1 + k, (Turns.single hg.1 ht).trans hk, fun hp => ⟨?_, (hend hp).2⟩⟩
    have := (hend hp).1
    omega
  | case3 idle b hg b' ht ih =>
    have hlen : b'.sched.bulkOrder.length = n := (turn_shape ht).bulk.length_eq.trans hn
    obtain ⟨front, back, ho, hback, hspent⟩ := hidle
    -- The deque is longer than its idle back, so its front takes the turn.
    cases front with
    | nil =>
      have := congrArg List.length ho
      simp only [List.nil_append] at this
      omega
    | cons id front =>
      have hrot := turn_rotates ht ho
      have hmore : ∀ j ∈ back ++ [id], b'.sched.Spent j := by
        intro j hj
        rcases List.mem_append.mp hj with hj | hj
        · exact (hspent j hj).of_load (turn_load ht j)
        · rw [List.mem_singleton.mp hj]
          exact idle_turn_spent hg.1 ht ho
      obtain ⟨k, hk, hend⟩ := ih h hlen ⟨front, back ++ [id], by simp [hrot], by simp [hback], hmore⟩
      refine ⟨1 + k, (Turns.single hg.1 ht).trans hk, fun hp => ⟨?_, (hend hp).2⟩⟩
      have := (hend hp).1
      omega
  | case4 idle b hg =>
    simp only [Prod.mk.injEq, and_true] at h
    subst h
    obtain ⟨front, back, ho, hback, hspent⟩ := hidle
    refine ⟨0, .refl, fun hp => ?_⟩
    have hle : n ≤ idle := by omega
    have hfront : front = [] := by
      have := congrArg List.length ho
      rw [List.length_append] at this
      exact List.length_eq_zero_iff.mp (by omega)
    subst hfront
    refine ⟨by omega, fun id hid => hspent id ?_⟩
    rw [ho] at hid
    simpa using hid

/-! ## The whole call -/

/-- What is left of the budget for the bulk streams. -/
def bulkBudget (s : DrrScheduler) (budget : Nat) : Nat := budget - strictNeeds s.streams s.c2iQueue

/-- A call that succeeds, with every queued id registered: the strict streams' grants,
    and then some number of turns of the bulk streams. If the turns left budget over,
    every bulk stream had at least two of them and is spent. -/
theorem schedule_turns {s : DrrScheduler} {budget : Nat} {order : HashOrder} {allocs : List (Uuid × Nat)}
    (hk : s.Known s.c2iQueue) (h : (s.schedule budget order).2 = .ok allocs) :
    ∃ k b, Turns ⟨s, s.bulkBudget budget, []⟩ k b ∧
      allocs = strictGrants s.streams s.c2iQueue budget ++ order.list b.allocs ∧
      (0 < b.budget → 2 * s.bulkOrder.length ≤ k ∧ ∀ id ∈ s.bulkOrder, s.Spent id) := by
  unfold schedule at h
  rw [strictPhase_eq hk] at h
  simp only [List.nil_append] at h
  have hnil : order.list [] = [] := List.Perm.eq_nil (order.perm [])
  split at h
  · rename_i h0
    simp only [Except.ok.injEq] at h
    subst h
    refine ⟨0, _, .refl, by simp [hnil], fun hp => ?_⟩
    simp only [bulkBudget] at hp
    have hempty : s.bulkOrder = [] := List.length_eq_zero_iff.mp (by omega)
    simp [hempty]
  · split at h
    · cases h
    · rename_i b1 _ hm
      obtain ⟨k1, ht1, hfull1⟩ := mandatoryRound_turns hm
      have hperm : b1.sched.bulkOrder.Perm s.bulkOrder := by
        have := (mandatoryRound_shape s.bulkOrder.length ⟨s, s.bulkBudget budget, []⟩).bulk
        unfold bulkBudget at this
        rwa [hm] at this
      split at h
      · cases h
      · rename_i b2 _ hx
        obtain ⟨k2, ht2, hfull2⟩ := extraTurns_turns hx hperm.length_eq
          ⟨b1.sched.bulkOrder, [], by simp, rfl, fun _ hm => by cases hm⟩
        simp only [Except.ok.injEq] at h
        have hall := ht1.trans ht2
        refine ⟨k1 + k2, b2, hall, h.symm, fun hp => ?_⟩
        obtain ⟨hlen, hspent⟩ := hfull2 hp
        have hp1 : 0 < b1.budget := Nat.lt_of_lt_of_le hp ht2.budget_le
        refine ⟨by have := hfull1 hp1; omega, fun id hid => ?_⟩
        have hmem : id ∈ b2.sched.bulkOrder := by
          have := (ht2.shape.bulk.trans hperm).mem_iff (a := id)
          exact this.mpr hid
        exact (hspent id hmem).of_load (hall.load id).symm

end DrrScheduler

end Quelay.Domain
