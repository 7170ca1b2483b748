/-
  Quelay.Domain.SchedulerStrict — how far strict streams come first.

  A strict stream gets at most its quantum in one call, whatever its backlog: the
  quantum of the bulk rounds is applied to the strict queue as well. What it leaves of
  the budget goes to the strict streams behind it and then to the bulk streams, while it
  still has bytes to send (`backlog_above_quantum_waits`). So a call serves strict
  streams first, in the sense the scheduler documents, exactly when no strict stream
  with more backlog than its quantum is followed by a stream that wants bytes and that
  the budget reaches (`strict_first_iff`).
-/

import Quelay.Domain.SchedulerWork

namespace Quelay.Domain

namespace DrrScheduler

open Traced

/-! ## What is meant by strict -/

/-- The stream has been allocated its whole backlog. -/
def Drained (s : DrrScheduler) (allocs : List (Uuid × Nat)) (id : Uuid) : Prop :=
  ∀ e, s.streams id = some e → allocOf allocs id = e.backlog

def HasClass (s : DrrScheduler) (strict : Bool) (id : Uuid) : Prop :=
  ∃ e, s.streams id = some e ∧ e.priority.isStrict = strict

structure StrictFirst (s : DrrScheduler) (allocs : List (Uuid × Nat)) : Prop where
  bulkLast : ∀ id, s.HasClass false id → 0 < allocOf allocs id → ∀ i, s.HasClass true i → s.Drained allocs i
  inOrder : ∀ id i, s.HasClass true id → 0 < allocOf allocs id → s.HasClass true i →
    queuedPriority s.streams id < queuedPriority s.streams i → s.Drained allocs i
  listed : ∃ strict bulk, allocs = strict ++ bulk ∧ (∀ x ∈ strict, s.HasClass true x.1) ∧ ∀ x ∈ bulk, s.HasClass false x.1

/-- A bulk stream that its next turn lets send. -/
def Wants (s : DrrScheduler) (id : Uuid) : Prop :=
  ∃ e, s.streams id = some e ∧ e.priority.isStrict = false ∧ 0 < e.backlog ∧ 0 < e.deficit + e.quantum

/-- Whoever comes after a strict stream with more backlog than its quantum wants
    nothing, or is not reached by the budget. -/
structure QuantaSuffice (s : DrrScheduler) (budget : Nat) : Prop where
  strict : ∀ i e, s.streams i = some e → e.priority.isStrict = true → e.quantum < e.backlog →
    ∀ pre id post, s.c2iQueue = pre ++ id :: post → queuedPriority s.streams id < e.priority →
      0 < strictNeed s.streams id → budget ≤ strictNeeds s.streams pre
  bulk : ∀ i e, s.streams i = some e → e.priority.isStrict = true → e.quantum < e.backlog →
    ∀ id, s.Wants id → budget ≤ strictNeeds s.streams s.c2iQueue

/-! ## Which bulk streams get bytes -/

theorem allocOf_pos {l : List (Uuid × Nat)} (h : 0 < allocSum l) : ∃ id, 0 < allocOf l id := by
  induction l with
  | nil => simp at h
  | cons x l ih =>
    rw [allocSum_cons] at h
    by_cases hx : 0 < x.2
    · refine ⟨x.1, ?_⟩
      rw [allocOf_cons, if_pos rfl]
      omega
    · obtain ⟨id, hid⟩ := ih (by omega)
      refine ⟨id, ?_⟩
      rw [allocOf_cons]
      omega

/-- A stream without backlog, or without deficit and quantum, is never allocated. -/
theorem Turns.unwanting {k : Nat} {s : DrrScheduler} {left : Nat} {b : Bulk} (h : Turns ⟨s, left, []⟩ k b) {id : Uuid}
    {e : StreamEntry} (he : s.streams id = some e) (hw : e.backlog = 0 ∨ e.deficit + e.quantum = 0) :
    allocOf b.allocs id = 0 := by
  have hboth : (∀ e, b.sched.streams id = some e → e.backlog = 0 ∨ e.deficit + e.quantum = 0) ∧
      allocOf b.allocs id = 0 := by
    refine h.invariant (P := fun x => (∀ e, x.sched.streams id = some e → e.backlog = 0 ∨ e.deficit + e.quantum = 0) ∧
      allocOf x.allocs id = 0) (fun {x y sent} _ ht hx => ?_) ⟨fun e' he' => ?_, rfl⟩
    · rcases turn_cases ht with ⟨_, _, rfl⟩ | ⟨j, rest, e', _, he', _, ⟨_, hp, rfl⟩ | ⟨_, hz, rfl⟩⟩
      · exact hx
      · by_cases hj : id = j
        · -- What it could send is zero, so this was not its turn.
          subst hj
          have := hx.1 e' he'
          unfold turnSend at hp
          omega
        · refine ⟨fun e'' he'' => hx.1 e'' ?_, ?_⟩
          · simpa [afterTurn, hj] using he''
          · simp only [allocOf_addAlloc, if_neg hj, Nat.add_zero]
            exact hx.2
      · refine ⟨fun e'' he'' => ?_, hx.2⟩
        by_cases hj : id = j
        · subst hj
          simp only [afterTurn, Function.update_self, Option.some.injEq] at he''
          subst he''
          have := hx.1 e' he'
          simp only
          omega
        · exact hx.1 e'' (by simpa [afterTurn, hj] using he'')
    · cases he.symm.trans he'
      exact hw
  exact hboth.2

/-- A stream that wants bytes is served by the time its turn has come, if none was
    served before it. -/
theorem Turns.wanting {k : Nat} {s : DrrScheduler} {left : Nat} {b : Bulk} (h : Turns ⟨s, left, []⟩ k b)
    {id : Uuid} (hid : id ∈ s.bulkOrder) (hw : s.Wants id) (hk : s.bulkOrder.length ≤ k) : 0 < allocSum b.allocs := by
  obtain ⟨pre, post, ho⟩ := List.append_of_mem hid
  obtain ⟨e, he, _, hback, hquant⟩ := hw
  -- Until something is allocated, the stream only moves up, keeping its entry.
  have hinv : 0 < allocSum b.allocs ∨ (b.sched.streams id = some e ∧
      ∃ ahead behind, b.sched.bulkOrder = ahead ++ id :: behind ∧ k + ahead.length = pre.length) := by
    clear hk
    induction h with
    | refl => exact .inr ⟨he, pre, post, ho, by simp⟩
    | @step k c d sent _ hb ht ih =>
      rcases ih with hpos | ⟨hec, ahead, behind, hoc, hcount⟩
      · left
        have hsum := turn_sum ht
        have hle := turn_budget ht
        cases sent with
        | true =>
          have := hle.1 rfl
          omega
        | false =>
          have := hle.2 rfl
          omega
      · rcases turn_cases ht with ⟨hnil, _, _⟩ | ⟨j, rest, e', ho', he', _, ⟨_, hp, rfl⟩ | ⟨_, hz, rfl⟩⟩
        · rw [hoc] at hnil
          simp at hnil
        · left
          simp only [allocSum_addAlloc]
          omega
        · right
          cases ahead with
          | nil =>
            rw [hoc] at ho'
            simp only [List.nil_append, List.cons.injEq] at ho'
            obtain ⟨rfl, rfl⟩ := ho'
            cases hec.symm.trans he'
            unfold turnSend at hz
            omega
          | cons a ahead =>
            rw [hoc] at ho'
            simp only [List.cons_append, List.cons.injEq] at ho'
            obtain ⟨rfl, rfl⟩ := ho'
            refine ⟨?_, ahead, behind ++ [a], by simp [afterTurn], ?_⟩
            · by_cases ha : id = a
              · -- It would have sent.
                subst ha
                cases hec.symm.trans he'
                unfold turnSend at hz
                omega
              · simp [afterTurn, ha, hec]
            · rw [List.length_cons] at hcount
              omega
  rcases hinv with hpos | ⟨_, ahead, behind, _, hcount⟩
  · exact hpos
  · rw [ho, List.length_append, List.length_cons] at hk
    omega

/-- Budget left by the strict streams reaches a bulk stream exactly when one wants it. -/
theorem bulk_served_iff {t : Traced} (ht : Tables t) {k left : Nat} {b : Bulk} (hb : Turns ⟨t.sched, left, []⟩ k b)
    (hend : 0 < b.budget → 2 * t.sched.bulkOrder.length ≤ k ∧ ∀ id ∈ t.sched.bulkOrder, t.sched.Spent id) :
    (∃ id, 0 < allocOf b.allocs id) ↔ 0 < left ∧ ∃ id, t.sched.Wants id := by
  have hsum := hb.sum
  simp only [allocSum_nil, Nat.zero_add] at hsum
  constructor
  · rintro ⟨id, hid⟩
    have hle := allocOf_le_allocSum b.allocs id
    refine ⟨by omega, id, ?_⟩
    have hin : id ∈ t.sched.bulkOrder := by
      by_contra hout
      have := hb.allocs_mem hout
      omega
    obtain ⟨p, hp, hs⟩ := (ht.bulkMem id).mp hin
    obtain ⟨e, he, rfl⟩ := Option.map_eq_some_iff.mp hp
    have hw : ¬ (e.backlog = 0 ∨ e.deficit + e.quantum = 0) := by
      intro hw
      have := hb.unwanting he hw
      omega
    exact ⟨e, he, hs, by omega, by omega⟩
  · rintro ⟨hleft, id, hw⟩
    apply allocOf_pos
    by_cases h0 : b.budget = 0
    · omega
    · have hin : id ∈ t.sched.bulkOrder := by
        obtain ⟨e, he, hs, _⟩ := hw
        exact (ht.of_bulk he hs).2
      have := (hend (by omega)).1
      exact hb.wanting hin hw (by omega)

/-! ## The strict queue -/

theorem queuedPriority_some {streams : Uuid → Option StreamEntry} {id : Uuid} {e : StreamEntry}
    (h : streams id = some e) : queuedPriority streams id = e.priority := by
  simp [queuedPriority, h]

theorem strict_mem {t : Traced} (ht : Tables t) {id : Uuid} (h : t.sched.HasClass true id) :
    id ∈ t.sched.c2iQueue := by
  obtain ⟨e, he, hs⟩ := h
  exact (ht.of_strict he hs).1

/-- A strict stream of higher priority is further ahead in the queue. -/
theorem higher_ahead {t : Traced} (ht : Tables t) {pre post : List Uuid} {id i : Uuid}
    (hq : t.sched.c2iQueue = pre ++ id :: post) (hi : i ∈ t.sched.c2iQueue)
    (hlt : queuedPriority t.sched.streams id < queuedPriority t.sched.streams i) : i ∈ pre := by
  have hsorted := ht.sorted
  rw [hq] at hi hsorted
  rcases List.mem_append.mp hi with hi | hi
  · exact hi
  · exfalso
    rcases List.mem_cons.mp hi with rfl | hi
    · exact lt_irrefl _ hlt
    · rcases (List.pairwise_cons.mp (List.pairwise_append.mp hsorted).2.1).1 i hi with h | ⟨h, _⟩
      · exact lt_asymm h hlt
      · rw [h] at hlt
        exact lt_irrefl _ hlt

/-- A strict stream that the budget serves in full is drained unless its quantum is
    below its backlog. -/
theorem drained_of_need {s : DrrScheduler} {allocs : List (Uuid × Nat)} {i : Uuid} {e : StreamEntry}
    (he : s.streams i = some e) (ha : allocOf allocs i = strictNeed s.streams i) (hle : e.backlog ≤ e.quantum) :
    s.Drained allocs i := by
  intro e' he'
  cases he.symm.trans he'
  rw [ha]
  simp only [strictNeed, he]
  omega

/-- And one whose quantum is below its backlog never is. -/
theorem not_drained {s : DrrScheduler} {allocs : List (Uuid × Nat)} {i : Uuid} {e : StreamEntry}
    (he : s.streams i = some e) (ha : allocOf allocs i ≤ strictNeed s.streams i) (hlt : e.quantum < e.backlog) :
    ¬ s.Drained allocs i := by
  intro hd
  have := hd e he
  simp only [strictNeed, he] at ha
  omega

/-- The ids of the queues have the class of their queue. -/
theorem hasClass_strict {t : Traced} (ht : Tables t) {id : Uuid} (h : id ∈ t.sched.c2iQueue) :
    t.sched.HasClass true id := by
  obtain ⟨p, hp, hs⟩ := (ht.c2iMem id).mp h
  obtain ⟨e, he, rfl⟩ := Option.map_eq_some_iff.mp hp
  exact ⟨e, he, hs⟩

theorem hasClass_bulk {t : Traced} (ht : Tables t) {id : Uuid} (h : id ∈ t.sched.bulkOrder) :
    t.sched.HasClass false id := by
  obtain ⟨p, hp, hs⟩ := (ht.bulkMem id).mp h
  obtain ⟨e, he, rfl⟩ := Option.map_eq_some_iff.mp hp
  exact ⟨e, he, hs⟩

section Call

variable {t : Traced} {budget k : Nat} {order : HashOrder} {b : Bulk}

/-- What a call gives out, once it is known what its bulk turns did. -/
def callAllocs (t : Traced) (budget : Nat) (order : HashOrder) (b : Bulk) : List (Uuid × Nat) :=
  strictGrants t.sched.streams t.sched.c2iQueue budget ++ order.list b.allocs

theorem callAllocs_listed (ht : Tables t) (hb : Turns ⟨t.sched, t.sched.bulkBudget budget, []⟩ k b) :
    ∃ strict bulk, callAllocs t budget order b = strict ++ bulk ∧ (∀ x ∈ strict, t.sched.HasClass true x.1) ∧
      ∀ x ∈ bulk, t.sched.HasClass false x.1 := by
  refine ⟨_, _, rfl, fun x hx => hasClass_strict ht (strictGrants_mem hx), fun x hx => ?_⟩
  exact hasClass_bulk ht (hb.allocs_ids x ((order.perm b.allocs).mem_iff.mp hx))

/-- If every strict need fits the budget before `reached`, the strict streams counted
    in it get their need. -/
theorem callAllocs_need (ht : Tables t) (hb : Turns ⟨t.sched, t.sched.bulkBudget budget, []⟩ k b)
    {pre post ahead : List Uuid} {i : Uuid} (hq : t.sched.c2iQueue = pre ++ i :: post)
    (ha : ∃ rest, ahead = pre ++ i :: rest) (hroom : strictNeeds t.sched.streams ahead < budget) :
    allocOf (callAllocs t budget order b) i = strictNeed t.sched.streams i := by
  obtain ⟨rest, rfl⟩ := ha
  rw [callAllocs, allocOf_strict ht hb hq]
  rw [strictNeeds_append, strictNeeds_cons] at hroom
  omega

theorem callAllocs_le_need (ht : Tables t) (hb : Turns ⟨t.sched, t.sched.bulkBudget budget, []⟩ k b) {i : Uuid}
    (hi : i ∈ t.sched.c2iQueue) : allocOf (callAllocs t budget order b) i ≤ strictNeed t.sched.streams i := by
  obtain ⟨pre, post, hq⟩ := List.append_of_mem hi
  rw [callAllocs, allocOf_strict ht hb hq]
  omega

theorem bulkBudget_pos {s : DrrScheduler} : 0 < s.bulkBudget budget ↔ strictNeeds s.streams s.c2iQueue < budget := by
  unfold bulkBudget
  omega

/-- If quanta suffice, strict streams come first. -/
theorem QuantaSuffice.strictFirst (ht : Tables t) (hb : Turns ⟨t.sched, t.sched.bulkBudget budget, []⟩ k b)
    (hend : 0 < b.budget → 2 * t.sched.bulkOrder.length ≤ k ∧ ∀ id ∈ t.sched.bulkOrder, t.sched.Spent id)
    (h : t.sched.QuantaSuffice budget) : t.sched.StrictFirst (callAllocs t budget order b) := by
  refine ⟨fun id hid hpos i hi => ?_, fun id i hid hpos hi hlt => ?_, callAllocs_listed ht hb⟩
  · obtain ⟨e, he, hs⟩ := hi
    have hin : id ∈ t.sched.bulkOrder := by
      obtain ⟨e', he', hs'⟩ := hid
      exact (ht.of_bulk he' hs').2
    rw [callAllocs, allocOf_bulk ht hin] at hpos
    obtain ⟨hleft, j, hw⟩ := (bulk_served_iff ht hb hend).mp ⟨id, hpos⟩
    have hroom := bulkBudget_pos.mp hleft
    obtain ⟨pre, post, hq⟩ := List.append_of_mem (ht.of_strict he hs).1
    refine drained_of_need he (callAllocs_need ht hb hq ⟨post, hq⟩ hroom) ?_
    by_contra hover
    have := h.bulk i e he hs (by omega) j hw
    omega
  · obtain ⟨e, he, hs⟩ := hi
    obtain ⟨pre, post, hq⟩ := List.append_of_mem (strict_mem ht hid)
    rw [callAllocs, allocOf_strict ht hb hq] at hpos
    obtain ⟨pre', rest, hpre⟩ := List.append_of_mem (higher_ahead ht hq (ht.of_strict he hs).1 hlt)
    have hqi : t.sched.c2iQueue = pre' ++ i :: (rest ++ id :: post) := by
      rw [hq, hpre]
      simp
    refine drained_of_need he (callAllocs_need ht hb hqi ⟨rest, hpre⟩ (by omega)) ?_
    by_contra hover
    rw [queuedPriority_some he] at hlt
    have := h.strict i e he hs (by omega) pre id post hq hlt (by omega)
    omega

/-- If strict streams come first, quanta suffice. -/
theorem StrictFirst.quantaSuffice (ht : Tables t) (hb : Turns ⟨t.sched, t.sched.bulkBudget budget, []⟩ k b)
    (hend : 0 < b.budget → 2 * t.sched.bulkOrder.length ≤ k ∧ ∀ id ∈ t.sched.bulkOrder, t.sched.Spent id)
    (h : t.sched.StrictFirst (callAllocs t budget order b)) : t.sched.QuantaSuffice budget := by
  refine ⟨fun i e he hs hover pre id post hq hlt hneed => ?_, fun i e he hs hover id hw => ?_⟩
  · by_contra hroom
    have hin : id ∈ t.sched.c2iQueue := by simp [hq]
    have hpos : 0 < allocOf (callAllocs t budget order b) id := by
      rw [callAllocs, allocOf_strict ht hb hq]
      omega
    rw [← queuedPriority_some he] at hlt
    have hd := h.inOrder id i (hasClass_strict ht hin) hpos ⟨e, he, hs⟩ hlt
    exact not_drained he (callAllocs_le_need ht hb (ht.of_strict he hs).1) hover hd
  · by_contra hroom
    obtain ⟨j, hj⟩ := (bulk_served_iff ht hb hend).mpr ⟨bulkBudget_pos.mpr (by omega), id, hw⟩
    have hin : j ∈ t.sched.bulkOrder := by
      by_contra hout
      have := hb.allocs_mem hout
      omega
    have hpos : 0 < allocOf (callAllocs t budget order b) j := by
      rw [callAllocs, allocOf_bulk ht hin]
      exact hj
    have hd := h.bulkLast j (hasClass_bulk ht hin) hpos i ⟨e, he, hs⟩
    exact not_drained he (callAllocs_le_need ht hb (ht.of_strict he hs).1) hover hd

end Call

end DrrScheduler

namespace Traced

/-- In every state reached without registering a registered id, a call serves strict
    streams first exactly when their quanta suffice for it. -/
theorem strict_first_iff (ops : List Op) (hf : FreshRun ops) (budget : Nat) (order : HashOrder)
    (allocs : List (Uuid × Nat)) (h : ((run ops).sched.schedule budget order).2 = .ok allocs) :
    (run ops).sched.StrictFirst allocs ↔ (run ops).sched.QuantaSuffice budget := by
  obtain ⟨k, b, hb, rfl, hend⟩ := DrrScheduler.schedule_turns hf.tables.known.1 h
  exact ⟨fun hs => hs.quantaSuffice hf.tables hb hend, fun hq => hq.strictFirst hf.tables hb hend⟩

/-- A strict stream with `n` bytes and a bulk stream with 5000. -/
def strictAndBulk (n : Nat) : List Op :=
  [.register ⟨1⟩ .c2iPriorityMin, .register ⟨2⟩ .bulkPriorityMin, .setBacklog ⟨1⟩ n, .setBacklog ⟨2⟩ 5000]

/-- Below its quantum the strict stream is drained first. -/
theorem small_backlog_drained_first :
    ((run (strictAndBulk 1024)).sched.schedule 4096 .inserted).2 = .ok [(⟨1⟩, 1024), (⟨2⟩, 3072)] ∧
      (run (strictAndBulk 1024)).sched.StrictFirst [(⟨1⟩, 1024), (⟨2⟩, 3072)] := by
  have hok : ((run (strictAndBulk 1024)).sched.schedule 4096 .inserted).2 = .ok [(⟨1⟩, 1024), (⟨2⟩, 3072)] := by
    decide +kernel
  have hfresh : FreshRun (strictAndBulk 1024) := .of_check (by decide +kernel)
  have hnone : ∀ i e, (run (strictAndBulk 1024)).sched.streams i = some e → e.priority.isStrict = true →
      ¬ e.quantum < e.backlog := by
    intro i e he hs
    have hq : (run (strictAndBulk 1024)).sched.c2iQueue = [⟨1⟩] := by decide +kernel
    have hi := (hfresh.tables.of_strict he hs).1
    rw [hq, List.mem_singleton] at hi
    subst hi
    have : e = ⟨.c2iPriorityMin, 0, 65536, 1024⟩ := Option.some.inj (he.symm.trans (by decide +kernel))
    subst this
    decide
  refine ⟨hok, (strict_first_iff (strictAndBulk 1024) hfresh 4096 .inserted _ hok).mpr ?_⟩
  exact ⟨fun i e he hs hover => absurd hover (hnone i e he hs), fun i e he hs hover => absurd hover (hnone i e he hs)⟩

/-- Above it, the bulk stream is served while 4464 strict bytes wait. -/
theorem backlog_above_quantum_waits :
    FreshRun (strictAndBulk 70000) ∧
      ((run (strictAndBulk 70000)).sched.schedule 70000 .inserted).2 = .ok [(⟨1⟩, 65536), (⟨2⟩, 4464)] ∧
      ¬ (run (strictAndBulk 70000)).sched.StrictFirst [(⟨1⟩, 65536), (⟨2⟩, 4464)] := by
  refine ⟨.of_check (by decide +kernel), by decide +kernel, fun h => ?_⟩
  have hd := h.bulkLast ⟨2⟩ ⟨⟨.bulkPriorityMin, 0, 4096, 5000⟩, by decide +kernel, by decide⟩ (by decide +kernel) ⟨1⟩
    ⟨⟨.c2iPriorityMin, 0, 65536, 70000⟩, by decide +kernel, by decide⟩
  have := hd ⟨.c2iPriorityMin, 0, 65536, 70000⟩ (by decide +kernel)
  revert this
  decide +kernel

end Traced

end Quelay.Domain
