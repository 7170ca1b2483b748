/-
  Quelay.Domain.SchedulerTables — the three tables of `DrrScheduler` agree.

  `Consistent` is what every operation trusts: each registered id is once in the queue
  of its class and nowhere else, no queue holds an id without an entry, the strict
  queue is in priority order with ties in registration order, and so `schedule` finds
  every id it visits. Registration times are ghost state beside the scheduler
  (`Traced`).

  `register` does not look whether its id is registered already: it pushes the id
  a second time, and a `deregister` then cleans only the queue of the newer class
  (`duplicate_register_breaks_schedule`). Along a sequence of calls the tables stay
  consistent exactly when no call registers a registered id
  (`consistent_iff_fresh`).
-/

import Mathlib.Data.List.Nodup
import Mathlib.Data.List.Induction
import Quelay.Domain.Scheduler
import Quelay.Lib.StableInsert

namespace Quelay.Domain

open Quelay.Lib

namespace DrrScheduler

/-! ## What `schedule` leaves alone -/

/-- The same ids registered with the same priorities, the same strict queue, and the
    bulk deque up to rotation. -/
structure SameShape (s t : DrrScheduler) : Prop where
  priorities : ∀ id, (t.streams id).map (·.priority) = (s.streams id).map (·.priority)
  c2i : t.c2iQueue = s.c2iQueue
  bulk : t.bulkOrder.Perm s.bulkOrder

theorem SameShape.refl (s : DrrScheduler) : SameShape s s := ⟨fun _ => rfl, rfl, List.Perm.refl _⟩

theorem SameShape.trans {s t u : DrrScheduler} (h : SameShape s t) (h' : SameShape t u) : SameShape s u :=
  ⟨fun id => (h'.priorities id).trans (h.priorities id), h'.c2i.trans h.c2i, h'.bulk.trans h.bulk⟩

theorem SameShape.isSome {s t : DrrScheduler} (h : SameShape s t) (id : Uuid) :
    (t.streams id).isSome = (s.streams id).isSome := by
  have := congrArg Option.isSome (h.priorities id)
  simpa using this

theorem modify_shape (s : DrrScheduler) (id : Uuid) (f : StreamEntry → StreamEntry)
    (hf : ∀ e, (f e).priority = e.priority) : SameShape s (s.modify id f) := by
  refine ⟨fun j => ?_, rfl, List.Perm.refl _⟩
  by_cases e : j = id
  · subst e
    cases h : s.streams j <;> simp [modify, h, hf]
  · simp [modify, e]

theorem rebalance_shape (s : DrrScheduler) : SameShape s (rebalance s) := by
  refine ⟨fun j => ?_, rfl, List.Perm.refl _⟩
  simp only [rebalance]
  split
  · cases s.streams j <;> rfl
  · rfl

theorem afterTurn_shape {s : DrrScheduler} {id : Uuid} {rest : List Uuid} {e : StreamEntry}
    (ho : s.bulkOrder = id :: rest) (he : s.streams id = some e) (d : Nat) :
    SameShape s (s.afterTurn id rest e d) := by
  refine ⟨fun j => ?_, rfl, ?_⟩
  · by_cases h : j = id
    · subst h; simp [afterTurn, he]
    · simp [afterTurn, h]
  · simp only [afterTurn, ho]
    exact List.perm_append_singleton id rest

theorem turn_shape {b b' : Bulk} {sent : Bool} (h : turn b = .ok (sent, b')) : SameShape b.sched b'.sched := by
  rcases turn_cases h with ⟨_, _, rfl⟩ | ⟨id, rest, e, ho, he, _, ⟨_, _, rfl⟩ | ⟨_, _, rfl⟩⟩
  · exact .refl _
  · exact afterTurn_shape ho he _
  · exact afterTurn_shape ho he _

theorem mandatoryRound_shape (n : Nat) (b : Bulk) : SameShape b.sched (mandatoryRound n b).1.sched := by
  induction n generalizing b with
  | zero => exact .refl _
  | succ n ih =>
    simp only [mandatoryRound]
    split
    · exact .refl _
    · split
      · exact .refl _
      · rename_i ht
        exact (turn_shape ht).trans (ih _)

theorem extraTurns_shape (n idle : Nat) (b : Bulk) : SameShape b.sched (extraTurns n idle b).1.sched := by
  fun_induction extraTurns n idle b with
  | case1 => exact .refl _
  | case2 _ _ _ _ ht ih => exact (turn_shape ht).trans ih
  | case3 _ _ _ _ ht ih => exact (turn_shape ht).trans ih
  | case4 => exact .refl _

theorem schedule_shape (s : DrrScheduler) (budget : Nat) (order : HashOrder) :
    SameShape s (s.schedule budget order).1 := by
  unfold schedule
  split
  · exact .refl _
  · rename_i left result _
    simp only
    split
    · exact .refl _
    · have h1 := mandatoryRound_shape s.bulkOrder.length ⟨s, left, []⟩
      split
      · rename_i hm; rw [hm] at h1; exact h1
      · rename_i b _ hm
        rw [hm] at h1
        have h2 := extraTurns_shape s.bulkOrder.length 0 b
        split
        · rename_i hx; rw [hx] at h2; exact h1.trans h2
        · rename_i hx; rw [hx] at h2; exact h1.trans h2

/-! ## No `StreamNotFound` while every queued id has an entry -/

def Known (s : DrrScheduler) (ids : List Uuid) : Prop := ∀ id ∈ ids, (s.streams id).isSome

theorem Known.of_shape {s t : DrrScheduler} (h : SameShape s t) (hk : s.Known s.bulkOrder) : t.Known t.bulkOrder := by
  intro id hid
  rw [h.isSome id]
  exact hk id (h.bulk.mem_iff.mp hid)

theorem strictPhase_found {streams : Uuid → Option StreamEntry} {ids : List Uuid} (hk : ∀ id ∈ ids, (streams id).isSome)
    (budget : Nat) (acc : List (Uuid × Nat)) (id : Uuid) :
    strictPhase streams ids budget acc ≠ .error (.streamNotFound id) := by
  induction ids generalizing budget acc with
  | nil => simp [strictPhase]
  | cons j ids ih =>
    have hrest := ih fun i hi => hk i (List.mem_cons_of_mem _ hi)
    obtain ⟨e, he⟩ := Option.isSome_iff_exists.mp (hk j List.mem_cons_self)
    simp only [strictPhase, he]
    split
    · simp
    · split
      · exact hrest _ _
      · exact hrest _ _

theorem turn_found {b : Bulk} (hk : b.sched.Known b.sched.bulkOrder) (id : Uuid) :
    turn b ≠ .error (.streamNotFound id) := by
  unfold turn
  split
  · simp
  · rename_i j rest ho
    obtain ⟨e, he⟩ := Option.isSome_iff_exists.mp (hk j (by simp [ho]))
    simp only [he]
    repeat' split
    all_goals simp

theorem mandatoryRound_found (n : Nat) {b : Bulk} (hk : b.sched.Known b.sched.bulkOrder) (id : Uuid) :
    (mandatoryRound n b).2 ≠ .error (.streamNotFound id) := by
  induction n generalizing b with
  | zero => simp [mandatoryRound]
  | succ n ih =>
    simp only [mandatoryRound]
    split
    · simp
    · split
      · rename_i e ht
        intro h
        simp only [Except.error.injEq] at h
        exact turn_found hk id (h ▸ ht)
      · rename_i ht
        exact ih (hk.of_shape (turn_shape ht))

theorem extraTurns_found (n idle : Nat) {b : Bulk} (hk : b.sched.Known b.sched.bulkOrder) (id : Uuid) :
    (extraTurns n idle b).2 ≠ .error (.streamNotFound id) := by
  fun_induction extraTurns n idle b with
  | case1 _ _ _ e ht =>
    intro h
    simp only [Except.error.injEq] at h
    exact turn_found hk id (h ▸ ht)
  | case2 _ _ _ _ ht ih => exact ih (hk.of_shape (turn_shape ht))
  | case3 _ _ _ _ ht ih => exact ih (hk.of_shape (turn_shape ht))
  | case4 => simp

theorem schedule_found {s : DrrScheduler} (hc : s.Known s.c2iQueue) (hb : s.Known s.bulkOrder) (budget : Nat)
    (order : HashOrder) (id : Uuid) : (s.schedule budget order).2 ≠ .error (.streamNotFound id) := by
  unfold schedule
  split
  · rename_i e hs
    intro h
    simp only [Except.error.injEq] at h
    exact strictPhase_found hc budget [] id (h ▸ hs)
  · rename_i left result _
    simp only
    split
    · simp
    · have hf := mandatoryRound_found s.bulkOrder.length (b := ⟨s, left, []⟩) hb id
      split
      · rename_i hm
        rw [hm] at hf
        simpa using hf
      · rename_i b _ hm
        have hb' : b.sched.Known b.sched.bulkOrder := by
          have := mandatoryRound_shape s.bulkOrder.length ⟨s, left, []⟩
          rw [hm] at this
          exact hb.of_shape this
        have hx := extraTurns_found s.bulkOrder.length 0 hb' id
        split
        · rename_i he
          rw [he] at hx
          simpa using hx
        · simp

end DrrScheduler

/-! ## The tables -/

/-- The scheduler with the time each id was last registered at. -/
structure Traced where
  sched : DrrScheduler
  clock : Nat
  registeredAt : Uuid → Nat

namespace Traced

def start : Traced := ⟨.new, 0, fun _ => 0⟩

def apply (t : Traced) (op : Op) : Traced where
  sched := t.sched.apply op
  clock := t.clock + 1
  registeredAt := match op with
    | .register id _ => Function.update t.registeredAt id t.clock
    | _ => t.registeredAt

def run (ops : List Op) : Traced := ops.foldl apply start

theorem run_concat (ops : List Op) (op : Op) : run (ops ++ [op]) = (run ops).apply op := by
  simp [run, List.foldl_append]

/-- `a` is served before `b`: higher priority, or the same and registered earlier. -/
def Before (t : Traced) (a b : Uuid) : Prop :=
  DrrScheduler.queuedPriority t.sched.streams b < DrrScheduler.queuedPriority t.sched.streams a ∨
    DrrScheduler.queuedPriority t.sched.streams a = DrrScheduler.queuedPriority t.sched.streams b ∧
      t.registeredAt a < t.registeredAt b

structure Consistent (t : Traced) : Prop where
  once : ∀ id e, t.sched.streams id = some e →
    if e.priority.isStrict then t.sched.c2iQueue.count id = 1 ∧ t.sched.bulkOrder.count id = 0
    else t.sched.c2iQueue.count id = 0 ∧ t.sched.bulkOrder.count id = 1
  registered : ∀ id, id ∈ t.sched.c2iQueue ∨ id ∈ t.sched.bulkOrder → (t.sched.streams id).isSome
  sorted : t.sched.c2iQueue.Pairwise t.Before
  found : ∀ budget order id, (t.sched.schedule budget order).2 ≠ .error (.streamNotFound id)

/-- The working form: each queue lists, without repetition, the ids of its class. -/
structure Tables (t : Traced) : Prop where
  c2iNodup : t.sched.c2iQueue.Nodup
  bulkNodup : t.sched.bulkOrder.Nodup
  c2iMem : ∀ id, id ∈ t.sched.c2iQueue ↔ ∃ p, (t.sched.streams id).map (·.priority) = some p ∧ p.isStrict = true
  bulkMem : ∀ id, id ∈ t.sched.bulkOrder ↔ ∃ p, (t.sched.streams id).map (·.priority) = some p ∧ p.isStrict = false
  sorted : t.sched.c2iQueue.Pairwise t.Before
  past : ∀ id ∈ t.sched.c2iQueue, t.registeredAt id < t.clock

theorem queuedPriority_congr {f g : Uuid → Option StreamEntry} {id : Uuid}
    (h : (g id).map (·.priority) = (f id).map (·.priority)) :
    DrrScheduler.queuedPriority g id = DrrScheduler.queuedPriority f id := by
  simp only [DrrScheduler.queuedPriority, h]

theorem Tables.known {t : Traced} (h : Tables t) :
    t.sched.Known t.sched.c2iQueue ∧ t.sched.Known t.sched.bulkOrder := by
  constructor
  · intro id hid
    obtain ⟨p, hp, _⟩ := (h.c2iMem id).mp hid
    have := congrArg Option.isSome hp
    simpa using this
  · intro id hid
    obtain ⟨p, hp, _⟩ := (h.bulkMem id).mp hid
    have := congrArg Option.isSome hp
    simpa using this

/-- An id is in the queue of its class and not in the other. -/
theorem Tables.of_strict {t : Traced} (h : Tables t) {id : Uuid} {e : StreamEntry} (he : t.sched.streams id = some e)
    (hs : e.priority.isStrict = true) : id ∈ t.sched.c2iQueue ∧ id ∉ t.sched.bulkOrder := by
  have hp : (t.sched.streams id).map (·.priority) = some e.priority := by simp [he]
  refine ⟨(h.c2iMem id).mpr ⟨_, hp, hs⟩, fun hb => ?_⟩
  obtain ⟨q, hq, hn⟩ := (h.bulkMem id).mp hb
  rw [hp] at hq
  cases hq
  rw [hs] at hn
  cases hn

theorem Tables.of_bulk {t : Traced} (h : Tables t) {id : Uuid} {e : StreamEntry} (he : t.sched.streams id = some e)
    (hs : e.priority.isStrict = false) : id ∉ t.sched.c2iQueue ∧ id ∈ t.sched.bulkOrder := by
  have hp : (t.sched.streams id).map (·.priority) = some e.priority := by simp [he]
  refine ⟨fun hc => ?_, (h.bulkMem id).mpr ⟨_, hp, hs⟩⟩
  obtain ⟨q, hq, hn⟩ := (h.c2iMem id).mp hc
  rw [hp] at hq
  cases hq
  rw [hs] at hn
  cases hn

theorem Tables.consistent {t : Traced} (h : Tables t) : Consistent t := by
  refine ⟨fun id e he => ?_, fun id hid => hid.elim (h.known.1 id) (h.known.2 id), h.sorted,
    fun budget order id => DrrScheduler.schedule_found h.known.1 h.known.2 budget order id⟩
  cases hs : e.priority.isStrict with
  | true =>
    obtain ⟨hin, hout⟩ := h.of_strict he hs
    exact ⟨List.count_eq_one_of_mem h.c2iNodup hin, List.count_eq_zero.mpr hout⟩
  | false =>
    obtain ⟨hout, hin⟩ := h.of_bulk he hs
    exact ⟨List.count_eq_zero.mpr hout, List.count_eq_one_of_mem h.bulkNodup hin⟩

theorem tables_start : Tables start := by
  refine ⟨List.nodup_nil, List.nodup_nil, fun id => ?_, fun id => ?_, List.Pairwise.nil, fun id h => ?_⟩
  · simp [start, DrrScheduler.new]
  · simp [start, DrrScheduler.new]
  · simp [start, DrrScheduler.new] at h

/-- The tables only depend on the shape and on the registration times. -/
theorem Tables.of_shape {t u : Traced} (h : Tables t) (hs : DrrScheduler.SameShape t.sched u.sched)
    (hr : u.registeredAt = t.registeredAt) (hc : t.clock ≤ u.clock) : Tables u := by
  refine ⟨hs.c2i ▸ h.c2iNodup, hs.bulk.nodup_iff.mpr h.bulkNodup, fun id => ?_, fun id => ?_, ?_, fun id hid => ?_⟩
  · rw [hs.c2i, hs.priorities id]; exact h.c2iMem id
  · rw [hs.bulk.mem_iff, hs.priorities id]; exact h.bulkMem id
  · rw [hs.c2i]
    refine h.sorted.imp fun {a b} hab => ?_
    simp only [Before, queuedPriority_congr (hs.priorities a), queuedPriority_congr (hs.priorities b), hr]
    exact hab
  · rw [hs.c2i] at hid
    rw [hr]
    exact Nat.lt_of_lt_of_le (h.past id hid) hc

/-! ## Registering and deregistering -/

theorem map_priority_update (f : Uuid → Option StreamEntry) (id j : Uuid) (e : Option StreamEntry) :
    (Function.update f id e j).map (·.priority) = if j = id then e.map (·.priority) else (f j).map (·.priority) := by
  by_cases h : j = id
  · subst h; simp
  · simp [h]

/-- A fresh strict id goes behind the strict ids of at least its priority. -/
theorem register_strict {t : Traced} (h : Tables t) {id : Uuid} {p : Priority} (hn : t.sched.streams id = none)
    (hs : p.isStrict = true) : Tables (t.apply (.register id p)) := by
  have hnew : id ∉ t.sched.c2iQueue := fun hm => by
    have := h.known.1 id hm
    simp [hn] at this
  have hne : ∀ x ∈ t.sched.c2iQueue, x ≠ id := fun x hx e => hnew (e ▸ hx)
  -- The entries and times of the ids already queued are what they were.
  let f := Function.update t.sched.streams id (some ⟨p, 0, p.initialQuantum, 0⟩)
  have hf : ∀ x ∈ t.sched.c2iQueue,
      DrrScheduler.queuedPriority f x = DrrScheduler.queuedPriority t.sched.streams x := by
    intro x hx
    apply queuedPriority_congr
    simp [f, hne x hx]
  have hself : DrrScheduler.queuedPriority f id = p := by simp [f, DrrScheduler.queuedPriority]
  let test := fun other => decide (DrrScheduler.queuedPriority f other < p)
  have hsched : (t.apply (.register id p)).sched =
      ⟨f, t.sched.bulkOrder, t.sched.c2iQueue.insertIdx (t.sched.c2iQueue.findIdx test) id⟩ := by
    simp [apply, DrrScheduler.apply, DrrScheduler.register, hs, f, test]
  have hat : (t.apply (.register id p)).registeredAt = Function.update t.registeredAt id t.clock := rfl
  have hperm := insert_perm test id t.sched.c2iQueue
  refine ⟨?_, ?_, fun j => ?_, fun j => ?_, ?_, fun j hj => ?_⟩
  · rw [hsched]
    exact hperm.nodup_iff.mpr (List.nodup_cons.mpr ⟨hnew, h.c2iNodup⟩)
  · rw [hsched]; exact h.bulkNodup
  · rw [hsched]
    simp only [hperm.mem_iff, List.mem_cons, f, map_priority_update]
    by_cases e : j = id
    · subst e; simp [hs]
    · simp only [e, false_or, if_false]; exact h.c2iMem j
  · rw [hsched]
    simp only [f, map_priority_update]
    by_cases e : j = id
    · subst e
      simp only [if_true, Option.map_some, Option.some.injEq, exists_eq_left', hs]
      refine ⟨fun hm => ?_, fun hf => by cases hf⟩
      have := h.known.2 j hm
      simp [hn] at this
    · simp only [e, if_false]; exact h.bulkMem j
  · rw [hsched]
    refine insert_pairwise ?_ (fun x hx hp => ?_) (fun x hx hp => ?_) (fun x hx y hy hxy hp => ?_)
    · refine h.sorted.imp_of_mem fun {a b} ha hb hab => ?_
      simp only [Before, hsched, hat, hf a ha, hf b hb, Function.update_of_ne (hne a ha), Function.update_of_ne (hne b hb)]
      exact hab
    · have hle : p ≤ DrrScheduler.queuedPriority f x := not_lt.mp (by simpa [test] using hp)
      simp only [Before, hsched, hat, hself, Function.update_self, Function.update_of_ne (hne x hx)]
      rcases lt_or_eq_of_le hle with hlt | heq
      · exact Or.inl hlt
      · exact Or.inr ⟨heq.symm, h.past x hx⟩
    · simp only [Before, hsched, hself]
      exact Or.inl (by simpa [test] using hp)
    · have hx' : DrrScheduler.queuedPriority f x < p := by simpa [test] using hp
      have hy' : DrrScheduler.queuedPriority f y < p := by
        simp only [Before, hsched] at hxy
        rcases hxy with hlt | ⟨heq, _⟩
        · exact lt_trans hlt hx'
        · exact heq ▸ hx'
      simpa [test] using hy'
  · rw [hat]
    show _ < t.clock + 1
    by_cases e : j = id
    · subst e; simp
    · rw [Function.update_of_ne e]
      rw [hsched] at hj
      rcases List.mem_cons.mp (hperm.mem_iff.mp hj) with hj | hj
      · exact absurd hj e
      · exact Nat.lt_succ_of_lt (h.past j hj)

/-- A fresh bulk id goes to the back of the round. -/
theorem register_bulk {t : Traced} (h : Tables t) {id : Uuid} {p : Priority} (hn : t.sched.streams id = none)
    (hs : p.isStrict = false) : Tables (t.apply (.register id p)) := by
  have hnew : id ∉ t.sched.c2iQueue := fun hm => by
    have := h.known.1 id hm
    simp [hn] at this
  have hnewb : id ∉ t.sched.bulkOrder := fun hm => by
    have := h.known.2 id hm
    simp [hn] at this
  have hne : ∀ x ∈ t.sched.c2iQueue, x ≠ id := fun x hx e => hnew (e ▸ hx)
  let f := Function.update t.sched.streams id (some ⟨p, 0, p.initialQuantum, 0⟩)
  let mid : Traced := ⟨⟨f, t.sched.bulkOrder ++ [id], t.sched.c2iQueue⟩, t.clock + 1,
    Function.update t.registeredAt id t.clock⟩
  have hmid : Tables mid := by
    refine ⟨h.c2iNodup, ?_, fun j => ?_, fun j => ?_, ?_, fun j hj => ?_⟩
    · exact (List.perm_append_singleton id _).nodup_iff.mpr (List.nodup_cons.mpr ⟨hnewb, h.bulkNodup⟩)
    · simp only [mid, f, map_priority_update]
      by_cases e : j = id
      · subst e; simp [hs, hnew]
      · simp only [e, if_false]; exact h.c2iMem j
    · simp only [mid, f, map_priority_update, List.mem_append, List.mem_singleton]
      by_cases e : j = id
      · subst e; simp [hs]
      · simp only [e, or_false, if_false]; exact h.bulkMem j
    · refine h.sorted.imp_of_mem fun {a b} ha hb hab => ?_
      have hfa : ∀ x ∈ t.sched.c2iQueue, DrrScheduler.queuedPriority f x = DrrScheduler.queuedPriority t.sched.streams x :=
        fun x hx => queuedPriority_congr (by simp [f, hne x hx])
      simp only [Before, mid, hfa a ha, hfa b hb, Function.update_of_ne (hne a ha), Function.update_of_ne (hne b hb)]
      exact hab
    · show Function.update t.registeredAt id t.clock j < t.clock + 1
      rw [Function.update_of_ne (hne j hj)]
      exact Nat.lt_succ_of_lt (h.past j hj)
  refine hmid.of_shape ?_ rfl (Nat.le_refl _)
  have : (t.apply (.register id p)).sched = DrrScheduler.rebalance mid.sched := by
    simp [apply, DrrScheduler.apply, DrrScheduler.register, hs, mid, f]
  rw [this]
  exact DrrScheduler.rebalance_shape _

theorem mem_filter_ne {l : List Uuid} {id j : Uuid} : j ∈ l.filter (· != id) ↔ j ∈ l ∧ j ≠ id := by
  simp [List.mem_filter]

theorem filter_ne_self {l : List Uuid} {id : Uuid} (h : id ∉ l) : l.filter (· != id) = l :=
  List.filter_eq_self.mpr fun x hx => by
    have : x ≠ id := fun e => h (e ▸ hx)
    simpa using this

/-- Removing an id from its own queue removes it altogether: it was in no other. -/
theorem deregister_tables {t : Traced} (h : Tables t) (id : Uuid) : Tables (t.apply (.deregister id)) := by
  cases he : t.sched.streams id with
  | none =>
    refine h.of_shape ?_ rfl (Nat.le_succ _)
    simp only [apply, DrrScheduler.apply, DrrScheduler.deregister, he]
    exact .refl _
  | some e =>
    let f := Function.update t.sched.streams id none
    let mid : Traced := ⟨⟨f, t.sched.bulkOrder.filter (· != id), t.sched.c2iQueue.filter (· != id)⟩, t.clock + 1,
      t.registeredAt⟩
    have hmid : Tables mid := by
      refine ⟨h.c2iNodup.filter _, h.bulkNodup.filter _, fun j => ?_, fun j => ?_, ?_, fun j hj => ?_⟩
      · simp only [mid, f, map_priority_update, mem_filter_ne]
        by_cases ej : j = id
        · simp [ej]
        · simp only [ej, if_false, ne_eq, not_false_eq_true, and_true]; exact h.c2iMem j
      · simp only [mid, f, map_priority_update, mem_filter_ne]
        by_cases ej : j = id
        · simp [ej]
        · simp only [ej, if_false, ne_eq, not_false_eq_true, and_true]; exact h.bulkMem j
      · refine (h.sorted.filter _).imp_of_mem fun {a b} ha hb hab => ?_
        have hq : ∀ x, x ≠ id → DrrScheduler.queuedPriority f x = DrrScheduler.queuedPriority t.sched.streams x :=
          fun x hx => queuedPriority_congr (by simp [f, hx])
        simp only [Before, mid, hq a (mem_filter_ne.mp ha).2, hq b (mem_filter_ne.mp hb).2]
        exact hab
      · exact Nat.lt_succ_of_lt (h.past j (mem_filter_ne.mp hj).1)
    refine hmid.of_shape ?_ rfl (Nat.le_refl _)
    cases hs : e.priority.isStrict with
    | true =>
      have : (t.apply (.deregister id)).sched = mid.sched := by
        simp [apply, DrrScheduler.apply, DrrScheduler.deregister, he, hs, mid, f, filter_ne_self (h.of_strict he hs).2]
      rw [this]
      exact .refl _
    | false =>
      have : (t.apply (.deregister id)).sched = DrrScheduler.rebalance mid.sched := by
        simp [apply, DrrScheduler.apply, DrrScheduler.deregister, he, hs, mid, f, filter_ne_self (h.of_bulk he hs).1]
      rw [this]
      exact DrrScheduler.rebalance_shape _

/-! ## Runs -/

/-- The call does not register an id that is registered. -/
def Fresh (t : Traced) : Op → Prop
  | .register id _ => t.sched.streams id = none
  | _ => True

theorem apply_tables {t : Traced} (h : Tables t) {op : Op} (hf : Fresh t op) : Tables (t.apply op) := by
  cases op with
  | register id p =>
    cases hs : p.isStrict with
    | true => exact register_strict h hf hs
    | false => exact register_bulk h hf hs
  | deregister id => exact deregister_tables h id
  | setQuantum id q => exact h.of_shape (DrrScheduler.modify_shape _ _ _ fun _ => rfl) rfl (Nat.le_succ _)
  | setBacklog id n => exact h.of_shape (DrrScheduler.modify_shape _ _ _ fun _ => rfl) rfl (Nat.le_succ _)
  | schedule budget order => exact h.of_shape (DrrScheduler.schedule_shape _ _ _) rfl (Nat.le_succ _)

/-- However the queues stood, after `register id` the id is in them once more. -/
theorem register_count (s : DrrScheduler) (id : Uuid) (p : Priority) :
    (s.register id p).c2iQueue.count id + (s.register id p).bulkOrder.count id =
      s.c2iQueue.count id + s.bulkOrder.count id + 1 := by
  unfold DrrScheduler.register
  cases hs : p.isStrict with
  | true =>
    simp only [if_true, (insert_perm _ id s.c2iQueue).count_eq, List.count_cons_self]
    omega
  | false =>
    simp only [Bool.false_eq_true, if_false, DrrScheduler.rebalance, List.count_append, List.count_singleton_self]
    omega

theorem register_isSome (s : DrrScheduler) (id : Uuid) (p : Priority) : ((s.register id p).streams id).isSome := by
  unfold DrrScheduler.register
  cases hs : p.isStrict with
  | true => simp
  | false => simp [DrrScheduler.rebalance]

theorem Consistent.count {t : Traced} (h : Consistent t) {id : Uuid} (hr : (t.sched.streams id).isSome) :
    t.sched.c2iQueue.count id + t.sched.bulkOrder.count id = 1 := by
  obtain ⟨e, he⟩ := Option.isSome_iff_exists.mp hr
  have := h.once id e he
  split at this <;> omega

theorem fresh_of_consistent {t : Traced} {op : Op} (h : Consistent t) (h' : Consistent (t.apply op)) : Fresh t op := by
  cases op with
  | register id p =>
    by_contra hn
    have h1 := h.count (Option.isSome_iff_ne_none.mpr hn)
    have h2 := h'.count (register_isSome t.sched id p)
    have h3 := register_count t.sched id p
    simp only [apply, DrrScheduler.apply] at h2
    omega
  | _ => trivial

/-- Along any sequence of calls, the tables are consistent after every call exactly
    when no call registers an id that is registered. -/
theorem consistent_iff_fresh (ops : List Op) :
    (∀ pre, pre <+: ops → Consistent (run pre)) ↔ ∀ pre op, pre ++ [op] <+: ops → Fresh (run pre) op := by
  constructor
  · intro h pre op hp
    have h1 := h pre (List.IsPrefix.trans (List.prefix_append pre [op]) hp)
    have h2 := h (pre ++ [op]) hp
    rw [run_concat] at h2
    exact fresh_of_consistent h1 h2
  · intro h pre hp
    suffices Tables (run pre) from this.consistent
    induction pre using List.reverseRecOn with
    | nil => exact tables_start
    | append_singleton pre op ih =>
      rw [run_concat]
      exact apply_tables (ih (List.IsPrefix.trans (List.prefix_append pre [op]) hp)) (h pre op hp)

/-- A bulk stream registered again as strict and then deregistered leaves its id in the
    bulk deque, and the next call that reaches bulk streams fails. -/
theorem duplicate_register_breaks_schedule :
    let a : Uuid := ⟨1⟩
    let ops := [Op.register a .bulkPriorityMin, .register a .c2iPriorityMin, .deregister a]
    ¬ Consistent (run ops) ∧ (run ops).sched.bulkOrder = [a] ∧ (run ops).sched.streams a = none ∧
      ((run ops).sched.schedule 1 .inserted).2 = .error (.streamNotFound a) := by
  intro a ops
  have hfail : ((run ops).sched.schedule 1 .inserted).2 = .error (.streamNotFound a) := by decide +kernel
  exact ⟨fun h => h.found 1 .inserted a hfail, by decide +kernel, by decide +kernel, hfail⟩

end Traced

/-! ## Which ids are registered -/

namespace DrrScheduler

open Traced

theorem isSome_rebalance (s : DrrScheduler) (j : Uuid) : (s.rebalance.streams j).isSome = (s.streams j).isSome :=
  (rebalance_shape s).isSome j

theorem isSome_register (s : DrrScheduler) (id : Uuid) (p : Priority) (j : Uuid) :
    ((s.register id p).streams j).isSome = (decide (j = id) || (s.streams j).isSome) := by
  have hupdate : ∀ e : StreamEntry, (Function.update s.streams id (some e) j).isSome =
      (decide (j = id) || (s.streams j).isSome) := by
    intro e
    by_cases h : j = id
    · subst h; simp
    · simp [h]
  unfold register
  simp only
  split
  · exact hupdate _
  · rw [isSome_rebalance]
    exact hupdate _

theorem isSome_deregister (s : DrrScheduler) (id j : Uuid) :
    ((s.deregister id).streams j).isSome = (!decide (j = id) && (s.streams j).isSome) := by
  have hupdate : (Function.update s.streams id none j).isSome = (!decide (j = id) && (s.streams j).isSome) := by
    by_cases h : j = id
    · subst h; simp
    · simp [h]
  unfold deregister
  split
  · rename_i hn
    by_cases h : j = id
    · subst h; simp [hn]
    · simp [h]
  · simp only
    split
    · exact hupdate
    · rw [isSome_rebalance]
      exact hupdate

theorem isSome_deregisters (ids : List Uuid) (s : DrrScheduler) (j : Uuid) :
    ((ids.foldl (·.deregister) s).streams j).isSome = (!ids.contains j && (s.streams j).isSome) := by
  induction ids generalizing s with
  | nil => simp
  | cons id ids ih =>
    rw [List.foldl_cons, ih, isSome_deregister]
    by_cases h : j = id
    · subst h; simp
    · simp [h]

/-- The tables are consistent, at some times of registration. -/
def Sound (s : DrrScheduler) : Prop := ∃ t : Traced, t.sched = s ∧ t.Tables

theorem Sound.of_shape {s s' : DrrScheduler} (h : Sound s) (hs : SameShape s s') : Sound s' := by
  obtain ⟨t, rfl, ht⟩ := h
  exact ⟨⟨s', t.clock, t.registeredAt⟩, rfl, ht.of_shape hs rfl (Nat.le_refl _)⟩

theorem Sound.register {s : DrrScheduler} (h : Sound s) {id : Uuid} (hn : s.streams id = none) (p : Priority) :
    Sound (s.register id p) := by
  obtain ⟨t, rfl, ht⟩ := h
  exact ⟨t.apply (.register id p), rfl, Traced.apply_tables ht hn⟩

theorem Sound.deregister {s : DrrScheduler} (h : Sound s) (id : Uuid) : Sound (s.deregister id) := by
  obtain ⟨t, rfl, ht⟩ := h
  exact ⟨t.apply (.deregister id), rfl, Traced.deregister_tables ht id⟩

theorem Sound.deregisters {s : DrrScheduler} (h : Sound s) (ids : List Uuid) : Sound (ids.foldl (·.deregister) s) := by
  induction ids generalizing s with
  | nil => exact h
  | cons id ids ih => exact ih (h.deregister id)

/-- The id has an entry, and is in a queue. -/
def Lists (s : DrrScheduler) (u : Uuid) : Prop := (s.streams u).isSome ∧ (u ∈ s.c2iQueue ∨ u ∈ s.bulkOrder)

theorem Sound.lists {s : DrrScheduler} (h : Sound s) {u : Uuid} (hu : (s.streams u).isSome) : s.Lists u := by
  obtain ⟨t, rfl, ht⟩ := h
  obtain ⟨e, he⟩ := Option.isSome_iff_exists.mp hu
  refine ⟨hu, ?_⟩
  cases hs : e.priority.isStrict with
  | true => exact .inl (ht.of_strict he hs).1
  | false => exact .inr (ht.of_bulk he hs).2

/-- The ids of both queues. -/
def queued (s : DrrScheduler) : List Uuid := s.c2iQueue ++ s.bulkOrder

theorem Sound.nodup_queued {s : DrrScheduler} (h : Sound s) : s.queued.Nodup := by
  obtain ⟨t, rfl, ht⟩ := h
  refine List.nodup_append.mpr ⟨ht.c2iNodup, ht.bulkNodup, ?_⟩
  rintro u hc v hb rfl
  obtain ⟨p, hp, hs⟩ := (ht.c2iMem u).mp hc
  obtain ⟨q, hq, hs'⟩ := (ht.bulkMem u).mp hb
  rw [hp] at hq
  cases hq
  rw [hs] at hs'
  cases hs'

theorem Sound.mem_queued {s : DrrScheduler} (h : Sound s) {u : Uuid} : u ∈ s.queued ↔ (s.streams u).isSome = true := by
  constructor
  · obtain ⟨t, rfl, ht⟩ := h
    intro hu
    rcases List.mem_append.mp hu with hu | hu
    · obtain ⟨p, hp, _⟩ := (ht.c2iMem u).mp hu
      obtain ⟨e, he, _⟩ := Option.map_eq_some_iff.mp hp
      simp [he]
    · obtain ⟨p, hp, _⟩ := (ht.bulkMem u).mp hu
      obtain ⟨e, he, _⟩ := Option.map_eq_some_iff.mp hp
      simp [he]
  · intro hu
    exact List.mem_append.mpr (h.lists hu).2

/-- Each call of `register` makes one of the queues longer. -/
theorem length_queued_register (s : DrrScheduler) (id : Uuid) (p : Priority) :
    (s.register id p).queued.length = s.queued.length + 1 := by
  unfold register queued
  split
  · simp only [List.length_append]
    rw [List.length_insertIdx_of_le_length List.findIdx_le_length]
    omega
  · simp only [rebalance, List.length_append, List.length_singleton]
    omega

end DrrScheduler

end Quelay.Domain
