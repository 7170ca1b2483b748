/-
  Quelay.Domain.SchedulerBacklog — what a call allocates against what the streams have
  to send.

  A turn is cut by the stream's backlog, but the backlog is not lowered by what the
  turns before it in the same call were allocated: a stream that is visited again is
  offered its whole backlog once more (`short_backlog_overrun`). As long as no stream
  has been allocated more than it has, `k` turns have given it `worth k`, its carried
  deficit and `k` quanta, cut by its backlog (`Exact`). So a call stays within the
  backlogs exactly when the budget runs out before some stream takes a turn that its
  backlog no longer covers (`WithinBacklogs`), and then it also wastes nothing
  (`within_backlogs_iff`).
-/

import Mathlib.Algebra.Order.BigOperators.Group.List
import Mathlib.Algebra.Order.Group.Nat
import Quelay.Domain.SchedulerWork

namespace Quelay.Domain

/-! ## One stream's turns -/

namespace StreamEntry

/-- What the first `k` turns of a call give a stream that stays within its backlog. -/
def worth (e : StreamEntry) : Nat → Nat
  | 0 => 0
  | k + 1 => min e.backlog (e.deficit + (k + 1) * e.quantum)

/-- The deficit it carries after them. -/
def carried (e : StreamEntry) : Nat → Nat
  | 0 => e.deficit
  | k + 1 => if e.backlog = 0 then 0 else e.deficit + (k + 1) * e.quantum - e.worth (k + 1)

/-- What the next turn asks for. -/
def asks (e : StreamEntry) (k : Nat) : Nat := min (e.carried k + e.quantum) e.backlog

theorem worth_le (e : StreamEntry) (k : Nat) : e.worth k ≤ e.backlog := by
  cases k with
  | zero => exact Nat.zero_le _
  | succ k => exact Nat.min_le_left _ _

theorem worth_mono (e : StreamEntry) {j k : Nat} (h : j ≤ k) : e.worth j ≤ e.worth k := by
  cases j with
  | zero => exact Nat.zero_le _
  | succ j =>
    obtain ⟨k, rfl⟩ : ∃ m, k = m + 1 := ⟨k - 1, by omega⟩
    have hmul : (j + 1) * e.quantum ≤ (k + 1) * e.quantum := Nat.mul_le_mul_right _ h
    simp only [worth]
    omega

/-- The second turn on, the backlog has covered every turn so far. -/
def Covered (e : StreamEntry) (k : Nat) : Prop := 2 ≤ k → 0 < e.backlog → e.deficit + k * e.quantum ≤ e.backlog

/-- The backlog covers the next turn too. -/
def Covers (e : StreamEntry) (k : Nat) : Prop := k = 0 ∨ e.backlog = 0 ∨ e.deficit + (k + 1) * e.quantum ≤ e.backlog

theorem Covers.covered {e : StreamEntry} {k : Nat} (h : e.Covers k) : e.Covered (k + 1) := by
  intro hk hb
  rcases h with h | h | h
  · omega
  · omega
  · exact h

/-- A covered turn gives what it asks for, and leaves what it carries. -/
theorem worth_succ {e : StreamEntry} {k : Nat} (h : e.Covers k) (hc : e.Covered k) :
    e.worth k + e.asks k = e.worth (k + 1) ∧ (e.asks k = 0 → e.carried (k + 1) = 0) ∧
      (0 < e.asks k → e.carried (k + 1) = e.carried k + e.quantum - e.asks k) := by
  by_cases hb : e.backlog = 0
  · cases k with
    | zero => simp [worth, asks, carried, hb]
    | succ k => simp [worth, asks, carried, hb]
  · cases k with
    | zero =>
      simp only [worth, asks, carried, if_neg hb]
      omega
    | succ k =>
      have hle : e.deficit + (k + 1 + 1) * e.quantum ≤ e.backlog := by
        rcases h with h | h | h
        · omega
        · exact absurd h hb
        · exact h
      have hmul : (k + 1 + 1) * e.quantum = (k + 1) * e.quantum + e.quantum := Nat.succ_mul _ _
      simp only [worth, asks, carried, if_neg hb, hmul]
      omega

/-- A turn that is not covered asks for more than is left of the backlog. -/
theorem asks_over {e : StreamEntry} {k : Nat} (h : ¬ e.Covers k) (hc : e.Covered k) :
    e.backlog < e.worth k + e.asks k := by
  have hk : k ≠ 0 := fun h0 => h (.inl h0)
  have hb : e.backlog ≠ 0 := fun h0 => h (.inr (.inl h0))
  have hlt : e.backlog < e.deficit + (k + 1) * e.quantum := Nat.lt_of_not_le fun hle => h (.inr (.inr hle))
  obtain ⟨k, rfl⟩ := Nat.exists_eq_succ_of_ne_zero hk
  rw [Nat.succ_eq_add_one] at hc hlt ⊢
  have hmul : (k + 1 + 1) * e.quantum = (k + 1) * e.quantum + e.quantum := Nat.succ_mul _ _
  have hq : e.quantum ≤ (k + 1) * e.quantum := Nat.le_mul_of_pos_left _ (Nat.succ_pos k)
  simp only [worth, asks, carried, if_neg hb]
  by_cases hfit : e.deficit + (k + 1) * e.quantum ≤ e.backlog
  · omega
  · -- Only the first turn of a call may have left the deficit above the backlog.
    omega

end StreamEntry

namespace DrrScheduler

/-! ## Turns within the backlogs -/

/-- The stream, whose entry was `e`, has had `k` turns and stayed within its backlog. -/
structure Took (b : Bulk) (id : Uuid) (e : StreamEntry) (k : Nat) : Prop where
  entry : b.sched.streams id = some { e with deficit := e.carried k }
  alloc : allocOf b.allocs id = e.worth k
  covered : e.Covered k

/-- Between two turns of a call on `s`, no backlog passed so far: the streams `had`
    have had `k + 1` turns, the streams `due` have had `k`. -/
structure Exact (s : DrrScheduler) (k : Nat) (had due : List Uuid) (b : Bulk) : Prop where
  split : s.bulkOrder = had ++ due
  order : b.sched.bulkOrder = due ++ had
  ahead : ∀ id ∈ had, ∀ e, s.streams id = some e → Took b id e (k + 1)
  behind : ∀ id ∈ due, ∀ e, s.streams id = some e → Took b id e k

theorem exact_start (s : DrrScheduler) (left : Nat) : Exact s 0 [] s.bulkOrder ⟨s, left, []⟩ :=
  ⟨by simp, by simp, fun _ h => (List.not_mem_nil h).elim, fun _ _ _ he => ⟨he, rfl, fun h => by omega⟩⟩

/-- When everyone has had the turn, the next round starts. -/
theorem Exact.round {s : DrrScheduler} {k : Nat} {had : List Uuid} {b : Bulk} (h : Exact s k had [] b) :
    Exact s (k + 1) [] had b :=
  ⟨by simpa using h.split, by simpa using h.order, fun _ hm => (List.not_mem_nil hm).elim, h.ahead⟩

/-- What the front stream's turn does: it is given what it asks for, as far as the
    budget goes, and if its backlog covers that the next stream is due. -/
theorem exact_turn {s : DrrScheduler} {k : Nat} {had due : List Uuid} {id : Uuid} {e : StreamEntry} {b c : Bulk}
    {sent : Bool} (hn : s.bulkOrder.Nodup) (h : Exact s k had (id :: due) b) (he : s.streams id = some e)
    (ht : turn b = .ok (sent, c)) :
    allocOf c.allocs id = e.worth k + min b.budget (e.asks k) ∧
      (∀ j, j ≠ id → allocOf c.allocs j = allocOf b.allocs j) ∧ c.budget = b.budget - e.asks k ∧
      (e.asks k ≤ b.budget → e.Covers k → 0 < b.budget → Exact s k (had ++ [id]) due c) := by
  have htook := h.behind id List.mem_cons_self e he
  have horder : b.sched.bulkOrder = id :: (due ++ had) := by rw [h.order, List.cons_append]
  have hsend : turnSend b.budget { e with deficit := e.carried k } = min b.budget (e.asks k) := by
    simp only [turnSend, StreamEntry.asks]
    omega
  -- The streams that do not take the turn keep what they had.
  have hother : ∀ j e' m, j ≠ id → Took b j e' m → c.sched.streams j = b.sched.streams j →
      allocOf c.allocs j = allocOf b.allocs j → Took c j e' m := by
    intro j e' m _ hj hs ha
    exact ⟨hs.trans hj.entry, ha.trans hj.alloc, hj.covered⟩
  have hne : ∀ j, j ∈ had ∨ j ∈ due → j ≠ id := by
    intro j hj hid
    subst hid
    rw [h.split] at hn
    have hdis := List.nodup_append.mp hn
    rcases hj with hj | hj
    · exact hdis.2.2 j hj j List.mem_cons_self rfl
    · exact (List.nodup_cons.mp hdis.2.1).1 hj
  have hexact : c.sched.bulkOrder = (due ++ had) ++ [id] → Took c id e (k + 1) →
      (∀ j, j ≠ id → c.sched.streams j = b.sched.streams j ∧ allocOf c.allocs j = allocOf b.allocs j) →
      Exact s k (had ++ [id]) due c := by
    intro hord hid hrest
    refine ⟨by rw [h.split]; simp, by rw [hord]; simp, fun j hj e' he' => ?_, fun j hj e' he' => ?_⟩
    · rcases List.mem_append.mp hj with hj | hj
      · have hji := hne j (.inl hj)
        exact hother j e' _ hji (h.ahead j hj e' he') (hrest j hji).1 (hrest j hji).2
      · rw [List.mem_singleton] at hj
        subst hj
        cases he.symm.trans he'
        exact hid
    · have hji := hne j (.inr hj)
      exact hother j e' _ hji (h.behind j (List.mem_cons_of_mem _ hj) e' he') (hrest j hji).1 (hrest j hji).2
  rcases turn_cases ht with ⟨hnil, _, _⟩ | ⟨j, rest, e', ho', he', _, ⟨_, hp, rfl⟩ | ⟨_, hz, rfl⟩⟩
  · rw [horder] at hnil
    cases hnil
  · rw [horder] at ho'
    cases ho'
    cases htook.entry.symm.trans he'
    rw [hsend] at hp
    refine ⟨?_, fun j hj => ?_, ?_, fun hfit hcov hb => ?_⟩
    · simp only [hsend, allocOf_addAlloc, if_pos, htook.alloc]
    · simp only [allocOf_addAlloc, if_neg hj, Nat.add_zero]
    · simp only [hsend]
      omega
    · obtain ⟨hworth, _, hcarried⟩ := StreamEntry.worth_succ hcov htook.covered
      have hmin : min b.budget (e.asks k) = e.asks k := Nat.min_eq_right hfit
      rw [hmin] at hp
      refine hexact rfl ⟨?_, ?_, hcov.covered⟩ fun j hj => ⟨?_, ?_⟩
      · simp only [afterTurn, Function.update_self, hsend, hmin, hcarried hp]
      · simp only [hsend, hmin, allocOf_addAlloc, if_pos, htook.alloc, hworth]
      · simp only [afterTurn, Function.update_of_ne hj]
      · simp only [allocOf_addAlloc, if_neg hj, Nat.add_zero]
  · rw [horder] at ho'
    cases ho'
    cases htook.entry.symm.trans he'
    rw [hsend] at hz
    refine ⟨?_, fun j hj => rfl, ?_, fun hfit hcov hb => ?_⟩
    · rw [hz, Nat.add_zero]
      exact htook.alloc
    · show b.budget = b.budget - e.asks k
      omega
    · obtain ⟨hworth, hcarried, _⟩ := StreamEntry.worth_succ hcov htook.covered
      have hask : e.asks k = 0 := by omega
      refine hexact rfl ⟨?_, ?_, hcov.covered⟩ fun j hj => ⟨?_, rfl⟩
      · simp only [afterTurn, Function.update_self, hcarried hask]
      · rw [← hworth, hask, Nat.add_zero]
        exact htook.alloc
      · simp only [afterTurn, Function.update_of_ne hj]

/-! ## Sums over the round -/

theorem sum_ite_eq {ids : List Uuid} (hn : ids.Nodup) {id : Uuid} (h : id ∈ ids) (n : Nat) :
    (ids.map fun j => if id = j then n else 0).sum = n := by
  induction ids with
  | nil => cases h
  | cons i ids ih =>
    have hni := (List.nodup_cons.mp hn).1
    by_cases hi : id = i
    · subst hi
      have hzero : (ids.map fun j => if id = j then n else 0) = ids.map fun _ => 0 := by
        refine List.map_congr_left fun j hj => if_neg ?_
        intro hj'
        exact hni (hj' ▸ hj)
      simp [hzero]
    · have hin : id ∈ ids := (List.mem_cons.mp h).resolve_left hi
      rw [List.map_cons, List.sum_cons, if_neg hi, ih (List.nodup_cons.mp hn).2 hin, Nat.zero_add]

/-- The bytes of an allocation list, stream by stream. -/
theorem allocSum_eq_sum {ids : List Uuid} (hn : ids.Nodup) {l : List (Uuid × Nat)} (h : ∀ x ∈ l, x.1 ∈ ids) :
    allocSum l = (ids.map (allocOf l)).sum := by
  induction l with
  | nil =>
    have hzero : allocOf [] = fun _ => 0 := rfl
    simp [hzero]
  | cons x l ih =>
    have hfun : allocOf (x :: l) = fun j => (if x.1 = j then x.2 else 0) + allocOf l j := by
      funext j
      exact allocOf_cons x l j
    rw [allocSum_cons, hfun, List.sum_map_add, sum_ite_eq hn (h x List.mem_cons_self),
      ih fun y hy => h y (List.mem_cons_of_mem _ hy)]

/-- `worth` of a registered stream. -/
def worthOf (s : DrrScheduler) (k : Nat) (id : Uuid) : Nat :=
  match s.streams id with
  | none => 0
  | some e => e.worth k

def worthSum (s : DrrScheduler) (k : Nat) (ids : List Uuid) : Nat := (ids.map (s.worthOf k)).sum

theorem worthOf_some {s : DrrScheduler} {id : Uuid} {e : StreamEntry} (h : s.streams id = some e) (k : Nat) :
    s.worthOf k id = e.worth k := by
  simp [worthOf, h]

theorem worthOf_mono (s : DrrScheduler) {j k : Nat} (h : j ≤ k) (id : Uuid) : s.worthOf j id ≤ s.worthOf k id := by
  unfold worthOf
  split
  · exact Nat.le_refl _
  · exact StreamEntry.worth_mono _ h

/-- Nobody has had more than the turns taken so far are worth. -/
structure AtMost (s : DrrScheduler) (k : Nat) (had due : List Uuid) (a : Uuid → Nat) : Prop where
  ahead : ∀ id ∈ had, a id ≤ s.worthOf (k + 1) id
  behind : ∀ id ∈ due, a id ≤ s.worthOf k id

theorem sum_le_worthSum {s : DrrScheduler} {k : Nat} {ids : List Uuid} {a : Uuid → Nat}
    (h : ∀ id ∈ ids, a id ≤ s.worthOf k id) : (ids.map a).sum ≤ s.worthSum k ids :=
  List.sum_le_sum h

/-- While `id` has had at most `m + 1` turns (or is the last to have had `m + 2`), the
    streams before it are at `m + 2` turns or less and those behind it at `m + 1`. -/
theorem AtMost.sum_le {s : DrrScheduler} {k m n : Nat} {had due pre post : List Uuid} {id : Uuid} {a : Uuid → Nat}
    (h : AtMost s k had due a) (hsplit : had ++ due = pre ++ id :: post) (hid : a id ≤ n) (hk : k ≤ m + 1)
    (hlast : ∀ y, had = pre ++ id :: y → y = [] ∨ k ≤ m) :
    ((pre ++ id :: post).map a).sum ≤ s.worthSum (m + 2) pre + n + s.worthSum (m + 1) post := by
  have hparts : ((pre ++ id :: post).map a).sum = (pre.map a).sum + a id + (post.map a).sum := by
    rw [List.map_append, List.map_cons, List.sum_append, List.sum_cons, Nat.add_assoc]
  have hhad : ∀ j ∈ had, ∀ i, k + 1 ≤ i → a j ≤ s.worthOf i j :=
    fun j hj i hi => Nat.le_trans (h.ahead j hj) (s.worthOf_mono hi j)
  have hdue : ∀ j ∈ due, ∀ i, k ≤ i → a j ≤ s.worthOf i j :=
    fun j hj i hi => Nat.le_trans (h.behind j hj) (s.worthOf_mono hi j)
  have hboth : (∀ j ∈ pre, a j ≤ s.worthOf (m + 2) j) ∧ ∀ j ∈ post, a j ≤ s.worthOf (m + 1) j := by
    rcases List.append_eq_append_iff.mp hsplit with ⟨x, hpre, hdue'⟩ | ⟨y, hhad', hpost⟩
    · -- The stream is still due.
      subst hpre hdue'
      refine ⟨fun j hj => ?_, fun j hj => hdue j (by simp [hj]) _ hk⟩
      rcases List.mem_append.mp hj with hj | hj
      · exact hhad j hj _ (by omega)
      · exact hdue j (by simp [hj]) _ (by omega)
    · cases y with
      | nil =>
        simp only [List.append_nil, List.nil_append] at hhad' hpost
        subst hhad' hpost
        exact ⟨fun j hj => hhad j hj _ (by omega), fun j hj => hdue j (by simp [hj]) _ hk⟩
      | cons i y =>
        -- It has had its turn, and `y` after it.
        simp only [List.cons_append, List.cons.injEq] at hpost
        obtain ⟨rfl, rfl⟩ := hpost
        refine ⟨fun j hj => hhad j (by simp [hhad', hj]) _ (by omega), fun j hj => ?_⟩
        rcases List.mem_append.mp hj with hj | hj
        · rcases hlast y hhad' with rfl | hle
          · cases hj
          · exact hhad j (by simp [hhad', hj]) _ (by omega)
        · exact hdue j hj _ hk
  have h1 := sum_le_worthSum hboth.1
  have h2 := sum_le_worthSum hboth.2
  omega

theorem Exact.atMost {s : DrrScheduler} {k : Nat} {had due : List Uuid} {b : Bulk} (h : Exact s k had due b)
    (hk : s.Known s.bulkOrder) : AtMost s k had due (allocOf b.allocs) := by
  constructor
  · intro id hid
    obtain ⟨e, he⟩ := Option.isSome_iff_exists.mp (hk id (by simp [h.split, hid]))
    rw [worthOf_some he, (h.ahead id hid e he).alloc]
  · intro id hid
    obtain ⟨e, he⟩ := Option.isSome_iff_exists.mp (hk id (by simp [h.split, hid]))
    rw [worthOf_some he, (h.behind id hid e he).alloc]

/-- The front of the round, with the number of turns taken. -/
theorem Exact.front {s : DrrScheduler} {k : Nat} {had due : List Uuid} {b : Bulk} (h : Exact s k had due b)
    (hne : s.bulkOrder ≠ []) : ∃ k' had' id due', Exact s k' had' (id :: due') b ∧
      k' * s.bulkOrder.length + had'.length = k * s.bulkOrder.length + had.length := by
  cases due with
  | cons id due => exact ⟨k, had, id, due, h, rfl⟩
  | nil =>
    have hhad : s.bulkOrder = had := by simpa using h.split
    cases had with
    | nil => exact absurd hhad hne
    | cons id had =>
      refine ⟨k + 1, [], id, had, h.round, ?_⟩
      rw [Nat.add_mul, hhad]
      simp

/-! ## When the backlogs are kept -/

/-- The budget left for bulk streams runs out before some stream, `k + 1` turns taken,
    takes another that its backlog does not cover: what the streams before it are worth
    in `k + 2` turns, its backlog, and what the streams behind it are worth in `k + 1`
    turns use it up. -/
def WithinBacklogs (s : DrrScheduler) (budget : Nat) : Prop :=
  ∀ pre id post e k, s.bulkOrder = pre ++ id :: post → s.streams id = some e → 0 < e.backlog →
    e.backlog < e.deficit + (k + 2) * e.quantum →
    s.bulkBudget budget ≤ s.worthSum (k + 2) pre + e.backlog + s.worthSum (k + 1) post

/-- No bulk stream has been allocated more than its backlog. -/
def NoOverrun (s : DrrScheduler) (b : Bulk) : Prop :=
  ∀ id ∈ s.bulkOrder, ∀ e, s.streams id = some e → allocOf b.allocs id ≤ e.backlog

section Bulk

variable {s : DrrScheduler} {left n k : Nat} {b c : Bulk} {sent : Bool} {had due : List Uuid} {id : Uuid}

/-- What has been allocated, stream by stream, and what is left make up the budget. -/
theorem Turns.total (h : Turns ⟨s, left, []⟩ n b) (hn : s.bulkOrder.Nodup) :
    (s.bulkOrder.map (allocOf b.allocs)).sum + b.budget = left := by
  rw [← allocSum_eq_sum hn h.allocs_ids]
  have := h.sum
  simpa using this

theorem turn_alloc_mono (ht : turn b = .ok (sent, c)) (j : Uuid) : allocOf b.allocs j ≤ allocOf c.allocs j := by
  rcases turn_cases ht with ⟨_, _, rfl⟩ | ⟨id, rest, e, _, _, _, ⟨_, _, rfl⟩ | ⟨_, _, rfl⟩⟩
  · exact Nat.le_refl _
  · simp only [allocOf_addAlloc]
    omega
  · exact Nat.le_refl _

/-- The stream that took the last turn is also within what its turns are worth, if the
    turn did not pass its backlog. -/
theorem exact_turn_atMost (hn : s.bulkOrder.Nodup) (hk : s.Known s.bulkOrder) (h : Exact s k had (id :: due) b)
    (ht : turn b = .ok (sent, c)) (hover : s.NoOverrun c) : AtMost s k (had ++ [id]) due (allocOf c.allocs) := by
  have hin : id ∈ s.bulkOrder := by simp [h.split]
  obtain ⟨e, he⟩ := Option.isSome_iff_exists.mp (hk id hin)
  obtain ⟨halloc, hrest, -, -⟩ := exact_turn hn h he ht
  have hbound := h.atMost hk
  have hnd := hn
  rw [h.split] at hnd
  obtain ⟨_, hdue, hdis⟩ := List.nodup_append.mp hnd
  constructor
  · intro j hj
    rcases List.mem_append.mp hj with hj | hj
    · rw [hrest j (hdis j hj id List.mem_cons_self)]
      exact hbound.ahead j hj
    · rw [List.mem_singleton] at hj
      subst hj
      have htook := h.behind j List.mem_cons_self e he
      rw [worthOf_some he]
      by_cases hc : e.Covers k
      · have := (StreamEntry.worth_succ hc htook.covered).1
        omega
      · have hle := hover j hin e he
        have hlt : e.backlog < e.deficit + (k + 1) * e.quantum := Nat.lt_of_not_le fun hle => hc (.inr (.inr hle))
        simp only [StreamEntry.worth]
        omega
  · intro j hj
    have hne : j ≠ id := fun heq => (List.nodup_cons.mp hdue).1 (heq ▸ hj)
    rw [hrest j hne]
    exact hbound.behind j (List.mem_cons_of_mem _ hj)

/-- What is left of the budget is within the due stream's backlog, if its next turn is
    not covered. -/
theorem WithinBacklogs.left_le {budget : Nat} (hw : s.WithinBacklogs budget) (hn : s.bulkOrder.Nodup)
    (hk : s.Known s.bulkOrder) (hturns : Turns ⟨s, s.bulkBudget budget, []⟩ n b) (h : Exact s k had (id :: due) b)
    {e : StreamEntry} (he : s.streams id = some e) (hc : ¬ e.Covers k) : e.worth k + b.budget ≤ e.backlog := by
  have hk0 : k ≠ 0 := fun h0 => hc (.inl h0)
  have hb0 : e.backlog ≠ 0 := fun h0 => hc (.inr (.inl h0))
  have hlt : e.backlog < e.deficit + (k + 1) * e.quantum := Nat.lt_of_not_le fun hle => hc (.inr (.inr hle))
  obtain ⟨m, rfl⟩ : ∃ m, k = m + 1 := ⟨k - 1, by omega⟩
  have hroom : s.bulkBudget budget ≤ s.worthSum (m + 1 + 1) had + e.backlog + s.worthSum (m + 1) due :=
    hw had id due e m h.split he (by omega) hlt
  have htotal := hturns.total hn
  have hworth : ∀ {ids : List Uuid} {i : Nat}, (∀ j ∈ ids, ∀ e, s.streams j = some e → Took b j e i) →
      (∀ j ∈ ids, j ∈ s.bulkOrder) → (ids.map (allocOf b.allocs)).sum = s.worthSum i ids := by
    intro ids i htook hmem
    unfold worthSum
    congr 1
    refine List.map_congr_left fun j hj => ?_
    obtain ⟨ej, hej⟩ := Option.isSome_iff_exists.mp (hk j (hmem j hj))
    rw [worthOf_some hej]
    exact (htook j hj ej hej).alloc
  have hhad := hworth h.ahead fun j hj => by simp [h.split, hj]
  have hdue := hworth (fun j hj => h.behind j (List.mem_cons_of_mem _ hj)) fun j hj => by simp [h.split, hj]
  have hself := (h.behind id List.mem_cons_self e he).alloc
  rw [h.split, List.map_append, List.map_cons, List.sum_append, List.sum_cons, hhad, hdue, hself] at htotal
  omega

/-- If the budget stays within the backlogs, so does every turn. -/
theorem WithinBacklogs.noOverrun {budget : Nat} (hw : s.WithinBacklogs budget) (hn : s.bulkOrder.Nodup)
    (hk : s.Known s.bulkOrder) (h : Turns ⟨s, s.bulkBudget budget, []⟩ n b) :
    s.NoOverrun b ∧ (0 < b.budget → ∃ k had due, Exact s k had due b) := by
  induction h with
  | refl =>
    refine ⟨fun id _ e _ => ?_, fun _ => ⟨0, [], s.bulkOrder, exact_start s _⟩⟩
    show allocOf [] id ≤ e.backlog
    exact Nat.zero_le _
  | @step n b c sent hprev hb ht ih =>
    obtain ⟨hover, hexact⟩ := ih
    obtain ⟨k0, had0, due0, h0⟩ := hexact hb
    by_cases hne : s.bulkOrder = []
    · -- No stream, no turn.
      refine ⟨fun id hid => by simp [hne] at hid, fun _ => ⟨k0, had0, due0, ?_⟩⟩
      rcases turn_cases ht with ⟨_, _, rfl⟩ | ⟨id, rest, e, ho, _⟩
      · exact h0
      · have hperm := hprev.shape.bulk
        simp only [hne, ho] at hperm
        cases hperm.eq_nil
    · obtain ⟨k, had, id, due, h, -⟩ := h0.front hne
      obtain ⟨e, he⟩ := Option.isSome_iff_exists.mp (hk id (by simp [h.split]))
      obtain ⟨halloc, hrest, hbudget, hnext⟩ := exact_turn hn h he ht
      have htook := h.behind id List.mem_cons_self e he
      have hself : allocOf c.allocs id ≤ e.backlog ∧ (e.asks k ≤ b.budget → e.Covers k) := by
        by_cases hc : e.Covers k
        · have hsucc := (StreamEntry.worth_succ hc htook.covered).1
          have hle := e.worth_le (k + 1)
          exact ⟨by omega, fun _ => hc⟩
        · have hroom := hw.left_le hn hk hprev h he hc
          have hasks := StreamEntry.asks_over hc htook.covered
          exact ⟨by omega, fun hfit => by omega⟩
      refine ⟨fun j hj ej hej => ?_, fun hpos => ⟨k, had ++ [id], due, ?_⟩⟩
      · by_cases hji : j = id
        · subst hji
          cases he.symm.trans hej
          exact hself.1
        · rw [hrest j hji]
          exact hover j hj ej hej
      · exact hnext (by omega) (hself.2 (by omega)) hb

/-- A stream whose backlog covers `k` turns, `m + 2` not among them. -/
theorem turns_le_of_covered {e : StreamEntry} {k m : Nat} (hc : e.Covered k) (hb : 0 < e.backlog)
    (hlt : e.backlog < e.deficit + (m + 2) * e.quantum) : k ≤ m + 1 := by
  by_contra hk
  have hmul : (m + 2) * e.quantum ≤ k * e.quantum := Nat.mul_le_mul_right _ (by omega)
  have := hc (by omega) hb
  omega

/-- If the turns stay within the backlogs, so did the budget. -/
theorem withinBacklogs_of_noOverrun {budget : Nat} (hn : s.bulkOrder.Nodup) (hk : s.Known s.bulkOrder)
    (h : Turns ⟨s, s.bulkBudget budget, []⟩ n b)
    (hend : 0 < b.budget → 2 * s.bulkOrder.length ≤ n ∧ ∀ id ∈ s.bulkOrder, s.Spent id) (hover : s.NoOverrun b) :
    s.WithinBacklogs budget := by
  intro pre id post e m hsplit he hback hlt
  by_contra hroom
  have hin : id ∈ s.bulkOrder := by simp [hsplit]
  have hne : s.bulkOrder ≠ [] := List.ne_nil_of_mem hin
  -- The turns never get past the point where `id` would take the turn it cannot cover,
  -- and up to there the budget is not used up.
  have hall : 0 < b.budget ∧ ∃ k had due, Exact s k had due b ∧ n = k * s.bulkOrder.length + had.length := by
    clear hend
    induction h with
    | refl => exact ⟨by simp only; omega, 0, [], s.bulkOrder, exact_start s _, by simp⟩
    | @step n b c sent hprev hb ht ih =>
      have hbefore : s.NoOverrun b :=
        fun j hj ej hej => Nat.le_trans (turn_alloc_mono ht j) (hover j hj ej hej)
      obtain ⟨-, k0, had0, due0, h0, hcount⟩ := ih hbefore
      obtain ⟨k, had, j, due, hx, hsame⟩ := h0.front hne
      obtain ⟨ej, hej⟩ := Option.isSome_iff_exists.mp (hk j (by simp [hx.split]))
      obtain ⟨halloc, hrest, hbudget, hnext⟩ := exact_turn hn hx hej ht
      have htook := hx.behind j List.mem_cons_self ej hej
      -- How many turns `id` has had before this one.
      have hhad : id ∈ had → k ≤ m := by
        intro hm
        have := turns_le_of_covered (hx.ahead id hm e he).covered hback hlt
        omega
      have hkm : k ≤ m + 1 := by
        have hmem : id ∈ had ++ j :: due := hx.split ▸ hin
        rcases List.mem_append.mp hmem with hm | hm
        · have := hhad hm
          omega
        · exact turns_le_of_covered (hx.behind id hm e he).covered hback hlt
      have hsum : (s.bulkOrder.map (allocOf c.allocs)).sum ≤
          s.worthSum (m + 2) pre + e.backlog + s.worthSum (m + 1) post := by
        have hatMost := exact_turn_atMost hn hk hx ht hover
        rw [hsplit]
        refine hatMost.sum_le ?_ (hover id hin e he) hkm fun y hy => ?_
        · rw [← hsplit, hx.split]
          simp
        · rcases List.eq_nil_or_concat y with rfl | ⟨y', z, rfl⟩
          · exact .inl rfl
          · right
            apply hhad
            have hcut : had ++ [j] = (pre ++ id :: y') ++ [z] := by simpa using hy
            rw [(List.append_inj' hcut rfl).1]
            simp
      have htotal := (Turns.step hprev hb ht).total hn
      have hpos : 0 < c.budget := by omega
      refine ⟨hpos, k, had ++ [j], due, hnext (by omega) ?_ hb, ?_⟩
      · by_contra hc
        have hasks := StreamEntry.asks_over hc htook.covered
        have := hover j (by simp [hx.split]) ej hej
        omega
      · rw [List.length_append, List.length_singleton]
        omega
  obtain ⟨hpos, k, had, due, hx, hcount⟩ := hall
  obtain ⟨k', had', j, due', hx', hsame⟩ := hx.front hne
  obtain ⟨htwice, hspent⟩ := hend hpos
  -- Two rounds are over, and `id` has no quantum: the deficit covers a second turn.
  have hk2 : 2 ≤ k' := by
    have hlen : s.bulkOrder.length = had'.length + (due'.length + 1) := by
      have := congrArg List.length hx'.split
      simpa using this
    by_contra hsmall
    have hmul : k' * s.bulkOrder.length ≤ 1 * s.bulkOrder.length := Nat.mul_le_mul_right _ (by omega)
    omega
  have hquantum : e.quantum = 0 := (hspent id hin e he).resolve_left (by omega)
  have hle : e.deficit ≤ e.backlog := by
    have hmem : id ∈ had' ++ j :: due' := hx'.split ▸ hin
    rcases List.mem_append.mp hmem with hm | hm
    · have := (hx'.ahead id hm e he).covered (by omega) hback
      simpa [hquantum] using this
    · have := (hx'.behind id hm e he).covered hk2 hback
      simpa [hquantum] using this
  rw [hquantum, Nat.mul_zero] at hlt
  omega

end Bulk

/-! ## The whole call -/

def backlogOf (s : DrrScheduler) (id : Uuid) : Nat := ((s.streams id).map (·.backlog)).getD 0

/-- The backlogs of every registered stream. -/
def backlogSum (s : DrrScheduler) : Nat := ((s.c2iQueue ++ s.bulkOrder).map s.backlogOf).sum

structure BacklogsKept (s : DrrScheduler) (budget : Nat) (allocs : List (Uuid × Nat)) : Prop where
  within : ∀ id e, s.streams id = some e → allocOf allocs id ≤ e.backlog
  full : (∀ id e, s.streams id = some e → e.priority.isStrict = false ∧ 0 < e.quantum) →
    allocSum allocs = min budget s.backlogSum

theorem backlogOf_some {s : DrrScheduler} {id : Uuid} {e : StreamEntry} (h : s.streams id = some e) :
    s.backlogOf id = e.backlog := by
  simp [backlogOf, h]

section Call

open Traced

variable {t : Traced} {budget k : Nat} {order : HashOrder} {b : Bulk}

/-- A strict stream never gets more than its backlog, so the bulk turns decide. -/
theorem within_iff (ht : Tables t) (hb : Turns ⟨t.sched, t.sched.bulkBudget budget, []⟩ k b) :
    (∀ id e, t.sched.streams id = some e →
      allocOf (strictGrants t.sched.streams t.sched.c2iQueue budget ++ order.list b.allocs) id ≤ e.backlog) ↔
      t.sched.NoOverrun b := by
  constructor
  · intro h id hid e he
    have := h id e he
    rwa [allocOf_bulk ht hid] at this
  · intro h id e he
    cases hs : e.priority.isStrict with
    | true =>
      obtain ⟨pre, post, hq⟩ := List.append_of_mem (ht.of_strict he hs).1
      rw [allocOf_strict ht hb hq]
      simp only [strictNeed, he]
      omega
    | false =>
      have hin := (ht.of_bulk he hs).2
      rw [allocOf_bulk ht hin]
      exact h id hin e he

/-- Bulk streams with quanta use up the budget or have no backlog; within the backlogs
    that is the smaller of the two sums. -/
theorem full_of_within (ht : Tables t) (hb : Turns ⟨t.sched, t.sched.bulkBudget budget, []⟩ k b)
    (hend : 0 < b.budget → 2 * t.sched.bulkOrder.length ≤ k ∧ ∀ id ∈ t.sched.bulkOrder, t.sched.Spent id)
    (hover : t.sched.NoOverrun b)
    (hbulk : ∀ id e, t.sched.streams id = some e → e.priority.isStrict = false ∧ 0 < e.quantum) :
    allocSum (strictGrants t.sched.streams t.sched.c2iQueue budget ++ order.list b.allocs) =
      min budget t.sched.backlogSum := by
  have hnone : t.sched.c2iQueue = [] := by
    apply List.eq_nil_iff_forall_not_mem.mpr
    intro id hid
    obtain ⟨e, he⟩ := Option.isSome_iff_exists.mp (ht.known.1 id hid)
    exact (ht.of_bulk he (hbulk id e he).1).1 hid
  have hsum : allocSum (order.list b.allocs) + b.budget = budget := by
    have := hb.sum
    simp only [bulkBudget, hnone, strictNeeds_nil, allocSum_nil, Nat.sub_zero, Nat.zero_add] at this
    rw [allocSum_perm (order.perm b.allocs)]
    exact this
  have hle : allocSum (order.list b.allocs) ≤ t.sched.backlogSum := by
    rw [allocSum_perm (order.perm b.allocs), allocSum_eq_sum ht.bulkNodup hb.allocs_ids]
    simp only [backlogSum, hnone, List.nil_append]
    apply List.sum_le_sum
    intro id hid
    obtain ⟨e, he⟩ := Option.isSome_iff_exists.mp (ht.known.2 id hid)
    rw [backlogOf_some he]
    exact hover id hid e he
  have hgrants : strictGrants t.sched.streams t.sched.c2iQueue budget = [] := by
    rw [hnone]
    rfl
  rw [hgrants, List.nil_append]
  by_cases h0 : b.budget = 0
  · omega
  · -- Left over: nobody has anything to send.
    have hspent := (hend (by omega)).2
    have hzero : t.sched.backlogSum = 0 := by
      simp only [backlogSum, hnone, List.nil_append]
      apply List.sum_eq_zero
      intro x hx
      obtain ⟨id, hid, rfl⟩ := List.mem_map.mp hx
      obtain ⟨e, he⟩ := Option.isSome_iff_exists.mp (ht.known.2 id hid)
      have := (hbulk id e he).2
      rw [backlogOf_some he]
      exact (hspent id hid e he).resolve_right (by omega)
    omega

end Call

end DrrScheduler

namespace Traced

/-- In every state reached without registering a registered id, a call keeps the
    backlogs, and wastes no budget, exactly when the budget runs out in time. -/
theorem within_backlogs_iff (ops : List Op) (hf : FreshRun ops) (budget : Nat) (order : HashOrder)
    (allocs : List (Uuid × Nat)) (h : ((run ops).sched.schedule budget order).2 = .ok allocs) :
    (run ops).sched.BacklogsKept budget allocs ↔ (run ops).sched.WithinBacklogs budget := by
  have ht := hf.tables
  obtain ⟨k, b, hb, rfl, hend⟩ := DrrScheduler.schedule_turns ht.known.1 h
  constructor
  · intro hkept
    have hover := (DrrScheduler.within_iff ht hb).mp hkept.within
    exact DrrScheduler.withinBacklogs_of_noOverrun ht.bulkNodup ht.known.2 hb hend hover
  · intro hw
    have hover := (hw.noOverrun ht.bulkNodup ht.known.2 hb).1
    exact ⟨(DrrScheduler.within_iff ht hb).mpr hover, DrrScheduler.full_of_within ht hb hend hover⟩

/-- Two bulk streams with `n` bytes each. -/
def twoBulk (n : Nat) : List Op :=
  [.register ⟨1⟩ .bulkPriorityMin, .register ⟨2⟩ .bulkPriorityMin, .setBacklog ⟨1⟩ n, .setBacklog ⟨2⟩ n]

/-- A budget that one stream's backlog could use up is shared and used up. -/
theorem shared_budget_used_up :
    ((run (twoBulk 16384)).sched.schedule 16384 .inserted).2 = .ok [(⟨1⟩, 8192), (⟨2⟩, 8192)] ∧
      (run (twoBulk 16384)).sched.BacklogsKept 16384 [(⟨1⟩, 8192), (⟨2⟩, 8192)] := by
  have hok : ((run (twoBulk 16384)).sched.schedule 16384 .inserted).2 = .ok [(⟨1⟩, 8192), (⟨2⟩, 8192)] := by
    decide +kernel
  refine ⟨hok, (within_backlogs_iff (twoBulk 16384) (.of_check (by decide +kernel)) 16384 .inserted _ hok).mpr ?_⟩
  intro pre id post e k hsplit he _ _
  have hbacklog : ∀ j ∈ (run (twoBulk 16384)).sched.bulkOrder, (run (twoBulk 16384)).sched.backlogOf j = 16384 := by
    decide +kernel
  have hid : e.backlog = 16384 := by
    rw [← DrrScheduler.backlogOf_some he]
    exact hbacklog id (by simp [hsplit])
  have hleft : (run (twoBulk 16384)).sched.bulkBudget 16384 ≤ 16384 := Nat.sub_le _ _
  omega

/-- Ten bytes each, and a budget of forty: each stream is allocated its backlog twice. -/
theorem short_backlog_overrun :
    FreshRun (twoBulk 10) ∧ ((run (twoBulk 10)).sched.schedule 40 .inserted).2 = .ok [(⟨1⟩, 20), (⟨2⟩, 20)] ∧
      ¬ (run (twoBulk 10)).sched.BacklogsKept 40 [(⟨1⟩, 20), (⟨2⟩, 20)] := by
  refine ⟨.of_check (by decide +kernel), by decide +kernel, fun h => ?_⟩
  have := h.within ⟨1⟩ ⟨.bulkPriorityMin, 0, 4096, 10⟩ (by decide +kernel)
  revert this
  decide +kernel

end Traced

end Quelay.Domain
