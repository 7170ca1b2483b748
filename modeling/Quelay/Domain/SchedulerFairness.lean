/-
  Quelay.Domain.SchedulerFairness — how the bytes of continuously backlogged bulk
  streams compare over many calls of `schedule`.

  Bulk streams are registered into an empty scheduler; before each call every backlog
  is set to at least the call's budget. Every turn then sends, and a stream's bytes and
  its unspent deficit add up to its quantum times its turns (`FairBulk`). The turns are
  taken round-robin and differ by at most one, so the bytes differ by at most a quantum
  more than the deficits do.

  A turn that the budget cuts short keeps its unspent deficit and still loses its
  place. When the next budget cuts the same stream short again the deficits add up,
  without a bound, and a later large budget pays the whole of them to the stream it
  reaches first (`small_budgets_break_fairness`). As long as what is left of the budget
  when the first round reaches a stream covers the deficit the stream carries, no
  deficit passes a quantum and any two streams stay within two quanta
  (`bytes_within_two_quanta`).
-/

import Quelay.Domain.SchedulerBudget
import Quelay.Domain.SchedulerTables
import Quelay.Lib.RoundRobin

namespace Quelay.Domain

open Quelay.Lib

/-- Distinct ids, each with a priority below the strict ones. -/
structure BulkStreams where
  list : List (Uuid × Priority)
  nodup : (list.map (·.1)).Nodup
  bulk : ∀ x ∈ list, x.2.isStrict = false

def BulkStreams.ids (bs : BulkStreams) : List Uuid := bs.list.map (·.1)

/-- The streams registered, in order, into an empty scheduler. -/
def BulkStreams.registered (bs : BulkStreams) : DrrScheduler :=
  bs.list.foldl (fun s x => s.register x.1 x.2) .new

/-- A call before which every stream's backlog is set to at least the budget. -/
structure BackloggedCall (ids : List Uuid) where
  budget : Nat
  backlog : Uuid → Nat
  order : HashOrder
  full : ∀ id ∈ ids, budget ≤ backlog id

def allocated (r : Except SchedError (List (Uuid × Nat))) (id : Uuid) : Nat :=
  match r with
  | .ok l => allocOf l id
  | .error _ => 0

/-- The scheduler and the bytes allocated to each stream so far. -/
structure Ledger where
  sched : DrrScheduler
  sent : Uuid → Nat

namespace Ledger

def setBacklogs (s : DrrScheduler) (ids : List Uuid) (backlog : Uuid → Nat) : DrrScheduler :=
  ids.foldl (fun s id => s.setBacklog id (backlog id)) s

def call {ids : List Uuid} (g : Ledger) (c : BackloggedCall ids) : Ledger :=
  let r := (setBacklogs g.sched ids c.backlog).schedule c.budget c.order
  ⟨r.1, fun id => g.sent id + allocated r.2 id⟩

def run (bs : BulkStreams) (calls : List (BackloggedCall bs.ids)) : Ledger :=
  calls.foldl call ⟨bs.registered, fun _ => 0⟩

theorem run_concat (bs : BulkStreams) (calls : List (BackloggedCall bs.ids)) (c : BackloggedCall bs.ids) :
    run bs (calls ++ [c]) = (run bs calls).call c := by
  simp [run, List.foldl_append]

end Ledger

/-- Whenever the first round reaches a stream with budget left, that budget covers the
    deficit the stream carries from earlier calls. -/
def coversCarried (streams : Uuid → Option StreamEntry) : List Uuid → Nat → Bool
  | [], _ => true
  | id :: ids, budget =>
    match streams id with
    | none => true
    | some e => budget == 0 || (decide (e.deficit ≤ budget) && coversCarried streams ids (budget - (e.deficit + e.quantum)))

/-! ## One turn -/

/-- Between two turns: the deque is the streams, every stream still has at least the
    budget to send, bytes (`base` from earlier calls) and deficit make up its turns'
    quanta, and the turns are in round-robin order. -/
structure FairBulk (ids : List Uuid) (base turns : Uuid → Nat) (b : DrrScheduler.Bulk) : Prop where
  perm : b.sched.bulkOrder.Perm ids
  entry : ∀ id ∈ ids, ∃ e, b.sched.streams id = some e ∧ e.quantum = bulkQuantumBytes ∧ b.budget ≤ e.backlog ∧
    base id + allocOf b.allocs id + e.deficit = turns id * bulkQuantumBytes
  round : InRound turns b.sched.bulkOrder
  strict : b.sched.c2iQueue = []

/-- Every listed stream's deficit satisfies `P`. -/
def Deficits (s : DrrScheduler) (ids : List Uuid) (P : Nat → Prop) : Prop :=
  ∀ id ∈ ids, ∀ e, s.streams id = some e → P e.deficit

/-- The front stream, backlogged and with budget left, sends, rotates to the back, and
    keeps what the budget cut off. -/
theorem fair_turn {ids : List Uuid} {base turns : Uuid → Nat} {b : DrrScheduler.Bulk} (hn : ids.Nodup)
    (h : FairBulk ids base turns b) {id : Uuid} {rest : List Uuid} (ho : b.sched.bulkOrder = id :: rest)
    {e : StreamEntry} (he : b.sched.streams id = some e) (hd : e.deficit ≤ bulkQuantumBytes) (hb : 0 < b.budget) :
    ∃ b', DrrScheduler.turn b = .ok (true, b') ∧ b'.sched.bulkOrder = rest ++ [id] ∧
      b'.budget = b.budget - (e.deficit + bulkQuantumBytes) ∧
      b'.sched.streams = Function.update b.sched.streams id
        (some { e with deficit := e.deficit + bulkQuantumBytes - b.budget }) ∧
      FairBulk ids base (Function.update turns id (turns id + 1)) b' := by
  have hid : id ∈ ids := h.perm.mem_iff.mp (by simp [ho])
  obtain ⟨e', he', hq, hback, hsum⟩ := h.entry id hid
  cases he.symm.trans he'
  have hnr : id ∉ rest := by
    have := h.perm.nodup_iff.mpr hn
    rw [ho] at this
    exact (List.nodup_cons.mp this).1
  have hQ : bulkQuantumBytes = 4096 := rfl
  have hsend : DrrScheduler.turnSend b.budget e = min b.budget (e.deficit + bulkQuantumBytes) := by
    unfold DrrScheduler.turnSend
    rw [hq]
    omega
  have hturn : DrrScheduler.turn b = .ok (true,
      ⟨b.sched.afterTurn id rest e (e.deficit + e.quantum - DrrScheduler.turnSend b.budget e),
        b.budget - DrrScheduler.turnSend b.budget e,
        DrrScheduler.addAlloc b.allocs id (DrrScheduler.turnSend b.budget e)⟩) := by
    unfold DrrScheduler.turn
    rw [ho]
    simp only [he]
    rw [if_neg (by rw [hq]; omega), if_pos (by rw [hsend]; omega)]
  refine ⟨_, hturn, rfl, by simp only [hsend]; omega, ?_, ?_⟩
  · simp only [DrrScheduler.afterTurn, hsend, hq]
    congr 3
    omega
  · refine ⟨?_, fun j hj => ?_, ?_, h.strict⟩
    · exact (List.perm_append_singleton id rest).trans (ho ▸ h.perm)
    · simp only [DrrScheduler.afterTurn, allocOf_addAlloc]
      by_cases hji : j = id
      · subst hji
        have hle : b.budget - DrrScheduler.turnSend b.budget e ≤ e.backlog := by omega
        refine ⟨{ e with deficit := e.deficit + e.quantum - DrrScheduler.turnSend b.budget e },
          by simp, hq, hle, ?_⟩
        simp only [if_true, Function.update_self, Nat.add_mul, Nat.one_mul, hsend, hq]
        omega
      · obtain ⟨ej, hej, hqj, hbj, hsj⟩ := h.entry j hj
        have hle : b.budget - DrrScheduler.turnSend b.budget e ≤ ej.backlog := by omega
        refine ⟨ej, by simp [hji, hej], hqj, hle, ?_⟩
        simpa [hji, Function.update_of_ne hji] using hsj
    · exact InRound.rotate (ho ▸ h.round) hnr

/-- A stream's deficit after a turn that left budget over: it was all sent. -/
theorem deficit_after {d q budget : Nat} (h : 0 < budget - (d + q)) : d + q - budget = 0 := by omega

/-! ## One call -/

theorem coversCarried_update {streams : Uuid → Option StreamEntry} {id : Uuid} {e : Option StreamEntry} {ids : List Uuid}
    (h : id ∉ ids) (budget : Nat) :
    coversCarried (Function.update streams id e) ids budget = coversCarried streams ids budget := by
  induction ids generalizing budget with
  | nil => rfl
  | cons j ids ih =>
    have hj : j ≠ id := fun hjid => h (hjid ▸ List.mem_cons_self)
    simp only [coversCarried, Function.update_of_ne hj]
    split
    · rfl
    · rw [ih fun hm => h (List.mem_cons_of_mem _ hm)]

/-- Phase 1, from the streams `todo` still to be visited: no deficit passes a quantum,
    and if budget is left every deficit has been sent. -/
theorem mandatoryRound_fair {ids : List Uuid} (hn : ids.Nodup) {base : Uuid → Nat} :
    ∀ (todo visited : List Uuid) (turns : Uuid → Nat) (b : DrrScheduler.Bulk), FairBulk ids base turns b →
      b.sched.bulkOrder = todo ++ visited → Deficits b.sched ids (· ≤ bulkQuantumBytes) →
      (0 < b.budget → Deficits b.sched visited (· = 0)) → coversCarried b.sched.streams todo b.budget = true →
      ∃ turns', (DrrScheduler.mandatoryRound todo.length b).2 = .ok () ∧
        FairBulk ids base turns' (DrrScheduler.mandatoryRound todo.length b).1 ∧
        Deficits (DrrScheduler.mandatoryRound todo.length b).1.sched ids (· ≤ bulkQuantumBytes) ∧
        (0 < (DrrScheduler.mandatoryRound todo.length b).1.budget →
          Deficits (DrrScheduler.mandatoryRound todo.length b).1.sched ids (· = 0)) := by
  intro todo
  induction todo with
  | nil =>
    intro visited turns b h ho hd hz _
    refine ⟨turns, rfl, h, hd, fun hb id hid e he => hz hb id ?_ e he⟩
    have := h.perm.mem_iff.mpr hid
    rwa [ho, List.nil_append] at this
  | cons id todo ih =>
    intro visited turns b h ho hd hz hc
    simp only [List.length_cons, DrrScheduler.mandatoryRound]
    by_cases hb : b.budget = 0
    · rw [if_pos hb]
      exact ⟨turns, rfl, h, hd, fun hpos => by simp only at hpos; omega⟩
    · rw [if_neg hb]
      have hid : id ∈ ids := h.perm.mem_iff.mp (by simp [ho])
      obtain ⟨e, he, -⟩ := h.entry id hid
      have hde := hd id hid e he
      obtain ⟨b', ht, ho', hb', hs', h'⟩ := fair_turn hn h ho he hde (by omega)
      have hnd : (id :: (todo ++ visited)).Nodup := by
        have := h.perm.nodup_iff.mpr hn
        rwa [ho] at this
      have hnid : id ∉ todo ++ visited := (List.nodup_cons.mp hnd).1
      have hcov : e.deficit ≤ b.budget ∧
          coversCarried b.sched.streams todo (b.budget - (e.deficit + e.quantum)) = true := by
        simp only [coversCarried, he, Bool.or_eq_true, Bool.and_eq_true, beq_iff_eq, decide_eq_true_eq] at hc
        rcases hc with h0 | h1
        · exact absurd h0 hb
        · exact h1
      have hqe : e.quantum = bulkQuantumBytes := by
        obtain ⟨e', he', hq, -⟩ := h.entry id hid
        cases he.symm.trans he'
        exact hq
      rw [ht]
      refine ih (visited ++ [id]) _ b' h' (by simp [ho']) ?_ ?_ ?_
      · intro j hj ej hej
        rw [hs'] at hej
        by_cases hji : j = id
        · subst hji
          rw [Function.update_self] at hej
          cases hej
          simp only
          omega
        · rw [Function.update_of_ne hji] at hej
          exact hd j hj ej hej
      · intro hpos j hj ej hej
        rw [hb'] at hpos
        rw [hs'] at hej
        by_cases hji : j = id
        · subst hji
          rw [Function.update_self] at hej
          cases hej
          exact deficit_after hpos
        · rw [Function.update_of_ne hji] at hej
          rcases List.mem_append.mp hj with hj | hj
          · exact hz (by omega) j hj ej hej
          · exact absurd (List.mem_singleton.mp hj) hji
      · rw [hs', hb', coversCarried_update fun hm => hnid (List.mem_append_left _ hm), ← hqe]
        exact hcov.2

/-- Phase 2, from streams without deficits: each turn is cut by at most a quantum. -/
theorem extraTurns_fair {ids : List Uuid} (hn : ids.Nodup) {base : Uuid → Nat} {n : Nat} (hpos : 0 < n) :
    ∀ (k : Nat) (turns : Uuid → Nat) (b : DrrScheduler.Bulk), b.budget ≤ k → FairBulk ids base turns b →
      b.sched.bulkOrder ≠ [] → Deficits b.sched ids (· ≤ bulkQuantumBytes) →
      (0 < b.budget → Deficits b.sched ids (· = 0)) →
      ∃ turns', (DrrScheduler.extraTurns n 0 b).2 = .ok () ∧ FairBulk ids base turns' (DrrScheduler.extraTurns n 0 b).1 ∧
        Deficits (DrrScheduler.extraTurns n 0 b).1.sched ids (· ≤ bulkQuantumBytes) := by
  intro k
  induction k with
  | zero =>
    intro turns b hk h _ hd _
    rw [DrrScheduler.extraTurns, if_neg (by omega)]
    exact ⟨turns, rfl, h, hd⟩
  | succ k ih =>
    intro turns b hk h hne hd hz
    by_cases hb : b.budget = 0
    · rw [DrrScheduler.extraTurns, if_neg (by omega)]
      exact ⟨turns, rfl, h, hd⟩
    · obtain ⟨id, rest, ho⟩ := List.exists_cons_of_ne_nil hne
      have hid : id ∈ ids := h.perm.mem_iff.mp (by simp [ho])
      obtain ⟨e, he, -⟩ := h.entry id hid
      have hde : e.deficit = 0 := hz (by omega) id hid e he
      obtain ⟨b', ht, ho', hb', hs', h'⟩ := fair_turn hn h ho he (by omega) (by omega)
      have hQ : bulkQuantumBytes = 4096 := rfl
      have hstep : DrrScheduler.extraTurns n 0 b = DrrScheduler.extraTurns n 0 b' := by
        rw [DrrScheduler.extraTurns, if_pos ⟨by omega, hpos⟩]
        split
        · rename_i hx; rw [ht] at hx; cases hx
        · rename_i hx; rw [ht] at hx; cases hx; rfl
        · rename_i hx; rw [ht] at hx; cases hx
      rw [hstep]
      refine ih _ b' (by omega) h' (by simp [ho']) ?_ ?_
      · intro j hj ej hej
        rw [hs'] at hej
        by_cases hji : j = id
        · subst hji
          rw [Function.update_self] at hej
          cases hej
          simp only
          omega
        · rw [Function.update_of_ne hji] at hej
          exact hd j hj ej hej
      · intro hleft j hj ej hej
        rw [hb'] at hleft
        rw [hs'] at hej
        by_cases hji : j = id
        · subst hji
          rw [Function.update_self] at hej
          cases hej
          exact deficit_after hleft
        · rw [Function.update_of_ne hji] at hej
          exact hz (by omega) j hj ej hej

/-! ## Before and after a call -/

/-- Between two calls: the deque is the streams, each with the bulk quantum and a
    deficit of at most a quantum. -/
structure Fair (ids : List Uuid) (turns : Uuid → Nat) (g : Ledger) : Prop where
  perm : g.sched.bulkOrder.Perm ids
  entry : ∀ id ∈ ids, ∃ e, g.sched.streams id = some e ∧ e.quantum = bulkQuantumBytes ∧
    e.deficit ≤ bulkQuantumBytes ∧ g.sent id + e.deficit = turns id * bulkQuantumBytes
  round : InRound turns g.sched.bulkOrder
  strict : g.sched.c2iQueue = []

theorem Fair.within {ids : List Uuid} {turns : Uuid → Nat} {g : Ledger} (h : Fair ids turns g) {i j : Uuid}
    (hi : i ∈ ids) (hj : j ∈ ids) : g.sent i ≤ g.sent j + 2 * bulkQuantumBytes := by
  obtain ⟨ei, _, _, _, hsi⟩ := h.entry i hi
  obtain ⟨ej, _, _, hdj, hsj⟩ := h.entry j hj
  have hturns := h.round.le_succ (h.perm.mem_iff.mpr hi) (h.perm.mem_iff.mpr hj)
  have hmul : turns i * bulkQuantumBytes ≤ (turns j + 1) * bulkQuantumBytes := Nat.mul_le_mul_right _ hturns
  rw [Nat.add_mul, Nat.one_mul] at hmul
  omega

theorem registered_fair (bs : BulkStreams) : Fair bs.ids (fun _ => 0) ⟨bs.registered, fun _ => 0⟩ := by
  -- Registering goes on from any scheduler that holds the streams registered so far.
  have go : ∀ (l : List (Uuid × Priority)) (s : DrrScheduler), (∀ x ∈ l, x.2.isStrict = false) → s.c2iQueue = [] →
      (∀ id ∈ s.bulkOrder, ∃ e, s.streams id = some e ∧ e.quantum = bulkQuantumBytes ∧ e.deficit = 0) →
      (l.foldl (fun s x => s.register x.1 x.2) s).bulkOrder = s.bulkOrder ++ l.map (·.1) ∧
        (l.foldl (fun s x => s.register x.1 x.2) s).c2iQueue = [] ∧
        ∀ id ∈ s.bulkOrder ++ l.map (·.1), ∃ e, (l.foldl (fun s x => s.register x.1 x.2) s).streams id = some e ∧
          e.quantum = bulkQuantumBytes ∧ e.deficit = 0 := by
    intro l
    induction l with
    | nil => intro s _ hc he; exact ⟨by simp, hc, by simpa using he⟩
    | cons x l ih =>
      intro s hb hc he
      have hx : x.2.isStrict = false := hb x List.mem_cons_self
      have hreg : (s.register x.1 x.2).bulkOrder = s.bulkOrder ++ [x.1] ∧ (s.register x.1 x.2).c2iQueue = [] := by
        simp [DrrScheduler.register, hx, DrrScheduler.rebalance, hc]
      have hent : ∀ id ∈ (s.register x.1 x.2).bulkOrder, ∃ e, (s.register x.1 x.2).streams id = some e ∧
          e.quantum = bulkQuantumBytes ∧ e.deficit = 0 := by
        intro id hid
        rw [hreg.1] at hid
        simp only [DrrScheduler.register, hx, Bool.false_eq_true, if_false, DrrScheduler.rebalance, if_pos hid]
        by_cases hxi : id = x.1
        · subst hxi
          simp
        · rw [Function.update_of_ne hxi]
          rcases List.mem_append.mp hid with hid | hid
          · obtain ⟨e, hse, _, hd⟩ := he id hid
            exact ⟨{ e with quantum := bulkQuantumBytes }, by rw [hse]; rfl, rfl, hd⟩
          · exact absurd (List.mem_singleton.mp hid) hxi
      have := ih (s.register x.1 x.2) (fun y hy => hb y (List.mem_cons_of_mem _ hy)) hreg.2 hent
      simpa [hreg.1] using this
  obtain ⟨ho, hc, he⟩ := go bs.list .new bs.bulk rfl (fun id hid => by cases hid)
  simp only [DrrScheduler.new, List.nil_append] at ho hc he
  refine ⟨by rw [BulkStreams.registered, DrrScheduler.new, ho]; rfl, fun id hid => ?_, .zero _, hc⟩
  obtain ⟨e, hse, hq, hd⟩ := he id hid
  exact ⟨e, hse, hq, by simp [hd], by simp [hd]⟩

/-- Setting the backlogs changes nothing else. -/
theorem setBacklogs_spec (ids : List Uuid) (backlog : Uuid → Nat) (s : DrrScheduler) :
    (Ledger.setBacklogs s ids backlog).bulkOrder = s.bulkOrder ∧ (Ledger.setBacklogs s ids backlog).c2iQueue = s.c2iQueue ∧
      ∀ id, (Ledger.setBacklogs s ids backlog).streams id =
        (s.streams id).map fun e => if id ∈ ids then { e with backlog := backlog id } else e := by
  induction ids generalizing s with
  | nil => exact ⟨rfl, rfl, fun id => by simp [Ledger.setBacklogs]⟩
  | cons i ids ih =>
    obtain ⟨h1, h2, h3⟩ := ih (s.setBacklog i (backlog i))
    refine ⟨h1, h2, fun id => ?_⟩
    have := h3 id
    simp only [Ledger.setBacklogs, List.foldl_cons] at this ⊢
    rw [this]
    simp only [DrrScheduler.setBacklog, DrrScheduler.modify]
    by_cases hi : id = i
    · subst hi
      cases s.streams id <;> simp
    · simp [hi]

/-- `schedule` on a fair bulk state without strict streams, when the budget covers what
    the first round finds carried. -/
theorem schedule_fair {ids : List Uuid} (hn : ids.Nodup) {base turns : Uuid → Nat} {s : DrrScheduler} {budget : Nat}
    (order : HashOrder) (h : FairBulk ids base turns ⟨s, budget, []⟩) (hd : Deficits s ids (· ≤ bulkQuantumBytes))
    (hc : coversCarried s.streams s.bulkOrder budget = true) :
    ∃ turns', Fair ids turns'
      ⟨(s.schedule budget order).1, fun id => base id + allocated (s.schedule budget order).2 id⟩ := by
  have hs : s.c2iQueue = [] := h.strict
  have keep : Deficits s ids (· ≤ bulkQuantumBytes) → ∀ l : List (Uuid × Nat), l = [] →
      Fair ids turns ⟨s, fun id => base id + allocated (.ok l) id⟩ := by
    rintro hd _ rfl
    refine ⟨h.perm, fun id hid => ?_, h.round, hs⟩
    obtain ⟨e, he, hq, _, hsum⟩ := h.entry id hid
    exact ⟨e, he, hq, hd id hid e he, hsum⟩
  unfold DrrScheduler.schedule
  rw [hs]
  simp only [DrrScheduler.strictPhase]
  split
  · exact ⟨turns, keep hd [] rfl⟩
  · rename_i hne
    have hpos : 0 < s.bulkOrder.length := by omega
    obtain ⟨t1, hok1, hf1, hd1, hz1⟩ := mandatoryRound_fair hn s.bulkOrder [] turns ⟨s, budget, []⟩ h (by simp) hd
      (fun _ id hid => by cases hid) hc
    split
    · rename_i hm
      rw [hm] at hok1
      cases hok1
    · rename_i b _ hm
      rw [hm] at hf1 hd1 hz1
      have hne1 : b.sched.bulkOrder ≠ [] := by
        intro hnil
        have := hf1.perm.length_eq.trans h.perm.length_eq.symm
        simp only [hnil, List.length_nil] at this
        omega
      obtain ⟨t2, hok2, hf2, hd2⟩ := extraTurns_fair hn hpos b.budget t1 b (le_refl _) hf1 hne1 hd1 hz1
      split
      · rename_i hx
        rw [hx] at hok2
        cases hok2
      · rename_i b2 _ hx
        rw [hx] at hf2 hd2
        refine ⟨t2, hf2.perm, fun id hid => ?_, hf2.round, hf2.strict⟩
        obtain ⟨e, he, hq, _, hsum⟩ := hf2.entry id hid
        refine ⟨e, he, hq, hd2 id hid e he, ?_⟩
        simp only [allocated, List.nil_append, allocOf_perm (order.perm b2.allocs)]
        exact hsum

/-- Deficits and quanta decide what is covered; backlogs do not. -/
theorem coversCarried_congr {streams streams' : Uuid → Option StreamEntry}
    (h : ∀ id, (streams' id).map (fun e => (e.deficit, e.quantum)) = (streams id).map fun e => (e.deficit, e.quantum))
    (ids : List Uuid) (budget : Nat) : coversCarried streams' ids budget = coversCarried streams ids budget := by
  induction ids generalizing budget with
  | nil => rfl
  | cons id ids ih =>
    have hid := h id
    simp only [coversCarried]
    cases h1 : streams' id <;> cases h2 : streams id <;> simp [h1, h2] at hid ⊢
    rw [hid.1, hid.2, ih]

theorem call_fair {ids : List Uuid} (hn : ids.Nodup) {turns : Uuid → Nat} {g : Ledger} (h : Fair ids turns g)
    (c : BackloggedCall ids) (hc : coversCarried g.sched.streams g.sched.bulkOrder c.budget = true) :
    ∃ turns', Fair ids turns' (g.call c) := by
  obtain ⟨ho, hq, hs⟩ := setBacklogs_spec ids c.backlog g.sched
  have hbulk : FairBulk ids g.sent turns ⟨Ledger.setBacklogs g.sched ids c.backlog, c.budget, []⟩ := by
    refine ⟨by rw [ho]; exact h.perm, fun id hid => ?_, by rw [ho]; exact h.round, by rw [hq]; exact h.strict⟩
    obtain ⟨e, he, hqe, _, hsum⟩ := h.entry id hid
    exact ⟨{ e with backlog := c.backlog id }, by simp [hs, he, hid], hqe, c.full id hid, hsum⟩
  have hdef : Deficits (Ledger.setBacklogs g.sched ids c.backlog) ids (· ≤ bulkQuantumBytes) := by
    intro id hid e he
    obtain ⟨e', he', _, hd, _⟩ := h.entry id hid
    simp only [hs, he', Option.map_some, Option.some.injEq, if_pos hid] at he
    subst he
    exact hd
  have hsame : ∀ id, ((Ledger.setBacklogs g.sched ids c.backlog).streams id).map (fun e => (e.deficit, e.quantum)) =
      (g.sched.streams id).map fun e => (e.deficit, e.quantum) := by
    intro id
    rw [hs]
    cases g.sched.streams id with
    | none => rfl
    | some e => by_cases hid : id ∈ ids <;> simp [hid]
  exact schedule_fair hn c.order hbulk hdef (by rw [ho, coversCarried_congr hsame]; exact hc)

/-! ## Whole runs -/

/-- Each call's budget, in the state the call is made in, covers the carried deficits. -/
def CoveredRun (bs : BulkStreams) (calls : List (BackloggedCall bs.ids)) : Prop :=
  ∀ pre c post, calls = pre ++ c :: post →
    coversCarried (Ledger.run bs pre).sched.streams (Ledger.run bs pre).sched.bulkOrder c.budget = true

theorem run_fair (bs : BulkStreams) (calls : List (BackloggedCall bs.ids)) (hc : CoveredRun bs calls) :
    ∃ turns, Fair bs.ids turns (Ledger.run bs calls) := by
  induction calls using List.reverseRecOn with
  | nil => exact ⟨_, registered_fair bs⟩
  | append_singleton calls c ih =>
    have hpre : CoveredRun bs calls := by
      intro pre d post hd
      exact hc pre d (post ++ [c]) (by simp [hd])
    obtain ⟨turns, hf⟩ := ih hpre
    rw [Ledger.run_concat]
    exact call_fair bs.nodup hf c (hc calls c [] rfl)

/-- In every run whose budgets cover the carried deficits, the bytes of any two streams
    stay within two quanta. -/
theorem bytes_within_two_quanta (bs : BulkStreams) (calls : List (BackloggedCall bs.ids)) (hc : CoveredRun bs calls)
    {i j : Uuid} (hi : i ∈ bs.ids) (hj : j ∈ bs.ids) :
    (Ledger.run bs calls).sent i ≤ (Ledger.run bs calls).sent j + 2 * bulkQuantumBytes := by
  obtain ⟨turns, hf⟩ := run_fair bs calls hc
  exact hf.within hi hj

/-- Two bulk streams, the first with id 1, the second with id 2. -/
def twoStreams : BulkStreams where
  list := [(⟨1⟩, .bulkPriorityMin), (⟨2⟩, .bulkPriorityMin)]
  nodup := by decide
  bulk := by decide

/-- A call whose backlogs are all equal to the budget. -/
def callWith (bs : BulkStreams) (budget : Nat) : BackloggedCall bs.ids := ⟨budget, fun _ => budget, .inserted, fun _ _ => le_refl _⟩

/-- One round budget, then one that ends in the middle of a quantum. -/
theorem two_streams_within_two_quanta :
    (Ledger.run twoStreams [callWith twoStreams 8192, callWith twoStreams 5000]).sent ⟨1⟩ ≤
      (Ledger.run twoStreams [callWith twoStreams 8192, callWith twoStreams 5000]).sent ⟨2⟩ + 2 * bulkQuantumBytes := by
  refine bytes_within_two_quanta twoStreams _ ?_ (by decide) (by decide)
  intro pre c post h
  match pre, h with
  | [], h => cases h; decide +kernel
  | [_], h => cases h; decide +kernel
  | _ :: _ :: _, h => simp at h

/-- Six calls of one byte cut each stream short three times; the next call then pays
    the whole carried deficit to the stream it reaches first. -/
theorem small_budgets_break_fairness :
    ¬ ∀ (bs : BulkStreams) (calls : List (BackloggedCall bs.ids)) (i j : Uuid), i ∈ bs.ids → j ∈ bs.ids →
      (Ledger.run bs calls).sent i ≤ (Ledger.run bs calls).sent j + 2 * bulkQuantumBytes := by
  intro h
  have := h twoStreams (List.replicate 6 (callWith twoStreams 1) ++ [callWith twoStreams 16384]) ⟨1⟩ ⟨2⟩ (by decide) (by decide)
  exact absurd this (by decide +kernel)

end Quelay.Domain
