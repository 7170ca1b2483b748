/-
  Quelay.Agent.RateCeiling — the ticket bytes that windows of consecutive ticks deliver.

  The deduction at the end of a tick takes the wire bytes off the budget and adds the
  undelivered bytes back, but the undelivered bytes were never taken off: unless the
  wire counter moved by the whole budget, the carry is the budget that was not on the
  wire plus the budget that was not delivered (`undelivered_counted_twice`). A tick for
  which this makes no difference either finds the wire counter that far ahead, or
  leaves a whole interval undelivered, which the clamp at two intervals would cap
  anyway (`countsOnce`). When every tick is like that, what may still be spent is the
  carry up to one interval, and no window of `k` ticks delivers more than `k + 1`
  intervals' budget.
-/

import Quelay.Agent.AggregateRateLimiter
import Quelay.Lib.Windows

namespace Quelay.Agent

open Quelay.Domain Quelay.Lib

/-- The deduction makes the same carry as taking the delivered bytes off the budget
    would, once the next tick has clamped it. -/
def countsOnce (p : RateParams) (s : Limiter) : LimiterAct → Bool
  | .deduct wireNow =>
    match s.pc with
    | .deliver _ _ delivered _ =>
      s.availableBudget ≤ wireNow - s.wireBaseline || delivered + p.budgetBytes ≤ s.availableBudget
    | _ => true
  | _ => true

/-- During a tick: the budget is what was spendable and one interval more, and pays for
    what is delivered and what is still to be. -/
structure InTick (perTick available delivered rest : Nat) (log : List Nat) : Prop where
  past : Bounded perTick log
  carried : Spendable perTick log (available - perTick)
  least : perTick ≤ available
  most : available ≤ perTick * 2
  covered : delivered + rest ≤ available

/-- Between ticks: the carry is spendable, up to one interval. -/
structure BetweenTicks (perTick available : Nat) (log : List Nat) : Prop where
  past : Bounded perTick log
  carried : Spendable perTick log (min available perTick)

def Budgeted (p : RateParams) (s : Limiter) : Prop :=
  match s.pc with
  | .schedule _ => ∃ log, s.spent = 0 :: log ∧ InTick p.budgetBytes s.availableBudget 0 0 log
  | .deliver _ allocs delivered _ =>
    ∃ log, s.spent = delivered :: log ∧ InTick p.budgetBytes s.availableBudget delivered (allocSum allocs) log
  | _ => BetweenTicks p.budgetBytes s.availableBudget s.spent

theorem accumulate_eq (p : RateParams) (available : Nat) :
    accumulate p.budgetBytes available = min available p.budgetBytes + p.budgetBytes := by
  have := p.carryFits
  unfold accumulate saturatingAdd
  omega

theorem BetweenTicks.start {p : RateParams} {available : Nat} {log : List Nat}
    (h : BetweenTicks p.budgetBytes available log) :
    InTick p.budgetBytes (accumulate p.budgetBytes available) 0 0 log := by
  rw [accumulate_eq]
  refine ⟨h.past, ?_, by omega, by omega, by omega⟩
  simpa using h.carried

/-- A tick that leaves at most what it did not deliver, up to one interval. -/
theorem InTick.finish {perTick available delivered rest carry : Nat} {log : List Nat}
    (h : InTick perTick available delivered rest log) (hc : delivered + min carry perTick ≤ available) :
    BetweenTicks perTick carry (delivered :: log) := by
  have hnext : Spendable perTick (delivered :: log) (min carry perTick) := by
    refine h.carried.next ?_ (by omega)
    have := h.least
    omega
  exact ⟨hnext.bounded h.past, hnext⟩

theorem InTick.bounded {perTick available delivered rest : Nat} {log : List Nat}
    (h : InTick perTick available delivered rest log) : Bounded perTick (delivered :: log) := by
  have hcov := h.covered
  have hzero : delivered + min 0 perTick ≤ available := by omega
  exact (h.finish hzero).past

theorem InTick.skip {perTick available delivered n rest : Nat} {log : List Nat}
    (h : InTick perTick available delivered (n + rest) log) : InTick perTick available delivered rest log := by
  refine ⟨h.past, h.carried, h.least, h.most, ?_⟩
  have := h.covered
  omega

theorem deduct_le {perTick available wireDelta delivered : Nat} (hd : delivered ≤ available)
    (h : available ≤ wireDelta ∨ delivered + perTick ≤ available) :
    delivered + min (deduct available wireDelta delivered) perTick ≤ available := by
  unfold deduct saturatingAdd
  omega

theorem step_budgeted {p : RateParams} {s s' : Limiter} {a : LimiterAct} (hi : Budgeted p s) (hok : countsOnce p s a)
    (h : Limiter.step p s a = some s') : Budgeted p s' := by
  cases Limiter.step_cases h with
  | registerScheduler | registerStreams | deregisterScheduler | deregisterStreams | storeOffsets | setSession => exact hi
  | tick hpc =>
    simp only [Budgeted, hpc] at hi ⊢
    exact ⟨_, rfl, hi.start⟩
  | scheduleError hpc =>
    simp only [Budgeted, hpc] at hi
    obtain ⟨log, hlog, ht⟩ := hi
    simp only [Budgeted, hlog]
    exact ht.finish (by omega)
  | @schedule _ _ _ allocs hpc hrun =>
    simp only [Budgeted, hpc] at hi
    obtain ⟨log, hlog, ht⟩ := hi
    have hsum : allocSum allocs ≤ s.availableBudget := DrrScheduler.schedule_sum_le (by rw [hrun])
    simp only [Budgeted, hlog]
    exact ⟨log, rfl, ht.past, ht.carried, ht.least, ht.most, by omega⟩
  | skip hpc | gone hpc =>
    simp only [Budgeted, hpc, allocSum_cons] at hi
    obtain ⟨log, hlog, ht⟩ := hi
    exact ⟨log, hlog, ht.skip⟩
  | @sent _ _ bytes _ delivered _ hpc =>
    simp only [Budgeted, hpc, allocSum_cons] at hi
    obtain ⟨log, hlog, ht⟩ := hi
    -- The budget fits its type, so the count of delivered bytes does not saturate.
    have hadd : saturatingAdd delivered bytes = delivered + bytes := by
      have := ht.covered
      have := ht.most
      have := p.carryFits
      unfold saturatingAdd
      omega
    simp only [Budgeted, hlog, hadd, spend]
    refine ⟨log, rfl, ht.past, ht.carried, ht.least, ht.most, ?_⟩
    have := ht.covered
    omega
  | @deduct wireNow _ delivered closed hpc =>
    simp only [countsOnce, hpc, Bool.or_eq_true, decide_eq_true_eq] at hok
    simp only [Budgeted, hpc] at hi
    obtain ⟨log, hlog, ht⟩ := hi
    have hb : BetweenTicks p.budgetBytes (deduct s.availableBudget (wireNow - s.wireBaseline) delivered) s.spent := by
      rw [hlog]
      have := ht.covered
      exact ht.finish (deduct_le (by omega) hok)
    by_cases hc : closed = []
    · simpa only [Budgeted, if_pos hc] using hb
    · simpa only [Budgeted, if_neg hc] using hb
  | cleanStreams hpc | cleanScheduler hpc => simpa only [Budgeted, hpc] using hi

theorem new_budgeted (p : RateParams) : Budgeted p .new := by
  refine ⟨bounded_nil _, ?_⟩
  exact spendable_nil (by omega)

theorem Budgeted.bounded {p : RateParams} {s : Limiter} (h : Budgeted p s) : Bounded p.budgetBytes s.spent := by
  unfold Budgeted at h
  split at h
  · obtain ⟨log, hlog, ht⟩ := h
    rw [hlog]
    exact ht.bounded
  · obtain ⟨log, hlog, ht⟩ := h
    rw [hlog]
    exact ht.bounded
  · exact h.past

/-- In every run in which no deduction counts a byte twice, `k` consecutive ticks
    deliver at most `k + 2` intervals' budget. -/
theorem ticks_within_ceiling {p : RateParams} {s : Limiter} (h : Reach (Limiter.step p) (countsOnce p · ·) .new s)
    {window : List Nat} (hw : window <:+: s.spent) : window.sum ≤ (window.length + 2) * p.budgetBytes := by
  have hb : Budgeted p s := h.invariant (new_budgeted p) step_budgeted
  calc window.sum ≤ (window.length + 1) * p.budgetBytes := hb.bounded window hw
    _ ≤ (window.length + 2) * p.budgetBytes := Nat.mul_le_mul_right _ (by omega)

/-- A cap of 800 bits a second. -/
def tenBytes : RateParams := ⟨100, 10, by decide⟩

example : (RateParams.fromRateBps 800 (16 * 1024)).map (·.budgetBytes) = some tenBytes.budgetBytes := by decide

/-- One bulk stream with a thousand bytes to send. -/
def oneStream : List LimiterAct :=
  [.registerScheduler ⟨1⟩ .bulkPriorityMin, .registerStreams ⟨1⟩, .storeOffsets ⟨1⟩ 1000 0]

/-- A tick whose ticket the pump accepts, with the counter at `wireNow` after it. -/
def acceptedTick (wireNow : Nat) : List LimiterAct := [.tick, .schedule .inserted, .deliver .ok, .deduct wireNow]

/-- Two ticks with a wire counter that keeps up. -/
theorem two_ticks_within_ceiling :
    ∃ s, Reach (Limiter.step tenBytes) (countsOnce tenBytes · ·) .new s ∧ s.spent = [10, 10] ∧
      s.spent.sum ≤ (s.spent.length + 2) * tenBytes.budgetBytes := by
  obtain ⟨s, hr, hs⟩ := Reach.exists_run (Limiter.step tenBytes) (countsOnce tenBytes · ·) .new
    (oneStream ++ acceptedTick 10 ++ acceptedTick 20) (fun s => s.spent = [10, 10]) (by decide +kernel)
  exact ⟨s, hr, of_decide_eq_true hs, ticks_within_ceiling hr List.infix_rfl⟩

/-- One session, whose wire counter never decreases. -/
def wireCounter (s : Limiter) : LimiterAct → Bool
  | .deduct wireNow => s.wireBaseline ≤ wireNow
  | .setSession _ => false
  | _ => true

/-- A session that reports no wire bytes: every tick after the first delivers two
    intervals' budget, ninety bytes in five ticks. -/
theorem undelivered_counted_twice :
    ¬ ∀ (p : RateParams) (s : Limiter), Reach (Limiter.step p) (wireCounter · ·) .new s →
      ∀ window, window <:+: s.spent → window.sum ≤ (window.length + 2) * p.budgetBytes := by
  intro h
  obtain ⟨s, hr, hs⟩ := Reach.exists_run (Limiter.step tenBytes) (wireCounter · ·) .new
    (oneStream ++ (List.replicate 5 (acceptedTick 0)).flatten) (fun s => s.spent = [20, 20, 20, 20, 10])
    (by decide +kernel)
  have := h tenBytes s hr s.spent List.infix_rfl
  rw [of_decide_eq_true hs] at this
  exact absurd this (by decide)

end Quelay.Agent
