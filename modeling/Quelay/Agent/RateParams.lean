/-
  Quelay.Agent.RateParams — the timer parameters of every cap the `u64` can hold.

  The interval is the ideal one up to its clamp, and the budget is what the rate allows
  in it, rounded down. No product overflows: a rate for which the interval is above its
  minimum is small, and at the minimum five times an eighth of a `u64` fits. But the
  rate is divided by 8 first and the budget is rounded down: below 8 bits a second the
  ideal interval is a division by zero, and below 80 the budget of the longest interval
  is no byte at all (`slow_caps_unsound`). From 80 on everything is as it should be
  (`rate_params_sound_iff`), and the ticks keep to the rate (`ticks_within_rate`).
-/

import Quelay.Agent.RateCeiling
import Quelay.Agent.Spool

namespace Quelay.Agent

open Quelay.Domain Quelay.Lib

/-- The clamped interval for `r` bytes a second. -/
def intervalFor (r : Nat) : Nat := max minIntervalMs (min (chunksPerTick * chunkSize * 1000 / r) maxIntervalMs)

theorem intervalFor_bounds (r : Nat) : minIntervalMs ≤ intervalFor r ∧ intervalFor r ≤ maxIntervalMs := by
  unfold intervalFor minIntervalMs maxIntervalMs
  omega

/-- Up to 1310720 bytes a second the interval is the longest. -/
theorem intervalFor_slow {r : Nat} (h0 : 0 < r) (h : r ≤ 1310720) : intervalFor r = maxIntervalMs := by
  have hideal : 100 ≤ chunksPerTick * chunkSize * 1000 / r := by
    rw [Nat.le_div_iff_mul_le h0]
    show 100 * r ≤ 131072000
    omega
  unfold intervalFor minIntervalMs maxIntervalMs
  omega

/-- The bytes of an interval fit a `u64`. -/
theorem interval_fits {r : Nat} (h : 8 * r ≤ u64Max) : r * intervalFor r ≤ u64Max := by
  have hcases : intervalFor r ≤ 5 ∨ intervalFor r ≤ chunksPerTick * chunkSize * 1000 / r := by
    unfold intervalFor minIntervalMs maxIntervalMs
    omega
  rcases hcases with hint | hint
  · calc r * intervalFor r ≤ r * 5 := Nat.mul_le_mul_left _ hint
      _ ≤ 8 * r := by omega
      _ ≤ u64Max := h
  · calc r * intervalFor r ≤ r * (chunksPerTick * chunkSize * 1000 / r) := Nat.mul_le_mul_left _ hint
      _ ≤ chunksPerTick * chunkSize * 1000 := Nat.mul_div_le _ _
      _ ≤ u64Max := by decide

theorem fromRateBps_none {rateBps : Nat} (h : rateBps < 8) : RateParams.fromRateBps rateBps chunkSize = none := by
  have hr : rateBps / 8 = 0 := Nat.div_eq_of_lt h
  have hideal : mulU64 (chunksPerTick * chunkSize) 1000 = some (chunksPerTick * chunkSize * 1000) := by decide
  simp only [RateParams.fromRateBps, hideal, hr, if_true]

/-- From 8 bits a second on the function returns. -/
theorem fromRateBps_some {rateBps : Nat} (h : 8 ≤ rateBps) (hmax : rateBps ≤ u64Max) :
    ∃ p, RateParams.fromRateBps rateBps chunkSize = some p ∧ p.intervalMs = intervalFor (rateBps / 8) ∧
      p.budgetBytes = rateBps / 8 * intervalFor (rateBps / 8) / 1000 := by
  have hr : rateBps / 8 ≠ 0 := by omega
  have hideal : mulU64 (chunksPerTick * chunkSize) 1000 = some (chunksPerTick * chunkSize * 1000) := by decide
  have hfits : mulU64 (rateBps / 8) (intervalFor (rateBps / 8)) = some (rateBps / 8 * intervalFor (rateBps / 8)) :=
    if_pos (interval_fits (by omega))
  unfold intervalFor at hfits
  simp only [RateParams.fromRateBps, hideal, if_neg hr]
  split
  · rename_i hnone
    rw [hfits] at hnone
    cases hnone
  · rename_i bytes hsome
    rw [hfits] at hsome
    cases hsome
    exact ⟨_, rfl, rfl, rfl⟩

/-! ## Which caps are sound -/

/-- What the timer relies on, for a cap in bits a second. -/
structure RateParams.Sound (p : RateParams) (rateBps : Nat) : Prop where
  interval : minIntervalMs ≤ p.intervalMs ∧ p.intervalMs ≤ maxIntervalMs
  someByte : 1 ≤ p.budgetBytes
  notAbove : p.budgetBytes * 1000 ≤ rateBps / 8 * p.intervalMs
  notBelow : rateBps / 8 * p.intervalMs < (p.budgetBytes + 1) * 1000

theorem sound_iff_some_byte {p : RateParams} {rateBps : Nat} (hint : p.intervalMs = intervalFor (rateBps / 8))
    (hbudget : p.budgetBytes = rateBps / 8 * intervalFor (rateBps / 8) / 1000) :
    p.Sound rateBps ↔ 1000 ≤ rateBps / 8 * intervalFor (rateBps / 8) := by
  constructor
  · intro h
    have hbyte := h.someByte
    rw [hbudget, Nat.le_div_iff_mul_le (by decide)] at hbyte
    omega
  · intro h
    have hbounds := intervalFor_bounds (rateBps / 8)
    have hbyte : 1 ≤ p.budgetBytes := by
      rw [hbudget, Nat.le_div_iff_mul_le (by decide)]
      omega
    refine ⟨by rw [hint]; exact hbounds, hbyte, ?_, ?_⟩
    · rw [hint, hbudget]
      exact Nat.div_mul_le_self _ _
    · rw [hint, hbudget, Nat.mul_comm (_ + 1)]
      exact Nat.lt_mul_div_succ _ (by decide)

/-- The longest interval carries a byte from 10 bytes a second on, the shorter ones
    belong to rates far above that. -/
theorem some_byte_iff {r : Nat} (h0 : 0 < r) : 1000 ≤ r * intervalFor r ↔ 10 ≤ r := by
  by_cases hslow : r ≤ 1310720
  · rw [intervalFor_slow h0 hslow]
    show 1000 ≤ r * 100 ↔ _
    omega
  · have hmin : 5 ≤ intervalFor r := (intervalFor_bounds r).1
    have hle : r * 5 ≤ r * intervalFor r := Nat.mul_le_mul_left _ hmin
    omega

/-- `from_rate_bps` returns sound parameters exactly for caps of 80 bits a second and
    more. -/
theorem rate_params_sound_iff (rateBps : UInt64) :
    (∃ p, RateParams.fromRateBps rateBps.toNat chunkSize = some p ∧ p.Sound rateBps.toNat) ↔ 80 ≤ rateBps.toNat := by
  have hmax : rateBps.toNat ≤ u64Max := Nat.le_pred_of_lt rateBps.toNat_lt
  by_cases h8 : rateBps.toNat < 8
  · rw [fromRateBps_none h8]
    constructor
    · rintro ⟨p, hp, _⟩
      cases hp
    · intro h
      omega
  · obtain ⟨p, hp, hint, hbudget⟩ := fromRateBps_some (by omega) hmax
    have hsound : p.Sound rateBps.toNat ↔ 80 ≤ rateBps.toNat := by
      rw [sound_iff_some_byte hint hbudget, some_byte_iff (by omega)]
      omega
    rw [hp]
    constructor
    · rintro ⟨p', hp', h⟩
      cases hp'
      exact hsound.mp h
    · intro h
      exact ⟨p, rfl, hsound.mpr h⟩

/-- Four bits a second divide by zero; forty leave the timer nothing to hand out. -/
theorem slow_caps_unsound :
    RateParams.fromRateBps 4 chunkSize = none ∧
      (RateParams.fromRateBps 40 chunkSize).map (fun p => (p.intervalMs, p.budgetBytes)) = some (100, 0) ∧
      ¬ ∀ rateBps : UInt64, 1 ≤ rateBps.toNat →
        ∃ p, RateParams.fromRateBps rateBps.toNat chunkSize = some p ∧ p.Sound rateBps.toNat := by
  refine ⟨by decide, by decide, fun h => ?_⟩
  obtain ⟨p, hp, _⟩ := h 4 (by decide)
  have hnone : RateParams.fromRateBps (4 : UInt64).toNat chunkSize = none := fromRateBps_none (by decide)
  rw [hnone] at hp
  cases hp

/-! ## The rate over many ticks -/

/-- In every run in which no deduction counts a byte twice, `k` consecutive ticks deliver
    at most what the cap allows in `k + 1` intervals. -/
theorem ticks_within_rate {rateBps : Nat} {p : RateParams} (hsound : p.Sound rateBps) {s : Limiter}
    (h : Reach (Limiter.step p) (countsOnce p · ·) .new s) {window : List Nat} (hw : window <:+: s.spent) :
    window.sum * 1000 ≤ (window.length + 1) * (rateBps / 8 * p.intervalMs) := by
  have hb : Budgeted p s := h.invariant (new_budgeted p) step_budgeted
  calc window.sum * 1000 ≤ (window.length + 1) * p.budgetBytes * 1000 := Nat.mul_le_mul_right _ (hb.bounded window hw)
    _ = (window.length + 1) * (p.budgetBytes * 1000) := Nat.mul_assoc ..
    _ ≤ (window.length + 1) * (rateBps / 8 * p.intervalMs) := Nat.mul_le_mul_left _ hsound.notAbove

end Quelay.Agent
