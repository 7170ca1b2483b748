/-
  Quelay.Lib.Windows — what a budget with a limited carry spends over windows of
  consecutive intervals.

  A log lists what each interval spent, newest first. `Spendable rate log n` says that
  `n` more may be spent without any window that ends at the newest interval passing
  `rate` per interval plus one; `Bounded rate log` is that bound for every window.
-/

import Mathlib.Algebra.GroupWithZero.Nat
import Mathlib.Data.List.Infix
import Mathlib.Algebra.BigOperators.Group.List.Basic

namespace Quelay.Lib

variable {rate n spent : Nat} {log : List Nat}

def Bounded (rate : Nat) (log : List Nat) : Prop :=
  ∀ window, window <:+: log → window.sum ≤ (window.length + 1) * rate

def Spendable (rate : Nat) (log : List Nat) (n : Nat) : Prop :=
  ∀ window, window <+: log → window.sum + n ≤ (window.length + 1) * rate

theorem bounded_nil (rate : Nat) : Bounded rate [] := by
  intro window h
  rw [List.infix_nil.mp h]
  simp

theorem spendable_nil (h : n ≤ rate) : Spendable rate [] n := by
  intro window hw
  rw [List.prefix_nil.mp hw]
  simpa using h

/-- A new interval that spends out of what was spendable plus one more `rate` leaves
    the rest spendable, as long as that is at most `rate`. -/
theorem Spendable.next (h : Spendable rate log n) {left : Nat} (hs : spent + left ≤ n + rate) (hl : left ≤ rate) :
    Spendable rate (spent :: log) left := by
  intro window hw
  cases window with
  | nil => simpa using hl
  | cons x window =>
    obtain ⟨rfl, htail⟩ := List.cons_prefix_cons.mp hw
    have := h window htail
    simp only [List.sum_cons, List.length_cons, Nat.add_mul, Nat.one_mul] at this ⊢
    omega

theorem Spendable.bounded (h : Spendable rate log n) (hb : Bounded rate log.tail) : Bounded rate log := by
  intro window hw
  cases log with
  | nil => exact bounded_nil rate window hw
  | cons x log =>
    rcases List.infix_cons_iff.mp hw with hp | hi
    · have := h window hp
      omega
    · exact hb window hi

end Quelay.Lib
