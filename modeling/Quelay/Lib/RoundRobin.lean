/-
  Quelay.Lib.RoundRobin — turn counts when the front of a queue takes a turn and goes
  to its back.
-/

import Mathlib.Logic.Function.Basic
import Mathlib.Data.List.Basic

namespace Quelay.Lib

variable {α : Type} {turns : α → Nat} {order : List α}

/-- The front part of the order has had `r` turns, the rest `r + 1`. -/
def InRound (turns : α → Nat) (order : List α) : Prop :=
  ∃ r xs ys, order = xs ++ ys ∧ (∀ x ∈ xs, turns x = r) ∧ ∀ y ∈ ys, turns y = r + 1

theorem InRound.zero (order : List α) : InRound (fun _ => 0) order :=
  ⟨0, order, [], by simp, fun _ _ => rfl, fun _ h => by cases h⟩

/-- No element is more than one turn ahead of another. -/
theorem InRound.le_succ (h : InRound turns order) {i j : α} (hi : i ∈ order) (hj : j ∈ order) :
    turns i ≤ turns j + 1 := by
  obtain ⟨r, xs, ys, rfl, hx, hy⟩ := h
  have bounds : ∀ k ∈ xs ++ ys, r ≤ turns k ∧ turns k ≤ r + 1 := by
    intro k hk
    rcases List.mem_append.mp hk with hk | hk
    · rw [hx k hk]; omega
    · rw [hy k hk]; omega
  have := bounds i hi
  have := bounds j hj
  omega

/-- The front takes its turn and goes to the back. -/
theorem InRound.rotate [DecidableEq α] {a : α} {rest : List α} (h : InRound turns (a :: rest)) (ha : a ∉ rest) :
    InRound (Function.update turns a (turns a + 1)) (rest ++ [a]) := by
  obtain ⟨r, xs, ys, he, hx, hy⟩ := h
  have keep : ∀ x ∈ rest, Function.update turns a (turns a + 1) x = turns x := by
    intro x hm
    exact Function.update_of_ne (ne_of_mem_of_not_mem hm ha) _ _
  cases xs with
  | nil =>
    -- Every element has had its turn of round `r`: the front opens the next one.
    simp only [List.nil_append] at he
    subst he
    refine ⟨r + 1, rest, [a], rfl, fun x hm => ?_, fun y hm => ?_⟩
    · rw [keep x hm]; exact hy x (List.mem_cons_of_mem _ hm)
    · rw [List.mem_singleton.mp hm, Function.update_self, hy a List.mem_cons_self]
  | cons x xs =>
    simp only [List.cons_append, List.cons.injEq] at he
    obtain ⟨rfl, rfl⟩ := he
    refine ⟨r, xs, ys ++ [a], by simp, fun z hm => ?_, fun z hm => ?_⟩
    · rw [keep z (List.mem_append_left _ hm)]; exact hx z (List.mem_cons_of_mem _ hm)
    · rcases List.mem_append.mp hm with hm | hm
      · rw [keep z (List.mem_append_right _ hm)]; exact hy z hm
      · rw [List.mem_singleton.mp hm, Function.update_self, hx a List.mem_cons_self]

end Quelay.Lib
