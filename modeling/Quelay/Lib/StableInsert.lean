/-
  Quelay.Lib.StableInsert — inserting before the first element that satisfies a test.

  A list kept in priority order is grown by `l.insertIdx (l.findIdx p) a`, where `p x`
  says that `a` goes before `x`. The new list is the old one with `a` put between the
  elements that fail the test and the first that passes it, so order, count and
  membership follow from the old list's.
-/

import Mathlib.Data.List.Perm.Basic

namespace Quelay.Lib

variable {α : Type} {p : α → Bool} {R : α → α → Prop} {l : List α} {a : α}

theorem insert_perm (p : α → Bool) (a : α) (l : List α) : (l.insertIdx (l.findIdx p) a).Perm (a :: l) :=
  List.perm_insertIdx a l List.findIdx_le_length

theorem insert_cons_of_pos {b : α} (h : p b = true) :
    (b :: l).insertIdx ((b :: l).findIdx p) a = a :: b :: l := by
  simp [List.findIdx_cons, h]

theorem insert_cons_of_neg {b : α} (h : p b = false) :
    (b :: l).insertIdx ((b :: l).findIdx p) a = b :: l.insertIdx (l.findIdx p) a := by
  simp [List.findIdx_cons, h]

/-- The new list as the old one split at the index. -/
theorem insert_split (p : α → Bool) (a : α) (l : List α) :
    ∃ before after, l = before ++ after ∧ l.insertIdx (l.findIdx p) a = before ++ a :: after ∧
      before.length = l.findIdx p := by
  induction l with
  | nil => exact ⟨[], [], rfl, rfl, rfl⟩
  | cons b l ih =>
    cases h : p b with
    | true => exact ⟨[], b :: l, rfl, insert_cons_of_pos h, by simp [List.findIdx_cons, h]⟩
    | false =>
      obtain ⟨before, after, hl, hins, hlen⟩ := ih
      refine ⟨b :: before, after, by rw [hl]; rfl, ?_, ?_⟩
      · rw [insert_cons_of_neg h, hins]
        rfl
      · simp [List.findIdx_cons, h, hlen]

/-- If `a` belongs after what fails the test and before what passes it, and the test
    stays true down an ordered list, the insertion keeps the order. -/
theorem insert_pairwise (hl : l.Pairwise R) (hb : ∀ x ∈ l, p x = false → R x a) (ha : ∀ x ∈ l, p x = true → R a x)
    (hm : ∀ x ∈ l, ∀ y ∈ l, R x y → p x = true → p y = true) : (l.insertIdx (l.findIdx p) a).Pairwise R := by
  induction l with
  | nil => simp
  | cons b l ih =>
    rw [List.pairwise_cons] at hl
    cases h : p b with
    | true =>
      rw [insert_cons_of_pos h, List.pairwise_cons, List.pairwise_cons]
      refine ⟨fun x hx => ha x hx ?_, hl⟩
      rcases List.mem_cons.mp hx with rfl | hx'
      · exact h
      · exact hm b List.mem_cons_self x hx (hl.1 x hx') h
    | false =>
      rw [insert_cons_of_neg h, List.pairwise_cons]
      constructor
      · intro x hx
        rcases List.mem_cons.mp ((insert_perm p a l).mem_iff.mp hx) with rfl | hx
        · exact hb b List.mem_cons_self h
        · exact hl.1 x hx
      · exact ih hl.2 (fun x hx => hb x (List.mem_cons_of_mem _ hx)) (fun x hx => ha x (List.mem_cons_of_mem _ hx))
          fun x hx y hy => hm x (List.mem_cons_of_mem _ hx) y (List.mem_cons_of_mem _ hy)

end Quelay.Lib
