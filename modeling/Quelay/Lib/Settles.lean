/-
  Quelay.Lib.Settles — runs that come to an end.

  `ReachIn` counts the steps of a run. When a measure falls with every allowed step, a run
  is at most as long as the measure of its start, and can be continued to a state in which
  no allowed step is left. An invariant of the allowed steps may be used for the fall.
-/

import Quelay.Lib.Machine

namespace Quelay.Lib

variable {σ α : Type} {step : σ → α → Option σ} {ok : σ → α → Prop} {init : σ}

inductive ReachIn (step : σ → α → Option σ) (ok : σ → α → Prop) (init : σ) : Nat → σ → Prop
  | zero : ReachIn step ok init 0 init
  | succ {n : Nat} {s s' : σ} (a : α) : ReachIn step ok init n s → ok s a → step s a = some s' →
    ReachIn step ok init (n + 1) s'

/-- Every allowed step keeps the invariant and makes the measure fall. -/
structure Falls (step : σ → α → Option σ) (ok : σ → α → Prop) (I : σ → Prop) (measure : σ → Nat) : Prop where
  keeps : ∀ {s s' : σ} {a : α}, I s → ok s a → step s a = some s' → I s'
  falls : ∀ {s s' : σ} {a : α}, I s → ok s a → step s a = some s' → measure s' < measure s

variable {I : σ → Prop} {measure : σ → Nat}

theorem Falls.inv (hf : Falls step ok I measure) {s t : σ} (hs : I s) (h : Reach step ok s t) : I t :=
  h.invariant hs fun hi ha he => hf.keeps hi ha he

theorem Falls.bounded (hf : Falls step ok I measure) {s t : σ} (hs : I s) {n : Nat} (h : ReachIn step ok s n t) :
    I t ∧ n + measure t ≤ measure s := by
  induction h with
  | zero => exact ⟨hs, by omega⟩
  | succ a _ ha he ih =>
    obtain ⟨hi, hle⟩ := ih
    have := hf.falls hi ha he
    exact ⟨hf.keeps hi ha he, by omega⟩

theorem Falls.settles (hf : Falls step ok I measure) {s : σ} (hs : I s) :
    ∃ t, Reach step ok s t ∧ ∀ a, ok t a → step t a = none := by
  induction hm : measure s using Nat.strongRecOn generalizing s with
  | ind m ih =>
    by_cases hstuck : ∀ a, ok s a → step s a = none
    · exact ⟨s, .init, hstuck⟩
    · simp only [not_forall] at hstuck
      obtain ⟨a, ha, hne⟩ := hstuck
      obtain ⟨s', he⟩ := Option.ne_none_iff_exists'.mp hne
      obtain ⟨t, ht, hnone⟩ := ih (measure s') (hm ▸ hf.falls hs ha he) (hf.keeps hs ha he) rfl
      exact ⟨t, Reach.trans (.step a .init ha he) ht, hnone⟩

end Quelay.Lib
