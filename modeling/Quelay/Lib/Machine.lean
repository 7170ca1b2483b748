/-
  Quelay.Lib.Machine — runs of a partial step function.

  A machine is `step : σ → α → Option σ`: `none` says that the action is not enabled.
  `Reach step ok init` is the set of states that enabled actions lead to, when every
  action satisfies `ok` in the state it is taken in. With `ok` always true that is
  every interleaving; a side condition on the steps of a run is another `ok`.
-/

import Mathlib.Data.List.Basic

namespace Quelay.Lib

variable {σ α : Type} {step : σ → α → Option σ} {ok ok' : σ → α → Prop} {init : σ}

/-- Take the actions in order; `none` as soon as one is not enabled. -/
def run (step : σ → α → Option σ) : σ → List α → Option σ
  | s, [] => some s
  | s, a :: as => (step s a).bind (run step · as)

theorem run_append (s : σ) (as bs : List α) : run step s (as ++ bs) = (run step s as).bind (run step · bs) := by
  induction as generalizing s with
  | nil => rfl
  | cons a as ih =>
    simp only [List.cons_append, run, Option.bind_assoc]
    congr 1
    funext t
    exact ih t

inductive Reach (step : σ → α → Option σ) (ok : σ → α → Prop) (init : σ) : σ → Prop
  | init : Reach step ok init init
  | step {s s' : σ} (a : α) : Reach step ok init s → ok s a → step s a = some s' → Reach step ok init s'

/-- Every action, in every state. -/
def anyStep (_ : σ) (_ : α) : Prop := True

instance (s : σ) (a : α) : Decidable (anyStep s a) := inferInstanceAs (Decidable True)

/-- What holds at the start and survives every allowed step holds wherever they lead. -/
theorem Reach.invariant {P : σ → Prop} (h0 : P init)
    (hs : ∀ {s s' : σ} {a : α}, P s → ok s a → step s a = some s' → P s') {s : σ} (h : Reach step ok init s) : P s := by
  induction h with
  | init => exact h0
  | step a _ ha he ih => exact hs ih ha he

/-- The same, when the step may use an invariant that is known already. -/
theorem Reach.invariant_of {I P : σ → Prop} (hI : ∀ {s : σ}, Reach step ok init s → I s) (h0 : P init)
    (hs : ∀ {s s' : σ} {a : α}, I s → I s' → P s → ok s a → step s a = some s' → P s')
    {s : σ} (h : Reach step ok init s) : P s := by
  induction h with
  | init => exact h0
  | step a hr ha he ih => exact hs (hI hr) (hI (.step a hr ha he)) ih ha he

theorem Reach.trans {s t : σ} (h : Reach step ok init s) (h' : Reach step ok s t) : Reach step ok init t := by
  induction h' with
  | init => exact h
  | step a _ ha he ih => exact .step a ih ha he

theorem Reach.mono (hok : ∀ s a, ok s a → ok' s a) {s : σ} (h : Reach step ok init s) : Reach step ok' init s := by
  induction h with
  | init => exact .init
  | step a _ ha he ih => exact .step a ih (hok _ _ ha) he

/-- A condition that an invariant of the run implies at every step. -/
theorem Reach.mono_of {I : σ → Prop} (hI : ∀ {s : σ}, Reach step ok init s → I s)
    (hok : ∀ {s s' : σ} {a : α}, I s → ok s a → step s a = some s' → ok' s a) {s : σ} (h : Reach step ok init s) :
    Reach step ok' init s := by
  induction h with
  | init => exact .init
  | step a hr ha he ih => exact .step a ih (hok (hI hr) ha he) he

theorem Reach.any {s : σ} (h : Reach step ok init s) : Reach step anyStep init s := h.mono fun _ _ _ => trivial

/-- Actions that are allowed in every state, in order. -/
theorem Reach.along_of {s : σ} (h : Reach step ok init s) :
    ∀ {as : List α} {t : σ}, (∀ a ∈ as, ∀ s, ok s a) → run step s as = some t → Reach step ok init t := by
  intro as
  induction as generalizing s with
  | nil => intro t _ ht; cases ht; exact h
  | cons a as ih =>
    intro t hok ht
    obtain ⟨s', hs, ht⟩ := Option.bind_eq_some_iff.mp ht
    refine ih (.step a h (hok a List.mem_cons_self s) hs) (fun b hb => ?_) ht
    exact hok b (List.mem_cons_of_mem _ hb)

theorem Reach.along {s : σ} (h : Reach step anyStep init s) {as : List α} {t : σ} (ht : run step s as = some t) :
    Reach step anyStep init t :=
  h.along_of (fun _ _ _ => trivial) ht

/-- Take the actions in order, as long as each is enabled and allowed. -/
def runAllowed (step : σ → α → Option σ) (ok : σ → α → Prop) [∀ s a, Decidable (ok s a)] : σ → List α → Option σ :=
  run fun s a => if ok s a then step s a else none

theorem Reach.runAllowed [∀ s a, Decidable (ok s a)] {s : σ} (h : Reach step ok init s) :
    ∀ {as : List α} {t : σ}, runAllowed step ok s as = some t → Reach step ok init t := by
  intro as
  induction as generalizing s with
  | nil => intro t ht; cases ht; exact h
  | cons a as ih =>
    intro t ht
    simp only [Lib.runAllowed, run, Option.bind_eq_some_iff] at ht
    obtain ⟨s', hs, ht⟩ := ht
    split at hs
    · rename_i ha
      exact ih (.step a h ha hs) ht
    · cases hs

/-- A run that can be evaluated, as the state it reaches. -/
theorem Reach.exists_run (step : σ → α → Option σ) (ok : σ → α → Prop) [∀ s a, Decidable (ok s a)] (init : σ)
    (as : List α) (P : σ → Bool) (h : (Lib.runAllowed step ok init as).any P = true) :
    ∃ t, Reach step ok init t ∧ P t = true := by
  obtain ⟨t, ht, hP⟩ := Option.any_eq_true .. |>.mp h
  exact ⟨t, Reach.init.runAllowed ht, hP⟩

/-! ## What holds of every step -/

/-- Every step that the actions take from `s` on satisfies `P`. -/
def Along (step : σ → α → Option σ) (P : σ → α → σ → Prop) : σ → List α → Prop
  | _, [] => True
  | s, a :: as => ∀ s', step s a = some s' → P s a s' ∧ Along step P s' as

/-- Two conditions say the same of a run, if they agree wherever an invariant holds and
    the second keeps the invariant. -/
theorem along_congr {P Q : σ → α → σ → Prop} {I : σ → Prop}
    (hiff : ∀ {s s' : σ} {a : α}, I s → step s a = some s' → (P s a s' ↔ Q s a s'))
    (hkeep : ∀ {s s' : σ} {a : α}, I s → step s a = some s' → Q s a s' → I s') {s : σ} (h : I s) (as : List α) :
    Along step P s as ↔ Along step Q s as := by
  induction as generalizing s with
  | nil => exact Iff.rfl
  | cons a as ih =>
    constructor
    · intro hp s' hs
      obtain ⟨h1, h2⟩ := hp s' hs
      have hq := (hiff h hs).mp h1
      exact ⟨hq, (ih (hkeep h hs hq)).mp h2⟩
    · intro hq s' hs
      obtain ⟨h1, h2⟩ := hq s' hs
      exact ⟨(hiff h hs).mpr h1, (ih (hkeep h hs h1)).mpr h2⟩

end Quelay.Lib
