/-
  Quelay.Lib.Refine — one machine answers every step of another.

  `Simulates`: a relation between the states of two machines; every allowed step of the
  first from a related pair is answered by a run of the second that ends in a related pair.
  The rule that uses it: whatever the first machine reaches is related to something the
  second reaches.
-/

import Quelay.Lib.Machine

namespace Quelay.Lib

variable {σ τ α β : Type} {step : σ → α → Option σ} {ok : σ → α → Prop} {init : σ}
  {step' : τ → β → Option τ} {ok' : τ → β → Prop} {init' : τ}

/-- Every step of the first machine is one step, or none, of the second. `I` is what is
    known of the states the second reaches. -/
structure Simulates (step : σ → α → Option σ) (ok : σ → α → Prop) (init : σ) (step' : τ → β → Option τ)
    (ok' : τ → β → Prop) (init' : τ) (I : τ → Prop) (R : σ → τ → Prop) : Prop where
  start : R init init'
  answer : ∀ {s s' : σ} {t : τ} {a : α}, R s t → I t → ok s a → step s a = some s' →
    R s' t ∨ ∃ b t', ok' t b ∧ step' t b = some t' ∧ R s' t'

/-- Every state of the first machine stands for one that the second reaches. -/
theorem Simulates.reach {I : τ → Prop} {R : σ → τ → Prop} (h : Simulates step ok init step' ok' init' I R)
    (hI : ∀ {t : τ}, Reach step' ok' init' t → I t) {s : σ} (hs : Reach step ok init s) :
    ∃ t, Reach step' ok' init' t ∧ R s t := by
  induction hs with
  | init => exact ⟨init', .init, h.start⟩
  | step a _ ha he ih =>
    obtain ⟨t, ht, hR⟩ := ih
    rcases h.answer hR (hI ht) ha he with hR' | ⟨b, t', hb, he', hR'⟩
    · exact ⟨t, ht, hR'⟩
    · exact ⟨t', .step b ht hb he', hR'⟩

end Quelay.Lib
