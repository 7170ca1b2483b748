/-
  Quelay.Lib.Frames — a queue of frames as the bytes that carry it.

  `Spans enc frames next bs`: the bytes are those of `frames` in order, then a part of
  `next` that is neither empty nor the whole of it. A transport that cuts the bytes
  anywhere leaves a prefix of the frames and a part of the one after it (`spans_take`).
-/

import Mathlib.Data.List.Infix

namespace Quelay.Lib

variable {α : Type} {enc : α → List UInt8}

/-- The bytes of the frames, in order. -/
def encodeAll (enc : α → List UInt8) (frames : List α) : List UInt8 := (frames.map enc).flatten

@[simp] theorem encodeAll_nil : encodeAll enc [] = [] := rfl

@[simp] theorem encodeAll_cons (f : α) (frames : List α) : encodeAll enc (f :: frames) = enc f ++ encodeAll enc frames :=
  rfl

@[simp] theorem encodeAll_append (frames frames' : List α) :
    encodeAll enc (frames ++ frames') = encodeAll enc frames ++ encodeAll enc frames' := by
  simp [encodeAll]

inductive Spans (enc : α → List UInt8) (frames : List α) : Option α → List UInt8 → Prop
  | whole : Spans enc frames none (encodeAll enc frames)
  | part {f : α} {n : Nat} : 0 < n → n < (enc f).length →
      Spans enc frames (some f) (encodeAll enc frames ++ (enc f).take n)

variable {frames : List α} {next : Option α} {bs : List UInt8} {f : α}

/-- The bytes of the first frame come first. -/
theorem Spans.cons (h : Spans enc (f :: frames) next bs) : ∃ rest, bs = enc f ++ rest ∧ Spans enc frames next rest := by
  cases h with
  | whole => exact ⟨_, rfl, .whole⟩
  | part h0 hn => exact ⟨_, by rw [encodeAll_cons, List.append_assoc], .part h0 hn⟩

theorem Spans.push (h : Spans enc frames next bs) (f : α) : Spans enc (f :: frames) next (enc f ++ bs) := by
  cases h with
  | whole => exact .whole
  | part h0 hn =>
    rw [← List.append_assoc, ← encodeAll_cons]
    exact .part h0 hn

theorem Spans.append (h : Spans enc frames none bs) (more : List α) :
    Spans enc (frames ++ more) none (bs ++ encodeAll enc more) := by
  cases h
  rw [← encodeAll_append]
  exact .whole

theorem Spans.eq_of_whole (h : Spans enc frames none bs) : bs = encodeAll enc frames := by
  cases h
  rfl

/-- Without a whole frame, there is nothing, or a part of the next one. -/
theorem Spans.nil (h : Spans enc [] next bs) :
    (next = none ∧ bs = []) ∨ ∃ f n, next = some f ∧ 0 < n ∧ n < (enc f).length ∧ bs = (enc f).take n := by
  cases h with
  | whole => exact .inl ⟨rfl, rfl⟩
  | part h0 hn => exact .inr ⟨_, _, rfl, h0, hn, rfl⟩

/-- Any cut leaves some of the frames, and a part of the frame after those. -/
theorem spans_take (enc : α → List UInt8) (frames : List α) (n : Nat) :
    ∃ k next, Spans enc (frames.take k) next ((encodeAll enc frames).take n) ∧
      frames.take k ++ next.toList <+: frames := by
  induction frames generalizing n with
  | nil => exact ⟨0, none, by simpa using .whole, List.prefix_rfl⟩
  | cons f frames ih =>
    rw [encodeAll_cons]
    by_cases hle : (enc f).length ≤ n
    · obtain ⟨k, next, hspan, hpre⟩ := ih (n - (enc f).length)
      refine ⟨k + 1, next, ?_, ?_⟩
      · rw [List.take_append, List.take_of_length_le hle, List.take_succ_cons]
        exact hspan.push f
      · rw [List.take_succ_cons, List.cons_append]
        exact (List.prefix_cons_inj f).mpr hpre
    · have hlt : n < (enc f).length := by omega
      rw [List.take_append_of_le_length (by omega)]
      by_cases h0 : n = 0
      · subst h0
        exact ⟨0, none, .whole, List.nil_prefix⟩
      · refine ⟨0, some f, ?_, ?_⟩
        · rw [List.take_zero]
          exact .part (by omega) hlt
        · exact ⟨frames, rfl⟩

/-! ## A queue behind a cut -/

/-- The bytes are those of the frames; only a cut can leave a part of one more, and that
    frame satisfies `ok`. -/
def Line (enc : α → List UInt8) (frames : List α) (cut : Bool) (ok : α → Prop) (bs : List UInt8) : Prop :=
  ∃ next, Spans enc frames next bs ∧ (cut = false → next = none) ∧ ∀ f, next = some f → ok f

variable {cut cut' : Bool} {ok ok' : α → Prop}

theorem line_of_spans (h : Spans enc frames none bs) : Line enc frames cut ok bs := by
  refine ⟨none, h, fun _ => rfl, ?_⟩
  intro f hf
  cases hf

theorem Line.append (h : Line enc frames cut ok bs) {more : List α} (hm : cut = true → more = []) :
    Line enc (frames ++ more) cut ok (bs ++ encodeAll enc more) := by
  obtain ⟨next, hspan, hlive, hok⟩ := h
  cases cut with
  | true =>
    rw [hm rfl, encodeAll_nil, List.append_nil, List.append_nil]
    exact ⟨next, hspan, hlive, hok⟩
  | false =>
    obtain rfl := hlive rfl
    exact line_of_spans (hspan.append more)

/-- Other frames of a cut queue may be allowed, and a queue may have been cut. -/
theorem Line.mono (h : Line enc frames cut ok bs) (hc : cut = true → cut' = true)
    (hok : ∀ f, cut = true → ok f → ok' f) : Line enc frames cut' ok' bs := by
  obtain ⟨next, hspan, hlive, hnext⟩ := h
  cases cut with
  | false =>
    obtain rfl := hlive rfl
    exact line_of_spans hspan
  | true =>
    refine ⟨next, hspan, fun h => ?_, fun f hf => hok f rfl (hnext f hf)⟩
    rw [hc rfl] at h
    cases h

/-- The queue is read from its front. -/
theorem Line.cons (h : Line enc (f :: frames) cut ok bs) : ∃ rest, bs = enc f ++ rest ∧ Line enc frames cut ok rest := by
  obtain ⟨next, hspan, hlive, hok⟩ := h
  obtain ⟨rest, hbs, hspan⟩ := hspan.cons
  exact ⟨rest, hbs, next, hspan, hlive, hok⟩

/-- Without a whole frame, there is nothing, or a part of one behind a cut. -/
theorem Line.of_nil (h : Line enc [] cut ok bs) :
    bs = [] ∨ ∃ f n, cut = true ∧ ok f ∧ 0 < n ∧ n < (enc f).length ∧ bs = (enc f).take n := by
  obtain ⟨next, hspan, hlive, hok⟩ := h
  rcases hspan.nil with ⟨_, hbs⟩ | ⟨f, n, hf, h0, hn, hbs⟩
  · exact .inl hbs
  · refine .inr ⟨f, n, ?_, hok f hf, h0, hn, hbs⟩
    cases cut with
    | true => rfl
    | false =>
      rw [hlive rfl] at hf
      cases hf

theorem Line.eq_of_live (h : Line enc frames false ok bs) : bs = encodeAll enc frames := by
  obtain ⟨next, hspan, hlive, _⟩ := h
  obtain rfl := hlive rfl
  exact hspan.eq_of_whole

/-- A queue is cut, at any byte. -/
theorem Line.cutAt (h : Line enc frames false ok bs) (n : Nat) :
    ∃ k, ∀ {ok' : α → Prop}, (∀ f, frames.take k ++ [f] <+: frames → ok' f) →
      Line enc (frames.take k) true ok' (bs.take n) := by
  obtain rfl := h.eq_of_live
  obtain ⟨k, next, hspan, hpre⟩ := spans_take enc frames n
  refine ⟨k, ?_⟩
  intro ok' hok
  refine ⟨next, hspan, fun h => Bool.noConfusion h, ?_⟩
  intro f hf
  subst hf
  exact hok f hpre

end Quelay.Lib
