/-
  Quelay.Agent.Transfer.Run — the frames of a stream: a header, then chunks in a row.

  `Run pushed o l e`: the frames `l` are non-empty chunks of the pushed bytes, the first
  at offset `o`, each where the last one ended, the last ending at `e`.
-/

import Quelay.Agent.Transfer.Step

namespace Quelay.Agent.Transfer

inductive Run (pushed : List UInt8) : Nat → List UpFrame → Nat → Prop
  | nil (o : Nat) : Run pushed o [] o
  | cons {o e : Nat} {payload : List UInt8} {l : List UpFrame} : payload ≠ [] → payload <+: pushed.drop o →
      Run pushed (o + payload.length) l e → Run pushed o (.chunk o payload :: l) e

variable {pushed : List UInt8} {o e : Nat} {l : List UpFrame} {payload : List UInt8}

theorem length_le_of_prefix_drop (h : payload <+: pushed.drop o) (hne : payload ≠ []) :
    o + payload.length ≤ pushed.length := by
  have h1 := h.length_le
  have h2 : 0 < payload.length := List.length_pos_iff.mpr hne
  rw [List.length_drop] at h1
  omega

theorem Run.le (h : Run pushed o l e) : o ≤ e := by
  induction h with
  | nil => exact Nat.le_refl _
  | cons _ _ _ ih => omega

theorem Run.push (h : Run pushed o l e) (data : List UInt8) : Run (pushed ++ data) o l e := by
  induction h with
  | nil => exact .nil _
  | @cons o e payload l hne hp _ ih =>
    have hle := length_le_of_prefix_drop hp hne
    refine .cons hne ?_ ih
    rw [List.drop_append_of_le_length (by omega)]
    exact hp.trans (List.prefix_append ..)

theorem Run.snoc (h : Run pushed o l e) (hne : payload ≠ []) (hp : payload <+: pushed.drop e) :
    Run pushed o (l ++ [.chunk e payload]) (e + payload.length) := by
  induction h with
  | nil => exact .cons hne hp (.nil _)
  | cons hne' hp' _ ih => exact .cons hne' hp' (ih hp)

theorem Run.take (h : Run pushed o l e) (n : Nat) : ∃ e' ≤ e, Run pushed o (l.take n) e' := by
  induction h generalizing n with
  | nil o => exact ⟨o, Nat.le_refl _, by simpa using .nil o⟩
  | @cons o e payload l hne hp ht ih =>
    cases n with
    | zero =>
      have := ht.le
      exact ⟨o, by omega, .nil o⟩
    | succ n =>
      obtain ⟨e', hle, h'⟩ := ih n
      exact ⟨e', hle, .cons hne hp h'⟩

/-- The frames behind the header, if there is one. -/
def body : List UpFrame → List UpFrame
  | .connect :: l => l
  | .reconnect _ :: l => l
  | l => l

@[simp] theorem body_nil : body [] = [] := rfl
@[simp] theorem body_connect (l : List UpFrame) : body (.connect :: l) = l := rfl
@[simp] theorem body_reconnect (r : Nat) (l : List UpFrame) : body (.reconnect r :: l) = l := rfl
@[simp] theorem body_chunk (o : Nat) (p : List UInt8) (l : List UpFrame) : body (.chunk o p :: l) = .chunk o p :: l := rfl

theorem body_snoc (l : List UpFrame) (o : Nat) (p : List UInt8) : body (l ++ [.chunk o p]) = body l ++ [.chunk o p] := by
  cases l with
  | nil => rfl
  | cons f l => cases f <;> rfl

theorem body_take (l : List UpFrame) (n : Nat) : ∃ m, body (l.take n) = (body l).take m := by
  cases n with
  | zero => exact ⟨0, by simp⟩
  | succ n =>
    cases l with
    | nil => exact ⟨0, by simp⟩
    | cons f l =>
      cases f with
      | connect => exact ⟨n, rfl⟩
      | reconnect => exact ⟨n, rfl⟩
      | chunk => exact ⟨n + 1, rfl⟩

/-- What follows the header is a run. -/
theorem Run.body_eq (h : Run pushed o l e) : body l = l := by
  cases h <;> rfl

/-- The stream's header has not been read. -/
def headed : List UpFrame → Bool
  | .connect :: _ | .reconnect _ :: _ => true
  | _ => false

theorem Run.not_headed (h : Run pushed o l e) : headed l = false := by
  cases h <;> rfl

theorem headed_snoc (h : headed l = true) (f : UpFrame) : headed (l ++ [f]) = true := by
  cases l with
  | nil => cases h
  | cons f l => cases f <;> first | rfl | cases h

theorem not_headed_snoc (h : headed l = false) (o : Nat) (p : List UInt8) : headed (l ++ [.chunk o p]) = false := by
  cases l with
  | nil => rfl
  | cons f l => cases f <;> first | rfl | cases h

theorem not_headed_take (h : headed l = false) (n : Nat) : headed (l.take n) = false := by
  cases n with
  | zero => rfl
  | succ n =>
    cases l with
    | nil => rfl
    | cons f l => cases f <;> first | rfl | cases h

end Quelay.Agent.Transfer
