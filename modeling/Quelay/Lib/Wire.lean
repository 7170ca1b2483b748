/-
  Quelay.Lib.Wire — big-endian integers, and readers of a byte stream that can end.

  A reader takes bytes off the front of what is left; the end of the list is the end of
  the stream. `readFrame` is the common shape of a length-prefixed frame: a header of
  fixed size, which gives the size of the payload. Its three facts are what a framing
  needs: a frame is read back with whatever follows left over, a proper prefix of a frame
  is an error, and a successful read takes exactly the header and its payload.
-/

import Mathlib.Data.List.Forall2
import Mathlib.Data.Nat.ModEq

namespace Quelay.Lib

/-! ## Big-endian integers -/

/-- The low `k` bytes of a number, the highest first. -/
def toBeBytes : Nat → Nat → List UInt8
  | 0, _ => []
  | k + 1, n => toBeBytes k (n / 256) ++ [UInt8.ofNat n]

def fromBeBytes (bs : List UInt8) : Nat := bs.foldl (fun n b => n * 256 + b.toNat) 0

@[simp] theorem length_toBeBytes (k n : Nat) : (toBeBytes k n).length = k := by
  induction k generalizing n with
  | zero => rfl
  | succ k ih => simp [toBeBytes, ih]

theorem fromBeBytes_snoc (bs : List UInt8) (b : UInt8) : fromBeBytes (bs ++ [b]) = fromBeBytes bs * 256 + b.toNat := by
  simp [fromBeBytes, List.foldl_append]

theorem fromBeBytes_toBeBytes (k n : Nat) : fromBeBytes (toBeBytes k n) = n % 256 ^ k := by
  induction k generalizing n with
  | zero => simp [toBeBytes, fromBeBytes, Nat.mod_one]
  | succ k ih =>
    rw [toBeBytes, fromBeBytes_snoc, ih, Nat.pow_succ, Nat.mul_comm (256 ^ k) 256, Nat.mod_mul]
    have hb : (UInt8.ofNat n).toNat = n % 256 := UInt8.toNat_ofNat'
    omega

theorem fromBeBytes_of_lt {k n : Nat} (h : n < 256 ^ k) : fromBeBytes (toBeBytes k n) = n := by
  rw [fromBeBytes_toBeBytes, Nat.mod_eq_of_lt h]

/-! ## Readers -/

/-- Reads from the bytes that are left. -/
abbrev Reader (ε α : Type) := StateT (List UInt8) (Except ε) α

variable {ε α κ : Type}

theorem Reader.pure_apply (a : α) (bs : List UInt8) : (StateT.pure a : Reader ε α) bs = .ok (a, bs) := rfl

theorem Reader.set_apply (s bs : List UInt8) : (StateT.set s : Reader ε PUnit) bs = .ok (⟨⟩, s) := rfl

/-- Take `n` bytes; the error is what the end of the stream is reported as. -/
def readExact (n : Nat) (eof : ε) : Reader ε (List UInt8) := fun bs =>
  if bs.length < n then .error eof else .ok (bs.take n, bs.drop n)

/-- A header of `n` bytes, then as many bytes as the parsed header says. -/
def readFrame (n : Nat) (parse : List UInt8 → Except ε κ) (size : κ → Nat) (eofHeader eofPayload : ε) :
    Reader ε (κ × List UInt8) := do
  let fixed ← readExact n eofHeader
  let header ← parse fixed
  let payload ← readExact (size header) eofPayload
  return (header, payload)

section Frame

variable {n : Nat} {parse : List UInt8 → Except ε κ} {size : κ → Nat} {eofHeader eofPayload : ε}

/-- What a read of a frame does, in order. -/
theorem readFrame_eq (bs : List UInt8) : readFrame n parse size eofHeader eofPayload bs =
    if bs.length < n then .error eofHeader
    else match parse (bs.take n) with
      | .error e => .error e
      | .ok header =>
        if bs.length < n + size header then .error eofPayload
        else .ok ((header, (bs.drop n).take (size header)), bs.drop (n + size header)) := by
  simp only [readFrame, bind, StateT.bind, readExact, Except.bind, liftM, monadLift, MonadLift.monadLift, StateT.lift, pure,
    Reader.pure_apply, Except.pure]
  by_cases hn : bs.length < n
  · rw [if_pos hn, if_pos hn]
  · rw [if_neg hn, if_neg hn]
    dsimp only
    cases parse (bs.take n) with
    | error e => rfl
    | ok header =>
      dsimp only
      by_cases hs : bs.length < n + size header
      · rw [if_pos hs, if_pos (by rw [List.length_drop]; omega)]
      · rw [if_neg hs, if_neg (by rw [List.length_drop]; omega)]
        simp [List.drop_drop]

/-- A frame is read back, and what follows it is left. -/
theorem readFrame_append {fixed payload : List UInt8} {header : κ} (hf : fixed.length = n) (hp : parse fixed = .ok header)
    (hs : payload.length = size header) (tail : List UInt8) :
    readFrame n parse size eofHeader eofPayload (fixed ++ payload ++ tail) = .ok ((header, payload), tail) := by
  have htake : (fixed ++ payload ++ tail).take n = fixed := by
    rw [List.append_assoc]
    exact List.take_left' hf
  have hdrop : (fixed ++ payload ++ tail).drop n = payload ++ tail := by
    rw [List.append_assoc]
    exact List.drop_left' hf
  have hrest : (fixed ++ payload ++ tail).drop (n + size header) = tail :=
    List.drop_left' (by rw [List.length_append, hf, hs])
  rw [readFrame_eq, if_neg (by simp only [List.length_append]; omega), htake, hp]
  dsimp only
  rw [if_neg (by simp only [List.length_append]; omega), hdrop, hrest, List.take_left' hs]

/-- A proper prefix of a frame is an error. -/
theorem readFrame_cut {fixed payload : List UInt8} {header : κ} (hf : fixed.length = n) (hp : parse fixed = .ok header)
    (hs : payload.length = size header) {k : Nat} (hk : k < (fixed ++ payload).length) :
    ∃ e, readFrame n parse size eofHeader eofPayload ((fixed ++ payload).take k) = .error e := by
  have hlen : ((fixed ++ payload).take k).length = k := by rw [List.length_take]; omega
  rw [List.length_append, hf, hs] at hk
  by_cases hn : k < n
  · exact ⟨eofHeader, by rw [readFrame_eq, if_pos (by omega)]⟩
  · have htake : ((fixed ++ payload).take k).take n = fixed := by
      rw [List.take_take, Nat.min_eq_left (by omega), List.take_left' hf]
    refine ⟨eofPayload, ?_⟩
    rw [readFrame_eq, if_neg (by omega), htake, hp]
    exact if_pos (by omega)

/-- A successful read takes the header and its payload, and nothing else. -/
theorem readFrame_ok {bs rest payload : List UInt8} {header : κ}
    (h : readFrame n parse size eofHeader eofPayload bs = .ok ((header, payload), rest)) :
    parse (bs.take n) = .ok header ∧ payload.length = size header ∧ n + size header ≤ bs.length ∧
      rest = bs.drop (n + size header) := by
  rw [readFrame_eq] at h
  by_cases hn : bs.length < n
  · rw [if_pos hn] at h
    cases h
  · rw [if_neg hn] at h
    cases hp : parse (bs.take n) with
    | error e => rw [hp] at h; cases h
    | ok header' =>
      rw [hp] at h
      dsimp only at h
      by_cases hs : bs.length < n + size header'
      · rw [if_pos hs] at h
        cases h
      · rw [if_neg hs] at h
        cases h
        refine ⟨rfl, ?_, by omega, rfl⟩
        rw [List.length_take, List.length_drop]
        omega

end Frame

/-! ## Sequences -/

/-- Read `n` times. -/
def readTimes (r : Reader ε α) : Nat → Reader ε (List α)
  | 0 => return []
  | n + 1 => do
    let a ← r
    let as ← readTimes r n
    return a :: as

/-- If each item is read back from its bytes, so is a sequence. -/
theorem readTimes_flatten {r : Reader ε α} {items : List α} {frames : List (List UInt8)}
    (h : List.Forall₂ (fun a bytes => ∀ tail, r (bytes ++ tail) = .ok (a, tail)) items frames) (tail : List UInt8) :
    readTimes r items.length (frames.flatten ++ tail) = .ok (items, tail) := by
  induction h with
  | nil => rfl
  | @cons a bytes items frames ha _ ih =>
    have hfirst := ha (frames.flatten ++ tail)
    simp only [List.length_cons, List.flatten_cons, List.append_assoc, readTimes, bind, StateT.bind, hfirst, Except.bind, ih]
    rfl

end Quelay.Lib
