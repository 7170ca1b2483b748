/-
  Quelay.Agent.Spool — `SpoolBuffer` (`quelay-agent/src/active_stream.rs`), the ring
  buffer between the TCP reader, the pump and the ack task.

  Offsets are absolute and unbounded; the `u64::MAX` that marks EOF in `head` is a
  constructor of its own. The ring may split its bytes anywhere (`VecDeque::as_slices`),
  so `sliceFrom` takes the length of the first segment.
-/

import Mathlib.Data.List.Basic
import Mathlib.Data.List.TakeDrop

namespace Quelay.Agent

def spoolCapacity : Nat := 1024 * 1024

def chunkSize : Nat := 16 * 1024

/-- The spool's `head`: the offset `T`, or the EOF sentinel. -/
inductive Head where
  | at (offset : Nat)
  | eof
  deriving DecidableEq, Repr

structure SpoolBuffer where
  buf : List UInt8
  bytesAcked : Nat
  head : Head
  deriving DecidableEq, Repr

namespace SpoolBuffer

def new : SpoolBuffer := ⟨[], 0, .at 0⟩

def available (s : SpoolBuffer) : Nat := spoolCapacity - s.buf.length

def headOffset (s : SpoolBuffer) : Nat :=
  match s.head with
  | .at offset => offset
  | .eof => s.bytesAcked + s.buf.length

/-- The reader pushes nothing once it has marked EOF. -/
def push (s : SpoolBuffer) (data : List UInt8) : SpoolBuffer :=
  { s with
    buf := s.buf ++ data
    head := match s.head with
      | .at offset => .at (offset + data.length)
      | .eof => .eof }

def ack (s : SpoolBuffer) (upTo : Nat) : SpoolBuffer :=
  if upTo ≤ s.bytesAcked then s
  else
    let n := min (upTo - s.bytesAcked) s.buf.length
    { s with buf := s.buf.drop n, bytesAcked := s.bytesAcked + n }

/-- The rest of the segment that holds `from`, where the first segment has `split`
    bytes. -/
def sliceFrom (s : SpoolBuffer) (split offset : Nat) : List UInt8 :=
  let start := offset - s.bytesAcked
  let first := s.buf.take split
  let second := s.buf.drop split
  if start < first.length then first.drop start else second.drop (start - first.length)

def markEof (s : SpoolBuffer) : SpoolBuffer := { s with head := .eof }

def atEof (s : SpoolBuffer) : Bool := s.head == .eof

/-! ## What the buffer holds -/

/-- The spool holds the bytes pushed so far from `bytes_acked` on. -/
structure Holds (s : SpoolBuffer) (pushed : List UInt8) : Prop where
  le : s.bytesAcked ≤ pushed.length
  buf : s.buf = pushed.drop s.bytesAcked
  head : s.head = .eof ∨ s.head = .at pushed.length

theorem new_holds : new.Holds [] := ⟨by simp [new], rfl, .inr rfl⟩

variable {s : SpoolBuffer} {pushed : List UInt8}

theorem Holds.length (h : s.Holds pushed) : s.buf.length = pushed.length - s.bytesAcked := by
  rw [h.buf, List.length_drop]

theorem Holds.headOffset (h : s.Holds pushed) : s.headOffset = pushed.length := by
  have hl := h.length
  have hle := h.le
  unfold SpoolBuffer.headOffset
  rcases h.head with he | he
  · rw [he]
    show s.bytesAcked + s.buf.length = pushed.length
    omega
  · rw [he]

theorem Holds.push (h : s.Holds pushed) (hopen : s.head ≠ .eof) (data : List UInt8) :
    (s.push data).Holds (pushed ++ data) := by
  have hle := h.le
  refine ⟨?_, ?_, ?_⟩
  · simp only [SpoolBuffer.push, List.length_append]
    omega
  · simp only [SpoolBuffer.push, h.buf]
    rw [List.drop_append_of_le_length hle]
  · rcases h.head with he | he
    · exact absurd he hopen
    · right
      simp [SpoolBuffer.push, he]

theorem Holds.markEof (h : s.Holds pushed) : s.markEof.Holds pushed := ⟨h.le, h.buf, .inl rfl⟩

/-- However much is acknowledged, no more is released than was pushed. -/
theorem ack_bytesAcked_min (h : s.Holds pushed) (upTo : Nat) :
    (s.ack upTo).bytesAcked = max s.bytesAcked (min upTo pushed.length) := by
  have hl := h.length
  have hle := h.le
  unfold ack
  split
  · omega
  · simp only
    omega

theorem ack_bytesAcked (h : s.Holds pushed) {upTo : Nat} (hle : upTo ≤ pushed.length) :
    (s.ack upTo).bytesAcked = max s.bytesAcked upTo := by
  rw [ack_bytesAcked_min h, Nat.min_eq_left hle]

@[simp] theorem ack_head (s : SpoolBuffer) (upTo : Nat) : (s.ack upTo).head = s.head := by
  unfold ack
  split <;> rfl

theorem Holds.ack (h : s.Holds pushed) (upTo : Nat) : (s.ack upTo).Holds pushed := by
  refine ⟨?_, ?_, ?_⟩
  · rw [ack_bytesAcked_min h]
    have := h.le
    omega
  · unfold SpoolBuffer.ack
    split
    · exact h.buf
    · simp only [h.buf, List.drop_drop]
  · rw [ack_head]
    exact h.head

/-- A slice is a non-empty run of the pushed bytes from the given offset on. -/
theorem Holds.sliceFrom (h : s.Holds pushed) {q : Nat} (ha : s.bytesAcked ≤ q) (hq : q < pushed.length) (split : Nat) :
    s.sliceFrom split q <+: pushed.drop q ∧ s.sliceFrom split q ≠ [] := by
  have hl := h.length
  have hdrop : s.buf.drop (q - s.bytesAcked) = pushed.drop q := by
    rw [h.buf, List.drop_drop]
    congr 1
    omega
  unfold SpoolBuffer.sliceFrom
  simp only [List.length_take]
  split
  · rename_i hlt
    -- The rest of the first segment is a prefix of the rest of the buffer.
    constructor
    · rw [← hdrop, List.drop_take]
      exact List.take_prefix _ _
    · intro hnil
      have := congrArg List.length hnil
      simp only [List.length_drop, List.length_take, List.length_nil] at this
      omega
  · rename_i hge
    have hsum : split + (q - s.bytesAcked - min split s.buf.length) = q - s.bytesAcked := by omega
    rw [List.drop_drop, hsum, hdrop]
    refine ⟨List.prefix_rfl, ?_⟩
    intro hnil
    have := congrArg List.length hnil
    simp only [List.length_drop, List.length_nil] at this
    omega

end SpoolBuffer

end Quelay.Agent
