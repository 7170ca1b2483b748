/-
  Quelay.Agent.Ring — `SpoolBuffer` in machine words, under every interleaving of its
  callers (`run_tcp_reader`, `handle_eof`, the ack task and the pump in
  `quelay-agent/src/active_stream.rs`).

  Offsets are `u64` and `usize` has 64 bits; additions and subtractions wrap, as in a
  release build. A debug build panics where one would overflow or a `debug_assert` would
  fail: `noOverflow`, `available` and `room` of `Abstracts` and `Moves.read` say that
  below 2^64 bytes none does.

  The reader looks for room in one critical section and pushes in a later one. In between
  only acks come, and they only make room. The EOF marking overwrites `head` with
  `u64::MAX`; from then on `head_offset` is computed from what acks move.

  Every operation on words is the operation of `Quelay.Agent.Spool` on unbounded offsets,
  as long as fewer than 2^64 bytes were read (`step_window`): so the spool is exactly the
  unacknowledged part of the stream (`spool_is_stream_window`). At 2^64 bytes `head`
  starts again at 0 (`long_stream_wraps`).
-/

import Quelay.Agent.Spool
import Quelay.Lib.Machine
import Mathlib.Algebra.GroupWithZero.Nat

namespace Quelay.Agent.Ring

open Quelay.Lib

/-! ## The buffer -/

/-- `u64::MAX`, the EOF sentinel in `head`. -/
def eofSentinel : UInt64 := 0xffffffffffffffff

structure SpoolBuffer where
  buf : List UInt8
  bytesAcked : UInt64
  head : UInt64
  deriving DecidableEq, Repr

namespace SpoolBuffer

def new : SpoolBuffer := ⟨[], 0, 0⟩

def available (s : SpoolBuffer) : UInt64 := .ofNat spoolCapacity - .ofNat s.buf.length

def headOffset (s : SpoolBuffer) : UInt64 :=
  if s.head = eofSentinel then s.bytesAcked + .ofNat s.buf.length else s.head

def push (s : SpoolBuffer) (data : List UInt8) : SpoolBuffer :=
  { s with buf := s.buf ++ data, head := s.head + .ofNat data.length }

def ack (s : SpoolBuffer) (upTo : UInt64) : SpoolBuffer :=
  if upTo ≤ s.bytesAcked then s
  else
    let n := min (upTo - s.bytesAcked).toNat s.buf.length
    { s with buf := s.buf.drop n, bytesAcked := s.bytesAcked + .ofNat n }

/-- `as_slices` may split the ring anywhere: the first segment has `split` bytes. `none`
    where the index is out of range. -/
def sliceFrom (s : SpoolBuffer) (split : Nat) (offset : UInt64) : Option (List UInt8) :=
  let start := (offset - s.bytesAcked).toNat
  let first := s.buf.take split
  let second := s.buf.drop split
  if start < first.length then some (first.drop start)
  else if start - first.length ≤ second.length then some (second.drop (start - first.length))
  else none

/-- The critical section of `handle_eof`. -/
def handleEof (s : SpoolBuffer) : SpoolBuffer :=
  if s.head = eofSentinel then s else { s with head := eofSentinel }

end SpoolBuffer

/-! ## Its callers -/

/-- Where `run_tcp_reader` stands: before it has seen room for a chunk, in `tcp.read`,
    or returned. -/
inductive Reader where
  | space
  | read
  | ended
  deriving DecidableEq, Repr

structure State where
  spool : SpoolBuffer
  reader : Reader
  /-- The bytes of the input that `tcp.read` has returned. -/
  taken : Nat
  deriving DecidableEq, Repr

def State.init : State := ⟨.new, .space, 0⟩

inductive Act where
  /-- The reader sees `available() >= CHUNK_SIZE` and lets go of the lock. -/
  | space
  /-- `tcp.read` returns `n` bytes and the reader pushes them. -/
  | read (n : Nat)
  /-- `tcp.read` returns 0 or an error, and the reader marks EOF. -/
  | eof
  /-- The ack task takes a value from the peer. -/
  | ack (upTo : UInt64)
  deriving DecidableEq, Repr

def step (input : List UInt8) (s : State) : Act → Option State
  | .space =>
    if s.reader = .space ∧ .ofNat chunkSize ≤ s.spool.available then some { s with reader := .read } else none
  | .read n =>
    if s.reader = .read ∧ 0 < n ∧ n ≤ chunkSize ∧ s.taken + n ≤ input.length then
      some { spool := s.spool.push ((input.drop s.taken).take n), reader := .space, taken := s.taken + n }
    else none
  | .eof => if s.reader = .read then some { s with spool := s.spool.handleEof, reader := .ended } else none
  | .ack upTo => some { s with spool := s.spool.ack upTo }

/-! ## What the spool is for -/

/-- The spool is the part of the input from `bytes_acked` to `head_offset()`. -/
structure Abstracts (input : List UInt8) (s : State) : Prop where
  head : s.spool.headOffset.toNat = s.taken
  within : s.taken ≤ input.length
  acked : s.spool.bytesAcked.toNat ≤ s.spool.headOffset.toNat
  buf : s.spool.buf =
    (input.drop s.spool.bytesAcked.toNat).take (s.spool.headOffset.toNat - s.spool.bytesAcked.toNat)
  capacity : s.spool.buf.length ≤ spoolCapacity
  available : s.spool.available.toNat + s.spool.buf.length = spoolCapacity
  room : s.reader = .read → chunkSize ≤ s.spool.available.toNat
  noOverflow : s.spool.bytesAcked.toNat + s.spool.buf.length < 2 ^ 64
  slices : ∀ (split : Nat) (q : UInt64), s.spool.bytesAcked ≤ q → q < s.spool.headOffset →
    ∃ slice, s.spool.sliceFrom split q = some slice ∧ slice ≠ [] ∧
      slice <+: (input.drop q.toNat).take (s.spool.headOffset.toNat - q.toNat)

/-- What a step does to the two offsets. -/
structure Moves (s : State) (a : Act) (s' : State) : Prop where
  acked : s.spool.bytesAcked ≤ s'.spool.bytesAcked
  read : ∀ n, a = .read n → s.spool.head.toNat + n < 2 ^ 64 ∧
    s'.spool.headOffset.toNat = s.spool.headOffset.toNat + n
  head : (∀ n, a ≠ .read n) → s'.spool.headOffset = s.spool.headOffset

/-! ## Words and unbounded offsets -/

/-- The spool on unbounded offsets, in words. -/
def words (m : Agent.SpoolBuffer) : SpoolBuffer where
  buf := m.buf
  bytesAcked := .ofNat m.bytesAcked
  head := match m.head with
    | .at offset => .ofNat offset
    | .eof => eofSentinel

@[simp] theorem words_buf (m : Agent.SpoolBuffer) : (words m).buf = m.buf := rfl

theorem toNat_ofNat {n : Nat} (h : n < 2 ^ 64) : (UInt64.ofNat n).toNat = n := UInt64.toNat_ofNat_of_lt' h

section

variable {m : Agent.SpoolBuffer} {pushed : List UInt8}

theorem words_bytesAcked (h : m.Holds pushed) (hlen : pushed.length < 2 ^ 64) :
    (words m).bytesAcked.toNat = m.bytesAcked :=
  toNat_ofNat (Nat.lt_of_le_of_lt h.le hlen)

/-- With the sentinel in `head`, or with as many bytes as the sentinel says, the offset
    is that of the end. -/
theorem words_headOffset (h : m.Holds pushed) : (words m).headOffset = .ofNat pushed.length := by
  have hend : m.bytesAcked + m.buf.length = pushed.length := by
    have hl := h.length
    have hle := h.le
    omega
  unfold SpoolBuffer.headOffset
  split
  · show UInt64.ofNat m.bytesAcked + UInt64.ofNat m.buf.length = _
    rw [← UInt64.ofNat_add, hend]
  · rename_i hsentinel
    rcases h.head with he | he
    · simp [words, he] at hsentinel
    · simp only [words, he]

theorem words_push (hopen : m.head ≠ .eof) (data : List UInt8) : (words m).push data = words (m.push data) := by
  obtain ⟨buf, acked, head⟩ := m
  cases head with
  | eof => exact absurd rfl hopen
  | _ => simp only [words, SpoolBuffer.push, Agent.SpoolBuffer.push, UInt64.ofNat_add]

theorem words_ack (h : m.Holds pushed) (hlen : pushed.length < 2 ^ 64) (upTo : UInt64) :
    (words m).ack upTo = words (m.ack upTo.toNat) := by
  have hacked := words_bytesAcked h hlen
  unfold SpoolBuffer.ack Agent.SpoolBuffer.ack
  by_cases hle : upTo ≤ (words m).bytesAcked
  · have hle' : upTo.toNat ≤ m.bytesAcked := by
      rw [← hacked]
      exact hle
    rw [if_pos hle, if_pos hle']
  · have hle' : ¬ upTo.toNat ≤ m.bytesAcked := by
      rw [← hacked]
      exact hle
    have hsub : (upTo - (words m).bytesAcked).toNat = upTo.toNat - m.bytesAcked := by
      rw [UInt64.toNat_sub_of_le _ _ (UInt64.le_of_lt (UInt64.not_le.mp hle)), hacked]
    rw [if_neg hle, if_neg hle', hsub]
    simp only [words, UInt64.ofNat_add]

theorem words_handleEof (m : Agent.SpoolBuffer) : (words m).handleEof = words m.markEof := by
  unfold SpoolBuffer.handleEof
  split
  · rename_i he
    -- The sentinel is there already.
    show SpoolBuffer.mk _ _ (words m).head = SpoolBuffer.mk _ _ eofSentinel
    rw [he]
    rfl
  · rfl

theorem words_sliceFrom (h : m.Holds pushed) (hlen : pushed.length < 2 ^ 64) {q : UInt64} (ha : m.bytesAcked ≤ q.toNat)
    (hq : q.toNat ≤ pushed.length) (split : Nat) : (words m).sliceFrom split q = some (m.sliceFrom split q.toNat) := by
  have hacked := words_bytesAcked h hlen
  have hl := h.length
  have hstart : (q - (words m).bytesAcked).toNat = q.toNat - m.bytesAcked := by
    rw [UInt64.toNat_sub_of_le _ _ (UInt64.le_iff_toNat_le.mpr (by rw [hacked]; exact ha)), hacked]
  unfold SpoolBuffer.sliceFrom Agent.SpoolBuffer.sliceFrom
  simp only [hstart, words_buf]
  by_cases hlt : q.toNat - m.bytesAcked < (m.buf.take split).length
  · rw [if_pos hlt, if_pos hlt]
  · rw [if_neg hlt, if_neg hlt]
    refine if_pos ?_
    simp only [List.length_take, List.length_drop] at hlt ⊢
    omega

end

theorem words_available {m : Agent.SpoolBuffer} (h : m.buf.length ≤ spoolCapacity) :
    (words m).available.toNat = spoolCapacity - m.buf.length := by
  have hcap : spoolCapacity < 2 ^ 64 := by decide
  have hlen : (UInt64.ofNat m.buf.length).toNat = m.buf.length := toNat_ofNat (Nat.lt_of_le_of_lt h hcap)
  unfold SpoolBuffer.available
  rw [words_buf, UInt64.toNat_sub_of_le, toNat_ofNat hcap, hlen]
  rw [UInt64.le_iff_toNat_le, toNat_ofNat hcap, hlen]
  exact h

/-! ## The spool on unbounded offsets follows every step -/

/-- The state is that of a spool on unbounded offsets which holds the bytes taken so far. -/
structure Window (input : List UInt8) (s : State) (m : Agent.SpoolBuffer) : Prop where
  spool : s.spool = words m
  holds : m.Holds (input.take s.taken)
  within : s.taken ≤ input.length
  capacity : m.buf.length ≤ spoolCapacity
  room : s.reader = .read → m.buf.length + chunkSize ≤ spoolCapacity
  opened : s.reader ≠ .ended → m.head ≠ .eof

/-- What a step does on unbounded offsets. -/
def follow (input : List UInt8) (taken : Nat) (m : Agent.SpoolBuffer) : Act → Agent.SpoolBuffer
  | .space => m
  | .read n => m.push ((input.drop taken).take n)
  | .eof => m.markEof
  | .ack upTo => m.ack upTo.toNat

theorem init_window (input : List UInt8) : Window input .init .new := by
  refine ⟨rfl, Agent.SpoolBuffer.new_holds, Nat.zero_le _, Nat.zero_le _, fun h => ?_, fun _ h => ?_⟩
  · cases h
  · cases h

section

variable {input : List UInt8} {s s' : State} {m : Agent.SpoolBuffer}

theorem Window.length_taken (h : Window input s m) : (input.take s.taken).length = s.taken := by
  rw [List.length_take]
  exact Nat.min_eq_left h.within

theorem Window.taken_lt (h : Window input s m) (hlen : s.taken < 2 ^ 64) : (input.take s.taken).length < 2 ^ 64 := by
  rw [h.length_taken]
  exact hlen

theorem Window.read (h : Window input s m) {n : Nat} (hs : step input s (.read n) = some s') :
    Window input s' (m.push ((input.drop s.taken).take n)) := by
  simp only [step, Option.ite_none_right_eq_some, Option.some.injEq] at hs
  obtain ⟨⟨hreader, _, hn, hfit⟩, rfl⟩ := hs
  have hopen : m.head ≠ .eof := h.opened (by rw [hreader]; simp)
  have htake : input.take s.taken ++ (input.drop s.taken).take n = input.take (s.taken + n) := List.take_add.symm
  have hroom := h.room hreader
  have hdata : ((input.drop s.taken).take n).length ≤ n := List.length_take_le _ _
  refine ⟨?_, ?_, hfit, ?_, by simp, fun _ => ?_⟩
  · simp only
    rw [h.spool, words_push hopen]
  · rw [← htake]
    exact h.holds.push hopen _
  · simp only [Agent.SpoolBuffer.push, List.length_append]
    omega
  · simp only [Agent.SpoolBuffer.push]
    split
    · simp
    · rename_i he
      exact absurd he hopen

/-- An ack only makes room, so what the reader has seen still holds when it pushes. -/
theorem Window.ack (h : Window input s m) (hlen : s.taken < 2 ^ 64) (upTo : UInt64) :
    Window input { s with spool := s.spool.ack upTo } (m.ack upTo.toNat) := by
  have hbuf : (m.ack upTo.toNat).buf.length ≤ m.buf.length := by
    unfold Agent.SpoolBuffer.ack
    split
    · exact Nat.le_refl _
    · simp only [List.length_drop]
      omega
  refine ⟨?_, h.holds.ack _, h.within, Nat.le_trans hbuf h.capacity, fun hr => ?_, fun hr => ?_⟩
  · simp only
    rw [h.spool, words_ack h.holds (h.taken_lt hlen)]
  · have hroom := h.room hr
    omega
  · rw [Agent.SpoolBuffer.ack_head]
    exact h.opened hr

theorem Window.space (h : Window input s m) (hs : step input s .space = some s') : Window input s' m := by
  simp only [step, Option.ite_none_right_eq_some, Option.some.injEq] at hs
  obtain ⟨⟨hreader, hav⟩, rfl⟩ := hs
  have hroom : chunkSize ≤ spoolCapacity - m.buf.length := by
    rw [UInt64.le_iff_toNat_le, h.spool, words_available h.capacity, toNat_ofNat (by decide)] at hav
    exact hav
  refine ⟨h.spool, h.holds, h.within, h.capacity, fun _ => ?_, fun _ => h.opened (by rw [hreader]; simp)⟩
  have hcap := h.capacity
  omega

theorem Window.eof (h : Window input s m) (hs : step input s .eof = some s') : Window input s' m.markEof := by
  simp only [step, Option.ite_none_right_eq_some, Option.some.injEq] at hs
  obtain ⟨_, rfl⟩ := hs
  refine ⟨?_, h.holds.markEof, h.within, h.capacity, by simp, by simp⟩
  simp only
  rw [h.spool, words_handleEof]

theorem step_window (h : Window input s m) (hlen : s.taken < 2 ^ 64) {a : Act} (hs : step input s a = some s') :
    Window input s' (follow input s.taken m a) := by
  cases a with
  | space => exact h.space hs
  | read n => exact h.read hs
  | eof => exact h.eof hs
  | ack upTo =>
    cases hs
    exact h.ack hlen upTo

/-- Only a read takes bytes. -/
theorem step_taken {a : Act} (hs : step input s a = some s') :
    (∃ n, a = .read n ∧ s'.taken = s.taken + n) ∨ (∀ n, a ≠ .read n) ∧ s'.taken = s.taken := by
  cases a with
  | ack upTo =>
    cases hs
    exact .inr ⟨by simp, rfl⟩
  | read n =>
    simp only [step, Option.ite_none_right_eq_some, Option.some.injEq] at hs
    obtain ⟨_, rfl⟩ := hs
    exact .inl ⟨n, rfl, rfl⟩
  | _ =>
    simp only [step, Option.ite_none_right_eq_some, Option.some.injEq] at hs
    obtain ⟨_, rfl⟩ := hs
    exact .inr ⟨by simp, rfl⟩

theorem read_enabled {n : Nat} (hs : step input s (.read n) = some s') : s.reader ≠ .ended := by
  simp only [step, Option.ite_none_right_eq_some] at hs
  rw [hs.1.1]
  simp

theorem step_taken_le {a : Act} (hs : step input s a = some s') : s.taken ≤ s'.taken := by
  rcases step_taken hs with ⟨n, _, hn⟩ | ⟨_, hn⟩ <;> omega

theorem reach_window (h : Reach (step input) anyStep .init s) (hlen : s.taken < 2 ^ 64) : ∃ m, Window input s m := by
  refine Reach.invariant (P := fun s => s.taken < 2 ^ 64 → ∃ m, Window input s m) ?_ ?_ h hlen
  · intro _
    exact ⟨_, init_window input⟩
  · intro s s' a ih _ hs hlen
    have hlt : s.taken < 2 ^ 64 := Nat.lt_of_le_of_lt (step_taken_le hs) hlen
    obtain ⟨m, hm⟩ := ih hlt
    exact ⟨_, step_window hm hlt hs⟩

/-! ## The window of the stream -/

theorem Window.bytesAcked (h : Window input s m) (hlen : s.taken < 2 ^ 64) :
    s.spool.bytesAcked.toNat = m.bytesAcked := by
  rw [h.spool]
  exact words_bytesAcked h.holds (h.taken_lt hlen)

theorem Window.headOffset (h : Window input s m) : s.spool.headOffset = .ofNat s.taken := by
  rw [h.spool, words_headOffset h.holds, h.length_taken]

/-- Before EOF `head` is the offset. -/
theorem Window.head_toNat (h : Window input s m) (hlen : s.taken < 2 ^ 64) (hreader : s.reader ≠ .ended) :
    s.spool.head.toNat = s.taken := by
  rcases h.holds.head with he | he
  · exact absurd he (h.opened hreader)
  · rw [h.spool]
    simp only [words, he, h.length_taken]
    exact toNat_ofNat hlen

theorem Window.headOffset_toNat (h : Window input s m) (hlen : s.taken < 2 ^ 64) :
    s.spool.headOffset.toNat = s.taken := by
  rw [h.headOffset]
  exact toNat_ofNat hlen

theorem Window.slices (h : Window input s m) (hlen : s.taken < 2 ^ 64) (split : Nat) {q : UInt64}
    (ha : s.spool.bytesAcked ≤ q) (hq : q < s.spool.headOffset) :
    ∃ slice, s.spool.sliceFrom split q = some slice ∧ slice ≠ [] ∧
      slice <+: (input.drop q.toNat).take (s.taken - q.toNat) := by
  have ha' : m.bytesAcked ≤ q.toNat := by
    rw [← h.bytesAcked hlen]
    exact ha
  have hq' : q.toNat < (input.take s.taken).length := by
    rw [h.length_taken, ← h.headOffset_toNat hlen]
    exact hq
  obtain ⟨hpre, hne⟩ := h.holds.sliceFrom ha' hq' split
  refine ⟨_, ?_, hne, ?_⟩
  · rw [h.spool]
    exact words_sliceFrom h.holds (h.taken_lt hlen) ha' (Nat.le_of_lt hq') split
  · rw [← List.drop_take]
    exact hpre

theorem Window.abstracts (h : Window input s m) (hlen : s.taken < 2 ^ 64) : Abstracts input s := by
  have hacked := h.bytesAcked hlen
  have hhead := h.headOffset_toNat hlen
  have hle : m.bytesAcked ≤ s.taken := by
    rw [← h.length_taken]
    exact h.holds.le
  have hbuf : s.spool.buf = m.buf := by rw [h.spool, words_buf]
  have hav : s.spool.available.toNat = spoolCapacity - m.buf.length := by
    rw [h.spool]
    exact words_available h.capacity
  have hcap := h.capacity
  refine ⟨hhead, h.within, ?_, ?_, ?_, ?_, fun hr => ?_, ?_, fun split q ha hq => ?_⟩
  · rw [hacked, hhead]
    exact hle
  · rw [hbuf, hacked, hhead, h.holds.buf, List.drop_take]
  · rw [hbuf]
    exact hcap
  · rw [hav, hbuf]
    omega
  · have hroom := h.room hr
    rw [hav]
    omega
  · have hl := h.holds.length
    rw [h.length_taken] at hl
    rw [hacked, hbuf]
    omega
  · rw [hhead]
    exact h.slices hlen split ha hq

theorem Window.moves (h : Window input s m) {a : Act} (hs : step input s a = some s') (hlen' : s'.taken < 2 ^ 64) :
    Moves s a s' := by
  have hlen : s.taken < 2 ^ 64 := Nat.lt_of_le_of_lt (step_taken_le hs) hlen'
  have h' := step_window h hlen hs
  have hle : m.bytesAcked ≤ (follow input s.taken m a).bytesAcked := by
    cases a with
    | ack upTo =>
      show _ ≤ (m.ack upTo.toNat).bytesAcked
      rw [Agent.SpoolBuffer.ack_bytesAcked_min h.holds]
      exact Nat.le_max_left _ _
    | _ => exact Nat.le_refl _
  have hacked : s.spool.bytesAcked ≤ s'.spool.bytesAcked := by
    rw [UInt64.le_iff_toNat_le, h.bytesAcked hlen, h'.bytesAcked hlen']
    exact hle
  rcases step_taken hs with ⟨n, rfl, htaken⟩ | ⟨hread, htaken⟩
  · have hhead := h.head_toNat hlen (read_enabled hs)
    have hoffset := h.headOffset_toNat hlen
    have hoffset' := h'.headOffset_toNat hlen'
    refine ⟨hacked, fun k hk => ?_, fun hno => absurd rfl (hno n)⟩
    cases hk
    omega
  · refine ⟨hacked, fun n hn => absurd hn (hread n), fun _ => ?_⟩
    rw [h.headOffset, h'.headOffset, htaken]

/-- Under every interleaving of reads, acks and the EOF marking, as long as fewer than 2^64
    bytes were read: the spool is the part of the stream from `bytes_acked` to
    `head_offset()`, and each step moves the two offsets as it should. -/
theorem spool_is_stream_window (h : Reach (step input) anyStep .init s) (hlen : s.taken < 2 ^ 64) :
    Abstracts input s ∧ ∀ a s', step input s a = some s' → s'.taken < 2 ^ 64 → Moves s a s' := by
  obtain ⟨m, hm⟩ := reach_window h hlen
  exact ⟨hm.abstracts hlen, fun a s' hs hlen' => hm.moves hs hlen'⟩

end

/-- Three bytes, of which two are acknowledged before the client closes. -/
theorem spool_is_stream_window_three :
    let s : State := ⟨⟨[3], 2, eofSentinel⟩, .ended, 3⟩
    Reach (step [1, 2, 3]) anyStep .init s ∧ Abstracts [1, 2, 3] s ∧
      Moves s (.ack 100) ⟨⟨[], 3, eofSentinel⟩, .ended, 3⟩ := by
  intro s
  have hrun : run (step [1, 2, 3]) .init [.space, .read 3, .ack 2, .space, .eof] = some s := by decide
  have hreach : Reach (step [1, 2, 3]) anyStep .init s := Reach.init.along hrun
  obtain ⟨habs, hmoves⟩ := spool_is_stream_window hreach (by decide)
  exact ⟨hreach, habs, hmoves _ _ (by decide) (by decide)⟩

/-! ## Longer streams -/

section

variable {input : List UInt8}

/-- After `k` chunks, each acknowledged before the next is read. -/
def afterChunks (k : Nat) : State := ⟨⟨[], .ofNat (k * chunkSize), .ofNat (k * chunkSize)⟩, .space, k * chunkSize⟩

/-- The next chunk, read into an empty spool. -/
def chunkRead (input : List UInt8) (k : Nat) : State where
  spool := ⟨(input.drop (k * chunkSize)).take chunkSize, .ofNat (k * chunkSize), .ofNat (k * chunkSize + chunkSize)⟩
  reader := .space
  taken := k * chunkSize + chunkSize

theorem length_chunk {k : Nat} (h : (k + 1) * chunkSize ≤ input.length) :
    ((input.drop (k * chunkSize)).take chunkSize).length = chunkSize := by
  have hsucc : (k + 1) * chunkSize = k * chunkSize + chunkSize := Nat.succ_mul ..
  rw [List.length_take, List.length_drop]
  omega

theorem push_empty (acked head : UInt64) (data : List UInt8) :
    SpoolBuffer.push ⟨[], acked, head⟩ data = ⟨data, acked, head + .ofNat data.length⟩ := rfl

theorem space_chunk (k : Nat) : step input (afterChunks k) .space = some { afterChunks k with reader := .read } := by
  have hroom : UInt64.ofNat chunkSize ≤ (afterChunks k).spool.available := by
    show UInt64.ofNat chunkSize ≤ UInt64.ofNat spoolCapacity - UInt64.ofNat 0
    decide
  simp only [step]
  exact if_pos ⟨rfl, hroom⟩

theorem read_chunk {k : Nat} (h : (k + 1) * chunkSize ≤ input.length) :
    step input { afterChunks k with reader := .read } (.read chunkSize) = some (chunkRead input k) := by
  have hsucc : (k + 1) * chunkSize = k * chunkSize + chunkSize := Nat.succ_mul ..
  simp only [step, afterChunks]
  rw [if_pos ⟨trivial, by decide, Nat.le_refl _, by omega⟩, push_empty, length_chunk h, ← UInt64.ofNat_add]
  rfl

theorem ack_chunk {k : Nat} (h : (k + 1) * chunkSize ≤ input.length) (hlen : (k + 1) * chunkSize < 2 ^ 64) :
    step input (chunkRead input k) (.ack (.ofNat ((k + 1) * chunkSize))) = some (afterChunks (k + 1)) := by
  have hsucc : (k + 1) * chunkSize = k * chunkSize + chunkSize := Nat.succ_mul ..
  have hchunk : 0 < chunkSize := by decide
  have hdata := length_chunk h
  have hto : (UInt64.ofNat ((k + 1) * chunkSize)).toNat = (k + 1) * chunkSize := toNat_ofNat hlen
  have hacked : (UInt64.ofNat (k * chunkSize)).toNat = k * chunkSize := toNat_ofNat (by omega)
  have hgt : UInt64.ofNat (k * chunkSize) < UInt64.ofNat ((k + 1) * chunkSize) := by
    rw [UInt64.lt_iff_toNat_lt, hto, hacked]
    omega
  have hsub : (UInt64.ofNat ((k + 1) * chunkSize) - UInt64.ofNat (k * chunkSize)).toNat = chunkSize := by
    rw [UInt64.toNat_sub_of_le _ _ (UInt64.le_of_lt hgt), hto, hacked]
    omega
  simp only [step, chunkRead, SpoolBuffer.ack, hsub, hdata, Nat.min_self]
  rw [if_neg (UInt64.not_le.mpr hgt), ← UInt64.ofNat_add, ← hsucc, List.drop_of_length_le (Nat.le_of_eq hdata)]
  rfl

theorem reach_afterChunks {k : Nat} (h : k * chunkSize ≤ input.length) (hlen : k * chunkSize < 2 ^ 64) :
    Reach (step input) anyStep .init (afterChunks k) := by
  induction k with
  | zero => exact .init
  | succ k ih =>
    have hsucc : (k + 1) * chunkSize = k * chunkSize + chunkSize := Nat.succ_mul ..
    have hreach := ih (by omega) (by omega)
    have hspace := hreach.step _ trivial (space_chunk k)
    have hread := hspace.step _ trivial (read_chunk h)
    exact hread.step _ trivial (ack_chunk h hlen)

/-- The chunk that completes 2^64 bytes takes `head` back to 0, below `bytes_acked`. -/
theorem long_stream_wraps (h : 2 ^ 64 ≤ input.length) :
    ∃ s, Reach (step input) anyStep .init s ∧ s.spool.headOffset < s.spool.bytesAcked := by
  have hreach : Reach (step input) anyStep .init (afterChunks (2 ^ 50 - 1)) :=
    reach_afterChunks (Nat.le_trans (by decide) h) (by decide)
  have hspace := hreach.step _ trivial (space_chunk (2 ^ 50 - 1))
  have hread := hspace.step _ trivial (read_chunk (Nat.le_trans (by decide) h))
  refine ⟨_, hread, ?_⟩
  have hhead : (chunkRead input (2 ^ 50 - 1)).spool.headOffset = 0 := if_neg (by decide : ¬ (0 : UInt64) = eofSentinel)
  rw [hhead]
  show (0 : UInt64) < UInt64.ofNat ((2 ^ 50 - 1) * chunkSize)
  decide

end

/-- The spool is no window of the stream of 2^64 zero bytes. -/
theorem long_stream_not_window :
    ¬ ∀ s : State, Reach (step (List.replicate (2 ^ 64) 0)) anyStep .init s →
      Abstracts (List.replicate (2 ^ 64) 0) s ∧
        ∀ a s', step (List.replicate (2 ^ 64) 0) s a = some s' → Moves s a s' := by
  intro h
  have hlen : 2 ^ 64 ≤ (List.replicate (2 ^ 64) (0 : UInt8)).length := Nat.le_of_eq List.length_replicate.symm
  obtain ⟨s, hs, hlt⟩ := long_stream_wraps hlen
  have hle := (h s hs).1.acked
  exact absurd (UInt64.lt_iff_toNat_lt.mp hlt) (Nat.not_lt.mpr hle)

end Quelay.Agent.Ring
