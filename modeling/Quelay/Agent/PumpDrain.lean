/-
  Quelay.Agent.PumpDrain — one whole call of `drain_alloc` (`rate_limiter.rs`), with the
  spool to itself.

  The call is a function of the spool, of where the ring splits its bytes, and of what
  each write answers; it ends in `waitForLinkUp` at the first write that fails. Each turn
  of the loop takes the smallest of the segment's rest, the chunk size and what is left
  of the ticket. With writes that succeed the turns add up to the ticket or to the
  spool's end, wherever the ring wraps (`drain_alloc_exact`).
-/

import Quelay.Agent.Framing

namespace Quelay.Agent.PumpDrain

open Framing

/-- The pump's fields that `drain_alloc` reads and changes, with every `write_all` it has
    made and every `shutdown` of the write half counted. -/
structure StreamPump where
  q : Nat
  qAtomic : Nat
  done : Bool
  finishing : Bool
  written : List (List UInt8)
  shutdowns : Nat
  deriving DecidableEq, Repr

/-- How the loop ends: with the code behind it, or in `wait_for_link_up`. -/
inductive DrainEnd where
  | returned
  | waitForLinkUp
  deriving DecidableEq, Repr

namespace StreamPump

def shutdown (p : StreamPump) : StreamPump := { p with shutdowns := p.shutdowns + 1, done := true }

/-- The chunk a turn cuts off the spool. -/
def nextChunk (s : SpoolBuffer) (split chunkSize remaining q : Nat) : List UInt8 :=
  let slice := s.sliceFrom split q
  slice.take (min (min slice.length chunkSize) remaining)

/-- What a successful write leaves. -/
def wrote (p : StreamPump) (chunk : List UInt8) : StreamPump :=
  { p with
    written := p.written ++ [encodeChunk (UInt64.ofNat p.q) chunk]
    q := p.q + chunk.length
    qAtomic := p.q + chunk.length }

def drainLoop (s : SpoolBuffer) (split chunkSize : Nat) (writeOk : Nat → Bool) (remaining : Nat) (p : StreamPump) :
    StreamPump × DrainEnd :=
  if remaining = 0 then (p, .returned)
  else if s.head = .eof ∧ s.headOffset ≤ p.q then (if p.finishing then p.shutdown else p, .returned)
  else if s.headOffset ≤ p.q then (p, .returned)
  else if _h : nextChunk s split chunkSize remaining p.q = [] then (p, .returned)
  else if writeOk p.written.length then
    drainLoop s split chunkSize writeOk (remaining - (nextChunk s split chunkSize remaining p.q).length)
      (p.wrote (nextChunk s split chunkSize remaining p.q))
  else (p, .waitForLinkUp)
termination_by remaining
decreasing_by
  have := List.length_pos_of_ne_nil _h
  omega

def drainAlloc (s : SpoolBuffer) (split chunkSize : Nat) (writeOk : Nat → Bool) (budget : Nat) (p : StreamPump) :
    StreamPump × DrainEnd :=
  match drainLoop s split chunkSize writeOk budget p with
  | (p, .waitForLinkUp) => (p, .waitForLinkUp)
  -- The budget may have ended on the last byte, before the loop saw the sentinel.
  | (p, .returned) =>
    (if p.finishing ∧ s.head = .eof ∧ s.headOffset - p.q = 0 then p.shutdown else p, .returned)

end StreamPump

/-! ## What the spool holds -/

/-- `head - bytes_acked == buf.len()`, up to the sentinel. -/
def WellFormed (s : SpoolBuffer) : Prop := s.head = .eof ∨ s.head = .at (s.bytesAcked + s.buf.length)

theorem WellFormed.headOffset {s : SpoolBuffer} (h : WellFormed s) : s.headOffset = s.bytesAcked + s.buf.length := by
  unfold SpoolBuffer.headOffset
  rcases h with h | h <;> rw [h]

/-- The bytes from `q` on. -/
def bytesFrom (s : SpoolBuffer) (q : Nat) : List UInt8 := s.buf.drop (q - s.bytesAcked)

theorem length_bytesFrom {s : SpoolBuffer} (h : WellFormed s) {q : Nat} (ha : s.bytesAcked ≤ q) :
    (bytesFrom s q).length = s.headOffset - q := by
  rw [bytesFrom, List.length_drop, h.headOffset]
  omega

/-- The segment's rest is a non-empty beginning of the bytes from `q` on. -/
theorem sliceFrom_spec {s : SpoolBuffer} (h : WellFormed s) {q : Nat} (ha : s.bytesAcked ≤ q) (hq : q < s.headOffset)
    (split : Nat) : s.sliceFrom split q <+: bytesFrom s q ∧ s.sliceFrom split q ≠ [] := by
  -- The bytes acknowledged are gone; any others in their place will do.
  have hholds : s.Holds (List.replicate s.bytesAcked 0 ++ s.buf) := by
    refine ⟨by simp, by simp, ?_⟩
    rcases h with h | h
    · exact .inl h
    · exact .inr (by simp [h])
  have hspec := hholds.sliceFrom ha (by rw [← hholds.headOffset]; exact hq) split
  have hfrom : (List.replicate s.bytesAcked 0 ++ s.buf).drop q = bytesFrom s q := by
    rw [List.drop_append, List.length_replicate, List.drop_of_length_le (by simpa using ha)]
    rfl
  rwa [hfrom] at hspec

/-! ## The loop -/

/-- Chunks that follow each other from `q` on. -/
def Consecutive : Nat → List Chunk → Prop
  | _, [] => True
  | q, c :: cs => c.streamOffset.toNat = q ∧ Consecutive (q + c.payload.length) cs

section

variable {s : SpoolBuffer} {split chunkSize remaining : Nat} {writeOk : Nat → Bool} {p : StreamPump}

variable (split) in
/-- A turn with something left to send cuts off a beginning of it. -/
theorem nextChunk_spec (h : WellFormed s) (ha : s.bytesAcked ≤ p.q) (hq : p.q < s.headOffset) (hr : 0 < remaining)
    (hc : 0 < chunkSize) :
    StreamPump.nextChunk s split chunkSize remaining p.q ≠ [] ∧
      (StreamPump.nextChunk s split chunkSize remaining p.q).length ≤ chunkSize ∧
      (StreamPump.nextChunk s split chunkSize remaining p.q).length ≤ remaining ∧
      StreamPump.nextChunk s split chunkSize remaining p.q <+: bytesFrom s p.q := by
  obtain ⟨hpre, hne⟩ := sliceFrom_spec h ha hq split
  have hpos := List.length_pos_of_ne_nil hne
  have hlen : (StreamPump.nextChunk s split chunkSize remaining p.q).length =
      min (min (s.sliceFrom split p.q).length chunkSize) remaining := by
    simp only [StreamPump.nextChunk, List.length_take]
    omega
  refine ⟨List.ne_nil_of_length_pos (by omega), by omega, by omega, ?_⟩
  exact (List.take_prefix _ _).trans hpre

/-- From `p` to `r`, `n` bytes were sent as `chunks`; the write half is shut down only
    at the end of a stream that is to be finished. -/
structure Sent (s : SpoolBuffer) (chunkSize n : Nat) (p r : StreamPump) (chunks : List Chunk) : Prop where
  written : r.written = p.written ++ chunks.map Chunk.encode
  sizes : ∀ c ∈ chunks, c.payload ≠ [] ∧ c.payload.length ≤ chunkSize
  offsets : Consecutive p.q chunks
  bytes : (chunks.map (·.payload)).flatten = (bytesFrom s p.q).take n
  q : r.q = p.q + n
  qAtomic : p.qAtomic = p.q → r.qAtomic = r.q
  finishing : r.finishing = p.finishing
  fin : (r.shutdowns = p.shutdowns ∧ r.done = p.done) ∨
    (p.finishing = true ∧ s.head = .eof ∧ r.q = s.headOffset ∧ r.shutdowns = p.shutdowns + 1 ∧ r.done = true)

theorem Sent.nothing : Sent s chunkSize 0 p p [] :=
  ⟨by simp, by simp, trivial, by simp, rfl, fun h => h, rfl, .inl ⟨rfl, rfl⟩⟩

theorem Sent.shutdown (hf : p.finishing = true) (he : s.head = .eof) (hq : p.q = s.headOffset) :
    Sent s chunkSize 0 p p.shutdown [] :=
  ⟨by simp [StreamPump.shutdown], by simp, trivial, by simp, rfl, fun h => h, rfl, .inr ⟨hf, he, hq, rfl, rfl⟩⟩

/-- A chunk in front of what the rest of the loop sends. -/
theorem Sent.cons {chunk : List UInt8} {n : Nat} {r : StreamPump} {chunks : List Chunk}
    (h : Sent s chunkSize n (p.wrote chunk) r chunks) (hne : chunk ≠ []) (hle : chunk.length ≤ chunkSize)
    (hq : p.q < 2 ^ 64) (ha : s.bytesAcked ≤ p.q) (hpre : chunk <+: bytesFrom s p.q) :
    Sent s chunkSize (chunk.length + n) p r (⟨UInt64.ofNat p.q, chunk⟩ :: chunks) := by
  obtain ⟨rest, hrest⟩ := hpre
  have hnext : bytesFrom s (p.q + chunk.length) = rest := by
    have hdrop : bytesFrom s (p.q + chunk.length) = (bytesFrom s p.q).drop chunk.length := by
      unfold bytesFrom
      rw [List.drop_drop]
      congr 1
      omega
    rw [hdrop, ← hrest, List.drop_left]
  refine ⟨?_, ?_, ⟨UInt64.toNat_ofNat_of_lt' hq, h.offsets⟩, ?_, ?_, fun _ => h.qAtomic rfl, h.finishing, h.fin⟩
  · rw [h.written]
    simp [StreamPump.wrote, Chunk.encode]
  · intro c hc
    rcases List.mem_cons.mp hc with rfl | hc
    · exact ⟨hne, hle⟩
    · exact h.sizes c hc
  · have hbytes := h.bytes
    rw [show (p.wrote chunk).q = p.q + chunk.length from rfl, hnext] at hbytes
    rw [List.map_cons, List.flatten_cons, hbytes, ← hrest, List.take_length_add_append]
  · rw [h.q]
    show p.q + chunk.length + n = _
    omega

variable (split remaining) in
/-- When every write succeeds, the loop sends everything up to the ticket or the
    spool's end. -/
theorem drainLoop_sent (h : WellFormed s) (hu64 : s.headOffset < 2 ^ 64) (hc : 0 < chunkSize) (hw : ∀ i, writeOk i = true)
    (ha : s.bytesAcked ≤ p.q) (hq : p.q ≤ s.headOffset) :
    ∃ chunks r, StreamPump.drainLoop s split chunkSize writeOk remaining p = (r, .returned) ∧
      Sent s chunkSize (min remaining (s.headOffset - p.q)) p r chunks := by
  fun_induction StreamPump.drainLoop s split chunkSize writeOk remaining p with
  | case1 p => exact ⟨[], p, rfl, by rw [Nat.zero_min]; exact .nothing⟩
  | case2 remaining p hr heof =>
    have hzero : min remaining (s.headOffset - p.q) = 0 := by omega
    rw [hzero]
    by_cases hf : p.finishing = true
    · exact ⟨[], p.shutdown, by rw [if_pos hf], .shutdown hf heof.1 (by omega)⟩
    · exact ⟨[], p, by rw [if_neg hf], .nothing⟩
  | case3 remaining p hr heof hend =>
    have hzero : min remaining (s.headOffset - p.q) = 0 := by omega
    exact ⟨[], p, rfl, by rw [hzero]; exact .nothing⟩
  | case4 remaining p hr heof hend hnil =>
    exact absurd hnil (nextChunk_spec split h ha (by omega) (by omega) hc).1
  | case5 remaining p hr heof hend hne hok ih =>
    obtain ⟨_, hsize, hticket, hpre⟩ := nextChunk_spec split h ha (by omega) (Nat.pos_of_ne_zero hr) hc
    have hroom : (StreamPump.nextChunk s split chunkSize remaining p.q).length ≤ s.headOffset - p.q := by
      rw [← length_bytesFrom h ha]
      exact hpre.length_le
    obtain ⟨chunks, r, hrun, hsent⟩ := ih (Nat.le_trans ha (Nat.le_add_right _ _))
      (by simp only [StreamPump.wrote]; omega)
    have hcons := hsent.cons hne hsize (by omega) ha hpre
    have hsum : (StreamPump.nextChunk s split chunkSize remaining p.q).length +
        min (remaining - (StreamPump.nextChunk s split chunkSize remaining p.q).length)
          (s.headOffset - (p.wrote (StreamPump.nextChunk s split chunkSize remaining p.q)).q) =
        min remaining (s.headOffset - p.q) := by
      simp only [StreamPump.wrote]
      omega
    rw [hsum] at hcons
    exact ⟨_, r, hrun, hcons⟩
  | case6 remaining p hr heof hend hne hok => exact absurd (hw _) hok

/-! ## The call -/

/-- Chunks that fit the framing are read back one by one. -/
theorem readChunks_encodeChunks {cs : List Chunk} (h : ∀ c ∈ cs, c.Fits) : readChunks (encodeChunks cs) = (cs, .ok ()) := by
  induction cs with
  | nil => exact readChunks_nil
  | cons c cs ih =>
    have hrest := ih fun d hd => h d (List.mem_cons_of_mem _ hd)
    have hsplit : encodeChunks (c :: cs) = c.encode ++ encodeChunks cs := rfl
    rw [hsplit, readChunks_append (h c List.mem_cons_self), hrest]

end

/-- With the spool to itself and writes that succeed, a call sends the next bytes of the
    spool, as many as the ticket and the spool have, in chunks that the framing reads
    back; and it shuts the write half down exactly when the stream is to be finished, at
    its end, and all sent. -/
theorem drain_alloc_exact (s : SpoolBuffer) (split size budget : Nat) (writeOk : Nat → Bool) (p : StreamPump)
    (h : WellFormed s) (hu64 : s.headOffset < 2 ^ 64) (hsize : 0 < size ∧ size ≤ chunkSize)
    (hq : s.bytesAcked ≤ p.q ∧ p.q ≤ s.headOffset) (hsync : p.qAtomic = p.q) (hw : ∀ i, writeOk i = true) :
    ∃ chunks r, p.drainAlloc s split size writeOk budget = (r, .returned) ∧
      r.written = p.written ++ chunks.map Chunk.encode ∧
      (∀ c ∈ chunks, c.payload ≠ [] ∧ c.payload.length ≤ size) ∧
      readChunks (chunks.map Chunk.encode).flatten = (chunks, .ok ()) ∧
      Consecutive p.q chunks ∧
      (chunks.map (·.payload)).flatten = (bytesFrom s p.q).take (min budget (s.headOffset - p.q)) ∧
      r.q = p.q + min budget (s.headOffset - p.q) ∧ r.qAtomic = p.qAtomic + min budget (s.headOffset - p.q) ∧
      (p.shutdowns < r.shutdowns ↔ p.finishing = true ∧ s.head = .eof ∧ r.q = s.headOffset) ∧
      r.done = (p.done || decide (p.finishing = true ∧ s.head = .eof ∧ r.q = s.headOffset)) := by
  obtain ⟨chunks, r, hrun, hsent⟩ := drainLoop_sent split budget h hu64 hsize.1 hw hq.1 hq.2
  have hfits : ∀ c ∈ chunks, c.Fits := fun c hc => Nat.le_trans (hsent.sizes c hc).2 hsize.2
  have hatomic : r.qAtomic = p.qAtomic + min budget (s.headOffset - p.q) := by
    rw [hsent.qAtomic hsync, hsent.q, hsync]
  have hend : (r.finishing = true ∧ s.head = .eof ∧ s.headOffset - r.q = 0) ↔
      (p.finishing = true ∧ s.head = .eof ∧ r.q = s.headOffset) := by
    have hlast : s.headOffset - r.q = 0 ↔ r.q = s.headOffset := by
      have := hsent.q
      omega
    rw [hsent.finishing, hlast]
  unfold StreamPump.drainAlloc
  rw [hrun]
  by_cases hfin : p.finishing = true ∧ s.head = .eof ∧ r.q = s.headOffset
  · simp only [if_pos (hend.mpr hfin)]
    refine ⟨chunks, r.shutdown, rfl, hsent.written, hsent.sizes, readChunks_encodeChunks hfits, hsent.offsets, hsent.bytes,
      hsent.q, hatomic, ⟨fun _ => hfin, fun _ => ?_⟩, ?_⟩
    · show p.shutdowns < r.shutdowns + 1
      rcases hsent.fin with hf | hf <;> omega
    · have : decide (p.finishing = true ∧ s.head = .eof ∧ r.shutdown.q = s.headOffset) = true := decide_eq_true hfin
      rw [this, Bool.or_true]
      rfl
  · simp only [if_neg fun hx => hfin (hend.mp hx)]
    obtain ⟨hshut, hdone⟩ := hsent.fin.resolve_right fun hf => hfin ⟨hf.1, hf.2.1, hf.2.2.1⟩
    refine ⟨chunks, r, rfl, hsent.written, hsent.sizes, readChunks_encodeChunks hfits, hsent.offsets, hsent.bytes,
      hsent.q, hatomic, ⟨fun hlt => by omega, fun hf => absurd hf hfin⟩, ?_⟩
    rw [decide_eq_false hfin, Bool.or_false, hdone]

/-- A ring that wraps after its second byte, and a ticket without limit at the end of
    the stream. -/
theorem drain_wrapped_ring :
    ∃ (chunks : List Chunk) (r : StreamPump), StreamPump.drainAlloc ⟨[1, 2, 3, 4, 5], 10, .eof⟩ 2 chunkSize (fun _ => true) (2 ^ 64 - 1)
        ⟨11, 11, false, true, [], 0⟩ = (r, .returned) ∧
      (chunks.map Chunk.payload).flatten = [2, 3, 4, 5] ∧ r.q = 15 ∧ 0 < r.shutdowns := by
  obtain ⟨chunks, r, hrun, -, -, -, -, hbytes, hq, -, hfin, -⟩ :=
    drain_alloc_exact ⟨[1, 2, 3, 4, 5], 10, .eof⟩ 2 chunkSize (2 ^ 64 - 1) (fun _ => true) ⟨11, 11, false, true, [], 0⟩
      (.inl rfl) (by decide) (by decide) (by decide) rfl (fun _ => rfl)
  exact ⟨chunks, r, hrun, hbytes, hq, hfin.mpr ⟨rfl, rfl, hq⟩⟩

end Quelay.Agent.PumpDrain
