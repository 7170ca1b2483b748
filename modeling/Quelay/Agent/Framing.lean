/-
  Quelay.Agent.Framing — the wire format (`quelay-agent/src/framing.rs`) and the pump's
  `encode_chunk` (`rate_limiter.rs`).

  A writer returns the bytes it writes (the writes themselves succeed); a reader takes
  them off a stream that may end anywhere. `serde_json` is a parameter: a pair of
  functions for each type. Errors carry the source's texts, with tokio's text for the end
  of the stream.

  Proved: chunks survive any cut of the stream up to the last whole one, with the end of
  the stream told apart from a cut inside a chunk (`chunk_stream_codec`); headers and
  wormhole messages are read back with what follows them left over, a proper prefix is an
  error, and a successful read takes exactly the frame (`framing_round_trip`).
-/

import Quelay.Lib.Wire
import Quelay.Agent.Spool
import Quelay.Domain.Scheduler
import Mathlib.Data.Finmap

namespace Quelay.Agent.Framing

open Quelay.Lib Quelay.Domain

/-! ## Constants -/

def magic : UInt8 := 0x51

def version : UInt8 := 0x01

def opNewStream : UInt8 := 0x01

def opReconnect : UInt8 := 0x02

def fixedHeaderLen : Nat := 8

def maxJsonPayload : Nat := 65535

def chunkHeaderLen : Nat := 10

/-! ## Types -/

/-- `QueLayError::Transport`, the only error of the framing. -/
inductive QueLayError where
  | transport (message : String)
  deriving DecidableEq, Repr

structure StreamHeader where
  uuid : Uuid
  priority : UInt8
  sizeBytes : Option UInt64
  attrs : Finmap fun _ : String => String
  deriving DecidableEq

structure ReconnectHeader where
  uuid : Uuid
  replayFrom : UInt64
  deriving DecidableEq, Repr

inductive StreamOpen where
  | new (header : StreamHeader)
  | reconnect (header : ReconnectHeader)
  deriving DecidableEq

inductive WormholeMsg where
  | ack (bytesReceived : UInt64)
  | done
  | error (code : UInt32) (reason : String)
  deriving DecidableEq, Repr

structure Chunk where
  streamOffset : UInt64
  payload : List UInt8
  deriving DecidableEq, Repr

structure FixedHeader where
  opcode : UInt8
  payloadLen : UInt32
  deriving DecidableEq, Repr

/-- `serde_json::to_vec` and `from_slice` at one type. -/
structure SerdeJson (α : Type) where
  toVec : α → Except String (List UInt8)
  fromSlice : List UInt8 → Except String α

/-- The value is serialized to `payload`, and read back from it. -/
def SerdeJson.Inverts {α : Type} (json : SerdeJson α) (a : α) (payload : List UInt8) : Prop :=
  json.toVec a = .ok payload ∧ json.fromSlice payload = .ok a

/-! ## Texts -/

/-- `{:02X}`. -/
def hex2 (b : UInt8) : String :=
  String.ofList [(Nat.digitChar (b.toNat / 16)).toUpper, (Nat.digitChar (b.toNat % 16)).toUpper]

/-- The text of tokio's `read_exact` at the end of the stream. -/
def earlyEof : String := "early eof"

/-! ## The fixed header -/

namespace FixedHeader

def parse (buf : List UInt8) : Except QueLayError FixedHeader :=
  if buf.getD 0 0 ≠ magic then
    .error (.transport s!"framing bad magic: expected 0x{hex2 magic}, got 0x{hex2 (buf.getD 0 0)}")
  else if buf.getD 1 0 ≠ version then
    .error (.transport s!"framing unsupported version: expected 0x{hex2 version}, got 0x{hex2 (buf.getD 1 0)}")
  else
    -- The fourth byte is reserved.
    let payloadLen := fromBeBytes ((buf.drop 4).take 4)
    if maxJsonPayload < payloadLen then
      .error (.transport s!"framing payload_len {payloadLen} exceeds max {maxJsonPayload}")
    else .ok ⟨buf.getD 2 0, UInt32.ofNat payloadLen⟩

def bytes (h : FixedHeader) : List UInt8 := [magic, version, h.opcode, 0] ++ toBeBytes 4 h.payloadLen.toNat

end FixedHeader

/-! ## Writers -/

section Writers

variable {α : Type}

/-- What the three writers share: the texts of their errors, how the preamble is built and
    the type differ. -/
def writeFramed (json : SerdeJson α) (kind what : String) (fixed : UInt32 → List UInt8) (a : α) :
    Except QueLayError (List UInt8) := do
  let payload ← (json.toVec a).mapError fun e => .transport s!"{kind} serialize error: {e}"
  if maxJsonPayload < payload.length then
    throw (.transport s!"{kind} payload {payload.length} exceeds max {maxJsonPayload}")
  if 2 ^ 32 ≤ payload.length then
    throw (.transport s!"{what} payload exceeds 4 GiB")
  return fixed (UInt32.ofNat payload.length) ++ payload

def writeConnectHeader (json : SerdeJson StreamHeader) (header : StreamHeader) : Except QueLayError (List UInt8) :=
  writeFramed json "framing" "stream header"
    (fun payloadLen => [magic, version, opNewStream, 0x00] ++ toBeBytes 4 payloadLen.toNat) header

def writeReconnectHeader (json : SerdeJson ReconnectHeader) (header : ReconnectHeader) :
    Except QueLayError (List UInt8) :=
  writeFramed json "framing" "reconnect header"
    (fun payloadLen => [magic, version, opReconnect, 0x00] ++ toBeBytes 4 payloadLen.toNat) header

def writeWormholeMsg (json : SerdeJson WormholeMsg) (msg : WormholeMsg) : Except QueLayError (List UInt8) :=
  writeFramed json "wormhole" "wormhole" (fun payloadLen => FixedHeader.bytes ⟨opNewStream, payloadLen⟩) msg

end Writers

def writeChunk (streamOffset : UInt64) (payload : List UInt8) : Except QueLayError (List UInt8) :=
  if payload.length < 2 ^ 16 then
    .ok (toBeBytes 8 streamOffset.toNat ++ toBeBytes 2 payload.length ++ payload)
  else .error (.transport "chunk payload exceeds 65535 bytes")

/-- `payload.len() as u16` truncates. -/
def encodeChunk (streamOffset : UInt64) (payload : List UInt8) : List UInt8 :=
  toBeBytes 8 streamOffset.toNat ++ toBeBytes 2 (UInt16.ofNat payload.length).toNat ++ payload

/-! ## Readers -/

/-- The preamble and the payload of either reader. -/
def readFramed (kind : String) : Reader QueLayError (FixedHeader × List UInt8) := do
  let fixed ← readExact fixedHeaderLen (.transport s!"{kind} read fixed header: {earlyEof}")
  let header ← FixedHeader.parse fixed
  if maxJsonPayload < header.payloadLen.toNat then
    throw (.transport s!"{kind} payload_len {header.payloadLen} exceeds max {maxJsonPayload}")
  let payload ← readExact header.payloadLen.toNat (.transport s!"{kind} read payload: {earlyEof}")
  return (header, payload)

def deserialize {α : Type} (json : SerdeJson α) (kind : String) (payload : List UInt8) : Except QueLayError α :=
  (json.fromSlice payload).mapError fun e => .transport s!"{kind} deserialize error: {e}"

def readStreamOpen (connect : SerdeJson StreamHeader) (reconnect : SerdeJson ReconnectHeader) :
    Reader QueLayError StreamOpen := do
  let (header, payload) ← readFramed "framing"
  if header.opcode = opNewStream then
    return .new (← deserialize connect "framing" payload)
  else if header.opcode = opReconnect then
    return .reconnect (← deserialize reconnect "framing" payload)
  else throw (.transport s!"framing unknown opcode: 0x{hex2 header.opcode}")

def readWormholeMsg (json : SerdeJson WormholeMsg) : Reader QueLayError WormholeMsg := do
  let (_, payload) ← readFramed "wormhole"
  deserialize json "wormhole" payload

/-- `None` is the end of the stream before a first byte. -/
def readChunk : Reader QueLayError (Option Chunk) := do
  match ← get with
  | [] => return none
  | first :: rest =>
    set rest
    let hdr := [first] ++ (← readExact (chunkHeaderLen - 1) (.transport s!"chunk read header[1..]: {earlyEof}"))
    let streamOffset := fromBeBytes (hdr.take 8)
    let payloadLen := fromBeBytes ((hdr.drop 8).take 2)
    if chunkSize < payloadLen then
      throw (.transport s!"chunk payload_len {payloadLen} exceeds CHUNK_SIZE {chunkSize}")
    let payload ← readExact payloadLen (.transport s!"chunk read payload: {earlyEof}")
    return some ⟨UInt64.ofNat streamOffset, payload⟩

/-! ## Chunks -/

/-- What a chunk's header says: where the payload belongs, and its length. -/
def chunkHeader (hdr : List UInt8) : Except QueLayError (Nat × Nat) :=
  let payloadLen := fromBeBytes ((hdr.drop 8).take 2)
  if chunkSize < payloadLen then
    .error (.transport s!"chunk payload_len {payloadLen} exceeds CHUNK_SIZE {chunkSize}")
  else .ok (fromBeBytes (hdr.take 8), payloadLen)

/-- The rest of a chunk, once there is a first byte. -/
def readChunkFrame : Reader QueLayError ((Nat × Nat) × List UInt8) :=
  readFrame chunkHeaderLen chunkHeader (·.2) (.transport s!"chunk read header[1..]: {earlyEof}")
    (.transport s!"chunk read payload: {earlyEof}")

@[simp] theorem readChunk_nil : readChunk [] = .ok (none, []) := rfl

theorem readChunk_eq {bs : List UInt8} (h : bs ≠ []) : readChunk bs =
    match readChunkFrame bs with
    | .error e => .error e
    | .ok ((header, payload), rest) => .ok (some ⟨UInt64.ofNat header.1, payload⟩, rest) := by
  obtain ⟨first, rest, rfl⟩ := List.exists_cons_of_ne_nil h
  have hlen : (first :: rest).length = rest.length + 1 := rfl
  have hten : chunkHeaderLen = 10 := rfl
  have htake : (first :: rest).take chunkHeaderLen = [first] ++ rest.take (chunkHeaderLen - 1) := rfl
  have hdrop : (first :: rest).drop chunkHeaderLen = rest.drop (chunkHeaderLen - 1) := rfl
  rw [readChunkFrame, readFrame_eq, hlen, htake, chunkHeader]
  simp only [readChunk, bind, StateT.bind, get, getThe, MonadStateOf.get, StateT.get, set, Reader.set_apply, Except.bind,
    pure, Except.pure, readExact]
  by_cases hn : rest.length < chunkHeaderLen - 1
  · rw [if_pos hn, if_pos (by omega)]
  · rw [if_neg hn, if_neg (by omega)]
    dsimp only
    by_cases hbig : chunkSize < fromBeBytes ((([first] ++ rest.take (chunkHeaderLen - 1)).drop 8).take 2)
    · rw [if_pos hbig, if_pos hbig]
      rfl
    · rw [if_neg hbig, if_neg hbig]
      simp only [StateT.bind, bind, Except.bind, readExact]
      by_cases hs : (rest.drop (chunkHeaderLen - 1)).length <
          fromBeBytes ((([first] ++ rest.take (chunkHeaderLen - 1)).drop 8).take 2)
      · rw [if_pos hs, if_pos (by rw [List.length_drop] at hs; omega)]
      · rw [if_neg hs, if_neg (by rw [List.length_drop] at hs; omega), ← List.drop_drop, hdrop]
        rfl

/-- A chunk that a sender may write. -/
def Chunk.Fits (c : Chunk) : Prop := c.payload.length ≤ chunkSize

def Chunk.encode (c : Chunk) : List UInt8 := encodeChunk c.streamOffset c.payload

def encodeChunks (cs : List Chunk) : List UInt8 := (cs.map Chunk.encode).flatten

@[simp] theorem Chunk.length_encode (c : Chunk) : c.encode.length = chunkHeaderLen + c.payload.length := by
  simp only [Chunk.encode, encodeChunk, chunkHeaderLen, List.length_append, length_toBeBytes]

/-- The header and the payload of an encoded chunk. -/
theorem Chunk.Fits.encode_eq {c : Chunk} (h : c.Fits) : ∃ hdr, c.encode = hdr ++ c.payload ∧ hdr.length = chunkHeaderLen ∧
    chunkHeader hdr = .ok (c.streamOffset.toNat, c.payload.length) := by
  have hlen : c.payload.length < 2 ^ 16 := Nat.lt_of_le_of_lt h (by decide)
  have hfit : ¬ chunkSize < c.payload.length := Nat.not_lt.mpr h
  have hlow : (UInt16.ofNat c.payload.length).toNat = c.payload.length := by
    rw [UInt16.toNat_ofNat', Nat.mod_eq_of_lt hlen]
  refine ⟨toBeBytes 8 c.streamOffset.toNat ++ toBeBytes 2 c.payload.length, ?_, ?_, ?_⟩
  · rw [Chunk.encode, encodeChunk, hlow]
  · simp [chunkHeaderLen]
  · have hoff : c.streamOffset.toNat < 256 ^ 8 := c.streamOffset.toNat_lt
    rw [chunkHeader, List.drop_left' (by simp), List.take_left' (by simp), List.take_of_length_le (by simp),
      fromBeBytes_of_lt hoff, fromBeBytes_of_lt (k := 2) hlen, if_neg hfit]

theorem writeChunk_eq_encodeChunk {c : Chunk} (h : c.Fits) :
    writeChunk c.streamOffset c.payload = .ok (encodeChunk c.streamOffset c.payload) := by
  have hlen : c.payload.length < 2 ^ 16 := Nat.lt_of_le_of_lt h (by decide)
  rw [writeChunk, if_pos hlen, encodeChunk, UInt16.toNat_ofNat', Nat.mod_eq_of_lt hlen]

theorem readChunk_append {c : Chunk} (h : c.Fits) (tail : List UInt8) :
    readChunk (c.encode ++ tail) = .ok (some c, tail) := by
  obtain ⟨hdr, henc, hlen, hparse⟩ := h.encode_eq
  have hne : c.encode ++ tail ≠ [] := by
    intro he
    have := congrArg List.length he
    simp [chunkHeaderLen] at this
  rw [readChunk_eq hne, henc, readChunkFrame, readFrame_append hlen hparse rfl]
  simp

theorem readChunk_cut {c : Chunk} (h : c.Fits) {k : Nat} (hpos : 0 < k) (hk : k < c.encode.length) :
    ∃ e, readChunk (c.encode.take k) = .error e := by
  obtain ⟨hdr, henc, hlen, hparse⟩ := h.encode_eq
  have hne : c.encode.take k ≠ [] := by
    intro he
    have := congrArg List.length he
    rw [List.length_take, List.length_nil] at this
    omega
  rw [henc] at hk
  obtain ⟨e, he⟩ : ∃ e, readChunkFrame ((hdr ++ c.payload).take k) = .error e := readFrame_cut hlen hparse rfl hk
  exact ⟨e, by rw [readChunk_eq hne, henc, he]⟩

/-- A chunk takes bytes off the stream. -/
theorem readChunk_length {bs rest : List UInt8} {c : Chunk} (h : readChunk bs = .ok (some c, rest)) :
    rest.length < bs.length := by
  by_cases hne : bs = []
  · subst hne
    cases h
  · rw [readChunk_eq hne] at h
    cases hf : readChunkFrame bs with
    | error e => rw [hf] at h; cases h
    | ok r =>
      obtain ⟨⟨header, payload⟩, rest'⟩ := r
      rw [hf] at h
      cases h
      obtain ⟨_, _, hle, hrest⟩ := readFrame_ok hf
      have := List.length_pos_iff.mpr hne
      rw [hrest, List.length_drop]
      simp only [chunkHeaderLen] at *
      omega

/-- `read_chunk` returns no longer payload. -/
theorem readChunk_fits {bs rest : List UInt8} {c : Chunk} (h : readChunk bs = .ok (some c, rest)) : c.Fits := by
  by_cases hne : bs = []
  · subst hne
    cases h
  · rw [readChunk_eq hne] at h
    cases hf : readChunkFrame bs with
    | error e => rw [hf] at h; cases h
    | ok r =>
      obtain ⟨⟨header, payload⟩, rest'⟩ := r
      rw [hf] at h
      cases h
      obtain ⟨hp, hlen, _⟩ := readFrame_ok hf
      unfold chunkHeader at hp
      dsimp only at hp
      split at hp
      · cases hp
      · rename_i hbig
        cases hp
        exact hlen.le.trans (Nat.not_lt.mp hbig)

/-- `read_chunk` again and again, until it reports the end or fails. -/
def readChunks (bs : List UInt8) : List Chunk × Except QueLayError Unit :=
  match _h : readChunk bs with
  | .error e => ([], .error e)
  | .ok (none, _) => ([], .ok ())
  | .ok (some c, rest) =>
    let (cs, last) := readChunks rest
    (c :: cs, last)
termination_by bs.length
decreasing_by exact readChunk_length _h

theorem readChunks_nil : readChunks [] = ([], .ok ()) := by
  rw [readChunks]
  rfl

theorem readChunks_error {bs : List UInt8} {e : QueLayError} (h : readChunk bs = .error e) :
    readChunks bs = ([], .error e) := by
  rw [readChunks]
  split <;> simp_all

theorem readChunks_append {c : Chunk} (h : c.Fits) (tail : List UInt8) :
    readChunks (c.encode ++ tail) = (c :: (readChunks tail).1, (readChunks tail).2) := by
  have hread := readChunk_append h tail
  rw [readChunks]
  split <;> simp_all

/-- The chunks whose last byte is before the cut. -/
def wholeBefore : Nat → List Chunk → List Chunk
  | _, [] => []
  | cut, c :: cs => if c.encode.length ≤ cut then c :: wholeBefore (cut - c.encode.length) cs else []

/-- The cut is the end of some chunk, or the start. -/
def OnBoundary (cs : List Chunk) (cut : Nat) : Prop := ∃ k, cut = (encodeChunks (cs.take k)).length

theorem onBoundary_cons {c : Chunk} {cs : List Chunk} {cut : Nat} (h : c.encode.length ≤ cut) :
    OnBoundary (c :: cs) cut ↔ OnBoundary cs (cut - c.encode.length) := by
  have hpos : 0 < c.encode.length := by
    rw [Chunk.length_encode, chunkHeaderLen]
    omega
  constructor
  · rintro ⟨k, hk⟩
    cases k with
    | zero =>
      have h0 : cut = 0 := by simpa [encodeChunks] using hk
      omega
    | succ k =>
      refine ⟨k, ?_⟩
      rw [List.take_succ_cons, encodeChunks, List.map_cons, List.flatten_cons, List.length_append] at hk
      simp only [encodeChunks]
      omega
  · rintro ⟨k, hk⟩
    refine ⟨k + 1, ?_⟩
    rw [List.take_succ_cons, encodeChunks, List.map_cons, List.flatten_cons, List.length_append]
    simp only [encodeChunks] at hk
    omega

/-- A cut inside the first chunk is on a boundary only at the start. -/
theorem onBoundary_first {c : Chunk} {cs : List Chunk} {cut : Nat} (h : cut < c.encode.length) :
    OnBoundary (c :: cs) cut ↔ cut = 0 := by
  constructor
  · rintro ⟨k, hk⟩
    cases k with
    | zero => simpa [encodeChunks] using hk
    | succ k =>
      rw [List.take_succ_cons, encodeChunks, List.map_cons, List.flatten_cons, List.length_append] at hk
      omega
  · rintro rfl
    exact ⟨0, by simp [encodeChunks]⟩

/-- Reading a cut stream gives the whole chunks, then the end or an error. -/
theorem readChunks_cut {cs : List Chunk} (h : ∀ c ∈ cs, c.Fits) {cut : Nat} (hcut : cut ≤ (encodeChunks cs).length) :
    (readChunks ((encodeChunks cs).take cut)).1 = wholeBefore cut cs ∧
      (OnBoundary cs cut → (readChunks ((encodeChunks cs).take cut)).2 = .ok ()) ∧
      (¬ OnBoundary cs cut → ∃ e, (readChunks ((encodeChunks cs).take cut)).2 = .error e) := by
  induction cs generalizing cut with
  | nil =>
    have h0 : cut = 0 := by simpa [encodeChunks] using hcut
    subst h0
    have hon : OnBoundary [] 0 := ⟨0, rfl⟩
    rw [List.take_zero, readChunks_nil]
    exact ⟨rfl, fun _ => rfl, fun hnot => absurd hon hnot⟩
  | cons c cs ih =>
    have hc := h c List.mem_cons_self
    have hsplit : encodeChunks (c :: cs) = c.encode ++ encodeChunks cs := rfl
    rw [hsplit, List.length_append] at hcut
    by_cases hle : c.encode.length ≤ cut
    · -- The first chunk is whole.
      have htake : (encodeChunks (c :: cs)).take cut = c.encode ++ (encodeChunks cs).take (cut - c.encode.length) := by
        rw [hsplit, List.take_append, List.take_of_length_le hle]
      have hrest : cut - c.encode.length ≤ (encodeChunks cs).length := by omega
      obtain ⟨hwhole, hend, herr⟩ := ih (fun c' hc' => h c' (List.mem_cons_of_mem _ hc')) hrest
      rw [htake, readChunks_append hc, wholeBefore, if_pos hle, onBoundary_cons hle]
      exact ⟨by rw [hwhole], hend, herr⟩
    · have hlt : cut < c.encode.length := by omega
      have htake : (encodeChunks (c :: cs)).take cut = c.encode.take cut := by
        rw [hsplit, List.take_append_of_le_length (by omega)]
      rw [htake, wholeBefore, if_neg hle, onBoundary_first hlt]
      by_cases h0 : cut = 0
      · subst h0
        rw [List.take_zero, readChunks_nil]
        exact ⟨rfl, fun _ => rfl, fun hnot => absurd rfl hnot⟩
      · obtain ⟨e, he⟩ := readChunk_cut hc (by omega) hlt
        rw [readChunks_error he]
        exact ⟨rfl, fun h => absurd h h0, fun _ => ⟨e, rfl⟩⟩

/-- The two encoders agree, and a cut stream of chunks is read up to the last whole chunk,
    then to its end or to an error. -/
theorem chunk_stream_codec :
    (∀ c : Chunk, c.Fits → writeChunk c.streamOffset c.payload = .ok (encodeChunk c.streamOffset c.payload)) ∧
      ∀ (cs : List Chunk) (cut : Nat), (∀ c ∈ cs, c.Fits) → cut ≤ (encodeChunks cs).length →
        (readChunks ((encodeChunks cs).take cut)).1 = wholeBefore cut cs ∧
          (OnBoundary cs cut → (readChunks ((encodeChunks cs).take cut)).2 = .ok ()) ∧
          (¬ OnBoundary cs cut → ∃ e, (readChunks ((encodeChunks cs).take cut)).2 = .error e) :=
  ⟨fun _ h => writeChunk_eq_encodeChunk h, fun _ _ h hcut => readChunks_cut h hcut⟩

/-- Two chunks, one of them empty, cut in the header of the second. -/
theorem chunk_stream_codec_two :
    ∃ e, readChunks ((encodeChunks [⟨5, [1, 2]⟩, ⟨7, []⟩]).take 13) = ([⟨5, [1, 2]⟩], .error e) := by
  have h := chunk_stream_codec.2 [⟨5, [1, 2]⟩, ⟨7, []⟩] 13 (by simp [Chunk.Fits, chunkSize]) (by decide)
  have hnot : ¬ OnBoundary [⟨5, [1, 2]⟩, ⟨7, []⟩] 13 := by
    rintro ⟨k, hk⟩
    rcases k with _ | _ | k
    · revert hk; decide
    · revert hk; decide
    · rw [List.take_of_length_le (by simp)] at hk
      revert hk; decide
  have hwhole : wholeBefore 13 [⟨5, [1, 2]⟩, ⟨7, []⟩] = [⟨5, [1, 2]⟩] := by decide
  obtain ⟨e, he⟩ := h.2.2 hnot
  exact ⟨e, Prod.ext (h.1.trans hwhole) he⟩

/-! ## Headers and wormhole messages -/

theorem FixedHeader.parse_ok {buf : List UInt8} {h : FixedHeader} (hp : parse buf = .ok h) :
    h.payloadLen.toNat = fromBeBytes ((buf.drop 4).take 4) ∧ h.payloadLen.toNat ≤ maxJsonPayload := by
  unfold parse at hp
  split at hp
  · cases hp
  · split at hp
    · cases hp
    · dsimp only at hp
      split at hp
      · cases hp
      · rename_i hle
        cases hp
        have hlt : fromBeBytes ((buf.drop 4).take 4) < 2 ^ 32 := by
          simp only [maxJsonPayload] at hle
          omega
        dsimp only
        rw [UInt32.toNat_ofNat', Nat.mod_eq_of_lt hlt]
        exact ⟨rfl, by omega⟩

/-- The preamble of a payload. -/
def preamble (opcode : UInt8) (payload : List UInt8) : List UInt8 :=
  [magic, version, opcode, 0] ++ toBeBytes 4 payload.length

@[simp] theorem length_preamble (opcode : UInt8) (payload : List UInt8) :
    (preamble opcode payload).length = fixedHeaderLen := by
  simp [preamble, fixedHeaderLen]

theorem parse_preamble (opcode : UInt8) {payload : List UInt8} (h : payload.length ≤ maxJsonPayload) :
    FixedHeader.parse (preamble opcode payload) = .ok ⟨opcode, UInt32.ofNat payload.length⟩ := by
  have hlen : fromBeBytes (((preamble opcode payload).drop 4).take 4) = payload.length := by
    show fromBeBytes ((toBeBytes 4 payload.length).take 4) = payload.length
    rw [List.take_of_length_le (by simp), fromBeBytes_of_lt]
    simp only [maxJsonPayload] at h
    omega
  rw [FixedHeader.parse, hlen, if_neg (by simp [preamble]), if_neg (by simp [preamble])]
  dsimp only
  rw [if_neg (Nat.not_lt.mpr h)]
  rfl

/-- The second check of the length never fails. -/
theorem readFramed_eq (kind : String) : readFramed kind =
    readFrame fixedHeaderLen FixedHeader.parse (·.payloadLen.toNat)
      (.transport s!"{kind} read fixed header: {earlyEof}") (.transport s!"{kind} read payload: {earlyEof}") := by
  funext bs
  simp only [readFramed, readFrame, bind, StateT.bind, Except.bind]
  cases readExact fixedHeaderLen (QueLayError.transport s!"{kind} read fixed header: {earlyEof}") bs with
  | error e => rfl
  | ok r =>
    simp only [liftM, monadLift, MonadLift.monadLift, StateT.lift, bind, Except.bind]
    cases hp : FixedHeader.parse r.1 with
    | error e => rfl
    | ok header =>
      simp only [pure, Except.pure]
      rw [if_neg (Nat.not_lt.mpr (FixedHeader.parse_ok hp).2)]
      rfl

theorem readFramed_append (kind : String) (opcode : UInt8) {payload : List UInt8} (h : payload.length ≤ maxJsonPayload)
    (tail : List UInt8) : readFramed kind (preamble opcode payload ++ payload ++ tail) =
      .ok ((⟨opcode, UInt32.ofNat payload.length⟩, payload), tail) := by
  have hsize : payload.length = (UInt32.ofNat payload.length).toNat := by
    rw [UInt32.toNat_ofNat', Nat.mod_eq_of_lt]
    simp only [maxJsonPayload] at h
    omega
  rw [readFramed_eq]
  exact readFrame_append (length_preamble _ _) (parse_preamble opcode h) hsize tail

theorem readFramed_cut (kind : String) (opcode : UInt8) {payload : List UInt8} (h : payload.length ≤ maxJsonPayload) {k : Nat}
    (hk : k < (preamble opcode payload ++ payload).length) :
    ∃ e, readFramed kind ((preamble opcode payload ++ payload).take k) = .error e := by
  have hsize : payload.length = (UInt32.ofNat payload.length).toNat := by
    rw [UInt32.toNat_ofNat', Nat.mod_eq_of_lt]
    simp only [maxJsonPayload] at h
    omega
  rw [readFramed_eq]
  exact readFrame_cut (length_preamble _ _) (parse_preamble opcode h) hsize hk

/-- A reader has taken one frame: the preamble and the payload it announces. -/
def TookFrame (bs rest : List UInt8) : Prop :=
  ∃ payloadLen, payloadLen = fromBeBytes ((bs.drop 4).take 4) ∧ payloadLen ≤ maxJsonPayload ∧
    fixedHeaderLen + payloadLen ≤ bs.length ∧ rest = bs.drop (fixedHeaderLen + payloadLen)

theorem readFramed_ok {kind : String} {bs rest payload : List UInt8} {header : FixedHeader}
    (h : readFramed kind bs = .ok ((header, payload), rest)) : TookFrame bs rest := by
  rw [readFramed_eq] at h
  obtain ⟨hp, _, hle, hrest⟩ := readFrame_ok h
  obtain ⟨hlen, hmax⟩ := FixedHeader.parse_ok hp
  refine ⟨header.payloadLen.toNat, ?_, hmax, hle, hrest⟩
  rw [hlen, List.drop_take, List.take_take]
  rfl

/-! ### Writers -/

section Writers

variable {α : Type} {json : SerdeJson α} {a : α} {payload : List UInt8}

theorem writeFramed_eq (kind what : String) (fixed : UInt32 → List UInt8) (h : json.toVec a = .ok payload) :
    writeFramed json kind what fixed a =
      if maxJsonPayload < payload.length then
        .error (.transport s!"{kind} payload {payload.length} exceeds max {maxJsonPayload}")
      else .ok (fixed (UInt32.ofNat payload.length) ++ payload) := by
  simp only [writeFramed, h, Except.mapError, bind, Except.bind, pure, Except.pure, throw, throwThe, MonadExceptOf.throw]
  by_cases hbig : maxJsonPayload < payload.length
  · rw [if_pos hbig, if_pos hbig]
  · have hsmall : ¬ 2 ^ 32 ≤ payload.length := by
      simp only [maxJsonPayload] at hbig
      omega
    rw [if_neg hbig, if_neg hbig, if_neg hsmall]

/-- A writer with the usual preamble: it writes the frame, if the payload is small enough. -/
theorem writeFramed_frame (kind what : String) {fixed : UInt32 → List UInt8} {opcode : UInt8}
    (hfixed : ∀ len : UInt32, fixed len = [magic, version, opcode, 0] ++ toBeBytes 4 len.toNat)
    (h : json.toVec a = .ok payload) :
    (payload.length ≤ maxJsonPayload ∧ writeFramed json kind what fixed a = .ok (preamble opcode payload ++ payload)) ∨
      (maxJsonPayload < payload.length ∧ ∃ e, writeFramed json kind what fixed a = .error e) := by
  rw [writeFramed_eq kind what fixed h]
  by_cases hbig : maxJsonPayload < payload.length
  · exact .inr ⟨hbig, _, if_pos hbig⟩
  · have hlen : (UInt32.ofNat payload.length).toNat = payload.length := by
      rw [UInt32.toNat_ofNat', Nat.mod_eq_of_lt]
      simp only [maxJsonPayload] at hbig
      omega
    refine .inl ⟨by omega, ?_⟩
    rw [if_neg hbig, hfixed, hlen, preamble]

end Writers

/-! ### Readers -/

/-- The reader decodes the payload of one frame. -/
def ReadsBy {β : Type} (r : Reader QueLayError β) (kind : String)
    (decode : FixedHeader → List UInt8 → Except QueLayError β) : Prop :=
  ∀ bs, r bs =
    match readFramed kind bs with
    | .error e => .error e
    | .ok ((header, payload), rest) => (decode header payload).map (·, rest)

section ReadsBy

variable {β : Type} {r : Reader QueLayError β} {kind : String} {decode : FixedHeader → List UInt8 → Except QueLayError β}

theorem ReadsBy.append (h : ReadsBy r kind decode) {opcode : UInt8} {payload : List UInt8} {v : β}
    (hlen : payload.length ≤ maxJsonPayload) (hv : ∀ len, decode ⟨opcode, len⟩ payload = .ok v) (tail : List UInt8) :
    r (preamble opcode payload ++ payload ++ tail) = .ok (v, tail) := by
  rw [h, readFramed_append kind opcode hlen]
  dsimp only
  rw [hv]
  rfl

theorem ReadsBy.cut (h : ReadsBy r kind decode) {opcode : UInt8} {payload : List UInt8}
    (hlen : payload.length ≤ maxJsonPayload) {k : Nat} (hk : k < (preamble opcode payload ++ payload).length) :
    ∃ e, r ((preamble opcode payload ++ payload).take k) = .error e := by
  obtain ⟨e, he⟩ := readFramed_cut kind opcode hlen hk
  exact ⟨e, by rw [h, he]⟩

theorem ReadsBy.took (h : ReadsBy r kind decode) {bs rest : List UInt8} {v : β} (hr : r bs = .ok (v, rest)) :
    TookFrame bs rest := by
  rw [h] at hr
  cases hf : readFramed kind bs with
  | error e => rw [hf] at hr; cases hr
  | ok x =>
    obtain ⟨⟨header, payload⟩, rest'⟩ := x
    rw [hf] at hr
    dsimp only at hr
    cases hd : decode header payload with
    | error e => rw [hd] at hr; cases hr
    | ok v' =>
      rw [hd] at hr
      cases hr
      exact readFramed_ok hf

end ReadsBy

/-- The payload of a stream-open frame, by its opcode. -/
def decodeOpen (connect : SerdeJson StreamHeader) (reconnect : SerdeJson ReconnectHeader) (header : FixedHeader)
    (payload : List UInt8) : Except QueLayError StreamOpen :=
  if header.opcode = opNewStream then (deserialize connect "framing" payload).map .new
  else if header.opcode = opReconnect then (deserialize reconnect "framing" payload).map .reconnect
  else .error (.transport s!"framing unknown opcode: 0x{hex2 header.opcode}")

theorem readStreamOpen_reads (connect : SerdeJson StreamHeader) (reconnect : SerdeJson ReconnectHeader) :
    ReadsBy (readStreamOpen connect reconnect) "framing" (decodeOpen connect reconnect) := by
  intro bs
  simp only [readStreamOpen, bind, StateT.bind, Except.bind]
  cases readFramed "framing" bs with
  | error e => rfl
  | ok x =>
    obtain ⟨⟨header, payload⟩, rest⟩ := x
    simp only [decodeOpen]
    by_cases hn : header.opcode = opNewStream
    · rw [if_pos hn, if_pos hn]
      cases deserialize connect "framing" payload <;>
        simp [liftM, monadLift, MonadLift.monadLift, StateT.lift, bind, StateT.bind, Except.bind, Except.map, pure,
          Reader.pure_apply, Except.pure]
    · rw [if_neg hn, if_neg hn]
      by_cases hr : header.opcode = opReconnect
      · rw [if_pos hr, if_pos hr]
        cases deserialize reconnect "framing" payload <;>
          simp [liftM, monadLift, MonadLift.monadLift, StateT.lift, bind, StateT.bind, Except.bind, Except.map, pure,
            Reader.pure_apply, Except.pure]
      · rw [if_neg hr, if_neg hr]
        rfl

theorem readWormholeMsg_reads (json : SerdeJson WormholeMsg) :
    ReadsBy (readWormholeMsg json) "wormhole" fun _ payload => deserialize json "wormhole" payload := by
  intro bs
  simp only [readWormholeMsg, bind, StateT.bind, Except.bind]
  cases readFramed "wormhole" bs with
  | error e => rfl
  | ok x =>
    obtain ⟨⟨header, payload⟩, rest⟩ := x
    cases hd : deserialize json "wormhole" payload <;>
      simp [liftM, monadLift, MonadLift.monadLift, StateT.lift, bind, Except.bind, hd, Except.map, pure, Except.pure]

theorem SerdeJson.Inverts.deserialize {α : Type} {json : SerdeJson α} {a : α} {payload : List UInt8}
    (h : json.Inverts a payload) (kind : String) : Framing.deserialize json kind payload = .ok a := by
  rw [Framing.deserialize, h.2]
  rfl

/-! ### Round trips -/

/-- What is written is read back from any stream it starts, if it is small enough to be
    written at all, and from no proper prefix. -/
structure RoundTrips {β : Type} (written : Except QueLayError (List UInt8)) (payload : List UInt8) (r : Reader QueLayError β)
    (v : β) : Prop where
  succeeds : (∃ bytes, written = .ok bytes) ↔ payload.length ≤ maxJsonPayload
  reads : ∀ bytes tail, written = .ok bytes → r (bytes ++ tail) = .ok (v, tail)
  cut : ∀ bytes k, written = .ok bytes → k < bytes.length → ∃ e, r (bytes.take k) = .error e

theorem ReadsBy.roundTrips {α β : Type} {r : Reader QueLayError β} {kind : String}
    {decode : FixedHeader → List UInt8 → Except QueLayError β} (h : ReadsBy r kind decode) {json : SerdeJson α} {a : α}
    {payload : List UInt8} {kind' what : String} {fixed : UInt32 → List UInt8} {opcode : UInt8} {v : β}
    (hfixed : ∀ len : UInt32, fixed len = [magic, version, opcode, 0] ++ toBeBytes 4 len.toNat)
    (hinv : json.Inverts a payload) (hv : ∀ len, decode ⟨opcode, len⟩ payload = .ok v) :
    RoundTrips (writeFramed json kind' what fixed a) payload r v := by
  rcases writeFramed_frame kind' what hfixed hinv.1 with ⟨hlen, hw⟩ | ⟨hbig, e, hw⟩
  · refine ⟨⟨fun _ => hlen, fun _ => ⟨_, hw⟩⟩, ?_, ?_⟩
    · intro bytes tail hb
      cases hw.symm.trans hb
      exact h.append hlen hv tail
    · intro bytes k hb hk
      cases hw.symm.trans hb
      exact h.cut hlen hk
  · refine ⟨⟨?_, fun hlen => absurd hlen (by omega)⟩, ?_, ?_⟩
    · rintro ⟨bytes, hb⟩
      cases hw.symm.trans hb
    · intro bytes tail hb
      cases hw.symm.trans hb
    · intro bytes k hb
      cases hw.symm.trans hb

/-- The framing of headers and wormhole messages: round trips of each writer and of any
    sequence of messages, no proper prefix is read, and whatever is read is one frame. -/
theorem framing_round_trip (connect : SerdeJson StreamHeader) (reconnect : SerdeJson ReconnectHeader)
    (wormhole : SerdeJson WormholeMsg) :
    (∀ header payload, connect.Inverts header payload →
      RoundTrips (writeConnectHeader connect header) payload (readStreamOpen connect reconnect) (.new header)) ∧
    (∀ header payload, reconnect.Inverts header payload →
      RoundTrips (writeReconnectHeader reconnect header) payload (readStreamOpen connect reconnect) (.reconnect header)) ∧
    (∀ msg payload, wormhole.Inverts msg payload →
      RoundTrips (writeWormholeMsg wormhole msg) payload (readWormholeMsg wormhole) msg) ∧
    (∀ msgs frames tail, (∀ msg ∈ msgs, ∃ payload, wormhole.Inverts msg payload) →
      List.Forall₂ (fun msg bytes => writeWormholeMsg wormhole msg = .ok bytes) msgs frames →
      readTimes (readWormholeMsg wormhole) msgs.length (frames.flatten ++ tail) = .ok (msgs, tail)) ∧
    (∀ bs v rest, readStreamOpen connect reconnect bs = .ok (v, rest) → TookFrame bs rest) ∧
    (∀ bs v rest, readWormholeMsg wormhole bs = .ok (v, rest) → TookFrame bs rest) := by
  have hopen := readStreamOpen_reads connect reconnect
  have hmsg := readWormholeMsg_reads wormhole
  have hworm : ∀ msg payload, wormhole.Inverts msg payload →
      RoundTrips (writeWormholeMsg wormhole msg) payload (readWormholeMsg wormhole) msg :=
    fun msg payload hinv => hmsg.roundTrips (fun _ => rfl) hinv fun _ => hinv.deserialize "wormhole"
  refine ⟨?_, ?_, hworm, ?_, fun bs v rest h => hopen.took h, fun bs v rest h => hmsg.took h⟩
  · intro header payload hinv
    refine hopen.roundTrips (fun _ => rfl) hinv fun len => ?_
    rw [decodeOpen, if_pos rfl, hinv.deserialize]
    rfl
  · intro header payload hinv
    refine hopen.roundTrips (fun _ => rfl) hinv fun len => ?_
    rw [decodeOpen, if_neg (show opReconnect ≠ opNewStream by decide), if_pos rfl, hinv.deserialize]
    rfl
  · intro msgs frames tail hinv hw
    refine readTimes_flatten ?_ tail
    induction hw with
    | nil => exact .nil
    | @cons msg bytes msgs frames hb _ ih =>
      refine .cons (fun tail => ?_) (ih fun m hm => hinv m (List.mem_cons_of_mem _ hm))
      obtain ⟨payload, hp⟩ := hinv msg List.mem_cons_self
      exact (hworm msg payload hp).reads bytes tail hb

/-- The JSON text of `Done`, an object with the one member `"type": "Done"`. -/
def doneJson : List UInt8 := [123, 34, 116, 121, 112, 101, 34, 58, 34, 68, 111, 110, 101, 34, 125]

/-- `serde_json` as far as `Done` goes. -/
def doneSerde : SerdeJson WormholeMsg where
  toVec msg := if msg = .done then .ok doneJson else .error "not modelled"
  fromSlice payload := if payload = doneJson then .ok .done else .error "not modelled"

/-- Two messages, followed by other bytes. -/
theorem framing_round_trip_done :
    ∃ frame, writeWormholeMsg doneSerde .done = .ok frame ∧
      readTimes (readWormholeMsg doneSerde) 2 ([frame, frame].flatten ++ [7]) = .ok ([.done, .done], [7]) := by
  have hinv : doneSerde.Inverts .done doneJson := ⟨rfl, rfl⟩
  let other {α : Type} : SerdeJson α := ⟨fun _ => .error "not modelled", fun _ => .error "not modelled"⟩
  obtain ⟨_, _, hmsg, hseq, _⟩ := framing_round_trip other other doneSerde
  obtain ⟨frame, hw⟩ := (hmsg .done doneJson hinv).succeeds.mpr (by decide)
  refine ⟨frame, hw, hseq [.done, .done] [frame, frame] [7] ?_ (.cons hw (.cons hw .nil))⟩
  intro msg hm
  obtain rfl : msg = .done := by simpa using hm
  exact ⟨doneJson, hinv⟩

end Quelay.Agent.Framing
