/-
  Quelay.Agent.Transfer.WireJson — what `serde_json` writes for the frames of one uplink.

  The JSON texts of `StreamHeader`, `ReconnectHeader` and `WormholeMsg`, and a reader of
  these texts; numbers are in decimal. The codec of an uplink with these texts reads back
  everything a transfer sends (`textCodec_good`).
-/

import Quelay.Agent.Transfer.WireFrames

namespace Quelay.Agent.WireJson

open Quelay.Lib

def utf8 (text : String) : List UInt8 := text.toUTF8.data.toList

/-! ## Numbers -/

def decimal (n : Nat) : List UInt8 := (Nat.toDigits 10 n).map fun ch => UInt8.ofNat ch.toNat

/-- Digits up to the brace that closes the object. -/
def readDecimal (bs : List UInt8) : Option Nat :=
  match bs.reverse with
  | 125 :: digits =>
    let text := digits.reverse.map fun b => Char.ofNat b.toNat
    if text ≠ [] ∧ text.all Char.isDigit then some (Nat.ofDigitChars 10 text 0) else none
  | _ => none

theorem toNat_digit {ch : Char} (h : ch.isDigit) : ch.toNat < 256 := by
  have hle : ch.val ≤ 57 := by
    simp only [Char.isDigit, Bool.and_eq_true, decide_eq_true_eq] at h
    exact h.2
  have hnat : ch.toNat ≤ 57 := UInt32.le_iff_toNat_le.mp hle
  omega

theorem ofNat_digit {ch : Char} (h : ch.isDigit) : Char.ofNat (UInt8.ofNat ch.toNat).toNat = ch := by
  have hlt := toNat_digit h
  rw [UInt8.toNat_ofNat_of_lt' hlt, Char.ofNat_toNat]

theorem map_decimal (n : Nat) : ((decimal n).map fun b => Char.ofNat b.toNat) = Nat.toDigits 10 n := by
  rw [decimal, List.map_map]
  refine (List.map_congr_left ?_).trans (List.map_id _)
  intro ch hch
  exact ofNat_digit (Nat.isDigit_of_mem_toDigits (by omega) (by omega) hch)

theorem readDecimal_decimal (n : Nat) : readDecimal (decimal n ++ [125]) = some n := by
  have hrev : (decimal n ++ [125]).reverse = 125 :: (decimal n).reverse := by simp
  have hall : (Nat.toDigits 10 n).all Char.isDigit = true := by
    rw [List.all_eq_true]
    intro ch hch
    exact Nat.isDigit_of_mem_toDigits (by omega) (by omega) hch
  simp only [readDecimal, hrev, List.reverse_reverse, map_decimal]
  rw [if_pos ⟨Nat.toDigits_ne_nil, hall⟩, Nat.ofDigitChars_ten_toDigits]

/-- Twenty digits are enough for a `u64`. -/
theorem length_decimal {n : Nat} (h : n < 2 ^ 64) : (decimal n).length ≤ 20 := by
  rw [decimal, List.length_map, Nat.length_toDigits_le_iff (by omega) (by omega)]
  omega

/-! ## The texts -/

/-- The number after a text, up to the end of the object. -/
def readAfter (start bs : List UInt8) : Option Nat :=
  if start.isPrefixOf bs then readDecimal (bs.drop start.length) else none

theorem readAfter_append (start : List UInt8) (n : Nat) : readAfter start (start ++ (decimal n ++ [125])) = some n := by
  rw [readAfter, if_pos (List.isPrefixOf_iff_prefix.mpr (List.prefix_append ..)), List.drop_left, readDecimal_decimal]

def reconnectStart (uuid : String) : List UInt8 := utf8 ("\x7b\"uuid\":\"" ++ uuid ++ "\",\"replay_from\":")

def ackStart : List UInt8 := utf8 "\x7b\"type\":\"Ack\",\"bytes_received\":"

def wormholeText : Framing.WormholeMsg → List UInt8
  | .ack n => ackStart ++ (decimal n.toNat ++ [125])
  | .done => utf8 "\x7b\"type\":\"Done\"\x7d"
  | .error code reason =>
    utf8 "\x7b\"type\":\"Error\",\"code\":" ++ decimal code.toNat ++ utf8 ",\"reason\":\"" ++ utf8 reason ++ utf8 "\"\x7d"

/-- The messages without a count. -/
def plainMsgs : List WormholeMsg :=
  [.done, .error .tcpAccept, .error .chunkGap, .error .tcpWrite, .error .tcpRead, .error .handleDropped,
    .error .readerGone]

def wormholeSerde : Framing.SerdeJson Framing.WormholeMsg where
  toVec m := .ok (wormholeText m)
  fromSlice bs :=
    match readAfter ackStart bs with
    | some n => .ok (.ack (UInt64.ofNat n))
    | none =>
      match plainMsgs.find? fun m => wormholeText m.toWire = bs with
      | some m => .ok m.toWire
      | none => .error "unknown variant"

/-- The header of a new stream, as its text. -/
def connectSerde (header : Framing.StreamHeader) (text : String) : Framing.SerdeJson Framing.StreamHeader where
  toVec h := if h = header then .ok (utf8 text) else .error "another header"
  fromSlice bs := if bs = utf8 text then .ok header else .error "another header"

def reconnectSerde (uuid : Domain.Uuid) (text : String) : Framing.SerdeJson Framing.ReconnectHeader where
  toVec h :=
    if h.uuid = uuid then .ok (reconnectStart text ++ (decimal h.replayFrom.toNat ++ [125])) else .error "another uuid"
  fromSlice bs :=
    match readAfter (reconnectStart text) bs with
    | some n => .ok ⟨uuid, UInt64.ofNat n⟩
    | none => .error "another uuid"

/-! ## The codec of an uplink -/

/-- An uplink with the given header, the texts of the header and of its uuid. -/
def textCodec (header : Framing.StreamHeader) (headerText uuidText : String) : Codec where
  connectJson := connectSerde header headerText
  reconnectJson := reconnectSerde header.uuid uuidText
  wormholeJson := wormholeSerde
  header := header

theorem length_counted (start : List UInt8) (n : UInt64) (h : start.length ≤ 1000) :
    (start ++ (decimal n.toNat ++ [125])).length ≤ Framing.maxJsonPayload := by
  have hdigits := length_decimal n.toNat_lt
  have hmax : Framing.maxJsonPayload = 65535 := rfl
  simp only [List.length_append, List.length_cons, List.length_nil]
  omega

theorem reconnect_inverts (uuid : Domain.Uuid) (text : String) (n : UInt64) :
    (reconnectSerde uuid text).Inverts ⟨uuid, n⟩ (reconnectStart text ++ (decimal n.toNat ++ [125])) := by
  refine ⟨if_pos rfl, ?_⟩
  simp only [reconnectSerde, readAfter_append, UInt64.ofNat_toNat]

theorem ack_inverts (n : UInt64) : wormholeSerde.Inverts (.ack n) (ackStart ++ (decimal n.toNat ++ [125])) := by
  refine ⟨rfl, ?_⟩
  simp only [wormholeSerde, readAfter_append, UInt64.ofNat_toNat]

theorem plain_inverts {m : WormholeMsg} (h : m ∈ plainMsgs) :
    wormholeSerde.Inverts m.toWire (wormholeText m.toWire) ∧ (wormholeText m.toWire).length ≤ Framing.maxJsonPayload := by
  have hall : ∀ m ∈ plainMsgs, readAfter ackStart (wormholeText m.toWire) = none ∧
      ((plainMsgs.find? fun n => wormholeText n.toWire = wormholeText m.toWire).map (·.toWire)) = some m.toWire ∧
      (wormholeText m.toWire).length ≤ Framing.maxJsonPayload := by decide +kernel
  obtain ⟨hack, hfind, hlen⟩ := hall m h
  obtain ⟨n, hn, hm⟩ := Option.map_eq_some_iff.mp hfind
  exact ⟨⟨rfl, by simp only [wormholeSerde, hack, hn, hm]⟩, hlen⟩

theorem mem_plainMsgs (m : WormholeMsg) : m ∈ plainMsgs ∨ ∃ n, m = .ack n := by
  cases m with
  | ack n => exact .inr ⟨n, rfl⟩
  | done => exact .inl (by simp [plainMsgs])
  | error f => exact .inl (by cases f <;> simp [plainMsgs])

theorem textCodec_good (header : Framing.StreamHeader) {headerText uuidText : String}
    (hh : (utf8 headerText).length ≤ Framing.maxJsonPayload) (hu : (reconnectStart uuidText).length ≤ 1000) :
    (textCodec header headerText uuidText).Good := by
  refine ⟨⟨utf8 headerText, ⟨if_pos rfl, if_pos rfl⟩, hh⟩, fun r => ?_, fun m => ?_⟩
  · exact ⟨_, reconnect_inverts header.uuid uuidText (UInt64.ofNat r), length_counted _ _ hu⟩
  · rcases mem_plainMsgs m with hm | ⟨n, rfl⟩
    · exact ⟨_, plain_inverts hm⟩
    · exact ⟨_, ack_inverts (UInt64.ofNat n), length_counted _ _ (by decide +kernel)⟩

example : wormholeText (.error 99 "chunk gap") = utf8 "\x7b\"type\":\"Error\",\"code\":99,\"reason\":\"chunk gap\"\x7d" := by
  decide +kernel

end Quelay.Agent.WireJson
