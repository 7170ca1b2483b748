/-
  Quelay.Thrift.Mapping — the domain types on the Thrift wire
  (`quelay-thrift/src/mapping.rs`, `quelay.thrift`).

  A generated struct has `Option` fields, a generated enumeration is a newtype over `i32`
  that holds any value, and integers are signed. Uuids go as text, through the `uuid`
  crate. Every domain value is read back as it was, numbers above `i64::MAX` and empty
  maps included; a wire value survives the way through the domain type just if all its
  fields are there and in the spelling that is written (`mapping_round_trip`).
-/

import Quelay.Agent.SessionManager.State

namespace Quelay.Thrift

open Quelay.Domain Quelay.Agent.SessionManager

/-! ## Wire types -/

/-- `to_string` and `parse_str` of the `uuid` crate. -/
structure UuidText where
  toText : Uuid → String
  parseStr : String → Option Uuid

/-- A uuid is read back from its text. -/
def UuidText.Inverts (uuids : UuidText) : Prop := ∀ u, uuids.parseStr (uuids.toText u) = some u

inductive LinkState where
  | connecting
  | normal
  | degraded
  | failed
  deriving DecidableEq, Repr

structure WireLinkState where
  value : Int32
  deriving DecidableEq, Repr

structure ConnStats where
  sentPackets : UInt64
  lostPackets : UInt64
  congestionEvents : UInt64
  rttMs : UInt64
  cwnd : UInt64
  lostBytes : UInt64
  deriving DecidableEq, Repr

structure WireConnStats where
  sentPackets : Option Int64
  lostPackets : Option Int64
  congestionEvents : Option Int64
  rttMs : Option Int64
  cwnd : Option Int64
  lostBytes : Option Int64
  deriving DecidableEq, Repr

structure WireStreamInfo where
  sizeBytes : Option Int64
  attrs : Option (Finmap fun _ : String => String)
  deriving DecidableEq

structure WireQueueStatus where
  activeCount : Option Int32
  maxConcurrent : Option Int32
  maxPending : Option Int32
  pending : Option (List String)
  deriving DecidableEq

/-! ## Conversions -/

def LinkState.toWire : LinkState → WireLinkState
  | .connecting => ⟨0⟩
  | .normal => ⟨1⟩
  | .degraded => ⟨2⟩
  | .failed => ⟨3⟩

def LinkState.ofWire (w : WireLinkState) : LinkState :=
  if w.value = 0 then .connecting
  else if w.value = 1 then .normal
  else if w.value = 2 then .degraded
  -- `FAILED`, and the safe default.
  else .failed

namespace ConnStats

def toWire (d : ConnStats) : WireConnStats where
  sentPackets := some d.sentPackets.toInt64
  lostPackets := some d.lostPackets.toInt64
  congestionEvents := some d.congestionEvents.toInt64
  rttMs := some d.rttMs.toInt64
  cwnd := some d.cwnd.toInt64
  lostBytes := some d.lostBytes.toInt64

def ofWire (w : WireConnStats) : ConnStats where
  sentPackets := (w.sentPackets.getD 0).toUInt64
  lostPackets := (w.lostPackets.getD 0).toUInt64
  congestionEvents := (w.congestionEvents.getD 0).toUInt64
  rttMs := (w.rttMs.getD 0).toUInt64
  cwnd := (w.cwnd.getD 0).toUInt64
  lostBytes := (w.lostBytes.getD 0).toUInt64

end ConnStats

def streamInfoToWire (d : DomainStreamInfo) : WireStreamInfo := ⟨d.sizeBytes.map (·.toInt64), some d.attrs⟩

/-- `None` on the wire means an empty map. -/
def streamInfoOfWire (w : WireStreamInfo) : DomainStreamInfo := ⟨w.sizeBytes.map (·.toUInt64), w.attrs.getD ∅⟩

section

variable (uuids : UuidText)

def queueStatusToWire (d : QueueStatus) : WireQueueStatus where
  activeCount := some d.activeCount
  maxConcurrent := some d.maxConcurrent
  maxPending := some d.maxPending
  pending := some (d.pending.map uuids.toText)

/-- Texts that are no uuids are left out. -/
def queueStatusOfWire (w : WireQueueStatus) : QueueStatus where
  activeCount := w.activeCount.getD 0
  maxConcurrent := w.maxConcurrent.getD 0
  maxPending := w.maxPending.getD 0
  pending := (w.pending.getD []).filterMap uuids.parseStr

end

/-! ## There and back -/

theorem LinkState.ofWire_toWire (d : LinkState) : ofWire d.toWire = d := by
  cases d <;> rfl

theorem LinkState.toWire_ofWire (w : WireLinkState) :
    (ofWire w).toWire = w ↔ w.value ∈ ([0, 1, 2, 3] : List Int32) := by
  obtain ⟨v⟩ := w
  unfold ofWire
  by_cases h0 : v = 0
  · subst h0
    decide
  by_cases h1 : v = 1
  · subst h1
    decide
  by_cases h2 : v = 2
  · subst h2
    decide
  rw [if_neg h0, if_neg h1, if_neg h2]
  simp only [toWire, WireLinkState.mk.injEq, List.mem_cons, h0, h1, h2, List.not_mem_nil, or_false, false_or]
  exact eq_comm

theorem ConnStats.ofWire_toWire (d : ConnStats) : ofWire d.toWire = d := by
  simp [ofWire, toWire]

/-- A field that is there comes back. -/
theorem some_getD {v : Option Int64} : some (v.getD 0).toUInt64.toInt64 = v ↔ v.isSome = true := by
  cases v <;> simp

theorem ConnStats.toWire_ofWire (w : WireConnStats) :
    (ofWire w).toWire = w ↔ w.sentPackets.isSome ∧ w.lostPackets.isSome ∧ w.congestionEvents.isSome ∧
      w.rttMs.isSome ∧ w.cwnd.isSome ∧ w.lostBytes.isSome := by
  obtain ⟨a, b, c, d, e, f⟩ := w
  simp only [toWire, ofWire, WireConnStats.mk.injEq, some_getD]

theorem streamInfo_ofWire_toWire (d : DomainStreamInfo) : streamInfoOfWire (streamInfoToWire d) = d := by
  obtain ⟨size, attrs⟩ := d
  cases size <;> simp [streamInfoOfWire, streamInfoToWire]

theorem streamInfo_toWire_ofWire (w : WireStreamInfo) :
    streamInfoToWire (streamInfoOfWire w) = w ↔ w.attrs.isSome := by
  obtain ⟨size, attrs⟩ := w
  cases size <;> cases attrs <;> simp [streamInfoOfWire, streamInfoToWire]

theorem filterMap_parse {uuids : UuidText} (h : uuids.Inverts) (l : List Uuid) :
    (l.map uuids.toText).filterMap uuids.parseStr = l := by
  induction l with
  | nil => rfl
  | cons u l ih => rw [List.map_cons, List.filterMap_cons, h u, ih]

theorem queueStatus_ofWire_toWire {uuids : UuidText} (h : uuids.Inverts) (d : QueueStatus) :
    queueStatusOfWire uuids (queueStatusToWire uuids d) = d := by
  obtain ⟨active, maxConcurrent, maxPending, pending⟩ := d
  simp [queueStatusOfWire, queueStatusToWire, filterMap_parse h]

/-- The texts that come back are those that uuids are written as. -/
theorem map_toText_iff {uuids : UuidText} (h : uuids.Inverts) (l : List String) :
    (l.filterMap uuids.parseStr).map uuids.toText = l ↔ ∀ text ∈ l, ∃ u, uuids.toText u = text := by
  induction l with
  | nil => simp
  | cons text l ih =>
    constructor
    · intro heq x hx
      rw [← heq] at hx
      obtain ⟨u, _, hu⟩ := List.mem_map.mp hx
      exact ⟨u, hu⟩
    · intro hall
      obtain ⟨u, rfl⟩ := hall text List.mem_cons_self
      have hrest := ih.mpr fun x hx => hall x (List.mem_cons_of_mem _ hx)
      rw [List.filterMap_cons, h u]
      simp only [List.map_cons, hrest]

theorem queueStatus_toWire_ofWire {uuids : UuidText} (h : uuids.Inverts) (w : WireQueueStatus) :
    queueStatusToWire uuids (queueStatusOfWire uuids w) = w ↔ w.activeCount.isSome ∧ w.maxConcurrent.isSome ∧
      w.maxPending.isSome ∧ ∃ texts, w.pending = some texts ∧ ∀ text ∈ texts, ∃ u, uuids.toText u = text := by
  obtain ⟨active, maxConcurrent, maxPending, pending⟩ := w
  simp only [queueStatusToWire, queueStatusOfWire, WireQueueStatus.mk.injEq]
  have hsome : ∀ v : Option Int32, some (v.getD 0) = v ↔ v.isSome = true := by
    intro v
    cases v <;> simp
  rw [hsome, hsome, hsome]
  cases pending with
  | none => simp
  | some texts =>
    simp only [Option.getD_some, Option.some.injEq, map_toText_iff h]
    simp

/-! ## The hyphenated form -/

/-- The last `k` hexadecimal digits. -/
def hexDigits : Nat → Nat → List Nat
  | 0, _ => []
  | k + 1, n => hexDigits k (n / 16) ++ [n % 16]

def hexVal (c : Char) : Nat := if c.isDigit then c.toNat - '0'.toNat else c.toNat - 'a'.toNat + 10

/-- A digit as the crate writes it. -/
def isHex (c : Char) : Bool := c.isDigit || ('a' ≤ c && c ≤ 'f')

def hexValue (digits : List Nat) : Nat := digits.foldl (fun n d => 16 * n + d) 0

def withHyphens (l : List Char) : List Char :=
  [l.take 8, ['-'], (l.drop 8).take 4, ['-'], (l.drop 12).take 4, ['-'], (l.drop 16).take 4, ['-'], l.drop 20].flatten

/-- The spelling that the crate writes: lower case, with hyphens. It reads others too. -/
def hyphenated : UuidText where
  toText u := String.ofList (withHyphens ((hexDigits 32 u.bits.toNat).map Nat.digitChar))
  parseStr text :=
    let digits := text.toList.filter (· ≠ '-')
    if withHyphens digits = text.toList ∧ digits.length = 32 ∧ digits.all isHex then
      some ⟨.ofNat 128 (hexValue (digits.map hexVal))⟩
    else none

theorem length_hexDigits (k n : Nat) : (hexDigits k n).length = k := by
  induction k generalizing n with
  | zero => rfl
  | succ k ih => rw [hexDigits, List.length_append, ih]; rfl

theorem hexDigits_lt {k n d : Nat} (h : d ∈ hexDigits k n) : d < 16 := by
  induction k generalizing n with
  | zero => cases h
  | succ k ih =>
    rcases List.mem_append.mp h with h | h
    · exact ih h
    · rw [List.mem_singleton.mp h]
      omega

theorem hexValue_hexDigits (k n : Nat) : hexValue (hexDigits k n) = n % 16 ^ k := by
  induction k generalizing n with
  | zero => rw [Nat.pow_zero, Nat.mod_one]; rfl
  | succ k ih =>
    have hsnoc : hexValue (hexDigits (k + 1) n) = 16 * hexValue (hexDigits k (n / 16)) + n % 16 := by
      rw [hexDigits, hexValue, List.foldl_append]
      rfl
    rw [hsnoc, ih, Nat.pow_succ, Nat.mul_comm (16 ^ k) 16, Nat.mod_mul]
    omega

theorem hexVal_digitChar {d : Nat} (h : d < 16) : hexVal d.digitChar = d := by
  have hall : ∀ d < 16, hexVal d.digitChar = d := by decide
  exact hall d h

theorem isHex_digitChar {d : Nat} (h : d < 16) : isHex d.digitChar = true := by
  revert d
  decide

theorem digitChar_ne_hyphen {d : Nat} (h : d < 16) : d.digitChar ≠ '-' := by
  have hall : ∀ d < 16, d.digitChar ≠ '-' := by decide
  exact hall d h

theorem map_hexVal {l : List Nat} (h : ∀ d ∈ l, d < 16) : (l.map Nat.digitChar).map hexVal = l := by
  rw [List.map_map]
  refine (List.map_congr_left ?_).trans (List.map_id _)
  intro d hd
  exact hexVal_digitChar (h d hd)

theorem filter_withHyphens {l : List Char} (h : ∀ c ∈ l, c ≠ '-') : (withHyphens l).filter (· ≠ '-') = l := by
  have hkeep : ∀ {part : List Char}, part.Sublist l → part.filter (· ≠ '-') = part := by
    intro part hpart
    refine List.filter_eq_self.mpr fun c hc => ?_
    simpa using h c (hpart.subset hc)
  have hmid : ∀ i j, ((l.drop i).take j).filter (· ≠ '-') = (l.drop i).take j := fun i j =>
    hkeep ((List.take_sublist _ _).trans (List.drop_sublist _ _))
  have hdash : ['-'].filter (· ≠ '-') = [] := rfl
  simp only [withHyphens, List.filter_flatten, List.map_cons, List.map_nil, hdash, hmid,
    hkeep (List.take_sublist 8 l), hkeep (List.drop_sublist 20 l)]
  have h16 : (l.drop 16).take 4 ++ l.drop 20 = l.drop 16 := by
    rw [show l.drop 20 = (l.drop 16).drop 4 by rw [List.drop_drop], List.take_append_drop]
  have h12 : (l.drop 12).take 4 ++ l.drop 16 = l.drop 12 := by
    rw [show l.drop 16 = (l.drop 12).drop 4 by rw [List.drop_drop], List.take_append_drop]
  have h8 : (l.drop 8).take 4 ++ l.drop 12 = l.drop 8 := by
    rw [show l.drop 12 = (l.drop 8).drop 4 by rw [List.drop_drop], List.take_append_drop]
  simp only [List.flatten_cons, List.flatten_nil, List.nil_append, List.append_nil, h16, h12, h8, List.take_append_drop]

theorem hyphenated_inverts : hyphenated.Inverts := by
  intro u
  have hlt : ∀ d ∈ hexDigits 32 u.bits.toNat, d < 16 := fun d hd => hexDigits_lt hd
  have hne : ∀ c ∈ (hexDigits 32 u.bits.toNat).map Nat.digitChar, c ≠ '-' := by
    intro c hc
    obtain ⟨d, hd, rfl⟩ := List.mem_map.mp hc
    exact digitChar_ne_hyphen (hlt d hd)
  have hhex : ((hexDigits 32 u.bits.toNat).map Nat.digitChar).all isHex = true := by
    rw [List.all_map, List.all_eq_true]
    exact fun d hd => isHex_digitChar (hlt d hd)
  have hfilter := filter_withHyphens hne
  have hlen : ((hexDigits 32 u.bits.toNat).map Nat.digitChar).length = 32 := by
    rw [List.length_map, length_hexDigits]
  have hvalue : hexValue (hexDigits 32 u.bits.toNat) = u.bits.toNat := by
    rw [hexValue_hexDigits]
    exact Nat.mod_eq_of_lt u.bits.isLt
  simp only [hyphenated, String.toList_ofList, hfilter, hlen, hhex, and_self, if_true, map_hexVal hlt, hvalue,
    BitVec.ofNat_toNat, BitVec.setWidth_eq]

/-! ## The mapping -/

/-- Every domain value comes back as it was. A wire value comes back just if no field that
    the writer always sets is missing, its link state is one of the four, and its texts are
    uuids as they are written. -/
theorem mapping_round_trip {uuids : UuidText} (h : uuids.Inverts) :
    ((∀ d, LinkState.ofWire (LinkState.toWire d) = d) ∧ (∀ d, ConnStats.ofWire (ConnStats.toWire d) = d) ∧
      (∀ d, streamInfoOfWire (streamInfoToWire d) = d) ∧
      ∀ d, queueStatusOfWire uuids (queueStatusToWire uuids d) = d) ∧
    (∀ w, (LinkState.ofWire w).toWire = w ↔ w.value ∈ ([0, 1, 2, 3] : List Int32)) ∧
    (∀ w, (ConnStats.ofWire w).toWire = w ↔ w.sentPackets.isSome ∧ w.lostPackets.isSome ∧
      w.congestionEvents.isSome ∧ w.rttMs.isSome ∧ w.cwnd.isSome ∧ w.lostBytes.isSome) ∧
    (∀ w, streamInfoToWire (streamInfoOfWire w) = w ↔ w.attrs.isSome) ∧
    ∀ w, queueStatusToWire uuids (queueStatusOfWire uuids w) = w ↔ w.activeCount.isSome ∧ w.maxConcurrent.isSome ∧
      w.maxPending.isSome ∧ ∃ texts, w.pending = some texts ∧ ∀ text ∈ texts, ∃ u, uuids.toText u = text :=
  ⟨⟨LinkState.ofWire_toWire, ConnStats.ofWire_toWire, streamInfo_ofWire_toWire, queueStatus_ofWire_toWire h⟩,
    LinkState.toWire_ofWire, ConnStats.toWire_ofWire, streamInfo_toWire_ofWire, queueStatus_toWire_ofWire h⟩

/-- A size that no `i64` holds, and a queue of two. -/
theorem mapping_round_trip_large :
    streamInfoOfWire (streamInfoToWire ⟨some 18446744073709551615, ∅⟩) = ⟨some 18446744073709551615, ∅⟩ ∧
      queueStatusOfWire hyphenated (queueStatusToWire hyphenated ⟨1, 2, 3, [⟨1⟩, ⟨2⟩]⟩) = ⟨1, 2, 3, [⟨1⟩, ⟨2⟩]⟩ := by
  obtain ⟨⟨_, _, hinfo, hqueue⟩, _⟩ := mapping_round_trip hyphenated_inverts
  exact ⟨hinfo _, hqueue _⟩

example : hyphenated.toText ⟨0x0123456789abcdef0123456789abcdef⟩ = "01234567-89ab-cdef-0123-456789abcdef" := by
  decide +kernel

end Quelay.Thrift
