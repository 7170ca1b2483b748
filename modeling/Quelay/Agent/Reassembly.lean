/-
  Quelay.Agent.Reassembly — the loop of `run_downlink` on the chunks `read_chunk` returns
  (`quelay-agent/src/active_stream.rs`), in `u64`.

  The peer's `stream_offset` is taken as it comes, and `stream_offset + payload.len()` is
  a plain `u64` addition. A build with overflow checks panics where it overflows, one
  without wraps: then a chunk far beyond the end counts as a duplicate of the beginning
  (`far_chunk_taken_for_duplicate`). As long as the sum fits, every chunk is handled as
  the rule on unbounded integers says (`reassembly_follows_rule_iff`), which is also what
  `Transfer.downStep` does (`downStep_chunk_agrees`).

  `overflowed` is a ghost. `StreamProgress` goes by the clock and is left out.
-/

import Quelay.Agent.Framing
import Quelay.Agent.Transfer.Step
import Quelay.Lib.Machine

namespace Quelay.Agent.Reassembly

open Quelay.Lib Framing

/-! ## State -/

/-- `FailReason::UNKNOWN` on the wire. -/
def unknownCode : UInt32 := 99

/-- What became of the loop. -/
inductive Status where
  | running
  | done
  | failed (reason : String)
  | panicked
  deriving DecidableEq, Repr

/-- `tcp.write_all` on the client's socket; a failed one may have written some. -/
inductive TcpWrite where
  | ok
  | error (written : Nat) (e : String)
  deriving DecidableEq, Repr

structure Downlink where
  bytesWritten : UInt64
  lastAcked : UInt64
  /-- What the client has been sent. -/
  client : List UInt8
  /-- The messages to the sender, over all streams. -/
  sent : List Framing.WormholeMsg
  status : Status
  /-- Ghost: some addition has overflowed. -/
  overflowed : Bool
  deriving DecidableEq, Repr

/-- A chunk as `read_chunk` returns it. -/
def ReadChunk : Type := { c : Chunk // c.Fits }

/-- What `read_chunk` returns, and what comes of it. -/
inductive Act where
  | eof
  | chunk (c : ReadChunk) (tcp : TcpWrite)
  | newStream
  | handleDropped

namespace Downlink

/-- At the start of the loop `bytes_written` is loaded from the atomic. -/
def start (bytesWritten : UInt64) : Downlink := ⟨bytesWritten, bytesWritten, [], [], .running, false⟩

/-! ## The loop's body -/

def overflows (a b : UInt64) : Bool := decide (2 ^ 64 ≤ a.toNat + b.toNat)

def fail (d : Downlink) (msg reason : String) : Downlink :=
  { d with sent := d.sent ++ [.error unknownCode msg], status := .failed reason }

/-- The periodic ack; `last_acked` is never ahead of `bytes_written`. -/
def ackIfDue (d : Downlink) : Downlink :=
  if ackInterval ≤ (d.bytesWritten - d.lastAcked).toNat then
    { d with lastAcked := d.bytesWritten, sent := d.sent ++ [.ack d.bytesWritten] }
  else d

/-- The trimmed payload goes to the client. -/
def write (checked : Bool) (d : Downlink) (toWrite : List UInt8) : TcpWrite → Downlink
  | .error written e =>
    { d with client := d.client ++ toWrite.take written }.fail s!"TCP write error: {e}" s!"TCP write error: {e}"
  | .ok =>
    let len := UInt64.ofNat toWrite.length
    let d := { d with client := d.client ++ toWrite, overflowed := d.overflowed || overflows d.bytesWritten len }
    if checked ∧ overflows d.bytesWritten len then { d with status := .panicked }
    else { d with bytesWritten := d.bytesWritten + len }.ackIfDue

def onChunk (checked : Bool) (d : Downlink) (c : Chunk) (tcp : TcpWrite) : Downlink :=
  let len := UInt64.ofNat c.payload.length
  let d := { d with overflowed := d.overflowed || overflows c.streamOffset len }
  if checked ∧ overflows c.streamOffset len then { d with status := .panicked }
  -- Duplicate.
  else if c.streamOffset + len ≤ d.bytesWritten then d
  else
    let skip := if c.streamOffset < d.bytesWritten then (d.bytesWritten - c.streamOffset).toNat else 0
    -- Gap.
    if d.bytesWritten < c.streamOffset then
      d.fail s!"chunk gap: expected {d.bytesWritten}, got {c.streamOffset}" "chunk offset gap — pump logic error"
    -- `&payload[skip..]`.
    else if c.payload.length < skip then { d with status := .panicked }
    else
      let toWrite := c.payload.drop skip
      if toWrite = [] then d.ackIfDue else d.write checked toWrite tcp

/-- One turn of the loop. -/
def step (checked : Bool) (d : Downlink) (a : Act) : Option Downlink :=
  if d.status = .running then
    match a with
    | .eof => some { d with sent := d.sent ++ [.done], status := .done }
    | .chunk c tcp => some (d.onChunk checked c.1 tcp)
    | .newStream => some d
    | .handleDropped => some { d with status := .failed "link failed permanently" }
  else none

end Downlink

/-! ## The rule -/

/-- The last `k` bytes. -/
def lastBytes (k : Nat) (payload : List UInt8) : List UInt8 := payload.drop (payload.length - k)

def isAck : Framing.WormholeMsg → Option UInt64
  | .ack n => some n
  | _ => none

/-- A chunk is handled as on unbounded integers. -/
structure FollowsRule (d : Downlink) (c : Chunk) (tcp : TcpWrite) (d' : Downlink) : Prop where
  noOverflow : d'.overflowed = false
  gap : d.bytesWritten.toNat < c.streamOffset.toNat →
    (∃ reason, d'.status = .failed reason) ∧ d'.client = d.client ∧ d'.bytesWritten = d.bytesWritten
  append : c.streamOffset.toNat ≤ d.bytesWritten.toNat →
    tcp = .ok ∨ c.streamOffset.toNat + c.payload.length ≤ d.bytesWritten.toNat →
    d'.status = .running ∧
      d'.client = d.client ++ lastBytes (c.streamOffset.toNat + c.payload.length - d.bytesWritten.toNat) c.payload ∧
      d'.bytesWritten.toNat = max d.bytesWritten.toNat (c.streamOffset.toNat + c.payload.length)
  acks : ∃ new, d'.sent = d.sent ++ new ∧ ∀ n, .ack n ∈ new → n = d'.bytesWritten
  increasing : (d'.sent.filterMap isAck).Pairwise (· < ·)

/-- What is asked of a turn: a chunk is handled by the rule. -/
def Ruled (d : Downlink) (a : Act) (d' : Downlink) : Prop :=
  match a with
  | .chunk c tcp => FollowsRule d c.1 tcp d'
  | _ => True

/-- The chunk's end fits the `u64`. -/
def Act.inRange : Act → Prop
  | .chunk c _ => c.1.streamOffset.toNat + c.1.payload.length < 2 ^ 64
  | _ => True

/-! ## One chunk -/

structure Inv (d : Downlink) : Prop where
  acked : d.lastAcked.toNat ≤ d.bytesWritten.toNat
  noOverflow : d.overflowed = false
  increasing : (d.sent.filterMap isAck).Pairwise (· < ·)
  upTo : ∀ n ∈ d.sent.filterMap isAck, n.toNat ≤ d.lastAcked.toNat

section

variable {checked : Bool} {d : Downlink} {c : Chunk} {tcp : TcpWrite}

theorem toNat_len (h : c.Fits) : (UInt64.ofNat c.payload.length).toNat = c.payload.length := by
  have : c.payload.length < 2 ^ 64 := Nat.lt_of_le_of_lt h (by decide)
  simpa using Nat.mod_eq_of_lt this

theorem toNat_add {a b : UInt64} (h : a.toNat + b.toNat < 2 ^ 64) : (a + b).toNat = a.toNat + b.toNat := by
  rw [UInt64.toNat_add]
  exact Nat.mod_eq_of_lt h

theorem not_overflows {a b : UInt64} (h : a.toNat + b.toNat < 2 ^ 64) : Downlink.overflows a b = false := by
  unfold Downlink.overflows
  exact decide_eq_false (Nat.not_le.mpr h)

/-- An ack that is due carries `bytes_written`, and is beyond all before it. -/
theorem ackIfDue_spec (h : Inv d) :
    Inv d.ackIfDue ∧ d.ackIfDue.status = d.status ∧ d.ackIfDue.client = d.client ∧
      d.ackIfDue.bytesWritten = d.bytesWritten ∧
      ∃ new, d.ackIfDue.sent = d.sent ++ new ∧ ∀ n, .ack n ∈ new → n = d.bytesWritten := by
  unfold Downlink.ackIfDue
  split
  · rename_i hdue
    have hlt : d.lastAcked.toNat < d.bytesWritten.toNat := by
      rw [UInt64.toNat_sub_of_le _ _ (UInt64.le_iff_toNat_le.mpr h.acked)] at hdue
      unfold ackInterval at hdue
      omega
    have hmap : (d.sent ++ [Framing.WormholeMsg.ack d.bytesWritten]).filterMap isAck = d.sent.filterMap isAck ++ [d.bytesWritten] := by
      rw [List.filterMap_append]
      rfl
    refine ⟨⟨Nat.le_refl _, h.noOverflow, ?_, fun n hn => ?_⟩, rfl, rfl, rfl, _, rfl, fun n hn => ?_⟩
    · rw [hmap]
      refine List.pairwise_append.mpr ⟨h.increasing, List.pairwise_singleton _ _, fun a ha b hb => ?_⟩
      rw [List.mem_singleton.mp hb]
      exact UInt64.lt_iff_toNat_lt.mpr (Nat.lt_of_le_of_lt (h.upTo a ha) hlt)
    · rw [hmap] at hn
      rcases List.mem_append.mp hn with hn | hn
      · exact Nat.le_of_lt (Nat.lt_of_le_of_lt (h.upTo n hn) hlt)
      · rw [List.mem_singleton.mp hn]
    · cases List.mem_singleton.mp hn
      rfl
  · exact ⟨h, rfl, rfl, rfl, [], by simp, fun n hn => by cases hn⟩

/-- What is trimmed off is what was written before. -/
theorem drop_eq_lastBytes {payload : List UInt8} {o w : Nat} (h : o ≤ w) (hend : w < o + payload.length) :
    payload.drop (w - o) = lastBytes (o + payload.length - w) payload := by
  unfold lastBytes
  congr 1
  omega

theorem lastBytes_zero (payload : List UInt8) : lastBytes 0 payload = [] := by
  unfold lastBytes
  exact List.drop_length

/-- The messages a chunk adds are no acks, or the one of this moment. -/
theorem Inv.fail (h : Inv d) (msg reason : String) :
    Inv (d.fail msg reason) ∧ ∃ new, (d.fail msg reason).sent = d.sent ++ new ∧ ∀ n, .ack n ∈ new → n = d.bytesWritten := by
  have hmap : (d.fail msg reason).sent.filterMap isAck = d.sent.filterMap isAck := by
    unfold Downlink.fail
    rw [List.filterMap_append]
    exact List.append_nil _
  refine ⟨⟨h.acked, h.noOverflow, by rw [hmap]; exact h.increasing, by rw [hmap]; exact h.upTo⟩, _, rfl, fun n hn => ?_⟩
  cases List.mem_singleton.mp hn

variable (checked tcp) in
/-- In range, the write half of a turn. -/
theorem write_spec (h : Inv d) {toWrite : List UInt8} (hfit : d.bytesWritten.toNat + toWrite.length < 2 ^ 64) :
    Inv (d.write checked toWrite tcp) ∧
      (tcp = .ok → (d.write checked toWrite tcp).status = d.status ∧
        (d.write checked toWrite tcp).client = d.client ++ toWrite ∧
        (d.write checked toWrite tcp).bytesWritten.toNat = d.bytesWritten.toNat + toWrite.length) ∧
      ∃ new, (d.write checked toWrite tcp).sent = d.sent ++ new ∧
        ∀ n, .ack n ∈ new → n = (d.write checked toWrite tcp).bytesWritten := by
  have hlen : (UInt64.ofNat toWrite.length).toNat = toWrite.length := by
    simpa using Nat.mod_eq_of_lt (show toWrite.length < 2 ^ 64 by omega)
  have hsum : (d.bytesWritten + UInt64.ofNat toWrite.length).toNat = d.bytesWritten.toNat + toWrite.length := by
    rw [toNat_add (by omega), hlen]
  have hover : Downlink.overflows d.bytesWritten (UInt64.ofNat toWrite.length) = false := not_overflows (by omega)
  cases tcp with
  | error written e =>
    have hi : Inv { d with client := d.client ++ toWrite.take written } := ⟨h.acked, h.noOverflow, h.increasing, h.upTo⟩
    obtain ⟨hinv, hnew⟩ := hi.fail s!"TCP write error: {e}" s!"TCP write error: {e}"
    exact ⟨hinv, fun hok => (nomatch hok), hnew⟩
  | ok =>
    simp only [Downlink.write, hover, Bool.or_false, Bool.false_eq_true, and_false, if_false]
    have hi : Inv { d with client := d.client ++ toWrite, bytesWritten := d.bytesWritten + UInt64.ofNat toWrite.length } := by
      refine ⟨?_, h.noOverflow, h.increasing, h.upTo⟩
      show d.lastAcked.toNat ≤ (d.bytesWritten + UInt64.ofNat toWrite.length).toNat
      rw [hsum]
      exact Nat.le_add_right_of_le h.acked
    obtain ⟨hinv, hstatus, hclient, hwritten, new, hsent, hnew⟩ := ackIfDue_spec hi
    refine ⟨hinv, fun _ => ⟨hstatus, hclient, ?_⟩, new, hsent, fun n hn => ?_⟩
    · rw [hwritten]
      exact hsum
    · rw [hwritten]
      exact hnew n hn

variable (checked tcp) in
/-- A chunk whose end fits is handled by the rule. -/
theorem onChunk_follows (h : Inv d) (hrun : d.status = .running) (hc : c.Fits)
    (hfit : c.streamOffset.toNat + c.payload.length < 2 ^ 64) :
    FollowsRule d c tcp (d.onChunk checked c tcp) ∧ Inv (d.onChunk checked c tcp) := by
  have hlen := toNat_len hc
  have hover : Downlink.overflows c.streamOffset (UInt64.ofNat c.payload.length) = false := not_overflows (by omega)
  have hend : (c.streamOffset + UInt64.ofNat c.payload.length).toNat = c.streamOffset.toNat + c.payload.length := by
    rw [toNat_add (by omega), hlen]
  simp only [Downlink.onChunk, hover, Bool.or_false, Bool.false_eq_true, and_false, if_false, UInt64.le_iff_toNat_le,
    UInt64.lt_iff_toNat_lt, hend]
  by_cases hdup : c.streamOffset.toNat + c.payload.length ≤ d.bytesWritten.toNat
  · -- Nothing of the payload is new.
    rw [if_pos hdup]
    refine ⟨⟨h.noOverflow, fun hgap => by omega, fun _ _ => ⟨hrun, ?_, ?_⟩, ⟨[], by simp, fun n hn => by cases hn⟩,
      h.increasing⟩, h⟩
    · rw [Nat.sub_eq_zero_of_le hdup, lastBytes_zero, List.append_nil]
    · exact (Nat.max_eq_left hdup).symm
  · rw [if_neg hdup]
    by_cases hgap : d.bytesWritten.toNat < c.streamOffset.toNat
    · rw [if_pos hgap]
      obtain ⟨hinv, hnew⟩ := h.fail s!"chunk gap: expected {d.bytesWritten}, got {c.streamOffset}"
        "chunk offset gap — pump logic error"
      exact ⟨⟨h.noOverflow, fun _ => ⟨⟨_, rfl⟩, rfl, rfl⟩, fun hle => by omega, hnew, hinv.increasing⟩, hinv⟩
    · rw [if_neg hgap]
      have hskip : (if c.streamOffset.toNat < d.bytesWritten.toNat then (d.bytesWritten - c.streamOffset).toNat else 0) =
          d.bytesWritten.toNat - c.streamOffset.toNat := by
        split
        · rename_i hlt
          exact UInt64.toNat_sub_of_le _ _ (UInt64.le_iff_toNat_le.mpr (Nat.le_of_lt hlt))
        · omega
      rw [hskip, if_neg (by omega)]
      have hdrop := drop_eq_lastBytes (Nat.not_lt.mp hgap) (Nat.not_le.mp hdup)
      have hcount : (c.payload.drop (d.bytesWritten.toNat - c.streamOffset.toNat)).length =
          c.streamOffset.toNat + c.payload.length - d.bytesWritten.toNat := by
        rw [List.length_drop]
        omega
      have hne : c.payload.drop (d.bytesWritten.toNat - c.streamOffset.toNat) ≠ [] := by
        intro hnil
        rw [hnil, List.length_nil] at hcount
        omega
      rw [if_neg hne]
      obtain ⟨hinv, hok, hnew⟩ := write_spec checked tcp h (show _ + (c.payload.drop _).length < 2 ^ 64 by rw [hcount]; omega)
      refine ⟨⟨hinv.noOverflow, fun hg => absurd hg hgap, fun _ htcp => ?_, hnew, hinv.increasing⟩, hinv⟩
      obtain ⟨hstatus, hclient, hwritten⟩ := hok (htcp.resolve_right hdup)
      refine ⟨hstatus.trans hrun, by rw [hclient, hdrop], ?_⟩
      rw [hwritten, hcount]
      omega

theorem overflowed_ackIfDue (d : Downlink) : d.ackIfDue.overflowed = d.overflowed := by
  unfold Downlink.ackIfDue
  split <;> rfl

theorem overflowed_write {toWrite : List UInt8} (h : d.overflowed = true) :
    (d.write checked toWrite tcp).overflowed = true := by
  unfold Downlink.write
  cases tcp with
  | error written e => exact h
  | ok =>
    dsimp only
    split
    · simp [h]
    · simp [overflowed_ackIfDue, h]

variable (checked d tcp) in
/-- Any other chunk overflows the addition. -/
theorem onChunk_overflows (hc : c.Fits) (hbig : 2 ^ 64 ≤ c.streamOffset.toNat + c.payload.length) :
    (d.onChunk checked c tcp).overflowed = true := by
  have hover : Downlink.overflows c.streamOffset (UInt64.ofNat c.payload.length) = true := by
    unfold Downlink.overflows
    rw [toNat_len hc]
    exact decide_eq_true hbig
  simp only [Downlink.onChunk, hover, Bool.or_true]
  generalize (if c.streamOffset < d.bytesWritten then (d.bytesWritten - c.streamOffset).toNat else 0) = skip
  split
  · rfl
  · split
    · rfl
    · split
      · rfl
      · split
        · rfl
        · split
          · exact overflowed_ackIfDue _
          · exact overflowed_write rfl

end

/-! ## Whole runs -/

theorem step_ruled {checked : Bool} {d d' : Downlink} {a : Act} (h : Inv d) (hs : d.step checked a = some d') :
    (Ruled d a d' ↔ a.inRange) ∧ (a.inRange → Inv d') := by
  unfold Downlink.step at hs
  split at hs
  · rename_i hrun
    cases a with
    | chunk c tcp =>
      cases hs
      have hiff : FollowsRule d c.1 tcp (d.onChunk checked c.1 tcp) → (Act.chunk c tcp).inRange := by
        intro hf
        by_contra hbig
        have := onChunk_overflows checked d tcp c.2 (Nat.not_lt.mp hbig)
        rw [hf.noOverflow] at this
        cases this
      exact ⟨⟨hiff, fun hr => (onChunk_follows checked tcp h hrun c.2 hr).1⟩, fun hr => (onChunk_follows checked tcp h hrun c.2 hr).2⟩
    | eof =>
      cases hs
      refine ⟨Iff.rfl, fun _ => ?_⟩
      have hmap : (d.sent ++ [Framing.WormholeMsg.done]).filterMap isAck = d.sent.filterMap isAck := by
        rw [List.filterMap_append]
        exact List.append_nil _
      exact ⟨h.acked, h.noOverflow, by rw [hmap]; exact h.increasing, by rw [hmap]; exact h.upTo⟩
    | newStream =>
      cases hs
      exact ⟨Iff.rfl, fun _ => h⟩
    | handleDropped =>
      cases hs
      exact ⟨Iff.rfl, fun _ => ⟨h.acked, h.noOverflow, h.increasing, h.upTo⟩⟩
  · cases hs

/-- Whatever the build, the start and the chunks: every chunk is handled by the rule exactly
    when the end of every chunk that is handled fits the `u64`. -/
theorem reassembly_follows_rule_iff (checked : Bool) (bytesWritten : UInt64) (as : List Act) :
    Along (Downlink.step checked) Ruled (.start bytesWritten) as ↔
      Along (Downlink.step checked) (fun _ a _ => a.inRange) (.start bytesWritten) as := by
  refine along_congr (I := Inv) (fun h hs => (step_ruled h hs).1) (fun h hs hr => (step_ruled h hs).2 hr) ?_ as
  exact ⟨Nat.le_refl _, rfl, .nil, fun n hn => (List.not_mem_nil hn).elim⟩

/-! ## The rule in `Transfer` -/

/-- The receiver of `Transfer` has written the same. -/
def Agrees (t : Transfer) (d : Downlink) : Prop :=
  t.down.bytesWritten = d.bytesWritten.toNat ∧ t.down.out = d.client

theorem agrees_writeChunk {t : Transfer} {d : Downlink} {sid offset : Nat} {payload : List UInt8} {progress : Bool}
    (hw : d.bytesWritten.toNat = t.down.bytesWritten + (Transfer.trimmed t.down offset payload).length)
    (hc : d.client = t.down.out ++ Transfer.trimmed t.down offset payload) :
    Agrees (t.writeChunk sid offset payload progress) d := by
  unfold Transfer.writeChunk
  dsimp only
  split
  · exact ⟨hw.symm, hc.symm⟩
  · exact ⟨hw.symm, hc.symm⟩

/-- A chunk whose end fits: the receiver of `Transfer`, which counts in unbounded integers,
    writes what the loop writes. -/
theorem downStep_chunk_agrees {t t' : Transfer} {d : Downlink} {c : Chunk} {sid : Nat} {rest : List UpFrame}
    {checked progress : Bool} (h : Inv d) (hrun : d.status = .running) (hc : c.Fits)
    (hfit : c.streamOffset.toNat + c.payload.length < 2 ^ 64) (ha : Agrees t d) (hpc : t.down.pc = .reading sid)
    (hup : (t.streams sid).up = .chunk c.streamOffset.toNat c.payload :: rest)
    (hs : t.downStep (.chunk progress) = some t') : Agrees t' (d.onChunk checked c .ok) := by
  obtain ⟨hrule, -⟩ := onChunk_follows checked .ok h hrun hc hfit
  simp only [Transfer.downStep, hpc, hup] at hs
  rw [ha.1] at hs
  split at hs
  · rename_i hdup
    cases hs
    obtain ⟨-, hclient, hwritten⟩ := hrule.append (by omega) (.inl rfl)
    rw [Nat.sub_eq_zero_of_le hdup, lastBytes_zero, List.append_nil] at hclient
    exact ⟨ha.1.trans (hwritten.trans (Nat.max_eq_left hdup)).symm, ha.2.trans hclient.symm⟩
  · rename_i hdup
    split at hs
    · rename_i hgap
      cases hs
      obtain ⟨-, hclient, hwritten⟩ := hrule.gap hgap
      exact ⟨ha.1.trans (congrArg UInt64.toNat hwritten).symm, ha.2.trans hclient.symm⟩
    · rename_i hgap
      cases hs
      obtain ⟨-, hclient, hwritten⟩ := hrule.append (Nat.not_lt.mp hgap) (.inl rfl)
      have htrim : Transfer.trimmed t.down c.streamOffset.toNat c.payload =
          lastBytes (c.streamOffset.toNat + c.payload.length - d.bytesWritten.toNat) c.payload := by
        unfold Transfer.trimmed
        rw [ha.1]
        exact drop_eq_lastBytes (Nat.not_lt.mp hgap) (Nat.not_le.mp hdup)
      refine agrees_writeChunk (t := t.popUp sid rest) ?_ ?_
      · show _ = t.down.bytesWritten + (Transfer.trimmed t.down c.streamOffset.toNat c.payload).length
        rw [hwritten, ha.1]
        unfold Transfer.trimmed
        rw [ha.1, List.length_drop]
        omega
      · show _ = t.down.out ++ Transfer.trimmed t.down c.streamOffset.toNat c.payload
        rw [hclient, ha.2, htrim]

/-- Two bytes at the end of the `u64`, when one byte has been written. -/
def farChunk : ReadChunk := ⟨⟨0xffffffffffffffff, [7, 7]⟩, by simp [Chunk.Fits, chunkSize]⟩

/-- A chunk beyond everything written: the rule fails the stream. Without overflow checks
    its end wraps to 1, and it is skipped as a duplicate; with them the task dies. -/
theorem far_chunk_taken_for_duplicate :
    (∀ checked, ¬ Along (Downlink.step checked) Ruled (.start 1) [.chunk farChunk .ok]) ∧
      (Downlink.start 1).step false (.chunk farChunk .ok) = some { Downlink.start 1 with overflowed := true } ∧
      (Downlink.start 1).step true (.chunk farChunk .ok) =
        some { Downlink.start 1 with status := .panicked, overflowed := true } := by
  have hwraps : (Downlink.start 1).step false (.chunk farChunk .ok) = some { Downlink.start 1 with overflowed := true } := by
    decide +kernel
  have hpanics : (Downlink.start 1).step true (.chunk farChunk .ok) =
      some { Downlink.start 1 with status := .panicked, overflowed := true } := by decide +kernel
  refine ⟨fun checked h => ?_, hwraps, hpanics⟩
  -- In both builds the stream has not failed.
  cases checked with
  | false =>
    obtain ⟨reason, hfailed⟩ := ((h _ hwraps).1.gap (by decide +kernel)).1
    cases hfailed
  | true =>
    obtain ⟨reason, hfailed⟩ := ((h _ hpanics).1.gap (by decide +kernel)).1
    cases hfailed

end Quelay.Agent.Reassembly
