/-
  Quelay.Agent.Transfer.Acks — `A ≤ Q ≤ T`, whatever the peer acks, as long as it acks only
  what it was sent.

  `SpoolBuffer::ack` cuts an ack down to what the spool holds, not to what the pump has
  sent: it cannot see `Q`. An ack above `Q` releases bytes that were never handed to QUIC,
  and the pump's next `slice_from(q)` is below `bytes_acked` (`an_early_ack_overtakes_q`).

  The peer is one that sends anything on the streams it has (`PeerAct.say`). How much has
  been handed to QUIC is a ghost beside the state: the highest offset that a write of the
  pump went up to, the one under way included.
-/

import Quelay.Agent.Transfer.Delivery

namespace Quelay.Agent.Transfer

open Quelay.Lib

/-! ## A peer that says anything -/

inductive PeerAct where
  | own (a : Act)
  | say (sid : Nat) (m : WormholeMsg)
  | stop (sid : Nat)

/-- Where the pump will be once the write under way is through. -/
def cursor (pump : StreamPump) : Nat :=
  match pump.pc with
  | .write _ chunk => pump.q + chunk.length
  | _ => pump.q

def sayStep (s : Transfer) : PeerAct → Option Transfer
  | .own a => s.step a
  | .say sid m => some (s.setStream sid ((s.streams sid).writeMsg m))
  | .stop sid => some (s.setStream sid { s.streams sid with downFin := true, stopped := true })

/-- A step, and how many bytes have been handed to QUIC. -/
def peerStep (p : Transfer × Nat) (a : PeerAct) : Option (Transfer × Nat) :=
  (p.1.sayStep a).map fun s' => (s', max p.2 (cursor s'.pump))

/-- The pump goes on from where it is; else it rewinds first, or has ended. -/
def sending : PumpPc → Bool
  | .waitUp | .store .waitUp | .exited => false
  | _ => true

/-- An ack is for bytes that have been sent: while the pump sends, none above where it is. -/
def acksSent (p : Transfer × Nat) : PeerAct → Prop
  | .own (.ack .msg) =>
    match p.1.ackRx with
    | .ack n :: _ => min n p.1.spool.headOffset ≤ if sending p.1.pump.pc then cursor p.1.pump else p.2
    | _ => True
  | _ => True

instance (p : Transfer × Nat) (a : PeerAct) : Decidable (acksSent p a) := by
  unfold acksSent
  split
  · split <;> infer_instance
  · infer_instance

/-! ## The invariant -/

structure SentOf (pushed : List UInt8) (spool : SpoolBuffer) (pump : StreamPump) (handed : Nat) : Prop where
  holds : spool.Holds pushed
  released : spool.bytesAcked ≤ handed
  acked : sending pump.pc = true → spool.bytesAcked ≤ cursor pump
  head : sending pump.pc = true → cursor pump ≤ pushed.length
  reached : cursor pump ≤ handed

/-- The invariant, with the reader's: it pushes nothing behind the sentinel. -/
structure Sent (p : Transfer × Nat) : Prop where
  of : SentOf p.1.pushed p.1.spool p.1.pump p.2
  notMarked : NotMarked p.1

variable {pushed : List UInt8} {spool : SpoolBuffer} {pump : StreamPump} {handed : Nat}

theorem SentOf.raise (hi : SentOf pushed spool pump handed) {handed' : Nat} (hle : handed ≤ handed') :
    SentOf pushed spool pump handed' :=
  ⟨hi.holds, hi.released.trans hle, hi.acked, hi.head, hi.reached.trans hle⟩

/-- The pump moves, and its next write is from where it was. -/
theorem SentOf.movePump (hi : SentOf pushed spool pump handed) {pump' : StreamPump}
    (hs : sending pump'.pc = true → sending pump.pc = true) (hc : cursor pump' = cursor pump) :
    SentOf pushed spool pump' handed :=
  ⟨hi.holds, hi.released, fun h => hc ▸ hi.acked (hs h), fun h => hc ▸ hi.head (hs h), hc ▸ hi.reached⟩

/-- The pump rewinds to `A`. -/
theorem SentOf.rewind (hi : SentOf pushed spool pump handed) {pump' : StreamPump} (hc : cursor pump' = spool.bytesAcked) :
    SentOf pushed spool pump' handed :=
  ⟨hi.holds, hi.released, fun _ => hc ▸ Nat.le_refl _, fun _ => hc ▸ hi.holds.le, hc ▸ hi.released⟩

/-- The pump takes up the next chunk, and writes on. -/
theorem SentOf.chunk (hi : SentOf pushed spool pump handed) {pump' : StreamPump} {chunk : List UInt8}
    (hs : sending pump.pc = true) (hq : cursor pump = pump.q)
    (hc : cursor pump' = pump.q + chunk.length) (hp : chunk <+: pushed.drop pump.q) :
    SentOf pushed spool pump' (max handed (cursor pump')) := by
  have hlen : chunk.length ≤ pushed.length - pump.q := by
    have := hp.length_le
    rwa [List.length_drop] at this
  have hacked := hi.acked hs
  have hhead := hi.head hs
  rw [hq] at hacked hhead
  have hreleased := hi.released
  refine ⟨hi.holds, ?_, fun _ => ?_, fun _ => ?_, ?_⟩ <;> omega

variable {s s' : Transfer}

theorem reader_sent {a : ReaderAct} (hi : Sent (s, handed)) (h : ReaderCase s a s') :
    SentOf s'.pushed s'.spool s'.pump handed := by
  have ho : SentOf s.pushed s.spool s.pump handed := hi.of
  cases h with
  | read n hr =>
    have hopen : s.spool.head ≠ .eof := by
      have := hi.notMarked (by rw [hr]; rfl)
      simpa [SpoolBuffer.atEof] using this
    refine ⟨ho.holds.push hopen _, ho.released, ho.acked, fun hs => (ho.head hs).trans ?_, ho.reached⟩
    simp
  | eof | failedEof => exact ⟨ho.holds.markEof, ho.released, ho.acked, ho.head, ho.reached⟩
  | _ => exact ho

theorem pump_sent {a : PumpAct} (hi : SentOf s.pushed s.spool s.pump handed) (h : PumpCase s a s') :
    SentOf s'.pushed s'.spool s'.pump (max handed (cursor s'.pump)) := by
  have hkeep : ∀ {pump' : StreamPump}, SentOf s.pushed s.spool pump' handed →
      SentOf s.pushed s.spool pump' (max handed (cursor pump')) := fun h => h.raise (Nat.le_max_left _ _)
  cases h with
  | linkDown | linkUp => exact hkeep (hi.rewind rfl)
  | drainChunk split hpc hz hlt hc hne =>
    have hq : cursor s.pump = s.pump.q := by simp [cursor, hpc]
    have hs : sending s.pump.pc = true := by rw [hpc]; rfl
    have hacked := hi.acked hs
    rw [hq] at hacked
    rw [hi.holds.headOffset] at hlt
    refine hi.chunk hs hq rfl ?_
    rw [hc]
    exact (List.take_prefix _ _).trans (hi.holds.sliceFrom hacked hlt split).1
  | write hpc =>
    exact hkeep (hi.movePump (fun _ => by rw [hpc]; rfl) (by simp [cursor, hpc]))
  | writeFail hpc =>
    have hcursor := hi.reached
    simp only [cursor, hpc] at hcursor
    refine hkeep ⟨hi.holds, hi.released, by simp [sending], by simp [sending], ?_⟩
    show s.pump.q ≤ handed
    omega
  | @store next hpc =>
    refine hkeep (hi.movePump (fun h => ?_) ?_)
    · rw [hpc]
      cases next <;> first | rfl | cases h
    · cases next <;> simp [cursor, hpc, AfterStore.pc]
  | closed hpc =>
    refine hkeep (hi.movePump (by simp [sending]) ?_)
    rcases hpc with hpc | hpc <;> simp [cursor, hpc]
  | postFin hpc | postDone hpc => exact hkeep (hi.movePump (by simp [sending]) (by simp [cursor, hpc]))
  | linkUpIgnored | discard => exact hkeep hi
  | ticket hpc | finishDrained hpc | finishBacklog hpc | finishWaiting hpc | drainSpent _ hpc | drainFin _ hpc
  | drainNone _ hpc | drainEmpty _ hpc | post hpc =>
    exact hkeep (hi.movePump (fun h => by simp_all [sending]) (by simp [cursor, hpc]))

/-- An ack of bytes that were sent releases no others. -/
theorem SentOf.ack (hi : SentOf pushed spool pump handed) {n : Nat}
    (hn : min n spool.headOffset ≤ if sending pump.pc then cursor pump else handed) :
    SentOf pushed (spool.ack n) pump handed := by
  have hA := SpoolBuffer.ack_bytesAcked_min hi.holds n
  rw [hi.holds.headOffset] at hn
  have hreleased := hi.released
  have hreached := hi.reached
  refine ⟨hi.holds.ack n, ?_, fun hs => ?_, hi.head, hreached⟩
  · split at hn <;> omega
  · rw [if_pos hs] at hn
    have := hi.acked hs
    omega

theorem ack_sent {a : AckAct} (hi : SentOf s.pushed s.spool s.pump handed) (hok : acksSent (s, handed) (.own (.ack a)))
    (h : AckCase s a s') : SentOf s'.pushed s'.spool s'.pump handed := by
  cases h with
  | ackNew _ hrx | ackOld _ hrx =>
    refine hi.ack ?_
    simpa only [acksSent, hrx] using hok
  | _ => exact hi

theorem init_sent (capped : Bool) : Sent (init capped, 0) :=
  ⟨⟨SpoolBuffer.new_holds, Nat.le_refl _, fun _ => Nat.le_refl _, fun _ => Nat.le_refl _, Nat.le_refl _⟩, fun _ => rfl⟩

theorem own_sent {a : Act} (hi : Sent (s, handed)) (hok : acksSent (s, handed) (.own a)) (h : s.step a = some s') :
    SentOf s'.pushed s'.spool s'.pump (max handed (cursor s'.pump)) := by
  have ho : SentOf s.pushed s.spool s.pump handed := hi.of
  have hraise : SentOf s'.pushed s'.spool s'.pump handed → SentOf s'.pushed s'.spool s'.pump (max handed (cursor s'.pump)) :=
    fun h => h.raise (Nat.le_max_left _ _)
  cases a with
  | reader a => exact hraise (reader_sent hi (readerStep_cases h))
  | ticket a => exact hraise (by cases ticketStep_cases h <;> exact ho)
  | pump a => exact pump_sent ho (pumpStep_cases h)
  | ack a => exact hraise (ack_sent ho hok (ackStep_cases h))
  | link a => exact hraise (by cases linkStep_cases h <;> exact ho)
  | down a => exact hraise (by cases downStep_cases h <;> exact ho)

theorem step_sent {p p' : Transfer × Nat} {a : PeerAct} (hi : Sent p) (hok : acksSent p a) (h : peerStep p a = some p') :
    Sent p' := by
  obtain ⟨s, handed⟩ := p
  obtain ⟨s', hs, rfl⟩ := Option.map_eq_some_iff.mp h
  cases a with
  | own a => exact ⟨own_sent hi hok hs, step_notMarked hi.notMarked hs⟩
  | say sid m =>
    cases hs
    exact ⟨SentOf.raise hi.of (Nat.le_max_left _ _), hi.notMarked⟩
  | stop sid =>
    cases hs
    exact ⟨SentOf.raise hi.of (Nat.le_max_left _ _), hi.notMarked⟩

/-! ## Every run -/

/-- The pump is about to call `slice_from(q)`. -/
def slices (s : Transfer) : Prop :=
  ∃ remaining, s.pump.pc = .drain remaining ∧ remaining.isZero = false ∧ ¬ s.spool.headOffset ≤ s.pump.q

/-- Whenever the pump takes a slice, its offset is one that the spool holds; and what the
    spool has released has been handed to QUIC. -/
theorem acked_le_q {capped : Bool} {p : Transfer × Nat} (h : Reach peerStep acksSent (init capped, 0) p) :
    (p.1.slices → p.1.spool.bytesAcked ≤ p.1.pump.q ∧ p.1.pump.q < p.1.spool.headOffset ∧
      p.1.pump.q - p.1.spool.bytesAcked < p.1.spool.buf.length) ∧
    p.1.spool.bytesAcked ≤ p.2 := by
  have hi : Sent p := h.invariant (init_sent capped) fun hi hok hs => step_sent hi hok hs
  refine ⟨?_, hi.of.released⟩
  rintro ⟨remaining, hpc, _, hlt⟩
  have hacked : p.1.spool.bytesAcked ≤ p.1.pump.q := by
    have := hi.of.acked (by rw [hpc]; rfl)
    simpa only [cursor, hpc] using this
  have hhead := hi.of.holds.headOffset
  have hlength := hi.of.holds.length
  omega

/-- The sending client connects and writes four bytes. -/
def pushFour : List Act := [.reader .accept] ++ writeAndPush [1, 2, 3, 4]

/-- The ack task turns to its inbox and takes an ack. -/
def takeAck : List Act := [.ack .check, .ack .readMsg, .ack .msg, .ack (.space false)]

/-- Two of four bytes are sent and acknowledged: the next slice is from the third byte. -/
theorem slice_behind_ack :
    ∃ p, Reach peerStep acksSent (init true, 0) p ∧ p.1.slices ∧ p.1.spool.bytesAcked = 2 ∧ p.1.pump.q = 2 ∧
      p.1.pump.q - p.1.spool.bytesAcked < p.1.spool.buf.length ∧ p.2 = 2 := by
  obtain ⟨p, hr, hp⟩ := Reach.exists_run peerStep acksSent (init true, 0)
    [(pushFour ++ grant 2 ++ sendChunk).map .own, [.say 0 (.ack 2)], (takeAck ++ grant 1).map .own].flatten
    (fun p => p.1.pump.pc = .drain (.bytes 1) ∧ p.1.spool.headOffset = 4 ∧ p.1.spool.bytesAcked = 2 ∧ p.1.pump.q = 2 ∧
      p.2 = 2) (by decide +kernel)
  obtain ⟨hpc, hhead, hacked, hq, hhanded⟩ := of_decide_eq_true hp
  have hslices : p.1.slices := ⟨_, hpc, rfl, by omega⟩
  exact ⟨p, hr, hslices, hacked, hq, ((acked_le_q hr).1 hslices).2.2, hhanded⟩

/-- Four bytes are in the spool and none has been sent when an ack for two arrives: they
    are released, and the pump takes its first slice from below `bytes_acked`. -/
theorem an_early_ack_overtakes_q :
    ∃ p, Reach peerStep anyStep (init true, 0) p ∧ p.1.slices ∧ p.1.pump.q < p.1.spool.bytesAcked ∧
      p.2 < p.1.spool.bytesAcked := by
  obtain ⟨p, hr, hp⟩ := Reach.exists_run peerStep anyStep (init true, 0)
    [pushFour.map .own, [.say 0 (.ack 2)], (takeAck ++ grant 1).map .own].flatten
    (fun p => p.1.pump.pc = .drain (.bytes 1) ∧ p.1.spool.headOffset = 4 ∧ p.1.pump.q = 0 ∧ p.1.spool.bytesAcked = 2 ∧
      p.2 = 0) (by decide +kernel)
  obtain ⟨hpc, hhead, hq, hacked, hhanded⟩ := of_decide_eq_true hp
  exact ⟨p, hr, ⟨_, hpc, rfl, by omega⟩, by omega, by omega⟩

end Quelay.Agent.Transfer
