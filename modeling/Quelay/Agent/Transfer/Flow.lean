/-
  Quelay.Agent.Transfer.Flow — the flow control of an uplink.

  The receiver acknowledges what it has written, an `ackInterval` at a time, and the spool
  drops what was acknowledged; the reader takes more from its client only when the spool has
  room for a chunk. So, whatever outages and replays there are:

  - the acks on their way to the ack task, in its inbox and behind that on the stream it
    resumed on last, are each a whole interval above the one before and above what the
    spool has dropped: no ack is stale, and each frees an interval at least;
  - the sending client is never more than the spool ahead of the receiving one.
-/

import Quelay.Agent.Transfer.Progress

namespace Quelay.Agent

def AckMsg.number : AckMsg → Option Nat
  | .ack n => some n
  | _ => none

def WormholeMsg.number : WormholeMsg → Option Nat
  | .ack n => some n
  | _ => none

theorem WormholeMsg.number_toAckMsg (m : WormholeMsg) : m.toAckMsg.number = m.number := by
  cases m <;> rfl

namespace Transfer

open Quelay.Lib

def acksOn (q : QStream) : List Nat := q.down.filterMap WormholeMsg.number

/-- The acks that the ack task will take, in order. -/
def onTheWay (s : Transfer) : List Nat := s.ackRx.filterMap AckMsg.number ++ acksOn (s.streams s.current)

/-- One ack is a whole interval above another. -/
def Apart (a b : Nat) : Prop := a + ackInterval ≤ b

/-! ## Acks on their way -/

structure FlowOf (acked : Nat) (way : List Nat) (lastAcked written : Nat) : Prop where
  apart : (acked :: way).Pairwise Apart
  top : ∀ n ∈ acked :: way, n ≤ lastAcked
  last : lastAcked ≤ written

def Flow (s : Transfer) : Prop := FlowOf s.spool.bytesAcked s.onTheWay s.down.lastAcked s.down.bytesWritten

variable {acked lastAcked written : Nat} {way : List Nat} {s s' : Transfer}

theorem FlowOf.sublist (h : FlowOf acked way lastAcked written) {way' : List Nat} (hs : way'.Sublist way) :
    FlowOf acked way' lastAcked written :=
  ⟨h.apart.sublist (hs.cons_cons _), fun n hn => h.top n ((hs.cons_cons _).subset hn), h.last⟩

/-- The receiver writes on, and acknowledges nothing. -/
theorem FlowOf.write (h : FlowOf acked way lastAcked written) {written' : Nat} (hle : written ≤ written') :
    FlowOf acked way lastAcked written' := ⟨h.apart, h.top, Nat.le_trans h.last hle⟩

/-- The receiver starts. -/
theorem FlowOf.start (h : FlowOf acked way lastAcked written) : FlowOf acked way written written :=
  ⟨h.apart, fun n hn => Nat.le_trans (h.top n hn) h.last, Nat.le_refl _⟩

/-- An ack, after an interval. -/
theorem FlowOf.ack (h : FlowOf acked way lastAcked written) {written' : Nat} (hle : ackInterval ≤ written' - lastAcked)
    {way' : List Nat} (hs : way'.Sublist (way ++ [written'])) : FlowOf acked way' written' written' := by
  have hpos : 0 < ackInterval := by decide
  refine FlowOf.sublist ⟨?_, ?_, Nat.le_refl _⟩ hs
  · rw [← List.cons_append]
    refine pairwise_snoc h.apart fun n hn => ?_
    have htop := h.top n hn
    show n + ackInterval ≤ written'
    omega
  · rw [← List.cons_append]
    intro n hn
    rcases List.mem_append.mp hn with hn | hn
    · have htop := h.top n hn
      omega
    · exact Nat.le_of_eq (List.mem_singleton.mp hn)

/-- The ack task takes an ack. -/
theorem FlowOf.take {n : Nat} (h : FlowOf acked (n :: way) lastAcked written) : FlowOf n way lastAcked written :=
  ⟨h.apart.tail, fun m hm => h.top m (List.mem_cons_of_mem _ hm), h.last⟩

/-! ## Streams -/

/-- Whatever happens to a stream, the sender has no more acks to take for it. -/
theorem way_update {streams : Nat → QStream} {sid current : Nat} {q' : QStream} {inbox tail : List Nat}
    (h : (acksOn q').Sublist (acksOn (streams sid) ++ tail)) :
    (inbox ++ acksOn (Function.update streams sid q' current)).Sublist (inbox ++ acksOn (streams current) ++ tail) := by
  rw [List.append_assoc]
  refine List.Sublist.append_left ?_ inbox
  by_cases hc : current = sid
  · subst hc
    rw [Function.update_self]
    exact h
  · rw [Function.update_of_ne hc]
    exact List.sublist_append_left ..

theorem Flow.update (h : Flow s) (sid : Nat) {q' : QStream} (hq : (acksOn q').Sublist (acksOn (s.streams sid))) :
    FlowOf s.spool.bytesAcked (s.ackRx.filterMap AckMsg.number ++ acksOn (Function.update s.streams sid q' s.current))
      s.down.lastAcked s.down.bytesWritten := by
  refine FlowOf.sublist h ?_
  have hs : (s.ackRx.filterMap AckMsg.number ++ acksOn (Function.update s.streams sid q' s.current)).Sublist
      (s.onTheWay ++ []) := way_update (by rwa [List.append_nil])
  rwa [List.append_nil] at hs

theorem acksOn_writeMsg (q : QStream) {m : WormholeMsg} (hm : ∀ n, m ≠ .ack n) :
    (acksOn (q.writeMsg m)).Sublist (acksOn q) := by
  cases m with
  | ack n => exact absurd rfl (hm n)
  | done | error =>
    unfold QStream.writeMsg acksOn
    cases q.cut <;> simp [WormholeMsg.number]

theorem acksOn_writeAck (q : QStream) (n : Nat) : (acksOn (q.writeMsg (.ack n))).Sublist (acksOn q ++ [n]) := by
  unfold QStream.writeMsg acksOn
  cases q.cut <;> simp [WormholeMsg.number]

theorem acksOn_take (q : QStream) (n : Nat) {up : List UpFrame} {cut : Bool} :
    (acksOn { q with up := up, down := q.down.take n, cut := cut }).Sublist (acksOn q) :=
  (List.take_sublist n q.down).filterMap _

theorem acksOn_tail {q : QStream} {m : WormholeMsg} {rest : List WormholeMsg} (h : q.down = m :: rest) :
    acksOn q = m.number.toList ++ rest.filterMap WormholeMsg.number := by
  rw [acksOn, h, List.filterMap_cons]
  cases m.number <;> rfl

/-! ## Steps -/

theorem init_flow (capped : Bool) : Flow (init capped) := by
  have hway : (init capped).onTheWay = [] := rfl
  show FlowOf 0 (init capped).onTheWay 0 0
  rw [hway]
  refine ⟨List.pairwise_singleton .., fun n hn => ?_, Nat.le_refl _⟩
  rw [List.mem_singleton.mp hn]

/-- A message goes from the stream to the inbox. -/
theorem Flow.read (h : Flow s) {sid : Nat} (hsid : sid = s.current) {m : WormholeMsg} {rest : List WormholeMsg}
    (hd : (s.streams sid).down = m :: rest) :
    FlowOf s.spool.bytesAcked ((s.ackRx ++ [m.toAckMsg]).filterMap AckMsg.number ++
      acksOn (Function.update s.streams sid { s.streams sid with down := rest } s.current))
      s.down.lastAcked s.down.bytesWritten := by
  subst hsid
  have hin : (s.ackRx ++ [m.toAckMsg]).filterMap AckMsg.number =
      s.ackRx.filterMap AckMsg.number ++ m.number.toList := by
    rw [List.filterMap_append, ← m.number_toAckMsg]
    cases h : m.toAckMsg.number <;> simp [h]
  have hway : s.onTheWay = s.ackRx.filterMap AckMsg.number ++ (m.number.toList ++ rest.filterMap WormholeMsg.number) := by
    rw [onTheWay, acksOn_tail hd]
  rw [hin, Function.update_self, List.append_assoc]
  rw [Flow, hway] at h
  exact h

/-- A message that is no ack leaves the inbox, or ends up in it. -/
theorem Flow.inbox (h : Flow s) {ackRx : List AckMsg}
    (hs : (ackRx.filterMap AckMsg.number).Sublist (s.ackRx.filterMap AckMsg.number)) :
    FlowOf s.spool.bytesAcked (ackRx.filterMap AckMsg.number ++ acksOn (s.streams s.current)) s.down.lastAcked
      s.down.bytesWritten := FlowOf.sublist h (hs.append_right _)

/-- An ack at the head of the inbox is above what the spool has dropped. -/
theorem Flow.front (h : Flow s) {n : Nat} {rest : List AckMsg} (hrx : s.ackRx = .ack n :: rest) :
    s.spool.bytesAcked + ackInterval ≤ n ∧
      FlowOf n (rest.filterMap AckMsg.number ++ acksOn (s.streams s.current)) s.down.lastAcked s.down.bytesWritten := by
  have hway : s.onTheWay = n :: (rest.filterMap AckMsg.number ++ acksOn (s.streams s.current)) := by
    rw [onTheWay, hrx]
    rfl
  rw [Flow, hway] at h
  exact ⟨List.rel_of_pairwise_cons h.apart List.mem_cons_self, h.take⟩

theorem ack_flow {a : AckAct} (hi : Flow s) (hl : Living s) (h : AckCase s a s') : Flow s' := by
  have hb := hl.sound.bytes
  have taken : ∀ {n : Nat} {rest : List AckMsg}, s.ackRx = .ack n :: rest → s.spool.bytesAcked < n →
      (s.spool.ack n).bytesAcked = n := by
    intro n rest hrx hlt
    have hle := hb.inbox n (by rw [hrx]; exact List.mem_cons_self)
    rw [SpoolBuffer.ack_bytesAcked hb.holds (Nat.le_trans hle hb.outOk.le)]
    omega
  have hpos : 0 < ackInterval := by decide
  cases h with
  | @ackNew n rest hsel hrx hlt =>
    show FlowOf (s.spool.ack n).bytesAcked _ _ _
    rw [taken hrx hlt]
    exact (hi.front hrx).2
  | @ackOld n rest hsel hrx hle =>
    have hnew := (hi.front hrx).1
    omega
  | done | error | goneFail | noStream | streamReaderGone | linkUpFail => exact hi.inbox (List.nil_sublist _)
  | streamError hsel hrx | streamErrorDropped hsel hrx => exact hi.inbox (by rw [hrx]; exact List.Sublist.refl _)
  | @stream sid rest hsel hrx hw =>
    -- The pump is not on a stream that is still to be taken, so that has no acks.
    have hlane := hl.sound.lane
    have hgt : s.current < sid := hlane.comingGt sid (by rw [hrx]; simp)
    have htx : s.pump.quicTx ≤ s.current := hlane.resumedLe _ List.mem_cons_self
    have hnone : acksOn (s.streams sid) = [] := by
      refine List.filterMap_eq_nil_iff.mpr fun m hm => ?_
      cases m with
      | ack n => exact absurd hm ((hb.fresh sid (by omega)).2 n)
      | done | error => rfl
    refine FlowOf.sublist hi ?_
    show (s.ackRx.filterMap AckMsg.number ++ acksOn (s.streams sid)).Sublist s.onTheWay
    rw [hnone, List.append_nil]
    exact List.sublist_append_left ..
  | readMsgClosed hr hd =>
    refine hi.update _ ?_
    rw [acksOn_tail hd]
    exact List.sublist_append_right ..
  | readAck hr hd => exact hi.read (hl.feedback.reading _ hr) hd
  | readLast hr hd => exact hi.read (hl.feedback.reading _ hr) hd
  | readEnd =>
    refine hi.inbox ?_
    have hnone : ([.streamError] : List AckMsg).filterMap AckMsg.number = [] := rfl
    rw [List.filterMap_append, hnone, List.append_nil]
  | _ => exact hi

theorem step_flow {a : Act} (hi : Flow s) (hl : Living s) (h : s.step a = some s') : Flow s' := by
  cases a with
  | reader a => cases readerStep_cases h <;> exact hi
  | ticket a => cases ticketStep_cases h <;> exact hi
  | pump a =>
    cases pumpStep_cases h with
    | write | linkUp | drainFin | postFin => exact hi.update _ (List.Sublist.refl _)
    | _ => exact hi
  | ack a => exact ack_flow hi hl (ackStep_cases h)
  | link a =>
    cases linkStep_cases h with
    | outage up down => exact hi.update _ (acksOn_take _ down)
    | restoreOpen => exact hi.update _ (List.nil_sublist _)
    | dropStream => exact hi.update _ (List.Sublist.refl _)
    | _ => exact hi
  | down a =>
    cases downStep_cases h with
    | acceptConnect | acceptReconnect | acceptRefused | duplicate | dropStream => exact hi.update _ (List.Sublist.refl _)
    | tcpAccept => exact FlowOf.start hi
    | tcpAcceptFail | gap | writeFail | eof => exact hi.update _ (acksOn_writeMsg _ (by simp))
    | @write sid offset payload rest =>
      have hq : (acksOn { s.streams sid with up := rest }).Sublist (acksOn (s.streams sid)) := List.Sublist.refl _
      exact FlowOf.write (hi.update sid hq) (Nat.le_add_right ..)
    | writeAck _ _ _ _ _ hint => exact FlowOf.ack hi hint (way_update (acksOn_writeAck _ _))
    | _ => exact hi

/-! ## The window -/

/-- The spool holds what it can, and has room for a chunk while the reader reads one. -/
structure Window (s : Transfer) : Prop where
  capacity : s.spool.buf.length ≤ spoolCapacity
  room : s.reader = .read → s.spool.buf.length + chunkSize ≤ spoolCapacity

theorem Window.keep (hi : Window s) (hbuf : s'.spool.buf.length ≤ s.spool.buf.length)
    (hr : s'.reader = .read → s.reader = .read) : Window s' := by
  refine ⟨Nat.le_trans hbuf hi.capacity, fun h => ?_⟩
  have hroom := hi.room (hr h)
  omega

theorem length_ack (b : SpoolBuffer) (n : Nat) : (b.ack n).buf.length ≤ b.buf.length := by
  unfold SpoolBuffer.ack
  split
  · exact Nat.le_refl _
  · rw [List.length_drop]
    omega

theorem reader_window {a : ReaderAct} (hi : Window s) (h : ReaderCase s a s') : Window s' := by
  cases h with
  | spaceOk _ hav =>
    refine ⟨hi.capacity, fun _ => ?_⟩
    have hcap := hi.capacity
    have hchunk : 0 < chunkSize := by decide
    rw [SpoolBuffer.available] at hav
    show s.spool.buf.length + chunkSize ≤ spoolCapacity
    omega
  | read n hr _ hle hn =>
    have hroom := hi.room hr
    refine ⟨?_, ?_⟩
    · show (s.spool.buf ++ s.sock.take n).length ≤ spoolCapacity
      rw [List.length_append, List.length_take]
      omega
    · intro h
      cases h
  | clientWrite | clientClose => exact ⟨hi.capacity, hi.room⟩
  | @notify last =>
    refine hi.keep (Nat.le_refl _) ?_
    intro h
    cases last <;> cases h
  | _ =>
    refine hi.keep (Nat.le_refl _) ?_
    intro h
    cases h

theorem step_window {a : Act} (hi : Window s) (h : s.step a = some s') : Window s' := by
  cases a with
  | reader a => exact reader_window hi (readerStep_cases h)
  | ticket a => cases ticketStep_cases h <;> exact ⟨hi.capacity, hi.room⟩
  | pump a => cases pumpStep_cases h <;> exact ⟨hi.capacity, hi.room⟩
  | ack a =>
    cases ackStep_cases h with
    | ackNew | ackOld => exact hi.keep (length_ack ..) fun h => h
    | _ => exact ⟨hi.capacity, hi.room⟩
  | link a => cases linkStep_cases h <;> exact ⟨hi.capacity, hi.room⟩
  | down a => cases downStep_cases h <;> exact ⟨hi.capacity, hi.room⟩

/-! ## The flow control -/

theorem reach_flow {capped : Bool} {ok : Transfer → Act → Prop} (h : Reach step ok (init capped) s) :
    Flow s ∧ Window s := by
  have hwindow : Window (init capped) := by
    refine ⟨Nat.zero_le _, ?_⟩
    intro h
    cases h
  refine h.invariant_of (P := fun s => Flow s ∧ Window s) reach_countsOk ⟨init_flow capped, hwindow⟩ ?_
  intro s s' a hc _ hi _ hs
  exact ⟨step_flow hi.1 hc.living hs, step_window hi.2 hs⟩

theorem flow_controlled {capped : Bool} (h : Reach step anyStep (init capped) s) :
    (s.spool.bytesAcked :: s.onTheWay).Pairwise Apart ∧ (∀ n ∈ s.onTheWay, n ≤ s.down.out.length) ∧
      (∀ n rest s', s.ackRx = .ack n :: rest → s.step (.ack .msg) = some s' →
        s'.spool.bytesAcked = n ∧ s.spool.bytesAcked + ackInterval ≤ n) ∧
      s.pushed.length ≤ s.down.out.length + spoolCapacity := by
  have hc := reach_countsOk h
  obtain ⟨hflow, hwindow⟩ := reach_flow h
  have hb := hc.living.sound.bytes
  have hgot := hc.receiver.got
  refine ⟨hflow.apart, fun n hn => ?_, fun n rest s' hrx hs => ?_, ?_⟩
  · have htop := hflow.top n (List.mem_cons_of_mem _ hn)
    have hlast := hflow.last
    omega
  · have hstep : s.ackStep .msg = some s' := hs
    have hfront := (hflow.front hrx).1
    have hle := hb.inbox n (by rw [hrx]; exact List.mem_cons_self)
    have hacked := SpoolBuffer.ack_bytesAcked hb.holds (Nat.le_trans hle hb.outOk.le)
    cases ackStep_cases hstep with
    | ackNew _ hrx' | ackOld _ hrx' =>
      cases hrx.symm.trans hrx'
      refine ⟨?_, hfront⟩
      show (s.spool.ack n).bytesAcked = n
      omega
    | done _ hrx' | error _ hrx' | streamError _ hrx' | streamErrorDropped _ hrx' => cases hrx.symm.trans hrx'
  · have hlen := hb.holds.length
    have hcap := hwindow.capacity
    have hacked := hb.acked
    omega

/-- The first ack of a run is on its way. -/
theorem flow_controlled_interval :
    ∃ s, Reach step anyStep (init true) s ∧ s.onTheWay = [ackInterval] ∧ s.down.out.length = ackInterval ∧
      (s.spool.bytesAcked :: s.onTheWay).Pairwise Apart ∧ s.pushed.length ≤ s.down.out.length + spoolCapacity := by
  obtain ⟨dr, sent, hr⟩ := intervalWritten_reach (b := List.replicate chunkSize 0) List.length_replicate
  obtain ⟨hapart, _, _, hwindow⟩ := flow_controlled hr.any
  refine ⟨_, hr.any, rfl, ?_, hapart, hwindow⟩
  exact length_blocks List.length_replicate 4

end Transfer

end Quelay.Agent
