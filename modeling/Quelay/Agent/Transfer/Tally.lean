/-
  Quelay.Agent.Transfer.Tally — how many bytes the two agents report of one stream.

  The receiving agent reports what it has written to its client. The sending agent
  reports the largest ack it has taken, and the receiver acks only once a whole
  `ackInterval` is written since its last ack: the tail of a stream is never acked, and
  the sender's count misses it (`tail_not_counted`). An outage may take the last ack
  too: the bytes that are then sent again are duplicates, and a duplicate is not acked.

  `Done` follows the acks on its stream, so the counts agree if, when the receiver reads
  FIN, an ack of everything it has written was taken or is before `Done` on its way
  (`byte_counts_agree`).
-/

import Quelay.Agent.Transfer.Backpressure
import Quelay.Agent.Transfer.Outcome

namespace Quelay.Agent.Transfer

open Quelay.Lib

/-! ## One message before another in a queue -/

/-- A `y` stands before every `x`. -/
def Before {α : Type} (y x : α) (queue : List α) : Prop := ∀ front back, queue = front ++ x :: back → y ∈ front

section

variable {α : Type} {y x m : α} {queue : List α}

theorem before_of_not_mem (h : x ∉ queue) : Before y x queue := by
  rintro front back rfl
  exact absurd (List.mem_append_right front List.mem_cons_self) h

theorem not_before_head : ¬ Before y x (x :: queue) := fun h => List.not_mem_nil (h [] queue rfl)

theorem Before.tail (h : Before y x (m :: queue)) (hm : y ≠ m) : Before y x queue := by
  rintro front back rfl
  exact (List.mem_cons.mp (h (m :: front) back rfl)).resolve_left hm

theorem Before.snoc (h : Before y x queue) (hm : m = x → y ∈ queue) : Before y x (queue ++ [m]) := by
  intro front back he
  rcases List.eq_nil_or_concat back with rfl | ⟨back', last, rfl⟩
  · obtain ⟨rfl, hx⟩ := List.append_inj' he rfl
    exact hm (List.cons.inj hx).1
  · have he' : queue ++ [m] = (front ++ x :: back') ++ [last] := by simpa using he
    exact h front back' (List.append_inj' he' rfl).1

theorem Before.take (h : Before y x queue) (n : Nat) : Before y x (queue.take n) := by
  intro front back he
  refine h front (back ++ queue.drop n) ?_
  rw [← List.cons_append, ← List.append_assoc, ← he, List.take_append_drop]

end

/-! ## The sender's count -/

/-- An ack is at most what was written, and `bytes_sent` keeps up with the spool. -/
structure CountedOf (acked bytesSent written : Nat) : Prop where
  acked : acked ≤ bytesSent
  sent : bytesSent ≤ written

def Counted (s : Transfer) : Prop := CountedOf s.spool.bytesAcked s.bytesSent s.down.bytesWritten

theorem ack_counted {s s' : Transfer} {a : AckAct} (hi : Counted s) (hb : Bytes s) (h : AckCase s a s') : Counted s' := by
  have taken : ∀ {n : Nat} {rest : List AckMsg}, s.ackRx = .ack n :: rest →
      n ≤ s.down.bytesWritten ∧ (s.spool.ack n).bytesAcked = max s.spool.bytesAcked n := by
    intro n rest hrx
    have hle := hb.inbox n (by rw [hrx]; exact List.mem_cons_self)
    exact ⟨hle, SpoolBuffer.ack_bytesAcked hb.holds (Nat.le_trans hle hb.outOk.le)⟩
  have hacked := hi.acked
  have hsent := hi.sent
  cases h with
  | ackNew _ hrx =>
    obtain ⟨hle, heq⟩ := taken hrx
    exact ⟨by show (s.spool.ack _).bytesAcked ≤ max _ _; omega, by show max _ _ ≤ s.down.bytesWritten; omega⟩
  | ackOld _ hrx hold =>
    obtain ⟨_, heq⟩ := taken hrx
    exact ⟨by show (s.spool.ack _).bytesAcked ≤ s.bytesSent; omega, hsent⟩
  | _ => exact hi

theorem step_counted {s s' : Transfer} {a : Act} (hi : Counted s) (hb : Bytes s) (h : s.step a = some s') :
    Counted s' := by
  cases a with
  | reader a => cases readerStep_cases h <;> exact hi
  | ticket a => cases ticketStep_cases h <;> exact hi
  | pump a => cases pumpStep_cases h <;> exact hi
  | ack a => exact ack_counted hi hb (ackStep_cases h)
  | link a => cases linkStep_cases h <;> exact hi
  | down a =>
    cases downStep_cases h with
    | write | writeAck => exact ⟨hi.acked, Nat.le_trans hi.sent (Nat.le_add_right ..)⟩
    | _ => exact hi

/-! ## The last ack comes before `Done` -/

/-- Everything the receiver has written is in the sender's count before `Done` is taken. -/
structure TallyOf (written bytesSent : Nat) (ackRx : List AckMsg) (streams : Nat → QStream) : Prop where
  inbox : written ≤ bytesSent ∨ Before (.ack written) .done ackRx
  stream : ∀ sid, written ≤ bytesSent ∨ .ack written ∈ ackRx ∨ Before (.ack written) .done (streams sid).down

def Tally (s : Transfer) : Prop := s.ack ≠ .exited → TallyOf s.down.bytesWritten s.bytesSent s.ackRx s.streams

/-- No `Done` is on its way before the receiver has success to report. -/
theorem tally_of_not_completed {s : Transfer} (hw : LastWord s) (hnot : ¬ Completed s.downReports) :
    TallyOf s.down.bytesWritten s.bytesSent s.ackRx s.streams := by
  refine ⟨.inr (before_of_not_mem fun hm => hnot (hw.inbox .done hm).2), fun sid => .inr (.inr ?_)⟩
  exact before_of_not_mem fun hm => hnot (hw.stream sid .done hm).2

variable {written bytesSent : Nat} {ackRx : List AckMsg} {streams : Nat → QStream}

theorem TallyOf.update (hi : TallyOf written bytesSent ackRx streams) (sid : Nat) {q' : QStream}
    (hq : Before (.ack written) .done (streams sid).down → Before (.ack written) .done q'.down) :
    TallyOf written bytesSent ackRx (Function.update streams sid q') := by
  refine ⟨hi.inbox, ?_⟩
  exact forall_update (P := fun _ q => written ≤ bytesSent ∨ .ack written ∈ ackRx ∨ Before (.ack written) .done q.down)
    hi.stream ((hi.stream sid).imp_right (.imp_right hq))

/-- The ack task takes a message that is no ack of everything, or has counted it. -/
theorem TallyOf.popInbox {m : AckMsg} (hi : TallyOf written bytesSent (m :: ackRx) streams) {bytesSent' : Nat}
    (hle : bytesSent ≤ bytesSent') (hm : m = .ack written → written ≤ bytesSent') :
    TallyOf written bytesSent' ackRx streams := by
  by_cases hack : .ack written = m
  · exact ⟨.inl (hm hack.symm), fun _ => .inl (hm hack.symm)⟩
  refine ⟨hi.inbox.imp (Nat.le_trans · hle) (·.tail hack), fun sid => ?_⟩
  rcases hi.stream sid with h | h | h
  · exact .inl (Nat.le_trans h hle)
  · exact .inr (.inl ((List.mem_cons.mp h).resolve_left hack))
  · exact .inr (.inr h)

/-- The reader sub-task takes a message off its stream. -/
theorem TallyOf.read (hi : TallyOf written bytesSent ackRx streams) {sid : Nat} {m : WormholeMsg} {rest : List WormholeMsg}
    (hd : (streams sid).down = m :: rest) {q' : QStream} (hq : q'.down = rest) :
    TallyOf written bytesSent (ackRx ++ [m.toAckMsg]) (Function.update streams sid q') := by
  have hs := hi.stream sid
  rw [hd] at hs
  have hin : written ≤ bytesSent ∨ Before (.ack written) .done (ackRx ++ [m.toAckMsg]) := by
    rcases hi.inbox with h | h
    · exact .inl h
    rcases hs with hs | hs | hs
    · exact .inl hs
    · exact .inr (h.snoc fun _ => hs)
    · refine .inr (h.snoc fun hm => ?_)
      have : m = .done := toAckMsg_inj hm
      subst this
      exact absurd hs not_before_head
  refine ⟨hin, forall_update (P := fun _ q => _ ∨ _ ∨ Before (.ack written) .done q.down) (fun i => ?_) ?_⟩
  · exact (hi.stream i).imp_right (.imp_left (List.mem_append_left _))
  · by_cases hack : .ack written = m
    · subst hack
      exact .inr (.inl (List.mem_append_right _ (List.mem_singleton_self _)))
    · rw [hq]
      exact hs.imp_right (.imp (List.mem_append_left _) (·.tail hack))

theorem ack_tally {s s' : Transfer} {a : AckAct} (hi : TallyOf s.down.bytesWritten s.bytesSent s.ackRx s.streams)
    (hc : Counted s) (hx' : s'.ack ≠ .exited) (h : AckCase s a s') :
    TallyOf s'.down.bytesWritten s'.bytesSent s'.ackRx s'.streams := by
  cases h with
  | ackNew _ hrx =>
    rw [hrx] at hi
    refine hi.popInbox (Nat.le_max_left ..) fun hm => ?_
    cases hm
    exact Nat.le_max_right ..
  | ackOld _ hrx hold =>
    rw [hrx] at hi
    refine hi.popInbox (Nat.le_refl _) fun hm => ?_
    cases hm
    exact Nat.le_trans hold hc.acked
  | streamError _ hrx | streamErrorDropped _ hrx =>
    rw [hrx] at hi
    exact hi.popInbox (Nat.le_refl _) fun hm => by cases hm
  | done | error | goneFail | streamReaderGone | noStream | linkUpFail => exact absurd rfl hx'
  | readMsgClosed _ _ hx => exact absurd hx hx'
  | readAck _ hd | readLast _ hd => exact hi.read hd rfl
  | readEnd =>
    refine ⟨hi.inbox.imp_right (·.snoc fun hm => by cases hm), fun sid => ?_⟩
    exact (hi.stream sid).imp_right (.imp_left (List.mem_append_left _))
  | _ => exact hi

/-- After the receiver's end only the sender moves what is on its way. -/
theorem ended_tally {s s' : Transfer} {a : Act} (hi : TallyOf s.down.bytesWritten s.bytesSent s.ackRx s.streams)
    (hc : Counted s) (hd : s.down.pc.ended = true) (hx' : s'.ack ≠ .exited) (h : s.step a = some s') :
    TallyOf s'.down.bytesWritten s'.bytesSent s'.ackRx s'.streams := by
  cases a with
  | reader a => cases readerStep_cases h <;> exact hi
  | ticket a => cases ticketStep_cases h <;> exact hi
  | pump a =>
    cases pumpStep_cases h with
    | linkUp | drainFin | write | postFin => exact hi.update _ fun h => h
    | _ => exact hi
  | ack a => exact ack_tally hi hc hx' (ackStep_cases h)
  | link a =>
    cases linkStep_cases h with
    | outage => exact hi.update _ fun h => h.take _
    | restoreOpen => exact hi.update _ fun _ => before_of_not_mem List.not_mem_nil
    | dropStream => exact hi.update _ fun h => h
    | _ => exact hi
  | down a =>
    cases downStep_cases h with
    | acceptConnect | acceptReconnect | acceptRefused | duplicate | dropStream => exact hi.update _ fun h => h
    | tcpAcceptFail hpc | gap _ hpc | write _ hpc | writeAck _ hpc | writeFail _ hpc | eof hpc =>
      rw [hpc] at hd
      cases hd
    | _ => exact hi

/-- When `run_downlink` ends the stream that it reads, an ack of everything it has written
    has been taken, or waits for the ack task, or is on that stream. -/
def tailAcked (s : Transfer) : DownPc → Prop
  | .reading sid =>
    s.down.bytesWritten ≤ s.bytesSent ∨ .ack s.down.bytesWritten ∈ s.ackRx ∨
      .ack s.down.bytesWritten ∈ (s.streams sid).down
  | _ => True

instance (s : Transfer) (pc : DownPc) : Decidable (tailAcked s pc) := by
  cases pc <;> dsimp only [tailAcked] <;> infer_instance

def acksTail (s : Transfer) : Act → Prop
  | .down .eof => tailAcked s s.down.pc
  | _ => True

instance (s : Transfer) (a : Act) : Decidable (acksTail s a) := by
  cases a with
  | down a => cases a <;> dsimp only [acksTail] <;> infer_instance
  | _ => exact instDecidableTrue

/-- Success is reported of whole streams only, with everything acked. -/
def countsTail (s : Transfer) (a : Act) : Prop := wholeStreams s a ∧ acksTail s a

instance (s : Transfer) (a : Act) : Decidable (countsTail s a) := inferInstanceAs (Decidable (_ ∧ _))

theorem eof_tally {s s' : Transfer} (hl : Living s) (hok : tailAcked s s.down.pc) (h : DownCase s .eof s') :
    TallyOf s'.down.bytesWritten s'.bytesSent s'.ackRx s'.streams := by
  cases h with
  | @eof sid hpc _ _ hcut =>
    have hnot : ¬ Completed s.downReports := by
      intro hdone
      have hd := hl.lastWord.completed hdone
      rw [hpc] at hd
      cases hd
    have ht := tally_of_not_completed hl.lastWord hnot
    refine ⟨ht.inbox, forall_update (P := fun _ q => _ ∨ _ ∨ Before (.ack s.down.bytesWritten) .done q.down) ht.stream ?_⟩
    rw [hpc] at hok
    refine hok.imp_right (.imp_right fun hmem => ?_)
    show Before _ _ ((s.streams sid).writeMsg .done).down
    simp only [QStream.writeMsg, hcut, Bool.false_eq_true, if_false]
    exact Before.snoc (before_of_not_mem fun hm => hnot (hl.lastWord.stream sid .done hm).2) fun _ => hmem

theorem step_tally {s s' : Transfer} {a : Act} (hi : Tally s) (hl : Living s) (hc : Counted s) (hok : countsTail s a)
    (h : s.step a = some s') : Tally s' := by
  intro hx'
  have hx : s.ack ≠ .exited := fun hx => hx' (ack_exited_stays hx h).1
  by_cases hd : s.down.pc.ended = true
  · exact ended_tally (hi hx) hc hd hx' h
  by_cases ha : a = .down .eof
  · subst ha
    exact eof_tally hl hok.2 (downStep_cases h)
  · refine tally_of_not_completed (step_living hl h).lastWord fun hdone => ?_
    exact ha (completed_cases h hdone fun hdone0 => hd (hl.lastWord.completed hdone0))

/-! ## What is reported -/

/-- `AckTask` reports the end when it takes `Done`, with what it has counted. -/
theorem sender_done_cases {s s' : Transfer} {a : Act} {n : Nat} (h : s.step a = some s') (hn : .done n ∈ s'.callbacks) :
    .done n ∈ s.callbacks ∨ (s.ack ≠ .exited ∧ n = s.bytesSent ∧ ∃ rest, s.ackRx = .done :: rest) := by
  have old : ∀ {c : Callback}, .done n ∈ s.callbacks ++ [c] → c ≠ .done n → .done n ∈ s.callbacks := by
    intro c hmem hne
    rcases List.mem_append.mp hmem with hmem | hmem
    · exact hmem
    · exact absurd (List.mem_singleton.mp hmem).symm hne
  cases a with
  | reader a =>
    cases readerStep_cases h with
    | acceptFail | readFail => exact .inl (old hn (by simp))
    | _ => exact .inl hn
  | ticket a => cases ticketStep_cases h <;> exact .inl hn
  | pump a => cases pumpStep_cases h <;> exact .inl hn
  | ack a =>
    cases ackStep_cases h with
    | done hsel hrx =>
      rcases List.mem_append.mp hn with hn | hn
      · exact .inl hn
      · exact .inr ⟨(selecting_mode hsel).1, by cases List.mem_singleton.mp hn; rfl, _, hrx⟩
    | error | goneFail | noStream => exact .inl (old hn (by simp))
    | space progress =>
      cases progress with
      | true => exact .inl (old hn (by simp))
      | false => exact .inl hn
    | _ => exact .inl hn
  | link a => cases linkStep_cases h <;> exact .inl hn
  | down a => cases downStep_cases h <;> exact .inl hn

/-- Either agent's `StreamDone` says what the receiver has written, which is everything
    that the sending client wrote. -/
structure Reports (s : Transfer) : Prop where
  sender : ∀ n, .done n ∈ s.callbacks → s.down.pc.ended = true ∧ n = s.down.bytesWritten
  receiver : ∀ n, .done n ∈ s.downReports → n = s.down.bytesWritten
  whole : Completed s.downReports → s.closed = true ∧ s.wrote.length = s.down.bytesWritten

theorem step_sender {s s' : Transfer} {a : Act} (hi : Reports s) (hl : Living s) (hc : Counted s) (ht : Tally s)
    (h : s.step a = some s') {n : Nat} (hn : .done n ∈ s'.callbacks) :
    s'.down.pc.ended = true ∧ n = s'.down.bytesWritten := by
  have hold : s.down.pc.ended = true ∧ n = s.down.bytesWritten := by
    rcases sender_done_cases h hn with hn | ⟨hx, rfl, rest, hrx⟩
    · exact hi.sender n hn
    · have hexit := (hl.lastWord.inbox .done (by rw [hrx]; exact List.mem_cons_self)).1
      have hin := (ht hx).inbox
      rw [hrx] at hin
      exact ⟨hexit, Nat.le_antisymm hc.sent (hin.resolve_right not_before_head)⟩
  exact ⟨down_ended_stays hl.sound.connect hold.1 h, hold.2.trans (ended_frozen hl.sound.connect hold.1 h).1.symm⟩

theorem eof_reports {s s' : Transfer} (hf : Faithful s) (hnot : ¬ Completed s.downReports) (h : DownCase s .eof s') :
    (∀ n, .done n ∈ s'.downReports → n = s'.down.bytesWritten) ∧
      s'.closed = true ∧ s'.wrote.length = s'.down.bytesWritten := by
  obtain ⟨_, hpc, _, _, _, hclean, hout⟩ := whole_of_eof hf h
  have hb := hf.living.sound.bytes.outOk
  have hlen : s.wrote.length = s.down.bytesWritten := by
    rw [← hout, hb.out (by rw [hpc]; rfl), List.length_take, Nat.min_eq_left hb.le]
  cases h with
  | eof =>
    refine ⟨fun n hn => ?_, (hf.clean.read hclean).2, hlen⟩
    rcases List.mem_append.mp hn with hn | hn
    · exact absurd ⟨n, DownPc.mem_reports hn⟩ hnot
    · cases List.mem_singleton.mp hn
      rfl

theorem step_reports {s s' : Transfer} {a : Act} (hi : Reports s) (hf : Faithful s) (hc : Counted s) (ht : Tally s)
    (h : s.step a = some s') : Reports s' := by
  have hsender := fun n => step_sender hi hf.living hc ht h (n := n)
  by_cases hdone : Completed s.downReports
  · obtain ⟨hw, _, hcb⟩ := ended_frozen hf.living.sound.connect (hf.living.lastWord.completed hdone) h
    obtain ⟨hclosed, hlen⟩ := hi.whole hdone
    obtain ⟨hclosed', hwrote⟩ := closed_stays hclosed h
    refine ⟨hsender, fun n hn => ?_, fun _ => ⟨hclosed', ?_⟩⟩
    · rw [hcb] at hn
      rw [hw]
      exact hi.receiver n hn
    · rw [hwrote, hw]
      exact hlen
  by_cases hdone' : Completed s'.downReports
  · have ha := completed_cases h hdone' hdone
    subst ha
    obtain ⟨hr, hwhole⟩ := eof_reports hf hdone (downStep_cases h)
    exact ⟨hsender, hr, fun _ => hwhole⟩
  · exact ⟨hsender, fun n hn => absurd ⟨n, hn⟩ hdone', fun h' => absurd h' hdone'⟩

structure Agreed (s : Transfer) : Prop where
  counted : Counted s
  tally : Tally s
  reports : Reports s

theorem reach_agreed {capped : Bool} {s : Transfer} (h : Reach step countsTail (init capped) s) : Agreed s := by
  refine h.invariant_of (I := Faithful) (fun hr => reach_faithful (hr.mono fun _ _ hok => hok.1)) ?_ ?_
  · have hnot : ¬ Completed (init capped).downReports := fun ⟨_, hn⟩ => List.not_mem_nil hn
    exact ⟨⟨Nat.le_refl _, Nat.le_refl _⟩, fun _ => tally_of_not_completed (init_lastWord capped) hnot,
      ⟨fun _ hn => absurd hn List.not_mem_nil, fun _ hn => absurd hn List.not_mem_nil, fun h => absurd h hnot⟩⟩
  · intro s s' a hf _ hi hok hs
    exact ⟨step_counted hi.counted hf.living.sound.bytes hs, step_tally hi.tally hf.living hi.counted hok hs,
      step_reports hi.reports hf hi.counted hi.tally hs⟩

/-- If both agents have reported `StreamDone`, they have reported the same number of
    bytes, and it is the number that the sending client wrote. -/
theorem byte_counts_agree {capped : Bool} {s : Transfer} (h : Reach step countsTail (init capped) s) {sent received : Nat}
    (hsent : .done sent ∈ s.callbacks) (hreceived : .done received ∈ s.downCallbacks) :
    sent = received ∧ received = s.wrote.length := by
  have hi := (reach_agreed h).reports
  have hreport : .done received ∈ s.downReports := DownPc.mem_reports hreceived
  have hr := hi.receiver received hreport
  exact ⟨(hi.sender sent hsent).2.trans hr.symm, hr.trans (hi.whole ⟨received, hreport⟩).2.symm⟩

/-! ## A stream that ends with an interval -/

section Interval

variable {b : List UInt8}

/-- Actions that neither condition restricts. -/
def unrestricted : Act → Bool
  | .reader .readFail | .link (.dropStream _) | .down .eof => false
  | _ => true

theorem countsTail_of_unrestricted {s : Transfer} {a : Act} (h : unrestricted a = true) : countsTail s a := by
  unfold unrestricted at h
  split at h
  · cases h
  · cases h
  · cases h
  · rename_i h1 h2 h3
    refine ⟨?_, ?_⟩
    · unfold wholeStreams
      split
      · exact absurd rfl h1
      · exact absurd rfl (h2 _)
      · trivial
    · unfold acksTail
      split
      · exact absurd rfl h3
      · trivial

theorem reach_along {as : List Act} {s t : Transfer} (h : Reach step countsTail (init true) s)
    (hrun : run step s as = some t) (hfree : as.all unrestricted = true) : Reach step countsTail (init true) t :=
  h.along_of (fun a ha _ => countsTail_of_unrestricted (List.all_eq_true.mp hfree a ha)) hrun

/-- The receiver writes one interval in four chunks, and acks it with the last. -/
theorem run_readInterval (hb : b.length = chunkSize) {s : Transfer} (hpc : s.down.pc = .reading 0)
    (hup : (s.streams 0).up = frames b 0 4) (hw : s.down.bytesWritten = 0) (hla : s.down.lastAcked = 0)
    (hd : (s.streams 0).down = []) (hcut : (s.streams 0).cut = false) :
    run step s (readLoop 4) = some { s with
      streams := Function.update s.streams 0 { s.streams 0 with up := [], down := [.ack (4 * chunkSize)] }
      down := { s.down with bytesWritten := 4 * chunkSize, lastAcked := 4 * chunkSize, out := s.down.out ++ blocks b 4 } } := by
  have hb' : b.length = 16384 := hb
  simp [readLoop, run, step, downStep, hpc, hup, hw, hla, hd, hcut, frames, writeChunk, trimmed, popUp, setStream, hb',
    chunkSize, ackInterval, QStream.writeMsg, blocks]

theorem run_markEof {s : Transfer} {k : Nat} (hr : s.reader = .space) (hs : s.sock = []) (hspool : s.spool = spooled b k)
    (hroom : chunkSize ≤ (spooled b k).available) :
    run step s closeClient = some { s with
      closed := true
      cleanEof := true
      spool := (spooled b k).markEof
      headOffset := (spooled b k).markEof.headOffset
      reader := .exited
      dataReady := s.dataReady.notifyOne } := by
  have hspace : ¬ (spooled b k).available < chunkSize := by omega
  have heof : (spooled b k).atEof = false := rfl
  simp only [closeClient, run, step, readerStep, handleEof, hr, hs, hspool, hspace, heof, if_false, if_true,
    Option.bind_some, and_self, Bool.false_eq_true]

theorem run_finish {s : Transfer} (hack : s.ack = .check .main) (hf : s.finishSent = false) (heof : s.spool.atEof = true)
    (hpc : s.pump.pc = .select) (hc : s.cmds = []) (hq : s.spool.headOffset = s.pump.q) :
    run step s [.ack .check, .ack .finish, .pump .cmd, .pump (.drain 0), .pump .post] = some { s with
      finishSent := true
      ack := .poll .main
      cmds := []
      alloc := none
      streams := Function.update s.streams s.pump.quicTx { s.streams s.pump.quicTx with upFin := true }
      pump := { s.pump with pc := .exited, finishing := true, done := true } } := by
  simp [run, step, ackStep, pumpStep, hack, hf, heof, hpc, hc, hq, cmdSlots, onFinish, drainTurn, Budget.isZero, sendFin,
    pumpExit, setStream]

theorem countsTail_eof {s : Transfer} {sid : Nat} (hpc : s.down.pc = .reading sid)
    (hm : .ack s.down.bytesWritten ∈ (s.streams sid).down) : countsTail s (.down .eof) := by
  refine ⟨trivial, ?_⟩
  show tailAcked s s.down.pc
  rw [hpc]
  exact .inr (.inr hm)

theorem run_eof {s : Transfer} {sid : Nat} (hpc : s.down.pc = .reading sid) (hup : (s.streams sid).up = [])
    (hf : (s.streams sid).upFin = true) (hc : (s.streams sid).cut = false) :
    s.step (.down .eof) = some { s with
      streams := Function.update s.streams sid
        { s.streams sid with down := (s.streams sid).down ++ [.done], downFin := true }
      down := { s.down with pc := .report sid (.done s.down.bytesWritten) } } := by
  simp [step, downStep, hpc, hup, hf, hc, setStream, QStream.writeMsg]

theorem run_report {s : Transfer} {sid : Nat} {c : Callback} (hpc : s.down.pc = .report sid c) :
    run step s [.down .report] =
      some { s with down := { s.down with pc := .exited }, downCallbacks := s.downCallbacks ++ [c] } := by
  simp [run, step, downStep, hpc]

/-- The ack task takes an ack and then `Done`. -/
theorem run_takeDone {s : Transfer} {n : Nat} (hack : s.ack = .poll .main) (hrd : s.ackReader = .reading 0)
    (hrx : s.ackRx = []) (hd : (s.streams 0).down = [.ack n, .done]) (hf : s.finishSent = true)
    (hn : s.spool.bytesAcked < n) (hsent : s.bytesSent ≤ n) :
    ∃ t, run step s [.ack .readMsg, .ack .msg, .ack (.space false), .ack .check, .ack .readMsg, .ack .msg] = some t ∧
      t.callbacks = s.callbacks ++ [.done n] ∧ t.downCallbacks = s.downCallbacks := by
  simp [run, step, ackStep, hack, hrd, hrx, hd, hf, hn, setStream, AckPc.selecting, onAck, ackExit, unpark, ackSlots,
    WormholeMsg.toAckMsg, Nat.max_eq_right hsent]

/-- The client has written four chunks and the reader has pushed them. -/
def intervalPushed (b : List UInt8) (dr : Notify Waiter) : Transfer :=
  { init true with
    reader := .space
    wrote := blocks b 4
    sock := []
    pushed := blocks b 4
    spool := spooled b 4
    headOffset := 4 * chunkSize
    dataReady := dr }

theorem intervalPushed_reach (hb : b.length = chunkSize) :
    ∃ dr, Reach step countsTail (init true) (intervalPushed b dr) := by
  have h0 := reach_along .init (run_connect (blocks b 4)) rfl
  obtain ⟨dr, hpush⟩ := run_pushLoop hb 4 (k := 0)
    (s := { init true with reader := .space, wrote := blocks b 4, sock := blocks b 4 })
    rfl rfl (by rw [spooled, blocks_zero, Nat.zero_mul]; rfl) (by rw [Nat.zero_mul]; rfl) (by omega)
  exact ⟨dr, reach_along h0 hpush rfl⟩

/-- The pump has sent them and the receiver has written them; the ack is on the stream. -/
def intervalWritten (b : List UInt8) (dr : Notify Waiter) (sent : List UInt8) : Transfer :=
  { intervalPushed b dr with
    qAtomic := 4 * chunkSize
    pump := ⟨.select, 4 * chunkSize, 0, false, false⟩
    streams := Function.update (fun _ => .blank) 0
      { QStream.first with up := [], down := [.ack (4 * chunkSize)], sent := sent }
    nextAccept := 1
    down := ⟨.reading 0, 4 * chunkSize, 4 * chunkSize, blocks b 4, [], true⟩ }

theorem intervalWritten_reach (hb : b.length = chunkSize) :
    ∃ dr sent, Reach step countsTail (init true) (intervalWritten b dr sent) := by
  obtain ⟨dr, h0⟩ := intervalPushed_reach hb
  have hpos : 0 < 4 * chunkSize := by decide
  have h1 := reach_along h0 (run_grant hpos rfl rfl hpos rfl rfl) rfl
  obtain ⟨sent, hsend⟩ := run_sendLoop hb 4 (k := 0)
    (s := { intervalPushed b dr with pump := ⟨.drain (.bytes (4 * chunkSize)), 0, 0, false, false⟩ })
    rfl (by rw [Nat.zero_mul]) (by rw [Nat.zero_mul]; rfl) rfl rfl
  have h2 := reach_along (reach_along h1 hsend rfl) (run_spent rfl rfl rfl) rfl
  have h3 := reach_along h2 (run_startDownlink (frames b 0 4) rfl Nat.one_pos rfl) rfl
  have h4 := reach_along h3 (run_readInterval hb rfl rfl rfl rfl rfl rfl) rfl
  refine ⟨dr, sent, ?_⟩
  simpa [intervalWritten, intervalPushed, init] using h4

theorem interval_reach (hb : b.length = chunkSize) : ∃ s, Reach step countsTail (init true) s ∧
    s.callbacks = [.done ackInterval] ∧ s.downCallbacks = [.done ackInterval] := by
  obtain ⟨dr, sent, h0⟩ := intervalWritten_reach hb
  have hpos : 0 < 4 * chunkSize := by decide
  have hroom : chunkSize ≤ (spooled b 4).available := by
    simp only [SpoolBuffer.available, spooled, length_blocks hb, spoolCapacity, chunkSize]
    decide
  have h1 := reach_along h0 (run_markEof rfl rfl rfl hroom) rfl
  have hhead : (spooled b 4).markEof.headOffset = 4 * chunkSize := by
    simp [SpoolBuffer.headOffset, SpoolBuffer.markEof, spooled, length_blocks hb]
  have h2 := reach_along h1 (run_finish rfl rfl rfl rfl rfl hhead) rfl
  obtain ⟨s, hs, h3⟩ : ∃ s, _ = s ∧ Reach step countsTail (init true) s :=
    ⟨_, rfl, reach_along (.step _ h2 (countsTail_eof rfl List.mem_cons_self) (run_eof rfl rfl rfl rfl))
      (run_report rfl) rfl⟩
  obtain ⟨t, hrun, hcb, hdcb⟩ := run_takeDone (n := 4 * chunkSize) (s := s) (by rw [← hs]) (by rw [← hs]; rfl)
    (by rw [← hs]; rfl) (by rw [← hs]; rfl) (by rw [← hs]) (by rw [← hs]; exact hpos) (by rw [← hs]; exact Nat.zero_le _)
  refine ⟨t, reach_along h3 hrun rfl, ?_⟩
  rw [hcb, hdcb, ← hs]
  exact ⟨rfl, rfl⟩

end Interval

/-- Everything is acked before the end, and counted. -/
theorem interval_counted :
    ∃ s, Reach step countsTail (init true) s ∧ s.callbacks = [.done ackInterval] ∧
      s.downCallbacks = [.done ackInterval] ∧ ackInterval = s.wrote.length := by
  obtain ⟨s, hr, hcb, hdcb⟩ := interval_reach (b := List.replicate chunkSize 0) List.length_replicate
  have hagree := byte_counts_agree hr (by rw [hcb]; exact List.mem_singleton_self _)
    (by rw [hdcb]; exact List.mem_singleton_self _)
  exact ⟨s, hr, hcb, hdcb, hagree.2⟩

/-- Three bytes over a link that never fails: the receiver acks none of them. -/
theorem tail_not_counted :
    ∃ s, Reach step anyStep (init true) s ∧ s.wrote = [1, 2, 3] ∧ s.callbacks = [.done 0] ∧ s.downCallbacks = [.done 3] ∧
      ¬ ∀ sent received, .done sent ∈ s.callbacks → .done received ∈ s.downCallbacks →
        sent = received ∧ received = s.wrote.length := by
  obtain ⟨s, hr, hs⟩ := Reach.exists_run step anyStep (init true)
    [[.reader .accept], writeAndPush [1, 2, 3], closeClient, sendAndFinish 9, startDownlink,
      [.down (.chunk false), .down .eof, .down .report, .ack .readMsg, .ack .msg]].flatten
    (fun s => s.wrote = [1, 2, 3] ∧ s.callbacks = [.done 0] ∧ s.downCallbacks = [.done 3]) (by decide +kernel)
  obtain ⟨hw, hcb, hdcb⟩ := of_decide_eq_true hs
  refine ⟨s, hr, hw, hcb, hdcb, fun hall => ?_⟩
  rw [hcb, hdcb] at hall
  exact absurd (hall 0 3 (List.mem_singleton_self _) (List.mem_singleton_self _)).1 (by decide)

end Quelay.Agent.Transfer
