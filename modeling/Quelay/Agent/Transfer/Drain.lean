/-
  Quelay.Agent.Transfer.Drain — a transfer that nothing disturbs comes to rest.

  `work` counts what is left to do: each byte that the reader has not read or the pump not
  sent, each frame, message, command, ticket and notification on its way is worth the steps
  it will cost, and so is the place of each task. In an undisturbed run every step of a task
  that changes anything lowers it. So the tasks alone cannot go on for ever: at most `work`
  such steps are left. The timer can, by looking again and again; but when the tasks are
  parked and there is something to send, one ticket from it makes the pump send at least
  one byte. So tasks and timer can always bring the transfer to rest
  (`undisturbed_comes_to_rest`), and what rest means is known.
-/

import Quelay.Agent.Transfer.Undisturbed
import Quelay.Lib.Settles

namespace Quelay.Agent.Transfer

open Quelay.Lib

/-! ## What is left to do -/

def readerWork : ReaderPc → Nat
  | .store _ false => 16
  | .notify false => 15
  | .accept => 11
  | .space => 10
  | .spacePoll => 9
  | .spaceParked => 8
  | .read | .failed => 7
  | .store _ true => 6
  | .notify true => 5
  | .exited => 0

def pumpWork : PumpPc → Nat
  | .store (.drain _) => 4
  | .drain _ => 3
  | .post | .write _ _ | .store _ => 2
  | .select | .waitUp => 1
  | .exited => 0

def ackWork : AckPc → Nat
  | .space => 9
  | .finish _ => 6
  | .check _ => 4
  | .poll _ => 2
  | .parked _ | .linkUp _ => 1
  | .exited => 0

def ackReaderWork : AckReaderPc → Nat
  | .reading _ => 2
  | .waiting => 1
  | .exited => 0

def downWork : DownPc → Nat
  | .absent => 15
  | .spawned => 14
  | .tcpAccept _ => 13
  | .reading _ | .waiting => 12
  | .report _ _ => 1
  | .exited => 0

/-- A chunk may be answered with an ack, and either half may still be let go. -/
def streamWork (q : QStream) : Nat :=
  11 * q.up.length + 10 * q.down.length + ((!q.upFin).toNat + (!q.downFin).toNat + (!q.stopped).toNat)

/-- A byte costs more before the reader has pushed it than after. -/
def work (s : Transfer) : Nat :=
  (readerWork s.reader + 24 * s.sock.length + 4 * s.spaceReady.pendingCount) +
    (pumpWork s.pump.pc + 14 * (s.pushed.length - s.pump.q) + 3 * s.alloc.toList.length + 3 * s.cmds.length) +
    (ackWork s.ack + 4 * s.dataReady.pendingCount + 3 * (!s.finishSent).toNat + 9 * s.ackRx.length +
      ackReaderWork s.ackReader) +
    (streamWork (s.streams 0) + downWork s.down.pc)

variable {s s' : Transfer}

theorem reader_work {a : ReaderAct} (hown : ownStep (.reader a) = true) (h : ReaderCase s a s') : s'.work < s.work := by
  cases h with
  | clientWrite | clientClose | acceptFail | readFail => cases hown
  | accept hr | spaceNone hr | spaceOk hr | eof hr | eofAgain hr | failedEof hr | failedEofAgain hr =>
    simp only [work, hr, readerWork]
    omega
  | spacePermit hr hp =>
    have := Notify.pendingCount_take hp
    simp only [work, hr, readerWork]
    omega
  | spacePark hr =>
    simp only [work, hr, readerWork, Notify.pendingCount_park]
    omega
  | spaceWake hr hw =>
    have := Notify.pendingCount_resume hw
    simp only [work, hr, readerWork]
    omega
  | read n hr hpos hle =>
    simp only [work, hr, readerWork, List.length_drop, List.length_append, List.length_take]
    omega
  | @store head last hr => cases last <;> (simp only [work, hr, readerWork]; omega)
  | @notify last hr =>
    have := Notify.pendingCount_notifyOne s.dataReady
    cases last <;> (simp only [work, hr, readerWork, if_true, Bool.false_eq_true, if_false]; omega)

/-- The pump is never left to wait for another stream. -/
theorem Quiet.not_waiting (hi : Quiet s) : s.pump.pc ≠ .waitUp := by
  rcases hi.calm.once with hfin | honce
  · rcases (hi.calm.living.sound.finished (hi.calm.finDone hfin)).1 with h | h <;> simp [h]
  · exact honce.pump.1

/-- It gets no command but `Finish`. -/
theorem Quiet.only_finish (hi : Quiet s) (hpc : s.pump.pc = .select) : s.cmds = [] ∨ s.cmds = [.finish] := by
  rcases hi.calm.once with hfin | honce
  · rcases (hi.calm.living.sound.finished (hi.calm.finDone hfin)).1 with h | h <;> simp [h] at hpc
  · exact honce.queued.imp_right And.left

theorem pump_work {a : PumpAct} (hi : Quiet s) (h : PumpCase s a s') : s'.work < s.work := by
  have hb := hi.calm.living.sound.bytes
  obtain ⟨_, htx⟩ := hi.calm.one.current hi.calm.living
  cases h with
  | ticket hpc ha =>
    simp only [work, hpc, ha, pumpWork, Option.toList_some, Option.toList_none, List.length_singleton, List.length_nil]
    omega
  | linkDown hpc hc => rcases hi.only_finish (hpc.resolve_right hi.not_waiting) with h | h <;> · rw [hc] at h; cases h
  | linkUpIgnored hpc hc => rcases hi.only_finish hpc with h | h <;> · rw [hc] at h; cases h
  | linkUp hpc => exact absurd hpc hi.not_waiting
  | finishDrained hpc hc | finishBacklog hpc hc | finishWaiting hpc hc =>
    simp only [work, hpc, hc, pumpWork, List.length_cons]
    omega
  | drainSpent _ hpc | drainNone _ hpc | drainEmpty _ hpc | drainChunk _ hpc | post hpc | writeFail hpc =>
    simp only [work, hpc, pumpWork]
    omega
  | drainFin _ hpc =>
    simp only [work, hpc, pumpWork, htx, Function.update_self, streamWork, Bool.not_true, Bool.toNat_false]
    omega
  | @write remaining chunk hpc =>
    -- The bytes sent pay for the frame.
    obtain ⟨hne, hpre⟩ := hb.pumpOk.chunk remaining chunk hpc
    have hpos := List.length_pos_iff.mpr hne
    have hle := hpre.length_le
    rw [List.length_drop] at hle
    simp only [work, hpc, pumpWork, htx, Function.update_self, streamWork, QStream.write, hi.calm.one.live,
      Bool.false_eq_true, if_false, List.length_append, List.length_singleton]
    omega
  | @store next hpc => cases next <;> (simp only [work, hpc, pumpWork, AfterStore.pc]; omega)
  | postFin hpc =>
    simp only [work, hpc, pumpWork, htx, Function.update_self, streamWork, Bool.not_true, Bool.toNat_false,
      Option.toList_none, List.length_nil]
    omega
  | postDone hpc =>
    simp only [work, hpc, pumpWork, Option.toList_none, List.length_nil]
    omega
  | discard hpc ha =>
    obtain ⟨t, ht⟩ := Option.ne_none_iff_exists'.mp ha
    simp only [work, ht, Option.toList_some, Option.toList_none, List.length_singleton, List.length_nil]
    omega
  | closed hpc =>
    have hpos : pumpWork .exited < pumpWork s.pump.pc := by rcases hpc with h | h <;> rw [h] <;> decide
    simp only [work, Option.toList_none, List.length_nil]
    omega

/-- Leaving the select makes no notification. -/
theorem unpark_count (s : Transfer) : s.unpark.pendingCount ≤ s.dataReady.pendingCount := by
  unfold unpark
  split
  · exact Notify.pendingCount_cancel _ _
  · exact Nat.le_refl _

/-- What each message makes of the task is worth less than the message. -/
theorem selecting_work {pc : AckPc} {k : Sel} (h : pc.selecting = some k) :
    ackWork .exited < ackWork pc ∧ ackWork (.check .main) < ackWork pc + 9 ∧ ackWork .space < ackWork pc + 9 := by
  cases pc with
  | poll | parked => simp [ackWork]
  | _ => cases h

theorem ack_work {a : AckAct} (hi : Quiet s) (h : AckCase s a s') : s'.work < s.work := by
  have hl := hi.calm.living
  have ho := hi.calm.one
  have hunpark := unpark_count s
  have hreader : s.ack ≠ .exited → s.ackReader ≠ .waiting := fun hx => (hi.heard.coming hx).reader
  cases h with
  | checkEof hk hsent =>
    simp only [work, hk, hsent, ackWork, Bool.not_true, Bool.not_false, Bool.toNat_true, Bool.toNat_false]
    omega
  | checkNone hk | finishClosed hk =>
    simp only [work, hk, ackWork]
    omega
  | finish hk =>
    simp only [work, hk, ackWork, List.length_append, List.length_singleton]
    omega
  | pollPermit hk _ hp =>
    have := Notify.pendingCount_take hp
    simp only [work, hk, ackWork]
    omega
  | pollPark hk =>
    simp only [work, hk, ackWork, Notify.pendingCount_park]
    omega
  | wake hk hw =>
    have := Notify.pendingCount_resume hw
    simp only [work, hk, ackWork]
    omega
  | ackNew hk hrx | ackOld hk hrx =>
    have := selecting_work hk
    simp only [work, hrx, List.length_cons]
    omega
  | done hk | error hk =>
    have := selecting_work hk
    simp only [work, List.length_nil]
    omega
  | streamError hk hrx | streamErrorDropped hk hrx =>
    have hx := (selecting_mode hk).1
    exact absurd (waiting_of_streamError hl.sound.inbox hx hrx) (hreader hx)
  | space _ hk =>
    have := Notify.pendingCount_notifyOne s.spaceReady
    simp only [work, hk, ackWork]
    omega
  | gone hk hrx hr => exact absurd hrx (hl.sound.inbox.left (selecting_mode hk).1 hr)
  | goneFail hk =>
    simp only [work, hk, ackWork, List.length_nil]
    omega
  | stream hk _ hw => exact absurd hw (hreader (selecting_mode hk).1)
  | streamReaderGone hk | noStream hk =>
    have := selecting_work hk
    simp only [work, List.length_nil]
    omega
  | linkUp hk | linkUpFail hk => exact absurd hk (ho.no_linkUp hl _)
  | @readMsgClosed sid m rest hr hd =>
    obtain rfl := ho.reader_first hl hr
    simp only [work, hr, hd, ackReaderWork, Function.update_self, streamWork, List.length_cons]
    omega
  | @readAck sid n rest hr hd =>
    obtain rfl := ho.reader_first hl hr
    simp only [work, hr, hd, ackReaderWork, Function.update_self, streamWork, List.length_cons, List.length_append,
      List.length_nil]
    omega
  | @readLast sid m rest hr hd =>
    obtain rfl := ho.reader_first hl hr
    simp only [work, hr, hd, ackReaderWork, Function.update_self, streamWork, List.length_cons, List.length_append,
      List.length_nil]
    omega
  | readEndClosed hr | readerClosed hr =>
    simp only [work, hr, ackReaderWork]
    omega
  | readEnd hr hend hx =>
    rw [hi.heard.not_ended ho hl hx hr] at hend
    cases hend

theorem down_work {a : DownAct} (hi : Quiet s) (hown : ownStep (.down a) = true) (hne : s' ≠ s) (h : DownCase s a s') :
    s'.work < s.work := by
  have hl := hi.calm.living
  have ho := hi.calm.one
  have hplace := ho.place
  have hopened := ho.opened
  cases h with
  | acceptConnect hlt hu =>
    have h0 : s.nextAccept = 0 := by omega
    have hpc := hl.sound.connect.absent h0
    simp only [work, h0] at hu ⊢
    simp only [hpc, downWork, Function.update_self, streamWork, hu, List.length_cons]
    omega
  | acceptReconnect hlt hu | acceptRefused hlt hu =>
    have h0 : s.nextAccept = 0 := by omega
    obtain ⟨rest, hrest⟩ := ho.connect h0
    rw [h0, hrest] at hu
    cases hu
  | acceptSkip hlt hc =>
    have h0 : s.nextAccept = 0 := by omega
    rw [h0, ho.live] at hc
    cases hc
  | start hpc | tcpAccept hpc | report hpc =>
    simp only [work, hpc, downWork]
    omega
  | tcpAcceptFail | writeFail | dropHandle => cases hown
  | @duplicate sid offset payload rest _ hpc hu =>
    obtain ⟨_, rfl, _⟩ := ho.reading hpc
    simp only [work, Function.update_self, streamWork, hu, List.length_cons]
    omega
  | gap _ _ hu hlt =>
    have := ((hl.sound.bytes.streamOk _).front hu).1
    omega
  | @write sid offset payload rest _ hpc hu =>
    obtain ⟨_, rfl, _⟩ := ho.reading hpc
    simp only [work, written, Function.update_self, streamWork, hu, List.length_cons]
    omega
  | @writeAck sid offset payload rest _ hpc hu =>
    obtain ⟨_, rfl, _⟩ := ho.reading hpc
    simp only [work, written, Function.update_self, streamWork, hu, QStream.writeMsg, ho.live, Bool.false_eq_true, if_false,
      List.length_cons, List.length_append, List.length_nil]
    omega
  | @eof sid hpc _ _ hc =>
    obtain ⟨_, rfl, _⟩ := ho.reading hpc
    simp only [work, hpc, downWork, Function.update_self, streamWork, QStream.writeMsg, hc, Bool.false_eq_true, if_false,
      Bool.not_true, Bool.toNat_false, List.length_append, List.length_singleton]
    omega
  | readError hpc _ hc =>
    rw [(ho.reading hpc).2.1, ho.live] at hc
    cases hc
  | resume hpc | lost hpc =>
    rw [DownAt, hpc] at hplace
    exact hplace.elim
  | dropStream sid hlt =>
    have hle := hl.receiver.accepted
    have h0 : sid = 0 := by omega
    subst h0
    have hpos : 0 < (!(s.streams 0).downFin).toNat + (!(s.streams 0).stopped).toNat := by
      cases hf : (s.streams 0).downFin with
      | false => exact Nat.lt_of_lt_of_le Nat.one_pos (Nat.le_add_right ..)
      | true =>
        cases hs : (s.streams 0).stopped with
        | false => exact Nat.one_pos
        | true => exact absurd (by rw [letGo_again hf hs, Function.update_eq_self]) hne
    simp only [work, streamWork, Function.update_self, Bool.not_true, Bool.toNat_false]
    omega

theorem link_work {a : LinkAct} (hi : Quiet s) (hown : ownStep (.link a) = true) (hne : s' ≠ s) (h : LinkCase s a s') :
    s'.work < s.work := by
  have hidle := hi.calm.one.up.2
  have hopened := hi.calm.one.opened
  cases h with
  | outage | outageIdle | reconnect | restoreFail | hookLinkDown | dropHandle => cases hown
  | restoreRead hr | restoreSkip hr | restoreOpen hr | restoreDeliver hr | restorePrune hr =>
    rw [hidle] at hr
    cases hr
  | dropStream sid hlt =>
    have h0 : sid = 0 := by omega
    subst h0
    have hopen : (s.streams 0).upFin = false := by
      by_contra hf
      exact hne (by rw [upFin_again (by simpa using hf), Function.update_eq_self])
    simp only [work, streamWork, Function.update_self, hopen, Bool.not_true, Bool.not_false, Bool.toNat_true,
      Bool.toNat_false]
    omega

/-- A step of a task that changes something. -/
def moves (s : Transfer) (a : Act) : Prop := ownStep a = true ∧ s.step a ≠ some s

theorem step_work {a : Act} (hi : Quiet s) (hok : moves s a) (h : s.step a = some s') : s'.work < s.work := by
  obtain ⟨hown, hchange⟩ := hok
  have hne : s' ≠ s := fun he => hchange (he ▸ h)
  cases a with
  | reader a => exact reader_work hown (readerStep_cases h)
  | ticket a =>
    have hfwd := hi.calm.timed.2
    cases ticketStep_cases h with
    | pollPermit hf | pollPark hf | wake hf | checkSome hf | checkNone hf | sendClosed hf | send hf =>
      rw [hfwd] at hf
      cases hf
    | _ => cases hown
  | pump a => exact pump_work hi (pumpStep_cases h)
  | ack a => exact ack_work hi (ackStep_cases h)
  | link a => exact link_work hi hown hne (linkStep_cases h)
  | down a => exact down_work hi hown hne (downStep_cases h)

/-! ## The tasks come to rest -/

theorem undisturbed_of_ownStep {a : Act} (h : ownStep a = true) : undisturbed a := by
  cases a with
  | reader a => cases a <;> first | exact ⟨trivial, rfl⟩ | cases h
  | ticket | pump | ack => exact ⟨trivial, rfl⟩
  | link a => cases a <;> first | exact ⟨trivial, rfl⟩ | cases h
  | down a => cases a <;> first | exact ⟨trivial, rfl⟩ | cases h

theorem undisturbed_of_tickStep {a : Act} (h : tickStep a = true) : undisturbed a := by
  cases a with
  | ticket => exact ⟨trivial, rfl⟩
  | _ => cases h

/-- In an undisturbed run the tasks' steps use up the work. -/
theorem moves_falls :
    Falls step moves (fun s => Reach step (fun _ a => undisturbed a) (init true) s) work where
  keeps h ha hs := .step _ h (undisturbed_of_ownStep ha.1) hs
  falls h ha hs := step_work (reach_quiet h) ha hs

/-! ## Tasks and timer -/

/-- The clients are left alone, and the pump does not go back. -/
structure Onward (s s' : Transfer) : Prop where
  wrote : s'.wrote = s.wrote
  closed : s'.closed = s.closed
  q : s.pump.q ≤ s'.pump.q

theorem Onward.refl (s : Transfer) : Onward s s := ⟨rfl, rfl, Nat.le_refl _⟩

theorem Onward.trans {s₁ s₂ s₃ : Transfer} (h : Onward s₁ s₂) (h' : Onward s₂ s₃) : Onward s₁ s₃ :=
  ⟨h'.wrote.trans h.wrote, h'.closed.trans h.closed, Nat.le_trans h.q h'.q⟩

theorem own_onward {a : Act} (hi : Quiet s) (hown : ownStep a = true) (h : s.step a = some s') :
    Onward s s' ∧ s'.timer = s.timer := by
  cases a with
  | reader a =>
    cases readerStep_cases h with
    | clientWrite | clientClose => cases hown
    | _ => exact ⟨⟨rfl, rfl, Nat.le_refl _⟩, rfl⟩
  | ticket a =>
    cases ticketStep_cases h with
    | timerHead | timerSome | timerNone | timerSend | timerRefused => cases hown
    | _ => exact ⟨⟨rfl, rfl, Nat.le_refl _⟩, rfl⟩
  | pump a =>
    cases pumpStep_cases h with
    | linkDown hpc hc => rcases hi.only_finish (hpc.resolve_right hi.not_waiting) with h | h <;> · rw [hc] at h; cases h
    | linkUp hpc => exact absurd hpc hi.not_waiting
    | write => exact ⟨⟨rfl, rfl, Nat.le_add_right ..⟩, rfl⟩
    | _ => exact ⟨⟨rfl, rfl, Nat.le_refl _⟩, rfl⟩
  | ack a => cases ackStep_cases h <;> exact ⟨⟨rfl, rfl, Nat.le_refl _⟩, rfl⟩
  | link a => cases linkStep_cases h <;> exact ⟨⟨rfl, rfl, Nat.le_refl _⟩, rfl⟩
  | down a => cases downStep_cases h <;> exact ⟨⟨rfl, rfl, Nat.le_refl _⟩, rfl⟩

/-- A step of a task, or a tick of the timer. -/
def drives (_ : Transfer) (a : Act) : Prop := ownStep a = true ∨ tickStep a = true

theorem undisturbed_of_drives {a : Act} (h : drives s a) : undisturbed a :=
  h.elim undisturbed_of_ownStep undisturbed_of_tickStep

theorem reach_driven (h : Reach step (fun _ a => undisturbed a) (init true) s) (hd : Reach step drives s s') :
    Reach step (fun _ a => undisturbed a) (init true) s' :=
  h.trans (hd.mono fun _ _ => undisturbed_of_drives)

/-- The tasks alone bring themselves to rest. -/
theorem tasks_park (h : Reach step (fun _ a => undisturbed a) (init true) s) :
    ∃ t, Reach step drives s t ∧ Parked t ∧ Onward s t ∧ t.timer = s.timer := by
  obtain ⟨t, ht, hnone⟩ := moves_falls.settles h
  have hkept : Onward s t ∧ t.timer = s.timer := by
    refine ht.invariant_of (P := fun t => Onward s t ∧ t.timer = s.timer) (fun hr => moves_falls.inv h hr)
      ⟨.refl s, rfl⟩ fun hr _ hi hok hs => ?_
    obtain ⟨hon, htimer⟩ := own_onward (reach_quiet hr) hok.1 hs
    exact ⟨hi.1.trans hon, htimer.trans hi.2⟩
  refine ⟨t, ht.mono fun _ _ ha => .inl ha.1, fun a t' hown hstep => ?_, hkept⟩
  by_contra hne
  have hno := hnone a ⟨hown, fun he => hne (Option.some.inj (hstep.symm.trans he))⟩
  rw [hstep] at hno
  cases hno

theorem timerSend_idles (ht : s.timer = .sampled) :
    ∃ t, Reach step drives s t ∧ t.timer = .idle ∧ Onward s t := by
  have hs : s.step (.ticket (.timerSend 1)) = if s.pump.pc ≠ .exited ∧ s.alloc = none
      then some { s with alloc := some (.bytes 1), timer := .idle } else some { s with timer := .idle } := by
    simp only [step, ticketStep, ht, Nat.zero_lt_one, and_self, if_true]
  split at hs
  · exact ⟨_, .step _ .init (.inr rfl) hs, rfl, rfl, rfl, Nat.le_refl _⟩
  · exact ⟨_, .step _ .init (.inr rfl) hs, rfl, rfl, rfl, Nat.le_refl _⟩

/-- The timer ends a look that is under way. -/
theorem timer_idles (s : Transfer) : ∃ t, Reach step drives s t ∧ t.timer = .idle ∧ Onward s t := by
  cases ht : s.timer with
  | idle => exact ⟨s, .init, ht, .refl s⟩
  | sampled => exact timerSend_idles ht
  | head offset =>
    have hs : s.step (.ticket .timerQ) = some { s with timer := if 0 < offset - s.qAtomic then .sampled else .idle } := by
      simp only [step, ticketStep, ht]
    split at hs
    · obtain ⟨t, hr, htimer, hon⟩ := timerSend_idles (s := { s with timer := .sampled }) rfl
      exact ⟨t, Reach.trans (.step _ .init (.inr rfl) hs) hr, htimer, hon.wrote, hon.closed, hon.q⟩
    · exact ⟨_, .step _ .init (.inr rfl) hs, rfl, rfl, rfl, Nat.le_refl _⟩

/-- A ticket makes the pump send a byte. -/
theorem ticket_sends (hb : Bytes s) (hpc : s.pump.pc = .select) (ha : s.alloc = some (.bytes 1))
    (hlt : s.pump.q < s.pushed.length) :
    ∃ t, Reach step drives s t ∧ Onward s t ∧ s.pump.q < t.pump.q := by
  have hhead := hb.holds.headOffset
  obtain ⟨_, hne⟩ := hb.holds.sliceFrom (hb.pumpOk.acked (by simp [running, hpc])) hlt 0
  have hchunk : (s.spool.sliceFrom 0 s.pump.q).take
      ((Budget.bytes 1).clip (min (s.spool.sliceFrom 0 s.pump.q).length chunkSize)) ≠ [] := by
    have hpos := List.length_pos_iff.mpr hne
    refine List.length_pos_iff.mp ?_
    simp only [Budget.clip, List.length_take, chunkSize]
    omega
  have h₁ : s.step (.pump .ticket) = some { s with alloc := none, pump := { s.pump with pc := .drain (.bytes 1) } } := by
    simp only [step, pumpStep, hpc, ha]
  have h₂ : step { s with alloc := none, pump := { s.pump with pc := .drain (.bytes 1) } } (.pump (.drain 0)) =
      some { s with alloc := none, pump := { s.pump with pc := .write (.bytes 1) ((s.spool.sliceFrom 0 s.pump.q).take
        ((Budget.bytes 1).clip (min (s.spool.sliceFrom 0 s.pump.q).length chunkSize))) } } := by
    have hnot : ¬ s.spool.headOffset ≤ s.pump.q := by omega
    simp only [step, pumpStep, drainTurn, Budget.isZero, hnot, and_false, if_false, hchunk, Nat.one_ne_zero, beq_iff_eq]
  have hpos := List.length_pos_iff.mpr hchunk
  refine ⟨_, .step (.pump .write) (.step _ (.step _ .init (.inl rfl) h₁) (.inl rfl) h₂) (.inl rfl) rfl, ⟨rfl, rfl, ?_⟩, ?_⟩
  · exact Nat.le_add_right ..
  · exact Nat.lt_add_of_pos_right hpos

theorem freshTick_drives {a : Act} (ha : a ∈ freshTick) (s : Transfer) : drives s a := by
  simp only [freshTick, List.mem_cons, List.not_mem_nil, or_false] at ha
  rcases ha with rfl | rfl | rfl <;> exact .inr rfl

/-- Parked tasks with something to send go on with the next ticket. -/
theorem parked_sends (hi : Quiet s) (hp : Parked s) (ht : s.timer = .idle) (hbusy : ¬ Idle s) :
    ∃ t, Reach step drives s t ∧ Onward s t ∧ s.pump.q < t.pump.q ∧ s.pump.q < s.pushed.length := by
  have hlive : s.pump.pc ≠ .exited := fun hx => hbusy (.inl hx)
  obtain ⟨hpc, halloc, _⟩ := hp.pump hlive
  have hpc := hpc.resolve_right hi.not_waiting
  obtain ⟨hqa, hho⟩ := hp.announced hi.steady.signalled.announced hpc
  have hlt : s.qAtomic < s.headOffset := by
    by_contra hle
    exact hbusy (.inr ⟨by omega, .inl ht⟩)
  have hlt' : s.pump.q < s.pushed.length := by omega
  have hr : Reach step drives s { s with alloc := some (.bytes 1), timer := .idle } :=
    Reach.init.along_of (fun a ha => freshTick_drives ha) (freshTick_ticket hi.calm.timed.1 hlive halloc hlt ht)
  obtain ⟨t, hr', hon, hq⟩ := ticket_sends (s := { s with alloc := some (.bytes 1), timer := .idle })
    hi.calm.living.sound.bytes hpc rfl hlt'
  exact ⟨t, hr.trans hr', ⟨hon.wrote, hon.closed, hon.q⟩, hq, hlt'⟩

/-- Tasks and timer bring the transfer to rest: the induction is on the bytes to be sent. -/
theorem drive_rests (h : Reach step (fun _ a => undisturbed a) (init true) s) :
    ∃ t, Reach step drives s t ∧ Stuck t ∧ Onward s t := by
  induction hn : s.wrote.length - s.pump.q using Nat.strongRecOn generalizing s with
  | ind n ih =>
    obtain ⟨t₁, hr₁, ht₁, hon₁⟩ := timer_idles s
    obtain ⟨t₂, hr₂, hp, hon₂, ht₂⟩ := tasks_park (reach_driven h hr₁)
    have hr₂ := hr₁.trans hr₂
    have hon₂ := hon₁.trans hon₂
    by_cases hidle : Idle t₂
    · refine ⟨t₂, hr₂, ⟨hp, fun as t has hrun => ?_⟩, hon₂⟩
      obtain ⟨timer, rfl⟩ := ticks_idle has hidle hrun
      rfl
    · have h₂ := reach_driven h hr₂
      obtain ⟨t₃, hr₃, hon₃, hq, hlt⟩ := parked_sends (reach_quiet h₂) hp (ht₂.trans ht₁) hidle
      have hr₃ := hr₂.trans hr₃
      have hon₃ := hon₂.trans hon₃
      have hless : t₃.wrote.length - t₃.pump.q < n := by
        have hsplit := congrArg List.length (reach_whole (reach_reportsWhole h₂)).1.clean.split
        have hle := hon₂.q
        rw [List.length_append, hon₂.wrote] at hsplit
        rw [hon₃.wrote]
        omega
      obtain ⟨t, hr, hstuck, hon⟩ := ih _ hless (reach_driven h hr₃) rfl
      exact ⟨t, hr₃.trans hr, hstuck, hon₃.trans hon⟩

/-- From every state of an undisturbed run the tasks can take at most `work` steps that
    change anything; and tasks and timer lead to a state in which nothing is left to do,
    with the clients left alone. -/
theorem undisturbed_comes_to_rest (h : Reach step (fun _ a => undisturbed a) (init true) s) :
    (∀ n t, ReachIn step moves s n t → n ≤ s.work) ∧
      ∃ t, Reach step drives s t ∧ Stuck t ∧ t.wrote = s.wrote ∧ t.closed = s.closed := by
  refine ⟨fun n t ht => ?_, ?_⟩
  · have := (moves_falls.bounded h ht).2
    omega
  · obtain ⟨t, hr, hstuck, hon⟩ := drive_rests h
    exact ⟨t, hr, hstuck, hon.wrote, hon.closed⟩

/-- Three bytes are written and one of them sent; the client has closed, and the receiver
    has not begun. -/
theorem undisturbed_comes_to_rest_closed :
    ∃ s, Reach step (fun _ a => undisturbed a) (init true) s ∧ s.closed = true ∧ s.wrote = [1, 2, 3] ∧ s.work = 82 ∧
      (∀ n t, ReachIn step moves s n t → n ≤ 82) ∧
      ∃ t, Reach step drives s t ∧ Stuck t ∧ t.wrote = [1, 2, 3] ∧ t.closed = true := by
  obtain ⟨s, hr, hs⟩ := Reach.exists_run step (fun _ a => undisturbed a) (init true)
    [[.reader .accept], writeAndPush [1, 2, 3], grant 1, sendChunk, closeClient].flatten
    (fun s => s.closed = true ∧ s.wrote = [1, 2, 3] ∧ s.work = 82) (by decide +kernel)
  obtain ⟨hclosed, hwrote, hwork⟩ := of_decide_eq_true hs
  obtain ⟨hbound, t, hdrive, hstuck, ht, hc⟩ := undisturbed_comes_to_rest hr
  exact ⟨s, hr, hclosed, hwrote, hwork, hwork ▸ hbound, t, hdrive, hstuck, ht.trans hwrote, hc.trans hclosed⟩

end Quelay.Agent.Transfer
