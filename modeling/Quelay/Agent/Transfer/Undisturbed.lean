/-
  Quelay.Agent.Transfer.Undisturbed — a transfer that nothing disturbs is delivered whole.

  In capped mode, with no outage and no failure of the clients' sockets, there is the first
  stream only (`One`), and the receiver's `Done` is on its way from the moment it is written
  until the ack task takes it (`Heard`). So neither agent ever gives the transfer up, and
  what is proved of whole transfers and of single reports holds without further conditions.
  When no task and no tick of the timer has anything left to do, the receiving client has
  every byte that was written; if the sending client has closed, every task has returned
  and both agents have reported the stream done, once and as the last thing; if it has not,
  neither agent has reported an end (`undisturbed_delivered`).
-/

import Quelay.Agent.Transfer.Capped
import Quelay.Agent.Transfer.Progress

namespace Quelay.Agent.Transfer

open Quelay.Lib

def readFails : Act → Bool
  | .reader .readFail => true
  | _ => false

/-- No outage, neither client's connection fails, and no read of the sending client's
    socket does. -/
def undisturbed (a : Act) : Prop := calm a ∧ readFails a = false

instance (a : Act) : Decidable (undisturbed a) := inferInstanceAs (Decidable (_ ∧ _))

variable {s s' : Transfer}

/-! ## The receiver's Done -/

structure HeardOf (ackReader : AckReaderPc) (ackRx : List AckMsg) (q : QStream) (pc : DownPc) : Prop where
  reader : ackReader ≠ .waiting
  done : pc.ended = true → .done ∈ ackRx ∨ (ackReader = .reading 0 ∧ .done ∈ q.down)

/-- The receiver ends with `Done` only; until the ack task has it, it is in its inbox or on
    the stream that it reads. -/
structure Heard (s : Transfer) : Prop where
  completed : s.down.pc.ended = true → Completed s.downReports
  coming : s.ack ≠ .exited → HeardOf s.ackReader s.ackRx (s.streams 0) s.down.pc

theorem init_heard (capped : Bool) : Heard (init capped) := ⟨nofun, fun _ => ⟨nofun, nofun⟩⟩

variable {ackReader : AckReaderPc} {ackRx : List AckMsg} {pc : DownPc}

theorem HeardOf.update {streams : Nat → QStream} (hi : HeardOf ackReader ackRx (streams 0) pc) (sid : Nat) {q' : QStream}
    (hq : .done ∈ (streams sid).down → .done ∈ q'.down) :
    HeardOf ackReader ackRx (Function.update streams sid q' 0) pc := by
  refine ⟨hi.reader, fun hx => (hi.done hx).imp_right fun ⟨hr, hm⟩ => ⟨hr, ?_⟩⟩
  exact of_update (P := fun q => .done ∈ q.down) hm hq

/-- The receiver goes on. -/
theorem HeardOf.running {q q' : QStream} (hi : HeardOf ackReader ackRx q pc) {pc' : DownPc} (hx : pc'.ended = false) :
    HeardOf ackReader ackRx q' pc' :=
  ⟨hi.reader, fun h => absurd h (Bool.eq_false_iff.mp hx)⟩

/-- While the downlink reads, so does the ack task's reader. -/
theorem Heard.reading (hi : Heard s) (ho : One s) (hl : Living s) (hx : s.ack ≠ .exited) (hpc : s.down.pc.ended = false) :
    s.ackReader = .reading 0 := by
  cases hr : s.ackReader with
  | reading sid => rw [ho.reader_first hl hr]
  | waiting => exact absurd hr (hi.coming hx).reader
  | exited =>
    -- It would have read the receiver's last word.
    have hb := hl.sound.inbox
    unfold Inbox InboxOf at hb
    rw [if_neg hx, hr] at hb
    obtain ⟨_, acks, m, hrx, _, hlast⟩ := hb
    have hmem : m ∈ s.ackRx := by rw [hrx]; simp
    have hend : s.down.pc.ended = true := by
      rcases hlast with rfl | ⟨f, rfl⟩
      · exact (hl.lastWord.inbox .done hmem).1
      · exact (hl.lastWord.inbox (.error f) hmem).1
    rw [hpc] at hend
    cases hend

/-- The receiver goes on, and so does the feedback. -/
theorem Heard.goOn (hi : Heard s) (hx : s'.down.pc.ended = false) (hack : s'.ack = s.ack)
    (hr : s'.ackReader = s.ackReader) (hrx : s'.ackRx = s.ackRx) : Heard s' := by
  refine ⟨fun h => absurd h (Bool.eq_false_iff.mp hx), fun hx' => ?_⟩
  rw [hr, hrx]
  exact (hi.coming (hack ▸ hx')).running hx

theorem down_heard {a : DownAct} (hi : Heard s) (ho : One s) (hl : Living s) (hok : calm (.down a)) (h : DownCase s a s') :
    Heard s' := by
  cases h with
  | acceptConnect | start | tcpAccept | readError | resume => exact hi.goOn rfl rfl rfl rfl
  | write _ hpc | writeAck _ hpc => exact hi.goOn (by simp only [written, hpc]; rfl) rfl rfl rfl
  | acceptReconnect | acceptRefused | duplicate | dropStream =>
    exact ⟨hi.completed, fun hx => (hi.coming hx).update _ fun h => h⟩
  | tcpAcceptFail | writeFail => exact absurd hok id
  | gap _ _ hu hlt =>
    have hle := ((hl.sound.bytes.streamOk _).front hu).1
    omega
  | @eof sid hpc _ _ hc =>
    obtain ⟨_, rfl, _⟩ := ho.reading hpc
    refine ⟨fun _ => completed_of_completing rfl, fun hx => ⟨(hi.coming hx).reader, fun _ => .inr ⟨?_, ?_⟩⟩⟩
    · exact hi.reading ho hl hx (by rw [hpc]; rfl)
    · show .done ∈ (Function.update s.streams 0 _ 0).down
      rw [Function.update_self]
      simp [QStream.writeMsg, hc]
  | @report sid c hpc =>
    have hx : s.down.pc.ended = true := by rw [hpc]; rfl
    have hdone := hi.completed hx
    refine ⟨fun _ => ?_, fun hx' => ⟨(hi.coming hx').reader, fun _ => (hi.coming hx').done hx⟩⟩
    rw [downReports, hpc] at hdone
    exact hdone
  | lost hpc =>
    have hplace := ho.place
    rw [DownAt, hpc] at hplace
    exact hplace.elim
  | acceptSkip | dropHandle => exact ⟨hi.completed, hi.coming⟩

/-- The feedback of the stream has no end before `Done`. -/
theorem Heard.not_ended (hi : Heard s) (ho : One s) (hl : Living s) (hx : s.ack ≠ .exited) {sid : Nat}
    (hr : s.ackReader = .reading sid) : (s.streams sid).downEnded = false := by
  by_contra hend
  obtain rfl := ho.reader_first hl hr
  simp only [QStream.downEnded, ho.live, Bool.false_or, Bool.and_eq_false_iff, not_or, Bool.not_eq_false] at hend
  obtain ⟨hempty, hfin⟩ := hend
  have hended := ho.released_ended (hl.receiver.letGo 0 (.inl hfin))
  rcases (hi.coming hx).done hended with hm | ⟨_, hm⟩
  · have hb := hl.sound.inbox
    unfold Inbox InboxOf at hb
    rw [if_neg hx, hr] at hb
    cases hb.2.2 _ hm
  · rw [List.isEmpty_iff.mp hempty] at hm
    cases hm

theorem ack_heard {a : AckAct} (hi : Heard s) (ho : One s) (hl : Living s) (hx : s.ack ≠ .exited) (h : AckCase s a s')
    (hx' : s'.ack ≠ .exited) : HeardOf s'.ackReader s'.ackRx (s'.streams 0) s'.down.pc := by
  have hheard := hi.coming hx
  cases h with
  | ackNew _ hrx | ackOld _ hrx =>
    refine ⟨hheard.reader, fun hpc => (hheard.done hpc).imp_left fun hm => ?_⟩
    rw [hrx] at hm
    simpa using hm
  | done | error | goneFail | streamReaderGone | noStream | linkUpFail => exact absurd rfl hx'
  | streamError _ hrx | streamErrorDropped _ hrx =>
    exact absurd (waiting_of_streamError hl.sound.inbox hx hrx) hheard.reader
  | gone _ hrx hr => exact absurd hrx (hl.sound.inbox.left hx hr)
  | stream _ _ hw | readerClosed hw => exact absurd hw hheard.reader
  | readMsgClosed _ _ hexit | readEndClosed _ _ hexit => exact absurd hexit hx
  | @readAck sid n rest hr hd =>
    obtain rfl := ho.reader_first hl hr
    refine ⟨nofun, fun hpc => ?_⟩
    rcases hheard.done hpc with hm | ⟨_, hm⟩
    · exact .inl (List.mem_append_left _ hm)
    · refine .inr ⟨rfl, ?_⟩
      rw [hd] at hm
      dsimp only
      rw [Function.update_self]
      simpa using hm
  | @readLast sid m rest hr hd hlast =>
    refine ⟨nofun, fun hpc => .inl ?_⟩
    -- The receiver's last word is Done.
    have htells := hl.lastWord.stream sid m (by rw [hd]; exact List.mem_cons_self)
    cases m with
    | ack n => exact absurd rfl (hlast n)
    | done => exact List.mem_append_right _ (List.mem_singleton_self _)
    | error f => exact absurd (hi.completed hpc) htells.2
  | readEnd hr hend =>
    rw [hi.not_ended ho hl hx hr] at hend
    cases hend
  | checkEof | checkNone | finishClosed | finish | pollPermit | pollPark | wake | space | linkUp => exact hheard

theorem step_heard {a : Act} (hi : Heard s) (ho : One s) (hl : Living s) (hok : calm a) (h : s.step a = some s') :
    Heard s' := by
  cases a with
  | reader a => cases readerStep_cases h <;> exact ⟨hi.completed, hi.coming⟩
  | ticket a => cases ticketStep_cases h <;> exact ⟨hi.completed, hi.coming⟩
  | pump a =>
    cases pumpStep_cases h with
    | linkUp | drainFin | write | postFin => exact ⟨hi.completed, fun hx => (hi.coming hx).update _ fun h => h⟩
    | _ => exact ⟨hi.completed, hi.coming⟩
  | ack a =>
    have hx : s'.ack ≠ .exited → s.ack ≠ .exited := fun hx' hx => hx' (ack_exited_stays hx h).1
    refine ⟨?_, fun hx' => ack_heard hi ho hl (hx hx') (ackStep_cases h) hx'⟩
    cases ackStep_cases h <;> exact hi.completed
  | link a =>
    cases linkStep_cases h with
    | outage | outageIdle | hookLinkDown => exact absurd hok id
    | restoreOpen hk =>
      rw [ho.up.2] at hk
      cases hk
    | dropStream => exact ⟨hi.completed, fun hx => (hi.coming hx).update _ fun h => h⟩
    | _ => exact ⟨hi.completed, hi.coming⟩
  | down a => exact down_heard hi ho hl hok (downStep_cases h)

/-! ## Neither agent gives up -/

structure Quiet (s : Transfer) : Prop where
  calm : Calm s
  steady : Steady s
  heard : Heard s

theorem reach_quiet (h : Reach step (fun _ a => undisturbed a) (init true) s) : Quiet s := by
  have hr : Reach step (fun _ a => calm a) (init true) s := h.mono fun _ _ ha => ha.1
  refine ⟨reach_calm hr, reach_steady hr, ?_⟩
  refine hr.invariant_of reach_calm (init_heard true) fun hc _ hi hok hs => ?_
  exact step_heard hi hc.one hc.living hok hs

/-- The ack task does not wait for another stream. -/
theorem Quiet.not_giving_up (hi : Quiet s) : s.step (.ack .noStream) = none := by
  by_contra hs
  obtain ⟨s', hs⟩ := Option.ne_none_iff_exists'.mp hs
  have h : AckCase s .noStream s' := ackStep_cases hs
  cases h with
  | noStream hk =>
    have hl := hi.calm.living
    obtain ⟨hx, hm⟩ := selecting_mode hk
    have hend := ended_of_reconnect hl.sound.inbox hl.feedback hx (by rw [hm]; simp)
    exact (hi.heard.coming hx).reader hend.2.1

/-- A stream that nobody holds has its FIN. -/
theorem Quiet.dropped_finished (hi : Quiet s) {sid : Nat} (hs : s.step (.link (.dropStream sid)) = some s') :
    (s.streams sid).upFin = true := by
  by_contra hf
  obtain ⟨hlt, hheld⟩ : sid < s.opened ∧ s.held sid = false := by
    cases linkStep_cases (a := .dropStream sid) hs with
    | dropStream _ hlt hheld => exact ⟨hlt, hheld⟩
  have h0 : sid = 0 := by
    have := hi.calm.one.opened
    omega
  subst h0
  have hf : (s.streams 0).upFin = false := by simpa using hf
  have hd : s.pump.done = false := by
    by_contra hd
    have hfin := hi.steady.finSent (by simpa using hd)
    rw [(hi.calm.one.current hi.calm.living).2, hf] at hfin
    cases hfin
  rw [hi.calm.one.held_open hi.calm.living hi.calm.abandoned hd hf] at hheld
  cases hheld

/-- So the conditions on whole transfers and on single reports hold by themselves. -/
theorem reach_reportsWhole (h : Reach step (fun _ a => undisturbed a) (init true) s) :
    Reach step reportsWhole (init true) s := by
  refine h.mono_of reach_quiet fun {s s' a} hi hok hs => ?_
  unfold reportsWhole
  split
  · rw [hi.not_giving_up] at hs
    cases hs
  · unfold wholeStreams
    split
    · cases hok.2
    · exact .inl (hi.dropped_finished hs)
    · trivial

/-- The transfer is over: the tasks have returned, and both sides have let go of the
    stream. -/
structure AtEnd (s : Transfer) : Prop where
  reader : s.reader = .exited
  fwd : s.fwd = .exited
  pump : s.pump.pc = .exited
  ack : s.ack = .exited ∧ s.ackReader = .exited
  restore : s.restore = .idle
  opened : s.opened = 1 ∧ s.nextAccept = 1
  stream : (s.streams 0).upFin = true ∧ (s.streams 0).downFin = true ∧ (s.streams 0).stopped = true
  down : s.down.pc = .exited

instance (s : Transfer) : Decidable (AtEnd s) :=
  decidable_of_iff
    (s.reader = .exited ∧ s.fwd = .exited ∧ s.pump.pc = .exited ∧ (s.ack = .exited ∧ s.ackReader = .exited) ∧
      s.restore = .idle ∧ (s.opened = 1 ∧ s.nextAccept = 1) ∧
      ((s.streams 0).upFin = true ∧ (s.streams 0).downFin = true ∧ (s.streams 0).stopped = true) ∧ s.down.pc = .exited)
    ⟨fun ⟨h1, h2, h3, h4, h5, h6, h7, h8⟩ => ⟨h1, h2, h3, h4, h5, h6, h7, h8⟩,
      fun ⟨h1, h2, h3, h4, h5, h6, h7, h8⟩ => ⟨h1, h2, h3, h4, h5, h6, h7, h8⟩⟩

theorem AtEnd.parked (h : AtEnd s) : Parked s := by
  obtain ⟨hr, hf, hpc, ⟨hack, hrd⟩, hres, ⟨ho, hn⟩, ⟨hup, hdf, hstop⟩, hd⟩ := h
  intro a s' ha hs
  cases a with
  | reader a => cases readerStep_cases hs <;> simp_all [ownStep]
  | ticket a => cases ticketStep_cases hs <;> simp_all [ownStep]
  | pump a => cases pumpStep_cases hs <;> simp_all
  | ack a => cases ackStep_cases hs <;> simp_all [AckPc.selecting]
  | link a =>
    cases linkStep_cases hs with
    | dropStream i hlt =>
      have h0 : i = 0 := by omega
      subst h0
      rw [upFin_again hup, Function.update_eq_self]
    | _ => simp_all [ownStep]
  | down a =>
    cases downStep_cases hs with
    | dropStream i hlt =>
      have h0 : i = 0 := by omega
      subst h0
      rw [letGo_again hdf hstop, Function.update_eq_self]
    | _ => simp_all [ownStep]

theorem AtEnd.stuck (h : AtEnd s) : Stuck s := by
  refine ⟨h.parked, fun as t has hrun => ?_⟩
  obtain ⟨timer, rfl⟩ := ticks_idle has (.inl h.pump) hrun
  rfl

end Quelay.Agent.Transfer
