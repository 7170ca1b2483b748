/-
  Quelay.Agent.Transfer.Capped — in capped mode, without outages, FIN is always reached.

  The timer gives the pump tickets as long as it sees unsent bytes, and FIN can be sent
  from three places: at the sentinel in `drain_alloc`'s loop, after the loop, and from
  `Finish` with nothing left to send. In a calm run (no outage, no failure of the clients)
  the downlink stays on the first stream, and the pump gets exactly one command, `Finish`
  (`Once`). So the pump is never left at rest with everything sent and asked to finish, and
  no task is left waiting after the client has closed (`capped_reaches_fin`).
-/

import Quelay.Agent.Transfer.Parked

namespace Quelay.Agent.Transfer

open Quelay.Lib

/-- No outage, and neither client's connection fails. -/
def calm : Act → Prop
  | .reader .acceptFail => False
  | .link (.outage _ _) | .link .hookLinkDown => False
  | .down .tcpAcceptFail | .down (.writeFail _) => False
  | _ => True

instance (a : Act) : Decidable (calm a) := by
  induction a using Act.casesOn with
  | reader a => induction a using ReaderAct.casesOn <;> dsimp only [calm] <;> infer_instance
  | link a => induction a using LinkAct.casesOn <;> dsimp only [calm] <;> infer_instance
  | down a => induction a using DownAct.casesOn <;> dsimp only [calm] <;> infer_instance
  | _ => exact instDecidableTrue

/-! ## One stream -/

/-- Where the downlink is, when there is only the first stream. -/
def DownAt (q : QStream) (nextAccept : Nat) (down : Downlink) : Prop :=
  match down.pc with
  | .absent => nextAccept = 0 ∧ ∃ rest, q.up = .connect :: rest
  | .spawned => nextAccept = 1 ∧ down.streamRx = [0]
  | .tcpAccept sid | .reading sid => nextAccept = 1 ∧ sid = 0 ∧ down.streamRx = []
  | .waiting => False
  | .report _ _ | .exited => nextAccept = 1 ∧ q.upFin = true

structure OneOf (streams : Nat → QStream) (opened nextAccept : Nat) (link : Bool) (restore : RestorePc) (down : Downlink) :
    Prop where
  opened : opened = 1
  up : link = true ∧ restore = .idle
  live : (streams 0).cut = false
  place : DownAt (streams 0) nextAccept down

def One (s : Transfer) : Prop := OneOf s.streams s.opened s.nextAccept s.link s.restore s.down

variable {streams : Nat → QStream} {opened nextAccept : Nat} {link : Bool} {restore : RestorePc} {down : Downlink}

/-- A stream changes: it stays live, keeps its header, and its FIN. -/
theorem OneOf.update (hi : OneOf streams opened nextAccept link restore down) (sid : Nat) {q' : QStream}
    (hc : q'.cut = (streams sid).cut)
    (hu : nextAccept = 0 → ∀ rest, (streams sid).up = .connect :: rest → ∃ rest', q'.up = .connect :: rest')
    (hf : (streams sid).upFin = true → q'.upFin = true) :
    OneOf (Function.update streams sid q') opened nextAccept link restore down := by
  by_cases he : sid = 0
  · subst he
    refine ⟨hi.opened, hi.up, ?_, ?_⟩
    · rw [Function.update_self, hc]
      exact hi.live
    · rw [Function.update_self]
      have hplace := hi.place
      unfold DownAt at hplace ⊢
      split at hplace
      · obtain ⟨h0, rest, hrest⟩ := hplace
        exact ⟨h0, hu h0 rest hrest⟩
      · exact hplace
      · exact hplace
      · exact hplace
      · exact hplace
      · exact ⟨hplace.1, hf hplace.2⟩
      · exact ⟨hplace.1, hf hplace.2⟩
  · refine ⟨hi.opened, hi.up, ?_, ?_⟩ <;> rw [Function.update_of_ne (Ne.symm he)]
    · exact hi.live
    · exact hi.place

/-- Only flags and feedback change. -/
theorem OneOf.flags (hi : OneOf streams opened nextAccept link restore down) (sid : Nat) {q' : QStream}
    (hc : q'.cut = (streams sid).cut) (hu : q'.up = (streams sid).up) (hf : (streams sid).upFin = true → q'.upFin = true) :
    OneOf (Function.update streams sid q') opened nextAccept link restore down :=
  hi.update sid hc (fun _ rest hrest => ⟨rest, hu.trans hrest⟩) hf

theorem OneOf.move (hi : OneOf streams opened nextAccept link restore down) {nextAccept' : Nat} {down' : Downlink}
    (hd : DownAt (streams 0) nextAccept' down') : OneOf streams opened nextAccept' link restore down' :=
  ⟨hi.opened, hi.up, hi.live, hd⟩

theorem init_one (capped : Bool) : One (init capped) := ⟨rfl, ⟨rfl, rfl⟩, rfl, rfl, [], rfl⟩

/-- Until it is accepted, the first stream has its connect header. -/
theorem One.connect {s : Transfer} (hi : One s) (h0 : s.nextAccept = 0) : ∃ rest, (s.streams 0).up = .connect :: rest := by
  have hplace := hi.place
  unfold DownAt at hplace
  split at hplace
  · exact hplace.2
  · omega
  · omega
  · omega
  · exact hplace.elim
  · omega
  · omega

theorem One.reading {s : Transfer} (hi : One s) {sid : Nat} (hpc : s.down.pc = .reading sid) :
    s.nextAccept = 1 ∧ sid = 0 ∧ s.down.streamRx = [] := by
  have hplace := hi.place
  rwa [DownAt, hpc] at hplace

theorem down_one {s s' : Transfer} {a : DownAct} (hi : One s) (hl : Living s) (hok : calm (.down a))
    (h : DownCase s a s') : One s' := by
  have hplace := hi.place
  have hopened := hi.opened
  cases h with
  | acceptConnect hlt hu =>
    have h0 : s.nextAccept = 0 := by omega
    have hd : DownAt (s.streams 0) (s.nextAccept + 1)
        { s.down with pc := .spawned, streamRx := [s.nextAccept], handle := true } := ⟨by omega, by rw [h0]⟩
    exact OneOf.update (hi.move hd) _ rfl (fun h => absurd h (Nat.succ_ne_zero _)) fun h => h
  | acceptReconnect hlt hu | acceptRefused hlt hu =>
    have h0 : s.nextAccept = 0 := by omega
    obtain ⟨rest, hrest⟩ := hi.connect h0
    rw [h0, hrest] at hu
    cases hu
  | acceptSkip hlt hc =>
    have h0 : s.nextAccept = 0 := by omega
    rw [h0, hi.live] at hc
    cases hc
  | start hpc hrx =>
    rw [DownAt, hpc] at hplace
    rw [hplace.2] at hrx
    cases hrx
    exact hi.move ⟨hplace.1, rfl, rfl⟩
  | tcpAccept hpc =>
    rw [DownAt, hpc] at hplace
    exact hi.move hplace
  | tcpAcceptFail | writeFail => exact absurd hok id
  | duplicate _ hpc =>
    have hn := (hi.reading hpc).1
    exact hi.update _ rfl (fun h => absurd (hn.symm.trans h) nofun) fun h => h
  | gap _ hpc hu hlt =>
    have := ((hl.sound.bytes.streamOk _).front hu).1
    omega
  | write _ hpc | writeAck _ hpc =>
    have hn := hi.reading hpc
    refine OneOf.update (hi.move ?_) _ rfl (fun h => absurd (hn.1.symm.trans h) nofun) fun h => h
    simp only [DownAt, written, hpc]
    exact hn
  | @eof sid hpc _ hf =>
    obtain ⟨hn, hsid, _⟩ := hi.reading hpc
    subst hsid
    have hd : DownAt (s.streams 0) s.nextAccept { s.down with pc := .report 0 (.done s.down.bytesWritten) } := ⟨hn, hf⟩
    exact OneOf.flags (hi.move hd) _ rfl rfl fun h => h
  | report hpc =>
    rw [DownAt, hpc] at hplace
    exact hi.move hplace
  | readError hpc _ hc =>
    rw [(hi.reading hpc).2.1, hi.live] at hc
    cases hc
  | resume hpc | lost hpc =>
    rw [DownAt, hpc] at hplace
    exact hplace.elim
  | dropHandle =>
    refine hi.move ?_
    unfold DownAt at hplace ⊢
    exact hplace
  | dropStream => exact hi.flags _ rfl rfl fun h => h

theorem step_one {s s' : Transfer} {a : Act} (hi : One s) (hl : Living s) (hok : calm a) (h : s.step a = some s') :
    One s' := by
  cases a with
  | reader a => cases readerStep_cases h <;> exact hi
  | ticket a => cases ticketStep_cases h <;> exact hi
  | pump a =>
    cases pumpStep_cases h with
    | linkUp => exact hi.flags _ rfl rfl fun h => h
    | drainFin | postFin => exact hi.flags _ rfl rfl fun _ => rfl
    | write =>
      refine hi.update _ rfl (fun _ rest hrest => ?_) fun h => h
      simp only [QStream.write, hrest]
      split
      · exact ⟨_, rfl⟩
      · exact ⟨_, List.cons_append ..⟩
    | _ => exact hi
  | ack a =>
    cases ackStep_cases h with
    | readMsgClosed | readAck | readLast => exact hi.flags _ rfl rfl fun h => h
    | _ => exact hi
  | link a =>
    obtain ⟨hlink, hrest⟩ := hi.up
    cases linkStep_cases h with
    | outage | outageIdle | hookLinkDown => exact absurd hok id
    | reconnect hk =>
      rw [hlink] at hk
      cases hk
    | restoreRead hk | restoreSkip hk | restoreOpen hk | restoreFail hk | restoreDeliver hk | restorePrune hk =>
      rw [hrest] at hk
      cases hk
    | dropHandle => exact hi
    | dropStream => exact hi.flags _ rfl rfl fun _ => rfl
  | down a => exact down_one hi hl hok (downStep_cases h)

/-- The receiver lets go of the stream when it has read it to its end. -/
theorem One.released_ended {s : Transfer} (hi : One s) (hrel : Released s.nextAccept s.down 0) :
    s.down.pc.ended = true := by
  obtain ⟨hlt, hnot⟩ := hrel
  by_contra hx
  have hx : s.down.pc.ended = false := Bool.eq_false_iff.mpr hx
  refine hnot ⟨hx, ?_⟩
  have hplace := hi.place
  unfold DownAt at hplace
  cases hpc : s.down.pc with
  | absent =>
    rw [hpc] at hplace
    omega
  | spawned =>
    rw [hpc] at hplace
    rw [hplace.2]
    exact .inr (.inr (List.mem_singleton_self _))
  | tcpAccept =>
    rw [hpc] at hplace
    exact .inl (by rw [hplace.2.1])
  | reading =>
    rw [hpc] at hplace
    exact .inr (.inl (by rw [hplace.2.1]))
  | waiting =>
    rw [hpc] at hplace
    exact hplace.elim
  | report | exited =>
    rw [hpc] at hx
    cases hx

/-- It reads the stream until FIN is there. -/
theorem One.open_ {s : Transfer} (hi : One s) (hl : Living s) (hf : (s.streams 0).upFin = false) :
    (s.streams 0).downFin = false ∧ (s.streams 0).stopped = false ∧ s.down.pc.ended = false := by
  have hx : s.down.pc.ended = false := by
    have hplace := hi.place
    unfold DownAt at hplace
    rw [hf] at hplace
    cases hpc : s.down.pc with
    | report | exited =>
      rw [hpc] at hplace
      cases hplace.2
    | _ => rfl
  have hnot : ¬ Released s.nextAccept s.down 0 := fun hrel => by
    rw [hi.released_ended hrel] at hx
    cases hx
  refine ⟨?_, ?_, hx⟩
  · by_contra h
    exact hnot (hl.receiver.letGo 0 (.inl (by simpa using h)))
  · by_contra h
    exact hnot (hl.receiver.letGo 0 (.inr (by simpa using h)))

/-- Pump and ack task are on the first stream. -/
theorem One.current {s : Transfer} (hi : One s) (hl : Living s) : s.current = 0 ∧ s.pump.quicTx = 0 := by
  have hlt := hl.sound.lane.currentLt
  have hle : s.pump.quicTx ≤ s.current := hl.sound.lane.resumedLe _ List.mem_cons_self
  have ho := hi.opened
  omega

/-- The ack task's reader reads no other stream. -/
theorem One.reader_first {s : Transfer} (hi : One s) (hl : Living s) {sid : Nat} (hr : s.ackReader = .reading sid) :
    sid = 0 := by
  rw [hl.feedback.reading sid hr, (hi.current hl).1]

/-- The ack task is on the stream until FIN is sent, and has no stream for the pump. -/
theorem One.main {s : Transfer} (hi : One s) (hl : Living s) (hf : (s.streams 0).upFin = false) (hx : s.ack ≠ .exited) :
    mode s.ack = .main ∧ s.ackReader ≠ .waiting := by
  have hcur := (hi.current hl).1
  have hend : (s.streams s.current).downEnded = false := by
    rw [hcur]
    simp [QStream.downEnded, hi.live, (hi.open_ hl hf).1]
  constructor
  · by_contra hm
    rw [(ended_of_reconnect hl.sound.inbox hl.feedback hx hm).2.2.2] at hend
    cases hend
  · intro hw
    rw [hl.feedback.ended hw] at hend
    cases hend

theorem One.running {s : Transfer} (hi : One s) (hl : Living s) (hf : (s.streams 0).upFin = false) :
    s.ack = .exited → s.pump.pc = .exited ∧ s.pump.quicTx < s.current := by
  intro hx
  rcases hl.exits hx with h | h | h
  · exact absurd h (Bool.eq_false_iff.mp (hi.open_ hl hf).2.2)
  · exact h
  · rw [(hi.current hl).1] at h
    simp [QStream.downEnded, hi.live, (hi.open_ hl hf).1] at h

/-- Until FIN is sent the ack task does not return. -/
theorem One.not_exited {s : Transfer} (hi : One s) (hl : Living s) (hf : (s.streams 0).upFin = false) :
    s.ack ≠ .exited := by
  intro hx
  have := (hi.running hl hf hx).2
  have := hi.current hl
  omega

/-- The ack task never has another stream for the pump. -/
theorem One.no_linkUp {s : Transfer} (hi : One s) (hl : Living s) (sid : Nat) : s.ack ≠ .linkUp sid := by
  intro hk
  have hlane := hl.sound.lane
  simp only [Lane, hk, pendingUp] at hlane
  have hlt := (List.pairwise_cons.mp hlane.resumedOrder).1 sid (by simp)
  have hle := hlane.resumedLe sid (by simp)
  have := hi.current hl
  omega

/-- Until FIN is sent the pump holds its stream. -/
theorem One.held_open {s : Transfer} (hi : One s) (hl : Living s) (hab : Abandoned s) (hd : s.pump.done = false)
    (hf : (s.streams 0).upFin = false) : s.held 0 = true := by
  have hx : s.pump.pc ≠ .exited := fun hx => hi.not_exited hl hf (hab hx hd).1
  simp [held, (hi.current hl).2, hx]

/-! ## One command -/

structure OnceOf (finishSent : Bool) (ack : AckPc) (cmds : List RateCmd) (pump : StreamPump) : Prop where
  unsent : finishSent = false → cmds = [] ∧ pump.finishing = false
  asking : asking ack = true → cmds = [] ∧ pump.finishing = false
  queued : cmds = [] ∨ (cmds = [.finish] ∧ pump.finishing = false)
  pump : pump.pc ≠ .waitUp ∧ pump.pc ≠ .store .waitUp ∧ pump.pc ≠ .store .select

/-- Until FIN is sent, the pump gets one `Finish` and no other command. -/
def Once (s : Transfer) : Prop := (s.streams 0).upFin = true ∨ OnceOf s.finishSent s.ack s.cmds s.pump

variable {finishSent : Bool} {ack : AckPc} {cmds : List RateCmd} {pump : StreamPump}

theorem OnceOf.movePump (hi : OnceOf finishSent ack cmds pump) {pump' : StreamPump} (hf : pump'.finishing = pump.finishing)
    (hpc : pump'.pc ≠ .waitUp ∧ pump'.pc ≠ .store .waitUp ∧ pump'.pc ≠ .store .select) :
    OnceOf finishSent ack cmds pump' :=
  ⟨hf ▸ hi.unsent, hf ▸ hi.asking, hf ▸ hi.queued, hpc⟩

theorem OnceOf.moveAck (hi : OnceOf finishSent ack cmds pump) {ack' : AckPc}
    (ha : Transfer.asking ack' = true → Transfer.asking ack = true) : OnceOf finishSent ack' cmds pump :=
  ⟨hi.unsent, fun h => hi.asking (ha h), hi.queued, hi.pump⟩

/-- The pump takes its command. -/
theorem OnceOf.finish (hi : OnceOf finishSent ack (.finish :: cmds) pump) {pump' : StreamPump}
    (hpc : pump'.pc ≠ .waitUp ∧ pump'.pc ≠ .store .waitUp ∧ pump'.pc ≠ .store .select) :
    OnceOf finishSent ack cmds pump' := by
  have hcmds : cmds = [] := by
    rcases hi.queued with h | ⟨h, _⟩
    · cases h
    · cases h
      rfl
  refine ⟨fun h => ?_, fun h => ?_, .inl hcmds, hpc⟩
  · cases (hi.unsent h).1
  · cases (hi.asking h).1

/-- The end of the feedback is in the inbox only while the reader sub-task waits. -/
theorem waiting_of_streamError {s : Transfer} (hb : Inbox s) (hx : s.ack ≠ .exited) {rest : List AckMsg}
    (hrx : s.ackRx = .streamError :: rest) : s.ackReader = .waiting := by
  unfold Inbox InboxOf at hb
  rw [if_neg hx, hrx] at hb
  cases hr : s.ackReader with
  | reading sid =>
    rw [hr] at hb
    cases hb.2.2 _ List.mem_cons_self
  | waiting => rfl
  | exited =>
    rw [hr] at hb
    rcases hb.2.tail with ⟨h, _⟩ | ⟨h | ⟨f, h⟩, _⟩ <;> cases h

theorem pump_once {s s' : Transfer} {a : PumpAct} (hi : OnceOf s.finishSent s.ack s.cmds s.pump) (ho : One s)
    (hl : Living s) (hf : (s.streams 0).upFin = false) (h : PumpCase s a s') : Once s' := by
  have htx := (ho.current hl).2
  have hfin : (Function.update s.streams s.pump.quicTx { s.streams s.pump.quicTx with upFin := true } 0).upFin = true := by
    rw [htx, Function.update_self]
  cases h with
  | linkDown _ hc | linkUpIgnored _ hc | linkUp _ hc =>
    rcases hi.queued with h | ⟨h, _⟩ <;> · rw [hc] at h; cases h
  | finishDrained _ hc | finishBacklog _ hc =>
    rw [hc] at hi
    exact .inr (hi.finish (by simp))
  | finishWaiting hpc | discard hpc => exact absurd hpc hi.pump.1
  | drainFin | postFin => exact .inl hfin
  | writeFail _ hdead =>
    rw [htx, ho.live, (ho.open_ hl hf).2.1] at hdead
    rcases hdead with h | h <;> cases h
  | @store next hpc =>
    refine .inr (hi.movePump rfl ?_)
    cases next with
    | drain => simp [AfterStore.pc]
    | select => exact absurd hpc hi.pump.2.2
    | waitUp => exact absurd hpc hi.pump.2.1
  | postDone => exact .inr ⟨fun h => ⟨rfl, (hi.unsent h).2⟩, fun h => ⟨rfl, (hi.asking h).2⟩, .inl rfl, by simp⟩
  | closed => exact .inr ⟨fun h => ⟨rfl, (hi.unsent h).2⟩, fun h => ⟨rfl, (hi.asking h).2⟩, .inl rfl, by simp⟩
  | ticket | drainSpent | drainNone | drainEmpty | drainChunk | write | post =>
    exact .inr (hi.movePump rfl (by simp))

theorem ack_once {s s' : Transfer} {a : AckAct} (hi : OnceOf s.finishSent s.ack s.cmds s.pump) (ho : One s)
    (hl : Living s) (ha : Asked s) (hf : (s.streams 0).upFin = false) (h : AckCase s a s') : Once s' := by
  have hx := ho.not_exited hl hf
  obtain ⟨hmode, hreader⟩ := ho.main hl hf hx
  cases h with
  | checkEof _ hsent => exact .inr ⟨(by simp), fun _ => hi.unsent hsent, hi.queued, hi.pump⟩
  | finish hk =>
    obtain ⟨hc, hfin⟩ := hi.asking (by rw [hk]; rfl)
    have hsent := ha.sent (by rw [hk]; rfl)
    refine .inr ⟨fun h => ?_, by simp [asking], .inr ⟨by rw [hc]; rfl, hfin⟩, hi.pump⟩
    exact absurd (hsent.symm.trans h) (by simp)
  | streamError _ hrx | streamErrorDropped _ hrx =>
    exact absurd (waiting_of_streamError hl.sound.inbox hx hrx) hreader
  | stream hk =>
    rw [(selecting_mode hk).2] at hmode
    cases hmode
  | linkUp hk => exact absurd hk (ho.no_linkUp hl _)
  | checkNone | finishClosed | pollPermit | pollPark | wake | ackNew | ackOld | done | error | space | gone | goneFail
  | streamReaderGone | noStream | linkUpFail =>
    exact .inr (hi.moveAck (by simp [asking]))
  | readMsgClosed | readAck | readLast | readEndClosed | readEnd | readerClosed => exact .inr hi

theorem step_once {s s' : Transfer} {a : Act} (hi : Once s) (ho : One s) (hl : Living s) (ha : Asked s) (hok : calm a)
    (h : s.step a = some s') : Once s' := by
  cases hf : (s.streams 0).upFin with
  | true => exact .inl (step_upFin hl.streams hf h)
  | false =>
    have hi : OnceOf s.finishSent s.ack s.cmds s.pump := hi.resolve_left (by rw [hf]; simp)
    cases a with
    | reader a => cases readerStep_cases h <;> exact .inr hi
    | ticket a => cases ticketStep_cases h <;> exact .inr hi
    | pump a => exact pump_once hi ho hl hf (pumpStep_cases h)
    | ack a => exact ack_once hi ho hl ha hf (ackStep_cases h)
    | link a =>
      cases linkStep_cases h with
      | hookLinkDown => exact absurd hok id
      | _ => exact .inr hi
    | down a => cases downStep_cases h <;> exact .inr hi

/-! ## The pump's FIN ends the stream -/

def FinDone (s : Transfer) : Prop := (s.streams 0).upFin = true → s.pump.done = true

theorem step_finDone {s s' : Transfer} {a : Act} (hi : FinDone s) (ho : One s) (hl : Living s) (hab : Abandoned s)
    (h : s.step a = some s') : FinDone s' := by
  let P : QStream → Prop := fun q => q.upFin = true → s.pump.done = true
  cases a with
  | reader a => cases readerStep_cases h <;> exact hi
  | ticket a => cases ticketStep_cases h <;> exact hi
  | pump a =>
    cases pumpStep_cases h with
    | linkUp | write => exact of_update (P := P) hi fun h => h
    | drainFin | postFin => exact fun _ => rfl
    | _ => exact hi
  | ack a =>
    cases ackStep_cases h with
    | readMsgClosed | readAck | readLast => exact of_update (P := P) hi fun h => h
    | _ => exact hi
  | link a =>
    cases linkStep_cases h with
    | outage => exact of_update (P := P) hi fun h => h
    | restoreOpen => exact of_update (P := P) hi fun _ => nofun
    | dropStream sid hlt hh =>
      -- Somebody holds the stream before FIN.
      intro _
      by_contra hd
      have hd : s.pump.done = false := by simpa using hd
      have hf : (s.streams 0).upFin = false := by
        by_contra hf
        rw [hi (by simpa using hf)] at hd
        cases hd
      have h0 : sid = 0 := by
        have := ho.opened
        omega
      rw [h0, ho.held_open hl hab hd hf] at hh
      cases hh
    | _ => exact hi
  | down a =>
    cases downStep_cases h with
    | acceptConnect | acceptReconnect | acceptRefused | tcpAcceptFail | duplicate | gap | write | writeAck | writeFail
    | eof | dropStream => exact of_update (P := P) hi fun h => h
    | _ => exact hi

/-! ## Tickets come from the timer -/

def Timed (s : Transfer) : Prop := s.capped = true ∧ s.fwd = .exited

theorem step_timed {s s' : Transfer} {a : Act} (hi : Timed s) (h : s.step a = some s') : Timed s' := by
  cases a with
  | reader a => cases readerStep_cases h <;> exact hi
  | ticket a =>
    cases ticketStep_cases h with
    | pollPermit hf | pollPark hf | wake hf | checkSome hf | checkNone hf | sendClosed hf | send hf =>
      rw [hi.2] at hf
      cases hf
    | _ => exact hi
  | pump a => cases pumpStep_cases h <;> exact hi
  | ack a => cases ackStep_cases h <;> exact hi
  | link a => cases linkStep_cases h <;> exact hi
  | down a => cases downStep_cases h <;> exact hi

/-- A step of the timer's look at this stream. -/
def tickStep : Act → Bool
  | .ticket .timerHead | .ticket .timerQ | .ticket (.timerSend _) => true
  | _ => false

/-- The timer looks at the stream from the start. -/
def freshTick : List Act := [.ticket .timerHead, .ticket .timerQ, .ticket (.timerSend 1)]

theorem freshTick_ticket {s : Transfer} (hc : s.capped = true) (hx : s.pump.pc ≠ .exited) (ha : s.alloc = none)
    (hlt : s.qAtomic < s.headOffset) (ht : s.timer = .idle) :
    run step s freshTick = some { s with alloc := some (.bytes 1), timer := .idle } := by
  have hpos : 0 < s.headOffset - s.qAtomic := by omega
  simp only [freshTick, run, step, ticketStep, hc, ht, ha, if_pos hpos, and_self, if_true, ne_eq, hx, not_false_eq_true,
    Nat.zero_lt_one, Option.bind_some]

theorem timerSend_ticket {s : Transfer} (hx : s.pump.pc ≠ .exited) (ha : s.alloc = none) (ht : s.timer = .sampled) :
    ∃ t, run step s [.ticket (.timerSend 1)] = some t ∧ t.alloc ≠ none := by
  refine ⟨{ s with alloc := some (.bytes 1), timer := .idle }, ?_, nofun⟩
  simp [run, step, ticketStep, ht, hx, ha]

/-- With bytes to send and no ticket waiting, the timer's ticks give the pump one. -/
theorem tick_ticket {s : Transfer} (hc : s.capped = true) (hx : s.pump.pc ≠ .exited) (ha : s.alloc = none)
    (hlt : s.qAtomic < s.headOffset) :
    ∃ as t, (∀ a ∈ as, tickStep a = true) ∧ run step s as = some t ∧ t.alloc ≠ none := by
  cases ht : s.timer with
  | idle =>
    have hrun := freshTick_ticket hc hx ha hlt ht
    exact ⟨freshTick, _, by simp [freshTick, tickStep], hrun, Option.some_ne_none _⟩
  | sampled =>
    obtain ⟨t, hrun, hne⟩ := timerSend_ticket hx ha ht
    exact ⟨[.ticket (.timerSend 1)], t, by simp [tickStep], hrun, hne⟩
  | head offset =>
    -- A look that is under way is ended first.
    have hq : step s (.ticket .timerQ) = some { s with timer := if 0 < offset - s.qAtomic then .sampled else .idle } := by
      simp only [step, ticketStep, ht]
    by_cases ho : 0 < offset - s.qAtomic
    · rw [if_pos ho] at hq
      obtain ⟨t, hrun, hne⟩ := timerSend_ticket (s := { s with timer := .sampled }) hx ha rfl
      refine ⟨[.ticket .timerQ, .ticket (.timerSend 1)], t, by simp [tickStep], ?_, hne⟩
      rw [run, hq]
      exact hrun
    · rw [if_neg ho] at hq
      have hrun := freshTick_ticket (s := { s with timer := .idle }) hc hx ha hlt rfl
      refine ⟨.ticket .timerQ :: freshTick, { s with alloc := some (.bytes 1), timer := .idle },
        by simp [freshTick, tickStep], ?_, Option.some_ne_none _⟩
      rw [run, hq]
      exact hrun

/-! ## Every run -/

structure Calm (s : Transfer) : Prop where
  living : Living s
  asked : Asked s
  abandoned : Abandoned s
  one : One s
  once : Once s
  finDone : FinDone s
  timed : Timed s

theorem reach_calm {s : Transfer} (h : Reach step (fun _ a => calm a) (init true) s) : Calm s := by
  refine h.invariant ⟨init_living true, init_asked true, nofun, init_one true,
    .inr ⟨fun _ => ⟨rfl, rfl⟩, nofun, .inl rfl, by simp [init]⟩, nofun, rfl, rfl⟩ ?_
  intro s s' a hi hok hs
  obtain ⟨hl, ha, hab, ho, honce, hfin, ht⟩ := hi
  exact ⟨step_living hl hs, step_asked ha hl.sound hs, step_abandoned hab hl hs, step_one ho hl hok hs,
    step_once honce ho hl ha hok hs, step_finDone hfin ho hl hab hs, step_timed ht hs⟩

/-- Without outages and with tickets from the timer, the conditions on notifications and
    acks hold by themselves. -/
theorem reach_steady {s : Transfer} (h : Reach step (fun _ a => calm a) (init true) s) : Steady s := by
  have hr : Reach step (fun s a => connects a ∧ forwarderSpares s a ∧ fewAcksLost s a) (init true) s := by
    refine h.mono_of reach_calm ?_
    intro s s' a hi hok hs
    refine ⟨?_, ?_, ?_⟩
    · unfold connects
      split
      · exact absurd hok id
      · trivial
    · unfold forwarderSpares
      split
      · intro hf
        rw [hi.timed.2] at hf
        cases hf
      · cases ticketStep_cases (a := .wake) hs with
        | wake hf =>
          rw [hi.timed.2] at hf
          cases hf
      · trivial
    · unfold fewAcksLost resuming
      split
      · cases downStep_cases (a := .resume) hs with
        | resume hpc =>
          have hplace := hi.one.place
          rw [DownAt, hpc] at hplace
          exact hplace.elim
      · intro sid hmem
        cases hmem
  refine hr.invariant (init_steady true) ?_
  intro s s' a hi hok hs
  exact step_steady hi hok.1 hok.2.1 hok.2.2 hs

/-- No task's own step changes the state, and no ticks do, beyond the timer itself. -/
def Stuck (s : Transfer) : Prop :=
  Parked s ∧ ∀ as t, (∀ a ∈ as, tickStep a = true) → run step s as = some t → { t with timer := s.timer } = s

/-- The timer finds nothing to send, or no pump to give a ticket to. -/
def Idle (s : Transfer) : Prop :=
  s.pump.pc = .exited ∨ (s.headOffset ≤ s.qAtomic ∧ (s.timer = .idle ∨ s.timer = .head s.headOffset))

theorem tick_idle {s s' : Transfer} {a : Act} (hi : Idle s) (ha : tickStep a = true) (h : s.step a = some s') :
    Idle s' ∧ ∃ timer, s' = { s with timer := timer } := by
  cases a with
  | ticket a =>
    cases ticketStep_cases h with
    | timerHead => exact ⟨hi.imp_right fun ⟨hq, _⟩ => ⟨hq, .inr rfl⟩, _, rfl⟩
    | timerNone => exact ⟨hi.imp_right fun ⟨hq, _⟩ => ⟨hq, .inl rfl⟩, _, rfl⟩
    | @timerSome offset hh hlt =>
      refine ⟨hi.imp_right fun ⟨hq, ht⟩ => ?_, _, rfl⟩
      rcases ht with ht | ht
      · rw [ht] at hh
        cases hh
      · rw [ht, TimerPc.head.injEq] at hh
        omega
    | timerRefused => exact ⟨hi.imp_right fun ⟨hq, _⟩ => ⟨hq, .inl rfl⟩, _, rfl⟩
    | timerSend _ hh _ hx =>
      rcases hi with hexit | ⟨_, ht | ht⟩
      · exact absurd hexit hx
      · rw [ht] at hh
        cases hh
      · rw [ht] at hh
        cases hh
    | _ => cases ha
  | _ => cases ha

/-- Any number of looks leave such a stream alone. -/
theorem ticks_idle {as : List Act} (has : ∀ a ∈ as, tickStep a = true) :
    ∀ {s t : Transfer}, Idle s → run step s as = some t → ∃ timer, t = { s with timer := timer } := by
  induction as with
  | nil =>
    intro s t _ ht
    cases ht
    exact ⟨_, rfl⟩
  | cons a as ih =>
    intro s t hi ht
    obtain ⟨u, hu, ht⟩ := Option.bind_eq_some_iff.mp ht
    obtain ⟨hidle, timer, rfl⟩ := tick_idle hi (has a List.mem_cons_self) hu
    obtain ⟨timer', rfl⟩ := ih (fun b hb => has b (List.mem_cons_of_mem _ hb)) hidle ht
    exact ⟨timer', rfl⟩

theorem AtRestOn.stuck {s : Transfer} {sid : Nat} (h : AtRestOn s sid) (ht : s.timer = .idle)
    (hq : s.headOffset ≤ s.qAtomic) : Stuck s := by
  refine ⟨h.parked, fun as t has hrun => ?_⟩
  obtain ⟨timer, rfl⟩ := ticks_idle has (.inr ⟨hq, .inl ht⟩) hrun
  rfl

/-- At rest the atomics say what has been sent and pushed. -/
theorem Parked.announced {s : Transfer} (hp : Parked s) (hs : Announced s) (hpc : s.pump.pc = .select) :
    s.qAtomic = s.pump.q ∧ s.headOffset = s.pushed.length := by
  constructor
  · have := hs.stored
    simpa only [Stored, StoredOf, hpc] using this
  · have hpub := hs.published
    rcases hp.reader with hr | ⟨hr, _⟩ | ⟨hr, _⟩ <;> simpa only [Published, PublishedOf, hr] using hpub

/-- With bytes to send, the next look of the timer gives a ticket. -/
theorem Stuck.sent {s : Transfer} (hstuck : Stuck s) (hs : Announced s) (ht : Timed s) (hpc : s.pump.pc = .select) :
    s.pushed.length ≤ s.pump.q := by
  obtain ⟨hp, htick⟩ := hstuck
  by_contra hlt
  have hlive : s.pump.pc ≠ .exited := by rw [hpc]; simp
  have halloc := (hp.pump hlive).2.1
  obtain ⟨hqa, hho⟩ := hp.announced hs hpc
  obtain ⟨as, t, has, hrun, hne⟩ := tick_ticket ht.1 hlive halloc (by omega)
  have := congrArg Transfer.alloc (htick as t has hrun)
  exact hne (this.trans halloc)

/-- Before FIN, only a pump that rests with everything sent ends the transfer's steps. -/
theorem Stuck.resting {s : Transfer} (hstuck : Stuck s) (hcalm : Calm s) (hst : Steady s) (hd : s.pump.done = false) :
    s.ack ≠ .exited ∧ mode s.ack = .main ∧ s.pump.pc = .select ∧ s.pushed.length ≤ s.pump.q := by
  have hl := hcalm.living
  have hf : (s.streams 0).upFin = false := by
    by_contra hf
    rw [hcalm.finDone (by simpa using hf)] at hd
    cases hd
  have hx := hcalm.one.not_exited hl hf
  have hlive : s.pump.pc ≠ .exited := fun he => hx (hcalm.abandoned he hd).1
  have hpc : s.pump.pc = .select := by
    refine (hstuck.1.pump hlive).1.resolve_right fun hw => ?_
    rcases hcalm.once with hfin | honce
    · rw [hf] at hfin
      cases hfin
    · exact honce.pump.1 hw
  exact ⟨hx, (hcalm.one.main hl hf hx).1, hpc, hstuck.sent hst.signalled.announced hcalm.timed hpc⟩

/-- Once the client has closed, only FIN does. -/
theorem Stuck.done {s : Transfer} (hstuck : Stuck s) (hcalm : Calm s) (hst : Steady s) (hclosed : s.closed = true) :
    s.pump.done = true := by
  by_contra hd
  obtain ⟨hx, hm, hpc, hq⟩ := hstuck.resting hcalm hst (by simpa using hd)
  have hcur := hcalm.one.current hcalm.living
  have := hstuck.1.not_closed hst hx hm hpc (by omega) hq
  rw [hclosed] at this
  cases this

/-- A transfer whose client has closed goes on until FIN is sent; the pump does not rest
    with everything sent and `Finish` handled; and it is done when FIN is on the stream. -/
theorem capped_reaches_fin {s : Transfer} (h : Reach step (fun _ a => calm a) (init true) s) :
    ¬ (s.closed = true ∧ s.pump.done = false ∧ Stuck s) ∧
      ¬ (s.pump.pc = .select ∧ s.pump.finishing = true ∧ s.spool.atEof = true ∧ s.pump.q = s.spool.headOffset ∧
        s.pump.done = false) ∧
      (s.pump.done = true ↔ (s.streams 0).upFin = true) := by
  have hcalm := reach_calm h
  have hst := reach_steady h
  have hl := hcalm.living
  refine ⟨?_, ?_, fun hd => ?_, hcalm.finDone⟩
  · rintro ⟨hclosed, hd, hstuck⟩
    rw [hstuck.done hcalm hst hclosed] at hd
    cases hd
  · rintro ⟨hpc, hfinish, heof, hq, hd⟩
    have hhead := hl.sound.bytes.holds.headOffset
    rcases hcalm.once with hfin | honce
    · rw [hcalm.finDone hfin] at hd
      cases hd
    · rcases hcalm.asked.rested (by rw [hpc]; rfl) hfinish heof (by omega) with (h | h) | h
      · rw [(honce.unsent h).2] at hfinish
        cases hfinish
      · rw [(honce.asking h).2] at hfinish
        cases hfinish
      · rcases honce.queued with hc | ⟨_, hnot⟩
        · rw [hc] at h
          cases h
        · rw [hnot] at hfinish
          cases hfinish
  · rw [← (hcalm.one.current hl).2]
    exact hst.finSent hd

/-- The client has written one byte and closed; FIN is still to be sent. -/
theorem capped_before_fin :
    ∃ s, Reach step (fun _ a => calm a) (init true) s ∧ s.closed = true ∧ s.spool.atEof = true ∧ s.pump.done = false ∧
      ¬ Stuck s := by
  obtain ⟨s, hr, hs⟩ := Reach.exists_run step (fun _ a => calm a) (init true)
    [startDownlink, [.reader .accept], writeAndPush [1], closeClient].flatten
    (fun s => s.closed = true ∧ s.spool.atEof = true ∧ s.pump.done = false) (by decide +kernel)
  obtain ⟨hc, he, hd⟩ := of_decide_eq_true hs
  exact ⟨s, hr, hc, he, hd, fun hstuck => (capped_reaches_fin hr).1 ⟨hc, hd, hstuck⟩⟩

end Quelay.Agent.Transfer
