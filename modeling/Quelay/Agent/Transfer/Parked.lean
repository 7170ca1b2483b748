/-
  Quelay.Agent.Transfer.Parked — states in which every task waits.

  A task's own steps are those it takes once what it waits for is there; the clients,
  the network and failures are not among them. `Parked`: no own step of any task changes
  the state. Then the sender's tasks are all in a wait, with no permit, ticket, command
  or message for any of them; and while the ack task is on a live stream, the downlink
  has read it to its end and waits for more (`Parked.downlink`).
-/

import Quelay.Agent.Transfer.Backpressure
import Quelay.Agent.Transfer.Handover

namespace Quelay.Agent.Transfer

open Quelay.Lib

/-! ## Headers -/

structure FramedOf (streams : Nat → QStream) (opened nextAccept : Nat) (down : Downlink) : Prop where
  unread : ∀ sid, nextAccept ≤ sid → sid < opened → (streams sid).cut = true ∨ headed (streams sid).up = true
  read : ∀ sid, Holding down sid → headed (streams sid).up = false
  absent : down.pc = .absent → down.streamRx = [] ∧ down.handle = false

/-- A live stream that the receiver has not taken has its header; one that it holds has
    none. -/
def Framed (s : Transfer) : Prop := FramedOf s.streams s.opened s.nextAccept s.down

variable {streams : Nat → QStream} {opened nextAccept : Nat} {down : Downlink} {sid : Nat}

/-- A stream's frames change, behind its header. -/
theorem FramedOf.update (hi : FramedOf streams opened nextAccept down) {q' : QStream}
    (hu : nextAccept ≤ sid → (streams sid).cut = true ∨ headed (streams sid).up = true →
      q'.cut = true ∨ headed q'.up = true)
    (hr : headed (streams sid).up = false → headed q'.up = false) :
    FramedOf (Function.update streams sid q') opened nextAccept down := by
  refine ⟨?_, ?_, hi.absent⟩
  · refine forall_update (P := fun i q => nextAccept ≤ i → i < opened → q.cut = true ∨ headed q.up = true) hi.unread ?_
    intro hle hlt
    exact hu hle (hi.unread sid hle hlt)
  · refine forall_update (P := fun i q => Holding down i → headed q.up = false) hi.read ?_
    intro hh
    exact hr (hi.read sid hh)

theorem FramedOf.flags (hi : FramedOf streams opened nextAccept down) {q' : QStream} (hup : q'.up = (streams sid).up)
    (hcut : q'.cut = (streams sid).cut) : FramedOf (Function.update streams sid q') opened nextAccept down :=
  hi.update (fun _ h => by rwa [hup, hcut]) fun h => by rwa [hup]

/-- The downlink moves: it holds no stream whose header is unread. -/
theorem FramedOf.move (hi : FramedOf streams opened nextAccept down) {down' : Downlink}
    (hh : ∀ sid, Holding down' sid → Holding down sid) (ha : down'.pc = .absent → down.pc = .absent ∧ down' = down) :
    FramedOf streams opened nextAccept down' := by
  refine ⟨hi.unread, fun sid h => hi.read sid (hh sid h), fun h => ?_⟩
  obtain ⟨h, he⟩ := ha h
  rw [he]
  exact hi.absent h

/-- The next stream's header is read. -/
theorem FramedOf.accept (hi : FramedOf streams opened nextAccept down) {rest : List UpFrame}
    (hrest : headed rest = false) {down' : Downlink} (hh : ∀ sid, Holding down' sid → Holding down sid ∨ sid = nextAccept)
    (ha : down'.pc = .absent → down'.streamRx = [] ∧ down'.handle = false) :
    FramedOf (Function.update streams nextAccept { streams nextAccept with up := rest }) opened (nextAccept + 1) down' := by
  refine ⟨?_, ?_, ha⟩
  · intro i hle hlt
    rw [Function.update_of_ne (by omega)]
    exact hi.unread i (by omega) hlt
  · intro i h
    by_cases he : i = nextAccept
    · subst he
      rw [Function.update_self]
      exact hrest
    · rw [Function.update_of_ne he]
      exact hi.read i ((hh i h).resolve_right he)

theorem FramedOf.open (hi : FramedOf streams opened nextAccept down)
    (hr : ReceiverOf streams opened nextAccept down) (replayFrom : Nat) :
    FramedOf (Function.update streams opened (.opened (.reconnect replayFrom))) (opened + 1) nextAccept down := by
  refine ⟨?_, ?_, hi.absent⟩
  · intro i hle hlt
    by_cases he : i = opened
    · subst he
      rw [Function.update_self]
      exact .inr rfl
    · rw [Function.update_of_ne he]
      exact hi.unread i hle (by omega)
  · intro i hh
    have := hr.holding i hh
    have := hr.accepted
    rw [Function.update_of_ne (by omega)]
    exact hi.read i hh

theorem headed_write {q : QStream} (offset : Nat) (payload : List UInt8) :
    (q.cut = true ∨ headed q.up = true → (q.write offset payload).cut = true ∨ headed (q.write offset payload).up = true) ∧
      (headed q.up = false → headed (q.write offset payload).up = false) := by
  unfold QStream.write
  cases hc : q.cut with
  | true => exact ⟨fun _ => .inl rfl, fun h => h⟩
  | false =>
    refine ⟨fun h => .inr ?_, fun h => not_headed_snoc h _ _⟩
    rcases h with h | h
    · cases h
    · exact headed_snoc h _

theorem init_framed (capped : Bool) : Framed (init capped) := by
  refine ⟨fun sid _ hlt => .inr ?_, fun sid h => ?_, fun _ => ⟨rfl, rfl⟩⟩
  · rw [init_streams, if_pos (by simp only [init] at hlt; omega)]
    rfl
  · rcases h.2 with h | h | h <;> cases h

theorem down_framed {s s' : Transfer} {a : DownAct} (hi : Framed s) (hl : Living s) (hr' : Receiver s')
    (h : s.step (.down a) = some s') : Framed s' := by
  have hb := hl.sound.bytes
  have hread : ∀ {sid}, s.down.pc = .reading sid → ¬ s.nextAccept ≤ sid := by
    intro sid hpc
    have := hl.receiver.holding sid ⟨by rw [hpc]; rfl, .inr (.inl hpc)⟩
    omega
  have hkeep : s'.nextAccept = s.nextAccept → ∀ sid, Holding s'.down sid → Holding s.down sid := by
    intro hn sid hh
    exact (holding_cases hr' h hh).resolve_right (by omega)
  have hnext : s'.nextAccept = s.nextAccept + 1 → ∀ sid, Holding s'.down sid → Holding s.down sid ∨ sid = s.nextAccept := by
    intro hn sid hh
    exact (holding_cases hr' h hh).imp_right (by omega)
  cases downStep_cases h with
  | acceptConnect hlt hu => exact hi.accept ((hb.streamOk _).rest hu) (hnext rfl) nofun
  | acceptReconnect hlt hu hh =>
    refine hi.accept ((hb.streamOk _).rest hu) (hnext rfl) fun ha => ?_
    have := (hi.absent ha).2
    rw [hh] at this
    cases this
  | acceptRefused hlt hu => exact hi.accept ((hb.streamOk _).rest hu) (hnext rfl) hi.absent
  | acceptSkip => exact ⟨fun i hle => hi.unread i (Nat.le_of_succ_le hle), hi.read, hi.absent⟩
  | start | tcpAccept | report | readError | resume | lost => exact hi.move (hkeep rfl) nofun
  | tcpAcceptFail | eof => exact (hi.move (hkeep rfl) nofun).flags rfl rfl
  | duplicate _ hpc hu => exact hi.update (fun hle => absurd hle (hread hpc)) fun _ => (hb.streamOk _).rest hu
  | gap _ hpc hu =>
    exact (hi.move (hkeep rfl) nofun).update (fun hle => absurd hle (hread hpc)) fun _ => (hb.streamOk _).rest hu
  | write _ hpc hu | writeAck _ hpc hu =>
    refine (hi.move (hkeep rfl) fun ha => ?_).update (fun hle => absurd hle (hread hpc)) fun _ => (hb.streamOk _).rest hu
    exact absurd (hpc.symm.trans ha) nofun
  | writeFail => exact (hi.move (hkeep rfl) nofun).flags rfl rfl
  | dropHandle => exact ⟨hi.unread, hi.read, fun ha => ⟨(hi.absent ha).1, rfl⟩⟩
  | dropStream => exact hi.flags rfl rfl

theorem step_framed {s s' : Transfer} {a : Act} (hi : Framed s) (hl : Living s) (h : s.step a = some s') : Framed s' := by
  have hr' := (step_living hl h).receiver
  cases a with
  | reader a => cases readerStep_cases h <;> exact hi
  | ticket a => cases ticketStep_cases h <;> exact hi
  | pump a =>
    cases pumpStep_cases h with
    | linkUp | drainFin | postFin => exact hi.flags rfl rfl
    | write => exact hi.update (fun _ => (headed_write _ _).1) (headed_write _ _).2
    | _ => exact hi
  | ack a =>
    cases ackStep_cases h with
    | readMsgClosed | readAck | readLast => exact hi.flags rfl rfl
    | _ => exact hi
  | link a =>
    cases linkStep_cases h with
    | outage up => exact hi.update (fun _ _ => .inl rfl) fun h => not_headed_take h up
    | restoreOpen => exact hi.open hl.receiver _
    | dropStream => exact hi.flags rfl rfl
    | _ => exact hi
  | down a => exact down_framed hi hl hr' h

/-! ## Own steps -/

/-- A task takes the step by itself. The clients' writes, closes and failures, the
    network's, a dropped handle and the timer's ticks are not among these; the end of a
    stream that nobody holds is. -/
def ownStep : Act → Bool
  | .reader (.clientWrite _) | .reader .clientClose | .reader .acceptFail | .reader .readFail => false
  | .reader _ => true
  | .ticket .poll | .ticket .wake | .ticket .check | .ticket .send => true
  | .ticket _ => false
  | .pump _ => true
  | .ack _ => true
  | .link .restoreRead | .link .restoreOpen | .link .restoreDeliver | .link (.dropStream _) => true
  | .link _ => false
  | .down .tcpAcceptFail | .down (.writeFail _) | .down .dropHandle => false
  | .down _ => true

/-- No task's own step changes the state. -/
def Parked (s : Transfer) : Prop := ∀ a s', ownStep a = true → s.step a = some s' → s' = s

/-- A chunk at the front of the downlink's stream is taken off it. -/
theorem chunk_step {s : Transfer} {offset : Nat} {payload : List UInt8} {rest : List UpFrame}
    (hpc : s.down.pc = .reading sid) (hu : (s.streams sid).up = .chunk offset payload :: rest) :
    ∃ s', s.step (.down (.chunk false)) = some s' ∧ (s'.streams sid).up = rest := by
  simp only [step, downStep, hpc, hu]
  split
  · exact ⟨_, rfl, by simp [popUp, setStream]⟩
  · split
    · exact ⟨_, rfl, by simp [popUp, setStream, downFail, QStream.writeMsg]⟩
    · refine ⟨_, rfl, ?_⟩
      unfold writeChunk
      dsimp only
      split <;> simp [popUp, setStream, QStream.writeMsg]

section Parked

variable {s : Transfer} (hp : Parked s)

include hp

theorem Parked.moves {s' : Transfer} {P : Prop} (a : Act) {α : Type} (f : Transfer → α) (ha : ownStep a = true)
    (h : s.step a = some s') (hne : f s' ≠ f s) : P :=
  (hne (congrArg f (hp a s' ha h))).elim

theorem Parked.reader : s.reader = .exited ∨ (s.reader = .spaceParked ∧ () ∉ s.spaceReady.woken) ∨
    (s.reader = .read ∧ s.sock = [] ∧ s.closed = false) := by
  cases hr : s.reader with
  | accept => exact hp.moves (.reader .accept) Transfer.reader rfl (if_pos hr) (by simp [hr])
  | space =>
    have h : s.step (.reader .space) = _ := if_pos hr
    split at h
    · exact hp.moves _ Transfer.reader rfl h (by simp [hr])
    · exact hp.moves _ Transfer.reader rfl h (by simp [hr])
  | spacePoll =>
    have h : s.step (.reader .spacePoll) = _ := if_pos hr
    split at h
    · exact hp.moves _ Transfer.reader rfl h (by simp [hr])
    · exact hp.moves _ Transfer.reader rfl h (by simp [hr])
  | spaceParked =>
    refine .inr (.inl ⟨rfl, fun hw => ?_⟩)
    exact hp.moves (.reader .spaceWake) Transfer.reader rfl (if_pos ⟨hr, hw⟩) (by simp [hr])
  | read =>
    by_cases hs : s.sock = []
    · refine .inr (.inr ⟨rfl, hs, ?_⟩)
      by_contra hc
      have h : s.step (.reader .eof) = _ := if_pos ⟨hr, hs, by simpa using hc⟩
      unfold handleEof at h
      split at h
      · exact hp.moves _ Transfer.reader rfl h (by simp [hr])
      · exact hp.moves _ Transfer.reader rfl h (by simp [hr])
    · have hpos : 0 < s.sock.length := List.length_pos_iff.mpr hs
      exact hp.moves (.reader (.read 1)) Transfer.reader rfl (if_pos ⟨hr, by decide, hpos, by decide⟩) (by simp [hr])
  | failed =>
    have h : s.step (.reader .failedEof) = _ := if_pos hr
    unfold handleEof at h
    split at h
    · exact hp.moves _ Transfer.reader rfl h (by simp [hr])
    · exact hp.moves _ Transfer.reader rfl h (by simp [hr])
  | store head last =>
    have h : s.step (.reader .store) = some { s with headOffset := head, reader := .notify last } := by
      simp only [step, readerStep, hr]
    exact hp.moves _ Transfer.reader rfl h (by simp [hr])
  | notify last =>
    have h : s.step (.reader .notify) =
        some { s with dataReady := s.dataReady.notifyOne, reader := if last then .exited else .space } := by
      simp only [step, readerStep, hr]
    exact hp.moves _ Transfer.reader rfl h (by cases last <;> simp [hr])
  | exited => exact .inl rfl

theorem Parked.pump (hx : s.pump.pc ≠ .exited) :
    (s.pump.pc = .select ∨ s.pump.pc = .waitUp) ∧ s.alloc = none ∧ s.cmds = [] ∧ s.ack ≠ .exited := by
  have hpc : s.pump.pc = .select ∨ s.pump.pc = .waitUp := by
    cases hpc : s.pump.pc with
    | select => exact .inl rfl
    | waitUp => exact .inr rfl
    | exited => exact absurd hpc hx
    | drain rem =>
      have h : s.step (.pump (.drain 0)) = some (s.drainTurn rem 0) := by simp only [step, pumpStep, hpc]
      refine hp.moves _ (fun s => s.pump.pc) rfl h ?_
      simp only [hpc, drainTurn]
      repeat' split
      all_goals simp
    | write rem chunk =>
      obtain ⟨s', h, hpc'⟩ : ∃ s', s.step (.pump .write) = some s' ∧
          s'.pump.pc = .store (.drain (rem.spend chunk.length)) := ⟨_, by simp only [step, pumpStep, hpc]; rfl, rfl⟩
      exact hp.moves _ (fun s => s.pump.pc) rfl h (by simp [hpc, hpc'])
    | store next =>
      obtain ⟨s', h, hpc'⟩ : ∃ s', s.step (.pump .store) = some s' ∧ s'.pump.pc = next.pc :=
        ⟨_, by simp only [step, pumpStep, hpc]; rfl, rfl⟩
      exact hp.moves _ (fun s => s.pump.pc) rfl h (by cases next <;> simp [hpc, hpc', AfterStore.pc])
    | post =>
      have h : s.step (.pump .post) = _ := if_pos hpc
      refine hp.moves _ (fun s => s.pump.pc) rfl h ?_
      simp only [hpc]
      repeat' split
      all_goals simp [pumpExit]
  have halloc : s.alloc = none := by
    cases ha : s.alloc with
    | none => rfl
    | some t =>
      rcases hpc with hpc | hpc
      · obtain ⟨s', h, hpc'⟩ : ∃ s', s.step (.pump .ticket) = some s' ∧ s'.pump.pc = .drain t :=
          ⟨_, by simp only [step, pumpStep, hpc, ha]; rfl, rfl⟩
        exact hp.moves _ (fun s => s.pump.pc) rfl h (by simp [hpc, hpc'])
      · exact hp.moves (.pump .discard) (fun s => s.alloc) rfl (if_pos ⟨hpc, by simp [ha]⟩) (by simp [ha])
  have hcmds : s.cmds = [] := by
    cases hc : s.cmds with
    | nil => rfl
    | cons c cmds =>
      have hcmd : ∃ s', s.step (.pump .cmd) = some s' ∧ s'.cmds = cmds := by
        rcases hpc with hpc | hpc <;> cases c <;> exact ⟨_, by simp only [step, pumpStep, hpc, hc]; rfl, rfl⟩
      obtain ⟨s', h, he⟩ := hcmd
      refine hp.moves _ (fun s => s.cmds.length) rfl h ?_
      simp only [he, hc, List.length_cons]
      omega
  refine ⟨hpc, halloc, hcmds, fun hack => ?_⟩
  exact hp.moves (.pump .closed) (fun s => s.pump.pc) rfl (if_pos ⟨hpc, hcmds, hack⟩) fun h => hx h.symm

theorem Parked.cmds (ha : Asked s) : s.cmds = [] := by
  by_cases hx : s.pump.pc = .exited
  · exact ha.drained hx
  · exact (hp.pump hx).2.2.1

theorem Parked.forwarder : s.fwd = .exited ∨ (s.fwd = .parked ∧ .forwarder ∉ s.dataReady.woken) := by
  cases hf : s.fwd with
  | poll =>
    have h : s.step (.ticket .poll) = _ := if_pos hf
    split at h
    · exact hp.moves _ Transfer.fwd rfl h (by simp [hf])
    · exact hp.moves _ Transfer.fwd rfl h (by simp [hf])
  | parked =>
    refine .inr ⟨rfl, fun hw => ?_⟩
    exact hp.moves (.ticket .wake) Transfer.fwd rfl (if_pos ⟨hf, hw⟩) (by simp [hf])
  | check =>
    have h : s.step (.ticket .check) = _ := if_pos hf
    split at h
    · exact hp.moves _ Transfer.fwd rfl h (by simp [hf])
    · exact hp.moves _ Transfer.fwd rfl h (by simp [hf])
  | send =>
    have h : s.step (.ticket .send) = _ := if_pos hf
    split at h
    · exact hp.moves _ Transfer.fwd rfl h (by simp [hf])
    · rename_i hx
      rw [if_pos (hp.pump hx).2.1] at h
      exact hp.moves _ Transfer.fwd rfl h (by simp [hf])
  | exited => exact .inl rfl

theorem Parked.ack (ha : Asked s) (hx : s.ack ≠ .exited) : ∃ k, s.ack = .parked k ∧ .ackTask ∉ s.dataReady.woken := by
  have hroom : s.cmds.length < cmdSlots := by rw [hp.cmds ha]; decide
  cases hk : s.ack with
  | check k =>
    have h : s.step (.ack .check) = if s.finishSent = false ∧ s.spool.atEof then
        some { s with finishSent := true, ack := .finish k } else some { s with ack := .poll k } := by
      simp only [step, ackStep, hk]
    split at h
    · exact hp.moves _ Transfer.ack rfl h (by simp [hk])
    · exact hp.moves _ Transfer.ack rfl h (by simp [hk])
  | finish k =>
    have h : s.step (.ack .finish) = if s.pump.pc = .exited then some { s with ack := .poll k }
        else if s.cmds.length < cmdSlots then some { s with cmds := s.cmds ++ [.finish], ack := .poll k } else none := by
      simp only [step, ackStep, hk]
    split at h
    · exact hp.moves _ Transfer.ack rfl h (by simp [hk])
    · exact hp.moves _ Transfer.ack rfl h (by simp [hk])
  | poll k =>
    by_cases hg : k = .gone
    · subst hg
      exact hp.moves (.ack .goneFail) Transfer.ack rfl (if_pos hk) (by simp [hk, ackExit])
    · have h : s.step (.ack .poll) = if s.dataReady.permit then
          some { s with dataReady := s.dataReady.take, ack := .check k }
          else some { s with dataReady := s.dataReady.park .ackTask, ack := .parked k } := by
        cases k <;> first | exact absurd rfl hg | simp only [step, ackStep, hk]
      split at h
      · exact hp.moves _ Transfer.ack rfl h (by simp [hk])
      · exact hp.moves _ Transfer.ack rfl h (by simp [hk])
  | parked k =>
    refine ⟨k, rfl, fun hw => ?_⟩
    have h : s.step (.ack .wake) = some { s with dataReady := s.dataReady.resume .ackTask, ack := .check k } := by
      simp only [step, ackStep, hk, if_pos hw]
    exact hp.moves _ Transfer.ack rfl h (by simp [hk])
  | space => exact hp.moves (.ack (.space false)) Transfer.ack rfl (if_pos hk) (by simp [hk])
  | linkUp sid =>
    have h : s.step (.ack .linkUp) = if s.pump.pc = .exited then some s.ackExit
        else if s.cmds.length < cmdSlots then
          some { s with cmds := s.cmds ++ [.linkUp sid], finishSent := false, ack := .check .main }
        else none := by
      simp only [step, ackStep, hk]
    split at h
    · exact hp.moves _ Transfer.ack rfl h (by simp [hk, ackExit])
    · exact hp.moves _ Transfer.ack rfl h (by simp [hk])
  | exited => exact absurd hk hx

/-- No task is about to be woken through `data_ready`. -/
theorem Parked.no_notification (ha : Asked s) (hq : Queued s) (hx : s.ack ≠ .exited) : ¬ s.dataReady.Pending := by
  obtain ⟨k, hk, hw⟩ := hp.ack ha hx
  intro hpend
  rcases hpend with h | h
  · rw [hq.no_permit (t := .ackTask) ⟨k, hk⟩ hw] at h
    cases h
  · obtain ⟨t, ht⟩ := List.exists_mem_of_ne_nil _ h
    cases t with
    | ackTask => exact hw ht
    | forwarder =>
      have hf : s.fwd = .parked := (hq.mem .forwarder).mp (List.mem_append_right _ ht)
      rcases hp.forwarder with hf' | ⟨_, hf'⟩
      · rw [hf] at hf'
        cases hf'
      · exact hf' ht

/-- While the ack task is on a stream, its inbox is empty and the stream is live and has
    no feedback for it. -/
theorem Parked.onStream (hl : Living s) (ha : Asked s) (hx : s.ack ≠ .exited) (hm : mode s.ack = .main) :
    s.ack = .parked .main ∧ s.ackRx = [] ∧ (s.streams s.current).down = [] ∧
      (s.streams s.current).cut = false ∧ (s.streams s.current).downFin = false := by
  obtain ⟨k, hk, -⟩ := hp.ack ha hx
  have hmain : k = .main := by rw [hk] at hm; exact hm
  subst hmain
  have hrx : s.ackRx = [] := by
    cases hrx : s.ackRx with
    | nil => rfl
    | cons m rest =>
      have hmsg : ∃ s', s.step (.ack .msg) = some s' ∧ s'.ack ≠ .parked .main := by
        cases m with
        | ack n =>
          refine ⟨_, by simp only [step, ackStep, hk, hrx, AckPc.selecting]; rfl, ?_⟩
          simp only [onAck]
          split <;> simp
        | done => exact ⟨_, by simp only [step, ackStep, hk, hrx, AckPc.selecting]; rfl, by simp [ackExit]⟩
        | error f => exact ⟨_, by simp only [step, ackStep, hk, hrx, AckPc.selecting]; rfl, by simp [ackExit]⟩
        | streamError => exact ⟨_, by simp only [step, ackStep, hk, hrx, AckPc.selecting]; rfl, by simp [onStreamError]⟩
      obtain ⟨s', h, hne⟩ := hmsg
      exact hp.moves _ Transfer.ack rfl h (by rwa [hk])
  have hroom : s.ackRx.length < ackSlots := by rw [hrx]; decide
  have hreading : s.ackReader = .reading s.current := by
    have hb := hl.sound.inbox
    unfold Inbox InboxOf at hb
    rw [if_neg hx, hrx, hm] at hb
    cases hr : s.ackReader with
    | reading sid => rw [hl.feedback.reading sid hr]
    | waiting =>
      rw [hr] at hb
      rcases hb with ⟨h, _⟩ | ⟨_, acks, m, he, _⟩
      · cases h
      · cases acks <;> cases he
    | exited => exact absurd hrx (hl.sound.inbox.left hx hr)
  have hdown : (s.streams s.current).down = [] := by
    cases hd : (s.streams s.current).down with
    | nil => rfl
    | cons m rest =>
      obtain ⟨s', h, hlen⟩ : ∃ s', s.step (.ack .readMsg) = some s' ∧ s'.ackRx = s.ackRx ++ [m.toAckMsg] :=
        ⟨_, by simp only [step, ackStep, hreading, hd, if_neg hx, if_pos hroom]; rfl, rfl⟩
      exact hp.moves _ Transfer.ackRx rfl h (by simp [hlen, hrx])
  have hend : (s.streams s.current).downEnded = false := by
    by_contra hend
    have hend : (s.streams s.current).downEnded = true := by simpa using hend
    obtain ⟨s', h, hlen⟩ : ∃ s', s.step (.ack .readEnd) = some s' ∧ s'.ackRx = s.ackRx ++ [.streamError] :=
      ⟨_, by simp only [step, ackStep, hreading, if_pos hend, if_neg hx, if_pos hroom]; rfl, rfl⟩
    exact hp.moves _ Transfer.ackRx rfl h (by simp [hlen, hrx])
  simp only [QStream.downEnded, hdown, List.isEmpty_nil, Bool.true_and, Bool.or_eq_false_iff] at hend
  exact ⟨hk, hrx, hdown, hend⟩

/-- What the downlink reads has been read. -/
theorem Parked.read (hf : Framed s) (hpc : s.down.pc = .reading sid) :
    (s.streams sid).up = [] ∧ (s.streams sid).cut = false ∧ (s.streams sid).upFin = false := by
  have hhead := hf.read sid ⟨by rw [hpc]; rfl, .inr (.inl hpc)⟩
  have hup : (s.streams sid).up = [] := by
    cases hu : (s.streams sid).up with
    | nil => rfl
    | cons f rest =>
      rw [hu] at hhead
      cases f with
      | connect => cases hhead
      | reconnect => cases hhead
      | chunk offset payload =>
        obtain ⟨s', h, hrest⟩ := chunk_step hpc hu
        refine hp.moves _ (fun s => (s.streams sid).up.length) rfl h ?_
        simp only [hrest, hu, List.length_cons]
        omega
  have hcut : (s.streams sid).cut = false := by
    by_contra hc
    have h : s.step (.down .readError) = some { s with down := { s.down with pc := .waiting } } := by
      simp only [step, downStep, hpc, hup, true_and]
      exact if_pos (by simpa using hc)
    exact hp.moves _ (fun s => s.down.pc) rfl h (by simp [hpc])
  refine ⟨hup, hcut, ?_⟩
  by_contra hfin
  have hfin : (s.streams sid).upFin = true := by simpa using hfin
  obtain ⟨s', h, hx⟩ : ∃ s', s.step (.down .eof) = some s' ∧ s'.down.pc = .report sid (.done s.down.bytesWritten) :=
    ⟨_, by simp only [step, downStep, hpc, hup, hcut, hfin, and_self, if_true]; rfl, rfl⟩
  exact hp.moves _ (fun s => s.down.pc) rfl h (by simp [hpc, hx])

theorem Parked.not_reporting (i : Nat) (c : Callback) : s.down.pc ≠ .report i c := by
  intro hpc
  have h : s.step (.down .report) =
      some { s with down := { s.down with pc := .exited }, downCallbacks := s.downCallbacks ++ [c] } := by
    simp only [step, downStep, hpc]
  exact hp.moves _ (fun s => s.down.pc) rfl h (by simp [hpc])

/-- Every stream up to the live one has been taken by the receiver. -/
theorem Parked.accepted (hl : Living s) (hf : Framed s) : s.nextAccept = s.opened := by
  have hle := hl.receiver.accepted
  by_contra hne
  have hlt : s.nextAccept < s.opened := by omega
  rcases hf.unread s.nextAccept (Nat.le_refl _) hlt with hc | hh
  · exact hp.moves (.down .acceptSkip) Transfer.nextAccept rfl (if_pos ⟨hlt, hc⟩) (by simp)
  · obtain ⟨s', h, hn⟩ : ∃ s', s.step (.down .accept) = some s' ∧ s'.nextAccept = s.nextAccept + 1 := by
      cases hu : (s.streams s.nextAccept).up with
      | nil => rw [hu] at hh; cases hh
      | cons f rest =>
        rw [hu] at hh
        cases f with
        | connect => exact ⟨_, by simp only [step, downStep, if_pos hlt, hu]; rfl, rfl⟩
        | reconnect => exact ⟨_, by simp only [step, downStep, if_pos hlt, hu]; rfl, rfl⟩
        | chunk => cases hh
    exact hp.moves _ Transfer.nextAccept rfl h (by rw [hn]; omega)

/-- The downlink reads a live stream whose feedback is open, and has read it to its end. -/
theorem Parked.downlink (hl : Living s) (hf : Framed s) (hlt : sid < s.opened) (hcut : (s.streams sid).cut = false)
    (hopen : (s.streams sid).downFin = false) :
    s.down.pc = .reading sid ∧ (s.streams sid).up = [] ∧ (s.streams sid).upFin = false := by
  have hnew := hl.newest hlt hcut
  have hacc := hp.accepted hl hf
  have hhold : Holding s.down sid := by
    by_contra hh
    have hrel : sid < s.nextAccept ∧ s.heldDown sid = false := ⟨by omega, heldDown_of_not_holding hh hp.not_reporting⟩
    refine hp.moves (.down (.dropStream sid)) (fun s => (s.streams sid).downFin) rfl (if_pos hrel) ?_
    simp [setStream, hopen]
  have hpc : s.down.pc = .reading sid := by
    cases hpc : s.down.pc with
    | absent =>
      rcases hhold.2 with h | h | h
      · rw [hpc] at h; cases h
      · rw [hpc] at h; cases h
      · rw [(hf.absent hpc).1] at h
        cases h
    | spawned =>
      rcases hhold.2 with h | h | h
      · rw [hpc] at h; cases h
      · rw [hpc] at h; cases h
      · obtain ⟨x, rest, hrx⟩ := List.exists_cons_of_ne_nil (List.ne_nil_of_mem h)
        have h : s.step (.down .start) = some { s with down := { s.down with pc := .tcpAccept x, streamRx := rest } } := by
          simp only [step, downStep, hpc, hrx]
        exact hp.moves _ (fun s => s.down.pc) rfl h (by simp [hpc])
    | tcpAccept x =>
      have h : s.step (.down .tcpAccept) =
          some { s with down := { s.down with pc := .reading x, lastAcked := s.down.bytesWritten } } := by
        simp only [step, downStep, hpc]
      exact hp.moves _ (fun s => s.down.pc) rfl h (by simp [hpc])
    | reading x =>
      -- An uncut stream is the newest, and so is this one.
      have hx := (hp.read hf hpc).2.1
      have hxlt := hl.receiver.holding x ⟨by rw [hpc]; rfl, .inr (.inl hpc)⟩
      have := hl.newest (by omega) hx
      rw [show x = sid by omega]
    | waiting =>
      rcases hhold.2 with h | h | h
      · rw [hpc] at h; cases h
      · rw [hpc] at h; cases h
      · obtain ⟨x, rest, hrx⟩ := List.exists_cons_of_ne_nil (List.ne_nil_of_mem h)
        have h : s.step (.down .resume) = some { s with down := { s.down with pc := .reading x, streamRx := rest } } := by
          simp only [step, downStep, hpc, hrx]
        exact hp.moves _ (fun s => s.down.pc) rfl h (by simp [hpc])
    | report i c => exact absurd hpc (hp.not_reporting i c)
    | exited =>
      have hrun := hhold.1
      rw [hpc] at hrun
      cases hrun
  have hread := hp.read hf hpc
  exact ⟨hpc, hread.1, hread.2.2⟩

end Parked

/-- A stream is at rest: the sender's tasks are parked, its client silent, the downlink has
    read what there is, and the older streams are gone. -/
structure AtRestOn (s : Transfer) (sid : Nat) : Prop where
  reader : s.reader = .read ∧ s.sock = [] ∧ s.closed = false
  fwd : s.fwd = .parked ∨ s.fwd = .exited
  woken : s.dataReady.woken = []
  pump : s.pump.pc = .select ∧ s.alloc = none ∧ s.cmds = []
  ack : s.ack = .parked .main ∧ s.ackRx = [] ∧ s.ackReader = .reading sid
  restore : s.restore = .idle
  opened : s.opened = sid + 1 ∧ s.nextAccept = sid + 1
  stream : (s.streams sid).up = [] ∧ (s.streams sid).upFin = false ∧ (s.streams sid).down = [] ∧
    (s.streams sid).downFin = false ∧ (s.streams sid).cut = false
  down : s.down.pc = .reading sid
  older : ∀ i < sid, (s.streams i).cut = true ∧ (s.streams i).downFin = true ∧ (s.streams i).stopped = true

instance (s : Transfer) (sid : Nat) : Decidable (AtRestOn s sid) :=
  decidable_of_iff
    ((s.reader = .read ∧ s.sock = [] ∧ s.closed = false) ∧ (s.fwd = .parked ∨ s.fwd = .exited) ∧ s.dataReady.woken = [] ∧
      (s.pump.pc = .select ∧ s.alloc = none ∧ s.cmds = []) ∧
      (s.ack = .parked .main ∧ s.ackRx = [] ∧ s.ackReader = .reading sid) ∧ s.restore = .idle ∧
      (s.opened = sid + 1 ∧ s.nextAccept = sid + 1) ∧
      ((s.streams sid).up = [] ∧ (s.streams sid).upFin = false ∧ (s.streams sid).down = [] ∧
        (s.streams sid).downFin = false ∧ (s.streams sid).cut = false) ∧ s.down.pc = .reading sid ∧
      ∀ i < sid, (s.streams i).cut = true ∧ (s.streams i).downFin = true ∧ (s.streams i).stopped = true)
    ⟨fun ⟨h1, h2, h3, h4, h5, h6, h7, h8, h9, h10⟩ => ⟨h1, h2, h3, h4, h5, h6, h7, h8, h9, h10⟩,
      fun ⟨h1, h2, h3, h4, h5, h6, h7, h8, h9, h10⟩ => ⟨h1, h2, h3, h4, h5, h6, h7, h8, h9, h10⟩⟩

theorem upFin_again {q : QStream} (h : q.upFin = true) : { q with upFin := true } = q := by
  cases q
  cases h
  rfl

theorem letGo_again {q : QStream} (hf : q.downFin = true) (hs : q.stopped = true) :
    { q with downFin := true, stopped := true } = q := by
  cases q
  cases hf
  cases hs
  rfl

theorem AtRestOn.parked {s : Transfer} {sid : Nat} (h : AtRestOn s sid) : Parked s := by
  obtain ⟨⟨hr, hsock, hc⟩, hf, hw, ⟨hpc, halloc, hcmds⟩, ⟨hack, hrx, hrd⟩, hres, ⟨ho, hn⟩, ⟨hup, hfin, hdown, hdf, hcut⟩,
    hd, hold⟩ := h
  intro a s' ha hs
  cases a with
  | reader a => cases readerStep_cases hs <;> simp_all [ownStep]
  | ticket a => cases ticketStep_cases hs <;> simp_all [ownStep]
  | pump a => cases pumpStep_cases hs <;> simp_all
  | ack a => cases ackStep_cases hs <;> simp_all [AckPc.selecting, QStream.downEnded]
  | link a =>
    cases linkStep_cases hs with
    | dropStream i hlt hh hlive =>
      by_cases he : i = sid
      · subst he
        simp [held, hrd] at hh
      · rw [(hold i (by omega)).1] at hlive
        cases hlive
    | _ => simp_all [ownStep]
  | down a =>
    cases downStep_cases hs with
    | dropStream i hlt hh =>
      by_cases he : i = sid
      · subst he
        simp [heldDown, hd] at hh
      · -- The receiver has let go of an older stream before.
        obtain ⟨_, hdf', hstop⟩ := hold i (by omega)
        rw [letGo_again hdf' hstop, Function.update_eq_self]
    | _ => simp_all [ownStep]

/-! ## The pump's FIN, and the reader's sentinel -/

def FinSent (s : Transfer) : Prop := s.pump.done = true → (s.streams s.pump.quicTx).upFin = true

theorem step_upFin {s s' : Transfer} {a : Act} (hl : Streams s) {i : Nat} (hf : (s.streams i).upFin = true)
    (h : s.step a = some s') : (s'.streams i).upFin = true := by
  cases a with
  | reader a => cases readerStep_cases h <;> exact hf
  | ticket a => cases ticketStep_cases h <;> exact hf
  | pump a =>
    cases pumpStep_cases h with
    | linkUp | write => exact of_update (P := (·.upFin = true)) hf fun h => h
    | drainFin | postFin => exact of_update (P := (·.upFin = true)) hf fun _ => rfl
    | _ => exact hf
  | ack a =>
    cases ackStep_cases h with
    | readMsgClosed | readAck | readLast => exact of_update (P := (·.upFin = true)) hf fun h => h
    | _ => exact hf
  | link a =>
    cases linkStep_cases h with
    | outage => exact of_update (P := (·.upFin = true)) hf fun h => h
    | restoreOpen =>
      refine of_update (P := (·.upFin = true)) hf fun h => ?_
      rw [hl.unused _ (Nat.le_refl _)] at h
      cases h
    | dropStream => exact of_update (P := (·.upFin = true)) hf fun _ => rfl
    | _ => exact hf
  | down a =>
    cases downStep_cases h with
    | acceptConnect | acceptReconnect | acceptRefused | tcpAcceptFail | duplicate | gap | write | writeAck | writeFail
    | eof | dropStream => exact of_update (P := (·.upFin = true)) hf fun h => h
    | _ => exact hf

theorem step_finSent {s s' : Transfer} {a : Act} (hi : FinSent s) (hl : Living s) (h : s.step a = some s') :
    FinSent s' := by
  have keep : s.pump.done = true → (s'.streams s.pump.quicTx).upFin = true :=
    fun hd => step_upFin hl.streams (hi hd) h
  cases a with
  | reader a => cases readerStep_cases h <;> exact keep
  | ticket a => cases ticketStep_cases h <;> exact keep
  | pump a =>
    cases pumpStep_cases h with
    | linkUp hpc =>
      intro hd
      have := (hl.sound.finished hd).1
      rw [hpc] at this
      simp at this
    | drainFin | postFin =>
      intro _
      show (Function.update s.streams s.pump.quicTx _ s.pump.quicTx).upFin = true
      rw [Function.update_self]
    | _ => exact keep
  | ack a => cases ackStep_cases h <;> exact keep
  | link a => cases linkStep_cases h <;> exact keep
  | down a => cases downStep_cases h <;> exact keep

/-- The client connects. -/
def connects : Act → Prop
  | .reader .acceptFail => False
  | _ => True

instance (a : Act) : Decidable (connects a) := by
  induction a using Act.casesOn with
  | reader a => induction a using ReaderAct.casesOn <;> dsimp only [connects] <;> infer_instance
  | _ => exact instDecidableTrue

/-- A reader that has ended, or is about to, has marked the spool. -/
def Marked (s : Transfer) : Prop := pushing s.reader = false → s.spool.atEof = true

theorem step_marked {s s' : Transfer} {a : Act} (hi : Marked s) (hok : connects a) (h : s.step a = some s') :
    Marked s' := by
  cases a with
  | reader a =>
    cases readerStep_cases h with
    | acceptFail => exact absurd hok id
    | eof | failedEof => exact fun _ => rfl
    | eofAgain _ _ _ he | failedEofAgain _ he => exact fun _ => he
    | @store head last hr => exact fun hp => hi (by rw [hr]; exact hp)
    | @notify last hr =>
      intro hp
      refine hi ?_
      rw [hr]
      cases last with
      | true => rfl
      | false => cases hp
    | clientWrite | clientClose => exact hi
    | _ => exact nofun
  | ticket a => cases ticketStep_cases h <;> exact hi
  | pump a => cases pumpStep_cases h <;> exact hi
  | ack a =>
    cases ackStep_cases h with
    | ackNew | ackOld =>
      intro hp
      rw [atEof_ack]
      exact hi hp
    | _ => exact hi
  | link a => cases linkStep_cases h <;> exact hi
  | down a => cases downStep_cases h <;> exact hi

/-- What a run keeps whose client connects, in which the forwarder takes no notification
    from the ack task and few acks are lost. -/
structure Steady (s : Transfer) : Prop where
  signalled : Signalled s
  flowing : Flowing s
  framed : Framed s
  finSent : FinSent s
  marked : Marked s

theorem init_steady (capped : Bool) : Steady (init capped) :=
  ⟨init_signalled capped, init_flowing capped, init_framed capped, nofun, nofun⟩

theorem step_steady {s s' : Transfer} {a : Act} (hi : Steady s) (hconn : connects a) (hfwd : forwarderSpares s a)
    (hfew : fewAcksLost s a) (h : s.step a = some s') : Steady s' :=
  ⟨step_signalled hi.signalled hfwd h, step_flowing hi.flowing hfew h, step_framed hi.framed hi.flowing.living h,
    step_finSent hi.finSent hi.flowing.living h, step_marked hi.marked hconn h⟩

/-! ## A transfer at rest on a live stream -/

section Rest

variable {s : Transfer} (hp : Parked s)

include hp

/-- The pump rests on the ack task's stream with nothing left to send. -/
theorem Parked.quiescent (hst : Steady s) (hx : s.ack ≠ .exited) (hm : mode s.ack = .main)
    (hpc : s.pump.pc = .select) (htx : s.pump.quicTx = s.current) (hq : s.pushed.length ≤ s.pump.q) : Quiescent s := by
  have hl := hst.flowing.living
  obtain ⟨hack, hrx, hdown, hcut, hopen⟩ := hp.onStream hl hst.signalled.asked hx hm
  obtain ⟨hreading, hup, _⟩ := hp.downlink hl hst.framed hl.sound.lane.currentLt hcut hopen
  refine ⟨hcut, htx, ?_, hreading, hup, by simp [hdown], by simp [hrx], by simp [hack]⟩
  have := hl.sound.bytes.pumpOk.head (by simp [running, hpc])
  rw [hl.sound.bytes.holds.headOffset]
  omega

/-- Then the client's socket is still open. -/
theorem Parked.not_closed (hst : Steady s) (hx : s.ack ≠ .exited) (hm : mode s.ack = .main)
    (hpc : s.pump.pc = .select) (htx : s.pump.quicTx = s.current) (hq : s.pushed.length ≤ s.pump.q) :
    s.closed = false := by
  have hquiet := hp.quiescent hst hx hm hpc htx hq
  obtain ⟨hs, hf, -, -, hmark⟩ := hst
  obtain ⟨hack, hrx, hdown, hcut, hopen⟩ := hp.onStream hf.living hs.asked hx hm
  have hcmds := hp.cmds hs.asked
  rcases hp.reader with hexit | ⟨hspace, hnot⟩ | ⟨_, _, hc⟩
  · -- The sentinel is there; if the ack task has not asked the pump to finish it will
    -- check again, and if it has the pump has finished.
    have heof := hmark (by rw [hexit]; rfl)
    cases hsent : s.finishSent with
    | false =>
      rcases hs.noted ⟨heof, hsent, hx⟩ with h | h | h | h | h | h | h
      · rw [hexit] at h
        cases h
      · exact absurd h (hp.no_notification hs.asked hs.queued hx)
      · rw [hack] at h
        cases h
      · exact absurd hrx h
      · exact absurd hdown h
      · rw [hcut] at h
        cases h
      · rw [hopen] at h
        cases h
    | true =>
      have hasking : asking s.ack = false := by rw [hack]; rfl
      have hfinish : s.pump.finishing = true := by
        rcases hs.asked.asked hsent with h | h | h | h
        · exact h
        · rw [hcmds] at h
          cases h
        · rw [hasking] at h
          cases h
        · rw [hpc] at h
          cases h
      rcases hs.asked.rested (by rw [hpc]; rfl) hfinish heof hq with (h | h) | h
      · rw [hsent] at h
        cases h
      · rw [hasking] at h
        cases h
      · rw [hcmds] at h
        cases h
  · exact absurd ((hquiet.frees_space hf).2 hspace) hnot
  · exact hc

/-- A pump that has ended and left the ack task running has sent FIN on its stream, which
    is not the one the receiver waits on. -/
theorem Parked.not_ended (hst : Steady s) (hx : s.ack ≠ .exited) (hm : mode s.ack = .main)
    (hexit : s.pump.pc = .exited) : s.pump.done = true ∧ s.pump.quicTx ≠ s.current := by
  have hl := hst.flowing.living
  have hd : s.pump.done = true := by
    by_contra hd
    exact hx (hst.flowing.abandoned hexit (by simpa using hd)).1
  refine ⟨hd, fun htx => ?_⟩
  obtain ⟨_, _, _, hcut, hopen⟩ := hp.onStream hl hst.signalled.asked hx hm
  obtain ⟨_, _, hnofin⟩ := hp.downlink hl hst.framed hl.sound.lane.currentLt hcut hopen
  have := hst.finSent hd
  rw [htx, hnofin] at this
  cases this

end Rest

end Quelay.Agent.Transfer
