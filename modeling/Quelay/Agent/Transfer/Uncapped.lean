/-
  Quelay.Agent.Transfer.Uncapped — wake-ups in uncapped mode.

  `data_ready` is awaited by the forwarder, which needs it to send the pump a ticket, and
  by the ack task, which needs it to ask the pump to finish. A notification goes to one of
  them, so each can take the other's; and the rewind to a fresh stream sends none. As long
  as no notification is taken from the task that needs it and a rewind has one to follow,
  unsent bytes always have a ticket on the way (`Fed`), and no state in which every task
  waits has anything left to do (`no_lost_wakeup`).
-/

import Quelay.Agent.Transfer.Parked

namespace Quelay.Agent.Transfer

open Quelay.Lib

/-! ## Tickets without a limit -/

/-- The pump works on a ticket of limited size. -/
def limited : PumpPc → Bool
  | .drain (.bytes _) | .write (.bytes _) _ | .store (.drain (.bytes _)) => true
  | _ => false

structure UnlimitedOf (capped : Bool) (timer : TimerPc) (alloc : Option Budget) (pump : StreamPump) (pushed : List UInt8) :
    Prop where
  uncapped : capped = false
  timer : timer = .idle
  ticket : ∀ t, alloc = some t → t = .unlimited
  pump : limited pump.pc = true → pushed.length ≤ pump.q

/-- Only `Finish`, with nothing left to send, gives the pump a limited ticket. -/
def Unlimited (s : Transfer) : Prop := UnlimitedOf s.capped s.timer s.alloc s.pump s.pushed ∧
  (limited s.pump.pc = true → s.spool.atEof = true)

theorem init_unlimited : Unlimited (init false) := ⟨⟨rfl, rfl, nofun, nofun⟩, nofun⟩

theorem step_unlimited {s s' : Transfer} {a : Act} (hi : Unlimited s) (hs : Announced s) (h : s.step a = some s') :
    Unlimited s' := by
  have hhead := hs.living.sound.bytes.holds.headOffset
  obtain ⟨hu, he⟩ := hi
  cases a with
  | reader a =>
    cases readerStep_cases h with
    | read n hr =>
      have hnot := hs.living.sound.notMarked (by rw [hr]; rfl)
      have hno : limited s.pump.pc = true → False := fun hl => by rw [he hl] at hnot; cases hnot
      exact ⟨⟨hu.uncapped, hu.timer, hu.ticket, fun hl => (hno hl).elim⟩, fun hl => (hno hl).elim⟩
    | eof | failedEof => exact ⟨hu, fun _ => rfl⟩
    | _ => exact ⟨hu, he⟩
  | ticket a =>
    cases ticketStep_cases h with
    | send => exact ⟨⟨hu.uncapped, hu.timer, fun t ht => by cases ht; rfl, hu.pump⟩, he⟩
    | timerHead hc => rw [hu.uncapped] at hc; cases hc
    | timerSome ht | timerNone ht | timerSend _ ht | timerRefused _ ht => rw [hu.timer] at ht; cases ht
    | _ => exact ⟨hu, he⟩
  | pump a =>
    cases pumpStep_cases h with
    | ticket hpc ha =>
      have := hu.ticket _ ha
      subst this
      exact ⟨⟨hu.uncapped, hu.timer, nofun, nofun⟩, nofun⟩
    | finishDrained hpc hc hq =>
      have heof := hs.asked.eof (.inr (.inl (by rw [hc]; exact List.mem_cons_self)))
      exact ⟨⟨hu.uncapped, hu.timer, hu.ticket, fun _ => hhead ▸ hq⟩, fun _ => heof⟩
    | @drainChunk rem chunk _ hpc _ hq =>
      have hno : limited (.write rem chunk) = true → False := by
        intro hl
        have := hu.pump (by rw [hpc]; cases rem <;> first | rfl | cases hl)
        omega
      exact ⟨⟨hu.uncapped, hu.timer, hu.ticket, fun hl => (hno hl).elim⟩, fun hl => (hno hl).elim⟩
    | @write rem chunk hpc =>
      have hl' : limited (.store (.drain (rem.spend chunk.length))) = true → limited s.pump.pc = true := by
        rw [hpc]
        cases rem <;> exact fun h => h
      exact ⟨⟨hu.uncapped, hu.timer, hu.ticket, fun hl => Nat.le_add_right_of_le (hu.pump (hl' hl))⟩,
        fun hl => he (hl' hl)⟩
    | @store next hpc =>
      have hl' : limited next.pc = true → limited s.pump.pc = true := by
        rw [hpc]
        cases next with
        | drain rem => cases rem <;> exact fun h => h
        | select => exact fun h => h
        | waitUp => exact fun h => h
      exact ⟨⟨hu.uncapped, hu.timer, hu.ticket, fun hl => hu.pump (hl' hl)⟩, fun hl => he (hl' hl)⟩
    | postFin | postDone | closed => exact ⟨⟨hu.uncapped, hu.timer, nofun, nofun⟩, nofun⟩
    | discard => exact ⟨⟨hu.uncapped, hu.timer, nofun, hu.pump⟩, he⟩
    | linkUpIgnored => exact ⟨hu, he⟩
    | finishWaiting hpc =>
      have hno : limited s.pump.pc = false := by rw [hpc]; rfl
      exact ⟨⟨hu.uncapped, hu.timer, hu.ticket, fun hl => by rw [hno] at hl; cases hl⟩, fun hl => by rw [hno] at hl; cases hl⟩
    | _ => exact ⟨⟨hu.uncapped, hu.timer, hu.ticket, nofun⟩, nofun⟩
  | ack a =>
    cases ackStep_cases h with
    | ackNew | ackOld => exact ⟨hu, fun hl => (atEof_ack ..).trans (he hl)⟩
    | _ => exact ⟨hu, he⟩
  | link a => cases linkStep_cases h <;> exact ⟨hu, he⟩
  | down a => cases downStep_cases h <;> exact ⟨hu, he⟩

/-! ## What the forwarder sees -/

structure BehindOf (pump : StreamPump) (qAtomic acked : Nat) (pushed : List UInt8) : Prop where
  waiting : pump.pc = .waitUp ∨ pump.pc = .store .waitUp → pump.q ≤ acked ∨ pump.q < pushed.length
  resumed : pump.pc = .store .select → qAtomic ≤ pump.q ∨ qAtomic < pushed.length

/-- A pump that waits is not past what it will resume from, or has more to send; so
    `q_atomic` does not hide what the resumed pump has to send. -/
def Behind (s : Transfer) : Prop := BehindOf s.pump s.qAtomic s.spool.bytesAcked s.pushed

theorem BehindOf.grow {pump : StreamPump} {qAtomic acked acked' : Nat} {pushed pushed' : List UInt8}
    (hi : BehindOf pump qAtomic acked pushed) (ha : acked ≤ acked') (hp : pushed.length ≤ pushed'.length) :
    BehindOf pump qAtomic acked' pushed' := by
  refine ⟨fun hw => ?_, fun hr => ?_⟩
  · rcases hi.waiting hw with h | h
    · exact .inl (Nat.le_trans h ha)
    · exact .inr (Nat.lt_of_lt_of_le h hp)
  · rcases hi.resumed hr with h | h
    · exact .inl h
    · exact .inr (Nat.lt_of_lt_of_le h hp)

theorem BehindOf.runs {pump : StreamPump} {qAtomic acked : Nat} {pushed : List UInt8}
    (hw : pump.pc ≠ .waitUp) (hs : ∀ next, pump.pc ≠ .store next ∨ ∃ rem, next = .drain rem) :
    BehindOf pump qAtomic acked pushed := by
  refine ⟨fun h => ?_, fun h => ?_⟩
  · rcases h with h | h
    · exact absurd h hw
    · rcases hs .waitUp with h' | ⟨_, h'⟩
      · exact absurd h h'
      · cases h'
  · rcases hs .select with h' | ⟨_, h'⟩
    · exact absurd h h'
    · cases h'

theorem step_behind {s s' : Transfer} {a : Act} (hi : Behind s) (hs : Announced s) (h : s.step a = some s') :
    Behind s' := by
  have hb := hs.living.sound.bytes
  cases a with
  | reader a =>
    cases readerStep_cases h with
    | read => exact hi.grow (Nat.le_refl _) (by simp)
    | _ => exact hi
  | ticket a => cases ticketStep_cases h <;> exact hi
  | pump a =>
    cases pumpStep_cases h with
    | linkDown => exact ⟨fun _ => .inl (Nat.le_refl _), (by simp)⟩
    | linkUp hpc =>
      refine ⟨fun h => (by rcases h with h | h <;> cases h), fun _ => ?_⟩
      -- In the wait `q_atomic` is the pump's old position.
      have hst := hs.stored
      simp only [Stored, StoredOf, hpc] at hst
      show s.qAtomic ≤ s.spool.bytesAcked ∨ s.qAtomic < s.pushed.length
      rw [hst]
      exact hi.waiting (.inl hpc)
    | finishWaiting hpc => exact ⟨fun _ => hi.waiting (.inl hpc), fun h => absurd (hpc.symm.trans h) (by simp)⟩
    | writeFail hpc =>
      refine ⟨fun _ => .inr ?_, (by simp)⟩
      obtain ⟨hne, hpre⟩ := hb.pumpOk.chunk _ _ hpc
      have := length_le_of_prefix_drop hpre hne
      have := List.length_pos_iff.mpr hne
      show s.pump.q < s.pushed.length
      omega
    | @store next hpc =>
      cases next with
      | drain | select => exact .runs (by simp [AfterStore.pc]) fun _ => .inl (by simp [AfterStore.pc])
      | waitUp => exact ⟨fun _ => hi.waiting (.inr hpc), (by simp)⟩
    | linkUpIgnored | discard => exact hi
    | write => exact ⟨fun h => (by rcases h with h | h <;> cases h), (by simp)⟩
    | _ => exact .runs (by simp) fun _ => .inl (by simp)
  | ack a =>
    cases ackStep_cases h with
    | ackNew _ hrx | ackOld _ hrx =>
      have hin := hb.inbox _ (by rw [hrx]; exact List.mem_cons_self)
      have hA := SpoolBuffer.ack_bytesAcked hb.holds (Nat.le_trans hin hb.outOk.le)
      refine hi.grow ?_ (Nat.le_refl _)
      rw [hA]
      exact Nat.le_max_left ..
    | _ => exact hi
  | link a => cases linkStep_cases h <;> exact hi
  | down a => cases downStep_cases h <;> exact hi

/-- The pump has bytes to send, and the stream to send them on. -/
def Unsent (s : Transfer) : Prop := running s.pump = true ∧ s.pump.q < s.pushed.length

instance (s : Transfer) : Decidable (Unsent s) := inferInstanceAs (Decidable (_ ∧ _))

/-- The forwarder finds them. -/
theorem Unsent.seen {s : Transfer} (hu : Unsent s) (hi : Behind s) (hs : Stored s) : s.qAtomic < s.pushed.length := by
  obtain ⟨hr, hq⟩ := hu
  unfold Stored StoredOf at hs
  split at hs
  · omega
  · rename_i next hno hpc
    cases next with
    | drain rem => exact absurd rfl (hno rem)
    | select =>
      have := hi.resumed hpc
      omega
    | waitUp => rw [running, hpc] at hr; cases hr
  · omega

/-! ## A ticket on the way -/

def draining : PumpPc → Bool
  | .drain .unlimited | .write .unlimited _ | .store (.drain .unlimited) => true
  | _ => false

/-- A notification is to come or to be taken, the forwarder is at work on one, or there is
    a ticket, or the pump works on it. -/
def SendingOf (reader : ReaderPc) (dataReady : Notify Waiter) (fwd : FwdPc) (alloc : Option Budget) (pc : PumpPc) : Prop :=
  announcing reader = true ∨ dataReady.Pending ∨ fwd = .check ∨ fwd = .send ∨ alloc ≠ none ∨ draining pc = true

instance (reader : ReaderPc) (dataReady : Notify Waiter) (fwd : FwdPc) (alloc : Option Budget) (pc : PumpPc) :
    Decidable (SendingOf reader dataReady fwd alloc pc) :=
  inferInstanceAs (Decidable (_ ∨ _ ∨ _ ∨ _ ∨ _ ∨ _))

def Sending (s : Transfer) : Prop := SendingOf s.reader s.dataReady s.fwd s.alloc s.pump.pc

instance (s : Transfer) : Decidable (Sending s) := inferInstanceAs (Decidable (SendingOf ..))

/-- Unsent bytes have a ticket on the way. -/
def Fed (s : Transfer) : Prop := Unsent s → Sending s

/-- The ack task takes a notification only if the forwarder can do without it. -/
def ackTaskSpares (s : Transfer) : Act → Prop
  | .ack .poll => s.dataReady.permit = true → Unsent s → SendingOf s.reader s.dataReady.take s.fwd s.alloc s.pump.pc
  | .ack .wake => Unsent s → SendingOf s.reader (s.dataReady.resume .ackTask) s.fwd s.alloc s.pump.pc
  | _ => True

instance (s : Transfer) (a : Act) : Decidable (ackTaskSpares s a) := by
  unfold ackTaskSpares
  split <;> infer_instance

/-- The pump resumes with bytes to replay only if a ticket is on the way. -/
def resumesFed (s : Transfer) : Act → Prop
  | .pump .cmd => s.pump.pc = .waitUp → (∃ sid ∈ linkUps s.cmds, s.cmds.head? = some (.linkUp sid)) →
      s.spool.bytesAcked < s.spool.headOffset → Sending s
  | _ => True

instance (s : Transfer) (a : Act) : Decidable (resumesFed s a) := by
  induction a using Act.casesOn with
  | pump a => induction a using PumpAct.casesOn <;> dsimp only [resumesFed] <;> infer_instance
  | _ => exact instDecidableTrue

variable {reader : ReaderPc} {dataReady : Notify Waiter} {fwd : FwdPc} {alloc : Option Budget} {pc : PumpPc}

theorem SendingOf.moveReader (h : SendingOf reader dataReady fwd alloc pc) (hr : announcing reader = false)
    (reader' : ReaderPc) : SendingOf reader' dataReady fwd alloc pc := by
  rcases h with h | h
  · rw [hr] at h
    cases h
  · exact .inr h

theorem SendingOf.notify (h : SendingOf reader dataReady fwd alloc pc) {dataReady' : Notify Waiter}
    (hn : dataReady.Pending → dataReady'.Pending) : SendingOf reader dataReady' fwd alloc pc :=
  h.imp_right (.imp_left hn)

/-- The pump leaves a place where it had no ticket. -/
theorem SendingOf.movePump (h : SendingOf reader dataReady fwd alloc pc) (hd : draining pc = false) (pc' : PumpPc) :
    SendingOf reader dataReady fwd alloc pc' := by
  rcases h with h | h | h | h | h | h
  · exact .inl h
  · exact .inr (.inl h)
  · exact .inr (.inr (.inl h))
  · exact .inr (.inr (.inr (.inl h)))
  · exact .inr (.inr (.inr (.inr (.inl h))))
  · rw [hd] at h
    cases h

theorem unpark_pending {s : Transfer} (h : s.dataReady.Pending) : s.unpark.Pending := by
  unfold Transfer.unpark
  split
  · exact h.cancel _
  · exact h

theorem reader_fed {s s' : Transfer} {a : ReaderAct} (hi : Fed s) (h : ReaderCase s a s') : Fed s' := by
  cases h with
  | read | eof | failedEof | store => exact fun _ => .inl rfl
  | notify => exact fun _ => .inr (.inl (Notify.notifyOne_pending _))
  | clientWrite | clientClose => exact hi
  | accept hr | acceptFail hr | spaceNone hr | spaceOk hr | spacePermit hr | spacePark hr | spaceWake hr | eofAgain hr
  | readFail hr | failedEofAgain hr =>
    exact fun hu => (hi hu).moveReader (by rw [hr]; rfl) _

theorem ticket_fed {s s' : Transfer} {a : TicketAct} (hi : Fed s) (hs : Announced s) (hb : Behind s) (hlim : Unlimited s)
    (h : TicketCase s a s') : Fed s' := by
  have hhead := hs.living.sound.bytes.holds.headOffset
  cases h with
  | pollPermit | wake => exact fun _ => .inr (.inr (.inl rfl))
  | pollPark hf =>
    intro hu
    rcases hi hu with h | h | h | h | h
    · exact .inl h
    · exact .inr (.inl h)
    · rw [hf] at h
      cases h
    · rw [hf] at h
      cases h
    · exact .inr (.inr (.inr (.inr h)))
  | checkSome => exact fun _ => .inr (.inr (.inr (.inl rfl)))
  | checkNone _ hq =>
    intro hu
    have hseen := Unsent.seen (s := s) hu hb hs.stored
    rw [hhead] at hq
    omega
  | sendClosed _ hx =>
    intro hu
    have hd : s.pump.done = true := by have := hu.1; rwa [running, hx] at this
    have hq := (hs.living.sound.finished hd).2.2
    have hlt : s.pump.q < s.pushed.length := hu.2
    omega
  | send => exact fun _ => .inr (.inr (.inr (.inr (.inl (by simp)))))
  | timerHead hc =>
    rw [hlim.1.uncapped] at hc
    cases hc
  | timerSome ht | timerNone ht | timerSend _ ht | timerRefused _ ht =>
    rw [hlim.1.timer] at ht
    cases ht

theorem pump_fed {s s' : Transfer} {a : PumpAct} (hi : Fed s) (hs : Announced s) (hlim : Unlimited s)
    (hok : resumesFed s (.pump a)) (h : PumpCase s a s') : Fed s' := by
  have hb := hs.living.sound.bytes
  have hhead := hb.holds.headOffset
  -- A limited ticket is not at work while there are bytes to send.
  have hlimited : limited s.pump.pc = true → ¬ s.pump.q < s.pushed.length := by
    intro hl
    have := hlim.1.pump hl
    omega
  cases h with
  | ticket hpc ha =>
    rw [hlim.1.ticket _ ha]
    exact fun _ => .inr (.inr (.inr (.inr (.inr rfl))))
  | linkDown | writeFail => exact fun hu => by cases hu.1
  | linkUpIgnored => exact hi
  | @linkUp sid cmds hpc hc =>
    intro hu
    have hlt : s.spool.bytesAcked < s.spool.headOffset := by rw [hhead]; exact hu.2
    have hsend := hok hpc ⟨sid, by rw [hc]; exact List.mem_cons_self, by rw [hc]; rfl⟩ hlt
    exact hsend.movePump (by rw [hpc]; rfl) _
  | finishDrained _ _ hq | drainFin _ _ _ _ hq | drainNone _ _ _ _ hq | postFin _ _ _ hq =>
    intro hu
    have hlt : s.pump.q < s.pushed.length := hu.2
    omega
  | finishBacklog hpc _ hq =>
    intro hu
    exact (hi ⟨by rw [running, hpc], hu.2⟩).movePump (by rw [hpc]; rfl) _
  | finishWaiting hpc | discard hpc =>
    intro hu
    have hr : running s.pump = true := hu.1
    rw [running, hpc] at hr
    cases hr
  | @drainSpent rem _ hpc hz =>
    intro hu
    cases rem with
    | bytes => exact absurd hu.2 (hlimited (by rw [hpc]; rfl))
    | unlimited => cases hz
  | @drainEmpty rem split hpc _ hq hempty =>
    intro hu
    cases rem with
    | bytes => exact absurd hu.2 (hlimited (by rw [hpc]; rfl))
    | unlimited =>
      rw [hhead] at hq
      have hne := (hb.holds.sliceFrom (hb.pumpOk.acked (by rw [running, hpc])) hq split).2
      have hpos : 0 < (s.spool.sliceFrom split s.pump.q).length := List.length_pos_iff.mpr hne
      have hlen := congrArg List.length hempty
      simp only [Budget.clip, List.length_take, List.length_nil, chunkSize] at hlen
      omega
  | @drainChunk rem chunk split hpc _ hq =>
    intro hu
    cases rem with
    | bytes => exact absurd hu.2 (hlimited (by rw [hpc]; rfl))
    | unlimited => exact .inr (.inr (.inr (.inr (.inr rfl))))
  | @write rem chunk hpc =>
    intro hu
    cases rem with
    | bytes =>
      have := hlimited (by rw [hpc]; rfl)
      have hlt : s.pump.q + chunk.length < s.pushed.length := hu.2
      omega
    | unlimited => exact .inr (.inr (.inr (.inr (.inr rfl))))
  | @store next hpc =>
    intro hu
    cases next with
    | drain rem =>
      cases rem with
      | bytes => exact absurd hu.2 (hlimited (by rw [hpc]; rfl))
      | unlimited => exact .inr (.inr (.inr (.inr (.inr rfl))))
    | select => exact (hi ⟨by rw [running, hpc], hu.2⟩).movePump (by rw [hpc]; rfl) _
    | waitUp => cases hu.1
  | postDone _ hd =>
    intro hu
    have hq := (hs.living.sound.finished hd).2.2
    have hlt : s.pump.q < s.pushed.length := hu.2
    omega
  | closed =>
    intro hu
    have hd : s.pump.done = true := hu.1
    have hq := (hs.living.sound.finished hd).2.2
    have hlt : s.pump.q < s.pushed.length := hu.2
    omega
  | post hpc =>
    intro hu
    exact (hi ⟨by rw [running, hpc], hu.2⟩).movePump (by rw [hpc]; rfl) _

theorem ack_fed {s s' : Transfer} {a : AckAct} (hi : Fed s) (hok : ackTaskSpares s (.ack a)) (h : AckCase s a s') :
    Fed s' := by
  cases h with
  | pollPermit _ _ hp => exact fun hu => hok hp hu
  | wake => exact fun hu => hok hu
  | pollPark => exact fun hu => (hi hu).notify fun h => h
  | ackNew | ackOld | done | error | streamError | streamErrorDropped | gone | goneFail | stream | streamReaderGone
  | noStream | linkUpFail =>
    exact fun hu => (hi hu).notify unpark_pending
  | _ => exact hi

theorem step_fed {s s' : Transfer} {a : Act} (hi : Fed s) (hs : Announced s) (hb : Behind s) (hlim : Unlimited s)
    (hack : ackTaskSpares s a) (hres : resumesFed s a) (h : s.step a = some s') : Fed s' := by
  cases a with
  | reader a => exact reader_fed hi (readerStep_cases h)
  | ticket a => exact ticket_fed hi hs hb hlim (ticketStep_cases h)
  | pump a => exact pump_fed hi hs hlim hres (pumpStep_cases h)
  | ack a => exact ack_fed hi hack (ackStep_cases h)
  | link a => cases linkStep_cases h <;> exact hi
  | down a => cases downStep_cases h <;> exact hi

/-! ## Every run -/

/-- The client connects; neither of the two tasks takes a notification that the other
    needs; the pump resumes only with a ticket on the way, takes every stream that it is
    given, and does not end with one in its channel; and few acks are lost. -/
def keepsWakeups (s : Transfer) (a : Act) : Prop :=
  connects a ∧ ackTaskSpares s a ∧ forwarderSpares s a ∧ resumesFed s a ∧ takesLinkUp s a ∧ endsEmpty s a ∧ fewAcksLost s a

instance (s : Transfer) (a : Act) : Decidable (keepsWakeups s a) :=
  inferInstanceAs (Decidable (_ ∧ _ ∧ _ ∧ _ ∧ _ ∧ _ ∧ _))

structure Watched (s : Transfer) : Prop where
  steady : Steady s
  handed : Handed s
  recalled : Recalled s
  unlimited : Unlimited s
  behind : Behind s
  fed : Fed s

theorem reach_watched {s : Transfer} (h : Reach step keepsWakeups (init false) s) : Watched s := by
  have hfed : Fed (init false) := fun hu => absurd hu.2 (Nat.lt_irrefl 0)
  refine h.invariant
    ⟨init_steady false, init_handed false, nofun, init_unlimited, .runs nofun fun _ => .inl nofun, hfed⟩ ?_
  intro s s' a hi ⟨hconn, hack, hfwd, hres, htake, hend, hfew⟩ hs
  have hl := hi.steady.flowing.living
  have hann := hi.steady.signalled.announced
  exact ⟨step_steady hi.steady hconn hfwd hfew hs, step_handed hi.handed hl.sound htake (linkUps_of_endsEmpty hend) hs,
    step_recalled hi.recalled hi.handed hl hs, step_unlimited hi.unlimited hann hs, step_behind hi.behind hann hs,
    step_fed hi.fed hann hi.behind hi.unlimited hack hres hs⟩

/-- The ack task runs on a live stream, and `link_enable(false)` is not about to close the
    session. -/
structure LinkUp (s : Transfer) : Prop where
  running : s.ack ≠ .exited
  closing : s.closing = false
  live : (s.streams s.current).cut = false
  open_ : (s.streams s.current).downFin = false

theorem LinkUp.main {s : Transfer} (hup : LinkUp s) (hl : Living s) : mode s.ack = .main := by
  by_contra hm
  have hend := (ended_of_reconnect hl.sound.inbox hl.feedback hup.running hm).2.2.2
  simp [QStream.downEnded, hup.live, hup.open_] at hend

/-- A pump that waits is not forgotten on a live link. -/
theorem Parked.not_waiting {s : Transfer} (hp : Parked s) (hs : Announced s) (hf : Framed s) (hr : Recalled s)
    (hup : LinkUp s) : s.pump.pc ≠ .waitUp := by
  intro hpc
  have hl := hs.living
  have hm := hup.main hl
  have hack := (hp.onStream hl hs.asked hup.running hm).1
  obtain ⟨hreading, _, _⟩ := hp.downlink hl hf hl.sound.lane.currentLt hup.live hup.open_
  have hhold : Holding s.down s.current := ⟨by rw [hreading]; rfl, .inr (.inl hreading)⟩
  rcases hr (by rw [hpc]; simp) (by rw [hpc, hp.cmds hs.asked]; rfl) with (h | h | h) | h | h | h | h
  · rw [hup.live] at h
    cases h
  · rw [hhold.stopped hl.receiver] at h
    cases h
  · rw [hup.open_] at h
    cases h
  · rw [hup.closing] at h
    cases h
  · exact absurd hm h
  · exact absurd (by rw [hack]; rfl) h
  · exact absurd h hup.running

/-- A pump at rest on a live link, with no ticket on the way, has sent everything. -/
theorem Parked.fed {s : Transfer} (hp : Parked s) (hs : Announced s) (hf : Fed s) (hx : s.ack ≠ .exited)
    (hpc : s.pump.pc = .select) : s.pushed.length ≤ s.pump.q := by
  by_contra hlt
  rcases hf ⟨by rw [running, hpc], by omega⟩ with h | h | h | h | h | h
  · rcases hp.reader with hr | ⟨hr, _⟩ | ⟨hr, _⟩ <;> · rw [hr] at h; cases h
  · exact hp.no_notification hs.asked hs.queued hx h
  · rcases hp.forwarder with hf | ⟨hf, _⟩ <;> · rw [hf] at h; cases h
  · rcases hp.forwarder with hf | ⟨hf, _⟩ <;> · rw [hf] at h; cases h
  · exact h (hp.pump (by rw [hpc]; simp)).2.1
  · rw [hpc] at h
    cases h

/-- With the link up and every task waiting, everything has been sent, and FIN too if the
    client has closed. -/
theorem no_lost_wakeup {s : Transfer} (h : Reach step keepsWakeups (init false) s) (hp : Parked s) (hup : LinkUp s) :
    s.spool.headOffset ≤ s.pump.q ∧ (s.closed = true → (s.streams s.current).upFin = true) := by
  have hw := reach_watched h
  have hst := hw.steady
  have hl := hst.flowing.living
  have hm := hup.main hl
  have hack := (hp.onStream hl hst.signalled.asked hup.running hm).1
  have hpend : pendingUp s.ack = [] := by rw [hack]; rfl
  have hcmds := hp.cmds hst.signalled.asked
  by_cases hx : s.pump.pc = .exited
  · obtain ⟨hd, hne⟩ := hp.not_ended hst hup.running hm hx
    exact absurd (hw.handed.ended hx hd hup.running hpend) hne
  · have htx : s.pump.quicTx = s.current := by
      have hlast := hw.handed.last hx
      rw [hcmds, hpend] at hlast
      simpa using hlast
    rcases (hp.pump hx).1 with hpc | hpc
    · have hq := hp.fed hst.signalled.announced hw.fed hup.running hpc
      have hc := hp.not_closed hst hup.running hm hpc htx hq
      refine ⟨by rw [hl.sound.bytes.holds.headOffset]; exact hq, fun hclosed => ?_⟩
      rw [hc] at hclosed
      cases hclosed
    · exact absurd hpc (hp.not_waiting hst.signalled.announced hst.framed hw.recalled hup)

/-- The forwarder is parked first, then the ack task. -/
def forwarderFirst : List Act := [.ack .check, .ticket .poll, .ack .poll]

/-- The forwarder is woken, and the pump sends what there is. -/
def forwardAndSend : List Act :=
  [.ticket .wake, .ticket .check, .ticket .send, .ticket .poll, .pump .ticket] ++ sendChunk

/-- Two bytes go out, and every task waits again. -/
theorem sent_and_parked :
    ∃ s, Reach step keepsWakeups (init false) s ∧ s.pushed = [1, 2] ∧ Parked s ∧ LinkUp s ∧
      s.spool.headOffset ≤ s.pump.q := by
  obtain ⟨s, hr, hs⟩ := Reach.exists_run step keepsWakeups (init false)
    [forwarderFirst, startDownlink, [.reader .accept], writeAndPush [1, 2], forwardAndSend,
      [.reader .space, .down (.chunk false)]].flatten
    (fun s => s.pushed = [1, 2] ∧ AtRestOn s 0 ∧ s.closing = false ∧ s.current = 0) (by decide +kernel)
  obtain ⟨hpushed, hrest, hclosing, hcur⟩ := of_decide_eq_true hs
  have hup : LinkUp s :=
    ⟨by rw [hrest.ack.1]; simp, hclosing, hcur ▸ hrest.stream.2.2.2.2, hcur ▸ hrest.stream.2.2.2.1⟩
  exact ⟨s, hr, hpushed, hrest.parked, hup, (no_lost_wakeup hr hrest.parked hup).1⟩

/-- The ack task is parked before the forwarder and takes the only notification of the
    push; the forwarder is never woken, and the bytes are never sent. -/
theorem stolen_wakeup :
    ∃ s, Reach step anyStep (init false) s ∧ Parked s ∧ LinkUp s ∧ s.pump.q < s.spool.headOffset := by
  obtain ⟨s, hr, hs⟩ := Reach.exists_run step anyStep (init false)
    [[.ack .check, .ack .poll, .ticket .poll], startDownlink, [.reader .accept], writeAndPush [1, 2],
      [.ack .wake, .ack .check, .ack .poll, .reader .space]].flatten
    (fun s => AtRestOn s 0 ∧ s.closing = false ∧ s.current = 0 ∧ s.pump.q < s.spool.headOffset) (by decide +kernel)
  obtain ⟨hrest, hclosing, hcur, hlt⟩ := of_decide_eq_true hs
  have hup : LinkUp s :=
    ⟨by rw [hrest.ack.1]; simp, hclosing, hcur ▸ hrest.stream.2.2.2.2, hcur ▸ hrest.stream.2.2.2.1⟩
  exact ⟨s, hr, hrest.parked, hup, hlt⟩

end Quelay.Agent.Transfer
