/-
  Quelay.Agent.Transfer.Signals — what the tasks of the sender tell each other.

  - `data_ready` holds the forwarder and the ack task exactly while they are parked
    (`Queued`).
  - The published head and `q_atomic` are those of the spool and the pump, except for
    the moment between a change and its store (`Published`, `Stored`).
  - `Finish` is sent only once the sentinel is in the spool, and reaches the pump unless
    the pump has ended (`Asked`). The ack task forgets that it sent one when it hands the
    pump a fresh stream, so a `Finish` that is owed follows each `LinkUp` (`Owed`).
  - A pump at rest that has been asked to finish, and has nothing left to send, is owed
    another `Finish` (`Rested`).
-/

import Quelay.Agent.Transfer.Life

namespace Quelay.Agent.Transfer

open Quelay.Lib

/-! ## Who is parked on `data_ready` -/

def Awaits (fwd : FwdPc) (ack : AckPc) : Waiter → Prop
  | .forwarder => fwd = .parked
  | .ackTask => ∃ k, ack = .parked k

def Queued (s : Transfer) : Prop := s.dataReady.Awaited (Awaits s.fwd s.ack)

/-- The ack task leaves its select, parked or not. -/
theorem Queued.unpark {s : Transfer} (hi : Queued s) {ack' : AckPc} (hack : ∀ k, ack' ≠ .parked k) :
    s.unpark.Awaited (Awaits s.fwd ack') := by
  have hno : ¬ ∃ k, ack' = .parked k := fun ⟨k, hk⟩ => hack k hk
  unfold Transfer.unpark
  split
  · refine (hi.cancel .ackTask).congr fun t => ?_
    cases t <;> simp [Awaits, hno]
  · rename_i hp
    refine Notify.Awaited.congr hi fun t => ?_
    cases t with
    | forwarder => exact Iff.rfl
    | ackTask => exact ⟨fun ⟨k, hk⟩ => absurd hk (hp k), fun h => absurd h hno⟩

/-- The ack task moves while it is not parked. -/
theorem Queued.move {s : Transfer} (hi : Queued s) {ack' : AckPc} (hack : ∀ k, s.ack ≠ .parked k)
    (hack' : ∀ k, ack' ≠ .parked k) : s.dataReady.Awaited (Awaits s.fwd ack') := by
  refine Notify.Awaited.congr hi fun t => ?_
  cases t with
  | forwarder => exact Iff.rfl
  | ackTask => exact ⟨fun ⟨k, hk⟩ => absurd hk (hack k), fun ⟨k, hk⟩ => absurd hk (hack' k)⟩

theorem init_queued (capped : Bool) : Queued (init capped) := by
  refine ⟨List.nodup_nil, fun t => ?_, nofun⟩
  cases t <;> cases capped <;> simp [init, Awaits, Notify.empty]

theorem step_queued {s s' : Transfer} {a : Act} (hi : Queued s) (h : s.step a = some s') : Queued s' := by
  cases a with
  | reader a =>
    cases readerStep_cases h with
    | notify => exact hi.notifyOne
    | _ => exact hi
  | ticket a =>
    cases ticketStep_cases h with
    | pollPermit hf =>
      refine (Notify.Awaited.take hi).congr fun t => ?_
      cases t <;> simp [Awaits, hf]
    | pollPark hf hp =>
      refine (Notify.Awaited.park hi (by simp [Awaits, hf]) hp).congr fun t => ?_
      cases t <;> simp [Awaits]
    | wake hf hw =>
      refine (Notify.Awaited.resume hi hw).congr fun t => ?_
      cases t <;> simp [Awaits]
    | checkSome hf | checkNone hf | sendClosed hf | send hf =>
      refine Notify.Awaited.congr hi fun t => ?_
      cases t <;> simp [Awaits, hf]
    | _ => exact hi
  | pump a => cases pumpStep_cases h <;> exact hi
  | ack a =>
    cases ackStep_cases h with
    | checkEof hk | checkNone hk | finishClosed hk | finish hk | linkUp hk | space _ hk =>
      exact hi.move (by rw [hk]; simp) (by simp)
    | pollPermit hk =>
      exact (Notify.Awaited.take (hi.move (by rw [hk]; simp) (by simp)))
    | @pollPark k hk _ hp =>
      refine (Notify.Awaited.park hi (by simp [Awaits, hk]) hp).congr fun t => ?_
      cases t <;> simp [Awaits]
    | wake hk hw =>
      refine (Notify.Awaited.resume hi hw).congr fun t => ?_
      cases t <;> simp [Awaits]
    | ackNew | ackOld | done | error | streamError | streamErrorDropped | gone | goneFail | stream | streamReaderGone
    | noStream | linkUpFail => exact hi.unpark (by simp)
    | _ => exact hi
  | link a => cases linkStep_cases h <;> exact hi
  | down a => cases downStep_cases h <;> exact hi

/-! ## The published head, and `q_atomic` -/

def PublishedOf (reader : ReaderPc) (headOffset : Nat) (pushed : List UInt8) : Prop :=
  match reader with
  | .store head _ => head = pushed.length
  | _ => headOffset = pushed.length

def Published (s : Transfer) : Prop := PublishedOf s.reader s.headOffset s.pushed

theorem step_published {s s' : Transfer} {a : Act} (hi : Published s) (hs : Sound s) (h : s.step a = some s') :
    Published s' := by
  cases a with
  | reader a =>
    cases readerStep_cases h with
    | accept hr | acceptFail hr | spaceNone hr | spaceOk hr | spacePermit hr | spacePark hr | spaceWake hr | eofAgain hr
    | readFail hr | failedEofAgain hr =>
      simp only [Published, PublishedOf, hr] at hi
      exact hi
    | read n hr =>
      have hopen : s.spool.head ≠ .eof := by
        have := hs.notMarked (by rw [hr]; rfl)
        simpa [SpoolBuffer.atEof] using this
      exact (hs.bytes.holds.push hopen _).headOffset
    | eof | failedEof => exact hs.bytes.holds.markEof.headOffset
    | store hr =>
      simp only [Published, PublishedOf, hr] at hi
      exact hi
    | @notify last hr =>
      simp only [Published, PublishedOf, hr] at hi
      cases last <;> exact hi
    | _ => exact hi
  | ticket a => cases ticketStep_cases h <;> exact hi
  | pump a => cases pumpStep_cases h <;> exact hi
  | ack a => cases ackStep_cases h <;> exact hi
  | link a => cases linkStep_cases h <;> exact hi
  | down a => cases downStep_cases h <;> exact hi

def StoredOf (pump : StreamPump) (qAtomic : Nat) : Prop :=
  match pump.pc with
  | .store (.drain _) => qAtomic ≤ pump.q
  | .store _ => True
  | _ => qAtomic = pump.q

def Stored (s : Transfer) : Prop := StoredOf s.pump s.qAtomic

theorem step_stored {s s' : Transfer} {a : Act} (hi : Stored s) (h : s.step a = some s') : Stored s' := by
  cases a with
  | reader a => cases readerStep_cases h <;> exact hi
  | ticket a => cases ticketStep_cases h <;> exact hi
  | pump a =>
    cases pumpStep_cases h with
    | linkDown | linkUp => trivial
    | write hpc =>
      simp only [Stored, StoredOf, hpc] at hi
      show s.qAtomic ≤ s.pump.q + _
      omega
    | @store next hpc => cases next <;> exact rfl
    | closed hpc =>
      rcases hpc with hpc | hpc <;>
      · simp only [Stored, StoredOf, hpc] at hi
        exact hi
    | linkUpIgnored | discard => exact hi
    | ticket hpc | finishDrained hpc | finishBacklog hpc | finishWaiting hpc | drainSpent _ hpc | drainFin _ hpc
    | drainNone _ hpc | drainEmpty _ hpc | drainChunk _ hpc | writeFail hpc | postFin hpc | postDone hpc | post hpc =>
      simp only [Stored, StoredOf, hpc] at hi ⊢
      exact hi
  | ack a => cases ackStep_cases h <;> exact hi
  | link a => cases linkStep_cases h <;> exact hi
  | down a => cases downStep_cases h <;> exact hi

/-! ## `Finish` -/

/-- The ack task is about to send `Finish`. -/
def asking : AckPc → Bool
  | .finish _ => true
  | _ => false

/-- Each `LinkUp` in the channel has a `Finish` behind it, unless one is still to be
    sent (`coming`). -/
def OwedOf (coming : Prop) : List RateCmd → Prop
  | [] => True
  | .linkUp _ :: rest => (coming ∨ .finish ∈ rest) ∧ OwedOf coming rest
  | _ :: rest => OwedOf coming rest

variable {coming : Prop} {cmds : List RateCmd}

theorem owed_of (h : coming) : ∀ cmds, OwedOf coming cmds
  | [] => trivial
  | .linkUp _ :: rest => ⟨.inl h, owed_of h rest⟩
  | .linkDown :: rest => owed_of h rest
  | .finish :: rest => owed_of h rest

theorem owed_finish : ∀ cmds : List RateCmd, OwedOf coming (cmds ++ [.finish])
  | [] => trivial
  | .linkUp _ :: rest => ⟨.inr (List.mem_append_right _ (List.mem_singleton_self _)), owed_finish rest⟩
  | .linkDown :: rest => owed_finish rest
  | .finish :: rest => owed_finish rest

theorem OwedOf.linkDown (h : OwedOf coming cmds) : OwedOf coming (cmds ++ [.linkDown]) := by
  induction cmds with
  | nil => trivial
  | cons c rest ih =>
    cases c with
    | linkUp => exact ⟨h.1.imp_right (List.mem_append_left _), ih h.2⟩
    | linkDown => exact ih h
    | finish => exact ih h

theorem OwedOf.tail {c : RateCmd} (h : OwedOf coming (c :: cmds)) : OwedOf coming cmds := by
  cases c with
  | linkUp => exact h.2
  | linkDown => exact h
  | finish => exact h

/-- The pump waits in `run`'s select, or is on its way there with a fresh stream. -/
def resting : PumpPc → Bool
  | .select | .store .select => true
  | _ => false

structure AskedOf (atEof : Bool) (pushed : List UInt8) (finishSent : Bool) (ack : AckPc) (cmds : List RateCmd)
    (pump : StreamPump) : Prop where
  drained : pump.pc = .exited → cmds = []
  eof : pump.finishing = true ∨ .finish ∈ cmds ∨ asking ack = true → atEof = true
  sent : asking ack = true → finishSent = true
  asked : finishSent = true → pump.finishing = true ∨ .finish ∈ cmds ∨ asking ack = true ∨ pump.pc = .exited
  owed : OwedOf (finishSent = false ∨ asking ack = true) cmds
  rested : resting pump.pc = true → pump.finishing = true → atEof = true → pushed.length ≤ pump.q →
    (finishSent = false ∨ asking ack = true) ∨ .finish ∈ cmds

def Asked (s : Transfer) : Prop := AskedOf s.spool.atEof s.pushed s.finishSent s.ack s.cmds s.pump

variable {atEof finishSent : Bool} {pushed : List UInt8} {ack : AckPc} {pump : StreamPump}

/-- The ack task moves, and neither starts nor ends sending `Finish`. -/
theorem AskedOf.moveAck (hi : AskedOf atEof pushed finishSent ack cmds pump) {ack' : AckPc}
    (ha : asking ack' = asking ack) : AskedOf atEof pushed finishSent ack' cmds pump := by
  refine ⟨hi.drained, ?_, ?_, ?_, ?_, ?_⟩ <;> rw [ha]
  · exact hi.eof
  · exact hi.sent
  · exact hi.asked
  · exact hi.owed
  · exact hi.rested

theorem AskedOf.linkDown (hi : AskedOf atEof pushed finishSent ack cmds pump) (hx : pump.pc ≠ .exited) :
    AskedOf atEof pushed finishSent ack (cmds ++ [.linkDown]) pump := by
  have hmem : .finish ∈ cmds ++ [RateCmd.linkDown] ↔ .finish ∈ cmds := by simp
  refine ⟨fun h => absurd h hx, ?_, hi.sent, ?_, hi.owed.linkDown, ?_⟩ <;> rw [hmem]
  · exact hi.eof
  · exact hi.asked
  · exact hi.rested

/-- The pump moves: it takes no command, and comes to rest only with something to send
    or nothing to finish. -/
theorem AskedOf.movePump (hi : AskedOf atEof pushed finishSent ack cmds pump) {pump' : StreamPump}
    (hf : pump'.finishing = pump.finishing) (hx : pump'.pc = .exited → pump.pc = .exited)
    (hx' : pump.pc = .exited → pump'.pc = .exited)
    (hrest : resting pump'.pc = true → pump.finishing = true → atEof = true → pushed.length ≤ pump'.q →
      resting pump.pc = true ∧ pump'.q = pump.q) :
    AskedOf atEof pushed finishSent ack cmds pump' := by
  refine ⟨fun h => hi.drained (hx h), hf ▸ hi.eof, hi.sent, fun h => ?_, hi.owed, fun h1 h2 h3 h4 => ?_⟩
  · rw [hf]
    exact (hi.asked h).imp_right (.imp_right (.imp_right hx'))
  · rw [hf] at h2
    obtain ⟨hr, hq⟩ := hrest h1 h2 h3 h4
    exact hi.rested hr h2 h3 (hq ▸ h4)

/-- The pump ends, and its channel with it. -/
theorem AskedOf.exit (hi : AskedOf atEof pushed finishSent ack cmds pump) {pump' : StreamPump}
    (hf : pump'.finishing = pump.finishing) (hx : pump'.pc = .exited) : AskedOf atEof pushed finishSent ack [] pump' := by
  refine ⟨fun _ => rfl, fun h => ?_, hi.sent, fun _ => .inr (.inr (.inr hx)), trivial, fun h => ?_⟩
  · rw [hf] at h
    rcases h with h | h | h
    · exact hi.eof (.inl h)
    · cases h
    · exact hi.eof (.inr (.inr h))
  · rw [hx] at h
    cases h

theorem init_asked (capped : Bool) : Asked (init capped) := by
  refine ⟨nofun, fun h => ?_, nofun, nofun, trivial, nofun⟩
  rcases h with h | h | h <;> cases h

/-- The pump takes a command that is not `Finish`. -/
theorem AskedOf.pop {c : RateCmd} (hi : AskedOf atEof pushed finishSent ack (c :: cmds) pump) (hc : c ≠ .finish) :
    AskedOf atEof pushed finishSent ack cmds pump := by
  have hmem : .finish ∈ cmds ↔ .finish ∈ c :: cmds := by simp [List.mem_cons, hc.symm]
  refine ⟨fun h => ?_, ?_, hi.sent, ?_, hi.owed.tail, ?_⟩
  · cases hi.drained h
  all_goals rw [hmem]
  · exact hi.eof
  · exact hi.asked
  · exact hi.rested

/-- The pump takes `Finish`. -/
theorem AskedOf.popFinish (hi : AskedOf atEof pushed finishSent ack (.finish :: cmds) pump) {pump' : StreamPump}
    (hf : pump'.finishing = true) (hx : pump'.pc ≠ .exited)
    (hrest : resting pump'.pc = true → pump'.q < pushed.length) : AskedOf atEof pushed finishSent ack cmds pump' := by
  refine ⟨fun h => absurd h hx, fun _ => hi.eof (.inr (.inl List.mem_cons_self)), hi.sent, fun _ => .inl hf,
    hi.owed.tail, fun h1 _ _ h4 => ?_⟩
  have := hrest h1
  omega

theorem asking_selecting {pc : AckPc} {k : Sel} (h : pc.selecting = some k) : asking pc = false := by
  cases pc <;> simp_all [AckPc.selecting, asking]

theorem pump_asked {s s' : Transfer} {a : PumpAct} (hi : Asked s) (hs : Sound s) (h : PumpCase s a s') : Asked s' := by
  have hhead := hs.bytes.holds.headOffset
  cases h with
  | linkDown _ hc =>
    rw [Asked, hc] at hi
    exact (hi.pop (by simp)).movePump rfl nofun (fun h => by cases hi.drained h) nofun
  | linkUpIgnored _ hc =>
    rw [Asked, hc] at hi
    exact hi.pop (by simp)
  | linkUp _ hc =>
    rw [Asked, hc] at hi
    have hp := hi.pop (by simp)
    exact ⟨nofun, hp.eof, hp.sent, fun h => (hp.asked h).imp_right (.imp_right (.imp_right fun h => by cases hi.drained h)),
      hp.owed, fun _ _ _ _ => hi.owed.1⟩
  | finishDrained _ hc | finishWaiting _ hc =>
    rw [Asked, hc] at hi
    exact hi.popFinish rfl (by simp_all) (by simp_all [resting])
  | finishBacklog _ hc hq =>
    rw [Asked, hc] at hi
    exact hi.popFinish rfl (by simp) fun _ => hhead ▸ hq
  | postFin | postDone | closed => exact hi.exit rfl rfl
  | post hpc _ hnot =>
    refine hi.movePump rfl nofun (by rw [hpc]; simp) fun _ hf he hq => ?_
    have hlt := hnot hf he
    rw [hhead] at hlt
    have hq : s.pushed.length ≤ s.pump.q := hq
    omega
  | @store next hpc =>
    refine hi.movePump rfl (fun h => by cases next <;> cases h) (by rw [hpc]; simp) fun hr _ _ _ => ?_
    cases next with
    | select => exact ⟨by rw [hpc]; rfl, rfl⟩
    | drain => cases hr
    | waitUp => cases hr
  | discard => exact hi
  | ticket hpc | drainSpent _ hpc | drainFin _ hpc | drainNone _ hpc | drainEmpty _ hpc | drainChunk _ hpc | write hpc
  | writeFail hpc =>
    exact hi.movePump rfl nofun (by rw [hpc]; simp) nofun

theorem ack_asked {s s' : Transfer} {a : AckAct} (hi : Asked s) (h : AckCase s a s') : Asked s' := by
  cases h with
  | checkEof _ _ he =>
    exact ⟨hi.drained, fun _ => he, fun _ => rfl, fun _ => .inr (.inr (.inl rfl)), owed_of (.inr rfl) _,
      fun _ _ _ _ => .inl (.inr rfl)⟩
  | checkNone hk | pollPermit hk | pollPark hk | wake hk | space _ hk | goneFail hk | linkUpFail hk =>
    exact hi.moveAck (by rw [hk]; rfl)
  | finishClosed hk hx =>
    have hc := hi.drained hx
    have he := hi.eof (.inr (.inr (by rw [hk]; rfl)))
    refine ⟨hi.drained, fun _ => he, nofun, fun _ => .inr (.inr (.inr hx)), ?_, fun h => ?_⟩
    · show OwedOf _ s.cmds
      rw [hc]
      trivial
    · have : resting s.pump.pc = true := h
      rw [hx] at this
      cases this
  | finish hk hx =>
    have hmem : .finish ∈ s.cmds ++ [RateCmd.finish] := by simp
    have he := hi.eof (.inr (.inr (by rw [hk]; rfl)))
    exact ⟨fun h => absurd h hx, fun _ => he, nofun, fun _ => .inr (.inl hmem), owed_finish _, fun _ _ _ _ => .inr hmem⟩
  | linkUp hk hx =>
    refine ⟨fun h => absurd h hx, fun h => hi.eof ?_, nofun, nofun, owed_of (.inl rfl) _,
      fun _ _ _ _ => .inl (.inl rfl)⟩
    rcases h with h | h | h
    · exact .inl h
    · exact .inr (.inl (by simpa using h))
    · cases h
  | ackNew hk | ackOld hk =>
    unfold Asked
    rw [atEof_ack]
    exact hi.moveAck (asking_selecting hk).symm
  | streamError hk _ hx => exact (hi.linkDown hx).moveAck (asking_selecting hk).symm
  | done hk | error hk | streamErrorDropped hk | gone hk | stream hk | streamReaderGone hk | noStream hk =>
    exact hi.moveAck (asking_selecting hk).symm
  | _ => exact hi

theorem step_asked {s s' : Transfer} {a : Act} (hi : Asked s) (hs : Sound s) (h : s.step a = some s') : Asked s' := by
  cases a with
  | reader a =>
    cases readerStep_cases h with
    | read n hr =>
      have hnot := hs.notMarked (by rw [hr]; rfl)
      unfold Asked
      rw [atEof_push, hnot]
      rw [Asked, hnot] at hi
      exact ⟨hi.drained, hi.eof, hi.sent, hi.asked, hi.owed, nofun⟩
    | eof _ _ _ he | failedEof _ he =>
      rw [Asked, he] at hi
      refine ⟨hi.drained, fun _ => rfl, hi.sent, hi.asked, hi.owed, fun _ hf => ?_⟩
      cases hi.eof (.inl hf)
    | _ => exact hi
  | ticket a => cases ticketStep_cases h <;> exact hi
  | pump a => exact pump_asked hi hs (pumpStep_cases h)
  | ack a => exact ack_asked hi (ackStep_cases h)
  | link a =>
    cases linkStep_cases h with
    | hookLinkDown _ _ _ hx => exact hi.linkDown hx
    | _ => exact hi
  | down a => cases downStep_cases h <;> exact hi

/-! ## The ack task learns of the sentinel -/

/-- The reader has a notification to send. -/
def announcing : ReaderPc → Bool
  | .store _ _ | .notify _ => true
  | _ => false

/-- The ack task is on its way to a check for EOF, or in a select that a fresh stream
    ends. -/
def heading : AckPc → Bool
  | .check _ | .space | .linkUp _ => true
  | .finish k | .poll k | .parked k => k != .main
  | .exited => false

/-- The stream has something to tell the ack task. -/
def Telling (q : QStream) : Prop := q.down ≠ [] ∨ q.cut = true ∨ q.downFin = true

def CheckingOf (reader : ReaderPc) (dataReady : Notify Waiter) (ack : AckPc) (ackRx : List AckMsg) (q : QStream) : Prop :=
  announcing reader = true ∨ dataReady.Pending ∨ heading ack = true ∨ ackRx ≠ [] ∨ Telling q

instance (reader : ReaderPc) (dataReady : Notify Waiter) (ack : AckPc) (ackRx : List AckMsg) (q : QStream) :
    Decidable (CheckingOf reader dataReady ack ackRx q) :=
  inferInstanceAs (Decidable (_ ∨ _ ∨ _ ∨ _ ∨ _ ∨ _ ∨ _))

/-- The ack task will check for EOF, or can be made to. -/
def Checking (s : Transfer) : Prop := CheckingOf s.reader s.dataReady s.ack s.ackRx (s.streams s.current)

/-- The ack task has still to ask the pump to finish. -/
def Unasked (s : Transfer) : Prop := s.spool.atEof = true ∧ s.finishSent = false ∧ s.ack ≠ .exited

instance (s : Transfer) : Decidable (Unasked s) := inferInstanceAs (Decidable (_ ∧ _ ∧ _))

def Noted (s : Transfer) : Prop := Unasked s → Checking s

/-- The forwarder takes a notification only if the ack task can do without it. -/
def forwarderSpares (s : Transfer) : Act → Prop
  | .ticket .poll =>
    s.fwd = .poll → s.dataReady.permit = true → Unasked s →
      CheckingOf s.reader s.dataReady.take s.ack s.ackRx (s.streams s.current)
  | .ticket .wake =>
    Unasked s → CheckingOf s.reader (s.dataReady.resume .forwarder) s.ack s.ackRx (s.streams s.current)
  | _ => True

instance (s : Transfer) (a : Act) : Decidable (forwarderSpares s a) := by
  unfold forwarderSpares
  split <;> infer_instance

theorem Telling.writeMsg {q : QStream} (h : Telling q) (m : WormholeMsg) : Telling (q.writeMsg m) := by
  rcases h with h | h
  · left
    simp only [QStream.writeMsg]
    split
    · exact h
    · simp
  · exact .inr h

variable {reader : ReaderPc} {dataReady : Notify Waiter} {ackRx : List AckMsg} {q : QStream}

theorem CheckingOf.stream (h : CheckingOf reader dataReady ack ackRx q) {q' : QStream} (hq : Telling q → Telling q') :
    CheckingOf reader dataReady ack ackRx q' :=
  h.imp_right (.imp_right (.imp_right (.imp_right hq)))

theorem CheckingOf.notify (h : CheckingOf reader dataReady ack ackRx q) {dataReady' : Notify Waiter}
    (hn : dataReady.Pending → dataReady'.Pending) : CheckingOf reader dataReady' ack ackRx q :=
  h.imp_right (.imp_left hn)

theorem CheckingOf.moveReader (h : CheckingOf reader dataReady ack ackRx q) (hr : announcing reader = false)
    (reader' : ReaderPc) : CheckingOf reader' dataReady ack ackRx q := by
  rcases h with h | h
  · rw [hr] at h
    cases h
  · exact .inr h

theorem ticket_noted {s s' : Transfer} {a : TicketAct} (hi : Noted s) (hok : forwarderSpares s (.ticket a))
    (h : TicketCase s a s') : Noted s' := by
  cases h with
  | pollPermit hf hp => exact hok hf hp
  | pollPark => exact fun hu => (hi hu).notify fun h => h
  | wake => exact hok
  | _ => exact hi

theorem reader_noted {s s' : Transfer} {a : ReaderAct} (hi : Noted s) (h : ReaderCase s a s') : Noted s' := by
  cases h with
  | read | eof | failedEof | store => exact fun _ => .inl rfl
  | notify => exact fun _ => .inr (.inl (Notify.notifyOne_pending _))
  | clientWrite | clientClose => exact hi
  | accept hr | acceptFail hr | spaceNone hr | spaceOk hr | spacePermit hr | spacePark hr | spaceWake hr | eofAgain hr
  | readFail hr | failedEofAgain hr =>
    exact fun hu => (hi hu).moveReader (by rw [hr]; rfl) _

theorem ack_noted {s s' : Transfer} {a : AckAct} (hi : Noted s) (ha : Asked s) (h : AckCase s a s') : Noted s' := by
  cases h with
  | checkEof => exact fun hu => by cases hu.2.1
  | checkNone _ hno =>
    intro hu
    rcases hno with h | h
    · exact absurd (h.symm.trans hu.2.1) (by simp)
    · exact absurd (h.symm.trans hu.1) (by simp)
  | finishClosed hk | finish hk =>
    intro hu
    have := ha.sent (by rw [hk]; rfl)
    exact absurd (this.symm.trans hu.2.1) (by simp)
  | pollPermit | wake | ackNew | ackOld | streamError | streamErrorDropped | gone | stream | linkUp | space =>
    exact fun _ => .inr (.inr (.inl rfl))
  | @pollPark k hk =>
    intro hu
    have hx : s.ack ≠ .exited := by rw [hk]; simp
    rcases hi ⟨hu.1, hu.2.1, hx⟩ with h | h | h | h
    · exact .inl h
    · exact .inr (.inl h)
    · exact .inr (.inr (.inl (by rw [hk] at h; exact h)))
    · exact .inr (.inr (.inr h))
  | done | error | goneFail | streamReaderGone | noStream | linkUpFail => exact fun hu => absurd rfl hu.2.2
  | readMsgClosed _ _ hx | readEndClosed _ _ hx | readerClosed _ hx => exact fun hu => absurd hx hu.2.2
  | readAck | readLast | readEnd => exact fun _ => .inr (.inr (.inr (.inl (by simp))))

theorem step_noted {s s' : Transfer} {a : Act} (hi : Noted s) (ha : Asked s) (hl : Living s)
    (hok : forwarderSpares s a) (h : s.step a = some s') : Noted s' := by
  cases a with
  | reader a => exact reader_noted hi (readerStep_cases h)
  | ticket a => exact ticket_noted hi hok (ticketStep_cases h)
  | pump a =>
    cases pumpStep_cases h with
    | linkUp | drainFin | write | postFin => exact fun hu => (hi hu).stream fun ht => of_update ht fun h => h
    | _ => exact hi
  | ack a => exact ack_noted hi ha (ackStep_cases h)
  | link a =>
    cases linkStep_cases h with
    | outage => exact fun hu => (hi hu).stream fun ht => of_update ht fun _ => .inr (.inl rfl)
    | restoreOpen =>
      refine fun hu => (hi hu).stream fun ht => of_update ht fun h => ?_
      rw [hl.streams.unused _ (Nat.le_refl _)] at h
      rcases h with h | h | h
      · exact absurd rfl h
      · cases h
      · cases h
    | dropStream => exact fun hu => (hi hu).stream fun ht => of_update ht fun h => h
    | _ => exact hi
  | down a =>
    cases downStep_cases h with
    | acceptConnect | acceptReconnect | acceptRefused | duplicate | write =>
      exact fun hu => (hi hu).stream fun ht => of_update ht fun h => h
    | tcpAcceptFail | gap | writeAck | writeFail =>
      exact fun hu => (hi hu).stream fun ht => of_update ht fun h => h.writeMsg _
    | eof | dropStream => exact fun hu => (hi hu).stream fun ht => of_update ht fun _ => .inr (.inr rfl)
    | _ => exact hi

/-! ## Every run -/

/-- What every run keeps. -/
structure Announced (s : Transfer) : Prop where
  living : Living s
  queued : Queued s
  published : Published s
  stored : Stored s
  asked : Asked s

theorem init_announced (capped : Bool) : Announced (init capped) :=
  ⟨init_living capped, init_queued capped, rfl, rfl, init_asked capped⟩

theorem step_announced {s s' : Transfer} {a : Act} (hi : Announced s) (h : s.step a = some s') : Announced s' :=
  ⟨step_living hi.living h, step_queued hi.queued h, step_published hi.published hi.living.sound h,
    step_stored hi.stored h, step_asked hi.asked hi.living.sound h⟩

structure Signalled (s : Transfer) : Prop where
  living : Living s
  queued : Queued s
  published : Published s
  stored : Stored s
  asked : Asked s
  noted : Noted s

theorem Signalled.announced {s : Transfer} (hi : Signalled s) : Announced s :=
  ⟨hi.living, hi.queued, hi.published, hi.stored, hi.asked⟩

theorem init_signalled (capped : Bool) : Signalled (init capped) := by
  obtain ⟨hl, hq, hp, hst, ha⟩ := init_announced capped
  exact ⟨hl, hq, hp, hst, ha, fun h => by cases h.1⟩

theorem step_signalled {s s' : Transfer} {a : Act} (hi : Signalled s) (hok : forwarderSpares s a)
    (h : s.step a = some s') : Signalled s' := by
  obtain ⟨hl, hq, hp, hst, ha⟩ := step_announced hi.announced h
  exact ⟨hl, hq, hp, hst, ha, step_noted hi.noted hi.asked hi.living hok h⟩

end Quelay.Agent.Transfer
