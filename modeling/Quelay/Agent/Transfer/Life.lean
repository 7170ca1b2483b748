/-
  Quelay.Agent.Transfer.Life — which streams are alive, who still holds them, and what
  the end of one task says about the others.

  - Only the newest stream can be uncut, and none is while the link is down or a fresh
    stream is about to be opened (`Streams`).
  - The receiver takes streams in order; one whose feedback has ended is held by it no
    more (`Receiver`).
  - The reader sub-task reads the stream the ack task resumed on last, and waits only
    once that stream's feedback has ended (`Feedback`).
  - A last word of the receiver is on its way only once the downlink reads no more, and
    says which end it took (`LastWord`).
  - The ack task ends only after the downlink did, or the pump before it could take the
    ack task's stream, or at the end of that stream's feedback (`Exits`).
-/

import Quelay.Agent.Transfer.Delivery

namespace Quelay.Agent.Transfer

open Quelay.Lib

theorem forall_update {streams : Nat → QStream} {P : Nat → QStream → Prop} {sid : Nat} {q' : QStream}
    (hi : ∀ i, P i (streams i)) (hq : P sid q') (i : Nat) : P i (Function.update streams sid q' i) := by
  by_cases h : i = sid
  · subst h
    rw [Function.update_self]
    exact hq
  · rw [Function.update_of_ne h]
    exact hi i

/-- What one stream's change keeps holds of every stream that had it. -/
theorem of_update {streams : Nat → QStream} {P : QStream → Prop} {sid i : Nat} {q' : QStream} (h : P (streams i))
    (hq : P (streams sid) → P q') : P (Function.update streams sid q' i) := by
  by_cases he : i = sid
  · subst he
    rw [Function.update_self]
    exact hq h
  · rwa [Function.update_of_ne he]

/-! ## Live streams -/

/-- The session is up, and the stream to be opened on it is not there yet. -/
def reopening : RestorePc → Bool
  | .start | .opening _ => true
  | .idle | .deliver _ => false

structure StreamsOf (streams : Nat → QStream) (opened : Nat) (link : Bool) (restore : RestorePc) : Prop where
  unused : ∀ sid, opened ≤ sid → streams sid = .blank
  older : ∀ sid, sid + 1 < opened → (streams sid).cut = true
  offline : link = false ∨ reopening restore = true → ∀ sid, sid < opened → (streams sid).cut = true

def Streams (s : Transfer) : Prop := StreamsOf s.streams s.opened s.link s.restore

variable {streams : Nat → QStream} {opened : Nat} {link : Bool} {restore : RestorePc}

/-- A stream that is there changes, and does not come back to life. -/
theorem StreamsOf.update (hi : StreamsOf streams opened link restore) {sid : Nat} (hlt : sid < opened) {q' : QStream}
    (hc : (streams sid).cut = true → q'.cut = true) :
    StreamsOf (Function.update streams sid q') opened link restore := by
  refine ⟨?_, ?_, fun h => ?_⟩
  · exact forall_update (P := fun i q => opened ≤ i → q = .blank) hi.unused fun h => by omega
  · exact forall_update (P := fun i q => i + 1 < opened → q.cut = true) hi.older fun h => hc (hi.older sid h)
  · exact forall_update (P := fun i q => i < opened → q.cut = true) (hi.offline h) fun hlt => hc (hi.offline h sid hlt)

theorem StreamsOf.outage (hi : StreamsOf streams opened link restore) (ho : 0 < opened) {q' : QStream}
    (hc : q'.cut = true) : StreamsOf (Function.update streams (opened - 1) q') opened false restore := by
  have hlt : opened - 1 < opened := by omega
  have hu : StreamsOf (Function.update streams (opened - 1) q') opened link restore := hi.update hlt fun _ => hc
  refine ⟨hu.unused, hu.older, fun _ => ?_⟩
  intro sid hlt
  by_cases h : sid = opened - 1
  · subst h
    rw [Function.update_self]
    exact hc
  · rw [Function.update_of_ne h]
    exact hi.older sid (by omega)

theorem StreamsOf.open (hi : StreamsOf streams opened link restore) (hr : reopening restore = true) (q' : QStream)
    (hl : link = true) (sid : Nat) : StreamsOf (Function.update streams opened q') (opened + 1) link (.deliver sid) := by
  refine ⟨fun i h => ?_, fun i h => ?_, fun h => ?_⟩
  · rw [Function.update_of_ne (by omega)]
    exact hi.unused i (by omega)
  · rw [Function.update_of_ne (by omega)]
    exact hi.offline (.inr hr) i (by omega)
  · rcases h with h | h
    · rw [hl] at h; cases h
    · cases h

theorem StreamsOf.setRestore (hi : StreamsOf streams opened link restore) {restore' : RestorePc}
    (hr : reopening restore' = true → reopening restore = true) : StreamsOf streams opened link restore' :=
  ⟨hi.unused, hi.older, fun h => hi.offline (h.imp_right hr)⟩

theorem init_streamsOk (capped : Bool) : Streams (init capped) := by
  refine ⟨fun sid h => ?_, fun sid h => ?_, fun h => ?_⟩
  · rw [init_streams, if_neg (by simp only [init] at h; omega)]
  · simp only [init] at h; omega
  · rcases h with h | h <;> cases h

/-! ## The receiver's streams -/

/-- `run_downlink` is on the stream, or may still take it from its channel. -/
def Holding (d : Downlink) (sid : Nat) : Prop :=
  d.pc.ended = false ∧ (d.pc = .tcpAccept sid ∨ d.pc = .reading sid ∨ sid ∈ d.streamRx)

theorem not_holding {s : Transfer} {sid : Nat} (h : s.heldDown sid = false) : ¬ Holding s.down sid := by
  unfold heldDown at h
  unfold Holding
  cases hpc : s.down.pc <;> simp_all [DownPc.ended, DownPc.reportsOn]

/-- A stream that the receiver still holds and does not read is held for its report. -/
theorem heldDown_of_not_holding {s : Transfer} {sid : Nat} (h : ¬ Holding s.down sid)
    (hr : ∀ i c, s.down.pc ≠ .report i c) : s.heldDown sid = false := by
  unfold Holding at h
  unfold heldDown
  cases hpc : s.down.pc <;> simp_all [DownPc.ended, DownPc.reportsOn]

/-- The receiving client has not connected yet. -/
def connecting : DownPc → Bool
  | .absent | .spawned | .tcpAccept _ => true
  | _ => false

structure ReceiverOf (streams : Nat → QStream) (opened nextAccept : Nat) (down : Downlink) : Prop where
  accepted : nextAccept ≤ opened
  holding : ∀ sid, Holding down sid → sid < nextAccept
  letGo : ∀ sid, (streams sid).downFin = true ∨ (streams sid).stopped = true → sid < nextAccept ∧ ¬ Holding down sid
  quiet : connecting down.pc = true → down.bytesWritten = 0

def Receiver (s : Transfer) : Prop := ReceiverOf s.streams s.opened s.nextAccept s.down

variable {nextAccept : Nat} {down : Downlink}

theorem ReceiverOf.update (hi : ReceiverOf streams opened nextAccept down) (sid : Nat) {q' : QStream}
    (hq : q'.downFin = true ∨ q'.stopped = true → (streams sid).downFin = true ∨ (streams sid).stopped = true) :
    ReceiverOf (Function.update streams sid q') opened nextAccept down := by
  refine ⟨hi.accepted, hi.holding, ?_, hi.quiet⟩
  exact forall_update (P := fun i q => q.downFin = true ∨ q.stopped = true → i < nextAccept ∧ ¬ Holding down i) hi.letGo
    fun h => hi.letGo sid (hq h)

/-- The downlink moves and takes no stream it did not hold. -/
theorem ReceiverOf.move (hi : ReceiverOf streams opened nextAccept down) {down' : Downlink}
    (hh : ∀ sid, Holding down' sid → Holding down sid)
    (hw : connecting down'.pc = true → down'.bytesWritten = 0) :
    ReceiverOf streams opened nextAccept down' :=
  ⟨hi.accepted, fun sid h => hi.holding sid (hh sid h), fun sid h => ⟨(hi.letGo sid h).1, fun h' => (hi.letGo sid h).2 (hh sid h')⟩,
    hw⟩

theorem ReceiverOf.exit (hi : ReceiverOf streams opened nextAccept down) {down' : Downlink} (hx : down'.pc.ended = true) :
    ReceiverOf streams opened nextAccept down' := by
  refine hi.move (fun sid h => ?_) fun h => ?_
  · rw [h.1] at hx
    cases hx
  · cases hpc : down'.pc with
    | report => rw [hpc] at h; cases h
    | exited => rw [hpc] at h; cases h
    | _ => rw [hpc] at hx; cases hx

/-- The next stream is accepted: it is the only one the downlink may newly hold. -/
theorem ReceiverOf.accept (hi : ReceiverOf streams opened nextAccept down) (hlt : nextAccept < opened) {down' : Downlink}
    (hh : ∀ sid, Holding down' sid → Holding down sid ∨ sid = nextAccept)
    (hw : connecting down'.pc = true → down'.bytesWritten = 0) :
    ReceiverOf streams opened (nextAccept + 1) down' := by
  refine ⟨hlt, fun sid h => ?_, fun sid h => ?_, hw⟩
  · rcases hh sid h with h | h
    · have := hi.holding sid h
      omega
    · omega
  · obtain ⟨h1, h2⟩ := hi.letGo sid h
    refine ⟨by omega, fun h' => ?_⟩
    rcases hh sid h' with h' | h'
    · exact h2 h'
    · omega

theorem init_receiver (capped : Bool) : Receiver (init capped) := by
  refine ⟨Nat.zero_le _, fun sid h => ?_, fun sid h => ?_, fun _ => rfl⟩
  · rcases h.2 with h | h | h <;> cases h
  · rw [init_streams] at h
    split at h <;> rcases h with h | h <;> cases h

theorem step_receiver {s s' : Transfer} {a : Act} (hi : Receiver s) (hc : Connect s) (h : s.step a = some s') :
    Receiver s' := by
  cases a with
  | reader a => cases readerStep_cases h <;> exact hi
  | ticket a => cases ticketStep_cases h <;> exact hi
  | pump a =>
    cases pumpStep_cases h with
    | linkUp | drainFin | write | postFin => exact hi.update _ fun h => h
    | _ => exact hi
  | ack a =>
    cases ackStep_cases h with
    | readMsgClosed | readAck | readLast => exact hi.update _ fun h => h
    | _ => exact hi
  | link a =>
    cases linkStep_cases h with
    | outage | dropStream => exact hi.update _ fun h => h
    | restoreOpen =>
      refine ReceiverOf.update ?_ _ nofun
      exact ⟨Nat.le_succ_of_le hi.accepted, hi.holding, hi.letGo, hi.quiet⟩
    | _ => exact hi
  | down a =>
    cases downStep_cases h with
    | acceptConnect hlt hu =>
      have h0 := hc.first _ _ hu
      have habs := hc.absent h0
      refine ReceiverOf.update ?_ _ fun h => h
      refine hi.accept hlt (fun sid h => .inr ?_) fun _ => hi.quiet (by rw [habs]; rfl)
      simpa [Holding] using h.2
    | acceptReconnect hlt =>
      refine ReceiverOf.update ?_ _ fun h => h
      refine hi.accept hlt (fun sid h => ?_) hi.quiet
      rcases h with ⟨hx, h | h | h⟩
      · exact .inl ⟨hx, .inl h⟩
      · exact .inl ⟨hx, .inr (.inl h)⟩
      · rcases List.mem_append.mp h with h | h
        · exact .inl ⟨hx, .inr (.inr h)⟩
        · exact .inr (List.mem_singleton.mp h)
    | acceptRefused hlt =>
      refine ReceiverOf.update ?_ _ fun h => h
      exact hi.accept hlt (fun sid h => .inl h) hi.quiet
    | acceptSkip hlt => exact hi.accept hlt (fun sid h => .inl h) hi.quiet
    | start hpc hrx =>
      refine hi.move (fun sid h => ?_) fun _ => hi.quiet (by rw [hpc]; rfl)
      refine ⟨by rw [hpc]; rfl, .inr (.inr ?_)⟩
      rw [hrx]
      rcases h.2 with h | h | h
      · cases h; exact List.mem_cons_self
      · cases h
      · exact List.mem_cons_of_mem _ h
    | @tcpAccept sid hpc =>
      refine hi.move (fun i h => ⟨by rw [hpc]; rfl, ?_⟩) nofun
      rcases h.2 with h | h | h
      · cases h
      · cases h; exact .inl hpc
      · exact .inr (.inr h)
    | tcpAcceptFail =>
      refine ReceiverOf.update ?_ _ fun h => h
      exact hi.exit rfl
    | duplicate => exact hi.update _ fun h => h
    | gap =>
      refine ReceiverOf.update ?_ _ fun h => h
      exact hi.exit rfl
    | write _ hpc | writeAck _ hpc =>
      refine ReceiverOf.update ?_ _ fun h => h
      exact hi.move (fun i h => h) fun h => absurd (hpc ▸ h : connecting (.reading _) = true) nofun
    | writeFail =>
      refine ReceiverOf.update ?_ _ fun h => h
      exact hi.exit rfl
    | @eof sid hpc =>
      have hx : ReceiverOf s.streams s.opened s.nextAccept { s.down with pc := .report sid (.done s.down.bytesWritten) } :=
        hi.exit rfl
      refine ⟨hx.accepted, hx.holding, ?_, hx.quiet⟩
      refine forall_update (P := fun i q => q.downFin = true ∨ q.stopped = true → i < s.nextAccept ∧ ¬ Holding _ i)
        hx.letGo fun _ => ⟨?_, fun h => absurd h.1 nofun⟩
      exact hi.holding sid ⟨by rw [hpc]; rfl, .inr (.inl hpc)⟩
    | readError hpc =>
      refine hi.move (fun i h => ⟨by rw [hpc]; rfl, ?_⟩) nofun
      rcases h.2 with h | h | h
      · cases h
      · cases h
      · exact .inr (.inr h)
    | resume hpc hrx =>
      refine hi.move (fun i h => ⟨by rw [hpc]; rfl, .inr (.inr ?_)⟩) nofun
      rw [hrx]
      rcases h.2 with h | h | h
      · cases h
      · cases h; exact List.mem_cons_self
      · exact List.mem_cons_of_mem _ h
    | report | lost => exact hi.exit rfl
    | dropHandle => exact hi.move (fun i h => h) hi.quiet
    | dropStream sid hlt hh =>
      refine ⟨hi.accepted, hi.holding, ?_, hi.quiet⟩
      exact forall_update (P := fun i q => q.downFin = true ∨ q.stopped = true → i < s.nextAccept ∧ ¬ Holding _ i)
        hi.letGo fun _ => ⟨hlt, not_holding hh⟩

/-! ## Streams that the receiver has let go of -/

/-- The receiver has taken the stream and holds it no more. -/
def Released (nextAccept : Nat) (down : Downlink) (sid : Nat) : Prop := sid < nextAccept ∧ ¬ Holding down sid

instance (down : Downlink) (sid : Nat) : Decidable (Holding down sid) :=
  inferInstanceAs (Decidable (_ ∧ (_ ∨ _ ∨ _)))

instance (nextAccept : Nat) (down : Downlink) (sid : Nat) : Decidable (Released nextAccept down sid) :=
  inferInstanceAs (Decidable (_ ∧ ¬ _))

variable {sid : Nat}

theorem Released.move (h : Released nextAccept down sid) {down' : Downlink} (hh : Holding down' sid → Holding down sid) :
    Released nextAccept down' sid :=
  ⟨h.1, fun h' => h.2 (hh h')⟩

theorem Released.exit (h : Released nextAccept down sid) {down' : Downlink} (hx : down'.pc.ended = true) :
    Released nextAccept down' sid :=
  h.move fun h' => absurd (h'.1.symm.trans hx) Bool.false_ne_true

theorem released_stays {s s' : Transfer} {a : Act} (hi : Released s.nextAccept s.down sid) (h : s.step a = some s') :
    Released s'.nextAccept s'.down sid := by
  have hlt := hi.1
  cases a with
  | reader a => cases readerStep_cases h <;> exact hi
  | ticket a => cases ticketStep_cases h <;> exact hi
  | pump a => cases pumpStep_cases h <;> exact hi
  | ack a => cases ackStep_cases h <;> exact hi
  | link a => cases linkStep_cases h <;> exact hi
  | down a =>
    cases downStep_cases h with
    | acceptConnect =>
      refine ⟨Nat.lt_succ_of_lt hlt, fun h => ?_⟩
      have : sid = s.nextAccept := by simpa [Holding] using h.2
      omega
    | acceptReconnect =>
      refine ⟨Nat.lt_succ_of_lt hlt, fun h => hi.2 ⟨h.1, ?_⟩⟩
      rcases h.2 with h | h | h
      · exact .inl h
      · exact .inr (.inl h)
      · rcases List.mem_append.mp h with h | h
        · exact .inr (.inr h)
        · have := List.mem_singleton.mp h
          omega
    | acceptRefused | acceptSkip => exact ⟨Nat.lt_succ_of_lt hlt, hi.2⟩
    | start hpc hrx | resume hpc hrx =>
      refine hi.move fun h => ⟨by rw [hpc]; rfl, .inr (.inr ?_)⟩
      rw [hrx]
      rcases h.2 with h | h | h
      · cases h <;> exact List.mem_cons_self
      · cases h <;> exact List.mem_cons_self
      · exact List.mem_cons_of_mem _ h
    | tcpAccept hpc =>
      refine hi.move fun h => ⟨by rw [hpc]; rfl, ?_⟩
      rcases h.2 with h | h | h
      · cases h
      · cases h; exact .inl hpc
      · exact .inr (.inr h)
    | readError hpc =>
      refine hi.move fun h => ⟨by rw [hpc]; rfl, ?_⟩
      rcases h.2 with h | h | h
      · cases h
      · cases h
      · exact .inr (.inr h)
    | tcpAcceptFail | gap | writeFail | eof | report | lost => exact hi.exit rfl
    | duplicate | write | writeAck | dropHandle | dropStream => exact hi

/-- The receiver holds only streams that it held before, and the next one. -/
theorem holding_cases {s s' : Transfer} {a : Act} (hr' : Receiver s') (h : s.step a = some s') {sid : Nat}
    (hh : Holding s'.down sid) : Holding s.down sid ∨ (s.nextAccept ≤ sid ∧ sid < s'.nextAccept) := by
  by_cases hold : Holding s.down sid
  · exact .inl hold
  · by_cases hlt : sid < s.nextAccept
    · exact absurd hh (released_stays ⟨hlt, hold⟩ h).2
    · exact .inr ⟨Nat.le_of_not_lt hlt, hr'.holding sid hh⟩

/-! ## The end of a stream's feedback -/

/-- A message to an ended stream of the receiver's changes nothing: the stream is cut. -/
theorem downEnded_writeMsg {q q' : QStream} {m : WormholeMsg} (he : q.downEnded = true) (hf : q.downFin = false)
    (hd : q'.down = (q.writeMsg m).down) (hc : q'.cut = q.cut) : q'.downEnded = true := by
  simp only [QStream.downEnded, hf, Bool.or_false, Bool.and_eq_true, List.isEmpty_iff] at he
  simp [QStream.downEnded, hd, hc, QStream.writeMsg, he.1, he.2]

theorem downEnded_cutAt {q : QStream} (up down : Nat) (he : q.downEnded = true) : (q.cutAt up down).downEnded = true := by
  simp only [QStream.downEnded, Bool.and_eq_true, List.isEmpty_iff] at he
  simp [QStream.downEnded, QStream.cutAt, he.1]

theorem Holding.downFin {s : Transfer} {sid : Nat} (hr : Receiver s) (h : Holding s.down sid) :
    (s.streams sid).downFin = false := by
  cases hf : (s.streams sid).downFin with
  | false => rfl
  | true => exact absurd h (hr.letGo sid (.inl hf)).2

theorem Holding.stopped {s : Transfer} {sid : Nat} (hr : Receiver s) (h : Holding s.down sid) :
    (s.streams sid).stopped = false := by
  cases hf : (s.streams sid).stopped with
  | false => rfl
  | true => exact absurd h (hr.letGo sid (.inr hf)).2

/-- Feedback that has ended stays so. -/
theorem step_ended {s s' : Transfer} {a : Act} (hr : Receiver s) {i : Nat} (hi : i < s.opened)
    (he : (s.streams i).downEnded = true) (h : s.step a = some s') : (s'.streams i).downEnded = true := by
  cases a with
  | reader a => cases readerStep_cases h <;> exact he
  | ticket a => cases ticketStep_cases h <;> exact he
  | pump a =>
    cases pumpStep_cases h with
    | linkUp | drainFin | write | postFin => exact of_update (P := (·.downEnded = true)) he fun h => h
    | _ => exact he
  | ack a =>
    cases ackStep_cases h with
    | readMsgClosed _ hd | readAck _ hd | readLast _ hd =>
      refine of_update (P := (·.downEnded = true)) he fun h => ?_
      simp [QStream.downEnded, hd] at h
    | _ => exact he
  | link a =>
    cases linkStep_cases h with
    | outage up down => exact of_update (P := (·.downEnded = true)) he (downEnded_cutAt up down)
    | restoreOpen =>
      show (Function.update s.streams s.opened _ i).downEnded = true
      rwa [Function.update_of_ne (by omega)]
    | dropStream => exact of_update (P := (·.downEnded = true)) he fun h => h
    | _ => exact he
  | down a =>
    cases downStep_cases h with
    | acceptConnect | acceptReconnect | acceptRefused | duplicate | write =>
      exact of_update (P := (·.downEnded = true)) he fun h => h
    | tcpAcceptFail hpc =>
      have hold : Holding s.down _ := ⟨by rw [hpc]; rfl, .inl hpc⟩
      exact of_update (P := (·.downEnded = true)) he fun h => downEnded_writeMsg h (hold.downFin hr) rfl rfl
    | gap _ hpc | writeAck _ hpc | writeFail _ hpc =>
      have hold : Holding s.down _ := ⟨by rw [hpc]; rfl, .inr (.inl hpc)⟩
      exact of_update (P := (·.downEnded = true)) he fun h => downEnded_writeMsg h (hold.downFin hr) rfl rfl
    | @eof sid hpc _ _ hc =>
      have hold : Holding s.down sid := ⟨by rw [hpc]; rfl, .inr (.inl hpc)⟩
      refine of_update (P := (·.downEnded = true)) he fun h => ?_
      simp [QStream.downEnded, hc, hold.downFin hr] at h
    | dropStream =>
      refine of_update (P := (·.downEnded = true)) he fun h => ?_
      simp only [QStream.downEnded, Bool.and_eq_true] at h
      simp [QStream.downEnded, h.1]
    | _ => exact he

structure FeedbackOf (streams : Nat → QStream) (reader : AckReaderPc) (current : Nat) : Prop where
  reading : ∀ sid, reader = .reading sid → sid = current
  ended : reader = .waiting → (streams current).downEnded = true

def Feedback (s : Transfer) : Prop := FeedbackOf s.streams s.ackReader s.current

theorem init_feedback (capped : Bool) : Feedback (init capped) :=
  ⟨fun sid h => by cases h; rfl, nofun⟩

theorem step_feedback {s s' : Transfer} {a : Act} (hi : Feedback s) (hr : Receiver s) (hl : Lane s)
    (h : s.step a = some s') : Feedback s' := by
  have hkeep : s.ackReader = .waiting → (s'.streams s.current).downEnded = true :=
    fun hw => step_ended hr hl.currentLt (hi.ended hw) h
  cases a with
  | reader a => cases readerStep_cases h <;> exact ⟨hi.reading, hkeep⟩
  | ticket a => cases ticketStep_cases h <;> exact ⟨hi.reading, hkeep⟩
  | pump a => cases pumpStep_cases h <;> exact ⟨hi.reading, hkeep⟩
  | ack a =>
    cases ackStep_cases h with
    | stream => exact ⟨fun sid h => by cases h; rfl, nofun⟩
    | readMsgClosed | readLast | readerClosed => exact ⟨nofun, nofun⟩
    | readAck hrd => exact ⟨fun sid h => by cases h; exact hi.reading _ hrd, nofun⟩
    | readEndClosed hrd he | readEnd hrd he => exact ⟨nofun, fun _ => hi.reading _ hrd ▸ he⟩
    | _ => exact ⟨hi.reading, hkeep⟩
  | link a => cases linkStep_cases h <;> exact ⟨hi.reading, hkeep⟩
  | down a => cases downStep_cases h <;> exact ⟨hi.reading, hkeep⟩

theorem step_streams {s s' : Transfer} {a : Act} (hi : Streams s) (hl : Lane s) (hr : Receiver s) (hf : Feedback s)
    (h : s.step a = some s') : Streams s' := by
  have hcur := hl.currentLt
  have htx : s.pump.quicTx < s.opened := by
    have : s.pump.quicTx ≤ s.current := hl.resumedLe _ List.mem_cons_self
    omega
  have hacc := hr.accepted
  have hhold : ∀ sid, Holding s.down sid → sid < s.opened := fun sid h => by
    have := hr.holding sid h
    omega
  cases a with
  | reader a => cases readerStep_cases h <;> exact hi
  | ticket a => cases ticketStep_cases h <;> exact hi
  | pump a =>
    cases pumpStep_cases h with
    | @linkUp sid cmds _ hc =>
      have hsid : sid ≤ s.current := hl.resumedLe sid (by simp [hc])
      exact hi.update (by omega) fun h => h
    | drainFin | write | postFin => exact hi.update htx fun h => h
    | _ => exact hi
  | ack a =>
    cases ackStep_cases h with
    | readMsgClosed hrd | readAck hrd | readLast hrd =>
      have := hf.reading _ hrd
      exact hi.update (by omega) fun h => h
    | _ => exact hi
  | link a =>
    cases linkStep_cases h with
    | outage => exact hi.outage (by omega) rfl
    | outageIdle _ _ _ hc =>
      refine ⟨hi.unused, hi.older, fun _ sid (hlt : sid < s.opened) => ?_⟩
      by_cases h : sid + 1 < s.opened
      · exact hi.older sid h
      · have : sid = s.opened - 1 := by omega
        rw [this]
        exact hc
    | reconnect hk => exact ⟨hi.unused, hi.older, fun _ => hi.offline (.inl hk)⟩
    | restoreRead hk => exact hi.setRestore fun _ => by rw [hk]; rfl
    | restoreSkip | restoreFail | restoreDeliver | restorePrune => exact hi.setRestore nofun
    | restoreOpen hk hlink => exact hi.open (by rw [hk]; rfl) _ hlink _
    | dropStream sid hlt => exact hi.update hlt fun h => h
    | _ => exact hi
  | down a =>
    cases downStep_cases h with
    | acceptConnect hlt | acceptReconnect hlt | acceptRefused hlt => exact hi.update hlt fun h => h
    | tcpAcceptFail hpc => exact hi.update (hhold _ ⟨by rw [hpc]; rfl, .inl hpc⟩) fun h => h
    | duplicate _ hpc | gap _ hpc | write _ hpc | writeAck _ hpc | writeFail _ hpc | eof hpc =>
      exact hi.update (hhold _ ⟨by rw [hpc]; rfl, .inr (.inl hpc)⟩) fun h => h
    | dropStream sid hlt => exact hi.update (by omega) fun h => h
    | _ => exact hi

theorem step_cut {s s' : Transfer} {a : Act} (hl : Streams s) {i : Nat} (hc : (s.streams i).cut = true)
    (h : s.step a = some s') : (s'.streams i).cut = true := by
  cases a with
  | reader a => cases readerStep_cases h <;> exact hc
  | ticket a => cases ticketStep_cases h <;> exact hc
  | pump a =>
    cases pumpStep_cases h with
    | linkUp | drainFin | write | postFin => exact of_update (P := (·.cut = true)) hc fun h => h
    | _ => exact hc
  | ack a =>
    cases ackStep_cases h with
    | readMsgClosed | readAck | readLast => exact of_update (P := (·.cut = true)) hc fun h => h
    | _ => exact hc
  | link a =>
    cases linkStep_cases h with
    | outage => exact of_update (P := (·.cut = true)) hc fun _ => rfl
    | restoreOpen =>
      refine of_update (P := (·.cut = true)) hc fun h => ?_
      rw [hl.unused _ (Nat.le_refl _)] at h
      cases h
    | dropStream => exact of_update (P := (·.cut = true)) hc fun h => h
    | _ => exact hc
  | down a =>
    cases downStep_cases h with
    | acceptConnect | acceptReconnect | acceptRefused | tcpAcceptFail | duplicate | gap | write | writeAck | writeFail
    | eof | dropStream => exact of_update (P := (·.cut = true)) hc fun h => h
    | _ => exact hc

/-! ## The receiver's last word -/

/-- The receiving agent's reports hold one of success. -/
def Completed (callbacks : List Callback) : Prop := ∃ n, .done n ∈ callbacks

/-- What a message on its way to the ack task says about the downlink. -/
def Tells (pc : DownPc) (callbacks : List Callback) : WormholeMsg → Prop
  | .ack _ => True
  | .done => pc.ended = true ∧ Completed callbacks
  | .error _ => pc.ended = true ∧ ¬ Completed callbacks

theorem Tells.move {pc pc' : DownPc} {callbacks callbacks' : List Callback} {m : WormholeMsg}
    (h : Tells pc callbacks m) (hx : pc.ended = false) : Tells pc' callbacks' m := by
  cases m with
  | ack => trivial
  | done => exact absurd h.1 (Bool.eq_false_iff.mp hx)
  | error => exact absurd h.1 (Bool.eq_false_iff.mp hx)

structure LastWordOf (streams : Nat → QStream) (ackRx : List AckMsg) (pc : DownPc) (callbacks : List Callback) : Prop where
  stream : ∀ sid, ∀ m ∈ (streams sid).down, Tells pc callbacks m
  inbox : ∀ m : WormholeMsg, m.toAckMsg ∈ ackRx → Tells pc callbacks m
  completed : Completed callbacks → pc.ended = true

def LastWord (s : Transfer) : Prop := LastWordOf s.streams s.ackRx s.down.pc s.downReports

variable {ackRx : List AckMsg} {pc : DownPc} {callbacks : List Callback}

theorem LastWordOf.update (hi : LastWordOf streams ackRx pc callbacks) (sid : Nat) {q' : QStream}
    (hq : ∀ m ∈ q'.down, m ∈ (streams sid).down ∨ Tells pc callbacks m) :
    LastWordOf (Function.update streams sid q') ackRx pc callbacks := by
  refine ⟨?_, hi.inbox, hi.completed⟩
  refine forall_update (P := fun _ q => ∀ m ∈ q.down, Tells pc callbacks m) hi.stream fun m hm => ?_
  exact (hq m hm).elim (hi.stream sid m) id

theorem LastWordOf.popInbox (hi : LastWordOf streams ackRx pc callbacks) {ackRx' : List AckMsg}
    (hs : ∀ m : WormholeMsg, m.toAckMsg ∈ ackRx' → m.toAckMsg ∈ ackRx) : LastWordOf streams ackRx' pc callbacks :=
  ⟨hi.stream, fun m hm => hi.inbox m (hs m hm), hi.completed⟩

/-- The downlink moves or ends: until then only acks are on their way. -/
theorem LastWordOf.move (hi : LastWordOf streams ackRx pc callbacks) (hx : pc.ended = false) {pc' : DownPc}
    {callbacks' : List Callback} (hc : Completed callbacks' → Completed callbacks ∨ pc'.ended = true) :
    LastWordOf streams ackRx pc' callbacks' := by
  refine ⟨fun sid m hm => (hi.stream sid m hm).move hx, fun m hm => (hi.inbox m hm).move hx, fun h => ?_⟩
  rcases hc h with h | h
  · exact absurd (hi.completed h) (Bool.eq_false_iff.mp hx)
  · exact h

theorem completed_append {cb : Callback} (h : Completed (callbacks ++ [cb])) (hcb : ∀ n, cb ≠ .done n) :
    Completed callbacks := by
  obtain ⟨n, hn⟩ := h
  rcases List.mem_append.mp hn with hn | hn
  · exact ⟨n, hn⟩
  · exact absurd (List.mem_singleton.mp hn).symm (hcb n)

theorem Completed.reports (h : Completed callbacks) (pc : DownPc) : Completed (pc.reports callbacks) :=
  h.imp fun _ hn => DownPc.mem_reports hn

theorem mem_writeMsg {q : QStream} {m x : WormholeMsg} (h : x ∈ (q.writeMsg m).down) : x ∈ q.down ∨ x = m := by
  simp only [QStream.writeMsg] at h
  split at h
  · exact .inl h
  · rcases List.mem_append.mp h with h | h
    · exact .inl h
    · exact .inr (List.mem_singleton.mp h)

/-- The downlink ends with a failure that it tells both sides. -/
theorem LastWordOf.fail (hi : LastWordOf streams ackRx pc callbacks) (hx : pc.ended = false) (sid : Nat) (f : Failure)
    {q' : QStream} (hq : q'.down = ((streams sid).writeMsg (.error f)).down) :
    LastWordOf (Function.update streams sid q') ackRx (.report sid (.failed f)) (callbacks ++ [.failed f]) := by
  have hnot : ¬ Completed (callbacks ++ [.failed f]) := fun h =>
    Bool.eq_false_iff.mp hx (hi.completed (completed_append h (by simp)))
  have hm : LastWordOf streams ackRx (.report sid (.failed f)) (callbacks ++ [.failed f]) := hi.move hx fun _ => .inr rfl
  refine hm.update sid fun m hmem => ?_
  rw [hq] at hmem
  rcases mem_writeMsg hmem with h | rfl
  · exact .inl h
  · exact .inr ⟨rfl, hnot⟩

theorem init_lastWord (capped : Bool) : LastWord (init capped) := by
  refine ⟨fun sid m hm => ?_, nofun, ?_⟩
  · rw [init_streams] at hm
    split at hm <;> cases hm
  · rintro ⟨n, h⟩
    cases h

theorem completed_progress {p : Prop} [Decidable p] {n : Nat}
    (h : Completed (if p then callbacks ++ [.progress n] else callbacks)) : Completed callbacks := by
  split at h
  · exact completed_append h (by simp)
  · exact h

theorem LastWord.running {s : Transfer} (hi : LastWord s) (hx : s.down.pc.ended = false) :
    LastWordOf s.streams s.ackRx s.down.pc s.downCallbacks := by
  rw [← DownPc.reports_of_running hx s.downCallbacks]
  exact hi

theorem LastWord.progress {s : Transfer} (hi : LastWord s) (hx : s.down.pc.ended = false) (p : Prop) [Decidable p]
    (n : Nat) : LastWordOf s.streams s.ackRx s.down.pc
      (s.down.pc.reports (if p then s.downCallbacks ++ [.progress n] else s.downCallbacks)) := by
  rw [DownPc.reports_of_running hx]
  exact (hi.running hx).move hx fun h => .inl (completed_progress h)

theorem down_lastWord {s s' : Transfer} {a : DownAct} (hi : LastWord s) (hc : Connect s) (h : DownCase s a s') :
    LastWord s' := by
  cases h with
  | acceptConnect _ hu =>
    have hx : s.down.pc.ended = false := by rw [hc.absent (hc.first _ _ hu)]; rfl
    exact LastWordOf.update ((hi.running hx).move hx .inl) _ fun m hm => .inl hm
  | acceptReconnect | acceptRefused | duplicate => exact hi.update _ fun m hm => .inl hm
  | start hpc | tcpAccept hpc | readError hpc | resume hpc =>
    have hx : s.down.pc.ended = false := by rw [hpc]; rfl
    exact (hi.running hx).move hx .inl
  | tcpAcceptFail hpc | gap _ hpc | writeFail _ hpc =>
    have hx : s.down.pc.ended = false := by rw [hpc]; rfl
    exact (hi.running hx).fail hx _ _ rfl
  | write _ hpc =>
    have hx : s.down.pc.ended = false := by rw [hpc]; rfl
    exact LastWordOf.update (hi.progress hx _ _) _ fun m hm => .inl hm
  | writeAck _ hpc =>
    have hx : s.down.pc.ended = false := by rw [hpc]; rfl
    exact LastWordOf.update (hi.progress hx _ _) _ fun m hm => (mem_writeMsg hm).imp_right fun h => by subst h; trivial
  | @eof sid hpc =>
    have hx : s.down.pc.ended = false := by rw [hpc]; rfl
    refine LastWordOf.update ((hi.running hx).move hx fun _ => .inr rfl) _ fun m hm => ?_
    rcases mem_writeMsg hm with h | rfl
    · exact .inl h
    · exact .inr ⟨rfl, _, List.mem_append_right _ (List.mem_singleton_self _)⟩
  | report hpc =>
    unfold LastWord downReports at hi
    rw [hpc] at hi
    exact ⟨hi.stream, hi.inbox, fun _ => rfl⟩
  | lost hpc =>
    have hx : s.down.pc.ended = false := by rw [hpc]; rfl
    exact (hi.running hx).move hx fun _ => .inr rfl
  | dropStream => exact hi.update _ fun m hm => .inl hm
  | acceptSkip | dropHandle => exact hi

theorem toAckMsg_inj {m m' : WormholeMsg} (h : m.toAckMsg = m'.toAckMsg) : m = m' := by
  cases m <;> cases m' <;> simp_all [WormholeMsg.toAckMsg]

theorem ack_lastWord {s s' : Transfer} {a : AckAct} (hi : LastWord s) (h : AckCase s a s') : LastWord s' := by
  cases h with
  | ackNew _ hrx | ackOld _ hrx | streamError _ hrx | streamErrorDropped _ hrx =>
    exact hi.popInbox fun m hm => by rw [hrx]; exact List.mem_cons_of_mem _ hm
  | done | error | goneFail | streamReaderGone | noStream | linkUpFail => exact hi.popInbox nofun
  | readMsgClosed _ hd => exact hi.update _ fun m hm => .inl (by rw [hd]; exact List.mem_cons_of_mem _ hm)
  | @readAck sid n rest _ hd =>
    refine LastWordOf.update ⟨hi.stream, fun m hm => ?_, hi.completed⟩ _ fun m hm =>
      .inl (by rw [hd]; exact List.mem_cons_of_mem _ hm)
    rcases List.mem_append.mp hm with hm | hm
    · exact hi.inbox m hm
    · have : m = .ack n := toAckMsg_inj (List.mem_singleton.mp hm)
      subst this
      trivial
  | @readLast sid x rest _ hd =>
    refine LastWordOf.update ⟨hi.stream, fun m hm => ?_, hi.completed⟩ _ fun m hm =>
      .inl (by rw [hd]; exact List.mem_cons_of_mem _ hm)
    rcases List.mem_append.mp hm with hm | hm
    · exact hi.inbox m hm
    · have : m = x := toAckMsg_inj (List.mem_singleton.mp hm)
      subst this
      exact hi.stream sid m (by rw [hd]; exact List.mem_cons_self)
  | readEnd =>
    refine hi.popInbox fun m hm => ?_
    rcases List.mem_append.mp hm with hm | hm
    · exact hm
    · cases m <;> cases List.mem_singleton.mp hm
  | _ => exact hi

theorem step_lastWord {s s' : Transfer} {a : Act} (hi : LastWord s) (hc : Connect s) (h : s.step a = some s') :
    LastWord s' := by
  cases a with
  | reader a => cases readerStep_cases h <;> exact hi
  | ticket a => cases ticketStep_cases h <;> exact hi
  | pump a =>
    cases pumpStep_cases h with
    | linkUp | drainFin | write | postFin => exact hi.update _ fun m hm => .inl hm
    | _ => exact hi
  | ack a => exact ack_lastWord hi (ackStep_cases h)
  | link a =>
    cases linkStep_cases h with
    | outage => exact hi.update _ fun m hm => .inl (List.mem_of_mem_take hm)
    | restoreOpen => exact hi.update _ nofun
    | dropStream => exact hi.update _ fun m hm => .inl hm
    | _ => exact hi
  | down a => exact down_lastWord hi hc (downStep_cases h)

/-! ## The end of the tasks -/

theorem pump_exited_stays {s s' : Transfer} {a : Act} (hx : s.pump.pc = .exited) (h : s.step a = some s') :
    s'.pump.pc = .exited ∧ s'.pump.quicTx = s.pump.quicTx := by
  cases a with
  | reader a => cases readerStep_cases h <;> exact ⟨hx, rfl⟩
  | ticket a => cases ticketStep_cases h <;> exact ⟨hx, rfl⟩
  | pump a => cases pumpStep_cases h <;> simp_all
  | ack a => cases ackStep_cases h <;> exact ⟨hx, rfl⟩
  | link a => cases linkStep_cases h <;> exact ⟨hx, rfl⟩
  | down a => cases downStep_cases h <;> exact ⟨hx, rfl⟩

/-- A downlink that reads no more only reports and returns. -/
theorem down_ended_moves {s s' : Transfer} {a : Act} (hc : Connect s) (hx : s.down.pc.ended = true)
    (h : s.step a = some s') : s'.down.pc = s.down.pc ∨ s'.down.pc = .exited := by
  cases a with
  | reader a => cases readerStep_cases h <;> exact .inl rfl
  | ticket a => cases ticketStep_cases h <;> exact .inl rfl
  | pump a => cases pumpStep_cases h <;> exact .inl rfl
  | ack a => cases ackStep_cases h <;> exact .inl rfl
  | link a => cases linkStep_cases h <;> exact .inl rfl
  | down a =>
    cases downStep_cases h with
    | acceptConnect _ hu =>
      rw [hc.absent (hc.first _ _ hu)] at hx
      cases hx
    | start hpc | tcpAccept hpc | tcpAcceptFail hpc | gap _ hpc | writeFail _ hpc | eof hpc | readError hpc
    | resume hpc =>
      rw [hpc] at hx
      cases hx
    | report | lost => exact .inr rfl
    | _ => exact .inl rfl

theorem down_ended_stays {s s' : Transfer} {a : Act} (hc : Connect s) (hx : s.down.pc.ended = true)
    (h : s.step a = some s') : s'.down.pc.ended = true := by
  rcases down_ended_moves hc hx h with h' | h'
  · rw [h']
    exact hx
  · rw [h']
    rfl

theorem down_exited_stays {s s' : Transfer} {a : Act} (hc : Connect s) (hx : s.down.pc = .exited)
    (h : s.step a = some s') : s'.down.pc = .exited :=
  (down_ended_moves hc (by rw [hx]; rfl) h).elim (fun h' => h'.trans hx) id

/-- It writes nothing more, and only reports what it was going to. -/
theorem ended_frozen {s s' : Transfer} {a : Act} (hc : Connect s) (hx : s.down.pc.ended = true)
    (h : s.step a = some s') :
    s'.down.bytesWritten = s.down.bytesWritten ∧ s'.down.out = s.down.out ∧ s'.downReports = s.downReports := by
  cases a with
  | reader a => cases readerStep_cases h <;> exact ⟨rfl, rfl, rfl⟩
  | ticket a => cases ticketStep_cases h <;> exact ⟨rfl, rfl, rfl⟩
  | pump a => cases pumpStep_cases h <;> exact ⟨rfl, rfl, rfl⟩
  | ack a => cases ackStep_cases h <;> exact ⟨rfl, rfl, rfl⟩
  | link a => cases linkStep_cases h <;> exact ⟨rfl, rfl, rfl⟩
  | down a =>
    cases downStep_cases h with
    | acceptConnect _ hu =>
      rw [hc.absent (hc.first _ _ hu)] at hx
      cases hx
    | start hpc | tcpAccept hpc | tcpAcceptFail hpc | gap _ hpc | write _ hpc | writeAck _ hpc | writeFail _ hpc
    | eof hpc | readError hpc | resume hpc | lost hpc =>
      rw [hpc] at hx
      cases hx
    | report hpc =>
      refine ⟨rfl, rfl, ?_⟩
      unfold downReports
      rw [hpc]
      rfl
    | _ => exact ⟨rfl, rfl, rfl⟩

theorem ack_exited_stays {s s' : Transfer} {a : Act} (hx : s.ack = .exited) (h : s.step a = some s') :
    s'.ack = .exited ∧ s'.current = s.current := by
  cases a with
  | reader a => cases readerStep_cases h <;> exact ⟨hx, rfl⟩
  | ticket a => cases ticketStep_cases h <;> exact ⟨hx, rfl⟩
  | pump a => cases pumpStep_cases h <;> exact ⟨hx, rfl⟩
  | ack a => cases ackStep_cases h <;> simp_all [AckPc.selecting]
  | link a => cases linkStep_cases h <;> exact ⟨hx, rfl⟩
  | down a => cases downStep_cases h <;> exact ⟨hx, rfl⟩

/-- Why the ack task may have returned. -/
def Exits (s : Transfer) : Prop :=
  s.ack = .exited →
    s.down.pc.ended = true ∨ (s.pump.pc = .exited ∧ s.pump.quicTx < s.current) ∨
      (s.streams s.current).downEnded = true

/-- A reader sub-task that has ended leaves the receiver's last word in the inbox. -/
theorem Inbox.left {s : Transfer} (hb : Inbox s) (hx : s.ack ≠ .exited) (hr : s.ackReader = .exited) : s.ackRx ≠ [] := by
  unfold Inbox InboxOf at hb
  rw [if_neg hx, hr] at hb
  obtain ⟨_, acks, m, he, _⟩ := hb
  rw [he]
  simp

/-- Out of the main select only the end of the current stream's feedback leads. -/
theorem ended_of_reconnect {s : Transfer} (hb : Inbox s) (hf : Feedback s) (hx : s.ack ≠ .exited)
    (hm : mode s.ack ≠ .main) : mode s.ack = .reconnect ∧ s.ackReader = .waiting ∧ s.ackRx = [] ∧
      (s.streams s.current).downEnded = true := by
  unfold Inbox InboxOf at hb
  rw [if_neg hx] at hb
  cases hr : s.ackReader with
  | reading sid =>
    rw [hr] at hb
    exact absurd hb.2.1 hm
  | waiting =>
    rw [hr] at hb
    rcases hb with hb | hb
    · exact ⟨hb.1, rfl, hb.2, hf.ended hr⟩
    · exact absurd hb.1 hm
  | exited =>
    rw [hr] at hb
    exact absurd hb.1 hm

theorem step_exits {s s' : Transfer} {a : Act} (hi : Exits s) (hs : Sound s) (hr : Receiver s) (hf : Feedback s)
    (hw : LastWord s) (h : s.step a = some s') : Exits s' := by
  intro hx'
  by_cases hx : s.ack = .exited
  · have hcur := (ack_exited_stays hx h).2
    rcases hi hx with hd | ⟨hp, hlt⟩ | he
    · exact .inl (down_ended_stays hs.connect hd h)
    · obtain ⟨hp', htx⟩ := pump_exited_stays hp h
      exact .inr (.inl ⟨hp', by rw [hcur, htx]; exact hlt⟩)
    · rw [hcur]
      exact .inr (.inr (step_ended hr hs.lane.currentLt he h))
  · cases a with
    | reader a => cases readerStep_cases h <;> exact absurd hx' hx
    | ticket a => cases ticketStep_cases h <;> exact absurd hx' hx
    | pump a => cases pumpStep_cases h <;> exact absurd hx' hx
    | ack a =>
      cases ackStep_cases h with
      | done _ hrx => exact .inl (hw.inbox .done (by rw [hrx]; exact List.mem_cons_self)).1
      | @error f _ _ hrx => exact .inl (hw.inbox (.error f) (by rw [hrx]; exact List.mem_cons_self)).1
      | goneFail hk =>
        have hm := (ended_of_reconnect hs.inbox hf hx (by rw [hk]; simp [mode])).1
        rw [hk] at hm
        cases hm
      | streamReaderGone hk _ hne =>
        have hm : mode s.ack ≠ .main := by rw [(selecting_mode hk).2]; simp
        exact absurd (ended_of_reconnect hs.inbox hf hx hm).2.1 hne
      | noStream hk =>
        have hm : mode s.ack ≠ .main := by rw [(selecting_mode hk).2]; simp
        exact .inr (.inr (ended_of_reconnect hs.inbox hf hx hm).2.2.2)
      | @linkUpFail sid hk hp =>
        have hl := hs.lane
        simp only [Lane, hk, pendingUp] at hl
        have hlt := (List.pairwise_cons.mp hl.resumedOrder).1 sid (by simp)
        have hle := hl.resumedLe sid (by simp)
        exact .inr (.inl ⟨hp, Nat.lt_of_lt_of_le hlt hle⟩)
      | _ => first | exact absurd hx' hx | cases hx'
    | link a => cases linkStep_cases h <;> exact absurd hx' hx
    | down a => cases downStep_cases h <;> exact absurd hx' hx

/-! ## Every run -/

structure Living (s : Transfer) : Prop where
  sound : Sound s
  streams : Streams s
  receiver : Receiver s
  feedback : Feedback s
  lastWord : LastWord s
  exits : Exits s

theorem init_living (capped : Bool) : Living (init capped) :=
  ⟨init_sound capped, init_streamsOk capped, init_receiver capped, init_feedback capped, init_lastWord capped, nofun⟩

theorem step_living {s s' : Transfer} {a : Act} (hi : Living s) (h : s.step a = some s') : Living s' :=
  ⟨step_sound hi.sound h, step_streams hi.streams hi.sound.lane hi.receiver hi.feedback h,
    step_receiver hi.receiver hi.sound.connect h, step_feedback hi.feedback hi.receiver hi.sound.lane h,
    step_lastWord hi.lastWord hi.sound.connect h,
    step_exits hi.exits hi.sound hi.receiver hi.feedback hi.lastWord h⟩

theorem reach_living {capped : Bool} {ok : Transfer → Act → Prop} {s : Transfer} (h : Reach step ok (init capped) s) :
    Living s :=
  h.invariant (init_living capped) fun hi _ hs => step_living hi hs

/-- An uncut stream is the newest. -/
theorem Living.newest {s : Transfer} (hi : Living s) {sid : Nat} (hlt : sid < s.opened)
    (hc : (s.streams sid).cut = false) : sid + 1 = s.opened := by
  by_contra hne
  have := hi.streams.older sid (by omega)
  rw [hc] at this
  cases this

/-- A live stream with a chunk on it is the one that the pump and the ack task are on. -/
theorem Living.on_current {s : Transfer} (hi : Living s) {sid offset : Nat} {payload : List UInt8} {rest : List UpFrame}
    (hu : (s.streams sid).up = .chunk offset payload :: rest) (hc : (s.streams sid).cut = false) :
    sid = s.current ∧ s.pump.quicTx = s.current := by
  have hlt : sid < s.opened := by
    by_contra hge
    rw [hi.streams.unused sid (by omega)] at hu
    cases hu
  have hle : sid ≤ s.pump.quicTx := by
    by_contra hgt
    have hnil := (hi.sound.bytes.fresh sid (by omega)).1
    rw [hu] at hnil
    cases hnil
  have htx : s.pump.quicTx ≤ s.current := hi.sound.lane.resumedLe _ List.mem_cons_self
  have hcur := hi.sound.lane.currentLt
  have hnew := hi.newest hlt hc
  omega

end Quelay.Agent.Transfer
