/-
  Quelay.Agent.Transfer.Backpressure — when the reader that waits for spool space goes on.

  Space comes from acks. The receiver sends one for each interval it has written since
  the last one it sent, whether or not that one arrived; a replay that it skips as
  duplicate is not acknowledged again. So an outage that destroys acks leaves the spool
  full of bytes the receiver has, and nothing frees them until a whole new interval is
  written (`lost_acks_block_reader`). The spool can spare `tolerated` bytes: as long as
  a downlink resumes only when at most that much of what it acknowledged has been lost,
  a spool whose bytes are all delivered has room for a chunk (`delivered_frees_space`).
-/

import Quelay.Agent.Transfer.Life

namespace Quelay.Agent.Transfer

open Quelay.Lib

/-! ## Acks on their way -/

/-- The offset up to which a message releases the spool. -/
def AckMsg.upTo : AckMsg → Nat
  | .ack n => n
  | _ => 0

/-- The spool is released up to `n`, or will be by an ack on its way. -/
def ArrivesOf (acked : Nat) (ackRx : List AckMsg) (down : List WormholeMsg) (n : Nat) : Prop :=
  n ≤ acked ∨ (∃ m ∈ ackRx, n ≤ AckMsg.upTo m) ∨ ∃ m ∈ down, n ≤ AckMsg.upTo m.toAckMsg

def Arrives (s : Transfer) (n : Nat) : Prop :=
  ArrivesOf s.spool.bytesAcked s.ackRx (s.streams s.current).down n

instance (s : Transfer) (n : Nat) : Decidable (s.Arrives n) :=
  inferInstanceAs (Decidable (_ ∨ (∃ m ∈ s.ackRx, _) ∨ ∃ m ∈ (s.streams s.current).down, _))

/-- What the spool can hold beyond a free chunk and an interval not acknowledged yet. -/
def tolerated : Nat := spoolCapacity - chunkSize - ackInterval + 1

variable {acked n : Nat} {ackRx : List AckMsg} {down : List WormholeMsg}

theorem ArrivesOf.mono (h : ArrivesOf acked ackRx down n) {acked' : Nat} {ackRx' : List AckMsg}
    {down' : List WormholeMsg} (ha : acked ≤ acked') (hrx : ∀ m ∈ ackRx, m ∈ ackRx') (hd : ∀ m ∈ down, m ∈ down') :
    ArrivesOf acked' ackRx' down' n := by
  rcases h with h | ⟨m, hm, h⟩ | ⟨m, hm, h⟩
  · exact .inl (Nat.le_trans h ha)
  · exact .inr (.inl ⟨m, hrx m hm, h⟩)
  · exact .inr (.inr ⟨m, hd m hm, h⟩)

/-- The ack task takes a message. -/
theorem ArrivesOf.pop {m : AckMsg} (h : ArrivesOf acked (m :: ackRx) down n) {acked' : Nat} (ha : acked ≤ acked')
    (hm : AckMsg.upTo m ≤ acked') : ArrivesOf acked' ackRx down n := by
  rcases h with h | ⟨m', hm', h⟩ | h
  · exact .inl (Nat.le_trans h ha)
  · rcases List.mem_cons.mp hm' with rfl | hm'
    · exact .inl (Nat.le_trans h hm)
    · exact .inr (.inl ⟨m', hm', h⟩)
  · exact .inr (.inr h)

/-- The reader sub-task hands a message over. -/
theorem ArrivesOf.read {m : WormholeMsg} (h : ArrivesOf acked ackRx (m :: down) n) :
    ArrivesOf acked (ackRx ++ [m.toAckMsg]) down n := by
  rcases h with h | ⟨m', hm', h⟩ | ⟨m', hm', h⟩
  · exact .inl h
  · exact .inr (.inl ⟨m', List.mem_append_left _ hm', h⟩)
  · rcases List.mem_cons.mp hm' with rfl | hm'
    · exact .inr (.inl ⟨_, List.mem_append_right _ (List.mem_singleton_self _), h⟩)
    · exact .inr (.inr ⟨m', hm', h⟩)

/-- Nothing is on its way. -/
theorem ArrivesOf.le_of_quiet (h : ArrivesOf acked ackRx down n) (hrx : ∀ k, .ack k ∉ ackRx) (hd : ∀ k, .ack k ∉ down) :
    n ≤ acked := by
  rcases h with h | ⟨m, hm, h⟩ | ⟨m, hm, h⟩
  · exact h
  · cases m with
    | ack k => exact absurd hm (hrx k)
    | _ => exact Nat.le_trans h (Nat.zero_le _)
  · cases m with
    | ack k => exact absurd hm (hd k)
    | _ => exact Nat.le_trans h (Nat.zero_le _)

/-! ## The receiver's last ack -/

/-- Less than an interval has been written since the last ack. -/
def Acking (s : Transfer) : Prop :=
  s.down.lastAcked ≤ s.down.bytesWritten ∧ s.down.bytesWritten < s.down.lastAcked + ackInterval

theorem step_acking {s s' : Transfer} {a : Act} (hi : Acking s) (h : s.step a = some s') : Acking s' := by
  cases a with
  | reader a => cases readerStep_cases h <;> exact hi
  | ticket a => cases ticketStep_cases h <;> exact hi
  | pump a => cases pumpStep_cases h <;> exact hi
  | ack a => cases ackStep_cases h <;> exact hi
  | link a => cases linkStep_cases h <;> exact hi
  | down a =>
    cases downStep_cases h with
    | tcpAccept => exact ⟨Nat.le_refl _, Nat.lt_add_of_pos_right (by decide)⟩
    | @write sid offset payload rest _ _ _ _ _ hlt =>
      have hle := hi.1
      constructor
      · show s.down.lastAcked ≤ s.down.bytesWritten + (trimmed s.down offset payload).length
        omega
      · show s.down.bytesWritten + (trimmed s.down offset payload).length < s.down.lastAcked + ackInterval
        omega
    | writeAck => exact ⟨Nat.le_refl _, Nat.lt_add_of_pos_right (by decide)⟩
    | _ => exact hi

/-- The streams a step of the downlink resumes on. -/
def resuming (s : Transfer) : Act → List Nat
  | .down .resume => s.down.streamRx.take 1
  | _ => []

/-- A downlink goes on with a live stream only if at most `tolerated` bytes of what it
    has acknowledged are lost to the spool. -/
def fewAcksLost (s : Transfer) (a : Act) : Prop :=
  ∀ sid ∈ resuming s a, (s.streams sid).cut = false → Arrives s (s.down.lastAcked - tolerated)

instance (s : Transfer) (a : Act) : Decidable (fewAcksLost s a) :=
  inferInstanceAs (Decidable (∀ sid ∈ resuming s a, _))

def CoveredOf (d : Downlink) (streams : Nat → QStream) (ack : AckPc) (acked : Nat) (ackRx : List AckMsg)
    (current : Nat) : Prop :=
  ∀ sid, d.pc = .reading sid → (streams sid).cut = false → ack ≠ .exited →
    ArrivesOf acked ackRx (streams current).down (d.lastAcked - tolerated)

/-- While the downlink reads a live stream, the spool gets all but `tolerated` bytes of
    what it has acknowledged. -/
def Covered (s : Transfer) : Prop := CoveredOf s.down s.streams s.ack s.spool.bytesAcked s.ackRx s.current

variable {d : Downlink} {streams : Nat → QStream} {ack : AckPc} {current : Nat}

/-- One stream changes: it does not come back to life, and loses no ack. -/
theorem CoveredOf.update (hi : CoveredOf d streams ack acked ackRx current) (i : Nat) {q' : QStream}
    (hc : q'.cut = false → (streams i).cut = false) (hd : ∀ m ∈ (streams i).down, m ∈ q'.down) :
    CoveredOf d (Function.update streams i q') ack acked ackRx current := by
  intro sid hpc hcut hx
  have hcut' : (streams sid).cut = false := by
    by_cases h : sid = i
    · subst h
      rw [Function.update_self] at hcut
      exact hc hcut
    · rwa [Function.update_of_ne h] at hcut
  refine (hi sid hpc hcut' hx).mono (Nat.le_refl _) (fun m hm => hm) fun m hm => ?_
  by_cases h : current = i
  · subst h
    rw [Function.update_self]
    exact hd m hm
  · rwa [Function.update_of_ne h]

/-- The reader sub-task hands a message of the current stream over. -/
theorem CoveredOf.read (hi : CoveredOf d streams ack acked ackRx current) {m : WormholeMsg} {rest : List WormholeMsg}
    (hd : (streams current).down = m :: rest) :
    CoveredOf d (Function.update streams current { streams current with down := rest }) ack acked
      (ackRx ++ [m.toAckMsg]) current := by
  intro sid hpc hcut hx
  have hcut' : (streams sid).cut = false := by
    by_cases h : sid = current
    · subst h
      rwa [Function.update_self] at hcut
    · rwa [Function.update_of_ne h] at hcut
  have harr := hi sid hpc hcut' hx
  rw [hd] at harr
  rw [Function.update_self]
  exact harr.read

theorem CoveredOf.idle (h : ∀ sid, d.pc ≠ .reading sid) : CoveredOf d streams ack acked ackRx current :=
  fun sid hpc => absurd hpc (h sid)

/-- The downlink acknowledges all it has written, on the current stream. -/
theorem CoveredOf.sendAck {sid : Nat} {q' : QStream} (hpc : d.pc = .reading sid) (hsid : q'.cut = false → sid = current)
    (hm : q'.cut = false → .ack d.lastAcked ∈ q'.down) :
    CoveredOf d (Function.update streams sid q') ack acked ackRx current := by
  intro i hpc' hcut _
  have hi : i = sid := by
    rw [hpc] at hpc'
    cases hpc'
    rfl
  subst hi
  rw [Function.update_self] at hcut
  have hcur := hsid hcut
  subst hcur
  rw [Function.update_self]
  exact .inr (.inr ⟨_, hm hcut, Nat.sub_le ..⟩)

theorem ack_covered {s s' : Transfer} {a : AckAct} (hi : Covered s) (hl : Living s) (h : AckCase s a s') :
    Covered s' := by
  cases h with
  | ackNew hk hrx | ackOld hk hrx =>
    intro sid hpc hcut _
    obtain ⟨hx, _⟩ := selecting_mode hk
    have hb := hl.sound.bytes
    have hin := hb.inbox _ (by rw [hrx]; exact List.mem_cons_self)
    have hA := SpoolBuffer.ack_bytesAcked hb.holds (Nat.le_trans hin hb.outOk.le)
    have harr := hi sid hpc hcut hx
    rw [hrx] at harr
    exact harr.pop (by rw [hA]; omega) (by rw [hA]; exact Nat.le_max_right ..)
  | streamError hk hrx | streamErrorDropped hk hrx =>
    intro sid hpc hcut _
    obtain ⟨hx, _⟩ := selecting_mode hk
    have harr := hi sid hpc hcut hx
    rw [hrx] at harr
    exact harr.pop (Nat.le_refl _) (Nat.zero_le _)
  | done | error | goneFail | streamReaderGone | noStream | linkUpFail => exact fun _ _ _ hx => absurd rfl hx
  | stream hk =>
    intro sid hpc hcut _
    obtain ⟨hx, hm⟩ := selecting_mode hk
    -- The old stream's feedback has ended and the inbox is empty: nothing was on its way.
    obtain ⟨_, _, hempty, hend⟩ := ended_of_reconnect hl.sound.inbox hl.feedback hx (by rw [hm]; simp)
    have harr := hi sid hpc hcut hx
    simp only [QStream.downEnded, Bool.and_eq_true, List.isEmpty_iff] at hend
    rw [hempty, hend.1] at harr
    exact .inl (harr.le_of_quiet (by simp) (by simp))
  | readMsgClosed _ _ hx => exact fun _ _ _ hx' => absurd hx hx'
  | readAck hr hd hx | readLast hr hd _ hx =>
    have hsid := hl.feedback.reading _ hr
    subst hsid
    exact hi.read hd
  | readEnd _ _ hx =>
    intro sid hpc hcut _
    exact (hi sid hpc hcut hx).mono (Nat.le_refl _) (fun m hm => List.mem_append_left _ hm) fun m hm => hm
  | checkEof hk | checkNone hk | finishClosed hk | finish hk | pollPermit hk | pollPark hk | wake hk | space _ hk
  | linkUp hk =>
    exact fun sid hpc hcut _ => hi sid hpc hcut (by rw [hk]; simp)
  | gone hk => exact fun sid hpc hcut _ => hi sid hpc hcut (selecting_mode hk).1
  | readEndClosed | readerClosed => exact hi

theorem down_covered {s s' : Transfer} {a : DownAct} (hi : Covered s) (hl : Living s) (hok : fewAcksLost s (.down a))
    (h : DownCase s a s') : Covered s' := by
  cases h with
  | acceptConnect | start | tcpAcceptFail | gap | writeFail | eof | report | readError | lost => exact .idle nofun
  | acceptReconnect | acceptRefused | duplicate | write | dropStream => exact hi.update _ (fun h => h) fun m hm => hm
  | @tcpAccept sid hpc =>
    intro _ _ _ _
    have h0 : s.down.bytesWritten = 0 := hl.receiver.quiet (by rw [hpc]; rfl)
    show ArrivesOf _ _ _ (s.down.bytesWritten - tolerated)
    rw [h0, Nat.zero_sub]
    exact .inl (Nat.zero_le _)
  | writeAck _ hpc hu =>
    refine CoveredOf.sendAck hpc (fun hc => (hl.on_current hu hc).1) fun hc => ?_
    have hc' : (s.streams _).cut = false := hc
    simp [QStream.writeMsg, hc']
  | resume hpc hrx =>
    intro sid hpc' hcut hx
    cases hpc'
    exact hok _ (by simp [resuming, hrx]) hcut
  | dropHandle => exact hi
  | acceptSkip => exact hi

theorem step_covered {s s' : Transfer} {a : Act} (hi : Covered s) (hl : Living s) (hl' : Living s')
    (hok : fewAcksLost s a) (h : s.step a = some s') : Covered s' := by
  cases a with
  | reader a => cases readerStep_cases h <;> exact hi
  | ticket a => cases ticketStep_cases h <;> exact hi
  | pump a =>
    cases pumpStep_cases h with
    | linkUp | drainFin | write | postFin => exact hi.update _ (fun h => h) fun m hm => hm
    | _ => exact hi
  | ack a => exact ack_covered hi hl (ackStep_cases h)
  | link a =>
    cases linkStep_cases h with
    | outage =>
      -- The outage leaves no live stream.
      intro sid hpc hcut
      have hlt := hl.receiver.holding sid ⟨by rw [hpc]; rfl, .inr (.inl hpc)⟩
      have hacc := hl.receiver.accepted
      have := hl'.streams.offline (.inl rfl) sid (Nat.lt_of_lt_of_le hlt hacc)
      rw [hcut] at this
      cases this
    | restoreOpen =>
      have hblank := hl.streams.unused s.opened (Nat.le_refl _)
      exact hi.update _ (fun _ => by rw [hblank]; rfl) fun m hm => by rw [hblank] at hm; cases hm
    | dropStream => exact hi.update _ (fun h => h) fun m hm => hm
    | _ => exact hi
  | down a => exact down_covered hi hl hok (downStep_cases h)

/-! ## The reader's wait -/

/-- A reader on its way into the wait, or in it, waits for space that is not there, or
    has been or will be notified. -/
def SpaceOf (reader : ReaderPc) (space : Notify Unit) (full : Prop) (ack : AckPc) : Prop :=
  match reader with
  | .spacePoll => space.waiters = [] ∧ space.woken = [] ∧ (full ∨ space.permit = true ∨ ack = .space)
  | .spaceParked =>
    (space.waiters = [()] ∧ space.woken = [] ∧ (full ∨ ack = .space)) ∨ (space.waiters = [] ∧ space.woken = [()])
  | _ => space.waiters = [] ∧ space.woken = []

def Space (s : Transfer) : Prop := SpaceOf s.reader s.spaceReady (s.spool.available < chunkSize) s.ack

theorem SpaceOf.mono {reader : ReaderPc} {space : Notify Unit} {full full' : Prop} {ack' : AckPc}
    (h : SpaceOf reader space full ack) (hf : full → full' ∨ ack' = .space) (ha : ack = .space → ack' = .space) :
    SpaceOf reader space full' ack' := by
  cases reader with
  | spacePoll =>
    obtain ⟨h1, h2, h3⟩ := h
    refine ⟨h1, h2, ?_⟩
    rcases h3 with h3 | h3 | h3
    · exact (hf h3).imp_right .inr
    · exact .inr (.inl h3)
    · exact .inr (.inr (ha h3))
  | spaceParked =>
    rcases h with ⟨h1, h2, h3⟩ | h
    · exact .inl ⟨h1, h2, h3.elim hf fun h => .inr (ha h)⟩
    · exact .inr h
  | _ => exact h

theorem SpaceOf.notifyOne {reader : ReaderPc} {space : Notify Unit} {full : Prop} (h : SpaceOf reader space full ack)
    (ack' : AckPc) : SpaceOf reader space.notifyOne full ack' := by
  cases reader with
  | spacePoll => simp [SpaceOf, Notify.notifyOne, h.1, h.2.1]
  | spaceParked =>
    rcases h with ⟨h1, h2, _⟩ | ⟨h1, h2⟩
    · exact .inr (by simp [Notify.notifyOne, h1, h2])
    · exact .inr (by simp [Notify.notifyOne, h1, h2])
  | _ => simpa [SpaceOf, Notify.notifyOne, h.1] using h.2

theorem step_space {s s' : Transfer} {a : Act} (hi : Space s) (h : s.step a = some s') : Space s' := by
  have keep : ∀ ack', s.ack ≠ .space → SpaceOf s.reader s.spaceReady (s.spool.available < chunkSize) ack' :=
    fun ack' hne => hi.mono .inl fun h => absurd h hne
  cases a with
  | reader a =>
    cases readerStep_cases h with
    | accept hr | acceptFail hr | spaceOk hr | read _ hr | eof hr | eofAgain hr | readFail hr | failedEof hr
    | failedEofAgain hr | store hr =>
      simp only [Space, SpaceOf, hr] at hi
      exact hi
    | spaceNone hr hfull =>
      simp only [Space, SpaceOf, hr] at hi
      exact ⟨hi.1, hi.2, .inl hfull⟩
    | spacePermit hr =>
      simp only [Space, SpaceOf, hr] at hi
      exact ⟨hi.1, hi.2.1⟩
    | spacePark hr hp =>
      simp only [Space, SpaceOf, hr, hp] at hi
      obtain ⟨h1, h2, h3⟩ := hi
      exact .inl ⟨by simp [Notify.park, h1], h2, by simpa using h3⟩
    | spaceWake hr hw =>
      simp only [Space, SpaceOf, hr] at hi
      rcases hi with ⟨_, h2, _⟩ | ⟨h1, h2⟩
      · rw [h2] at hw
        cases hw
      · exact ⟨h1, by simp [Notify.resume, h2]⟩
    | @notify last hr =>
      simp only [Space, SpaceOf, hr] at hi
      cases last <;> exact hi
    | _ => exact hi
  | ticket a => cases ticketStep_cases h <;> exact hi
  | pump a => cases pumpStep_cases h <;> exact hi
  | ack a =>
    cases ackStep_cases h with
    | checkEof hk | checkNone hk | finishClosed hk | finish hk | pollPermit hk | pollPark hk | wake hk | goneFail hk
    | linkUp hk | linkUpFail hk =>
      exact keep _ (by rw [hk]; simp)
    | done hk | error hk | streamError hk | streamErrorDropped hk | gone hk | stream hk | streamReaderGone hk
    | noStream hk =>
      exact keep _ fun hs => by rw [hs] at hk; cases hk
    | ackNew => exact hi.mono (fun _ => .inr rfl) fun _ => rfl
    | ackOld hk _ hle =>
      have hsame : ∀ n ≤ s.spool.bytesAcked, s.spool.ack n = s.spool := fun n h => if_pos h
      show SpaceOf _ _ ((s.spool.ack _).available < chunkSize) _
      rw [hsame _ hle]
      exact keep _ fun hs => by rw [hs] at hk; cases hk
    | space => exact hi.notifyOne _
    | _ => exact hi
  | link a => cases linkStep_cases h <;> exact hi
  | down a => cases downStep_cases h <;> exact hi

/-! ## A pump that does not run -/

/-- The stream takes no more writes. -/
def Dead (q : QStream) : Prop := q.cut = true ∨ q.stopped = true

def WaitingOf (pump : StreamPump) (acked : Nat) (streams : Nat → QStream) : Prop :=
  pump.pc = .waitUp ∨ pump.pc = .store .waitUp → pump.q ≤ acked ∨ Dead (streams pump.quicTx)

/-- A pump that waits for a link has rewound, or its stream is dead. -/
def Waiting (s : Transfer) : Prop := WaitingOf s.pump s.spool.bytesAcked s.streams

theorem WaitingOf.update {pump : StreamPump} (hi : WaitingOf pump acked streams) (sid : Nat) {q' : QStream}
    (hq : Dead (streams sid) → Dead q') : WaitingOf pump acked (Function.update streams sid q') := by
  intro hw
  exact (hi hw).imp_right fun hd => of_update hd hq

theorem WaitingOf.runs {pump : StreamPump} (h : running pump = true) : WaitingOf pump acked streams := by
  intro hw
  rcases hw with hw | hw <;> simp [running, hw] at h

theorem step_waiting {s s' : Transfer} {a : Act} (hi : Waiting s) (hl : Living s) (h : s.step a = some s') :
    Waiting s' := by
  cases a with
  | reader a => cases readerStep_cases h <;> exact hi
  | ticket a => cases ticketStep_cases h <;> exact hi
  | pump a =>
    cases pumpStep_cases h with
    | linkDown => exact fun _ => .inl (Nat.le_refl _)
    | writeFail _ hx => exact fun _ => .inr hx
    | finishWaiting hpc => exact fun _ => hi (.inl hpc)
    | @store next hpc =>
      intro hw
      cases next with
      | waitUp => exact hi (.inr hpc)
      | drain => rcases hw with hw | hw <;> cases hw
      | select => rcases hw with hw | hw <;> cases hw
    | linkUpIgnored | discard => exact hi
    | postFin | postDone | closed => exact fun hw => by rcases hw with hw | hw <;> cases hw
    | _ => exact .runs rfl
  | ack a =>
    cases ackStep_cases h with
    | ackNew _ hrx | ackOld _ hrx =>
      intro hw
      have hb := hl.sound.bytes
      have hin := hb.inbox _ (by rw [hrx]; exact List.mem_cons_self)
      have hA := SpoolBuffer.ack_bytesAcked hb.holds (Nat.le_trans hin hb.outOk.le)
      refine (hi hw).imp_left fun hq => ?_
      show s.pump.q ≤ (s.spool.ack _).bytesAcked
      rw [hA]
      exact Nat.le_trans hq (Nat.le_max_left ..)
    | readMsgClosed | readAck | readLast => exact hi.update _ fun h => h
    | _ => exact hi
  | link a =>
    cases linkStep_cases h with
    | outage => exact hi.update _ fun _ => .inl rfl
    | restoreOpen =>
      have hblank := hl.streams.unused s.opened (Nat.le_refl _)
      exact hi.update _ fun hd => by rw [hblank] at hd; rcases hd with hd | hd <;> cases hd
    | dropStream => exact hi.update _ fun h => h
    | _ => exact hi
  | down a =>
    cases downStep_cases h with
    | acceptConnect | acceptReconnect | acceptRefused | tcpAcceptFail | duplicate | gap | write | writeAck | writeFail
    | eof => exact hi.update _ fun h => h
    | dropStream => exact hi.update _ fun h => .inr rfl
    | _ => exact hi

/-- A pump that ended before it had sent FIN did so after the ack task. -/
def Abandoned (s : Transfer) : Prop :=
  s.pump.pc = .exited → s.pump.done = false →
    s.ack = .exited ∧ (s.down.pc.ended = true ∨ (s.streams s.current).downEnded = true)

theorem step_abandoned {s s' : Transfer} {a : Act} (hi : Abandoned s) (hl : Living s) (h : s.step a = some s') :
    Abandoned s' := by
  have keep : s.pump.pc = .exited → s.pump.done = false → s'.ack = .exited ∧
      (s'.down.pc.ended = true ∨ (s'.streams s'.current).downEnded = true) := by
    intro hx hd
    obtain ⟨hack, hend⟩ := hi hx hd
    obtain ⟨hack', hcur⟩ := ack_exited_stays hack h
    refine ⟨hack', hend.imp (fun hdown => down_ended_stays hl.sound.connect hdown h) fun he => ?_⟩
    rw [hcur]
    exact step_ended hl.receiver hl.sound.lane.currentLt he h
  cases a with
  | reader a => cases readerStep_cases h <;> exact keep
  | ticket a => cases ticketStep_cases h <;> exact keep
  | pump a =>
    cases pumpStep_cases h with
    | postFin => exact fun _ hd => by cases hd
    | postDone _ hdone => exact fun _ hd => by rw [hdone] at hd; cases hd
    | closed hpc _ hack =>
      intro _ _
      refine ⟨hack, ?_⟩
      rcases hl.exits hack with hd | ⟨hp, _⟩ | he
      · exact .inl hd
      · rcases hpc with hpc | hpc <;> · rw [hp] at hpc; cases hpc
      · exact .inr he
    | linkUpIgnored | finishWaiting | discard => exact keep
    | @store next => cases next <;> exact nofun
    | _ => exact nofun
  | ack a => cases ackStep_cases h <;> exact keep
  | link a => cases linkStep_cases h <;> exact keep
  | down a => cases downStep_cases h <;> exact keep

/-! ## Everything is delivered -/

/-- The link is up, and everything has been sent, processed and acknowledged as far as
    it will be: the pump and the downlink are on the current stream, nothing is left on
    it in either direction, and the ack task has no ack in its inbox or in its hands. -/
structure Quiescent (s : Transfer) : Prop where
  live : (s.streams s.current).cut = false
  pump : s.pump.quicTx = s.current
  sent : s.pump.q = s.spool.headOffset
  down : s.down.pc = .reading s.current
  processed : (s.streams s.current).up = []
  noAck : ∀ n, .ack n ∉ (s.streams s.current).down
  inbox : ∀ n, .ack n ∉ s.ackRx
  handled : s.ack ≠ .space

/-- What a run that loses few acks keeps. -/
structure Flowing (s : Transfer) : Prop where
  living : Living s
  acking : Acking s
  covered : Covered s
  space : Space s
  waiting : Waiting s
  abandoned : Abandoned s

theorem init_flowing (capped : Bool) : Flowing (init capped) :=
  ⟨init_living capped, ⟨Nat.le_refl _, Nat.lt_add_of_pos_right (by decide)⟩, .idle nofun, ⟨rfl, rfl⟩, .runs rfl, nofun⟩

theorem step_flowing {s s' : Transfer} {a : Act} (hi : Flowing s) (hok : fewAcksLost s a) (h : s.step a = some s') :
    Flowing s' := by
  have hl' := step_living hi.living h
  exact ⟨hl', step_acking hi.acking h, step_covered hi.covered hi.living hl' hok h, step_space hi.space h,
    step_waiting hi.waiting hi.living h, step_abandoned hi.abandoned hi.living h⟩

theorem reach_flowing {capped : Bool} {s : Transfer} (h : Reach step fewAcksLost (init capped) s) : Flowing s :=
  h.invariant (init_flowing capped) fun hi hok hs => step_flowing hi hok hs

theorem Quiescent.holding {s : Transfer} (hq : Quiescent s) : Holding s.down s.current :=
  ⟨by rw [hq.down]; rfl, .inr (.inl hq.down)⟩

theorem Quiescent.not_ended {s : Transfer} (hq : Quiescent s) (hl : Living s) :
    (s.streams s.current).downEnded = false := by
  simp [QStream.downEnded, hq.live, hq.holding.downFin hl.receiver]

/-- The receiver has written everything, or the spool has been released altogether. -/
theorem Quiescent.written {s : Transfer} (hq : Quiescent s) (hf : Flowing s) :
    s.pushed.length ≤ s.down.bytesWritten := by
  have hl := hf.living
  have hb := hl.sound.bytes
  have hsent := hq.sent
  rw [hb.holds.headOffset] at hsent
  by_cases hr : running s.pump = true
  · obtain ⟨o, e, ho, _, hrun, hcut⟩ := hb.pumpOk.run hr
    rw [hq.pump, hq.processed] at hrun
    rw [hq.pump] at hcut
    have he := hcut hq.live
    cases hrun
    omega
  · -- A pump that waits on a live stream has rewound; one that ended early left an ended stream.
    have hpc : s.pump.pc = .waitUp ∨ s.pump.pc = .store .waitUp ∨ (s.pump.pc = .exited ∧ s.pump.done = false) := by
      unfold running at hr
      split at hr <;> simp_all
    have hwait : s.pump.pc = .waitUp ∨ s.pump.pc = .store .waitUp → s.pushed.length ≤ s.down.bytesWritten := by
      intro hw
      have hA := hb.acked
      rcases hf.waiting hw with h | h
      · omega
      · rw [hq.pump] at h
        rcases h with h | h
        · rw [hq.live] at h; cases h
        · rw [hq.holding.stopped hl.receiver] at h; cases h
    rcases hpc with hpc | hpc | ⟨hpc, hd⟩
    · exact hwait (.inl hpc)
    · exact hwait (.inr hpc)
    · rcases (hf.abandoned hpc hd).2 with h | h
      · rw [hq.down] at h; cases h
      · rw [hq.not_ended hl] at h; cases h

theorem Quiescent.frees_space {s : Transfer} (hq : Quiescent s) (hf : Flowing s) :
    chunkSize ≤ s.spool.available ∧ (s.reader = .spaceParked → () ∈ s.spaceReady.woken) := by
  have hb := hf.living.sound.bytes
  have hwritten := hq.written hf
  have hx : s.ack ≠ .exited := by
    intro hx
    rcases hf.living.exits hx with hd | ⟨_, hlt⟩ | he
    · rw [hq.down] at hd
      cases hd
    · rw [hq.pump] at hlt
      omega
    · rw [hq.not_ended hf.living] at he
      cases he
  have hacked := (hf.covered _ hq.down hq.live hx).le_of_quiet hq.inbox hq.noAck
  have hroom : chunkSize ≤ s.spool.available := by
    have hlen := hb.holds.length
    have hsince := hf.acking.2
    simp only [SpoolBuffer.available, tolerated, spoolCapacity, chunkSize, ackInterval] at *
    omega
  refine ⟨hroom, fun hpark => ?_⟩
  have hspace := hf.space
  simp only [Space, SpaceOf, hpark] at hspace
  rcases hspace with ⟨_, _, hfull | hs⟩ | ⟨_, hw⟩
  · omega
  · exact absurd hs hq.handled
  · rw [hw]
    exact List.mem_singleton_self _

/-- If every downlink that resumes has lost few acks, then whenever everything is sent
    and processed the spool has room for a chunk, and a parked reader has been woken. -/
theorem delivered_frees_space {capped : Bool} {s : Transfer} (h : Reach step fewAcksLost (init capped) s)
    (hq : Quiescent s) :
    chunkSize ≤ s.spool.available ∧ (s.reader = .spaceParked → () ∈ s.spaceReady.woken) :=
  hq.frees_space (reach_flowing h)

/-- Two of three bytes are delivered, the link fails, and the replay is written. -/
theorem replay_frees_space :
    ∃ s, Reach step fewAcksLost (init true) s ∧ s.opened = 2 ∧ Quiescent s ∧ chunkSize ≤ s.spool.available := by
  obtain ⟨s, hr, hs⟩ := Reach.exists_run step fewAcksLost (init true)
    [[.reader .accept], writeAndPush [1, 2, 3], grant 2, sendChunk, startDownlink, [.down (.chunk false)], loseLink,
      restoreLink, resumePump, grant 9, sendChunk, resumeDownlink, [.down (.chunk false)]].flatten
    (fun s => s.opened = 2 ∧ (s.streams s.current).cut = false ∧ s.pump.quicTx = s.current ∧
      s.pump.q = s.spool.headOffset ∧ s.down.pc = .reading s.current ∧ (s.streams s.current).up = [] ∧
      (s.streams s.current).down = [] ∧ s.ackRx = [] ∧ s.ack ≠ .space) (by decide +kernel)
  obtain ⟨ho, hlive, hpump, hsent, hdown, hup, hfeed, hrx, hack⟩ := of_decide_eq_true hs
  have hq : Quiescent s :=
    ⟨hlive, hpump, hsent, hdown, hup, fun n => by simp [hfeed], fun n => by simp [hrx], hack⟩
  exact ⟨s, hr, ho, hq, (delivered_frees_space hr hq).1⟩

/-! ## A whole window of acks is lost -/

section LostAcks

-- One chunk's bytes. Left as a variable, since no step depends on what they are.
variable {b : List UInt8}

def blocks (b : List UInt8) (k : Nat) : List UInt8 := (List.replicate k b).flatten

theorem blocks_zero : blocks b 0 = [] := rfl

theorem blocks_succ (k : Nat) : blocks b (k + 1) = b ++ blocks b k := by
  simp only [blocks, List.replicate_succ, List.flatten_cons]

theorem blocks_snoc (k : Nat) : blocks b (k + 1) = blocks b k ++ b := by
  simp only [blocks, List.replicate_succ', List.flatten_append, List.flatten_cons, List.flatten_nil, List.append_nil]

theorem blocks_append (j k : Nat) : blocks b j ++ blocks b k = blocks b (j + k) := by
  simp only [blocks, ← List.flatten_append, List.replicate_append_replicate]

section Blocks

variable (hb : b.length = chunkSize)

include hb

theorem length_blocks (k : Nat) : (blocks b k).length = k * chunkSize := by
  simp [blocks, hb]

theorem take_blocks (k : Nat) : (blocks b (k + 1)).take chunkSize = b := by
  rw [blocks_succ, ← hb, List.take_left]

theorem drop_blocks (j k : Nat) : (blocks b (j + k)).drop (j * chunkSize) = blocks b k := by
  rw [← blocks_append, ← length_blocks hb, List.drop_left]

end Blocks

/-- The spool after `k` chunks. -/
def spooled (b : List UInt8) (k : Nat) : SpoolBuffer := ⟨blocks b k, 0, .at (k * chunkSize)⟩

def pushOnce : List Act := [.reader .space, .reader (.read chunkSize), .reader .store, .reader .notify]

theorem run_pushOnce (hb : b.length = chunkSize) {s : Transfer} {j k : Nat} (hr : s.reader = .space) (hsock : s.sock = blocks b (j + 1))
    (hspool : s.spool = spooled b k) (hk : k + 1 ≤ 64) :
    run step s pushOnce = some { s with
      sock := blocks b j
      pushed := s.pushed ++ b
      spool := spooled b (k + 1)
      headOffset := (k + 1) * chunkSize
      dataReady := s.dataReady.notifyOne
      reader := .space } := by
  have hroom : ¬ (spooled b k).available < chunkSize := by
    simp only [SpoolBuffer.available, spooled, length_blocks hb, spoolCapacity, chunkSize]
    omega
  have hlen : chunkSize ≤ (blocks b (j + 1)).length := by
    rw [length_blocks hb, Nat.add_mul]
    omega
  have hdrop : (blocks b (j + 1)).drop chunkSize = blocks b j := by
    rw [blocks_succ, ← hb, List.drop_left]
  have hpush : (spooled b k).push b = spooled b (k + 1) := by
    simp only [SpoolBuffer.push, spooled, blocks_snoc, hb, Nat.add_mul, Nat.one_mul]
  have hpos : 0 < chunkSize := by decide
  simp only [pushOnce, run, step, readerStep, hr, hspool, hsock, if_true, if_neg hroom, Option.bind_some, true_and, hpos, hlen,
    Nat.le_refl, and_self, take_blocks hb, hdrop, hpush]
  simp [SpoolBuffer.headOffset, spooled]

def pushLoop (j : Nat) : List Act := (List.replicate j pushOnce).flatten

theorem run_pushLoop (hb : b.length = chunkSize) (j : Nat) : ∀ {k : Nat} {s : Transfer}, s.reader = .space → s.sock = blocks b j → s.spool = spooled b k →
    s.headOffset = k * chunkSize → k + j ≤ 64 →
    ∃ dr, run step s (pushLoop j) = some { s with
      sock := blocks b 0
      pushed := s.pushed ++ blocks b j
      spool := spooled b (k + j)
      headOffset := (k + j) * chunkSize
      dataReady := dr } := by
  induction j with
  | zero =>
    intro k s hr hsock hspool hhead _
    refine ⟨s.dataReady, ?_⟩
    have hpushed : s.pushed ++ blocks b 0 = s.pushed := by rw [blocks_zero, List.append_nil]
    rw [hpushed, Nat.add_zero, ← hsock, ← hspool, ← hhead]
    rfl
  | succ j ih =>
    intro k s hr hsock hspool hhead hk
    obtain ⟨dr, hrun⟩ := ih (k := k + 1) (s := { s with
      sock := blocks b j
      pushed := s.pushed ++ b
      spool := spooled b (k + 1)
      headOffset := (k + 1) * chunkSize
      dataReady := s.dataReady.notifyOne
      reader := .space }) rfl rfl rfl rfl (by omega)
    refine ⟨dr, ?_⟩
    rw [pushLoop, List.replicate_succ, List.flatten_cons, run_append, run_pushOnce hb hr hsock hspool (by omega)]
    refine hrun.trans ?_
    simp [blocks_succ, hr, Nat.add_assoc, Nat.add_comm 1 j]

/-- The chunks that carry them, from the `k`-th on. -/
def frames (b : List UInt8) : Nat → Nat → List UpFrame
  | _, 0 => []
  | k, j + 1 => .chunk (k * chunkSize) b :: frames b (k + 1) j

def sendOnce : List Act := [.pump (.drain 0), .pump .write, .pump .store]

theorem sliceFrom_spooled (hb : b.length = chunkSize) (k j : Nat) : (spooled b (k + j)).sliceFrom 0 (k * chunkSize) = blocks b j := by
  simp [SpoolBuffer.sliceFrom, spooled, drop_blocks hb]

theorem run_sendOnce (hb : b.length = chunkSize) {s : Transfer} {j k : Nat} (hpc : s.pump.pc = .drain (.bytes ((j + 1) * chunkSize)))
    (hq : s.pump.q = k * chunkSize) (hspool : s.spool = spooled b (k + (j + 1)))
    (hcut : (s.streams s.pump.quicTx).cut = false) :
    run step s sendOnce = some { s with
      qAtomic := (k + 1) * chunkSize
      streams := Function.update s.streams s.pump.quicTx { s.streams s.pump.quicTx with
        up := (s.streams s.pump.quicTx).up ++ frames b k 1
        sent := (s.streams s.pump.quicTx).sent ++ b }
      pump := { s.pump with pc := .drain (.bytes (j * chunkSize)), q := (k + 1) * chunkSize } } := by
  have hpos : 0 < chunkSize := by decide
  have hz : (Budget.bytes ((j + 1) * chunkSize)).isZero = false := by
    simp only [Budget.isZero, beq_eq_false_iff_ne, Nat.add_mul]
    omega
  have heof : (spooled b (k + (j + 1))).atEof = false := rfl
  have hhead : ¬ (spooled b (k + (j + 1))).headOffset ≤ k * chunkSize := by
    simp only [SpoolBuffer.headOffset, spooled, Nat.add_mul]
    omega
  have hclip : (Budget.bytes ((j + 1) * chunkSize)).clip (min (blocks b (j + 1)).length chunkSize) = chunkSize := by
    simp only [Budget.clip, length_blocks hb, Nat.add_mul]
    omega
  have hne : b ≠ [] := by
    rintro rfl
    rw [← hb] at hpos
    cases hpos
  simp only [sendOnce, run, step, pumpStep, drainTurn, hpc, hq, hspool, hz, heof, if_neg hhead, Bool.false_eq_true, false_and,
    if_false, sliceFrom_spooled hb, hclip, take_blocks hb, if_neg hne, Option.bind_some]
  simp [setStream, QStream.write, hcut, frames, Budget.spend, hb, AfterStore.pc, Nat.add_mul]

def sendLoop (j : Nat) : List Act := (List.replicate j sendOnce).flatten

theorem run_sendLoop (hb : b.length = chunkSize) (j : Nat) : ∀ {k : Nat} {s : Transfer}, s.pump.pc = .drain (.bytes (j * chunkSize)) →
    s.pump.q = k * chunkSize → s.qAtomic = k * chunkSize → s.spool = spooled b (k + j) →
    (s.streams s.pump.quicTx).cut = false →
    ∃ sent, run step s (sendLoop j) = some { s with
      qAtomic := (k + j) * chunkSize
      streams := Function.update s.streams s.pump.quicTx { s.streams s.pump.quicTx with
        up := (s.streams s.pump.quicTx).up ++ frames b k j
        sent := sent }
      pump := { s.pump with pc := .drain (.bytes 0), q := (k + j) * chunkSize } } := by
  induction j with
  | zero =>
    intro k s hpc hq hqa _ _
    refine ⟨(s.streams s.pump.quicTx).sent, ?_⟩
    rw [Nat.zero_mul] at hpc
    have hstreams : Function.update s.streams s.pump.quicTx { s.streams s.pump.quicTx with
        up := (s.streams s.pump.quicTx).up ++ frames b k 0
        sent := (s.streams s.pump.quicTx).sent } = s.streams := by
      simp [frames]
    rw [hstreams, Nat.add_zero, ← hpc]
    nth_rewrite 1 [← hqa]
    rw [← hq]
    rfl
  | succ j ih =>
    intro k s hpc hq hqa hspool hcut
    have hone := run_sendOnce hb hpc hq hspool hcut
    obtain ⟨sent, hrun⟩ := ih (k := k + 1) (s := { s with
      qAtomic := (k + 1) * chunkSize
      streams := Function.update s.streams s.pump.quicTx { s.streams s.pump.quicTx with
        up := (s.streams s.pump.quicTx).up ++ frames b k 1
        sent := (s.streams s.pump.quicTx).sent ++ b }
      pump := { s.pump with pc := .drain (.bytes (j * chunkSize)), q := (k + 1) * chunkSize } })
      rfl rfl rfl (by rw [hspool]; congr 1; omega) (by simpa using hcut)
    refine ⟨sent, ?_⟩
    rw [sendLoop, List.replicate_succ, List.flatten_cons, run_append, hone]
    refine hrun.trans ?_
    simp [Nat.add_assoc, Nat.add_comm 1 j, frames]

def readLoop (j : Nat) : List Act := List.replicate j (.down (.chunk false))

/-- The receiver writes the chunks to its client. -/
theorem run_readLoop (hb : b.length = chunkSize) (j : Nat) : ∀ (k sid : Nat) {s : Transfer}, s.down.pc = .reading sid →
    (s.streams sid).up = frames b k j → s.down.bytesWritten = k * chunkSize →
    ∃ msgs lastAcked out, run step s (readLoop j) = some { s with
      streams := Function.update s.streams sid { s.streams sid with up := [], down := msgs }
      down := { s.down with bytesWritten := (k + j) * chunkSize, lastAcked := lastAcked, out := out } } := by
  induction j with
  | zero =>
    intro k sid s hpc hup hw
    refine ⟨(s.streams sid).down, s.down.lastAcked, s.down.out, ?_⟩
    have hstreams : Function.update s.streams sid { s.streams sid with up := [], down := (s.streams sid).down } =
        s.streams := by
      rw [frames] at hup
      rw [← hup]
      simp
    rw [hstreams, Nat.add_zero, ← hw]
    rfl
  | succ j ih =>
    intro k sid s hpc hup hw
    have hpos : 0 < chunkSize := by decide
    rw [frames] at hup
    -- One chunk, with or without an ack.
    have hone : ∃ msgs lastAcked out, step s (.down (.chunk false)) = some { s with
        streams := Function.update s.streams sid { s.streams sid with up := frames b (k + 1) j, down := msgs }
        down := { s.down with bytesWritten := (k + 1) * chunkSize, lastAcked := lastAcked, out := out } } := by
      have hnew : ¬ k * chunkSize + b.length ≤ k * chunkSize := by
        omega
      have hdata : trimmed s.down (k * chunkSize) b = b := by
        simp [trimmed, hw]
      obtain ⟨s', hs'⟩ : ∃ s', downStep s (.chunk false) = some s' := by
        simp only [downStep, hpc, hup, hw, if_neg hnew, Nat.lt_irrefl, if_false]
        exact ⟨_, rfl⟩
      show ∃ msgs lastAcked out, downStep s (.chunk false) = some _
      rw [hs']
      cases downStep_cases hs' with
      | duplicate _ hpc' hup' hle | gap _ hpc' hup' hle =>
        rw [hpc] at hpc'
        cases hpc'
        rw [hup] at hup'
        cases hup'
        omega
      | write _ hpc' hup' =>
        rw [hpc] at hpc'
        cases hpc'
        rw [hup] at hup'
        cases hup'
        refine ⟨(s.streams sid).down, s.down.lastAcked, s.down.out ++ b, ?_⟩
        simp [written, hdata, hw, hb, Nat.add_mul]
      | writeAck _ hpc' hup' =>
        rw [hpc] at hpc'
        cases hpc'
        rw [hup] at hup'
        cases hup'
        refine ⟨((s.streams sid).writeMsg (.ack ((k + 1) * chunkSize))).down, (k + 1) * chunkSize,
          s.down.out ++ b, ?_⟩
        simp [written, hdata, hw, hb, Nat.add_mul, QStream.writeMsg]
    obtain ⟨msgs, lastAcked, out, hone⟩ := hone
    obtain ⟨msgs', lastAcked', out', hrun⟩ := ih (k + 1) sid (s := { s with
        streams := Function.update s.streams sid { s.streams sid with up := frames b (k + 1) j, down := msgs }
        down := { s.down with bytesWritten := (k + 1) * chunkSize, lastAcked := lastAcked, out := out } })
      hpc (by simp) rfl
    refine ⟨msgs', lastAcked', out', ?_⟩
    simp only [readLoop, List.replicate_succ, run, hone, Option.bind_some]
    refine hrun.trans ?_
    simp [Nat.add_assoc, Nat.add_comm 1 j]

/-- The receiver skips the chunks: it has written them before. -/
theorem run_skipLoop (hb : b.length = chunkSize) (j : Nat) : ∀ (k sid : Nat) {s : Transfer}, s.down.pc = .reading sid →
    (s.streams sid).up = frames b k j → (k + j) * chunkSize ≤ s.down.bytesWritten →
    run step s (readLoop j) = some { s with streams := Function.update s.streams sid { s.streams sid with up := [] } } := by
  induction j with
  | zero =>
    intro k sid s hpc hup hw
    rw [frames] at hup
    rw [← hup]
    simp [readLoop, run]
  | succ j ih =>
    intro k sid s hpc hup hw
    rw [frames] at hup
    have hle : k * chunkSize + b.length ≤ s.down.bytesWritten := by
      rw [hb, ← Nat.succ_mul]
      exact Nat.le_trans (Nat.mul_le_mul_right _ (by omega)) hw
    have hone : step s (.down (.chunk false)) = some { s with
        streams := Function.update s.streams sid { s.streams sid with up := frames b (k + 1) j } } := by
      simp only [step, downStep, hpc, hup, if_pos hle, popUp, setStream]
    have hrun := ih (k + 1) sid (s := { s with
        streams := Function.update s.streams sid { s.streams sid with up := frames b (k + 1) j } }) hpc
      (by simp) (Nat.le_trans (Nat.mul_le_mul_right _ (by omega)) hw)
    simp only [readLoop, List.replicate_succ, run, hone, Option.bind_some]
    refine hrun.trans ?_
    simp

theorem run_connect (data : List UInt8) : run step (init true) [.reader .accept, .reader (.clientWrite data)] =
    some { init true with reader := .space, wrote := data, sock := data } := rfl

theorem run_park {s : Transfer} (hr : s.reader = .space) (hfull : s.spool.available < chunkSize)
    (hp : s.spaceReady.permit = false) : run step s [.reader .space, .reader .spacePoll] =
      some { s with spaceReady := s.spaceReady.park (), reader := .spaceParked } := by
  simp [run, step, readerStep, hr, hfull, hp]

theorem run_grant {s : Transfer} {n : Nat} (hn : 0 < n) (hc : s.capped = true) (ht : s.timer = .idle)
    (hlt : s.qAtomic < s.headOffset) (hpc : s.pump.pc = .select) (ha : s.alloc = none) :
    run step s (grant n) =
      some { s with timer := .idle, alloc := none, pump := { s.pump with pc := .drain (.bytes n) } } := by
  have hpos : 0 < s.headOffset - s.qAtomic := by omega
  simp only [grant, run, step, ticketStep, pumpStep, hc, ht, hn, hpc, ha, if_pos hpos, and_self, if_true, ne_eq, reduceCtorEq,
    not_false_eq_true, Option.bind_some]

theorem run_spent {s : Transfer} (hpc : s.pump.pc = .drain (.bytes 0)) (hf : s.pump.finishing = false)
    (hd : s.pump.done = false) : run step s [.pump (.drain 0), .pump .post] =
      some { s with pump := { s.pump with pc := .select } } := by
  simp [run, step, pumpStep, drainTurn, hpc, Budget.isZero, hf, hd]

theorem run_startDownlink {s : Transfer} (rest : List UpFrame) (hn : s.nextAccept = 0) (ho : 0 < s.opened)
    (hup : (s.streams 0).up = .connect :: rest) : run step s startDownlink = some { s with
      streams := Function.update s.streams 0 { s.streams 0 with up := rest }
      nextAccept := 1
      down := { s.down with pc := .reading 0, lastAcked := s.down.bytesWritten, streamRx := [], handle := true } } := by
  simp [startDownlink, run, step, downStep, hn, ho, hup, popUp, setStream]

/-- The first stream is lost with all it carries. -/
theorem run_loseLink {s : Transfer} (hack : s.ack = .check .main) (heof : s.spool.atEof = false) (hlink : s.link = true)
    (ho : s.opened = 1) (hcut : (s.streams 0).cut = false) (hrd : s.ackReader = .reading 0) (hrx : s.ackRx = [])
    (hpc : s.pump.pc ≠ .exited) (hcmds : s.cmds = []) : run step s loseLink = some { s with
      streams := Function.update s.streams 0 ((s.streams 0).cutAt 0 0)
      link := false
      closing := false
      ackReader := .waiting
      ackRx := []
      ack := .poll .reconnect
      cmds := [.linkDown] } := by
  simp [loseLink, run, step, ackStep, linkStep, hack, heof, hlink, ho, hcut, hrd, hrx, hpc, hcmds, setStream,
    QStream.downEnded, QStream.cutAt, AckPc.selecting, onStreamError, ackSlots, cmdSlots, unpark]

theorem run_restoreLink {s : Transfer} (hlink : s.link = false) (hrestore : s.restore = .idle) (hh : s.handle = true)
    (hack : s.ack = .poll .reconnect) (hrd : s.ackReader = .waiting) (hsrx : s.streamRx = []) :
    run step s restoreLink = some { s with
      streams := Function.update s.streams s.opened (.opened (.reconnect s.spool.bytesAcked))
      opened := s.opened + 1
      current := s.opened
      link := true
      restore := .idle
      ackReader := .reading s.opened
      streamRx := []
      ack := .linkUp s.opened } := by
  simp [restoreLink, run, step, ackStep, linkStep, hlink, hrestore, hh, hack, hrd, hsrx, setStream, AckPc.selecting,
    upStreamSlots, unpark]

theorem run_resumePump {s : Transfer} (sid : Nat) (hack : s.ack = .linkUp sid) (hpc : s.pump.pc = .select)
    (hcmds : s.cmds = [.linkDown]) : run step s resumePump = some { s with
      streams := Function.update s.streams sid { s.streams sid with adoptedAt := some s.spool.bytesAcked }
      finishSent := false
      ack := .check .main
      cmds := []
      qAtomic := s.spool.bytesAcked
      pump := { s.pump with pc := .select, q := s.spool.bytesAcked, quicTx := sid } } := by
  simp [resumePump, run, step, ackStep, pumpStep, hack, hpc, hcmds, cmdSlots, rewind, adopt, setStream, AfterStore.pc]

/-- The pump goes on with a second stream, from the start. -/
theorem run_outage {s : Transfer} (hack : s.ack = .check .main) (heof : s.spool.atEof = false) (hlink : s.link = true)
    (ho : s.opened = 1) (hcut : (s.streams 0).cut = false) (hrd : s.ackReader = .reading 0) (hrx : s.ackRx = [])
    (hpc : s.pump.pc = .select) (hcmds : s.cmds = []) (hrestore : s.restore = .idle) (hh : s.handle = true)
    (hsrx : s.streamRx = []) (hacked : s.spool.bytesAcked = 0) :
    run step s (loseLink ++ restoreLink ++ resumePump) = some { s with
      streams := Function.update (Function.update s.streams 0 ((s.streams 0).cutAt 0 0)) 1
        { QStream.opened (.reconnect 0) with adoptedAt := some 0 }
      opened := 2
      current := 1
      link := true
      closing := false
      restore := .idle
      ackReader := .reading 1
      ackRx := []
      streamRx := []
      finishSent := false
      ack := .check .main
      cmds := []
      qAtomic := 0
      pump := { s.pump with pc := .select, q := 0, quicTx := 1 } } := by
  rw [run_append, run_append, run_loseLink hack heof hlink ho hcut hrd hrx (by rw [hpc]; simp) hcmds, Option.bind_some,
    run_restoreLink, Option.bind_some, run_resumePump s.opened]
  · simp [ho, hacked]
  all_goals first | rfl | assumption

theorem run_resumeDownlink {s : Transfer} (rest : List UpFrame) (hpc : s.down.pc = .reading 0)
    (hup0 : (s.streams 0).up = []) (hcut : (s.streams 0).cut = true) (hn : s.nextAccept = 1) (ho : s.opened = 2)
    (hup : (s.streams 1).up = .reconnect 0 :: rest) (hh : s.down.handle = true) (hsrx : s.down.streamRx = []) :
    run step s resumeDownlink = some { s with
      streams := Function.update s.streams 1 { s.streams 1 with up := rest }
      nextAccept := 2
      down := { s.down with pc := .reading 1, streamRx := [] } } := by
  simp [resumeDownlink, run, step, downStep, hpc, hup0, hcut, hn, ho, hup, hh, hsrx, popUp, setStream,
    deliverReconnectStream, downStreamSlots]

def sendAll : List Act := grant (64 * chunkSize) ++ sendLoop 64 ++ [.pump (.drain 0), .pump .post]

/-- A ticket for the whole spool: the pump sends it from the start. -/
theorem run_sendAll (hb : b.length = chunkSize) {s : Transfer} (hc : s.capped = true) (ht : s.timer = .idle) (ha : s.alloc = none)
    (hpc : s.pump.pc = .select) (hf : s.pump.finishing = false) (hd : s.pump.done = false)
    (hspool : s.spool = spooled b 64) (hhead : s.headOffset = 64 * chunkSize) (hq : s.pump.q = 0) (hqa : s.qAtomic = 0)
    (hcut : (s.streams s.pump.quicTx).cut = false) :
    ∃ sent, run step s sendAll = some { s with
      timer := .idle
      alloc := none
      qAtomic := 64 * chunkSize
      streams := Function.update s.streams s.pump.quicTx { s.streams s.pump.quicTx with
        up := (s.streams s.pump.quicTx).up ++ frames b 0 64
        sent := sent }
      pump := { s.pump with pc := .select, q := 64 * chunkSize } } := by
  have hpos : 0 < 64 * chunkSize := by decide
  obtain ⟨sent, hsend⟩ := run_sendLoop hb 64 (k := 0)
    (s := { s with timer := .idle, alloc := none, pump := { s.pump with pc := .drain (.bytes (64 * chunkSize)) } })
    rfl (by rw [Nat.zero_mul]; exact hq) (by rw [Nat.zero_mul]; exact hqa) (by rw [Nat.zero_add]; exact hspool) hcut
  rw [Nat.zero_add] at hsend
  refine ⟨sent, ?_⟩
  rw [sendAll, run_append, run_append, run_grant hpos hc ht (by rw [hqa, hhead]; exact hpos) hpc ha, Option.bind_some, hsend,
    Option.bind_some]
  exact run_spent rfl hf hd

/-- The client has written, and the reader has filled the spool and parked. -/
def stuffed (b : List UInt8) (dr : Notify Waiter) : Transfer :=
  { init true with
    reader := .spaceParked
    spaceReady := Notify.empty.park ()
    wrote := blocks b 64
    sock := blocks b 0
    pushed := [] ++ blocks b 64
    spool := spooled b 64
    headOffset := 64 * chunkSize
    dataReady := dr }

theorem available_spooled (hb : b.length = chunkSize) : (spooled b 64).available = 0 := by
  simp only [SpoolBuffer.available, spooled, length_blocks hb, spoolCapacity, chunkSize]

theorem stuffed_reach (hb : b.length = chunkSize) : ∃ dr, Reach step anyStep (init true) (stuffed b dr) := by
  obtain ⟨dr, hpush⟩ := run_pushLoop hb 64 (k := 0)
    (s := { init true with reader := .space, wrote := blocks b 64, sock := blocks b 64 })
    rfl rfl (by rw [spooled, blocks_zero, Nat.zero_mul]; rfl) (by rw [Nat.zero_mul]; rfl) (by omega)
  rw [Nat.zero_add] at hpush
  have h1 := (Reach.init.along (run_connect (blocks b 64))).along hpush
  exact ⟨dr, h1.along (run_park rfl (by show (spooled b 64).available < chunkSize; rw [available_spooled hb]; decide) rfl)⟩

/-- The receiver has written everything to its client. -/
def received (b : List UInt8) (dr : Notify Waiter) (sent out : List UInt8) (msgs : List WormholeMsg) (lastAcked : Nat) :
    Transfer :=
  { stuffed b dr with
    qAtomic := 64 * chunkSize
    pump := ⟨.select, 64 * chunkSize, 0, false, false⟩
    streams := Function.update (fun _ => .blank) 0 { QStream.first with up := [], down := msgs, sent := sent }
    nextAccept := 1
    down := ⟨.reading 0, 64 * chunkSize, lastAcked, out, [], true⟩ }

theorem received_reach (hb : b.length = chunkSize) : ∃ dr sent out msgs lastAcked,
    Reach step anyStep (init true) (received b dr sent out msgs lastAcked) := by
  obtain ⟨dr, h0⟩ := stuffed_reach hb
  obtain ⟨sent, hsend⟩ := run_sendAll hb (s := stuffed b dr) rfl rfl rfl rfl rfl rfl rfl rfl rfl rfl rfl
  obtain ⟨s, hs, h1⟩ : ∃ s, _ = s ∧ Reach step anyStep (init true) s :=
    ⟨_, rfl, (h0.along hsend).along (run_startDownlink (frames b 0 64) rfl Nat.one_pos rfl)⟩
  obtain ⟨msgs, lastAcked, out, hread⟩ := run_readLoop hb 64 0 0 (s := s) (by rw [← hs])
    (by rw [← hs]; rfl) (by rw [← hs, Nat.zero_mul]; rfl)
  refine ⟨dr, sent, out, msgs, lastAcked, ?_⟩
  have h2 := h1.along hread
  rw [Nat.zero_add, ← hs] at h2
  simpa [received, stuffed, init] using h2

/-- Nothing of what the receiver has written is acknowledged, the replay is skipped, and
    the reader waits for space that nothing will free. -/
theorem blocked_reach (hb : b.length = chunkSize) :
    ∃ s, Reach step anyStep (init true) s ∧ Quiescent s ∧ s.reader = .spaceParked ∧ () ∉ s.spaceReady.woken ∧
      s.spool.available = 0 := by
  obtain ⟨dr, sent, out, msgs, lastAcked, h0⟩ := received_reach hb
  obtain ⟨s, hs, h1⟩ : ∃ s, _ = s ∧ Reach step anyStep (init true) s :=
    ⟨_, rfl, h0.along (run_outage rfl rfl rfl rfl rfl rfl rfl rfl rfl rfl rfl rfl rfl)⟩
  obtain ⟨sent', hsend⟩ := run_sendAll hb (s := s) (by subst hs; rfl) (by subst hs; rfl) (by subst hs; rfl)
    (by subst hs; rfl) (by subst hs; rfl) (by subst hs; rfl) (by subst hs; rfl) (by subst hs; rfl) (by subst hs; rfl)
    (by subst hs; rfl) (by subst hs; rfl)
  subst hs
  obtain ⟨s, hs, h2⟩ : ∃ s, _ = s ∧ Reach step anyStep (init true) s := ⟨_, rfl, (h1.along hsend).along
    (run_resumeDownlink (frames b 0 64) rfl rfl rfl rfl rfl rfl rfl rfl)⟩
  have hskip := run_skipLoop hb 64 0 1 (s := s) (by rw [← hs]) (by rw [← hs]; rfl)
    (by rw [← hs, Nat.zero_add]; exact Nat.le_refl _)
  refine ⟨_, h2.along hskip, ?_⟩
  subst hs
  exact ⟨⟨rfl, rfl, rfl, rfl, rfl, nofun, nofun, nofun⟩, rfl, nofun, available_spooled hb⟩

end LostAcks

theorem lost_acks_block_reader :
    ∃ s, Reach step anyStep (init true) s ∧ Quiescent s ∧ s.reader = .spaceParked ∧ () ∉ s.spaceReady.woken ∧
      s.spool.available = 0 :=
  blocked_reach (b := List.replicate chunkSize 0) List.length_replicate

end Quelay.Agent.Transfer
