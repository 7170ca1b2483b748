/-
  Quelay.Agent.Transfer.Delivery — no byte is lost, duplicated or reordered.

  One invariant relates the spool's `A`, the pump's `Q`, the receiver's
  `bytes_written`, and every ack and chunk in flight (`Bytes`):
  - the spool holds the pushed bytes from `A` on, and `A` and every ack are at most
    `bytes_written`;
  - the chunks left on any stream are a run of the pushed bytes that starts at or below
    `bytes_written`, and every header on its way asks for a replay from at or below it;
  - a stream above the pump's has neither chunks nor acks;
  - while the pump runs, `A ≤ Q ≤ T`, its stream's run ends at `Q` unless the stream is
    cut, and no ack that can still reach the spool is above `Q`.
  The last part survives a rewind because the ack task takes a fresh stream only with
  an empty inbox, and the fresh stream has no acks before the pump writes on it.
-/

import Quelay.Agent.Transfer.Lane
import Quelay.Agent.Transfer.Run
import Quelay.Lib.Machine
import Mathlib.Data.List.Infix

namespace Quelay.Agent.Transfer

open Quelay.Lib

/-- The pump may still write on the stream it holds, or has written everything on it. -/
def running (pump : StreamPump) : Bool :=
  match pump.pc with
  | .select | .drain _ | .write _ _ | .post => true
  | .store .waitUp => false
  | .store _ => true
  | .waitUp => false
  | .exited => pump.done

structure StreamOk (pushed : List UInt8) (written : Nat) (q : QStream) : Prop where
  run : ∃ o e, o ≤ written ∧ Run pushed o (body q.up) e
  header : ∀ r l, q.up = .reconnect r :: l → r ≤ written
  acks : ∀ n, .ack n ∈ q.down → n ≤ written

/-- The pump's position on its stream, while it runs. -/
structure PumpOk (pushed : List UInt8) (acked written : Nat) (pump : StreamPump) (q : QStream) : Prop where
  acked : running pump = true → acked ≤ pump.q
  head : running pump = true → pump.q ≤ pushed.length
  run : running pump = true →
    ∃ o e, o ≤ written ∧ e ≤ pump.q ∧ Run pushed o (body q.up) e ∧ (q.cut = false → e = pump.q)
  chunk : ∀ rem c, pump.pc = .write rem c → c ≠ [] ∧ c <+: pushed.drop pump.q

/-- What the receiving client has got. -/
structure OutOk (pushed : List UInt8) (down : Downlink) : Prop where
  le : down.bytesWritten ≤ pushed.length
  out : down.pc.ended = false → down.out = pushed.take down.bytesWritten
  sent : down.out <+: pushed

structure BytesOf (pushed : List UInt8) (spool : SpoolBuffer) (down : Downlink) (streams : Nat → QStream)
    (restore : RestorePc) (ackRx : List AckMsg) (pump : StreamPump) (current : Nat) : Prop where
  holds : spool.Holds pushed
  acked : spool.bytesAcked ≤ down.bytesWritten
  outOk : OutOk pushed down
  streamOk : ∀ sid, StreamOk pushed down.bytesWritten (streams sid)
  replay : ∀ r, restore = .opening r → r ≤ down.bytesWritten
  inbox : ∀ n, .ack n ∈ ackRx → n ≤ down.bytesWritten
  fresh : ∀ sid, pump.quicTx < sid → body (streams sid).up = [] ∧ ∀ n, .ack n ∉ (streams sid).down
  pumpOk : PumpOk pushed spool.bytesAcked down.bytesWritten pump (streams pump.quicTx)
  below : running pump = true → ∀ n, (.ack n ∈ ackRx ∨ .ack n ∈ (streams current).down) → n ≤ pump.q
  stale : pump.quicTx < current → ∀ n, .ack n ∉ ackRx

def Bytes (s : Transfer) : Prop :=
  BytesOf s.pushed s.spool s.down s.streams s.restore s.ackRx s.pump s.current

/-! ## Small steps of the parts -/

variable {pushed : List UInt8} {written acked : Nat} {q : QStream} {pump : StreamPump} {down : Downlink}

theorem StreamOk.mono (h : StreamOk pushed written q) {written' : Nat} (hle : written ≤ written') :
    StreamOk pushed written' q := by
  obtain ⟨o, e, ho, hr⟩ := h.run
  refine ⟨⟨o, e, by omega, hr⟩, fun r l hu => ?_, fun n hn => ?_⟩
  · have := h.header r l hu
    omega
  · have := h.acks n hn
    omega

theorem StreamOk.push (h : StreamOk pushed written q) (data : List UInt8) : StreamOk (pushed ++ data) written q := by
  obtain ⟨o, e, ho, hr⟩ := h.run
  exact ⟨⟨o, e, ho, hr.push data⟩, h.header, h.acks⟩

theorem StreamOk.cutAt (h : StreamOk pushed written q) (up down : Nat) : StreamOk pushed written (q.cutAt up down) := by
  obtain ⟨o, e, ho, hr⟩ := h.run
  obtain ⟨m, hm⟩ := body_take q.up up
  obtain ⟨e', _, hr'⟩ := hr.take m
  refine ⟨⟨o, e', ho, ?_⟩, fun r l hu => ?_, fun n hn => h.acks n (List.mem_of_mem_take hn)⟩
  · simp only [QStream.cutAt, hm]
    exact hr'
  · simp only [QStream.cutAt] at hu
    obtain ⟨l', hl'⟩ : ∃ l', q.up = .reconnect r :: l' := by
      cases hq : q.up with
      | nil => simp [hq] at hu
      | cons f l' =>
        cases up with
        | zero => simp at hu
        | succ up =>
          simp only [hq, List.take_succ_cons, List.cons.injEq] at hu
          exact ⟨l', by rw [hu.1]⟩
    exact h.header r l' hl'

theorem StreamOk.writeMsg (h : StreamOk pushed written q) {m : WormholeMsg} (hm : ∀ n, m = .ack n → n ≤ written) :
    StreamOk pushed written (q.writeMsg m) := by
  refine ⟨h.run, h.header, fun n hn => ?_⟩
  simp only [QStream.writeMsg] at hn
  split at hn
  · exact h.acks n hn
  · rcases List.mem_append.mp hn with hn | hn
    · exact h.acks n hn
    · exact hm n (List.mem_singleton.mp hn).symm

/-- A header is read. -/
theorem StreamOk.popHeader (h : StreamOk pushed written q) {f : UpFrame} {rest : List UpFrame} (hu : q.up = f :: rest)
    (hb : body q.up = rest) : StreamOk pushed written { q with up := rest } := by
  obtain ⟨o, e, ho, hr⟩ := h.run
  rw [hb] at hr
  refine ⟨⟨o, e, ho, by rw [hr.body_eq]; exact hr⟩, fun r l hl => ?_, h.acks⟩
  subst hl
  cases hr

/-- A chunk at the front of a stream starts at or below what is written, and holds
    pushed bytes. -/
theorem StreamOk.front (h : StreamOk pushed written q) {offset : Nat} {payload : List UInt8} {rest : List UpFrame}
    (hu : q.up = .chunk offset payload :: rest) :
    offset ≤ written ∧ payload ≠ [] ∧ payload <+: pushed.drop offset := by
  obtain ⟨o, e, ho, hr⟩ := h.run
  rw [hu, body_chunk] at hr
  cases hr with
  | cons hne hp _ => exact ⟨ho, hne, hp⟩

/-- It is read, and what is written then covers it. -/
theorem StreamOk.popChunk (h : StreamOk pushed written q) {offset : Nat} {payload : List UInt8} {rest : List UpFrame}
    (hu : q.up = .chunk offset payload :: rest) {written' : Nat} (hle : written ≤ written')
    (hc : offset + payload.length ≤ written') : StreamOk pushed written' { q with up := rest } := by
  obtain ⟨o, e, ho, hr⟩ := h.run
  rw [hu, body_chunk] at hr
  cases hr with
  | cons hne hp ht =>
    refine ⟨⟨_, e, hc, by rw [ht.body_eq]; exact ht⟩, fun r l hl => ?_, (h.mono hle).acks⟩
    subst hl
    cases ht

theorem PumpOk.push (h : PumpOk pushed acked written pump q) (data : List UInt8) :
    PumpOk (pushed ++ data) acked written pump q := by
  refine ⟨h.acked, fun hr => ?_, fun hr => ?_, fun rem c hc => ?_⟩
  · have := h.head hr
    rw [List.length_append]
    omega
  · obtain ⟨o, e, ho, he, hrun, hcut⟩ := h.run hr
    exact ⟨o, e, ho, he, hrun.push data, hcut⟩
  · obtain ⟨hne, hp⟩ := h.chunk rem c hc
    have hr : running pump = true := by simp [running, hc]
    refine ⟨hne, ?_⟩
    rw [List.drop_append_of_le_length (h.head hr)]
    exact hp.trans (List.prefix_append ..)

/-- The pump moves without touching its position or its stream. -/
theorem PumpOk.move (h : PumpOk pushed acked written pump q) {pump' : StreamPump} (hq : pump'.q = pump.q)
    (hr : running pump' = true → running pump = true)
    (hc : ∀ rem c, pump'.pc = .write rem c → c ≠ [] ∧ c <+: pushed.drop pump.q) :
    PumpOk pushed acked written pump' q := by
  refine ⟨fun h' => hq ▸ h.acked (hr h'), fun h' => hq ▸ h.head (hr h'), fun h' => ?_, fun rem c h' => hq ▸ hc rem c h'⟩
  rw [hq]
  exact h.run (hr h')

theorem PumpOk.idle (hr : running pump = false) : PumpOk pushed acked written pump q := by
  refine ⟨fun h => ?_, fun h => ?_, fun h => ?_, fun rem c hc => ?_⟩
  · rw [hr] at h; cases h
  · rw [hr] at h; cases h
  · rw [hr] at h; cases h
  · simp [running, hc] at hr

/-- The pump's stream changes: its chunks become part of what they were. -/
theorem PumpOk.stream (h : PumpOk pushed acked written pump q) {q' : QStream} {written' : Nat}
    (hrun : ∀ o e, o ≤ written → Run pushed o (body q.up) e →
      ∃ o' e', o' ≤ written' ∧ e' ≤ e ∧ Run pushed o' (body q'.up) e' ∧ (q'.cut = false → q.cut = false ∧ e' = e)) :
    PumpOk pushed acked written' pump q' := by
  refine ⟨h.acked, h.head, fun hr => ?_, h.chunk⟩
  obtain ⟨o, e, ho, he, hrun', hcut⟩ := h.run hr
  obtain ⟨o', e', ho', he', hr', hcut'⟩ := hrun o e ho hrun'
  refine ⟨o', e', ho', by omega, hr', fun hc => ?_⟩
  obtain ⟨hc0, hee⟩ := hcut' hc
  rw [hee, hcut hc0]

theorem OutOk.push (h : OutOk pushed down) (data : List UInt8) : OutOk (pushed ++ data) down := by
  have hle := h.le
  refine ⟨by rw [List.length_append]; omega, fun hx => ?_, h.sent.trans (List.prefix_append ..)⟩
  rw [h.out hx, List.take_append_of_le_length hle]

theorem OutOk.move (h : OutOk pushed down) {down' : Downlink} (hw : down'.bytesWritten = down.bytesWritten)
    (ho : down'.out = down.out) (hx : down'.pc.ended = false → down.pc.ended = false) : OutOk pushed down' := by
  refine ⟨hw ▸ h.le, fun h' => ?_, ho ▸ h.sent⟩
  rw [ho, hw]
  exact h.out (hx h')

/-! ## Small steps of the whole -/

variable {spool : SpoolBuffer} {streams : Nat → QStream} {restore : RestorePc} {ackRx : List AckMsg} {current : Nat}

/-- One stream changes, and nothing else. -/
theorem BytesOf.update (hi : BytesOf pushed spool down streams restore ackRx pump current) (sid : Nat) (q' : QStream)
    (hok : StreamOk pushed down.bytesWritten q')
    (hfresh : pump.quicTx < sid → body q'.up = [] ∧ ∀ n, .ack n ∉ q'.down)
    (hpump : sid = pump.quicTx → PumpOk pushed spool.bytesAcked down.bytesWritten pump q')
    (hbelow : sid = current → running pump = true → ∀ n, .ack n ∈ q'.down → n ≤ pump.q) :
    BytesOf pushed spool down (Function.update streams sid q') restore ackRx pump current := by
  refine ⟨hi.holds, hi.acked, hi.outOk, fun i => ?_, hi.replay, hi.inbox, fun i hlt => ?_, ?_, fun hr n hn => ?_, hi.stale⟩
  · by_cases h : i = sid
    · subst h; rw [Function.update_self]; exact hok
    · rw [Function.update_of_ne h]; exact hi.streamOk i
  · by_cases h : i = sid
    · subst h; rw [Function.update_self]; exact hfresh hlt
    · rw [Function.update_of_ne h]; exact hi.fresh i hlt
  · by_cases h : pump.quicTx = sid
    · rw [h, Function.update_self]; exact hpump h.symm
    · rw [Function.update_of_ne h]; exact hi.pumpOk
  · rcases hn with hn | hn
    · exact hi.below hr n (.inl hn)
    · by_cases h : current = sid
      · rw [h, Function.update_self] at hn; exact hbelow h.symm hr n hn
      · rw [Function.update_of_ne h] at hn; exact hi.below hr n (.inr hn)

/-- A stream loses frames or messages, or changes only in its flags. -/
theorem BytesOf.shrink (hi : BytesOf pushed spool down streams restore ackRx pump current) (sid : Nat) {q' : QStream}
    (hok : StreamOk pushed down.bytesWritten q')
    (hup : ∀ o e, o ≤ down.bytesWritten → Run pushed o (body (streams sid).up) e →
      ∃ o' e', o' ≤ down.bytesWritten ∧ e' ≤ e ∧ Run pushed o' (body q'.up) e' ∧
        (q'.cut = false → (streams sid).cut = false ∧ e' = e))
    (hnone : body (streams sid).up = [] → body q'.up = [])
    (hdown : ∀ n, .ack n ∈ q'.down → .ack n ∈ (streams sid).down) :
    BytesOf pushed spool down (Function.update streams sid q') restore ackRx pump current := by
  refine hi.update sid q' hok (fun hlt => ?_) (fun h => ?_) fun h hr n hn => ?_
  · obtain ⟨h1, h2⟩ := hi.fresh sid hlt
    exact ⟨hnone h1, fun n hn => h2 n (hdown n hn)⟩
  · subst h
    exact hi.pumpOk.stream hup
  · exact hi.below hr n (.inr (h ▸ hdown n hn))

/-- Only flags and ghosts of a stream change. -/
theorem BytesOf.flags (hi : BytesOf pushed spool down streams restore ackRx pump current) (sid : Nat) {q' : QStream}
    (hu : q'.up = (streams sid).up) (hd : q'.down = (streams sid).down) (hc : q'.cut = (streams sid).cut) :
    BytesOf pushed spool down (Function.update streams sid q') restore ackRx pump current := by
  have hs := hi.streamOk sid
  refine hi.shrink sid ⟨hu ▸ hs.run, hu ▸ hs.header, hd ▸ hs.acks⟩ (fun o e ho hr => ?_) (fun h => hu ▸ h) fun n hn => hd ▸ hn
  exact ⟨o, e, ho, Nat.le_refl _, hu ▸ hr, fun h => ⟨hc ▸ h, rfl⟩⟩

theorem BytesOf.fin (hi : BytesOf pushed spool down streams restore ackRx pump current) (sid : Nat) :
    BytesOf pushed spool down (Function.update streams sid { streams sid with upFin := true }) restore ackRx pump current :=
  hi.flags sid rfl rfl rfl

/-- The pump moves on its stream. -/
theorem BytesOf.movePump (hi : BytesOf pushed spool down streams restore ackRx pump current) {pump' : StreamPump}
    (hq : pump'.q = pump.q) (htx : pump'.quicTx = pump.quicTx)
    (hr : running pump' = true → running pump = true)
    (hc : ∀ rem c, pump'.pc = .write rem c → c ≠ [] ∧ c <+: pushed.drop pump.q) :
    BytesOf pushed spool down streams restore ackRx pump' current := by
  refine ⟨hi.holds, hi.acked, hi.outOk, hi.streamOk, hi.replay, hi.inbox, htx ▸ hi.fresh, ?_, fun h => ?_, htx ▸ hi.stale⟩
  · rw [htx]
    exact hi.pumpOk.move hq hr hc
  · rw [hq]
    exact hi.below (hr h)

/-- The pump stops writing: it rewinds, waits or ends. -/
theorem BytesOf.stopPump (hi : BytesOf pushed spool down streams restore ackRx pump current) {pump' : StreamPump}
    (htx : pump'.quicTx = pump.quicTx) (hr : running pump' = false) :
    BytesOf pushed spool down streams restore ackRx pump' current := by
  refine ⟨hi.holds, hi.acked, hi.outOk, hi.streamOk, hi.replay, hi.inbox, htx ▸ hi.fresh, .idle hr, fun h => ?_, htx ▸ hi.stale⟩
  rw [hr] at h
  cases h

/-- The receiver moves without writing to its client. -/
theorem BytesOf.moveDown (hi : BytesOf pushed spool down streams restore ackRx pump current) {down' : Downlink}
    (hw : down'.bytesWritten = down.bytesWritten) (ho : down'.out = down.out)
    (hx : down'.pc.ended = false → down.pc.ended = false) :
    BytesOf pushed spool down' streams restore ackRx pump current := by
  refine ⟨hi.holds, ?_, hi.outOk.move hw ho hx, ?_, ?_, ?_, hi.fresh, ?_, hi.below, hi.stale⟩
  · rw [hw]; exact hi.acked
  · rw [hw]; exact hi.streamOk
  · rw [hw]; exact hi.replay
  · rw [hw]; exact hi.inbox
  · rw [hw]; exact hi.pumpOk

theorem BytesOf.endDown (hi : BytesOf pushed spool down streams restore ackRx pump current) {pc : DownPc}
    (hx : pc.ended = true) : BytesOf pushed spool { down with pc := pc } streams restore ackRx pump current :=
  hi.moveDown rfl rfl fun h => (by rw [hx] at h; cases h)

/-- The inbox loses messages. -/
theorem BytesOf.popInbox (hi : BytesOf pushed spool down streams restore ackRx pump current) {ackRx' : List AckMsg}
    (hs : ∀ n, .ack n ∈ ackRx' → .ack n ∈ ackRx) : BytesOf pushed spool down streams restore ackRx' pump current := by
  refine ⟨hi.holds, hi.acked, hi.outOk, hi.streamOk, hi.replay, fun n hn => hi.inbox n (hs n hn), hi.fresh, hi.pumpOk, ?_, ?_⟩
  · intro hr n hn
    exact hi.below hr n (hn.imp_left (hs n))
  · intro hlt n hn
    exact hi.stale hlt n (hs n hn)

/-- A message is read from a stream's feedback. -/
theorem BytesOf.popDown (hi : BytesOf pushed spool down streams restore ackRx pump current) {sid : Nat} {m : WormholeMsg}
    {rest : List WormholeMsg} (hd : (streams sid).down = m :: rest) :
    BytesOf pushed spool down (Function.update streams sid { streams sid with down := rest }) restore ackRx pump
      current := by
  have hs := hi.streamOk sid
  have hsub : ∀ n, .ack n ∈ rest → .ack n ∈ (streams sid).down := by
    intro n hn
    rw [hd]
    exact List.mem_cons_of_mem _ hn
  refine hi.shrink sid ⟨hs.run, hs.header, fun n hn => hs.acks n (hsub n hn)⟩ (fun o e ho hr => ?_) (fun h => h) hsub
  exact ⟨o, e, ho, Nat.le_refl _, hr, fun hc => ⟨hc, rfl⟩⟩

theorem BytesOf.setRestore (hi : BytesOf pushed spool down streams restore ackRx pump current) {restore' : RestorePc}
    (hr : ∀ r, restore' = .opening r → r ≤ down.bytesWritten) :
    BytesOf pushed spool down streams restore' ackRx pump current :=
  ⟨hi.holds, hi.acked, hi.outOk, hi.streamOk, hr, hi.inbox, hi.fresh, hi.pumpOk, hi.below, hi.stale⟩

/-! ## The reader marks EOF last -/

/-- The reader may still push. -/
def pushing : ReaderPc → Bool
  | .store _ last => !last
  | .notify last => !last
  | .exited => false
  | _ => true

def NotMarked (s : Transfer) : Prop := pushing s.reader = true → s.spool.atEof = false

theorem atEof_push (sp : SpoolBuffer) (data : List UInt8) : (sp.push data).atEof = sp.atEof := by
  cases h : sp.head <;> simp [SpoolBuffer.push, SpoolBuffer.atEof, h]

theorem atEof_ack (sp : SpoolBuffer) (n : Nat) : (sp.ack n).atEof = sp.atEof := by
  simp [SpoolBuffer.atEof]

theorem step_notMarked {s s' : Transfer} {a : Act} (hi : NotMarked s) (h : s.step a = some s') : NotMarked s' := by
  cases a with
  | reader a =>
    cases readerStep_cases h with
    | accept hr | spaceNone hr | spaceOk hr | spacePermit hr | spacePark hr | spaceWake hr | readFail hr =>
      simpa only [NotMarked, hr, pushing] using hi
    | acceptFail | eofAgain | failedEofAgain => intro hp; cases hp
    | eof | failedEof => intro hp; cases hp
    | read n hr =>
      intro _
      rw [atEof_push]
      exact hi (by rw [hr]; rfl)
    | @store head last hr =>
      intro hp
      exact hi (by rw [hr]; exact hp)
    | @notify last hr =>
      intro hp
      cases last with
      | true => cases hp
      | false => exact hi (by rw [hr]; rfl)
    | _ => exact hi
  | ticket a => cases ticketStep_cases h <;> exact hi
  | pump a => cases pumpStep_cases h <;> exact hi
  | ack a =>
    cases ackStep_cases h with
    | ackNew | ackOld =>
      intro hp
      rw [atEof_ack]
      exact hi hp
    | _ => exact hi
  | link a => cases linkStep_cases h <;> exact hi
  | down a => cases downStep_cases h <;> exact hi

/-! ## The pump sends FIN last -/

/-- The pump sends FIN once the sentinel is there and it has sent everything, and then
    ends. -/
def Finished (s : Transfer) : Prop :=
  s.pump.done = true →
    (s.pump.pc = .post ∨ s.pump.pc = .exited) ∧ s.spool.atEof = true ∧ s.pushed.length ≤ s.pump.q

theorem step_finished {s s' : Transfer} {a : Act} (hi : Finished s) (hm : NotMarked s) (hb : Bytes s)
    (h : s.step a = some s') : Finished s' := by
  have hhead := hb.holds.headOffset
  cases a with
  | reader a =>
    cases readerStep_cases h with
    | read n hr =>
      intro hd
      have := hm (by rw [hr]; rfl)
      rw [(hi hd).2.1] at this
      cases this
    | eof | failedEof =>
      intro hd
      exact ⟨(hi hd).1, rfl, (hi hd).2.2⟩
    | _ => exact hi
  | ticket a => cases ticketStep_cases h <;> exact hi
  | pump a =>
    cases pumpStep_cases h with
    | drainFin _ _ _ he hq => exact fun _ => ⟨.inl rfl, he, hhead ▸ hq⟩
    | postFin _ _ he hq => exact fun _ => ⟨.inr rfl, he, hhead ▸ hq⟩
    | postDone _ hd => exact fun _ => ⟨.inr rfl, (hi hd).2⟩
    | closed => exact fun hd => ⟨.inr rfl, (hi hd).2⟩
    | post _ hd =>
      intro hd'
      rw [hd] at hd'
      cases hd'
    | linkUpIgnored | discard => exact hi
    | linkDown hpc =>
      intro hd
      have hp := (hi hd).1
      rcases hpc with hpc | hpc <;> simp [hpc] at hp
    | _ =>
      intro hd
      have hp := (hi hd).1
      simp_all
  | ack a =>
    cases ackStep_cases h with
    | ackNew | ackOld =>
      intro hd
      exact ⟨(hi hd).1, (atEof_ack ..).trans (hi hd).2.1, (hi hd).2.2⟩
    | _ => exact hi
  | link a => cases linkStep_cases h <;> exact hi
  | down a => cases downStep_cases h <;> exact hi

/-! ## Every step keeps the bytes -/

theorem init_streams (capped : Bool) (sid : Nat) :
    (init capped).streams sid = if sid = 0 then .first else .blank := by
  simp [init, Function.update_apply]

theorem init_bytes (capped : Bool) : Bytes (init capped) := by
  have hrun : Run [] 0 [] 0 := .nil 0
  refine ⟨SpoolBuffer.new_holds, Nat.le_refl _, ⟨Nat.le_refl _, fun _ => rfl, List.prefix_rfl⟩, fun sid => ?_,
    by simp [init], by simp [init], fun sid hlt => ?_, ?_, fun _ n h => ?_, fun h => ?_⟩
  · rw [init_streams]
    split
    · exact ⟨⟨0, 0, Nat.le_refl _, hrun⟩, by simp [QStream.first], by simp [QStream.first]⟩
    · exact ⟨⟨0, 0, Nat.le_refl _, hrun⟩, by simp [QStream.blank], by simp [QStream.blank]⟩
  · rw [init_streams, if_neg (by simp only [init] at hlt; omega)]
    exact ⟨rfl, by simp [QStream.blank]⟩
  · exact ⟨fun _ => Nat.le_refl _, fun _ => Nat.le_refl _,
      fun _ => ⟨0, 0, Nat.le_refl _, Nat.le_refl _, hrun, fun _ => rfl⟩, by simp [init]⟩
  · rcases h with h | h <;> cases h
  · exact absurd h (by simp [init])

theorem reader_bytes {s s' : Transfer} {a : ReaderAct} (hi : Bytes s) (hm : NotMarked s) (h : ReaderCase s a s') :
    Bytes s' := by
  cases h with
  | read n hr =>
    have hopen : s.spool.head ≠ .eof := by
      have := hm (by rw [hr]; rfl)
      simpa [SpoolBuffer.atEof] using this
    have hA : (s.spool.push (s.sock.take n)).bytesAcked = s.spool.bytesAcked := rfl
    exact ⟨hi.holds.push hopen _, hi.acked, hi.outOk.push _, fun sid => (hi.streamOk sid).push _, hi.replay, hi.inbox,
      hi.fresh, hi.pumpOk.push _, hi.below, hi.stale⟩
  | eof | failedEof =>
    exact ⟨hi.holds.markEof, hi.acked, hi.outOk, hi.streamOk, hi.replay, hi.inbox, hi.fresh, hi.pumpOk, hi.below, hi.stale⟩
  | _ => exact hi

theorem ticket_bytes {s s' : Transfer} {a : TicketAct} (hi : Bytes s) (h : TicketCase s a s') : Bytes s' := by
  cases h <;> exact hi

/-- The chunk a turn of `drain_alloc` copies is the pushed bytes at `Q`. -/
theorem chunk_of_slice {s : Transfer} (hi : Bytes s) (hr : running s.pump = true)
    (hq : s.pump.q < s.spool.headOffset) (split n : Nat) :
    (s.spool.sliceFrom split s.pump.q).take n <+: s.pushed.drop s.pump.q := by
  rw [hi.holds.headOffset] at hq
  exact (List.take_prefix _ _).trans (hi.holds.sliceFrom (hi.pumpOk.acked hr) hq split).1

theorem write_bytes {s : Transfer} (hi : Bytes s) {rem : Budget} {chunk : List UInt8}
    (hpc : s.pump.pc = .write rem chunk) :
    BytesOf s.pushed s.spool s.down
      (Function.update s.streams s.pump.quicTx ((s.streams s.pump.quicTx).write s.pump.q chunk)) s.restore s.ackRx
      { s.pump with pc := .store (.drain (rem.spend chunk.length)), q := s.pump.q + chunk.length } s.current := by
  have hr : running s.pump = true := by simp [running, hpc]
  obtain ⟨hne, hp⟩ := hi.pumpOk.chunk rem chunk hpc
  have hlen := length_le_of_prefix_drop hp hne
  obtain ⟨o, e, ho, he, hrun, hcut⟩ := hi.pumpOk.run hr
  -- The stream's run grows by the chunk, unless the stream is cut.
  have hrun' : ∃ e', e' ≤ s.pump.q + chunk.length ∧
      Run s.pushed o (body ((s.streams s.pump.quicTx).write s.pump.q chunk).up) e' ∧
      ((s.streams s.pump.quicTx).cut = false → e' = s.pump.q + chunk.length) := by
    cases hc : (s.streams s.pump.quicTx).cut with
    | true =>
      refine ⟨e, by omega, ?_, fun h => by cases h⟩
      simp only [QStream.write, hc, if_true]
      exact hrun
    | false =>
      have heq := hcut hc
      subst heq
      refine ⟨_, Nat.le_refl _, ?_, fun _ => rfl⟩
      simp only [QStream.write, hc, Bool.false_eq_true, if_false, body_snoc]
      exact hrun.snoc hne hp
  obtain ⟨e', he', hr', hcut'⟩ := hrun'
  have hs := hi.streamOk s.pump.quicTx
  refine ⟨hi.holds, hi.acked, hi.outOk, fun sid => ?_, hi.replay, hi.inbox, fun sid hlt => ?_, ?_, fun _ n hn => ?_, hi.stale⟩
  · by_cases h : sid = s.pump.quicTx
    · subst h
      rw [Function.update_self]
      refine ⟨⟨o, e', ho, hr'⟩, fun r l hu => ?_, hs.acks⟩
      simp only [QStream.write] at hu
      split at hu
      · exact hs.header r l hu
      · cases hup : (s.streams s.pump.quicTx).up with
        | nil => rw [hup] at hu; cases hu
        | cons f l' =>
          rw [hup, List.cons_append, List.cons.injEq] at hu
          exact hs.header r l' (by rw [hup, hu.1])
    · rw [Function.update_of_ne h]
      exact hi.streamOk sid
  · have h : sid ≠ s.pump.quicTx := by simp only at hlt; omega
    rw [Function.update_of_ne h]
    exact hi.fresh sid hlt
  · simp only [Function.update_self]
    have hA := hi.pumpOk.acked hr
    refine ⟨fun _ => by simp only; omega, fun _ => hlen, fun _ => ⟨o, e', ho, he', hr', hcut'⟩, nofun⟩
  · have hle : n ≤ s.pump.q := by
      refine hi.below hr n (hn.imp_right fun hd => ?_)
      by_cases h : s.current = s.pump.quicTx
      · rw [h, Function.update_self] at hd
        rw [h]
        exact hd
      · rwa [Function.update_of_ne h] at hd
    simp only
    omega

/-- The pump takes a fresh write half: nothing is on the stream, and no ack above `A`
    can come before it writes. -/
theorem adopt_bytes {s : Transfer} (hi : Bytes s) (hl : Lane s) {sid : Nat} {cmds : List RateCmd}
    (hc : s.cmds = .linkUp sid :: cmds) :
    BytesOf s.pushed s.spool s.down
      (Function.update s.streams sid { s.streams sid with adoptedAt := some s.spool.bytesAcked }) s.restore s.ackRx
      { s.pump with pc := .store .select, q := s.spool.bytesAcked, quicTx := sid } s.current := by
  simp only [Lane, hc, linkUps_linkUp, List.cons_append] at hl
  have hlt : s.pump.quicTx < sid := (List.pairwise_cons.mp hl.resumedOrder).1 sid List.mem_cons_self
  have hcur : sid ≤ s.current := hl.resumedLe sid (by simp)
  obtain ⟨hup, hdown⟩ := hi.fresh sid hlt
  have hf : BytesOf s.pushed s.spool s.down
      (Function.update s.streams sid { s.streams sid with adoptedAt := some s.spool.bytesAcked }) s.restore s.ackRx
      s.pump s.current := hi.flags sid rfl rfl rfl
  have hstale := hi.stale (by omega)
  refine ⟨hf.holds, hf.acked, hf.outOk, hf.streamOk, hf.replay, hf.inbox, fun i hlt' => ?_, ?_, fun _ n hn => ?_,
    fun _ => hstale⟩
  · exact hf.fresh i (by simp only at hlt'; omega)
  · simp only [Function.update_self]
    have hA := hi.acked
    exact ⟨fun _ => Nat.le_refl _, fun _ => hi.holds.le,
      fun _ => ⟨_, _, hA, Nat.le_refl _, by rw [hup]; exact .nil _, fun _ => rfl⟩, (by simp)⟩
  · rcases hn with hn | hn
    · exact absurd hn (hstale n)
    · exact absurd hn ((hf.fresh s.current (by omega)).2 n)

theorem pump_bytes {s s' : Transfer} {a : PumpAct} (hi : Bytes s) (hl : Lane s) (hfin : Finished s)
    (h : PumpCase s a s') : Bytes s' := by
  cases h with
  | ticket hpc =>
    exact hi.movePump rfl rfl (fun _ => by simp [running, hpc]) nofun
  | linkDown => exact hi.stopPump rfl rfl
  | linkUpIgnored => exact hi
  | linkUp _ hc => exact adopt_bytes hi hl hc
  | finishDrained hpc | finishBacklog hpc =>
    exact hi.movePump rfl rfl (fun _ => by simp [running, hpc]) nofun
  | finishWaiting hpc => exact hi.stopPump rfl (by simp [running, hpc])
  | drainSpent _ hpc | drainNone _ hpc | drainEmpty _ hpc =>
    exact hi.movePump rfl rfl (fun _ => by simp [running, hpc]) nofun
  | drainFin _ hpc =>
    exact (hi.fin _).movePump rfl rfl (fun _ => by simp [running, hpc]) nofun
  | drainChunk split hpc _ hq hch hne =>
    refine hi.movePump rfl rfl (fun _ => by simp [running, hpc]) (fun rem c hc => ?_)
    cases hc
    exact ⟨hne, hch ▸ chunk_of_slice hi (by simp [running, hpc]) hq split _⟩
  | write hpc => exact write_bytes hi hpc
  | writeFail => exact hi.stopPump rfl rfl
  | @store next hpc =>
    refine hi.movePump rfl rfl (fun hr => ?_) (fun rem c hc => ?_)
    · cases next <;> simp_all [AfterStore.pc, running]
    · cases next <;> cases hc
  | postFin hpc => exact (hi.fin _).movePump rfl rfl (fun _ => by simp [running, hpc]) nofun
  | postDone hpc => exact hi.movePump rfl rfl (fun _ => by simp [running, hpc]) nofun
  | closed hpc =>
    refine hi.movePump rfl rfl (fun hr => ?_) nofun
    have hp := (hfin hr).1
    rcases hpc with hpc | hpc <;> simp [hpc] at hp
  | post hpc => exact hi.movePump rfl rfl (fun _ => by simp [running, hpc]) nofun
  | discard => exact hi

theorem onAck_bytes {s : Transfer} (hi : Bytes s) {n : Nat} {rest : List AckMsg} (hrx : s.ackRx = .ack n :: rest) :
    BytesOf s.pushed (s.spool.ack n) s.down s.streams s.restore rest s.pump s.current := by
  have hmem : .ack n ∈ s.ackRx := by rw [hrx]; exact List.mem_cons_self
  have hn := hi.inbox n hmem
  have hlen := hi.outOk.le
  have hA := SpoolBuffer.ack_bytesAcked hi.holds (Nat.le_trans hn hlen)
  have hacked := hi.acked
  have hp : BytesOf s.pushed s.spool s.down s.streams s.restore rest s.pump s.current :=
    hi.popInbox fun m hm => by rw [hrx]; exact List.mem_cons_of_mem _ hm
  refine ⟨hi.holds.ack n, by rw [hA]; omega, hi.outOk, hi.streamOk, hi.replay, hp.inbox, hi.fresh,
    ⟨fun hr => ?_, hi.pumpOk.head, hi.pumpOk.run, hi.pumpOk.chunk⟩, hp.below, hp.stale⟩
  have := hi.pumpOk.acked hr
  have := hi.below hr n (.inl hmem)
  rw [hA]
  omega

theorem ack_bytes {s s' : Transfer} {a : AckAct} (hi : Bytes s) (hl : Lane s) (hb : Inbox s) (h : AckCase s a s') :
    Bytes s' := by
  cases h with
  | ackNew _ hrx | ackOld _ hrx => exact onAck_bytes hi hrx
  | streamError _ hrx | streamErrorDropped _ hrx =>
    exact hi.popInbox fun m hm => by rw [hrx]; exact List.mem_cons_of_mem _ hm
  | done | error | goneFail | streamReaderGone | noStream | linkUpFail => exact hi.popInbox nofun
  | @stream sid rest hk hrx hw =>
    obtain ⟨hx, hm⟩ := selecting_mode hk
    have hempty : s.ackRx = [] := by simpa [Inbox, InboxOf, hx, hw, hm] using hb
    have hgt : s.current < sid := hl.comingGt sid (by rw [hrx]; simp)
    have htx : s.pump.quicTx ≤ s.current := hl.resumedLe _ List.mem_cons_self
    refine ⟨hi.holds, hi.acked, hi.outOk, hi.streamOk, hi.replay, hi.inbox, hi.fresh, hi.pumpOk, fun _ n hn => ?_,
      fun _ n hn => ?_⟩
    · rcases hn with hn | hn
      · rw [hempty] at hn; cases hn
      · exact absurd hn ((hi.fresh sid (by omega)).2 n)
    · rw [hempty] at hn; cases hn
  | @readAck sid n rest hr hd hx =>
    have hsid : sid = s.current := by
      simp only [Inbox, InboxOf, if_neg hx, hr] at hb
      exact hb.1
    subst hsid
    have hmem : .ack n ∈ (s.streams s.current).down := by rw [hd]; exact List.mem_cons_self
    have hu := hi.popDown hd
    refine ⟨hu.holds, hu.acked, hu.outOk, hu.streamOk, hu.replay, fun m hm => ?_, hu.fresh, hu.pumpOk, fun hr m hm => ?_,
      fun hlt => absurd hmem ((hi.fresh _ hlt).2 n)⟩
    · rcases List.mem_append.mp hm with hm | hm
      · exact hu.inbox m hm
      · cases List.mem_singleton.mp hm
        exact (hi.streamOk _).acks n hmem
    · rcases hm with hm | hm
      · rcases List.mem_append.mp hm with hm | hm
        · exact hu.below hr m (.inl hm)
        · cases List.mem_singleton.mp hm
          exact hi.below hr n (.inr hmem)
      · exact hu.below hr m (.inr hm)
  | readMsgClosed _ hd => exact hi.popDown hd
  | @readLast _ m _ _ hd hn =>
    refine (hi.popDown hd).popInbox fun n hm => ?_
    rcases List.mem_append.mp hm with hm | hm
    · exact hm
    · cases m with
      | ack k => exact absurd rfl (hn k)
      | done => cases List.mem_singleton.mp hm
      | error f => cases List.mem_singleton.mp hm
  | readEnd =>
    refine hi.popInbox fun n hm => ?_
    rcases List.mem_append.mp hm with hm | hm
    · exact hm
    · cases List.mem_singleton.mp hm
  | _ => exact hi

theorem link_bytes {s s' : Transfer} {a : LinkAct} (hi : Bytes s) (hl : Lane s) (h : LinkCase s a s') : Bytes s' := by
  cases h with
  | outage up down =>
    refine hi.shrink _ ((hi.streamOk _).cutAt up down) (fun o e ho hr => ?_) (fun hnil => ?_) fun n hn => ?_
    · obtain ⟨m, hm⟩ := body_take (s.streams (s.opened - 1)).up up
      obtain ⟨e', hle, hr'⟩ := hr.take m
      exact ⟨o, e', ho, hle, hm ▸ hr', nofun⟩
    · obtain ⟨m, hm⟩ := body_take (s.streams (s.opened - 1)).up up
      exact hm.trans (by rw [hnil, List.take_nil])
    · exact List.mem_of_mem_take hn
  | reconnect | restoreSkip | restoreFail | restoreDeliver | restorePrune => exact hi.setRestore nofun
  | restoreRead =>
    refine hi.setRestore fun r hr => ?_
    cases hr
    exact hi.acked
  | @restoreOpen r hr =>
    have hcur := hl.currentLt
    have htx : s.pump.quicTx ≤ s.current := hl.resumedLe _ List.mem_cons_self
    have hr0 := hi.replay r hr
    have hrun : Run s.pushed 0 [] 0 := .nil 0
    refine (hi.update s.opened (.opened (.reconnect r)) ⟨⟨0, 0, Nat.zero_le _, hrun⟩, fun r' l hu => ?_, nofun⟩
      (fun _ => ⟨rfl, nofun⟩) (fun h => ?_) fun h => ?_).setRestore nofun
    · cases hu
      exact hr0
    · omega
    · omega
  | dropStream sid => exact hi.fin sid
  | _ => exact hi

/-! ## The receiver -/

/-- The connect header is on the first stream, and is read before any other. -/
structure Connect (s : Transfer) : Prop where
  first : ∀ sid l, (s.streams sid).up = .connect :: l → sid = 0
  absent : s.nextAccept = 0 → s.down.pc = .absent

theorem take_append_of_prefix_drop {l t : List UInt8} {n : Nat} (h : t <+: l.drop n) :
    l.take n ++ t = l.take (n + t.length) := by
  rw [List.take_add]
  congr 1
  exact List.prefix_iff_eq_take.mp h

/-- What is left of a chunk that continues what was written. -/
theorem trimmed_spec {d : Downlink} {offset : Nat} {payload : List UInt8} (hp : payload <+: pushed.drop offset)
    (ho : offset ≤ d.bytesWritten) (hw : d.bytesWritten < offset + payload.length) :
    d.bytesWritten + (trimmed d offset payload).length = offset + payload.length ∧
      trimmed d offset payload <+: pushed.drop d.bytesWritten := by
  constructor
  · simp only [trimmed, List.length_drop]
    omega
  · have hd := List.IsPrefix.drop hp (d.bytesWritten - offset)
    have heq : offset + (d.bytesWritten - offset) = d.bytesWritten := by omega
    rwa [List.drop_drop, heq] at hd

/-- More is written to the client, up to the end of a chunk of the stream being read. -/
theorem BytesOf.write (hi : BytesOf pushed spool down streams restore ackRx pump current) {sid offset : Nat}
    {payload : List UInt8} {rest : List UpFrame} (hx : down.pc.ended = false)
    (hu : (streams sid).up = .chunk offset payload :: rest) (hw : down.bytesWritten < offset + payload.length)
    {down' : Downlink} (hw' : down'.bytesWritten = down.bytesWritten + (trimmed down offset payload).length)
    (ho' : down'.out = down.out ++ trimmed down offset payload) :
    BytesOf pushed spool down' (Function.update streams sid { streams sid with up := rest }) restore ackRx pump current := by
  obtain ⟨ho, hne, hp⟩ := (hi.streamOk sid).front hu
  obtain ⟨hlen, hpre⟩ := trimmed_spec hp ho hw
  have hend := length_le_of_prefix_drop hp hne
  have hle : down.bytesWritten ≤ down'.bytesWritten := by omega
  have hout : down'.out = pushed.take down'.bytesWritten := by
    rw [ho', hi.outOk.out hx, take_append_of_prefix_drop hpre, hw']
  refine ⟨hi.holds, ?_, ⟨by omega, fun _ => hout, hout ▸ List.take_prefix ..⟩, fun i => ?_, fun r hr => ?_, fun n hn => ?_,
    fun i hlt => ?_, ?_, fun hr n hn => ?_, hi.stale⟩
  · have := hi.acked
    omega
  · by_cases h : i = sid
    · subst h
      rw [Function.update_self]
      exact (hi.streamOk i).popChunk hu hle (by omega)
    · rw [Function.update_of_ne h]
      exact (hi.streamOk i).mono hle
  · have := hi.replay r hr
    omega
  · have := hi.inbox n hn
    omega
  · have h : i ≠ sid := by
      rintro rfl
      have := (hi.fresh i hlt).1
      rw [hu] at this
      cases this
    rw [Function.update_of_ne h]
    exact hi.fresh i hlt
  · by_cases h : pump.quicTx = sid
    · subst h
      rw [Function.update_self]
      refine hi.pumpOk.stream fun o e _ hr => ?_
      rw [hu, body_chunk] at hr
      cases hr with
      | cons _ _ ht =>
        refine ⟨_, e, ?_, Nat.le_refl _, by rw [ht.body_eq]; exact ht, fun hc => ⟨hc, rfl⟩⟩
        omega
    · rw [Function.update_of_ne h]
      exact hi.pumpOk.stream fun o e ho hr => ⟨o, e, by omega, Nat.le_refl _, hr, fun hc => ⟨hc, rfl⟩⟩
  · rcases hn with hn | hn
    · exact hi.below hr n (.inl hn)
    · refine hi.below hr n (.inr ?_)
      by_cases h : current = sid
      · subst h
        rwa [Function.update_self] at hn
      · rwa [Function.update_of_ne h] at hn

/-- A message that is not an ack is written to a stream. -/
theorem BytesOf.tell (hi : BytesOf pushed spool down streams restore ackRx pump current) (sid : Nat) (m : WormholeMsg)
    (hm : ∀ n, m ≠ .ack n) {q' : QStream} (hu : q'.up = (streams sid).up)
    (hd : q'.down = ((streams sid).writeMsg m).down) (hc : q'.cut = (streams sid).cut) :
    BytesOf pushed spool down (Function.update streams sid q') restore ackRx pump current := by
  have hs := hi.streamOk sid
  have hsub : ∀ n, .ack n ∈ q'.down → .ack n ∈ (streams sid).down := by
    intro n hn
    rw [hd] at hn
    simp only [QStream.writeMsg] at hn
    split at hn
    · exact hn
    · rcases List.mem_append.mp hn with hn | hn
      · exact hn
      · exact absurd (List.mem_singleton.mp hn).symm (hm n)
  refine hi.shrink sid ⟨hu ▸ hs.run, hu ▸ hs.header, fun n hn => hs.acks n (hsub n hn)⟩ (fun o e ho hr => ?_)
    (fun h => hu ▸ h) hsub
  exact ⟨o, e, ho, Nat.le_refl _, hu ▸ hr, fun h => ⟨hc ▸ h, rfl⟩⟩

/-- A header is read off a stream. -/
theorem BytesOf.popHeader (hi : BytesOf pushed spool down streams restore ackRx pump current) {sid : Nat} {f : UpFrame}
    {rest : List UpFrame} (hu : (streams sid).up = f :: rest) (hb : body (streams sid).up = rest) :
    BytesOf pushed spool down (Function.update streams sid { streams sid with up := rest }) restore ackRx pump current := by
  refine hi.shrink sid ((hi.streamOk sid).popHeader hu hb) (fun o e ho hr => ?_) (fun hnil => ?_) fun n hn => hn
  · rw [hb] at hr
    exact ⟨o, e, ho, Nat.le_refl _, by rw [hr.body_eq]; exact hr, fun hc => ⟨hc, rfl⟩⟩
  · rw [hb] at hnil
    rw [hnil, body_nil]

/-- A chunk that was written before is read off a stream. -/
theorem BytesOf.popDuplicate (hi : BytesOf pushed spool down streams restore ackRx pump current) {sid offset : Nat}
    {payload : List UInt8} {rest : List UpFrame} (hu : (streams sid).up = .chunk offset payload :: rest)
    (hd : offset + payload.length ≤ down.bytesWritten) :
    BytesOf pushed spool down (Function.update streams sid { streams sid with up := rest }) restore ackRx pump current := by
  refine hi.shrink sid ((hi.streamOk sid).popChunk hu (Nat.le_refl _) hd) (fun o e _ hr => ?_) (fun hnil => ?_) fun n hn => hn
  · rw [hu, body_chunk] at hr
    cases hr with
    | cons _ _ ht => exact ⟨_, e, hd, Nat.le_refl _, by rw [ht.body_eq]; exact ht, fun hc => ⟨hc, rfl⟩⟩
  · rw [hu, body_chunk] at hnil
    cases hnil

theorem writeAck_bytes {s : Transfer} (hi : Bytes s) (hl : Lane s) {sid offset : Nat} {payload : List UInt8}
    {rest : List UpFrame} (hx : s.down.pc.ended = false) (hu : (s.streams sid).up = .chunk offset payload :: rest)
    (hw : s.down.bytesWritten < offset + payload.length) {down' : Downlink}
    (hw' : down'.bytesWritten = s.down.bytesWritten + (trimmed s.down offset payload).length)
    (ho' : down'.out = s.down.out ++ trimmed s.down offset payload) :
    BytesOf s.pushed s.spool down'
      (Function.update s.streams sid ({ s.streams sid with up := rest }.writeMsg (.ack down'.bytesWritten))) s.restore
      s.ackRx s.pump s.current := by
  have hb := hi.write hx hu hw hw' ho'
  have hrest := hb.streamOk sid
  rw [Function.update_self] at hrest
  obtain ⟨ho, _, hp⟩ := (hi.streamOk sid).front hu
  have hend := (trimmed_spec hp ho hw).1
  have hle : sid ≤ s.pump.quicTx := by
    by_contra hlt
    have := (hi.fresh sid (by omega)).1
    rw [hu] at this
    cases this
  have htx : s.pump.quicTx ≤ s.current := hl.resumedLe _ List.mem_cons_self
  have := hb.update sid ({ s.streams sid with up := rest }.writeMsg (.ack down'.bytesWritten))
    (hrest.writeMsg fun n hn => by cases hn; exact Nat.le_refl _) (fun h => by omega) (fun h => ?_) (fun h hr n hn => ?_)
  · rwa [Function.update_idem] at this
  · have hpump := hb.pumpOk
    rw [← h, Function.update_self] at hpump
    exact hpump.stream fun o e ho hr => ⟨o, e, ho, Nat.le_refl _, hr, fun hc => ⟨hc, rfl⟩⟩
  · -- The stream read is the pump's own, so the chunk ends at or below `Q`.
    have hcur : s.pump.quicTx = sid := by omega
    have hn' : n = down'.bytesWritten ∨ .ack n ∈ (s.streams sid).down := by
      simp only [QStream.writeMsg] at hn
      split at hn
      · exact .inr hn
      · rcases List.mem_append.mp hn with hn | hn
        · exact .inr hn
        · cases List.mem_singleton.mp hn
          exact .inl rfl
    rcases hn' with rfl | hn'
    · obtain ⟨o, e, _, he, hrun, _⟩ := hi.pumpOk.run hr
      rw [hcur, hu, body_chunk] at hrun
      cases hrun with
      | cons _ _ ht =>
        have := ht.le
        omega
    · exact hi.below hr n (.inr (h ▸ hn'))

/-- The write of a chunk fails after some of it: the downlink ends with a prefix. -/
theorem writeFail_bytes {s : Transfer} (hi : Bytes s) {sid offset : Nat} {payload : List UInt8}
    {rest : List UpFrame} (hx : s.down.pc.ended = false) (hu : (s.streams sid).up = .chunk offset payload :: rest)
    (hw : s.down.bytesWritten < offset + payload.length) (n : Nat) :
    BytesOf s.pushed s.spool
      { s.down with pc := .report sid (.failed .tcpWrite), out := s.down.out ++ (trimmed s.down offset payload).take n }
      s.streams s.restore s.ackRx s.pump s.current := by
  obtain ⟨ho, _, hp⟩ := (hi.streamOk sid).front hu
  obtain ⟨_, hpre⟩ := trimmed_spec hp ho hw
  have hout : s.down.out ++ (trimmed s.down offset payload).take n <+: s.pushed := by
    rw [hi.outOk.out hx, take_append_of_prefix_drop ((List.take_prefix _ _).trans hpre)]
    exact List.take_prefix ..
  exact ⟨hi.holds, hi.acked, ⟨hi.outOk.le, nofun, hout⟩, hi.streamOk, hi.replay, hi.inbox, hi.fresh,
    hi.pumpOk, hi.below, hi.stale⟩

theorem down_bytes {s s' : Transfer} {a : DownAct} (hi : Bytes s) (hl : Lane s) (hc : Connect s) (h : DownCase s a s') :
    Bytes s' := by
  cases h with
  | acceptConnect _ hu =>
    refine (hi.popHeader hu (by rw [hu]; rfl)).moveDown rfl rfl fun _ => ?_
    rw [hc.absent (hc.first _ _ hu)]
    rfl
  | acceptReconnect _ hu => exact (hi.popHeader hu (by rw [hu]; rfl)).moveDown rfl rfl fun h => h
  | acceptRefused _ hu => exact hi.popHeader hu (by rw [hu]; rfl)
  | start hpc | tcpAccept hpc | readError hpc | resume hpc | lost hpc =>
    exact hi.moveDown rfl rfl fun _ => by rw [hpc]; rfl
  | tcpAcceptFail => exact (hi.endDown rfl).tell _ (.error .tcpAccept) (by simp) rfl rfl rfl
  | duplicate _ _ hu hd => exact hi.popDuplicate hu hd
  | gap _ _ hu hg =>
    have := ((hi.streamOk _).front hu).1
    omega
  | write _ hpc hu hw => exact hi.write (by rw [hpc]; rfl) hu hw rfl rfl
  | writeAck _ hpc hu hw => exact writeAck_bytes hi hl (by rw [hpc]; rfl) hu hw rfl rfl
  | writeFail n hpc hu hw =>
    exact (writeFail_bytes hi (by rw [hpc]; rfl) hu hw n).tell _ (.error .tcpWrite) (by simp) rfl rfl rfl
  | eof => exact (hi.endDown rfl).tell _ .done (by simp) rfl rfl rfl
  | report => exact hi.endDown rfl
  | dropHandle => exact hi.moveDown rfl rfl fun h => h
  | dropStream => exact hi.flags _ rfl rfl rfl
  | acceptSkip => exact hi

/-! ## Every run -/

theorem up_first_of_update {streams : Nat → QStream} {sid : Nat} {q' : QStream}
    (hi : ∀ i l, (streams i).up = .connect :: l → i = 0) (hq : ∀ l, q'.up = .connect :: l → sid = 0) (i : Nat)
    (l : List UpFrame) (h : (Function.update streams sid q' i).up = .connect :: l) : i = 0 := by
  by_cases hi' : i = sid
  · subst hi'
    rw [Function.update_self] at h
    exact hq l h
  · rw [Function.update_of_ne hi'] at h
    exact hi i l h

/-- No header is left behind a header or a chunk. -/
theorem StreamOk.rest (h : StreamOk pushed written q) {f : UpFrame} {rest : List UpFrame} (hu : q.up = f :: rest) :
    headed rest = false := by
  obtain ⟨o, e, _, hr⟩ := h.run
  rw [hu] at hr
  cases f with
  | connect => exact hr.not_headed
  | reconnect => exact hr.not_headed
  | chunk =>
    cases hr with
    | cons _ _ ht => exact ht.not_headed

theorem connect_not_rest {rest l : List UpFrame} {P : Prop} (h : headed rest = false) (hl : rest = .connect :: l) : P := by
  subst hl
  cases h

theorem init_connect (capped : Bool) : Connect (init capped) := by
  refine ⟨fun sid l h => ?_, fun _ => rfl⟩
  rw [init_streams] at h
  split at h
  · assumption
  · cases h

theorem step_connect {s s' : Transfer} {a : Act} (hi : Connect s) (hb : Bytes s) (h : s.step a = some s') :
    Connect s' := by
  cases a with
  | reader a => cases readerStep_cases h <;> exact ⟨hi.first, hi.absent⟩
  | ticket a => cases ticketStep_cases h <;> exact ⟨hi.first, hi.absent⟩
  | pump a =>
    cases pumpStep_cases h with
    | linkUp | drainFin | postFin => exact ⟨up_first_of_update hi.first (hi.first _), hi.absent⟩
    | write =>
      refine ⟨up_first_of_update hi.first fun l hu => ?_, hi.absent⟩
      simp only [QStream.write] at hu
      split at hu
      · exact hi.first _ l hu
      · cases hup : (s.streams s.pump.quicTx).up with
        | nil => rw [hup] at hu; cases hu
        | cons f l' =>
          rw [hup, List.cons_append, List.cons.injEq] at hu
          exact hi.first _ l' (by rw [hup, hu.1])
    | _ => exact ⟨hi.first, hi.absent⟩
  | ack a =>
    cases ackStep_cases h with
    | readMsgClosed | readAck | readLast => exact ⟨up_first_of_update hi.first (hi.first _), hi.absent⟩
    | _ => exact ⟨hi.first, hi.absent⟩
  | link a =>
    cases linkStep_cases h with
    | outage up =>
      refine ⟨up_first_of_update hi.first fun l hu => ?_, hi.absent⟩
      cases hup : (s.streams (s.opened - 1)).up with
      | nil => simp [QStream.cutAt, hup] at hu
      | cons f l' =>
        cases up with
        | zero => simp [QStream.cutAt] at hu
        | succ up =>
          simp only [QStream.cutAt, hup, List.take_succ_cons, List.cons.injEq] at hu
          exact hi.first _ l' (by rw [hup, hu.1])
    | restoreOpen => exact ⟨up_first_of_update hi.first nofun, hi.absent⟩
    | dropStream => exact ⟨up_first_of_update hi.first (hi.first _), hi.absent⟩
    | _ => exact ⟨hi.first, hi.absent⟩
  | down a =>
    cases downStep_cases h with
    | acceptConnect _ hu | acceptReconnect _ hu | acceptRefused _ hu =>
      exact ⟨up_first_of_update hi.first fun l hl => connect_not_rest ((hb.streamOk _).rest hu) hl, nofun⟩
    | acceptSkip => exact ⟨hi.first, nofun⟩
    | duplicate _ _ hu =>
      exact ⟨up_first_of_update hi.first fun l hl => connect_not_rest ((hb.streamOk _).rest hu) hl, hi.absent⟩
    | gap _ hpc hu | write _ hpc hu | writeAck _ hpc hu =>
      refine ⟨up_first_of_update hi.first fun l hl => connect_not_rest ((hb.streamOk _).rest hu) hl, fun h0 => ?_⟩
      rw [hi.absent h0] at hpc
      cases hpc
    | tcpAcceptFail hpc | writeFail _ hpc | eof hpc =>
      refine ⟨up_first_of_update hi.first (hi.first _), fun h0 => ?_⟩
      rw [hi.absent h0] at hpc
      cases hpc
    | start hpc | tcpAccept hpc | report hpc | readError hpc | resume hpc | lost hpc =>
      refine ⟨hi.first, fun h0 => ?_⟩
      rw [hi.absent h0] at hpc
      cases hpc
    | dropHandle => exact ⟨hi.first, hi.absent⟩
    | dropStream => exact ⟨up_first_of_update hi.first (hi.first _), hi.absent⟩

/-- What every run keeps. -/
structure Sound (s : Transfer) : Prop where
  lane : Lane s
  inbox : Inbox s
  notMarked : NotMarked s
  finished : Finished s
  connect : Connect s
  bytes : Bytes s

theorem init_sound (capped : Bool) : Sound (init capped) :=
  ⟨init_lane capped, init_inbox capped, fun _ => rfl, nofun, init_connect capped, init_bytes capped⟩

theorem step_sound {s s' : Transfer} {a : Act} (hi : Sound s) (h : s.step a = some s') : Sound s' := by
  refine ⟨step_lane hi.lane h, step_inbox hi.inbox h, step_notMarked hi.notMarked h,
    step_finished hi.finished hi.notMarked hi.bytes h, step_connect hi.connect hi.bytes h, ?_⟩
  cases a with
  | reader a => exact reader_bytes hi.bytes hi.notMarked (readerStep_cases h)
  | ticket a => exact ticket_bytes hi.bytes (ticketStep_cases h)
  | pump a => exact pump_bytes hi.bytes hi.lane hi.finished (pumpStep_cases h)
  | ack a => exact ack_bytes hi.bytes hi.lane hi.inbox (ackStep_cases h)
  | link a => exact link_bytes hi.bytes hi.lane (linkStep_cases h)
  | down a => exact down_bytes hi.bytes hi.lane hi.connect (downStep_cases h)

theorem reach_sound {capped : Bool} {ok : Transfer → Act → Prop} {s : Transfer} (h : Reach step ok (init capped) s) :
    Sound s :=
  h.invariant (init_sound capped) fun hi _ hs => step_sound hi hs

/-- The receiving client's bytes are a prefix of the pushed bytes, and neither gap check
    fires: no header on its way asks for more than was written, and no chunk that comes
    next on any stream starts above it. -/
theorem delivered_without_gap {capped : Bool} {s : Transfer} (h : Reach step anyStep (init capped) s) :
    s.down.out <+: s.pushed ∧
      (∀ sid r l, (s.streams sid).up = .reconnect r :: l → r ≤ s.down.bytesWritten) ∧
      (∀ sid o p l, (s.streams sid).up = .chunk o p :: l → o ≤ s.down.bytesWritten) := by
  have hb := (reach_sound h).bytes
  exact ⟨hb.outOk.sent, fun sid => (hb.streamOk sid).header, fun sid o p l hu => ((hb.streamOk sid).front hu).1⟩

/-! ## Pieces of runs, and a run with an outage -/

/-- The client writes, and the reader pushes what it wrote. -/
def writeAndPush (data : List UInt8) : List Act :=
  [.reader (.clientWrite data), .reader .space, .reader (.read data.length), .reader .store, .reader .notify]

/-- The client closes, and the reader marks EOF. -/
def closeClient : List Act := [.reader .clientClose, .reader .space, .reader .eof, .reader .store, .reader .notify]

/-- The timer grants the pump `n` bytes. -/
def grant (n : Nat) : List Act := [.ticket .timerHead, .ticket .timerQ, .ticket (.timerSend n), .pump .ticket]

/-- The pump sends one chunk and then finds its budget or the spool drained. -/
def sendChunk : List Act := [.pump (.drain 0), .pump .write, .pump .store, .pump (.drain 0), .pump .post]

/-- The receiver takes the first stream, and its client connects. -/
def startDownlink : List Act := [.down .accept, .down .start, .down .tcpAccept]

/-- The link fails and delivers nothing more; the ack task notices. -/
def loseLink : List Act := [.ack .check, .link (.outage 0 0), .ack .readEnd, .ack .msg, .ack .check]

/-- A fresh stream is opened and given to the ack task. -/
def restoreLink : List Act :=
  [.link .reconnect, .link .restoreRead, .link .restoreOpen, .link .restoreDeliver, .ack .stream]

/-- The pump rewinds and takes the fresh stream's write half. -/
def resumePump : List Act := [.ack .linkUp, .pump .cmd, .pump .store, .pump .cmd, .pump .store]

/-- The receiver goes on with the fresh stream. -/
def resumeDownlink : List Act := [.down .readError, .down .accept, .down .resume]

/-- Two of three bytes are delivered, the link fails, and all three are sent again. -/
theorem replayed_without_gap :
    ∃ s, Reach step anyStep (init true) s ∧ s.opened = 2 ∧ s.down.out = [1, 2, 3] ∧ s.down.out <+: s.pushed := by
  obtain ⟨s, hr, hs⟩ := Reach.exists_run step anyStep (init true)
    [[.reader .accept], writeAndPush [1, 2, 3], grant 2, sendChunk, startDownlink, [.down (.chunk false)], loseLink,
      restoreLink, resumePump, grant 9, sendChunk, resumeDownlink, [.down (.chunk false)]].flatten
    (fun s => s.opened = 2 ∧ s.down.out = [1, 2, 3]) (by decide +kernel)
  have hs := of_decide_eq_true hs
  exact ⟨s, hr, hs.1, hs.2, (delivered_without_gap hr).1⟩

end Quelay.Agent.Transfer
