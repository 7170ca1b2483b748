/-
  Quelay.Agent.Transfer.Resume — after an outage the pump goes on where the acks end.

  The ack task hands the pump the write half of each fresh stream. The pump takes it with
  its position at `bytes_acked` and writes again what the spool has from there on. It does
  not if it has sent FIN before: then it has ended, `link_up` fails, and the ack task
  returns (`fin_before_outage`). An uncapped pump takes the stream, but gets a ticket for
  the bytes to replay only with the next notification of the reader.

  In runs without these (`resumes`) every stream that the ack task resumes on is on its way
  to a live pump, or the pump has it and has written what lies between the position at
  which it took it and its own; and a transfer that nothing but the clients can move any
  more, on a live link, has written everything from there on (`resume_law`).
-/

import Quelay.Agent.Transfer.Uncapped
import Quelay.Agent.Transfer.Capped
import Quelay.Agent.Transfer.LinkUps
import Quelay.Agent.Transfer.Outcome

namespace Quelay.Agent.Transfer

open Quelay.Lib

variable {s s' : Transfer}

/-! ## What has been written on the pump's stream -/

/-- The stream was taken at `b`, and what was pushed from there up to `q` has been written
    on it. -/
def WrittenTo (pushed : List UInt8) (q : Nat) (stream : QStream) : Prop :=
  ∃ b ≤ q, stream.adoptedAt = some b ∧ stream.sent = (pushed.drop b).take (q - b)

theorem WrittenTo.push {pushed : List UInt8} {q : Nat} {stream : QStream} (h : WrittenTo pushed q stream)
    (hq : q ≤ pushed.length) (data : List UInt8) : WrittenTo (pushed ++ data) q stream := by
  obtain ⟨b, hb, hat, hsent⟩ := h
  refine ⟨b, hb, hat, ?_⟩
  rw [hsent, List.drop_append_of_le_length (by omega), List.take_append_of_le_length]
  rw [List.length_drop]
  omega

theorem WrittenTo.write {pushed chunk : List UInt8} {q : Nat} {stream : QStream} (h : WrittenTo pushed q stream)
    (hc : chunk <+: pushed.drop q) : WrittenTo pushed (q + chunk.length) (stream.write q chunk) := by
  obtain ⟨b, hb, hat, hsent⟩ := h
  refine ⟨b, by omega, hat, ?_⟩
  calc (stream.write q chunk).sent
      = (pushed.drop b).take (q - b) ++ (pushed.drop q).take chunk.length := by
        rw [← List.prefix_iff_eq_take.mp hc, ← hsent]
        rfl
    _ = (pushed.drop b).take (q - b) ++ ((pushed.drop b).drop (q - b)).take chunk.length := by
        rw [List.drop_drop, Nat.add_sub_cancel' hb]
    _ = (pushed.drop b).take (q + chunk.length - b) := by
        rw [← List.take_add, Nat.sub_add_comm hb]

theorem WrittenTo.flags {pushed : List UInt8} {q : Nat} {stream stream' : QStream} (h : WrittenTo pushed q stream)
    (hat : stream'.adoptedAt = stream.adoptedAt) (hsent : stream'.sent = stream.sent) : WrittenTo pushed q stream' := by
  unfold WrittenTo
  rw [hat, hsent]
  exact h

/-- A pump that has not lost its stream has written on it all that it is past, and nothing
    is written on a stream that it has still to take. -/
structure ReplaysOf (pushed : List UInt8) (pump : StreamPump) (streams : Nat → QStream) : Prop where
  written : running pump = true → WrittenTo pushed pump.q (streams pump.quicTx)
  unused : ∀ sid, pump.quicTx < sid → (streams sid).sent = []

def Replays (s : Transfer) : Prop := ReplaysOf s.pushed s.pump s.streams

variable {pushed : List UInt8} {pump : StreamPump} {streams : Nat → QStream}

/-- A stream changes, and neither what was written on it nor where it was taken. -/
theorem ReplaysOf.flags (hi : ReplaysOf pushed pump streams) {sid : Nat} {stream : QStream}
    (hat : stream.adoptedAt = (streams sid).adoptedAt) (hsent : stream.sent = (streams sid).sent) :
    ReplaysOf pushed pump (Function.update streams sid stream) := by
  refine ⟨fun hr => ?_, fun i hlt => ?_⟩
  · refine of_update (P := WrittenTo pushed pump.q) (hi.written hr) fun h => ?_
    exact h.flags hat hsent
  · refine of_update (P := fun q => q.sent = []) (hi.unused i hlt) fun h => ?_
    rw [hsent]
    exact h

theorem ReplaysOf.movePump (hi : ReplaysOf pushed pump streams) {pump' : StreamPump} (htx : pump'.quicTx = pump.quicTx)
    (hr : running pump' = true → running pump = true ∧ pump'.q = pump.q) : ReplaysOf pushed pump' streams := by
  refine ⟨fun h => ?_, fun sid hlt => hi.unused sid (htx ▸ hlt)⟩
  obtain ⟨hrun, hq⟩ := hr h
  rw [hq, htx]
  exact hi.written hrun

theorem init_replays (capped : Bool) : Replays (init capped) := by
  refine ⟨fun _ => ⟨0, Nat.le_refl _, rfl, rfl⟩, fun sid hlt => ?_⟩
  rw [init_streams, if_neg (Nat.pos_iff_ne_zero.mp hlt)]
  rfl

theorem pump_replays {a : PumpAct} (hi : Replays s) (hl : Living s) (h : PumpCase s a s') : Replays s' := by
  cases h with
  | linkDown | writeFail => exact hi.movePump rfl nofun
  | @linkUp sid cmds hpc hc =>
    -- The stream is newer than the pump's: nothing has been written on it.
    have hlane := hl.sound.lane
    simp only [Lane, hc, linkUps_linkUp, List.cons_append] at hlane
    have hlt : s.pump.quicTx < sid := (List.pairwise_cons.mp hlane.resumedOrder).1 sid List.mem_cons_self
    refine ⟨fun _ => ?_, fun i hi' => ?_⟩
    · show WrittenTo s.pushed s.spool.bytesAcked (Function.update s.streams sid _ sid)
      rw [Function.update_self]
      refine ⟨s.spool.bytesAcked, Nat.le_refl _, rfl, ?_⟩
      rw [Nat.sub_self, List.take_zero]
      exact hi.unused sid hlt
    · have hi' : sid < i := hi'
      show (Function.update s.streams sid _ i).sent = []
      rw [Function.update_of_ne (Nat.ne_of_gt hi')]
      exact hi.unused i (Nat.lt_trans hlt hi')
  | @write rem chunk hpc =>
    have hw := hi.written (by rw [running, hpc])
    refine ⟨fun _ => ?_, fun i hlt => ?_⟩
    · show WrittenTo s.pushed (s.pump.q + chunk.length) (Function.update s.streams s.pump.quicTx _ s.pump.quicTx)
      rw [Function.update_self]
      exact hw.write (hl.sound.bytes.pumpOk.chunk _ _ hpc).2
    · have hlt : s.pump.quicTx < i := hlt
      show (Function.update s.streams s.pump.quicTx _ i).sent = []
      rw [Function.update_of_ne (Nat.ne_of_gt hlt)]
      exact hi.unused i hlt
  | drainFin _ hpc | postFin hpc =>
    have hfin : ReplaysOf s.pushed s.pump
        (Function.update s.streams s.pump.quicTx { s.streams s.pump.quicTx with upFin := true }) := hi.flags rfl rfl
    exact hfin.movePump rfl fun _ => ⟨by rw [running, hpc], rfl⟩
  | postDone hpc => exact hi.movePump rfl fun _ => ⟨by rw [running, hpc], rfl⟩
  | closed hpc =>
    refine hi.movePump rfl fun hd => ?_
    have hp := (hl.sound.finished hd).1
    rcases hpc with h | h <;> simp [h] at hp
  | linkUpIgnored | discard => exact hi
  | finishWaiting hpc =>
    refine hi.movePump rfl fun hr => ?_
    simp [running, hpc] at hr
  | @store next hpc =>
    refine hi.movePump rfl fun hr => ⟨?_, rfl⟩
    cases next with
    | waitUp => cases hr
    | _ => rw [running, hpc]
  | ticket hpc | finishDrained hpc | finishBacklog hpc | drainSpent _ hpc | drainNone _ hpc | drainEmpty _ hpc
  | drainChunk _ hpc | post hpc =>
    exact hi.movePump rfl fun _ => ⟨by rw [running, hpc], rfl⟩

theorem step_replays {a : Act} (hi : Replays s) (hl : Living s) (h : s.step a = some s') : Replays s' := by
  cases a with
  | reader a =>
    cases readerStep_cases h with
    | read =>
      refine ⟨fun hr => ?_, hi.unused⟩
      exact (hi.written hr).push (hl.sound.bytes.pumpOk.head hr) _
    | _ => exact hi
  | ticket a => cases ticketStep_cases h <;> exact hi
  | pump a => exact pump_replays hi hl (pumpStep_cases h)
  | ack a =>
    cases ackStep_cases h with
    | readMsgClosed | readAck | readLast => exact hi.flags rfl rfl
    | _ => exact hi
  | link a =>
    cases linkStep_cases h with
    | outage | dropStream => exact hi.flags rfl rfl
    | restoreOpen =>
      refine hi.flags ?_ ?_ <;> rw [hl.streams.unused _ (Nat.le_refl _)] <;> rfl
    | _ => exact hi
  | down a =>
    cases downStep_cases h with
    | acceptConnect | acceptReconnect | acceptRefused | tcpAcceptFail | duplicate | gap | write | writeAck | writeFail
    | eof | dropStream => exact hi.flags rfl rfl
    | _ => exact hi

/-! ## The pump outlives the outage -/

/-- The pump has not ended when the ack task gets a stream for it, and does not end while
    one is on its way. -/
def outlivesOutage (s : Transfer) : Act → Prop
  | .ack .stream => s.pump.pc ≠ .exited
  | .pump .post => endsNow s → linkUps s.cmds = [] ∧ pendingUp s.ack = []
  | _ => True

instance (s : Transfer) (a : Act) : Decidable (outlivesOutage s a) := by
  induction a using Act.casesOn with
  | pump a => induction a using PumpAct.casesOn <;> dsimp only [outlivesOutage] <;> infer_instance
  | ack a => induction a using AckAct.casesOn <;> dsimp only [outlivesOutage] <;> infer_instance
  | _ => exact instDecidableTrue

/-- An ended pump has no stream on its way. -/
def NoneInVain (s : Transfer) : Prop := s.pump.pc = .exited → pendingUp s.ack = []

theorem step_noneInVain {a : Act} (hi : NoneInVain s) (hs : Sound s) (hok : outlivesOutage s a) (h : s.step a = some s') :
    NoneInVain s' := by
  intro hx'
  by_cases hx : s.pump.pc = .exited
  · have hup := hi hx
    cases a with
    | reader a => cases readerStep_cases h <;> exact hup
    | ticket a => cases ticketStep_cases h <;> exact hup
    | pump a => cases pumpStep_cases h <;> exact hup
    | ack a =>
      cases ackStep_cases h with
      | stream => exact absurd hx hok
      | readMsgClosed | readAck | readLast | readEndClosed | readEnd | readerClosed => exact hup
      | _ => rfl
    | link a => cases linkStep_cases h <;> exact hup
    | down a => cases downStep_cases h <;> exact hup
  · obtain ⟨_, hack, _, ⟨_, hexit, _⟩ | ⟨rfl, hend⟩⟩ := pump_exit_cases hs hx hx' h
    · rw [hack, hexit]
      rfl
    · rw [hack]
      exact (hok hend).2

/-! ## Every run -/

/-- The stream error's `LinkDown` finds room or is not needed, the pump outlives the outage,
    and an uncapped pump has a ticket coming while it has bytes to send. -/
def resumes (s : Transfer) (a : Act) : Prop :=
  landsLinkDown s a ∧ outlivesOutage s a ∧ (s.capped = false → ackTaskSpares s a ∧ resumesFed s a)

instance (s : Transfer) (a : Act) : Decidable (resumes s a) := inferInstanceAs (Decidable (_ ∧ _ ∧ _))

/-- The timer gives the pump its tickets, or the forwarder does. -/
def Supplied (s : Transfer) : Prop := Timed s ∨ (Unlimited s ∧ Behind s ∧ Fed s)

theorem init_supplied (capped : Bool) : Supplied (init capped) := by
  cases capped with
  | true => exact .inl ⟨rfl, rfl⟩
  | false => exact .inr ⟨init_unlimited, .runs nofun fun _ => .inl nofun, fun hu => absurd hu.2 (Nat.lt_irrefl 0)⟩

theorem step_supplied {a : Act} (hi : Supplied s) (hs : Announced s)
    (hok : s.capped = false → ackTaskSpares s a ∧ resumesFed s a) (h : s.step a = some s') : Supplied s' := by
  rcases hi with ht | ⟨hu, hb, hf⟩
  · exact .inl (step_timed ht h)
  · obtain ⟨hack, hres⟩ := hok hu.1.uncapped
    exact .inr ⟨step_unlimited hu hs h, step_behind hb hs h, step_fed hf hs hb hu hack hres h⟩

structure Resumed (s : Transfer) : Prop where
  announced : Announced s
  framed : Framed s
  abandoned : Abandoned s
  paired : Paired s
  handed : Handed s
  recalled : Recalled s
  noneInVain : NoneInVain s
  replays : Replays s
  supplied : Supplied s

theorem reach_resumed {capped : Bool} (h : Reach step resumes (init capped) s) : Resumed s := by
  refine h.invariant ⟨init_announced capped, init_framed capped, nofun, init_paired capped, init_handed capped, nofun,
    nofun, init_replays capped, init_supplied capped⟩ ?_
  intro s s' a hi ⟨hlands, houtlives, hfed⟩ hs
  have hl := hi.announced.living
  have hempty : a = .pump .post → endsNow s → linkUps s.cmds = [] := by
    rintro rfl hend
    exact (houtlives hend).1
  exact {
    announced := step_announced hi.announced hs
    framed := step_framed hi.framed hl hs
    abandoned := step_abandoned hi.abandoned hl hs
    paired := step_paired hi.paired hlands hs
    handed := step_handed hi.handed hl.sound (hi.paired.takesLinkUp a) hempty hs
    recalled := step_recalled hi.recalled hi.handed hl hs
    noneInVain := step_noneInVain hi.noneInVain hl.sound houtlives hs
    replays := step_replays hi.replays hl hs
    supplied := step_supplied hi.supplied hi.announced hfed hs }

/-- An ended pump has nothing on its way to it. -/
theorem Resumed.live (hi : Resumed s) {sid : Nat} (hs : s.handing sid) : s.pump.pc ≠ .exited := by
  intro hx
  rcases hs with hk | hc
  · have hup := hi.noneInVain hx
    rw [hk] at hup
    cases hup
  · rw [hi.announced.asked.drained hx] at hc
    cases hc

/-- The pump has the ack task's stream, or it is on its way to a live pump. -/
theorem Resumed.on_current (hi : Resumed s) (hx : s.ack ≠ .exited) : s.pump.quicTx = s.current ∨ s.handing s.current := by
  by_cases hp : s.pump.pc = .exited
  · have hd : s.pump.done = true := by
      by_contra hd
      exact hx (hi.abandoned hp (by simpa using hd)).1
    exact .inl (hi.handed.ended hp hd hx (hi.noneInVain hp))
  · exact HandedOn.on_current hi.handed.last hp

/-- The pump does not end while a stream is on its way to it. -/
theorem Resumed.outlives (hi : Resumed s) {a : Act} {sid : Nat} (hok : outlivesOutage s a) (h : s.step a = some s')
    (hs : s.handing sid) : s'.pump.pc ≠ .exited := by
  intro hx'
  obtain ⟨_, _, _, ⟨_, hexit, hcmds⟩ | ⟨rfl, hend⟩⟩ := pump_exit_cases hi.announced.living.sound (hi.live hs) hx' h
  · rcases hs with hk | hc
    · rw [hexit] at hk
      cases hk
    · rw [hcmds] at hc
      cases hc
  · obtain ⟨hcmds, hup⟩ := hok hend
    rcases hs with hk | hc
    · rw [hk] at hup
      cases hup
    · have hmem : sid ∈ linkUps s.cmds := List.mem_filterMap.mpr ⟨_, hc, rfl⟩
      rw [hcmds] at hmem
      cases hmem

/-- Everything has been written by a transfer at rest on a live link. -/
theorem Resumed.stuck (hi : Resumed s) (hstuck : Stuck s) (hup : LinkUp s) :
    s.pump.quicTx = s.current ∧ running s.pump = true ∧ s.pushed.length ≤ s.pump.q := by
  have hs := hi.announced
  have hl := hs.living
  have hp := hstuck.1
  have hack := (hp.onStream hl hs.asked hup.running (hup.main hl)).1
  have htx : s.pump.quicTx = s.current := by
    refine (hi.on_current hup.running).resolve_right fun hh => ?_
    rcases hh with hk | hc
    · rw [hack] at hk
      cases hk
    · rw [hp.cmds hs.asked] at hc
      cases hc
  refine ⟨htx, ?_⟩
  by_cases hx : s.pump.pc = .exited
  · have hd : s.pump.done = true := by
      by_contra hd
      exact hup.running (hi.abandoned hx (by simpa using hd)).1
    exact ⟨by rw [running, hx]; exact hd, (hl.sound.finished hd).2.2⟩
  · have hpc : s.pump.pc = .select := (hp.pump hx).1.resolve_right (hp.not_waiting hs hi.framed hi.recalled hup)
    refine ⟨by rw [running, hpc], ?_⟩
    rcases hi.supplied with ht | ⟨_, _, hf⟩
    · exact hstuck.sent hs ht hpc
    · exact hp.fed hs hf hup.running hpc

/-- The write half of a stream that the ack task resumes on is on its way to a live pump, or
    the pump has it and has written on it everything from where it took it to where it is;
    it leaves its way only for the pump, which takes it at `bytes_acked`; and a transfer at
    rest on a live link has written everything from there on. -/
theorem resume_law {capped : Bool} (h : Reach step resumes (init capped) s) (hx : s.ack ≠ .exited) :
    ((s.handing s.current ∧ s.pump.pc ≠ .exited) ∨
        (s.pump.quicTx = s.current ∧
          (running s.pump = true → WrittenTo s.pushed s.pump.q (s.streams s.current)))) ∧
      (∀ a s' sid, resumes s a → s.step a = some s' → s.handing sid → s'.handing sid ∨
        (s'.pump.quicTx = sid ∧ s'.pump.q = s.spool.bytesAcked ∧
          (s'.streams sid).adoptedAt = some s.spool.bytesAcked)) ∧
      (Stuck s → LinkUp s → s.pump.quicTx = s.current ∧
        ∃ b, (s.streams s.current).adoptedAt = some b ∧ (s.streams s.current).sent = s.pushed.drop b) := by
  have hi := reach_resumed h
  refine ⟨?_, fun a s' sid hok hs hh => ?_, fun hstuck hup => ?_⟩
  · rcases hi.on_current hx with htx | hh
    · refine .inr ⟨htx, fun hr => ?_⟩
      rw [← htx]
      exact hi.replays.written hr
    · exact .inl ⟨hh, hi.live hh⟩
  · exact step_handing hi.paired hs hh (hi.outlives hok.2.1 hs hh)
  · obtain ⟨htx, hr, hq⟩ := hi.stuck hstuck hup
    obtain ⟨b, hb, hat, hsent⟩ := hi.replays.written hr
    rw [htx] at hat hsent
    refine ⟨htx, b, hat, ?_⟩
    rw [hsent, List.take_of_length_le]
    rw [List.length_drop]
    omega

/-- The ack task has nothing to do, and parks. -/
def parkAck : List Act := [.ack .check, .ack .poll, .ack .check, .ack .poll]

/-- Two of three bytes are written on the first stream; the link fails, all three are
    written on the second, and the transfer is at rest. -/
theorem replayed_and_stuck :
    ∃ s, Reach step resumes (init true) s ∧ s.current = 1 ∧ s.pushed = [1, 2, 3] ∧ Stuck s ∧ LinkUp s ∧
      s.pump.quicTx = 1 ∧
      ∃ b, (s.streams 1).adoptedAt = some b ∧ (s.streams 1).sent = s.pushed.drop b ∧ (s.streams 1).sent = [1, 2, 3] := by
  obtain ⟨s, hr, hs⟩ := Reach.exists_run step resumes (init true)
    [[.reader .accept], writeAndPush [1, 2, 3], grant 2, sendChunk, startDownlink, [.down (.chunk false)], loseLink,
      restoreLink, resumePump, grant 9, sendChunk, resumeDownlink,
      [.down (.chunk false), .down (.dropStream 0), .reader .space], parkAck].flatten
    (fun s => s.current = 1 ∧ s.pushed = [1, 2, 3] ∧ AtRestOn s 1 ∧ s.timer = .idle ∧ s.headOffset ≤ s.qAtomic ∧
      s.closing = false ∧ (s.streams 1).sent = [1, 2, 3]) (by decide +kernel)
  obtain ⟨hcur, hpushed, hrest, htimer, hq, hclosing, hsent⟩ := of_decide_eq_true hs
  have hstuck := hrest.stuck htimer hq
  have hrun : s.ack ≠ .exited := by rw [hrest.ack.1]; simp
  have hup : LinkUp s := ⟨hrun, hclosing, hcur ▸ hrest.stream.2.2.2.2, hcur ▸ hrest.stream.2.2.2.1⟩
  obtain ⟨_, _, hall⟩ := resume_law hr hrun
  obtain ⟨htx, b, hat, hdrop⟩ := hall hstuck hup
  rw [hcur] at htx hat hdrop
  exact ⟨s, hr, hcur, hpushed, hstuck, hup, htx, b, hat, hdrop, hsent⟩

/-- The pump has sent everything, and FIN, and has ended, when the link fails with nothing
    acknowledged. The ack task gets a fresh stream; nothing is ever written on it. -/
theorem fin_before_outage :
    ∃ s, Reach step anyStep (init true) s ∧ s.opened = 2 ∧ s.link = true ∧ s.handing 1 ∧
      s.spool.bytesAcked < s.spool.headOffset ∧
      ∀ t, Reach step anyStep s t → t.pump.quicTx ≠ 1 ∧ (t.streams 1).sent = [] := by
  obtain ⟨s, hr, hs⟩ := Reach.exists_run step anyStep (init true)
    [[.reader .accept], writeAndPush [1, 2, 3], closeClient, sendAndFinish 9,
      [.link (.outage 0 0), .ack .readEnd, .ack .msg, .ack .check], restoreLink].flatten
    (fun s => s.opened = 2 ∧ s.link = true ∧ s.ack = .linkUp 1 ∧ s.spool.bytesAcked < s.spool.headOffset ∧
      s.pump.pc = .exited ∧ s.pump.quicTx = 0) (by decide +kernel)
  obtain ⟨hopened, hlink, hack, hlt, hexit, htx⟩ := of_decide_eq_true hs
  refine ⟨s, hr, hopened, hlink, .inl hack, hlt, fun t ht => ?_⟩
  have hstays : t.pump.pc = .exited ∧ t.pump.quicTx = 0 := by
    refine ht.invariant (P := fun t => t.pump.pc = .exited ∧ t.pump.quicTx = 0) ⟨hexit, htx⟩ ?_
    intro u u' a hi _ hu
    obtain ⟨hx, hsame⟩ := pump_exited_stays hi.1 hu
    exact ⟨hx, hsame.trans hi.2⟩
  have hreplays : Replays t := by
    refine (hr.trans ht).invariant_of reach_living (init_replays true) ?_
    intro u u' a hl _ hi _ hu
    exact step_replays hi hl hu
  refine ⟨by rw [hstays.2]; simp, hreplays.unused 1 ?_⟩
  rw [hstays.2]
  exact Nat.one_pos

end Quelay.Agent.Transfer
