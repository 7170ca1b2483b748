/-
  Quelay.Agent.Transfer.WireSteps — a step of a task, with the queues and without them.

  The byte system takes a task's step from a state whose queues are empty, or hold the one
  frame that was read. The same step is enabled in the state with the queues, and makes of
  it the same state up to the queues: most steps do not look at a stream at all (`blind`),
  some only at its marks (`marks`); a sender's step appends what it writes (`Adds`), and a
  receiver's takes one frame off the front and appends its feedback (`Gives`).
-/

import Quelay.Agent.Transfer.WireFrames

namespace Quelay.Agent.Transfer

open Quelay.Lib

/-! ## Steps without the queues -/

def withStreams (s : Transfer) (f : Nat → QStream) : Transfer := { s with streams := f }

theorem readerStep_withStreams (s : Transfer) (f : Nat → QStream) (a : ReaderAct) :
    (s.withStreams f).readerStep a = (s.readerStep a).map (·.withStreams f) := by
  cases a with
  | store | notify =>
    simp only [readerStep, withStreams]
    cases s.reader <;> rfl
  | eof | failedEof =>
    simp only [readerStep, handleEof, apply_ite (Option.map _), apply_ite some, Option.map_some, Option.map_none]
    rfl
  | _ =>
    simp only [readerStep, apply_ite (Option.map _), Option.map_some, Option.map_none]
    rfl

theorem ticketStep_withStreams (s : Transfer) (f : Nat → QStream) (a : TicketAct) :
    (s.withStreams f).ticketStep a = (s.ticketStep a).map (·.withStreams f) := by
  cases a with
  | timerQ =>
    simp only [ticketStep, withStreams]
    cases s.timer <;> rfl
  | _ =>
    simp only [ticketStep, apply_ite (Option.map _), Option.map_some, Option.map_none]
    rfl

theorem ackStep_withStreams (s : Transfer) (f : Nat → QStream) {a : AckAct} (hm : a ≠ .readMsg) (he : a ≠ .readEnd) :
    (s.withStreams f).ackStep a = (s.ackStep a).map (·.withStreams f) := by
  cases a with
  | readMsg => exact absurd rfl hm
  | readEnd => exact absurd rfl he
  | check | finish | wake | linkUp =>
    simp only [ackStep, withStreams, ackExit, unpark]
    cases s.ack <;> first | rfl | (simp only [apply_ite (Option.map _), Option.map_some, Option.map_none]; rfl)
  | poll =>
    simp only [ackStep, withStreams]
    cases s.ack with
    | poll k => cases k <;> first | rfl | (simp only [apply_ite (Option.map _), Option.map_some]; rfl)
    | _ => rfl
  | msg =>
    simp only [ackStep, withStreams]
    cases s.ack.selecting with
    | none => rfl
    | some k =>
      cases k with
      | main =>
        cases s.ackRx with
        | nil => rfl
        | cons m rest =>
          cases m with
          | ack n =>
            simp only [onAck, apply_ite some, apply_ite (Option.map _), Option.map_some]
            rfl
          | _ => rfl
      | _ => rfl
  | stream =>
    simp only [ackStep, withStreams]
    cases s.ack.selecting with
    | none => rfl
    | some k =>
      cases k with
      | reconnect =>
        cases s.streamRx with
        | nil => rfl
        | cons sid rest =>
          simp only [apply_ite (Option.map _), Option.map_some]
          rfl
      | _ => rfl
  | _ =>
    simp only [ackStep, apply_ite (Option.map _), Option.map_some, Option.map_none]
    rfl

/-- The step neither looks at a stream nor changes one. -/
def blind : Act → Bool
  | .reader _ | .ticket _ => true
  | .ack .readMsg | .ack .readEnd => false
  | .ack _ => true
  | .pump .ticket | .pump .store | .pump .discard | .pump .closed => true
  | .link .reconnect | .link .restoreRead | .link .restoreFail | .link .restoreDeliver | .link .hookLinkDown
  | .link .dropHandle => true
  | .down .start | .down .tcpAccept | .down .report | .down .resume | .down .lost | .down .dropHandle => true
  | _ => false

theorem step_withStreams {s : Transfer} (f : Nat → QStream) {a : Act} (ha : blind a = true) :
    (s.withStreams f).step a = (s.step a).map (·.withStreams f) := by
  cases a with
  | reader a => exact readerStep_withStreams s f a
  | ticket a => exact ticketStep_withStreams s f a
  | ack a =>
    refine ackStep_withStreams s f ?_ ?_
    · rintro rfl
      cases ha
    · rintro rfl
      cases ha
  | pump a =>
    cases a with
    | ticket =>
      simp only [step, pumpStep, withStreams]
      cases s.pump.pc <;> cases s.alloc <;> rfl
    | store =>
      simp only [step, pumpStep, withStreams]
      cases s.pump.pc <;> rfl
    | discard | closed =>
      simp only [step, pumpStep, apply_ite (Option.map _), Option.map_some, Option.map_none]
      rfl
    | _ => cases ha
  | link a =>
    cases a with
    | restoreFail =>
      simp only [step, linkStep, withStreams]
      cases s.restore <;> rfl
    | restoreDeliver =>
      simp only [step, linkStep, withStreams]
      cases s.restore <;>
        first | rfl | (simp only [apply_ite (Option.map _), Option.map_some]; rfl)
    | dropHandle => rfl
    | reconnect | restoreRead | hookLinkDown =>
      simp only [step, linkStep, apply_ite (Option.map _), Option.map_some, Option.map_none]
      rfl
    | _ => cases ha
  | down a =>
    cases a with
    | start | resume =>
      simp only [step, downStep, withStreams]
      cases s.down.pc <;> cases s.down.streamRx <;> rfl
    | tcpAccept | report =>
      simp only [step, downStep, withStreams]
      cases s.down.pc <;> rfl
    | lost =>
      simp only [step, downStep, apply_ite (Option.map _), Option.map_some, Option.map_none]
      rfl
    | dropHandle => rfl
    | _ => cases ha

theorem bare_setStream (s : Transfer) (sid : Nat) (q : QStream) :
    (s.setStream sid q).bare = s.bare.setStream sid q.bare := by
  show { s with streams := QStream.bare ∘ Function.update s.streams sid q } = _
  rw [Function.comp_update]
  rfl

@[simp] theorem bare_pump (s : Transfer) : s.bare.pump = s.pump := rfl
@[simp] theorem bare_spool (s : Transfer) : s.bare.spool = s.spool := rfl
@[simp] theorem bare_cmds (s : Transfer) : s.bare.cmds = s.cmds := rfl

theorem bare_sendFin (s : Transfer) : s.sendFin.bare = s.bare.sendFin :=
  congrArg (fun t : Transfer => { t with pump := { s.pump with done := true } }) (bare_setStream s s.pump.quicTx _)

theorem bare_adopt (s : Transfer) (sid : Nat) : (s.adopt sid).bare = s.bare.adopt sid :=
  congrArg (fun t : Transfer =>
    { t with pump := { s.pump with pc := .store .select, q := s.spool.bytesAcked, quicTx := sid } })
    (bare_setStream s sid _)

theorem bare_drainTurn (s : Transfer) (remaining : Budget) (split : Nat) :
    s.bare.drainTurn remaining split = (s.drainTurn remaining split).bare := by
  have hfin : (if s.bare.pump.finishing = true then s.bare.sendFin else s.bare) =
      (if s.pump.finishing = true then s.sendFin else s).bare := by
    rw [apply_ite bare, bare_sendFin]
    rfl
  simp only [drainTurn, apply_ite bare]
  refine congrArg₂ (ite _) rfl (congrArg₂ (ite _) ?_ rfl)
  exact congrArg (fun t : Transfer => { t with pump := { t.pump with pc := .post } }) hfin

/-- The step looks at the marks of a stream, or changes them, and leaves its frames. -/
def marks : Act → Bool
  | .pump .cmd | .pump (.drain _) | .pump .writeFail | .pump .post => true
  | .link (.dropStream _) | .down (.dropStream _) => true
  | _ => false

theorem step_bare {s : Transfer} {a : Act} (ha : marks a = true) : s.bare.step a = (s.step a).map bare := by
  cases a with
  | pump a =>
    cases a with
    | cmd =>
      simp only [step, pumpStep, bare_pump, bare_cmds]
      cases s.pump.pc with
      | select =>
        cases s.cmds with
        | nil => rfl
        | cons cmd cmds => cases cmd <;> rfl
      | waitUp =>
        cases s.cmds with
        | nil => rfl
        | cons cmd cmds =>
          cases cmd with
          | linkUp sid =>
            simp only [← bare_adopt]
            rfl
          | _ => rfl
      | _ => rfl
    | drain split =>
      simp only [step, pumpStep, bare_pump]
      cases s.pump.pc with
      | drain remaining => exact congrArg some (bare_drainTurn s remaining split)
      | _ => rfl
    | writeFail =>
      simp only [step, pumpStep, bare_pump]
      cases s.pump.pc with
      | write =>
        simp only [apply_ite (Option.map _), Option.map_some, Option.map_none]
        rfl
      | _ => rfl
    | post =>
      simp only [step, pumpStep, apply_ite (Option.map _), Option.map_some, Option.map_none]
      have hfin : (if s.bare.pump.finishing = true ∧ s.bare.spool.atEof = true ∧
            s.bare.spool.headOffset - s.bare.pump.q = 0 then s.bare.sendFin else s.bare) =
          (if s.pump.finishing = true ∧ s.spool.atEof = true ∧ s.spool.headOffset - s.pump.q = 0 then s.sendFin
            else s).bare := by
        rw [apply_ite bare, bare_sendFin]
        rfl
      rw [hfin]
      generalize (if s.pump.finishing = true ∧ s.spool.atEof = true ∧ s.spool.headOffset - s.pump.q = 0 then s.sendFin
        else s) = u
      rw [apply_ite bare]
      rfl
    | _ => cases ha
  | link a =>
    cases a with
    | dropStream sid =>
      simp only [step, linkStep, apply_ite (Option.map _), Option.map_some, Option.map_none, bare_setStream]
      rfl
    | _ => cases ha
  | down a =>
    cases a with
    | dropStream sid =>
      simp only [step, downStep, apply_ite (Option.map _), Option.map_some, Option.map_none, bare_setStream]
      rfl
    | _ => cases ha
  | _ => cases ha

/-! ## What a step adds to the queues -/

/-- `t` is what a step makes of the bare state, `s'` what it makes of `s`: both steps add
    the same to the queues, and nothing to those of a cut stream. -/
structure Adds (s t s' : Transfer) : Prop where
  bare : t.bare = s'.bare
  up : ∀ sid, (s'.streams sid).up = (s.streams sid).up ++ (t.streams sid).up
  down : ∀ sid, (s'.streams sid).down = (s.streams sid).down ++ (t.streams sid).down
  cutUp : ∀ sid, (s.streams sid).cut = true → (t.streams sid).up = []
  cutDown : ∀ sid, (s.streams sid).cut = true → (t.streams sid).down = []

/-- A step that leaves the frames, and does to the bare state what it does to `s`. -/
theorem adds_of_kept {s s' : Transfer} (hup : ∀ sid, (s'.streams sid).up = (s.streams sid).up)
    (hdown : ∀ sid, (s'.streams sid).down = (s.streams sid).down) : Adds s s'.bare s' where
  bare := rfl
  up sid := by rw [hup]; exact (List.append_nil _).symm
  down sid := by rw [hdown]; exact (List.append_nil _).symm
  cutUp _ _ := rfl
  cutDown _ _ := rfl

theorem adds_of_blind {s t : Transfer} {a : Act} (ha : blind a = true) (h : s.bare.step a = some t) :
    ∃ s', s.step a = some s' ∧ Adds s t s' := by
  have hbare : s.bare.step a = _ := step_withStreams (fun sid => (s.streams sid).bare) ha
  rw [h] at hbare
  obtain ⟨s', hs', hst⟩ := Option.map_eq_some_iff.mp hbare.symm
  have hsame : s.step a = (s.step a).map (·.withStreams s.streams) := step_withStreams s.streams ha
  rw [hs', Option.map_some] at hsame
  have hstreams : s'.streams = s.streams := by
    have := congrArg Transfer.streams (Option.some.inj hsame)
    exact this
  have ht : t = s'.bare := by
    rw [← hst, Transfer.bare, hstreams]
    rfl
  rw [ht]
  exact ⟨s', hs', adds_of_kept (fun sid => by rw [hstreams]) (fun sid => by rw [hstreams])⟩

/-- Marks on a stream leave the frames of every stream. -/
theorem kept_of_update {streams : Nat → QStream} {sid : Nat} {q' : QStream} (hup : q'.up = (streams sid).up)
    (hdown : q'.down = (streams sid).down) (i : Nat) :
    (Function.update streams sid q' i).up = (streams i).up ∧ (Function.update streams sid q' i).down = (streams i).down := by
  by_cases h : i = sid
  · subst h
    rw [Function.update_self]
    exact ⟨hup, hdown⟩
  · rw [Function.update_of_ne h]
    exact ⟨rfl, rfl⟩

theorem kept_of_marks {s s' : Transfer} {a : Act} (ha : marks a = true) (h : s.step a = some s') (i : Nat) :
    (s'.streams i).up = (s.streams i).up ∧ (s'.streams i).down = (s.streams i).down := by
  cases a with
  | pump a =>
    cases pumpStep_cases h with
    | linkUp | drainFin | postFin => refine kept_of_update ?_ ?_ i <;> rfl
    | write => cases ha
    | _ => exact ⟨rfl, rfl⟩
  | link a =>
    cases linkStep_cases h with
    | dropStream => refine kept_of_update ?_ ?_ i <;> rfl
    | _ => cases ha
  | down a =>
    cases downStep_cases h with
    | dropStream => refine kept_of_update ?_ ?_ i <;> rfl
    | _ => cases ha
  | _ => cases ha

theorem adds_of_marks {s t : Transfer} {a : Act} (ha : marks a = true) (h : s.bare.step a = some t) :
    ∃ s', s.step a = some s' ∧ Adds s t s' := by
  rw [step_bare ha] at h
  obtain ⟨s', hs', rfl⟩ := Option.map_eq_some_iff.mp h
  have hkept := kept_of_marks ha hs'
  exact ⟨s', hs', adds_of_kept (fun sid => (hkept sid).1) (fun sid => (hkept sid).2)⟩

/-- One stream is written to. `p` is what its bare image becomes, `q'` what it becomes. -/
theorem adds_of_write {s t s' : Transfer} {sid : Nat} {p q' : QStream} (hrest : t.withStreams s'.streams = s')
    (hbare : q'.bare = p.bare) (ht : t.streams = Function.update s.bare.streams sid p) (hs' : s'.streams = Function.update s.streams sid q')
    (hup : q'.up = (s.streams sid).up ++ p.up) (hdown : q'.down = (s.streams sid).down ++ p.down)
    (hcut : (s.streams sid).cut = true → p.up = [] ∧ p.down = []) : Adds s t s' := by
  have heq : ∀ i, (t.streams i = p ∧ s'.streams i = q' ∧ i = sid) ∨
      (t.streams i = (s.streams i).bare ∧ s'.streams i = s.streams i) := by
    intro i
    rw [ht, hs']
    by_cases h : i = sid
    · subst h
      rw [Function.update_self, Function.update_self]
      exact .inl ⟨rfl, rfl, rfl⟩
    · rw [Function.update_of_ne h, Function.update_of_ne h]
      exact .inr ⟨rfl, rfl⟩
  refine ⟨?_, fun i => ?_, fun i => ?_, fun i hc => ?_, fun i hc => ?_⟩
  · have hstreams : (fun i => (t.streams i).bare) = fun i => (s'.streams i).bare := by
      funext i
      rcases heq i with ⟨h1, h2, _⟩ | ⟨h1, h2⟩
      · rw [h1, h2, hbare]
      · rw [h1, h2]
        rfl
    rw [← hrest]
    exact congrArg (fun f => { t with streams := f }) hstreams
  · rcases heq i with ⟨h1, h2, rfl⟩ | ⟨h1, h2⟩
    · rw [h1, h2, hup]
    · rw [h1, h2]
      exact (List.append_nil _).symm
  · rcases heq i with ⟨h1, h2, rfl⟩ | ⟨h1, h2⟩
    · rw [h1, h2, hdown]
    · rw [h1, h2]
      exact (List.append_nil _).symm
  · rcases heq i with ⟨h1, _, rfl⟩ | ⟨h1, _⟩
    · rw [h1, (hcut hc).1]
    · rw [h1]
      rfl
  · rcases heq i with ⟨h1, _, rfl⟩ | ⟨h1, _⟩
    · rw [h1, (hcut hc).2]
    · rw [h1]
      rfl

theorem writeMsg_bare (q : QStream) (m : WormholeMsg) :
    (q.writeMsg m).down = q.down ++ (q.bare.writeMsg m).down ∧ (q.writeMsg m).bare = (q.bare.writeMsg m).bare ∧
      (q.cut = true → (q.bare.writeMsg m).down = []) := by
  cases hc : q.cut with
  | true => simp [QStream.writeMsg, QStream.bare, hc]
  | false => simp [QStream.writeMsg, QStream.bare, hc]

theorem write_bare (q : QStream) (offset : Nat) (payload : List UInt8) :
    (q.write offset payload).up = q.up ++ (q.bare.write offset payload).up ∧
      (q.write offset payload).bare = (q.bare.write offset payload).bare ∧
      (q.cut = true → (q.bare.write offset payload).up = []) := by
  cases hc : q.cut with
  | true => simp [QStream.write, QStream.bare, hc]
  | false => simp [QStream.write, QStream.bare, hc]

/-- The steps that write: a chunk, the header of a fresh stream, or the receiver's failure. -/
def writes : Act → Bool
  | .pump .write | .link .restoreOpen | .down .tcpAcceptFail => true
  | _ => false

theorem adds_of_writes {s t : Transfer} {a : Act} (hl : Streams s) (ha : writes a = true) (h : s.bare.step a = some t) :
    ∃ s', s.step a = some s' ∧ Adds s t s' := by
  cases a with
  | pump a =>
    cases a with
    | write =>
      have hstep : s.bare.pumpStep .write = some t := h
      cases pumpStep_cases hstep with
      | @write remaining chunk hpc =>
        obtain ⟨hup, hbare, hcut⟩ := write_bare (s.streams s.pump.quicTx) s.pump.q chunk
        have hpc' : s.pump.pc = .write remaining chunk := hpc
        refine ⟨_, by simp only [step, pumpStep, hpc']; rfl, adds_of_write rfl hbare rfl rfl hup ?_ ?_⟩
        · exact (List.append_nil _).symm
        · exact fun hc => ⟨hcut hc, rfl⟩
    | _ => cases ha
  | link a =>
    cases a with
    | restoreOpen =>
      have hstep : s.bare.linkStep .restoreOpen = some t := h
      cases linkStep_cases hstep with
      | @restoreOpen replayFrom hr hlink =>
        have hr' : s.restore = .opening replayFrom := hr
        have hlink' : s.link = true := hlink
        have hblank : s.streams s.bare.opened = .blank := hl.unused s.opened (Nat.le_refl _)
        refine ⟨_, by simp only [step, linkStep, hr', hlink', if_true]; rfl, adds_of_write rfl rfl rfl rfl ?_ ?_ ?_⟩
        · rw [hblank]
          rfl
        · rw [hblank]
          rfl
        · intro hc
          rw [hblank] at hc
          cases hc
    | _ => cases ha
  | down a =>
    cases a with
    | tcpAcceptFail =>
      have hstep : s.bare.downStep .tcpAcceptFail = some t := h
      cases downStep_cases hstep with
      | @tcpAcceptFail sid hpc =>
        obtain ⟨hdown, hbare, hcut⟩ := writeMsg_bare (s.streams sid) (.error .tcpAccept)
        have hpc' : s.down.pc = .tcpAccept sid := hpc
        refine ⟨_, by simp only [step, downStep, hpc']; rfl, adds_of_write rfl hbare rfl rfl ?_ hdown ?_⟩
        · exact (List.append_nil _).symm
        · exact fun hc => ⟨rfl, hcut hc⟩
    | _ => cases ha
  | _ => cases ha

/-! ## What the receiver's steps do -/

variable {s s' t : Transfer}

/-- A step takes a frame off `sid`, or none, and writes feedback on it: `t` from the bare
    state with that frame, `s'` from `s`. -/
structure Gives (s t s' : Transfer) (sid : Nat) (rest : List UpFrame) : Prop where
  bare : t.bare = s'.bare
  up : (s'.streams sid).up = rest
  others : ∀ i, i ≠ sid → (s'.streams i).up = (s.streams i).up
  down : ∀ i, (s'.streams i).down = (s.streams i).down ++ (t.streams i).down
  cutDown : ∀ i, (s.streams i).cut = true → (t.streams i).down = []

theorem loadUp_self (s : Transfer) (sid : Nat) (f : UpFrame) :
    (s.loadUp sid f).streams sid = { s.streams sid with up := [f] } := Function.update_self _ _ _

/-- The two steps differ in the streams only, and there in `sid`: `p` is what it becomes in
    the bare state, `q'` what it becomes in `s`. -/
theorem gives_of {sid : Nat} {f : UpFrame} {a : DownAct} (u : Transfer) (p q' : QStream)
    (hs : s.step (.down a) = some (u.withStreams (Function.update s.streams sid q')))
    (ht : (s.bare.loadUp sid f).downStep a =
      some (u.withStreams (Function.update (s.bare.loadUp sid f).streams sid p)))
    (h : (s.bare.loadUp sid f).downStep a = some t) (hbare : q'.bare = p.bare)
    (hdown : q'.down = (s.streams sid).down ++ p.down) (hcut : (s.streams sid).cut = true → p.down = []) :
    ∃ s', s.step (.down a) = some s' ∧ Gives s t s' sid q'.up := by
  refine ⟨_, hs, ?_⟩
  obtain rfl := Option.some.inj (ht.symm.trans h)
  have heq : ∀ i, (Function.update (s.bare.loadUp sid f).streams sid p i = p ∧
        Function.update s.streams sid q' i = q' ∧ i = sid) ∨
      (Function.update (s.bare.loadUp sid f).streams sid p i = (s.streams i).bare ∧
        Function.update s.streams sid q' i = s.streams i) := by
    intro i
    by_cases h : i = sid
    · subst h
      rw [Function.update_self, Function.update_self]
      exact .inl ⟨rfl, rfl, rfl⟩
    · rw [Function.update_of_ne h, Function.update_of_ne h]
      exact .inr ⟨Function.update_of_ne h _ _, rfl⟩
  refine ⟨?_, ?_, fun i hne => ?_, fun i => ?_, fun i hc => ?_⟩
  · refine congrArg u.withStreams ?_
    funext i
    show (Function.update (s.bare.loadUp sid f).streams sid p i).bare = (Function.update s.streams sid q' i).bare
    rcases heq i with ⟨h1, h2, _⟩ | ⟨h1, h2⟩
    · rw [h1, h2, hbare]
    · rw [h1, h2]
      rfl
  · show (Function.update s.streams sid q' sid).up = q'.up
    rw [Function.update_self]
  · show (Function.update s.streams sid q' i).up = (s.streams i).up
    rw [Function.update_of_ne hne]
  · show (Function.update s.streams sid q' i).down = _ ++ (Function.update (s.bare.loadUp sid f).streams sid p i).down
    rcases heq i with ⟨h1, h2, rfl⟩ | ⟨h1, h2⟩
    · rw [h1, h2, hdown]
    · rw [h1, h2]
      exact (List.append_nil _).symm
  · show (Function.update (s.bare.loadUp sid f).streams sid p i).down = []
    rcases heq i with ⟨h1, _, rfl⟩ | ⟨h1, _⟩
    · rw [h1, hcut hc]
    · rw [h1]
      rfl

theorem accept_gives {f : UpFrame} {l : List UpFrame} (hu : (s.streams s.nextAccept).up = f :: l)
    (h : (s.bare.loadUp s.nextAccept f).downStep .accept = some t) :
    ∃ s', s.step (.down .accept) = some s' ∧ Gives s t s' s.nextAccept l := by
  have hself : (s.bare.loadUp s.nextAccept f).streams (s.bare.loadUp s.nextAccept f).nextAccept =
      { (s.streams s.nextAccept).bare with up := [f] } := loadUp_self s.bare s.nextAccept f
  have hlt : s.nextAccept < s.opened := by
    cases downStep_cases h with
    | acceptConnect hlt | acceptReconnect hlt | acceptRefused hlt => exact hlt
  have hlt' : (s.bare.loadUp s.nextAccept f).nextAccept < (s.bare.loadUp s.nextAccept f).opened := hlt
  have hdown : (s.streams s.nextAccept).down = (s.streams s.nextAccept).down ++ [] := (List.append_nil _).symm
  cases f with
  | chunk =>
    simp only [downStep, if_pos hlt', hself] at h
    cases h
  | connect =>
    let down := { s.down with pc := .spawned, streamRx := [s.nextAccept], handle := true }
    refine gives_of { s with nextAccept := s.nextAccept + 1, down := down } (s.streams s.nextAccept).bare
      { s.streams s.nextAccept with up := l } ?_ ?_ h rfl hdown (fun _ => rfl)
    · simp only [step, downStep, hu, if_pos hlt]
      rfl
    · simp only [downStep, if_pos hlt', popUp, hself]
      rfl
  | reconnect r =>
    let down := if s.down.handle then deliverReconnectStream s.down r s.nextAccept else s.down
    refine gives_of { s with nextAccept := s.nextAccept + 1, down := down } (s.streams s.nextAccept).bare
      { s.streams s.nextAccept with up := l } ?_ ?_ h rfl hdown (fun _ => rfl)
    · simp only [step, downStep, hu, if_pos hlt]
      rfl
    · simp only [downStep, if_pos hlt', popUp, hself]
      rfl

theorem chunk_gives {sid offset : Nat} {payload : List UInt8} {l : List UpFrame} {progress : Bool}
    (hpc : s.down.pc = .reading sid) (hu : (s.streams sid).up = .chunk offset payload :: l)
    (h : (s.bare.loadUp sid (.chunk offset payload)).downStep (.chunk progress) = some t) :
    ∃ s', s.step (.down (.chunk progress)) = some s' ∧ Gives s t s' sid l := by
  have hself := loadUp_self s.bare sid (.chunk offset payload)
  have hpc' : (s.bare.loadUp sid (.chunk offset payload)).down.pc = .reading sid := hpc
  by_cases hd : offset + payload.length ≤ s.down.bytesWritten
  · have hd' : offset + payload.length ≤ (s.bare.loadUp sid (.chunk offset payload)).down.bytesWritten := hd
    refine gives_of s (s.streams sid).bare { s.streams sid with up := l } ?_ ?_ h rfl (List.append_nil _).symm
      (fun _ => rfl)
    · simp only [step, downStep, hpc, hu, if_pos hd]
      rfl
    · simp only [downStep, hpc', hself, if_pos hd', popUp]
      rfl
  have hd' : ¬ offset + payload.length ≤ (s.bare.loadUp sid (.chunk offset payload)).down.bytesWritten := hd
  by_cases hg : s.down.bytesWritten < offset
  · have hg' : (s.bare.loadUp sid (.chunk offset payload)).down.bytesWritten < offset := hg
    obtain ⟨hdown, hbare, hcut⟩ := writeMsg_bare { s.streams sid with up := l } (.error .chunkGap)
    refine gives_of { s with down := { s.down with pc := .report sid (.failed .chunkGap) } }
      ((s.streams sid).bare.writeMsg (.error .chunkGap)) ({ s.streams sid with up := l }.writeMsg (.error .chunkGap))
      ?_ ?_ h hbare hdown hcut
    · simp only [step, downStep, hpc, hu, if_neg hd, if_pos hg, popUp, downFail, setStream, Function.update_self,
        Function.update_idem]
      rfl
    · simp only [downStep, hpc', hself, if_neg hd', if_pos hg', popUp, downFail, setStream, Function.update_self,
        Function.update_idem]
      rfl
  have hg' : ¬ (s.bare.loadUp sid (.chunk offset payload)).down.bytesWritten < offset := hg
  let data := trimmed s.down offset payload
  let written := s.down.bytesWritten + data.length
  let callbacks := if progress ∧ data ≠ [] then s.downCallbacks ++ [.progress written] else s.downCallbacks
  by_cases ha : ackInterval ≤ written - s.down.lastAcked
  · obtain ⟨hdown, hbare, hcut⟩ := writeMsg_bare { s.streams sid with up := l } (.ack written)
    let down := { s.down with bytesWritten := written, out := s.down.out ++ data, lastAcked := written }
    refine gives_of { s with down := down, downCallbacks := callbacks }
      ((s.streams sid).bare.writeMsg (.ack written)) ({ s.streams sid with up := l }.writeMsg (.ack written))
      ?_ ?_ h hbare hdown hcut
    · simp only [step, downStep, hpc, hu, if_neg hd, if_neg hg]
      rw [show (s.popUp sid l).writeChunk sid offset payload progress = _ from if_pos ha]
      simp only [popUp, setStream, Function.update_self, Function.update_idem]
      rfl
    · simp only [downStep, hpc', hself, if_neg hd', if_neg hg']
      rw [show ((s.bare.loadUp sid (.chunk offset payload)).popUp sid []).writeChunk sid offset payload progress = _
        from if_pos ha]
      simp only [popUp, setStream, hself, Function.update_self, Function.update_idem]
      rfl
  · let down := { s.down with bytesWritten := written, out := s.down.out ++ data }
    refine gives_of { s with down := down, downCallbacks := callbacks } (s.streams sid).bare
      { s.streams sid with up := l } ?_ ?_ h rfl (List.append_nil _).symm (fun _ => rfl)
    · simp only [step, downStep, hpc, hu, if_neg hd, if_neg hg]
      rw [show (s.popUp sid l).writeChunk sid offset payload progress = _ from if_neg ha]
      rfl
    · simp only [downStep, hpc', hself, if_neg hd', if_neg hg']
      rw [show ((s.bare.loadUp sid (.chunk offset payload)).popUp sid []).writeChunk sid offset payload progress = _
        from if_neg ha]
      simp only [popUp, setStream, hself]
      rfl

theorem writeFail_gives {sid offset n : Nat} {payload : List UInt8} {l : List UpFrame}
    (hpc : s.down.pc = .reading sid) (hu : (s.streams sid).up = .chunk offset payload :: l)
    (h : (s.bare.loadUp sid (.chunk offset payload)).downStep (.writeFail n) = some t) :
    ∃ s', s.step (.down (.writeFail n)) = some s' ∧ Gives s t s' sid (s.streams sid).up := by
  have hself := loadUp_self s.bare sid (.chunk offset payload)
  have hpc' : (s.bare.loadUp sid (.chunk offset payload)).down.pc = .reading sid := hpc
  have hcond : s.down.bytesWritten < offset + payload.length ∧ offset ≤ s.down.bytesWritten := by
    cases downStep_cases h with
    | writeFail _ hpc₁ hu₁ hw ho =>
      cases hpc'.symm.trans hpc₁
      rw [hself] at hu₁
      cases hu₁
      exact ⟨hw, ho⟩
  have hcond' : (s.bare.loadUp sid (.chunk offset payload)).down.bytesWritten < offset + payload.length ∧
      offset ≤ (s.bare.loadUp sid (.chunk offset payload)).down.bytesWritten := hcond
  obtain ⟨hdown, hbare, hcut⟩ := writeMsg_bare (s.streams sid) (.error .tcpWrite)
  let out := s.down.out ++ (trimmed s.down offset payload).take n
  refine gives_of { s with down := { s.down with pc := .report sid (.failed .tcpWrite), out := out } }
    ({ (s.streams sid).bare with up := [.chunk offset payload] }.writeMsg (.error .tcpWrite))
    ((s.streams sid).writeMsg (.error .tcpWrite)) ?_ ?_ h hbare hdown hcut
  · simp only [step, downStep, hpc, hu, if_pos hcond]
    rfl
  · simp only [downStep, hpc', hself, if_pos hcond', downFail, setStream]
    rfl

theorem adds_of_eof {sid : Nat} (hpc : s.down.pc = .reading sid) (hu : (s.streams sid).up = [])
    (h : s.bare.step (.down .eof) = some t) : ∃ s', s.step (.down .eof) = some s' ∧ Adds s t s' := by
  have hstep : s.bare.downStep .eof = some t := h
  cases downStep_cases hstep with
  | eof hpc' _ hfin hcut =>
    cases hpc.symm.trans hpc'
    have hfin' : (s.streams sid).upFin = true := hfin
    have hcut' : (s.streams sid).cut = false := hcut
    obtain ⟨hdown, hbare, hcutDown⟩ := writeMsg_bare (s.streams sid) .done
    refine ⟨_, by simp only [step, downStep, hpc, hu, hfin', hcut', and_self, if_true]; rfl, ?_⟩
    refine adds_of_write rfl ?_ rfl rfl ?_ hdown ?_
    · exact congrArg (fun q : QStream => { q with downFin := true }) hbare
    · exact (List.append_nil _).symm
    · exact fun hc => ⟨rfl, hcutDown hc⟩

end Quelay.Agent.Transfer
