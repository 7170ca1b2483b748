/-
  Quelay.Agent.Transfer.LinkUps — the pump waits for a link whenever it takes a `LinkUp`,
  as long as no `LinkDown` that it needs is dropped.

  `link_up` waits for room in the pump's channel and `link_down` does not. If the channel
  is full when the ack task's stream fails, the `LinkDown` is lost. A pump that would have
  gone on to wait for a link loses nothing by that; a pump that would not takes the next
  `LinkUp` in its running state and drops the stream (`a_full_channel_loses_a_stream`).
-/

import Quelay.Agent.Transfer.Handover

namespace Quelay.Agent.Transfer

open Quelay.Lib

/-- Each `LinkUp` finds the pump waiting for a link, if it takes the commands in order. -/
def allTaken : Bool → List RateCmd → Bool
  | _, [] => true
  | _, .linkDown :: cmds => allTaken true cmds
  | w, .linkUp _ :: cmds => w && allTaken false cmds
  | w, .finish :: cmds => allTaken w cmds

/-! ## Commands are sent -/

theorem allTaken_linkDown (w : Bool) (cmds : List RateCmd) : allTaken w (cmds ++ [.linkDown]) = allTaken w cmds := by
  induction cmds generalizing w with
  | nil => rfl
  | cons c rest ih => cases c <;> simp [allTaken, ih]

theorem allTaken_finish (w : Bool) (cmds : List RateCmd) : allTaken w (cmds ++ [.finish]) = allTaken w cmds := by
  induction cmds generalizing w with
  | nil => rfl
  | cons c rest ih => cases c <;> simp [allTaken, ih]

theorem allTaken_linkUp (w : Bool) (cmds : List RateCmd) (sid : Nat) :
    allTaken w (cmds ++ [.linkUp sid]) = (allTaken w cmds && endsDown w cmds) := by
  induction cmds generalizing w with
  | nil => cases w <;> rfl
  | cons c rest ih => cases c <;> simp [allTaken, endsDown, ih, Bool.and_assoc]

theorem endsDown_linkDown (w : Bool) (cmds : List RateCmd) : endsDown w (cmds ++ [.linkDown]) = true := by
  induction cmds generalizing w with
  | nil => rfl
  | cons c rest ih => cases c <;> exact ih _

/-! ## A pump that begins to wait -/

theorem allTaken_waiting {cmds : List RateCmd} (h : allTaken false cmds = true) : allTaken true cmds = true := by
  induction cmds with
  | nil => rfl
  | cons c rest ih =>
    cases c with
    | linkDown => exact h
    | linkUp => cases h
    | finish => exact ih h

theorem endsDown_waiting {cmds : List RateCmd} (h : endsDown false cmds = true) : endsDown true cmds = true := by
  induction cmds with
  | nil => rfl
  | cons c rest ih =>
    cases c with
    | linkDown => exact h
    | linkUp => exact h
    | finish => exact ih h

/-! ## The invariant -/

/-- The ack task will send the pump a `LinkUp` before anything else happens to its stream. -/
def relinking (ack : AckPc) : Bool := mode ack == .reconnect || !(pendingUp ack).isEmpty

structure PairedOf (pump : StreamPump) (cmds : List RateCmd) (ack : AckPc) : Prop where
  taken : pump.pc ≠ .exited → allTaken (waits pump.pc) cmds = true
  down : pump.pc ≠ .exited → relinking ack = true → endsDown (waits pump.pc) cmds = true

def Paired (s : Transfer) : Prop := PairedOf s.pump s.cmds s.ack

variable {pump : StreamPump} {cmds : List RateCmd} {ack : AckPc} {s s' : Transfer}

theorem PairedOf.movePump (hi : PairedOf pump cmds ack) {pump' : StreamPump} (hx : pump.pc ≠ .exited)
    (hw : waits pump'.pc = waits pump.pc) : PairedOf pump' cmds ack :=
  ⟨fun _ => hw ▸ hi.taken hx, fun _ hr => hw ▸ hi.down hx hr⟩

/-- The pump takes a command that it does not drop. -/
theorem PairedOf.take (hi : PairedOf pump cmds ack) {c : RateCmd} {cmds' : List RateCmd} {pump' : StreamPump}
    (hc : cmds = c :: cmds') (hx : pump.pc ≠ .exited)
    (ht : allTaken (waits pump.pc) (c :: cmds') = true → allTaken (waits pump'.pc) cmds' = true)
    (hd : endsDown (waits pump.pc) (c :: cmds') = endsDown (waits pump'.pc) cmds') : PairedOf pump' cmds' ack := by
  subst hc
  exact ⟨fun _ => ht (hi.taken hx), fun _ hr => hd ▸ hi.down hx hr⟩

theorem PairedOf.exit {pump' : StreamPump} (hx : pump'.pc = .exited) {cmds' : List RateCmd} : PairedOf pump' cmds' ack :=
  ⟨fun h => absurd hx h, fun h => absurd hx h⟩

theorem PairedOf.moveAck (hi : PairedOf pump cmds ack) {ack' : AckPc} (hr : relinking ack' = true → relinking ack = true) :
    PairedOf pump cmds ack' :=
  ⟨hi.taken, fun hx h => hi.down hx (hr h)⟩

/-- The stream error's `LinkDown` finds room, or the pump does without it. -/
def landsLinkDown (s : Transfer) : Act → Prop
  | .ack .msg => s.ackRx.head? = some .streamError →
      s.cmds.length < cmdSlots ∨ endsDown (waits s.pump.pc) s.cmds = true
  | _ => True

instance (s : Transfer) (a : Act) : Decidable (landsLinkDown s a) := by
  unfold landsLinkDown
  split <;> infer_instance

theorem init_paired (capped : Bool) : Paired (init capped) := ⟨fun _ => rfl, nofun⟩

theorem pump_paired {a : PumpAct} (hi : Paired s) (h : PumpCase s a s') : Paired s' := by
  cases h with
  | linkDown hpc hc =>
    exact hi.take hc (by rcases hpc with h | h <;> simp [h]) (fun h => h) rfl
  | linkUpIgnored hpc hc =>
    -- The running pump has no `LinkUp` first in its channel.
    have ht := hi.taken (by rw [hpc]; simp)
    rw [hc, hpc] at ht
    cases ht
  | linkUp hpc hc =>
    refine hi.take hc (by rw [hpc]; simp) (fun h => ?_) (by rw [hpc]; rfl)
    rw [hpc] at h
    exact h
  | finishDrained hpc hc | finishBacklog hpc hc | finishWaiting hpc hc =>
    refine hi.take hc (by rw [hpc]; simp) (fun h => ?_) (by simp [hpc, waits, endsDown])
    simpa [hpc, waits, allTaken] using h
  | writeFail hpc =>
    have ht := hi.taken (by rw [hpc]; simp)
    have hd := hi.down (by rw [hpc]; simp)
    rw [hpc] at ht hd
    exact ⟨fun _ => allTaken_waiting ht, fun _ hr => endsDown_waiting (hd hr)⟩
  | postFin | postDone | closed => exact .exit rfl
  | @store next hpc => exact hi.movePump (by rw [hpc]; simp) (by rw [hpc]; cases next <;> rfl)
  | discard => exact hi
  | ticket hpc | drainSpent _ hpc | drainFin _ hpc | drainNone _ hpc | drainEmpty _ hpc | drainChunk _ hpc | write hpc
  | post hpc =>
    exact hi.movePump (by rw [hpc]; simp) (by rw [hpc]; rfl)

theorem ack_paired {a : AckAct} (hi : Paired s) (hok : landsLinkDown s (.ack a)) (h : AckCase s a s') : Paired s' := by
  cases h with
  | checkEof hk | checkNone hk | finishClosed hk | pollPermit hk | pollPark hk | wake hk | space _ hk =>
    exact hi.moveAck fun h => by rw [hk]; exact h
  | @finish k hk hx =>
    have ht := hi.taken hx
    have hd := hi.down hx
    refine ⟨fun _ => ?_, fun _ hr => ?_⟩
    · show allTaken (waits s.pump.pc) (s.cmds ++ [.finish]) = true
      rwa [allTaken_finish]
    · show endsDown (waits s.pump.pc) (s.cmds ++ [.finish]) = true
      rw [endsDown_finish]
      exact hd (by rw [hk]; exact hr)
  | streamError hk hrx hx hroom =>
    refine ⟨fun _ => ?_, fun _ _ => endsDown_linkDown ..⟩
    show allTaken (waits s.pump.pc) (s.cmds ++ [.linkDown]) = true
    rw [allTaken_linkDown]
    exact hi.taken hx
  | streamErrorDropped hk hrx hfull =>
    refine ⟨hi.taken, fun hx _ => ?_⟩
    have hfull := hfull.resolve_left hx
    refine (hok (by rw [hrx]; rfl)).resolve_left fun hroom => ?_
    exact absurd hroom (Nat.not_lt.mpr hfull)
  | @stream sid rest hk => exact hi.moveAck fun _ => by rw [relinking, (selecting_mode hk).2]; rfl
  | @linkUp sid hk hx =>
    refine ⟨fun _ => ?_, fun _ hr => ?_⟩
    · show allTaken (waits s.pump.pc) (s.cmds ++ [.linkUp sid]) = true
      rw [allTaken_linkUp, hi.taken hx, hi.down hx (by rw [hk]; rfl)]
      rfl
    · cases hr
  | ackNew | ackOld | gone | done | error | goneFail | streamReaderGone | noStream | linkUpFail =>
    exact hi.moveAck fun h => by cases h
  | _ => exact hi

theorem step_paired {a : Act} (hi : Paired s) (hok : landsLinkDown s a) (h : s.step a = some s') : Paired s' := by
  cases a with
  | reader a => cases readerStep_cases h <;> exact hi
  | ticket a => cases ticketStep_cases h <;> exact hi
  | pump a => exact pump_paired hi (pumpStep_cases h)
  | ack a => exact ack_paired hi hok (ackStep_cases h)
  | link a =>
    cases linkStep_cases h with
    | hookLinkDown _ _ _ hx =>
      refine ⟨fun _ => ?_, fun _ _ => endsDown_linkDown ..⟩
      show allTaken (waits s.pump.pc) (s.cmds ++ [.linkDown]) = true
      rw [allTaken_linkDown]
      exact hi.taken hx
    | _ => exact hi
  | down a => cases downStep_cases h <;> exact hi

/-- A running pump has no `LinkUp` first in its channel. -/
theorem Paired.takesLinkUp (hi : Paired s) (a : Act) : takesLinkUp s a := by
  unfold Transfer.takesLinkUp
  split
  · intro hpc sid _ hhead
    have ht := hi.taken (by rw [hpc]; simp)
    rw [hpc] at ht
    cases hc : s.cmds with
    | nil => rw [hc] at hhead; cases hhead
    | cons c rest =>
      rw [hc, List.head?_cons, Option.some.injEq] at hhead
      rw [hc, hhead] at ht
      cases ht
  · trivial

/-! ## Every run -/

/-- The write half is on its way from the ack task to the pump. -/
def handing (s : Transfer) (sid : Nat) : Prop := s.ack = .linkUp sid ∨ .linkUp sid ∈ s.cmds

/-- The pump is on the stream that the ack task has resumed on, or is being given it. -/
theorem HandedOn.on_current (hi : HandedOn s) (hx : s.pump.pc ≠ .exited) :
    s.pump.quicTx = s.current ∨ s.handing s.current := by
  rcases List.mem_cons.mp (List.mem_of_getLast? (hi hx)) with htx | hmem
  · exact .inl htx.symm
  · right
    rcases List.mem_append.mp hmem with hmem | hmem
    · obtain ⟨c, hc, hsome⟩ := List.mem_filterMap.mp hmem
      cases c with
      | linkUp sid =>
        cases hsome
        exact .inr hc
      | _ => cases hsome
    · cases hk : s.ack with
      | linkUp sid =>
        rw [hk] at hmem
        rw [List.mem_singleton.mp hmem]
        exact .inl hk
      | _ => rw [hk] at hmem; cases hmem

/-- Only a pump that takes it, or ends, takes a write half out of the channel. -/
theorem PumpCase.handing {a : PumpAct} {sid : Nat} (hi : Paired s) (h : PumpCase s a s') (hs : s.handing sid)
    (hx : s'.pump.pc ≠ .exited) :
    s'.handing sid ∨ (s'.pump.quicTx = sid ∧ s'.pump.q = s.spool.bytesAcked ∧
      (s'.streams sid).adoptedAt = some s.spool.bytesAcked) := by
  -- A command that is not this `LinkUp` leaves it in the channel.
  have hrest : ∀ {c : RateCmd} {cmds : List RateCmd}, s.cmds = c :: cmds → c ≠ .linkUp sid →
      s.ack = .linkUp sid ∨ .linkUp sid ∈ cmds := by
    intro c cmds hc hne
    refine hs.imp_right fun hmem => ?_
    rw [hc] at hmem
    exact (List.mem_cons.mp hmem).resolve_left (Ne.symm hne)
  cases h with
  | linkDown _ hc | finishDrained _ hc | finishBacklog _ hc | finishWaiting _ hc => exact .inl (hrest hc (by simp))
  | linkUpIgnored hpc hc =>
    have ht := hi.taken (by rw [hpc]; simp)
    rw [hc, hpc] at ht
    cases ht
  | @linkUp sid' cmds hpc hc =>
    by_cases he : sid' = sid
    · subst he
      exact .inr ⟨rfl, rfl, by simp⟩
    · exact .inl (hrest hc (by simp [he]))
  | postFin | postDone | closed => exact absurd rfl hx
  | _ => exact .inl hs

theorem AckCase.handing {a : AckAct} {sid : Nat} (h : AckCase s a s') (hs : s.handing sid) (hx : s.pump.pc ≠ .exited) :
    s'.handing sid := by
  have hack : ∀ {pc : AckPc}, s.ack = pc → pc ≠ .linkUp sid → .linkUp sid ∈ s.cmds := by
    intro pc hk hne
    exact hs.resolve_left (hk ▸ hne)
  have hsel : ∀ {k : Sel}, s.ack.selecting = some k → .linkUp sid ∈ s.cmds := by
    intro k hk
    refine hs.resolve_left fun he => ?_
    rw [he] at hk
    cases hk
  cases h with
  | checkEof hk | checkNone hk | finishClosed hk | pollPermit hk | pollPark hk | wake hk | space _ hk | goneFail hk =>
    exact .inr (hack hk (by simp))
  | finish hk => exact .inr (List.mem_append_left _ (hack hk (by simp)))
  | ackNew hk | ackOld hk | streamErrorDropped hk | gone hk | done hk | error hk | streamReaderGone hk | noStream hk
  | stream hk =>
    exact .inr (hsel hk)
  | streamError hk => exact .inr (List.mem_append_left _ (hsel hk))
  | linkUpFail _ hexit => exact absurd hexit hx
  | @linkUp sid' hk =>
    refine .inr (List.mem_append.mpr ?_)
    rcases hs with hs | hs
    · rw [hk] at hs
      exact .inr (List.mem_singleton.mpr (by simpa using hs.symm))
    · exact .inl hs
  | _ => exact hs

theorem step_handing {a : Act} {sid : Nat} (hi : Paired s) (h : s.step a = some s') (hs : s.handing sid)
    (hx : s'.pump.pc ≠ .exited) :
    s'.handing sid ∨ (s'.pump.quicTx = sid ∧ s'.pump.q = s.spool.bytesAcked ∧
      (s'.streams sid).adoptedAt = some s.spool.bytesAcked) := by
  cases a with
  | reader a => exact .inl (by cases readerStep_cases h <;> exact hs)
  | ticket a => exact .inl (by cases ticketStep_cases h <;> exact hs)
  | pump a => exact (pumpStep_cases h).handing hi hs hx
  | ack a =>
    have hc := ackStep_cases h
    have hpump : s'.pump = s.pump := by cases hc <;> rfl
    exact .inl (hc.handing hs (hpump ▸ hx))
  | link a =>
    cases linkStep_cases h with
    | hookLinkDown => exact .inl (hs.imp_right fun hmem => List.mem_append_left _ hmem)
    | _ => exact .inl hs
  | down a => exact .inl (by cases downStep_cases h <;> exact hs)

/-- The pump takes a `LinkUp` only in `wait_for_link_up`; and the write half of a stream
    that the ack task resumes on stays on its way to a live pump until it is installed. -/
theorem no_link_up_ignored {capped : Bool} (h : Reach step landsLinkDown (init capped) s) :
    (∀ sid s', s.cmds.head? = some (.linkUp sid) → s.step (.pump .cmd) = some s' → s.pump.pc = .waitUp) ∧
    ∀ a s' sid, s.step a = some s' → s.handing sid → s'.pump.pc ≠ .exited →
      s'.handing sid ∨ (s'.pump.quicTx = sid ∧ s'.pump.q = s.spool.bytesAcked ∧
        (s'.streams sid).adoptedAt = some s.spool.bytesAcked) := by
  have hi : Paired s := h.invariant (init_paired capped) fun hi hok hs => step_paired hi hok hs
  refine ⟨?_, fun a s' sid hs => step_handing hi hs⟩
  intro sid s' hhead hs
  have hc : PumpCase s .cmd s' := pumpStep_cases hs
  cases hc with
  | linkUp hpc => exact hpc
  | linkUpIgnored hpc hc =>
    have ht := hi.taken (by rw [hpc]; simp)
    rw [hc, hpc] at ht
    cases ht
  | linkDown _ hc | finishDrained _ hc | finishBacklog _ hc | finishWaiting _ hc =>
    rw [hc] at hhead
    cases hhead

/-- The link fails, and the ack task sees it. -/
def failLink : List Act :=
  [.link (.outage 0 0), .ack .readEnd, .ack .check, .ack .msg, .ack .check]

/-- The next session brings the uplink its stream, and the ack task has it for the pump. -/
def resumeOn : List Act :=
  [.link .reconnect, .link .restoreRead, .link .restoreOpen, .link .restoreDeliver, .ack .stream]

/-- An outage: the pump waits, takes the `LinkUp`, and is on the new stream. -/
theorem link_up_taken_waiting :
    ∃ s, Reach step landsLinkDown (init true) s ∧ s.cmds = [.linkUp 1] ∧ s.pump.pc = .waitUp ∧
      ∀ s', s.step (.pump .cmd) = some s' → s'.handing 1 ∨ s'.pump.quicTx = 1 := by
  obtain ⟨s, hr, hs⟩ := Reach.exists_run step landsLinkDown (init true)
    [failLink, resumeOn, [.ack .linkUp, .pump .cmd, .pump .store]].flatten
    (fun s => s.cmds = [.linkUp 1] ∧ s.pump.pc = .waitUp) (by decide +kernel)
  obtain ⟨hcmds, hpc⟩ := of_decide_eq_true hs
  obtain ⟨_, htaken⟩ := no_link_up_ignored hr
  refine ⟨s, hr, hcmds, hpc, fun s' hs' => ?_⟩
  have hlive : s'.pump.pc ≠ .exited := by
    have hc : PumpCase s .cmd s' := pumpStep_cases hs'
    cases hc with
    | linkUp => simp
    | linkUpIgnored hsel => rw [hpc] at hsel; cases hsel
    | linkDown _ hc | finishDrained _ hc | finishBacklog _ hc | finishWaiting _ hc => rw [hcmds] at hc; cases hc
  exact (htaken _ s' 1 hs' (.inr (by rw [hcmds]; exact List.mem_cons_self)) hlive).imp_right fun h => h.1

/-- Four outages before the pump looks at its channel fill it, and the `LinkDown` of a
    fifth is dropped. Once the pump has taken the eight commands it runs on the fourth of
    the new streams, and it drops the fifth. -/
theorem a_full_channel_loses_a_stream :
    ∃ s s', Reach step anyStep (init true) s ∧ s.cmds = [.linkUp 5] ∧ s.current = 5 ∧ s.pump.pc = .select ∧
      s.step (.pump .cmd) = some s' ∧ s'.pump.pc = .select ∧ s'.pump.quicTx = 4 ∧ (s'.streams 5).adoptedAt = none ∧
      s'.cmds = [] := by
  obtain ⟨s, hr, hs⟩ := Reach.exists_run step anyStep (init true)
    [(List.replicate 4 (failLink ++ resumeOn ++ [.ack .linkUp])).flatten, failLink, resumeOn,
      (List.replicate 8 [.pump .cmd, .pump .store]).flatten, [.ack .linkUp]].flatten
    (fun s => s.cmds = [.linkUp 5] ∧ s.current = 5 ∧ s.pump.pc = .select ∧ s.pump.quicTx = 4 ∧
      (s.streams 5).adoptedAt = none) (by decide +kernel)
  obtain ⟨hcmds, hcur, hpc, htx, hadopt⟩ := of_decide_eq_true hs
  refine ⟨s, { s with cmds := [] }, hr, hcmds, hcur, hpc, ?_, hpc, htx, hadopt, rfl⟩
  simp only [step, pumpStep, hpc, hcmds]

end Quelay.Agent.Transfer
