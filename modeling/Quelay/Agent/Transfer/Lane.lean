/-
  Quelay.Agent.Transfer.Lane — the order of the streams on their way to the pump, and
  what the ack task's inbox can hold.

  A fresh stream goes from `restore_active` through the ack task's `stream_rx` and the
  pump's command channel to the pump. Each place is first in, first out, so the streams
  in it are in the order in which they were opened; those the ack task has resumed on
  are at most `current`, the ones still to come are above it (`Lane`).

  The reader sub-task ends its turn on a stream with the one message that is not an
  ack, and gets the next stream only after the ack task has taken that message: while
  the ack task waits for a stream its inbox is empty (`Inbox`).
-/

import Quelay.Agent.Transfer.Cases

namespace Quelay.Agent.Transfer

open Quelay.Lib

/-! ## Streams on their way -/

def linkUps (cmds : List RateCmd) : List Nat :=
  cmds.filterMap fun
    | .linkUp sid => some sid
    | _ => none

@[simp] theorem linkUps_nil : linkUps [] = [] := rfl
@[simp] theorem linkUps_linkDown (cmds : List RateCmd) : linkUps (.linkDown :: cmds) = linkUps cmds := rfl
@[simp] theorem linkUps_finish (cmds : List RateCmd) : linkUps (.finish :: cmds) = linkUps cmds := rfl
@[simp] theorem linkUps_linkUp (sid : Nat) (cmds : List RateCmd) :
    linkUps (.linkUp sid :: cmds) = sid :: linkUps cmds := rfl
@[simp] theorem linkUps_append (cmds cmds' : List RateCmd) : linkUps (cmds ++ cmds') = linkUps cmds ++ linkUps cmds' :=
  List.filterMap_append ..

def pendingUp : AckPc → List Nat
  | .linkUp sid => [sid]
  | _ => []

def delivering : RestorePc → List Nat
  | .deliver sid => [sid]
  | _ => []

/-- `resumed`: the pump's stream, then those on the way to it. `coming`: those the ack
    task has still to take. -/
structure LaneOf (resumed coming : List Nat) (current opened : Nat) : Prop where
  resumedOrder : resumed.Pairwise (· < ·)
  resumedLe : ∀ sid ∈ resumed, sid ≤ current
  comingOrder : coming.Pairwise (· < ·)
  comingGt : ∀ sid ∈ coming, current < sid
  comingLt : ∀ sid ∈ coming, sid < opened
  currentLt : current < opened

def Lane (s : Transfer) : Prop :=
  LaneOf (s.pump.quicTx :: (linkUps s.cmds ++ pendingUp s.ack)) (s.streamRx ++ delivering s.restore) s.current s.opened

variable {resumed coming : List Nat} {current opened : Nat}

theorem LaneOf.sublist (h : LaneOf resumed coming current opened) {resumed' coming' : List Nat}
    (hr : resumed'.Sublist resumed) (hc : coming'.Sublist coming) : LaneOf resumed' coming' current opened :=
  ⟨h.resumedOrder.sublist hr, fun sid hs => h.resumedLe sid (hr.subset hs), h.comingOrder.sublist hc,
    fun sid hs => h.comingGt sid (hc.subset hs), fun sid hs => h.comingLt sid (hc.subset hs), h.currentLt⟩

/-- The ack task takes the next stream. -/
theorem LaneOf.take {sid : Nat} (h : LaneOf resumed (sid :: coming) current opened) :
    LaneOf (resumed ++ [sid]) coming sid opened := by
  have hgt := h.comingGt sid List.mem_cons_self
  have ho := List.pairwise_cons.mp h.comingOrder
  refine ⟨?_, ?_, ho.2, ho.1, fun x hx => h.comingLt x (List.mem_cons_of_mem _ hx),
    h.comingLt sid List.mem_cons_self⟩
  · refine List.pairwise_append.mpr ⟨h.resumedOrder, by simp, fun a ha b hb => ?_⟩
    have := h.resumedLe a ha
    rw [List.mem_singleton.mp hb]
    omega
  · intro x hx
    rcases List.mem_append.mp hx with hx | hx
    · have := h.resumedLe x hx
      omega
    · exact Nat.le_of_eq (List.mem_singleton.mp hx)

/-- A stream is opened. -/
theorem LaneOf.open (h : LaneOf resumed coming current opened) :
    LaneOf resumed (coming ++ [opened]) current (opened + 1) := by
  have hcur := h.currentLt
  refine ⟨h.resumedOrder, h.resumedLe, ?_, ?_, ?_, by omega⟩
  · refine List.pairwise_append.mpr ⟨h.comingOrder, by simp, fun a ha b hb => ?_⟩
    rw [List.mem_singleton.mp hb]
    exact h.comingLt a ha
  · intro x hx
    rcases List.mem_append.mp hx with hx | hx
    · exact h.comingGt x hx
    · rw [List.mem_singleton.mp hx]
      exact hcur
  · intro x hx
    rcases List.mem_append.mp hx with hx | hx
    · have := h.comingLt x hx
      omega
    · rw [List.mem_singleton.mp hx]
      omega

theorem pendingUp_selecting {pc : AckPc} {k : Sel} (h : pc.selecting = some k) : pendingUp pc = [] := by
  cases pc <;> simp_all [AckPc.selecting, pendingUp]

theorem init_lane (capped : Bool) : Lane (init capped) := by
  refine ⟨by simp [init, pendingUp], by simp [init, pendingUp], ?_, ?_, ?_, by simp [init]⟩ <;>
    simp [init, delivering]

theorem reader_lane {s s' : Transfer} {a : ReaderAct} (hi : Lane s) (h : ReaderCase s a s') : Lane s' := by
  cases h <;> exact hi

theorem ticket_lane {s s' : Transfer} {a : TicketAct} (hi : Lane s) (h : TicketCase s a s') : Lane s' := by
  cases h <;> exact hi

theorem pump_lane {s s' : Transfer} {a : PumpAct} (hi : Lane s) (h : PumpCase s a s') : Lane s' := by
  cases h with
  | linkDown _ hc | finishDrained _ hc | finishBacklog _ hc | finishWaiting _ hc =>
    simpa only [Lane, hc, linkUps_linkDown, linkUps_finish] using hi
  | linkUpIgnored _ hc =>
    simp only [Lane, hc, linkUps_linkUp] at hi
    exact hi.sublist ((List.sublist_cons_self ..).cons_cons _) (List.Sublist.refl _)
  | linkUp _ hc =>
    simp only [Lane, hc, linkUps_linkUp] at hi
    exact hi.sublist (List.sublist_cons_self ..) (List.Sublist.refl _)
  | postFin | postDone | closed =>
    exact LaneOf.sublist hi ((List.sublist_append_right ..).cons_cons _) (List.Sublist.refl _)
  | _ => exact hi

theorem ack_lane {s s' : Transfer} {a : AckAct} (hi : Lane s) (h : AckCase s a s') : Lane s' := by
  cases h with
  | checkEof hk | checkNone hk | finishClosed hk | pollPermit hk | pollPark hk | wake hk | space _ hk =>
    simpa only [Lane, hk, pendingUp] using hi
  | finish hk =>
    simpa only [Lane, hk, pendingUp, linkUps_append, linkUps_finish, linkUps_nil, List.append_nil] using hi
  | ackNew hk | ackOld hk | streamErrorDropped hk | gone hk =>
    simp only [Lane, pendingUp_selecting hk] at hi
    exact hi
  | streamError hk =>
    simp only [Lane, pendingUp_selecting hk] at hi
    simpa only [Lane, pendingUp, linkUps_append, linkUps_linkDown, linkUps_nil, List.append_nil] using hi
  | done | error | goneFail | streamReaderGone | noStream | linkUpFail =>
    refine hi.sublist ?_ (List.sublist_append_right ..)
    simp only [pendingUp, List.append_nil]
    exact (List.sublist_append_left ..).cons_cons _
  | stream hk hrx =>
    simp only [Lane, hrx, pendingUp_selecting hk, List.append_nil, List.cons_append] at hi
    exact hi.take
  | linkUp hk =>
    simpa only [Lane, hk, pendingUp, linkUps_append, linkUps_linkUp, linkUps_nil, List.append_nil] using hi
  | _ => exact hi

theorem link_lane {s s' : Transfer} {a : LinkAct} (hi : Lane s) (h : LinkCase s a s') : Lane s' := by
  cases h with
  | reconnect _ hr | restoreRead hr | restoreSkip hr | restoreFail hr =>
    simpa only [Lane, hr, delivering] using hi
  | restoreOpen hr =>
    simp only [Lane, hr, delivering, List.append_nil] at hi
    exact hi.open
  | restoreDeliver hr =>
    simpa only [Lane, hr, delivering, List.append_nil] using hi
  | restorePrune =>
    exact hi.sublist (List.Sublist.refl _) (by simp [delivering])
  | hookLinkDown =>
    simpa only [Lane, linkUps_append, linkUps_linkDown, linkUps_nil, List.append_nil] using hi
  | _ => exact hi

theorem down_lane {s s' : Transfer} {a : DownAct} (hi : Lane s) (h : DownCase s a s') : Lane s' := by
  cases h <;> exact hi

theorem step_lane {s s' : Transfer} {a : Act} (hi : Lane s) (h : s.step a = some s') : Lane s' := by
  cases a with
  | reader a => exact reader_lane hi (readerStep_cases h)
  | ticket a => exact ticket_lane hi (ticketStep_cases h)
  | pump a => exact pump_lane hi (pumpStep_cases h)
  | ack a => exact ack_lane hi (ackStep_cases h)
  | link a => exact link_lane hi (linkStep_cases h)
  | down a => exact down_lane hi (downStep_cases h)

/-! ## The ack task's inbox -/

def AckMsg.isAck : AckMsg → Bool
  | .ack _ => true
  | _ => false

/-- The select the ack task is in or on its way to. -/
def mode : AckPc → Sel
  | .check k | .finish k | .poll k | .parked k => k
  | _ => .main

/-- A turn of the reader sub-task: acks, and one last message. -/
def EndsWith (ackRx : List AckMsg) (last : AckMsg → Prop) : Prop :=
  ∃ acks m, ackRx = acks ++ [m] ∧ (∀ x ∈ acks, AckMsg.isAck x = true) ∧ last m

/-- What the inbox holds, by where the reader sub-task is. -/
def InboxOf (ack : AckPc) (reader : AckReaderPc) (ackRx : List AckMsg) (current : Nat) : Prop :=
  if ack = .exited then ackRx = []
  else match reader with
    | .reading sid => sid = current ∧ mode ack = .main ∧ ∀ x ∈ ackRx, AckMsg.isAck x = true
    | .waiting => (mode ack = .reconnect ∧ ackRx = []) ∨ (mode ack = .main ∧ EndsWith ackRx (· = .streamError))
    | .exited => mode ack = .main ∧ EndsWith ackRx (fun m => m = .done ∨ ∃ f, m = .error f)

def Inbox (s : Transfer) : Prop := InboxOf s.ack s.ackReader s.ackRx s.current

theorem InboxOf.congr {ack ack' : AckPc} {reader : AckReaderPc} {ackRx : List AckMsg} {current : Nat}
    (h : InboxOf ack reader ackRx current) (hx : ack ≠ .exited) (hx' : ack' ≠ .exited) (hm : mode ack' = mode ack) :
    InboxOf ack' reader ackRx current := by
  unfold InboxOf at h ⊢
  rw [if_neg hx] at h
  rw [if_neg hx', hm]
  exact h

theorem selecting_mode {pc : AckPc} {k : Sel} (h : pc.selecting = some k) : pc ≠ .exited ∧ mode pc = k := by
  cases pc <;> simp_all [AckPc.selecting, mode]

/-- A turn's first message: an ack, with the rest of the turn behind it, or the last. -/
theorem EndsWith.tail {m : AckMsg} {rest : List AckMsg} {last : AckMsg → Prop} (h : EndsWith (m :: rest) last) :
    (AckMsg.isAck m = true ∧ EndsWith rest last) ∨ (last m ∧ rest = []) := by
  obtain ⟨acks, x, he, ha, hl⟩ := h
  cases acks with
  | nil =>
    simp only [List.nil_append, List.cons.injEq] at he
    exact .inr ⟨he.1 ▸ hl, he.2⟩
  | cons y acks =>
    simp only [List.cons_append, List.cons.injEq] at he
    obtain ⟨rfl, rfl⟩ := he
    exact .inl ⟨ha _ List.mem_cons_self, acks, x, rfl, fun z hz => ha z (List.mem_cons_of_mem _ hz), hl⟩

/-- The ack task takes a message in its main select. -/
theorem InboxOf.pop {ack : AckPc} {reader : AckReaderPc} {m : AckMsg} {rest : List AckMsg} {current : Nat}
    (h : InboxOf ack reader (m :: rest) current) (hsel : ack.selecting = some .main) :
    (AckMsg.isAck m = true → ∀ ack', ack' ≠ .exited → mode ack' = .main → InboxOf ack' reader rest current) ∧
      (m = .streamError → reader = .waiting ∧ rest = []) := by
  obtain ⟨hx, hm⟩ := selecting_mode hsel
  unfold InboxOf at h
  rw [if_neg hx, hm] at h
  cases reader with
  | reading sid =>
    refine ⟨fun _ ack' hx' hm' => ?_, ?_⟩
    · unfold InboxOf
      rw [if_neg hx']
      exact ⟨h.1, hm', fun x hx => h.2.2 x (List.mem_cons_of_mem _ hx)⟩
    · rintro rfl
      exact absurd (h.2.2 _ List.mem_cons_self) (by simp [AckMsg.isAck])
  | waiting =>
    rcases h with h | ⟨_, he⟩
    · exact absurd h.1 (by simp)
    · refine ⟨fun hack ack' hx' hm' => ?_, ?_⟩
      · unfold InboxOf
        rw [if_neg hx']
        rcases he.tail with ⟨_, ht⟩ | ⟨rfl, _⟩
        · exact .inr ⟨hm', ht⟩
        · simp [AckMsg.isAck] at hack
      · rintro rfl
        rcases he.tail with ⟨ha, _⟩ | ⟨_, rfl⟩
        · simp [AckMsg.isAck] at ha
        · exact ⟨rfl, rfl⟩
  | exited =>
    refine ⟨fun hack ack' hx' hm' => ?_, ?_⟩
    · unfold InboxOf
      rw [if_neg hx']
      rcases h.2.tail with ⟨_, ht⟩ | ⟨hl, _⟩
      · exact ⟨hm', ht⟩
      · rcases hl with rfl | ⟨f, rfl⟩ <;> simp [AckMsg.isAck] at hack
    · rintro rfl
      rcases h.2.tail with ⟨ha, _⟩ | ⟨hl, _⟩
      · simp [AckMsg.isAck] at ha
      · rcases hl with hl | ⟨f, hl⟩ <;> cases hl

theorem init_inbox (capped : Bool) : Inbox (init capped) := by
  simp [Inbox, InboxOf, init, mode]

theorem reader_inbox {s s' : Transfer} {a : ReaderAct} (hi : Inbox s) (h : ReaderCase s a s') : Inbox s' := by
  cases h <;> exact hi

theorem ticket_inbox {s s' : Transfer} {a : TicketAct} (hi : Inbox s) (h : TicketCase s a s') : Inbox s' := by
  cases h <;> exact hi

theorem pump_inbox {s s' : Transfer} {a : PumpAct} (hi : Inbox s) (h : PumpCase s a s') : Inbox s' := by
  cases h <;> exact hi

theorem link_inbox {s s' : Transfer} {a : LinkAct} (hi : Inbox s) (h : LinkCase s a s') : Inbox s' := by
  cases h <;> exact hi

theorem down_inbox {s s' : Transfer} {a : DownAct} (hi : Inbox s) (h : DownCase s a s') : Inbox s' := by
  cases h <;> exact hi

theorem ack_inbox {s s' : Transfer} {a : AckAct} (hi : Inbox s) (h : AckCase s a s') : Inbox s' := by
  cases h with
  | checkEof hk | checkNone hk | finishClosed hk | finish hk | pollPermit hk | pollPark hk | wake hk | space _ hk
  | linkUp hk =>
    exact hi.congr (by simp [hk]) (by simp) (by simp [hk, mode])
  | ackNew hk hrx | ackOld hk hrx =>
    rw [Inbox, hrx] at hi
    exact (hi.pop hk).1 rfl _ (by simp) rfl
  | streamError hk hrx | streamErrorDropped hk hrx =>
    rw [Inbox, hrx] at hi
    obtain ⟨hw, hr⟩ := (hi.pop hk).2 rfl
    simp [Inbox, InboxOf, hw, hr, mode]
  | gone hk hrx hr =>
    obtain ⟨hx, hm⟩ := selecting_mode hk
    simp [Inbox, InboxOf, hx, hr, hrx, EndsWith] at hi
  | stream hk hrx hw =>
    obtain ⟨hx, hm⟩ := selecting_mode hk
    have : s.ackRx = [] := by simpa [Inbox, InboxOf, hx, hw, hm] using hi
    simp [Inbox, InboxOf, this, mode]
  | readMsgClosed hr hd hx | readEndClosed hr hd hx =>
    simpa [Inbox, InboxOf, hx] using hi
  | readerClosed hr hx => simpa [Inbox, InboxOf, hx] using hi
  | readAck hr hd hx =>
    simp only [Inbox, InboxOf, if_neg hx, hr] at hi ⊢
    refine ⟨hi.1, hi.2.1, fun x hm => ?_⟩
    rcases List.mem_append.mp hm with hm | hm
    · exact hi.2.2 x hm
    · rw [List.mem_singleton.mp hm]; rfl
  | @readLast sid m rest hr hd hn hx =>
    simp only [Inbox, InboxOf, if_neg hx, hr] at hi ⊢
    refine ⟨hi.2.1, s.ackRx, m.toAckMsg, rfl, hi.2.2, ?_⟩
    cases m with
    | ack n => exact absurd rfl (hn n)
    | done => exact .inl rfl
    | error f => exact .inr ⟨f, rfl⟩
  | readEnd hr hd hx =>
    simp only [Inbox, InboxOf, if_neg hx, hr] at hi ⊢
    exact .inr ⟨hi.2.1, s.ackRx, _, rfl, hi.2.2, rfl⟩
  | done | error | goneFail | streamReaderGone | noStream | linkUpFail =>
    simp [Inbox, InboxOf]

theorem step_inbox {s s' : Transfer} {a : Act} (hi : Inbox s) (h : s.step a = some s') : Inbox s' := by
  cases a with
  | reader a => exact reader_inbox hi (readerStep_cases h)
  | ticket a => exact ticket_inbox hi (ticketStep_cases h)
  | pump a => exact pump_inbox hi (pumpStep_cases h)
  | ack a => exact ack_inbox hi (ackStep_cases h)
  | link a => exact link_inbox hi (linkStep_cases h)
  | down a => exact down_inbox hi (downStep_cases h)

end Quelay.Agent.Transfer
