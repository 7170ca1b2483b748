/-
  Quelay.Agent.Transfer.Pairing — after a reconnection the uplink and its downlink have the
  two ends of one stream.

  The sender takes a stream of an uplink that it knows for a reconnection; the receiver
  takes it for one if it has read the uplink's first header. Where the first session fails
  before that, the receiver drops every later stream of the uplink (`unknown_downlink`), and
  the ack task takes each of these for another outage. The same happens when the downlink
  has ended and its last message is lost with the session.

  In runs without these (`pairsUp`), when the link is up, `restore_active` and `accept_loop`
  are through and no header is on its way, the newest stream is live, the uplink has it, and
  the downlink has its other end; or the downlink has ended, and its last message is on its
  way to the ack task or has been reported.
-/

import Quelay.Agent.Transfer.Outcome
import Quelay.Agent.Transfer.LinkUps

namespace Quelay.Agent.Transfer

open Quelay.Lib

variable {s s' : Transfer}

/-! ## What the runs leave out -/

/-- The receiver reads the uplink's first header. A downlink that fails has a live stream to
    say so on, and an outage leaves its last message. The pump is there when the ack task
    has a stream for it. The channels of the pump and of the downlink have room,
    `restore_active` can open its stream while the link is up, and `active_downlinks` loses
    only downlinks that have ended. -/
def pairsUp (s : Transfer) : Act → Prop
  | .link (.outage _ down) => s.down.pc.ended = true → (s.streams (s.opened - 1)).down.length ≤ down
  | .link .restoreFail => s.link = false
  | .ack .msg => landsLinkDown s (.ack .msg)
  | .ack .linkUp => s.pump.pc ≠ .exited
  | .down .accept => s.down.pc = .absent ∨ s.down.pc.ended = true ∨ s.down.streamRx.length < downStreamSlots
  | .down .acceptSkip => 0 < s.nextAccept
  | .down .tcpAcceptFail | .down (.writeFail _) =>
    ∀ sid < s.opened, s.down.pc = .tcpAccept sid ∨ s.down.pc = .reading sid → (s.streams sid).cut = false
  | .down .dropHandle => s.down.pc.ended = true
  | _ => True

instance (s : Transfer) (a : Act) : Decidable (pairsUp s a) := by
  induction a using Act.casesOn with
  | ack a => induction a using AckAct.casesOn <;> dsimp only [pairsUp] <;> infer_instance
  | link a => induction a using LinkAct.casesOn <;> dsimp only [pairsUp] <;> infer_instance
  | down a => induction a using DownAct.casesOn <;> dsimp only [pairsUp] <;> infer_instance
  | _ => exact instDecidableTrue

theorem landsLinkDown_of_pairsUp {a : Act} (h : pairsUp s a) : landsLinkDown s a := by
  unfold landsLinkDown
  split
  · exact h
  · trivial

/-! ## The newest stream at the sender -/

/-- Only an outage cuts a stream. -/
theorem step_uncut {a : Act} {i : Nat} (hc : (s.streams i).cut = false) (hlink : s'.link = true)
    (h : s.step a = some s') : (s'.streams i).cut = false := by
  cases a with
  | reader a => cases readerStep_cases h <;> exact hc
  | ticket a => cases ticketStep_cases h <;> exact hc
  | pump a =>
    cases pumpStep_cases h with
    | linkUp | drainFin | write | postFin => exact of_update (P := (·.cut = false)) hc fun h => h
    | _ => exact hc
  | ack a =>
    cases ackStep_cases h with
    | readMsgClosed | readAck | readLast => exact of_update (P := (·.cut = false)) hc fun h => h
    | _ => exact hc
  | link a =>
    cases linkStep_cases h with
    | outage => cases hlink
    | restoreOpen => exact of_update (P := (·.cut = false)) hc fun _ => rfl
    | dropStream => exact of_update (P := (·.cut = false)) hc fun h => h
    | _ => exact hc
  | down a =>
    cases downStep_cases h with
    | acceptConnect | acceptReconnect | acceptRefused | tcpAcceptFail | duplicate | gap | write | writeAck | writeFail
    | eof | dropStream => exact of_update (P := (·.cut = false)) hc fun h => h
    | _ => exact hc

/-- While the link is up, the newest stream is live once it has been opened. -/
def Fresh (s : Transfer) : Prop :=
  s.link = true → s.handle = true → reopening s.restore = false → (s.streams (s.opened - 1)).cut = false

theorem step_fresh {a : Act} (hi : Fresh s) (hok : pairsUp s a) (h : s.step a = some s') : Fresh s' := by
  intro hlink hhandle hre
  have huncut := fun i hc => step_uncut (i := i) hc hlink h
  cases a with
  | reader a => cases readerStep_cases h <;> exact huncut _ (hi hlink hhandle hre)
  | ticket a => cases ticketStep_cases h <;> exact huncut _ (hi hlink hhandle hre)
  | pump a => cases pumpStep_cases h <;> exact huncut _ (hi hlink hhandle hre)
  | ack a => cases ackStep_cases h <;> exact huncut _ (hi hlink hhandle hre)
  | link a =>
    cases linkStep_cases h with
    | outage | outageIdle => cases hlink
    | reconnect | restoreRead => cases hre
    | restoreSkip _ hh =>
      have hhandle : s.handle = true := hhandle
      rw [hh] at hhandle
      cases hhandle
    | restoreOpen =>
      show (Function.update s.streams s.opened _ (s.opened + 1 - 1)).cut = false
      rw [Nat.add_sub_cancel, Function.update_self]
      rfl
    | restoreFail =>
      have hlink : s.link = true := hlink
      rw [show s.link = false from hok] at hlink
      cases hlink
    | restoreDeliver hk => exact hi hlink hhandle (by rw [hk]; rfl)
    | restorePrune | dropHandle => cases hhandle
    | hookLinkDown => exact hi hlink hhandle hre
    | dropStream => exact huncut _ (hi hlink hhandle hre)
  | down a => cases downStep_cases h <;> exact huncut _ (hi hlink hhandle hre)

/-- The uplink has the newest stream, or is being given it. -/
def Given (s : Transfer) : Prop :=
  s.handle = true → s.ack ≠ .exited →
    (s.current :: (s.streamRx ++ delivering s.restore)).getLast? = some (s.opened - 1)

theorem step_given {a : Act} (hi : Given s) (h : s.step a = some s') : Given s' := by
  intro hhandle hx'
  have hx : s.ack ≠ .exited := fun hx => hx' (ack_exited_stays hx h).1
  cases a with
  | reader a => cases readerStep_cases h <;> exact hi hhandle hx
  | ticket a => cases ticketStep_cases h <;> exact hi hhandle hx
  | pump a => cases pumpStep_cases h <;> exact hi hhandle hx
  | ack a =>
    cases ackStep_cases h with
    | stream _ hrx =>
      have hlast := hi hhandle hx
      rw [hrx, List.cons_append, List.getLast?_cons_cons] at hlast
      exact hlast
    | done | error | goneFail | streamReaderGone | noStream | linkUpFail => exact absurd rfl hx'
    | _ => exact hi hhandle hx
  | link a =>
    cases linkStep_cases h with
    | reconnect _ hk | restoreRead hk | restoreSkip hk | restoreFail hk =>
      have hlast := hi hhandle hx
      rw [hk] at hlast
      exact hlast
    | restoreOpen =>
      show (s.current :: (s.streamRx ++ [s.opened])).getLast? = some (s.opened + 1 - 1)
      rw [Nat.add_sub_cancel, ← List.cons_append, List.getLast?_append, List.getLast?_singleton]
      rfl
    | restoreDeliver hk =>
      have hlast := hi hhandle hx
      rw [hk] at hlast
      show (s.current :: ((s.streamRx ++ [_]) ++ [])).getLast? = _
      rw [List.append_nil]
      exact hlast
    | restorePrune | dropHandle => cases hhandle
    | _ => exact hi hhandle hx
  | down a => cases downStep_cases h <;> exact hi hhandle hx

/-! ## The newest stream at the receiver -/

def Plain (q : QStream) : Prop := ∀ r l, q.up ≠ .reconnect r :: l

theorem Plain.rest {rest : List UpFrame} (h : headed rest = false) {q : QStream} (hq : q.up = rest) : Plain q := by
  intro r l hl
  rw [← hq, hl] at h
  cases h

/-- The first stream has no reconnect header. -/
theorem step_plain {a : Act} (hi : Plain (s.streams 0)) (hl : Living s) (h : s.step a = some s') :
    Plain (s'.streams 0) := by
  have hkeep : ∀ {q q' : QStream}, q'.up = q.up → Plain q → Plain q' := fun hu hp r l hup => hp r l (hu ▸ hup)
  have hrest : ∀ {k : Nat} {f : UpFrame} {rest : List UpFrame}, (s.streams k).up = f :: rest → headed rest = false :=
    fun hu => (hl.sound.bytes.streamOk _).rest hu
  cases a with
  | reader a => cases readerStep_cases h <;> exact hi
  | ticket a => cases ticketStep_cases h <;> exact hi
  | pump a =>
    cases pumpStep_cases h with
    | linkUp | drainFin | postFin => exact of_update hi (hkeep rfl)
    | write =>
      refine of_update hi fun hp r l hup => ?_
      simp only [QStream.write] at hup
      split at hup
      · exact hp r l hup
      · cases hu : (s.streams s.pump.quicTx).up with
        | nil => rw [hu] at hup; cases hup
        | cons f rest =>
          rw [hu, List.cons_append, List.cons.injEq] at hup
          exact hp r rest (by rw [hu, hup.1])
    | _ => exact hi
  | ack a =>
    cases ackStep_cases h with
    | readMsgClosed | readAck | readLast => exact of_update hi (hkeep rfl)
    | _ => exact hi
  | link a =>
    cases linkStep_cases h with
    | outage up down =>
      refine of_update hi fun hp r l hup => ?_
      simp only [QStream.cutAt] at hup
      cases hu : (s.streams (s.opened - 1)).up with
      | nil => rw [hu, List.take_nil] at hup; cases hup
      | cons f rest =>
        cases up with
        | zero => cases hup
        | succ n =>
          rw [hu, List.take_succ_cons, List.cons.injEq] at hup
          exact hp r rest (by rw [hu, hup.1])
    | restoreOpen =>
      have hpos : 0 < s.opened := Nat.lt_of_le_of_lt (Nat.zero_le _) hl.sound.lane.currentLt
      show Plain (Function.update s.streams s.opened _ 0)
      rw [Function.update_of_ne (by omega)]
      exact hi
    | dropStream => exact of_update hi (hkeep rfl)
    | _ => exact hi
  | down a =>
    cases downStep_cases h with
    | acceptConnect _ hu | acceptReconnect _ hu | acceptRefused _ hu | duplicate _ _ hu | gap _ _ hu | write _ _ hu
    | writeAck _ _ hu => exact of_update hi fun _ => .rest (hrest hu) rfl
    | tcpAcceptFail | writeFail | eof | dropStream => exact of_update hi (hkeep rfl)
    | _ => exact hi

/-- `active_downlinks` has the downlink from the first header until it ends. -/
structure Known (s : Transfer) : Prop where
  plain : Plain (s.streams 0)
  entry : s.down.handle = true ∨ s.down.pc = .absent ∨ s.down.pc.ended = true
  first : s.down.pc = .absent → s.nextAccept = 0

theorem init_known (capped : Bool) : Known (init capped) := by
  refine ⟨fun r l h => ?_, .inr (.inl rfl), fun _ => rfl⟩
  cases h

/-- A reconnect header finds the downlink, or one that has ended. -/
theorem Known.has_entry (hi : Known s) {replayFrom : Nat} {rest : List UpFrame}
    (hu : (s.streams s.nextAccept).up = .reconnect replayFrom :: rest) :
    s.down.pc ≠ .absent ∧ (s.down.handle = true ∨ s.down.pc.ended = true) := by
  have hpc : s.down.pc ≠ .absent := by
    intro hpc
    rw [hi.first hpc] at hu
    exact hi.plain _ _ hu
  exact ⟨hpc, hi.entry.imp_right fun h => h.resolve_left hpc⟩

theorem step_known {a : Act} (hi : Known s) (hl : Living s) (hok : pairsUp s a) (h : s.step a = some s') : Known s' := by
  have hplain := step_plain hi.plain hl h
  cases a with
  | reader a => cases readerStep_cases h <;> exact ⟨hplain, hi.entry, hi.first⟩
  | ticket a => cases ticketStep_cases h <;> exact ⟨hplain, hi.entry, hi.first⟩
  | pump a => cases pumpStep_cases h <;> exact ⟨hplain, hi.entry, hi.first⟩
  | ack a => cases ackStep_cases h <;> exact ⟨hplain, hi.entry, hi.first⟩
  | link a => cases linkStep_cases h <;> exact ⟨hplain, hi.entry, hi.first⟩
  | down a =>
    -- A downlink that is there and has not ended is in the table.
    have hthere : s.down.pc ≠ .absent → s.down.pc.ended = false → s.down.handle = true := fun h₁ h₂ =>
      hi.entry.resolve_right fun h => h.elim h₁ (Bool.eq_false_iff.mp h₂)
    cases downStep_cases h with
    | acceptConnect => exact ⟨hplain, .inl rfl, nofun⟩
    | acceptReconnect _ hu | acceptRefused _ hu =>
      exact ⟨hplain, hi.entry, fun hpc => absurd hpc (hi.has_entry hu).1⟩
    | acceptSkip =>
      refine ⟨hplain, hi.entry, fun hpc => ?_⟩
      have hzero := hi.first hpc
      exact absurd hzero (Nat.pos_iff_ne_zero.mp hok)
    | start hpc | tcpAccept hpc | readError hpc | resume hpc | duplicate _ hpc | write _ hpc | writeAck _ hpc =>
      refine ⟨hplain, .inl (hthere (by rw [hpc]; simp) (by rw [hpc]; rfl)), fun hpc' => ?_⟩
      first
        | cases hpc'
        | exact absurd (hpc.symm.trans hpc') (by simp)
    | tcpAcceptFail | gap | writeFail | eof | report | lost => exact ⟨hplain, .inr (.inr rfl), nofun⟩
    | dropHandle => exact ⟨hplain, .inr (.inr hok), hi.first⟩
    | dropStream => exact ⟨hplain, hi.entry, hi.first⟩

/-- A live stream that the downlink has stays with it until it ends. -/
theorem holding_stays {a : Act} {sid : Nat} (hh : Holding s.down sid) (hc : (s.streams sid).cut = false)
    (h : s.step a = some s') (hn : s'.nextAccept = s.nextAccept) : Holding s'.down sid ∨ s'.down.pc.ended = true := by
  cases a with
  | reader a => cases readerStep_cases h <;> exact .inl hh
  | ticket a => cases ticketStep_cases h <;> exact .inl hh
  | pump a => cases pumpStep_cases h <;> exact .inl hh
  | ack a => cases ackStep_cases h <;> exact .inl hh
  | link a => cases linkStep_cases h <;> exact .inl hh
  | down a =>
    obtain ⟨hx, hh⟩ := hh
    cases downStep_cases h with
    | acceptConnect | acceptReconnect | acceptRefused | acceptSkip => exact absurd hn (Nat.succ_ne_self _)
    | start hpc hrx =>
      refine .inl ⟨rfl, ?_⟩
      rw [hpc, hrx] at hh
      rcases hh with hh | hh | hh
      · cases hh
      · cases hh
      · rcases List.mem_cons.mp hh with rfl | hh
        · exact .inl rfl
        · exact .inr (.inr hh)
    | tcpAccept hpc =>
      refine .inl ⟨rfl, ?_⟩
      rw [hpc] at hh
      rcases hh with hh | hh | hh
      · cases hh
        exact .inr (.inl rfl)
      · cases hh
      · exact .inr (.inr hh)
    | readError hpc _ hcut =>
      refine .inl ⟨rfl, ?_⟩
      rw [hpc] at hh
      rcases hh with hh | hh | hh
      · cases hh
      · cases hh
        rw [hc] at hcut
        cases hcut
      · exact .inr (.inr hh)
    | resume hpc hrx =>
      refine .inl ⟨rfl, ?_⟩
      rw [hpc, hrx] at hh
      rcases hh with hh | hh | hh
      · cases hh
      · cases hh
      · rcases List.mem_cons.mp hh with rfl | hh
        · exact .inr (.inl rfl)
        · exact .inr (.inr hh)
    | tcpAcceptFail | gap | writeFail | eof | report | lost => exact .inr rfl
    | _ => exact .inl ⟨hx, hh⟩

/-- Once the receiver has read every header, the downlink has the newest stream. -/
def Held (s : Transfer) : Prop :=
  s.nextAccept = s.opened → (s.streams (s.opened - 1)).cut = false →
    Holding s.down (s.opened - 1) ∨ s.down.pc.ended = true

/-- The receiver reads the header of a live stream: the downlink gets it, or has ended. -/
theorem holding_of_accept (hk : Known s) (hl : Living s) (hok : pairsUp s (.down .accept))
    (h : DownCase s .accept s') : Holding s'.down s.nextAccept ∨ s'.down.pc.ended = true := by
  cases h with
  | acceptConnect => exact .inl ⟨rfl, .inr (.inr (List.mem_singleton_self _))⟩
  | acceptReconnect =>
    by_cases hx : s.down.pc.ended = true
    · exact .inr hx
    · exact .inl ⟨Bool.eq_false_iff.mpr hx, .inr (.inr (List.mem_append_right _ (List.mem_singleton_self _)))⟩
  | acceptRefused _ hu hwhy =>
    obtain ⟨hpc, hentry⟩ := hk.has_entry hu
    rcases hwhy with hh | hgap | hx | hfull
    · rw [hh] at hentry
      exact .inr (hentry.resolve_left Bool.false_ne_true)
    · exact absurd ((hl.sound.bytes.streamOk _).header _ _ hu) (Nat.not_le.mpr hgap)
    · exact .inr (by rw [hx]; rfl)
    · rcases hok with ha | hx | hroom
      · exact absurd ha hpc
      · exact .inr hx
      · exact absurd hroom (Nat.not_lt.mpr hfull)

/-- The number of streams, and of those that the receiver has taken, changes only when
    `restore_active` opens one and when `accept_loop` takes one. -/
theorem lengths_cases {a : Act} (h : s.step a = some s') :
    (s'.nextAccept = s.nextAccept ∧ s'.opened = s.opened) ∨ a = .link .restoreOpen ∨ a = .down .accept ∨
      a = .down .acceptSkip := by
  cases a with
  | reader a => cases readerStep_cases h <;> exact .inl ⟨rfl, rfl⟩
  | ticket a => cases ticketStep_cases h <;> exact .inl ⟨rfl, rfl⟩
  | pump a => cases pumpStep_cases h <;> exact .inl ⟨rfl, rfl⟩
  | ack a => cases ackStep_cases h <;> exact .inl ⟨rfl, rfl⟩
  | link a =>
    cases linkStep_cases h with
    | restoreOpen => exact .inr (.inl rfl)
    | _ => exact .inl ⟨rfl, rfl⟩
  | down a =>
    cases downStep_cases h with
    | acceptConnect | acceptReconnect | acceptRefused => exact .inr (.inr (.inl rfl))
    | acceptSkip => exact .inr (.inr (.inr rfl))
    | _ => exact .inl ⟨rfl, rfl⟩

theorem step_held {a : Act} (hi : Held s) (hk : Known s) (hl : Living s) (hok : pairsUp s a) (h : s.step a = some s') :
    Held s' := by
  intro hn hc
  rcases lengths_cases h with ⟨hsame, hsame'⟩ | rfl | rfl | rfl
  · rw [hsame, hsame'] at hn
    rw [hsame'] at hc ⊢
    -- A stream that is live now was live before.
    have hc₀ : (s.streams (s.opened - 1)).cut = false := by
      by_contra hcut
      rw [step_cut hl.streams (by simpa using hcut) h] at hc
      cases hc
    rcases hi hn hc₀ with hh | hx
    · exact holding_stays hh hc₀ h hsame
    · exact .inr (down_ended_stays hl.sound.connect hx h)
  · have hle := hl.receiver.accepted
    cases (show LinkCase s .restoreOpen s' from linkStep_cases h) with
    | restoreOpen =>
      have hn : s.nextAccept = s.opened + 1 := hn
      omega
  · have hcase : DownCase s .accept s' := downStep_cases h
    have hh := holding_of_accept hk hl hok hcase
    have hnew : s.nextAccept = s'.opened - 1 := by
      have hnext : s'.nextAccept = s.nextAccept + 1 := by cases hcase <;> rfl
      omega
    rwa [hnew] at hh
  · cases (show DownCase s .acceptSkip s' from downStep_cases h) with
    | acceptSkip _ hcut =>
      have hn : s.nextAccept + 1 = s.opened := hn
      rw [← hn, Nat.add_sub_cancel, hcut] at hc
      cases hc

/-! ## The receiver's last word -/

/-- The receiver's last message is with the ack task, or on a stream that it will read. -/
def WordComing (s : Transfer) : Prop :=
  ∃ m : WormholeMsg, (∀ n, m ≠ .ack n) ∧
    (m.toAckMsg ∈ s.ackRx ∨
      ∃ sid, m ∈ (s.streams sid).down ∧ (s.ackReader = .reading sid ∨ sid ∈ s.streamRx ++ delivering s.restore))

/-- The ack task reads the live stream that the downlink has, or will. -/
theorem given_of_holding (hg : Given s) (hl : Living s) (hh : s.handle = true) (hx : s.ack ≠ .exited) {sid : Nat}
    (hhold : Holding s.down sid) (hc : (s.streams sid).cut = false) :
    s.ackReader = .reading sid ∨ sid ∈ s.streamRx ++ delivering s.restore := by
  have hlt : sid < s.opened := Nat.lt_of_lt_of_le (hl.receiver.holding sid hhold) hl.receiver.accepted
  have hnew := hl.newest hlt hc
  have hlast := hg hh hx
  rw [show s.opened - 1 = sid by omega] at hlast
  rcases List.mem_cons.mp (List.mem_of_getLast? hlast) with hcur | hmem
  · left
    cases hr : s.ackReader with
    | reading k => rw [hl.feedback.reading k hr, hcur]
    | waiting =>
      have hend := hl.feedback.ended hr
      rw [← hcur] at hend
      simp [QStream.downEnded, hc, hhold.downFin hl.receiver] at hend
    | exited =>
      -- The last word it has got is a downlink's that has ended.
      have hin := hl.sound.inbox
      unfold Inbox InboxOf at hin
      rw [if_neg hx, hr] at hin
      obtain ⟨_, acks, m, hrx, _, hm⟩ := hin
      have hmem : m ∈ s.ackRx := by rw [hrx]; exact List.mem_append_right _ (List.mem_singleton_self _)
      rcases hm with rfl | ⟨f, rfl⟩
      · exact absurd (hl.lastWord.inbox .done hmem).1 (Bool.eq_false_iff.mp hhold.1)
      · exact absurd (hl.lastWord.inbox (.error f) hmem).1 (Bool.eq_false_iff.mp hhold.1)
  · exact .inr hmem

/-- The reader sub-task passes the last word on, and the ack task ends with it. -/
theorem ack_wordComing {a : AckAct} {m : WormholeMsg} (hm : ∀ n, m ≠ .ack n)
    (hi : m.toAckMsg ∈ s.ackRx ∨
      ∃ sid, m ∈ (s.streams sid).down ∧ (s.ackReader = .reading sid ∨ sid ∈ s.streamRx ++ delivering s.restore))
    (h : AckCase s a s') (hx' : s'.ack ≠ .exited) : WordComing s' := by
  have hack : ∀ n, m.toAckMsg ≠ .ack n := by
    intro n hn
    cases m with
    | ack k => exact hm k rfl
    | _ => cases hn
  -- What the ack task takes out of its inbox is not the last word, or it ends.
  have hpop : ∀ {x : AckMsg} {rest : List AckMsg}, s.ackRx = x :: rest → m.toAckMsg ≠ x →
      m.toAckMsg ∈ s.ackRx → m.toAckMsg ∈ rest := by
    intro x rest hrx hne hmem
    rw [hrx] at hmem
    exact (List.mem_cons.mp hmem).resolve_left hne
  cases h with
  | ackNew _ hrx | ackOld _ hrx => exact ⟨m, hm, hi.imp_left (hpop hrx (hack _))⟩
  | streamError _ hrx | streamErrorDropped _ hrx =>
    exact ⟨m, hm, hi.imp_left (hpop hrx (by cases m <;> simp [WormholeMsg.toAckMsg]))⟩
  | done | error | goneFail | streamReaderGone | noStream | linkUpFail | readMsgClosed _ _ hx | readEndClosed _ _ hx
  | readerClosed _ hx => exact absurd (by first | rfl | exact hx) hx'
  | @stream k rest _ hrx hw =>
    refine ⟨m, hm, hi.imp_right ?_⟩
    intro hon
    obtain ⟨sid, hmem, hto⟩ := hon
    refine ⟨sid, hmem, ?_⟩
    rw [hw, hrx, List.cons_append] at hto
    rcases List.mem_cons.mp (hto.resolve_left (by simp)) with rfl | hto
    · exact .inl rfl
    · exact .inr hto
  | @readAck k n rest hr hdown =>
    refine ⟨m, hm, hi.imp (List.mem_append_left _) ?_⟩
    intro hon
    obtain ⟨sid, hmem, hto⟩ := hon
    refine ⟨sid, ?_, hr ▸ hto⟩
    refine of_update (P := fun q => m ∈ q.down) hmem fun h => ?_
    rw [hdown] at h
    exact (List.mem_cons.mp h).resolve_left (hm n)
  | @readLast k x rest hr hdown hx =>
    exact ⟨x, hx, .inl (List.mem_append_right _ (List.mem_singleton_self _))⟩
  | @readEnd k hr hend =>
    refine ⟨m, hm, hi.imp (List.mem_append_left _) ?_⟩
    intro hon
    obtain ⟨sid, hmem, hto⟩ := hon
    refine ⟨sid, hmem, .inr (hto.resolve_left ?_)⟩
    intro hr'
    rw [hr] at hr'
    cases hr'
    rw [QStream.downEnded, Bool.and_eq_true, List.isEmpty_iff] at hend
    rw [hend.1] at hmem
    cases hmem
  | _ => exact ⟨m, hm, hi⟩

/-- The last word is not lost before the ack task has it. -/
theorem wordComing_stays {a : Act} (hi : WordComing s) (hl : Living s) (hd : s.down.pc.ended = true) (hok : pairsUp s a)
    (h : s.step a = some s') (hh : s'.handle = true) (hx' : s'.ack ≠ .exited) : WordComing s' := by
  obtain ⟨m, hm, hwhere⟩ := hi
  have hkeep : ∀ {i : Nat} {q' : QStream}, q'.down = (s.streams i).down → ∀ sid, m ∈ (s.streams sid).down →
      m ∈ (Function.update s.streams i q' sid).down := fun hq sid hmem =>
    of_update (P := fun q => m ∈ q.down) hmem fun h => by rw [hq]; exact h
  have hsame : (∀ sid, m ∈ (s.streams sid).down → m ∈ (s'.streams sid).down) → s'.ackRx = s.ackRx →
      s'.ackReader = s.ackReader → s'.streamRx = s.streamRx → delivering s'.restore = delivering s.restore →
      WordComing s' := by
    intro hstreams hrx hreader hsrx hdel
    refine ⟨m, hm, ?_⟩
    rw [hrx, hreader, hsrx, hdel]
    exact hwhere.imp_right fun ⟨sid, hmem, hto⟩ => ⟨sid, hstreams sid hmem, hto⟩
  have hid : ∀ sid, m ∈ (s.streams sid).down → m ∈ (s.streams sid).down := fun _ h => h
  cases a with
  | reader a => cases readerStep_cases h <;> exact hsame hid rfl rfl rfl rfl
  | ticket a => cases ticketStep_cases h <;> exact hsame hid rfl rfl rfl rfl
  | pump a =>
    cases pumpStep_cases h with
    | linkUp | drainFin | write | postFin => exact hsame (hkeep rfl) rfl rfl rfl rfl
    | _ => exact hsame hid rfl rfl rfl rfl
  | ack a => exact ack_wordComing hm hwhere (ackStep_cases h) hx'
  | link a =>
    cases linkStep_cases h with
    | outage up down =>
      -- The cut leaves all of the ended downlink's feedback.
      refine hsame (hkeep ?_) rfl rfl rfl rfl
      exact List.take_of_length_le (hok hd)
    | reconnect _ hr | restoreRead hr | restoreSkip hr | restoreFail hr => exact hsame hid rfl rfl rfl (by rw [hr]; rfl)
    | restoreOpen hr =>
      refine ⟨m, hm, hwhere.imp_right fun ⟨sid, hmem, hto⟩ => ⟨sid, ?_, ?_⟩⟩
      · show m ∈ (Function.update s.streams s.opened _ sid).down
        rw [Function.update_of_ne]
        · exact hmem
        · intro he
          rw [he, hl.streams.unused _ (Nat.le_refl _)] at hmem
          cases hmem
      · rw [hr] at hto
        exact hto.imp_right fun h => List.mem_append_left _ (by simpa [delivering] using h)
    | restoreDeliver hr =>
      refine ⟨m, hm, hwhere.imp_right fun ⟨sid, hmem, hto⟩ => ⟨sid, hmem, hto.imp_right fun h => ?_⟩⟩
      rw [hr] at h
      exact List.mem_append_left _ h
    | restorePrune | dropHandle => cases hh
    | dropStream => exact hsame (hkeep rfl) rfl rfl rfl rfl
    | _ => exact hsame hid rfl rfl rfl rfl
  | down a =>
    cases downStep_cases h with
    | acceptConnect | acceptReconnect | acceptRefused | duplicate | dropStream => exact hsame (hkeep rfl) rfl rfl rfl rfl
    | tcpAcceptFail hpc | gap _ hpc | write _ hpc | writeAck _ hpc | writeFail _ hpc | eof hpc =>
      rw [hpc] at hd
      cases hd
    | _ => exact hsame hid rfl rfl rfl rfl

/-- The downlink ends: it has a live stream to say so on. -/
theorem wordComing_of_end {a : Act} (hg : Given s) (hk : Known s) (hl : Living s) (hok : pairsUp s a)
    (h : s.step a = some s') (hd : s.down.pc.ended = false) (hd' : s'.down.pc.ended = true) (hh : s.handle = true)
    (hx : s.ack ≠ .exited) : WordComing s' := by
  have hrun := Bool.eq_false_iff.mp hd
  have hopened : ∀ {sid : Nat}, Holding s.down sid → sid < s.opened := fun hhold =>
    Nat.lt_of_lt_of_le (hl.receiver.holding _ hhold) hl.receiver.accepted
  have hsay : ∀ {sid : Nat} (m : WormholeMsg), (∀ n, m ≠ .ack n) → Holding s.down sid → (s.streams sid).cut = false →
      (s'.streams sid).down = ((s.streams sid).writeMsg m).down →
      s'.ackReader = s.ackReader → s'.streamRx = s.streamRx → s'.restore = s.restore → WordComing s' := by
    intro sid m hm hhold hc hdown hreader hrx hrestore
    refine ⟨m, hm, .inr ⟨sid, ?_, ?_⟩⟩
    · rw [hdown, QStream.writeMsg, hc]
      exact List.mem_append_right _ (List.mem_singleton_self _)
    · rw [hreader, hrx, hrestore]
      exact given_of_holding hg hl hh hx hhold hc
  cases a with
  | reader a => cases readerStep_cases h <;> exact absurd hd' hrun
  | ticket a => cases ticketStep_cases h <;> exact absurd hd' hrun
  | pump a => cases pumpStep_cases h <;> exact absurd hd' hrun
  | ack a => cases ackStep_cases h <;> exact absurd hd' hrun
  | link a => cases linkStep_cases h <;> exact absurd hd' hrun
  | down a =>
    cases downStep_cases h with
    | @tcpAcceptFail sid hpc =>
      have hhold : Holding s.down sid := ⟨hd, .inl hpc⟩
      have hc := hok sid (hopened hhold) (.inl hpc)
      exact hsay (.error .tcpAccept) (by simp) hhold hc (by simp) rfl rfl rfl
    | @writeFail sid _ _ _ _ hpc =>
      have hhold : Holding s.down sid := ⟨hd, .inr (.inl hpc)⟩
      have hc := hok sid (hopened hhold) (.inr hpc)
      exact hsay (.error .tcpWrite) (by simp) hhold hc (by simp) rfl rfl rfl
    | @eof sid hpc _ _ hc =>
      exact hsay .done (by simp) ⟨hd, .inr (.inl hpc)⟩ hc (by simp) rfl rfl rfl
    | gap _ _ hu hgap => exact absurd ((hl.sound.bytes.streamOk _).front hu).1 (Nat.not_le.mpr hgap)
    | lost hpc _ hhandle =>
      -- The table has the downlink.
      rcases hk.entry with hentry | habs | hexit
      · rw [hhandle] at hentry
        cases hentry
      · rw [hpc] at habs
        cases habs
      · exact absurd hexit hrun
    | report hpc =>
      rw [hpc] at hd
      cases hd
    | acceptConnect | start | tcpAccept | readError | resume => cases hd'
    | _ => exact absurd hd' hrun

/-- A downlink that has ended has told the ack task, or its last word is on its way. -/
def Word (s : Transfer) : Prop :=
  s.down.pc.ended = true → s.handle = true → s.ack ≠ .exited → WordComing s

/-- The entry of `active_uplinks` does not come back. -/
theorem handle_of_step {a : Act} (h : s.step a = some s') (hh : s'.handle = true) : s.handle = true := by
  cases a with
  | reader a => cases readerStep_cases h <;> exact hh
  | ticket a => cases ticketStep_cases h <;> exact hh
  | pump a => cases pumpStep_cases h <;> exact hh
  | ack a => cases ackStep_cases h <;> exact hh
  | link a =>
    cases linkStep_cases h with
    | restorePrune | dropHandle => cases hh
    | _ => exact hh
  | down a => cases downStep_cases h <;> exact hh

theorem step_word {a : Act} (hi : Word s) (hg : Given s) (hk : Known s) (hl : Living s) (hok : pairsUp s a)
    (h : s.step a = some s') : Word s' := by
  intro hd' hh' hx'
  have hh := handle_of_step h hh'
  have hx : s.ack ≠ .exited := fun hx => hx' (ack_exited_stays hx h).1
  by_cases hd : s.down.pc.ended = true
  · exact wordComing_stays (hi hd hh hx) hl hd hok h hh' hx'
  · exact wordComing_of_end hg hk hl hok h (Bool.eq_false_iff.mpr hd) hd' hh hx

/-! ## What the sender has reported -/

/-- `StreamDone` or `StreamFailed` has been fired. -/
def Ended (callbacks : List Callback) : Prop := ∃ c ∈ callbacks, c.terminal = true

/-- Nothing that has been reported is taken back. -/
theorem callbacks_grow {a : Act} (h : s.step a = some s') : s.callbacks <+: s'.callbacks := by
  cases a with
  | reader a =>
    cases readerStep_cases h with
    | acceptFail | readFail => exact List.prefix_append ..
    | _ => exact List.prefix_rfl
  | ticket a => cases ticketStep_cases h <;> exact List.prefix_rfl
  | pump a => cases pumpStep_cases h <;> exact List.prefix_rfl
  | ack a =>
    cases ackStep_cases h with
    | done | error | goneFail | noStream => exact List.prefix_append ..
    | space progress =>
      show s.callbacks <+: if progress then s.callbacks ++ [.progress s.bytesSent] else s.callbacks
      split
      · exact List.prefix_append ..
      · exact List.prefix_rfl
    | _ => exact List.prefix_rfl
  | link a => cases linkStep_cases h <;> exact List.prefix_rfl
  | down a => cases downStep_cases h <;> exact List.prefix_rfl

theorem step_ended_said {a : Act} (hi : s.ack = .exited → Ended s.callbacks) (hl : Living s) (hok : pairsUp s a)
    (h : s.step a = some s') (hx' : s'.ack = .exited) : Ended s'.callbacks := by
  have hlast : ∀ {c : Callback}, c.terminal = true → s'.callbacks = s.callbacks ++ [c] → Ended s'.callbacks := by
    intro c ht hcb
    exact ⟨c, by rw [hcb]; exact List.mem_append_right _ (List.mem_singleton_self _), ht⟩
  by_cases hx : s.ack = .exited
  · obtain ⟨c, hc, ht⟩ := hi hx
    exact ⟨c, (callbacks_grow h).subset hc, ht⟩
  · cases ackExit_cases hl hx hx' h with
    | done _ _ _ hcb => exact hlast rfl hcb
    | error _ _ _ _ _ hcb => exact hlast rfl hcb
    | noStream _ _ _ _ hcb => exact hlast rfl hcb
    | noPump hp => exact absurd hp hok

/-! ## Every run -/

structure Pairs (s : Transfer) : Prop where
  living : Living s
  paired : Paired s
  handedOn : HandedOn s
  fresh : Fresh s
  given : Given s
  known : Known s
  held : Held s
  word : Word s
  said : s.ack = .exited → Ended s.callbacks

theorem init_pairs (capped : Bool) : Pairs (init capped) where
  living := init_living capped
  paired := init_paired capped
  handedOn := fun _ => rfl
  fresh := fun _ _ _ => rfl
  given := fun _ _ => rfl
  known := init_known capped
  held := fun h => by cases h
  word := fun h => by cases h
  said := fun h => by cases h

theorem reach_pairs {capped : Bool} (h : Reach step pairsUp (init capped) s) : Pairs s := by
  refine h.invariant (init_pairs capped) ?_
  intro s s' a hi hok hs
  exact {
    living := step_living hi.living hs
    paired := step_paired hi.paired (landsLinkDown_of_pairsUp hok) hs
    handedOn := step_handedOn hi.handedOn (hi.paired.takesLinkUp _) hs
    fresh := step_fresh hi.fresh hok hs
    given := step_given hi.given hs
    known := step_known hi.known hi.living hok hs
    held := step_held hi.held hi.known hi.living hok hs
    word := step_word hi.word hi.given hi.known hi.living hok hs
    said := step_ended_said hi.said hi.living hok hs }

/-- The uplink and the downlink have the two ends of one live stream: the newest that the
    uplink was given, which the pump is on, or is being given, once the ack task has no
    other to take. -/
def Joined (s : Transfer) : Prop :=
  ∃ sid, (s.streams sid).cut = false ∧ Holding s.down sid ∧ (s.current :: s.streamRx).getLast? = some sid ∧
    (s.streamRx = [] → s.pump.pc = .exited ∨ s.pump.quicTx = sid ∨ s.handing sid)

/-- The link is up, both agents have handled it, and no header is on its way: the uplink is
    joined to its downlink, or its end has been reported, or the downlink has ended and its
    last message is on its way. -/
theorem reconnect_pairs {capped : Bool} (h : Reach step pairsUp (init capped) s) (hlink : s.link = true)
    (hrestore : s.restore = .idle) (haccept : s.nextAccept = s.opened) (hhandle : s.handle = true) :
    Joined s ∨ Ended s.callbacks ∨ (s.down.pc.ended = true ∧ WordComing s) := by
  have hi := reach_pairs h
  have hc := hi.fresh hlink hhandle (by rw [hrestore]; rfl)
  by_cases hx : s.ack = .exited
  · exact .inr (.inl (hi.said hx))
  · rcases hi.held haccept hc with hhold | hd
    · have hlast := hi.given hhandle hx
      rw [hrestore] at hlast
      simp only [delivering, List.append_nil] at hlast
      refine .inl ⟨s.opened - 1, hc, hhold, hlast, fun hrx => ?_⟩
      rw [hrx, List.getLast?_singleton, Option.some.injEq] at hlast
      rw [← hlast]
      by_cases hp : s.pump.pc = .exited
      · exact .inl hp
      · exact .inr (hi.handedOn.on_current hp)
    · exact .inr (.inr ⟨hd, hi.word hd hhandle hx⟩)

/-- The receiver has the first header when the link fails, and takes the next. -/
theorem joined_after_outage :
    ∃ s, Reach step pairsUp (init true) s ∧ s.opened = 2 ∧ s.link = true ∧ s.restore = .idle ∧ s.nextAccept = s.opened ∧
      s.handle = true ∧ Joined s := by
  obtain ⟨s, hr, hs⟩ := Reach.exists_run step pairsUp (init true)
    (startDownlink ++ loseLink ++ restoreLink ++ resumePump ++ resumeDownlink)
    (fun s => s.opened = 2 ∧ s.link = true ∧ s.restore = .idle ∧ s.nextAccept = s.opened ∧ s.handle = true ∧
      s.callbacks = [] ∧ s.down.pc = .reading 1) (by decide +kernel)
  obtain ⟨hopened, hlink, hrestore, haccept, hhandle, hcb, hpc⟩ := of_decide_eq_true hs
  refine ⟨s, hr, hopened, hlink, hrestore, haccept, hhandle, ?_⟩
  rcases reconnect_pairs hr hlink hrestore haccept hhandle with hj | ⟨c, hc, _⟩ | ⟨hd, _⟩
  · exact hj
  · rw [hcb] at hc
    cases hc
  · rw [hpc] at hd
    cases hd

/-- No downlink has a stream of the uplink, and no end of the uplink has been reported. -/
def Unpaired (s : Transfer) : Prop :=
  s.link = true ∧ s.restore = .idle ∧ s.nextAccept = s.opened ∧ s.handle = true ∧ (∀ sid, ¬ Holding s.down sid) ∧
    ¬ Ended s.callbacks

/-- The downlink has got a FIN after a reconnection, and its `Done` is on its way. -/
theorem unpaired_at_done : ∃ s, Reach step anyStep (init true) s ∧ s.opened = 2 ∧ s.down.pc = .exited ∧ Unpaired s := by
  obtain ⟨s, hr, hs⟩ := Reach.exists_run step anyStep (init true)
    [[.reader .accept], writeAndPush [1, 2, 3], startDownlink, loseLink, restoreLink, resumePump, closeClient,
      sendAndFinish 9, resumeDownlink, [.down (.chunk false), .down .eof, .down .report]].flatten
    (fun s => s.opened = 2 ∧ s.down.pc = .exited ∧ s.link = true ∧ s.restore = .idle ∧ s.nextAccept = s.opened ∧
      s.handle = true ∧ s.callbacks = []) (by decide +kernel)
  obtain ⟨hopened, hpc, hlink, hrestore, haccept, hhandle, hcb⟩ := of_decide_eq_true hs
  refine ⟨s, hr, hopened, hpc, hlink, hrestore, haccept, hhandle, fun sid hh => ?_, ?_⟩
  · have hrun := hh.1
    rw [hpc] at hrun
    cases hrun
  · rintro ⟨c, hc, _⟩
    rw [hcb] at hc
    cases hc

/-- The link fails before the receiver has read the first header: it takes the next one for
    that of an unknown downlink and drops the stream. -/
theorem unknown_downlink : ∃ s, Reach step anyStep (init true) s ∧ s.opened = 2 ∧ s.down.pc = .absent ∧ Unpaired s := by
  obtain ⟨s, hr, hs⟩ := Reach.exists_run step anyStep (init true)
    [loseLink, restoreLink, resumePump, [.down .acceptSkip, .down .accept]].flatten
    (fun s => s.opened = 2 ∧ s.down.pc = .absent ∧ s.link = true ∧ s.restore = .idle ∧ s.nextAccept = s.opened ∧
      s.handle = true ∧ s.callbacks = [] ∧ s.down.streamRx = []) (by decide +kernel)
  obtain ⟨hopened, hpc, hlink, hrestore, haccept, hhandle, hcb, hrx⟩ := of_decide_eq_true hs
  refine ⟨s, hr, hopened, hpc, hlink, hrestore, haccept, hhandle, ?_, ?_⟩
  · rintro sid ⟨_, hh⟩
    rw [hpc, hrx] at hh
    simp at hh
  · rintro ⟨c, hc, _⟩
    rw [hcb] at hc
    cases hc

/-- Both are reached with every channel nearly empty. -/
theorem pairing_fails :
    (∃ s, Reach step anyStep (init true) s ∧ s.opened = 2 ∧ s.down.pc = .exited ∧ Unpaired s) ∧
      ∃ s, Reach step anyStep (init true) s ∧ s.opened = 2 ∧ s.down.pc = .absent ∧ Unpaired s :=
  ⟨unpaired_at_done, unknown_downlink⟩

end Quelay.Agent.Transfer
