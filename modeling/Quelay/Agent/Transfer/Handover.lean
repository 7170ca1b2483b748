/-
  Quelay.Agent.Transfer.Handover — the pump gets the stream the ack task is on.

  A stream that the ack task resumes on reaches the pump by a `LinkUp`, which the pump
  takes only while it waits for a link: elsewhere it drops the write half. As long as it
  drops none and does not end with one in its channel, the last stream on the way to the
  pump, or the pump's own, is the ack task's (`Handed`); and a pump that is left waiting
  has a `LinkUp` to come (`Recalled`).
-/

import Quelay.Agent.Transfer.Signals

namespace Quelay.Agent.Transfer

open Quelay.Lib

/-- The pump takes `LinkUp` only while it waits for a link. -/
def takesLinkUp (s : Transfer) : Act → Prop
  | .pump .cmd => s.pump.pc = .select → ∀ sid ∈ linkUps s.cmds, s.cmds.head? ≠ some (.linkUp sid)
  | _ => True

instance (s : Transfer) (a : Act) : Decidable (takesLinkUp s a) := by
  unfold takesLinkUp
  split <;> infer_instance

/-- The pump does not end with a `LinkUp` in its channel. -/
def endsEmpty (s : Transfer) : Act → Prop
  | .pump .post => s.pump.done = true ∨ s.pump.finishing = true → linkUps s.cmds = []
  | _ => True

instance (s : Transfer) (a : Act) : Decidable (endsEmpty s a) := by
  unfold endsEmpty
  split <;> infer_instance

/-- The pump's next check after a drain ends it. -/
def endsNow (s : Transfer) : Prop :=
  s.pump.done = true ∨ (s.pump.finishing = true ∧ s.spool.atEof = true ∧ s.spool.headOffset ≤ s.pump.q)

instance (s : Transfer) : Decidable (endsNow s) := inferInstanceAs (Decidable (_ ∨ _))

theorem linkUps_of_endsEmpty {s : Transfer} {a : Act} (h : endsEmpty s a) (ha : a = .pump .post) (hend : endsNow s) :
    linkUps s.cmds = [] := by
  subst ha
  exact h (hend.imp_right fun h => h.1)

/-! ## The last stream handed over -/

structure HandedOf (pump : StreamPump) (cmds : List RateCmd) (ack : AckPc) (current : Nat) : Prop where
  last : pump.pc ≠ .exited → (pump.quicTx :: (linkUps cmds ++ pendingUp ack)).getLast? = some current
  ended : pump.pc = .exited → pump.done = true → ack ≠ .exited → pendingUp ack = [] → pump.quicTx = current

def Handed (s : Transfer) : Prop := HandedOf s.pump s.cmds s.ack s.current

/-- The first half, which a run keeps that drops no `LinkUp`. -/
def HandedOn (s : Transfer) : Prop :=
  s.pump.pc ≠ .exited → (s.pump.quicTx :: (linkUps s.cmds ++ pendingUp s.ack)).getLast? = some s.current

variable {s s' : Transfer}

/-- No stream is taken off the way to the pump, and none is put on it. -/
theorem HandedOn.move (hi : HandedOn s) (hx : s.pump.pc ≠ .exited) (htx : s'.pump.quicTx = s.pump.quicTx)
    (hc : linkUps s'.cmds = linkUps s.cmds) (hp : pendingUp s'.ack = pendingUp s.ack) (hcur : s'.current = s.current) :
    HandedOn s' := by
  intro _
  rw [htx, hc, hp, hcur]
  exact hi hx

theorem init_handed (capped : Bool) : Handed (init capped) := ⟨fun _ => rfl, nofun⟩

theorem pump_handedOn {a : PumpAct} (hi : HandedOn s) (hok : takesLinkUp s (.pump a)) (h : PumpCase s a s') :
    HandedOn s' := by
  cases h with
  | linkDown hpc hc => exact hi.move (by rcases hpc with h | h <;> simp [h]) rfl (by rw [hc]; rfl) rfl rfl
  | linkUpIgnored hpc hc => exact absurd (by rw [hc]; rfl) (hok hpc _ (by rw [hc]; exact List.mem_cons_self))
  | linkUp hpc hc =>
    intro _
    have hlast := hi (by rw [hpc]; simp)
    rw [hc, linkUps_linkUp, List.cons_append, List.getLast?_cons_cons] at hlast
    exact hlast
  | finishDrained hpc hc | finishBacklog hpc hc | finishWaiting hpc hc =>
    exact hi.move (by rw [hpc]; simp) rfl (by rw [hc]; rfl) rfl rfl
  | postFin | postDone | closed => exact fun hx => absurd rfl hx
  | discard => exact hi
  | ticket hpc | drainSpent _ hpc | drainFin _ hpc | drainNone _ hpc | drainEmpty _ hpc | drainChunk _ hpc | write hpc
  | writeFail hpc | store hpc | post hpc =>
    exact hi.move (by rw [hpc]; simp) rfl rfl rfl rfl

theorem ack_handedOn {a : AckAct} (hi : HandedOn s) (h : AckCase s a s') : HandedOn s' := by
  intro hx
  cases h with
  | checkEof hk | checkNone hk | finishClosed hk | pollPermit hk | pollPark hk | wake hk | space _ hk | goneFail hk =>
    exact hi.move hx rfl rfl (by rw [hk]; rfl) rfl hx
  | finish hk => exact hi.move hx rfl (by simp) (by rw [hk]; rfl) rfl hx
  | ackNew hk | ackOld hk | streamErrorDropped hk | gone hk | done hk | error hk | streamReaderGone hk | noStream hk =>
    exact hi.move hx rfl rfl (pendingUp_selecting hk).symm rfl hx
  | streamError hk => exact hi.move hx rfl (by simp) (pendingUp_selecting hk).symm rfl hx
  | linkUpFail _ hexit => exact absurd hexit hx
  | stream hk =>
    show (_ :: (linkUps s.cmds ++ [_])).getLast? = _
    rw [← List.cons_append, List.getLast?_append, List.getLast?_singleton, Option.some_or]
  | linkUp hk =>
    have hlast := hi hx
    rw [hk] at hlast
    simpa [pendingUp] using hlast
  | _ => exact hi hx

theorem step_handedOn {a : Act} (hi : HandedOn s) (hok : takesLinkUp s a) (h : s.step a = some s') : HandedOn s' := by
  cases a with
  | reader a => cases readerStep_cases h <;> exact hi
  | ticket a => cases ticketStep_cases h <;> exact hi
  | pump a => exact pump_handedOn hi hok (pumpStep_cases h)
  | ack a => exact ack_handedOn hi (ackStep_cases h)
  | link a =>
    cases linkStep_cases h with
    | hookLinkDown _ _ _ hx => exact hi.move hx rfl (by simp) rfl rfl
    | _ => exact hi
  | down a => cases downStep_cases h <;> exact hi

/-- Once the pump has ended, the ack task keeps its stream or takes another in vain. -/
theorem exited_keeps_stream {a : Act} (hx : s.pump.pc = .exited) (hack : s'.ack ≠ .exited) (hup : pendingUp s'.ack = [])
    (h : s.step a = some s') : s'.pump = s.pump ∧ s.ack ≠ .exited ∧ pendingUp s.ack = [] ∧ s'.current = s.current := by
  refine ⟨?_, fun hk => hack (ack_exited_stays hk h).1, ?_⟩
  · cases a with
    | reader a => cases readerStep_cases h <;> rfl
    | ticket a => cases ticketStep_cases h <;> rfl
    | pump a => cases pumpStep_cases h <;> simp_all
    | ack a => cases ackStep_cases h <;> rfl
    | link a => cases linkStep_cases h <;> rfl
    | down a => cases downStep_cases h <;> rfl
  · cases a with
    | reader a => cases readerStep_cases h <;> exact ⟨hup, rfl⟩
    | ticket a => cases ticketStep_cases h <;> exact ⟨hup, rfl⟩
    | pump a => cases pumpStep_cases h <;> exact ⟨hup, rfl⟩
    | ack a =>
      cases ackStep_cases h with
      | checkEof hk | checkNone hk | finishClosed hk | pollPermit hk | pollPark hk | wake hk | space _ hk | finish hk =>
        exact ⟨by rw [hk]; rfl, rfl⟩
      | ackNew hk | ackOld hk | streamErrorDropped hk | gone hk | streamError hk => exact ⟨pendingUp_selecting hk, rfl⟩
      | done | error | goneFail | streamReaderGone | noStream | linkUpFail => exact absurd rfl hack
      | stream => cases hup
      | linkUp _ hlive => exact absurd hx hlive
      | _ => exact ⟨hup, rfl⟩
    | link a => cases linkStep_cases h <;> exact ⟨hup, rfl⟩
    | down a => cases downStep_cases h <;> exact ⟨hup, rfl⟩

/-- A pump that ends of its own accord ends after its FIN, or with the ack task gone. -/
theorem pump_exit_cases {a : Act} (hs : Sound s) (hx : s.pump.pc ≠ .exited) (hx' : s'.pump.pc = .exited)
    (h : s.step a = some s') : s'.pump.quicTx = s.pump.quicTx ∧ s'.ack = s.ack ∧ s'.current = s.current ∧
      ((s'.pump.done = false ∧ s.ack = .exited ∧ s.cmds = []) ∨ (a = .pump .post ∧ endsNow s)) := by
  cases a with
  | reader a => cases readerStep_cases h <;> exact absurd hx' hx
  | ticket a => cases ticketStep_cases h <;> exact absurd hx' hx
  | pump a =>
    cases pumpStep_cases h with
    | postFin _ hf he hq => exact ⟨rfl, rfl, rfl, .inr ⟨rfl, .inr ⟨hf, he, hq⟩⟩⟩
    | postDone _ hd => exact ⟨rfl, rfl, rfl, .inr ⟨rfl, .inl hd⟩⟩
    | closed hpc hcmds hack =>
      refine ⟨rfl, rfl, rfl, .inl ⟨?_, hack, hcmds⟩⟩
      by_contra hd
      have hp := (hs.finished (by simpa using hd)).1
      rcases hpc with h | h <;> simp [h] at hp
    | @store next => cases next <;> cases hx'
    | _ => first | exact absurd hx' hx | cases hx'
  | ack a => cases ackStep_cases h <;> exact absurd hx' hx
  | link a => cases linkStep_cases h <;> exact absurd hx' hx
  | down a => cases downStep_cases h <;> exact absurd hx' hx

theorem step_handed {a : Act} (hi : Handed s) (hs : Sound s) (hok : takesLinkUp s a)
    (hend : a = .pump .post → endsNow s → linkUps s.cmds = []) (h : s.step a = some s') : Handed s' := by
  refine ⟨step_handedOn hi.last hok h, fun hx' hd hack hup => ?_⟩
  by_cases hx : s.pump.pc = .exited
  · obtain ⟨hpump, hack, hup, hcur⟩ := exited_keeps_stream hx hack hup h
    rw [hpump, hcur]
    exact hi.ended hx (hpump ▸ hd) hack hup
  · obtain ⟨htx, hack', hcur, ⟨hnot, _⟩ | ⟨ha, hwhy⟩⟩ := pump_exit_cases hs hx hx' h
    · rw [hnot] at hd
      cases hd
    · have hlast := hi.last hx
      rw [hend ha hwhy, ← hack', hup] at hlast
      rw [htx, hcur]
      simpa using hlast

variable {pump : StreamPump} {cmds : List RateCmd} {ack : AckPc} {current : Nat}

/-! ## A pump that waits -/

def waits : PumpPc → Bool
  | .waitUp | .store .waitUp => true
  | _ => false

/-- The pump waits for a link once it has taken the commands. -/
def endsDown : Bool → List RateCmd → Bool
  | w, [] => w
  | _, .linkDown :: cmds => endsDown true cmds
  | _, .linkUp _ :: cmds => endsDown false cmds
  | w, .finish :: cmds => endsDown w cmds

theorem endsDown_linkUp (w : Bool) (cmds : List RateCmd) (sid : Nat) : endsDown w (cmds ++ [.linkUp sid]) = false := by
  induction cmds generalizing w with
  | nil => rfl
  | cons c rest ih => cases c <;> exact ih _

theorem endsDown_finish (w : Bool) (cmds : List RateCmd) : endsDown w (cmds ++ [.finish]) = endsDown w cmds := by
  induction cmds generalizing w with
  | nil => rfl
  | cons c rest ih => cases c <;> exact ih _

/-- Where the pump stands matters only if no stream is on its way to it. -/
theorem endsDown_of_waiting {cmds : List RateCmd} (h : endsDown true cmds = true) :
    endsDown false cmds = true ∨ linkUps cmds = [] := by
  induction cmds with
  | nil => exact .inr rfl
  | cons c rest ih =>
    cases c with
    | linkDown => exact .inl h
    | linkUp => exact .inl h
    | finish => exact ih h

/-- The stream takes no more writes, or gives no more feedback. -/
def Broken (q : QStream) : Prop := q.cut = true ∨ q.stopped = true ∨ q.downFin = true

/-- The ack task's stream is broken or about to be, or the ack task has another stream
    for the pump, or is not on a stream at all. -/
def Unsettled (q : QStream) (closing : Bool) (ack : AckPc) : Prop :=
  Broken q ∨ closing = true ∨ mode ack ≠ .main ∨ pendingUp ack ≠ [] ∨ ack = .exited

def RecalledOf (pump : StreamPump) (cmds : List RateCmd) (q : QStream) (closing : Bool) (ack : AckPc) : Prop :=
  pump.pc ≠ .exited → endsDown (waits pump.pc) cmds = true → Unsettled q closing ack

/-- A pump that waits for a link, or will, is not forgotten. -/
def Recalled (s : Transfer) : Prop := RecalledOf s.pump s.cmds (s.streams s.current) s.closing s.ack

variable {q : QStream} {closing : Bool}

theorem RecalledOf.stream (hi : RecalledOf pump cmds q closing ack) {q' : QStream} (hq : Broken q → Broken q') :
    RecalledOf pump cmds q' closing ack := by
  intro hx hd
  exact (hi hx hd).imp_left hq

/-- The pump moves: it waits afterwards only if it did before. -/
theorem RecalledOf.movePump (hi : RecalledOf pump cmds q closing ack) {pump' : StreamPump} {cmds' : List RateCmd}
    (hx : pump.pc ≠ .exited) (hd : endsDown (waits pump'.pc) cmds' = endsDown (waits pump.pc) cmds) :
    RecalledOf pump' cmds' q closing ack := by
  intro _ hd'
  exact hi hx (hd ▸ hd')

theorem RecalledOf.moveAck (hi : RecalledOf pump cmds q closing ack) {ack' : AckPc} (hm : mode ack' = mode ack)
    (hp : pendingUp ack' = pendingUp ack) (hx : ack ≠ .exited) : RecalledOf pump cmds q closing ack' := by
  intro hpump hd
  rcases hi hpump hd with h | h | h | h | h
  · exact .inl h
  · exact .inr (.inl h)
  · exact .inr (.inr (.inl (hm ▸ h)))
  · exact .inr (.inr (.inr (.inl (hp ▸ h))))
  · exact absurd h hx

theorem pump_recalled {s s' : Transfer} {a : PumpAct} (hi : Recalled s) (hh : Handed s) (h : PumpCase s a s') :
    Recalled s' := by
  cases h with
  | linkDown hpc hc =>
    exact hi.movePump (by rcases hpc with h | h <;> simp [h]) (by rw [hc]; rfl)
  | linkUpIgnored hpc hc =>
    refine hi.movePump (by rw [hpc]; simp) ?_
    show endsDown (waits s.pump.pc) _ = _
    rw [hc, hpc]
    rfl
  | linkUp hpc hc =>
    exact (hi.movePump (by rw [hpc]; simp) (by rw [hc]; rfl)).stream fun h => of_update h fun h => h
  | finishDrained hpc hc | finishBacklog hpc hc | finishWaiting hpc hc =>
    exact hi.movePump (by rw [hpc]; simp) (by rw [hc]; simp [hpc, waits, endsDown])
  | drainFin _ hpc | write hpc =>
    exact (hi.movePump (by rw [hpc]; simp) (by rw [hpc]; rfl)).stream fun h => of_update h fun h => h
  | writeFail hpc hdead =>
    intro _ hd
    rcases endsDown_of_waiting hd with hd | hnone
    · exact hi (by rw [hpc]; simp) (by rw [hpc]; exact hd)
    · by_cases hup : pendingUp s.ack = []
      · -- No stream is on its way to the pump, so the one it holds is the ack task's.
        have hlast := hh.last (by rw [hpc]; simp)
        rw [hnone, hup] at hlast
        have htx : s.pump.quicTx = s.current := by simpa using hlast
        rw [htx] at hdead
        exact .inl (hdead.imp_right .inl)
      · exact .inr (.inr (.inr (.inl hup)))
  | postFin | postDone | closed => exact fun hx => absurd rfl hx
  | @store next hpc => exact hi.movePump (by rw [hpc]; simp) (by rw [hpc]; cases next <;> rfl)
  | discard => exact hi
  | ticket hpc | drainSpent _ hpc | drainNone _ hpc | drainEmpty _ hpc | drainChunk _ hpc | post hpc =>
    exact hi.movePump (by rw [hpc]; simp) (by rw [hpc]; rfl)

theorem ack_recalled {s s' : Transfer} {a : AckAct} (hi : Recalled s) (h : AckCase s a s') : Recalled s' := by
  cases h with
  | checkEof hk | checkNone hk | finishClosed hk | pollPermit hk | pollPark hk | wake hk | space _ hk =>
    exact hi.moveAck (by rw [hk]; rfl) (by rw [hk]; rfl) (by rw [hk]; simp)
  | finish hk hx =>
    exact (hi.movePump hx (endsDown_finish ..)).moveAck (by rw [hk]; rfl) (by rw [hk]; rfl) (by rw [hk]; simp)
  | ackNew hk | ackOld hk =>
    obtain ⟨hx, hm⟩ := selecting_mode hk
    exact hi.moveAck hm.symm (pendingUp_selecting hk).symm hx
  | streamError | streamErrorDropped | gone => exact fun _ _ => .inr (.inr (.inl (by simp [mode])))
  | done | error | goneFail | streamReaderGone | noStream | linkUpFail =>
    exact fun _ _ => .inr (.inr (.inr (.inr rfl)))
  | stream => exact fun _ _ => .inr (.inr (.inr (.inl (by simp [pendingUp]))))
  | linkUp =>
    intro _ hd
    rw [endsDown_linkUp] at hd
    cases hd
  | readMsgClosed | readAck | readLast => exact hi.stream fun h => of_update h fun h => h
  | _ => exact hi

theorem link_recalled {s s' : Transfer} {a : LinkAct} (hi : Recalled s) (hl : Living s) (hl' : Living s')
    (h : LinkCase s a s') : Recalled s' := by
  have hcur := hl.sound.lane.currentLt
  cases h with
  | outage => exact fun _ _ => .inl (.inl (hl'.streams.offline (.inl rfl) _ hcur))
  | outageIdle => exact fun _ _ => .inl (.inl (hl'.streams.offline (.inl rfl) _ hcur))
  | restoreOpen =>
    refine hi.stream fun h => of_update h fun h => ?_
    rw [hl.streams.unused _ (Nat.le_refl _)] at h
    rcases h with h | h | h <;> cases h
  | hookLinkDown =>
    intro _ _
    cases hk : s.link with
    | true => exact .inr (.inl rfl)
    | false => exact .inl (.inl (hl.streams.offline (.inl hk) _ hcur))
  | dropStream => exact hi.stream fun h => of_update h fun h => h
  | _ => exact hi

theorem step_recalled {s s' : Transfer} {a : Act} (hi : Recalled s) (hh : Handed s) (hl : Living s)
    (h : s.step a = some s') : Recalled s' := by
  have hl' := step_living hl h
  cases a with
  | reader a => cases readerStep_cases h <;> exact hi
  | ticket a => cases ticketStep_cases h <;> exact hi
  | pump a => exact pump_recalled hi hh (pumpStep_cases h)
  | ack a => exact ack_recalled hi (ackStep_cases h)
  | link a => exact link_recalled hi hl hl' (linkStep_cases h)
  | down a =>
    cases downStep_cases h with
    | acceptConnect | acceptReconnect | acceptRefused | tcpAcceptFail | duplicate | gap | write | writeAck | writeFail =>
      exact hi.stream fun h => of_update h fun h => h
    | eof => exact hi.stream fun h => of_update h fun _ => .inr (.inr rfl)
    | dropStream => exact hi.stream fun h => of_update h fun _ => .inr (.inl rfl)
    | _ => exact hi

end Quelay.Agent.Transfer
