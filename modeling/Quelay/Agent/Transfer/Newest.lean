/-
  Quelay.Agent.Transfer.Newest — the downlink keeps the newest stream it was given, as long
  as its channel has room when that stream comes.

  `deliver_reconnect_stream` tries to put the stream into a channel of two, which the
  downlink empties only when the stream it reads has failed. While it waits for its client,
  or in a write to it, two more outages leave two dead streams there, and the live one that
  the third brings is dropped (`the_third_stream_is_dropped`). The newest stream is a ghost
  that the runs carry beside the state (`tracked`).
-/

import Quelay.Agent.Transfer.Life

namespace Quelay.Agent.Transfer

open Quelay.Lib

variable {s s' : Transfer} {sid : Nat}

/-! ## The newest stream -/

/-- The stream that the step hands to the downlink: the one that starts it, or one that
    `deliver_reconnect_stream` has no gap to complain of. -/
def delivers (s : Transfer) : Act → Option Nat
  | .down .accept =>
    match (s.streams s.nextAccept).up with
    | .connect :: _ => some s.nextAccept
    | .reconnect replayFrom :: _ =>
      if s.down.handle ∧ replayFrom ≤ s.down.bytesWritten then some s.nextAccept else none
    | _ => none
  | _ => none

/-- A step, and the stream delivered last. -/
def tracked (p : Transfer × Option Nat) (a : Act) : Option (Transfer × Option Nat) :=
  (p.1.step a).map fun s' => (s', (delivers p.1 a).or p.2)

/-- A stream that is delivered finds room. -/
def landsStream (p : Transfer × Option Nat) (a : Act) : Prop :=
  (delivers p.1 a).isSome = true → p.1.down.streamRx.length < downStreamSlots

instance (p : Transfer × Option Nat) (a : Act) : Decidable (landsStream p a) :=
  inferInstanceAs (Decidable (_ → _))

/-- The downlink is on the stream; it keeps it after the stream's error until it gets
    another, and after its last message until it has reported. -/
def OnStream (s : Transfer) (sid : Nat) : Prop :=
  s.down.pc = .tcpAccept sid ∨ s.down.pc = .reading sid ∨
    (s.down.pc = .waiting ∧ (s.streams sid).up = [] ∧ (s.streams sid).cut = true) ∨
    s.down.pc.reportsOn sid = true

/-- The stream is the last in the channel; or that is empty, and the downlink is on it. -/
def Newest (s : Transfer) (sid : Nat) : Prop :=
  s.down.streamRx.getLast? = some sid ∨ (s.down.streamRx = [] ∧ OnStream s sid)

/-! ## A stream that has been read to its error -/

theorem step_drained {a : Act} (hl : Streams s) (hd : (s.streams sid).up = [] ∧ (s.streams sid).cut = true)
    (h : s.step a = some s') : (s'.streams sid).up = [] ∧ (s'.streams sid).cut = true := by
  refine ⟨?_, step_cut hl hd.2 h⟩
  have hup : ∀ {i : Nat} {q' : QStream}, (s.streams i = s.streams sid → q'.up = []) →
      (Function.update s.streams i q' sid).up = [] := by
    intro i q' hq
    by_cases he : sid = i
    · subst he
      rw [Function.update_self]
      exact hq rfl
    · rw [Function.update_of_ne he]
      exact hd.1
  cases a with
  | reader a => cases readerStep_cases h <;> exact hd.1
  | ticket a => cases ticketStep_cases h <;> exact hd.1
  | pump a =>
    cases pumpStep_cases h with
    | linkUp | drainFin | postFin => exact hup fun he => by rw [he]; exact hd.1
    | write => exact hup fun he => by simp [QStream.write, he, hd.1, hd.2]
    | _ => exact hd.1
  | ack a =>
    cases ackStep_cases h with
    | readMsgClosed | readAck | readLast => exact hup fun he => by rw [he]; exact hd.1
    | _ => exact hd.1
  | link a =>
    cases linkStep_cases h with
    | outage => exact hup fun he => by simp [QStream.cutAt, he, hd.1]
    | restoreOpen =>
      refine hup fun he => ?_
      have hcut := hd.2
      rw [← he, hl.unused _ (Nat.le_refl _)] at hcut
      cases hcut
    | dropStream => exact hup fun he => by rw [he]; exact hd.1
    | _ => exact hd.1
  | down a =>
    cases downStep_cases h with
    | acceptConnect _ hu | acceptReconnect _ hu | acceptRefused _ hu | duplicate _ _ hu | gap _ _ hu | write _ _ hu
    | writeAck _ _ hu =>
      refine hup fun he => ?_
      rw [he, hd.1] at hu
      cases hu
    | tcpAcceptFail | writeFail | eof | dropStream => exact hup fun he => by rw [he]; exact hd.1
    | _ => exact hd.1

/-! ## One step -/

theorem Newest.frame (h : Newest s sid) (hdown : s'.down = s.down)
    (hstream : (s.streams sid).up = [] ∧ (s.streams sid).cut = true →
      (s'.streams sid).up = [] ∧ (s'.streams sid).cut = true) : Newest s' sid := by
  unfold Newest OnStream at *
  rw [hdown]
  refine h.imp_right fun hon => ⟨hon.1, ?_⟩
  exact hon.2.imp_right fun hr => hr.imp_right fun hr => hr.imp_left fun hw => ⟨hw.1, hstream hw.2⟩

/-- The downlink takes the first stream from its channel. -/
theorem Newest.take (h : Newest s sid) {next : Nat} {rest : List Nat} (hrx : s.down.streamRx = next :: rest) :
    rest.getLast? = some sid ∨ (rest = [] ∧ next = sid) := by
  rcases h with h | ⟨h, _⟩
  · rw [hrx] at h
    cases rest with
    | nil => exact .inr ⟨rfl, Option.some.inj h⟩
    | cons => exact .inl (by rwa [List.getLast?_cons_cons] at h)
  · rw [hrx] at h
    cases h

theorem down_newest {a : DownAct} (hn : Newest s sid) (hd : delivers s (.down a) = none) (hl : Streams s)
    (hst : s.step (.down a) = some s') (hx : s'.down.pc ≠ .exited) (h : DownCase s a s') : Newest s' sid := by
  have hdrained : (s.streams sid).up = [] ∧ (s.streams sid).cut = true →
      (s'.streams sid).up = [] ∧ (s'.streams sid).cut = true := fun hdr => step_drained hl hdr hst
  have haccepts : ∀ {k : Nat}, s.down.pc = .tcpAccept k → s.down.streamRx.getLast? = some sid ∨
      (s.down.streamRx = [] ∧ k = sid) := by
    intro k hpc
    refine hn.imp_right fun hon => ⟨hon.1, ?_⟩
    simpa [OnStream, hpc, DownPc.reportsOn] using hon.2
  have hreads : ∀ {k : Nat}, s.down.pc = .reading k → s.down.streamRx.getLast? = some sid ∨
      (s.down.streamRx = [] ∧ k = sid) := by
    intro k hpc
    refine hn.imp_right fun hon => ⟨hon.1, ?_⟩
    simpa [OnStream, hpc, DownPc.reportsOn] using hon.2
  have hreports : ∀ {k : Nat} {c : Callback}, s'.down.pc = .report k c → s'.down.streamRx = s.down.streamRx →
      (s.down.streamRx.getLast? = some sid ∨ (s.down.streamRx = [] ∧ k = sid)) → Newest s' sid := by
    intro k c hpc hrx hk
    unfold Newest
    rw [hrx]
    refine hk.imp_right fun hr => ⟨hr.1, .inr (.inr (.inr ?_))⟩
    rw [hpc, hr.2]
    exact beq_self_eq_true _
  cases h with
  | acceptConnect _ hu => simp [delivers, hu] at hd
  | acceptReconnect _ hu hh hle => simp [delivers, hu, hh, hle] at hd
  | acceptRefused | acceptSkip | dropStream => exact hn.frame rfl hdrained
  | start hpc hrx =>
    refine (hn.take hrx).imp_right fun hr => ⟨hr.1, .inl ?_⟩
    rw [hr.2]
  | tcpAccept hpc =>
    refine (haccepts hpc).imp_right fun hr => ⟨hr.1, .inr (.inl ?_)⟩
    rw [hr.2]
  | duplicate _ hpc | write _ hpc | writeAck _ hpc =>
    refine (hreads hpc).imp_right fun hr => ⟨hr.1, .inr (.inl ?_)⟩
    rw [← hr.2]
    exact hpc
  | readError hpc hu hc =>
    refine (hreads hpc).imp_right fun hr => ⟨hr.1, .inr (.inr (.inl ⟨rfl, ?_⟩))⟩
    rw [← hr.2]
    exact ⟨hu, hc⟩
  | resume hpc hrx =>
    refine (hn.take hrx).imp_right fun hr => ⟨hr.1, .inr (.inl ?_)⟩
    rw [hr.2]
  | dropHandle => exact hn
  | tcpAcceptFail hpc => exact hreports rfl rfl (haccepts hpc)
  | gap _ hpc | writeFail _ hpc | eof hpc => exact hreports rfl rfl (hreads hpc)
  | report | lost => exact absurd rfl hx

theorem step_newest {a : Act} (hn : Newest s sid) (hd : delivers s a = none) (hl : Streams s) (h : s.step a = some s')
    (hx : s'.down.pc ≠ .exited) : Newest s' sid := by
  have hdrained : (s.streams sid).up = [] ∧ (s.streams sid).cut = true →
      (s'.streams sid).up = [] ∧ (s'.streams sid).cut = true := fun hdr => step_drained hl hdr h
  cases a with
  | reader a => exact hn.frame (by cases readerStep_cases h <;> rfl) hdrained
  | ticket a => exact hn.frame (by cases ticketStep_cases h <;> rfl) hdrained
  | pump a => exact hn.frame (by cases pumpStep_cases h <;> rfl) hdrained
  | ack a => exact hn.frame (by cases ackStep_cases h <;> rfl) hdrained
  | link a => exact hn.frame (by cases linkStep_cases h <;> rfl) hdrained
  | down a => exact down_newest hn hd hl h hx (downStep_cases h)

/-- A stream that finds room is the last in the channel. -/
theorem newest_of_delivers {a : Act} (hd : delivers s a = some sid) (hroom : s.down.streamRx.length < downStreamSlots)
    (h : s.step a = some s') (hx : s'.down.pc ≠ .exited) : Newest s' sid := by
  cases a with
  | down a =>
    have hc : DownCase s a s' := downStep_cases h
    cases hc with
    | acceptConnect _ hu =>
      simp only [delivers, hu, Option.some.injEq] at hd
      subst hd
      exact .inl rfl
    | acceptReconnect _ hu hh hle =>
      simp only [delivers, hu, hh, hle, and_self, if_true, Option.some.injEq] at hd
      subst hd
      exact .inl (by simp)
    | acceptRefused _ hu hwhy =>
      simp only [delivers, hu] at hd
      split at hd
      · rename_i hok
        rcases hwhy with hh | hlt | hexit | hfull
        · rw [hok.1] at hh; cases hh
        · omega
        · exact absurd hexit hx
        · omega
      · cases hd
    | _ => cases hd
  | _ => cases hd

/-! ## The order of the streams -/

def mine : DownPc → List Nat
  | .tcpAccept sid | .reading sid => [sid]
  | _ => []

/-- The downlink takes its streams in the order in which they came, and their headers have
    been read. -/
structure ArrivedOf (streams : Nat → QStream) (down : Downlink) : Prop where
  idle : down.pc = .absent → down.streamRx = [] ∧ down.handle = false
  order : down.pc.ended = false → (mine down.pc ++ down.streamRx).Pairwise (· < ·)
  headless : ∀ sid, Holding down sid → headed (streams sid).up = false

def Arrived (s : Transfer) : Prop := ArrivedOf s.streams s.down

variable {streams : Nat → QStream} {down : Downlink}

theorem ArrivedOf.update (hi : ArrivedOf streams down) (i : Nat) {q' : QStream}
    (hq : headed (streams i).up = false → headed q'.up = false) : ArrivedOf (Function.update streams i q') down :=
  ⟨hi.idle, hi.order, fun sid hh => of_update (P := fun q => headed q.up = false) (hi.headless sid hh) hq⟩

theorem holding_iff (hx : down.pc.ended = false) : Holding down sid ↔ sid ∈ mine down.pc ++ down.streamRx := by
  unfold Holding
  cases hpc : down.pc with
  | report | exited => rw [hpc] at hx; cases hx
  | absent | spawned | waiting => simp [mine, DownPc.ended]
  | tcpAccept k | reading k => simp [mine, DownPc.ended, eq_comm]

/-- The downlink moves, and takes no stream that it did not have. -/
theorem ArrivedOf.move (hi : ArrivedOf streams down) {down' : Downlink} (hx : down.pc.ended = false)
    (hidle : down'.pc ≠ .absent) (hsub : (mine down'.pc ++ down'.streamRx).Sublist (mine down.pc ++ down.streamRx)) :
    ArrivedOf streams down' := by
  refine ⟨fun h => absurd h hidle, fun _ => (hi.order hx).sublist hsub, fun sid hh => hi.headless sid ?_⟩
  exact (holding_iff hx).mpr (hsub.mem ((holding_iff hh.1).mp hh))

theorem ArrivedOf.same (hi : ArrivedOf streams down) {down' : Downlink} (hpc : down'.pc = down.pc)
    (hrx : down'.streamRx = down.streamRx) (hh : down.handle = false → down'.handle = false) : ArrivedOf streams down' := by
  refine ⟨?_, ?_, ?_⟩
  · rw [hpc, hrx]
    exact fun h => ⟨(hi.idle h).1, hh (hi.idle h).2⟩
  · rw [hpc, hrx]
    exact hi.order
  · unfold Holding
    rw [hpc, hrx]
    exact hi.headless

theorem ArrivedOf.ended {down' : Downlink} (hx : down'.pc.ended = true) : ArrivedOf streams down' := by
  refine ⟨fun h => ?_, fun h => ?_, fun _ hh => absurd hx (Bool.eq_false_iff.mp hh.1)⟩
  · rw [h] at hx
    cases hx
  · exact absurd hx (Bool.eq_false_iff.mp h)

theorem init_arrived (capped : Bool) : Arrived (init capped) :=
  ⟨fun _ => ⟨rfl, rfl⟩, fun _ => List.Pairwise.nil, fun sid hh => by rcases hh.2 with h | h | h <;> cases h⟩

/-- The next stream is accepted behind the others. -/
theorem ArrivedOf.deliver {opened nextAccept : Nat} {q' : QStream} (hi : ArrivedOf streams down)
    (hr : ReceiverOf streams opened nextAccept down) (hx : down.pc.ended = false) (ha : down.pc ≠ .absent)
    (hq : headed q'.up = false) :
    ArrivedOf (Function.update streams nextAccept q') { down with streamRx := down.streamRx ++ [nextAccept] } := by
  refine ⟨fun h => absurd h ha, fun _ => ?_, fun sid hh => ?_⟩
  · show (mine down.pc ++ (down.streamRx ++ [nextAccept])).Pairwise (· < ·)
    rw [← List.append_assoc, List.pairwise_append]
    refine ⟨hi.order hx, List.pairwise_singleton _ _, fun sid hmem n hn => ?_⟩
    rw [List.mem_singleton.mp hn]
    exact hr.holding sid ((holding_iff hx).mpr hmem)
  · by_cases he : sid = nextAccept
    · subst he
      rwa [Function.update_self]
    · rw [Function.update_of_ne he]
      refine hi.headless sid ⟨hx, hh.2.imp_right fun h => h.imp_right fun hmem => ?_⟩
      exact (List.mem_append.mp hmem).resolve_right fun h => he (List.mem_singleton.mp h)

theorem down_arrived {a : DownAct} (hi : Arrived s) (hl : Living s) (h : DownCase s a s') : Arrived s' := by
  have hrest : ∀ {k : Nat} {f : UpFrame} {rest : List UpFrame}, (s.streams k).up = f :: rest → headed rest = false :=
    fun hu => (hl.sound.bytes.streamOk _).rest hu
  cases h with
  | acceptConnect _ hu =>
    refine ⟨nofun, fun _ => List.pairwise_singleton _ _, fun sid hh => ?_⟩
    have he : sid = s.nextAccept := by
      rcases hh.2 with h | h | h
      · cases h
      · cases h
      · exact List.mem_singleton.mp h
    subst he
    show headed (Function.update s.streams s.nextAccept _ s.nextAccept).up = false
    rw [Function.update_self]
    exact hrest hu
  | acceptReconnect _ hu hh =>
    cases hx : s.down.pc.ended with
    | true => exact .ended hx
    | false =>
      refine ArrivedOf.deliver hi hl.receiver hx (fun ha => ?_) (hrest hu)
      rw [(hi.idle ha).2] at hh
      cases hh
  | acceptRefused _ hu => exact hi.update _ fun _ => hrest hu
  | duplicate _ _ hu => exact hi.update _ fun _ => hrest hu
  | @write k _ _ rest _ _ hu =>
    have hpopped : ArrivedOf (Function.update s.streams k { s.streams k with up := rest }) s.down :=
      hi.update _ fun _ => hrest hu
    exact hpopped.same rfl rfl fun h => h
  | @writeAck k _ _ rest _ _ hu =>
    refine ArrivedOf.same (ArrivedOf.update hi k fun _ => ?_) rfl rfl fun h => h
    exact hrest hu
  | start hpc hrx | resume hpc hrx =>
    refine hi.move (by rw [hpc]; rfl) (by simp) ?_
    rw [hpc, hrx]
    exact List.Sublist.refl _
  | tcpAccept hpc =>
    refine hi.move (by rw [hpc]; rfl) (by simp) ?_
    rw [hpc]
    exact List.Sublist.refl _
  | readError hpc =>
    refine hi.move (by rw [hpc]; rfl) (by simp) ?_
    rw [hpc]
    exact List.sublist_cons_self _ _
  | tcpAcceptFail | gap | writeFail | eof | report | lost => exact .ended rfl
  | dropHandle => exact hi.same rfl rfl fun _ => rfl
  | dropStream => exact hi.update _ fun h => h
  | acceptSkip => exact hi

theorem step_arrived {a : Act} (hi : Arrived s) (hl : Living s) (h : s.step a = some s') : Arrived s' := by
  cases a with
  | reader a => cases readerStep_cases h <;> exact hi
  | ticket a => cases ticketStep_cases h <;> exact hi
  | pump a =>
    cases pumpStep_cases h with
    | linkUp | drainFin | postFin => exact hi.update _ fun h => h
    | @write remaining chunk hpc =>
      refine hi.update _ fun h => ?_
      show headed (if (s.streams s.pump.quicTx).cut then _ else _) = false
      split
      · exact h
      · exact not_headed_snoc h _ _
    | _ => exact hi
  | ack a =>
    cases ackStep_cases h with
    | readMsgClosed | readAck | readLast => exact hi.update _ fun h => h
    | _ => exact hi
  | link a =>
    cases linkStep_cases h with
    | outage up => exact hi.update _ fun h => not_headed_take h up
    | restoreOpen =>
      refine ⟨hi.idle, hi.order, fun sid hh => ?_⟩
      have hlt := hl.receiver.holding sid hh
      have hle := hl.receiver.accepted
      show headed (Function.update s.streams s.opened _ sid).up = false
      rw [Function.update_of_ne (by omega)]
      exact hi.headless sid hh
    | dropStream => exact hi.update _ fun h => h
    | _ => exact hi
  | down a => exact down_arrived hi hl (downStep_cases h)

/-! ## The downlink comes to its newest stream -/

/-- What `run_downlink` does when its client is there and takes what it is given. -/
def goesOn (_ : Transfer) : Act → Prop
  | .down .start | .down .tcpAccept | .down (.chunk _) | .down .readError | .down .resume | .down .report => True
  | _ => False

theorem delivers_of_goesOn {a : Act} (h : goesOn s a) : delivers s a = none := by
  unfold goesOn at h
  unfold delivers
  split at h
  all_goals first | rfl | cases h

/-- A downlink that has written its last message reports, and returns. -/
theorem reports_and_exits {t : Transfer} (hr : Reach step goesOn s t) (hx : t.down.pc.ended = true) :
    ∃ s', Reach step goesOn s s' ∧ s'.down.pc = .exited := by
  cases hpc : t.down.pc with
  | exited => exact ⟨t, hr, hpc⟩
  | report k c =>
    have hs : t.step (.down .report) =
        some { t with down := { t.down with pc := .exited }, downCallbacks := t.downCallbacks ++ [c] } := by
      simp only [step, downStep, hpc]
    exact ⟨_, .step (.down .report) hr trivial hs, rfl⟩
  | _ => rw [hpc] at hx; cases hx

/-- The downlink reads what a cut stream has left, and its error. -/
theorem reads_to_error {k : Nat} : ∀ n (s : Transfer), Living s → Arrived s → s.down.pc = .reading k →
    (s.streams k).cut = true → (s.streams k).up.length = n →
    ∃ s', Reach step goesOn s s' ∧ (s'.down.pc = .exited ∨ (s'.down.pc = .waiting ∧ s'.down.streamRx = s.down.streamRx))
  | 0, s, _, _, hpc, hcut, hn => by
    have hup : (s.streams k).up = [] := List.length_eq_zero_iff.mp hn
    have hs : s.step (.down .readError) = some { s with down := { s.down with pc := .waiting } } := by
      simp only [step, downStep, hpc, hup, hcut, and_self, if_true]
    exact ⟨_, .step (.down .readError) .init trivial hs, .inr ⟨rfl, rfl⟩⟩
  | n + 1, s, hl, hq, hpc, hcut, hn => by
    have hheadless := hq.headless k ⟨by rw [hpc]; rfl, .inr (.inl hpc)⟩
    cases hup : (s.streams k).up with
    | nil => rw [hup] at hn; cases hn
    | cons f rest =>
      rw [hup] at hn hheadless
      cases f with
      | connect | reconnect => cases hheadless
      | chunk offset payload =>
        obtain ⟨s₁, hs₁⟩ : ∃ s₁, s.step (.down (.chunk false)) = some s₁ := by
          simp only [step, downStep, hpc, hup]
          split
          · exact ⟨_, rfl⟩
          · split <;> exact ⟨_, rfl⟩
        have hc : DownCase s (.chunk false) s₁ := downStep_cases hs₁
        have hnext : s₁.down.pc.ended = true ∨
            (s₁.down.pc = .reading k ∧ s₁.down.streamRx = s.down.streamRx ∧ (s₁.streams k).up = rest) := by
          cases hc with
          | gap => exact .inl rfl
          | duplicate _ hpc' hu | write _ hpc' hu | writeAck _ hpc' hu =>
            rw [hpc] at hpc'
            cases hpc'
            rw [hup] at hu
            cases hu
            exact .inr ⟨hpc, rfl, by simp [written, QStream.writeMsg]⟩
        have hgo : Reach step goesOn s s₁ := .step (.down (.chunk false)) .init trivial hs₁
        rcases hnext with hend | ⟨hpc₁, hrx, hup₁⟩
        · obtain ⟨s', hr, hexit⟩ := reports_and_exits hgo hend
          exact ⟨s', hr, .inl hexit⟩
        · obtain ⟨s', hr, hend⟩ := reads_to_error n s₁ (step_living hl hs₁) (step_arrived hq hl hs₁) hpc₁
            (step_cut hl.streams hcut hs₁) (by rw [hup₁]; simpa using hn)
          exact ⟨s', hgo.trans hr, hrx ▸ hend⟩

/-- What the runs keep. -/
structure Current (s : Transfer) : Prop where
  living : Living s
  arrived : Arrived s

theorem step_current {a : Act} (hi : Current s) (h : s.step a = some s') : Current s' :=
  ⟨step_living hi.living h, step_arrived hi.arrived hi.living h⟩

/-- Every stream but the newest is cut. -/
theorem Current.older_cut (hi : Current s) {j k : Nat} {rest : List Nat} (hx : s.down.pc.ended = false)
    (hmine : j ∈ mine s.down.pc) (hrx : s.down.streamRx = k :: rest) : (s.streams j).cut = true := by
  have hlt : j < k := by
    have horder := (List.pairwise_append.mp (hi.arrived.order hx)).2.2
    exact horder j hmine k (by rw [hrx]; exact List.mem_cons_self)
  have hk := hi.living.receiver.holding k ⟨hx, .inr (.inr (by rw [hrx]; exact List.mem_cons_self))⟩
  have := hi.living.receiver.accepted
  exact hi.living.streams.older j (by omega)

/-- A downlink with a stream in its channel comes to take it, or ends. -/
theorem takes_next (hi : Current s) {k : Nat} {rest : List Nat} (hrx : s.down.streamRx = k :: rest) :
    ∃ s', Reach step goesOn s s' ∧ (s'.down.pc = .exited ∨ s'.down.streamRx = rest) := by
  -- From the wait for a stream it is one step.
  have hresume : ∀ {t : Transfer}, Reach step goesOn s t → t.down.pc = .waiting → t.down.streamRx = k :: rest →
      ∃ s', Reach step goesOn s s' ∧ (s'.down.pc = .exited ∨ s'.down.streamRx = rest) := by
    intro t hr hpc hrx
    have hs : t.step (.down .resume) =
        some { t with down := { t.down with pc := .reading k, streamRx := rest } } := by
      simp only [step, downStep, hpc, hrx]
    exact ⟨_, .step (.down .resume) hr trivial hs, .inr rfl⟩
  have hread : ∀ {t : Transfer} {j : Nat}, Reach step goesOn s t → t.down.pc = .reading j → t.down.streamRx = k :: rest →
      ∃ s', Reach step goesOn s s' ∧ (s'.down.pc = .exited ∨ s'.down.streamRx = rest) := by
    intro t j hr hpc hrx
    have ht : Current t := hr.invariant hi fun hi _ hs => step_current hi hs
    have hcut := ht.older_cut (by rw [hpc]; rfl) (by rw [hpc]; exact List.mem_cons_self) hrx
    obtain ⟨s', hr', hend⟩ := reads_to_error _ t ht.living ht.arrived hpc hcut rfl
    rcases hend with hexit | ⟨hpc', hrx'⟩
    · exact ⟨s', hr.trans hr', .inl hexit⟩
    · exact hresume (hr.trans hr') hpc' (hrx'.trans hrx)
  cases hpc : s.down.pc with
  | report | exited =>
    obtain ⟨s', hr, hexit⟩ := reports_and_exits (t := s) .init (by rw [hpc]; rfl)
    exact ⟨s', hr, .inl hexit⟩
  | absent =>
    rw [(hi.arrived.idle hpc).1] at hrx
    cases hrx
  | spawned =>
    have hs : s.step (.down .start) = some { s with down := { s.down with pc := .tcpAccept k, streamRx := rest } } := by
      simp only [step, downStep, hpc, hrx]
    exact ⟨_, .step (.down .start) .init trivial hs, .inr rfl⟩
  | tcpAccept j =>
    have hs : s.step (.down .tcpAccept) =
        some { s with down := { s.down with pc := .reading j, lastAcked := s.down.bytesWritten } } := by
      simp only [step, downStep, hpc]
    exact hread (.step (.down .tcpAccept) .init trivial hs) rfl hrx
  | reading j => exact hread .init hpc hrx
  | waiting => exact hresume .init hpc hrx

theorem comes_to_newest : ∀ n (s : Transfer), Current s → Newest s sid → s.down.pc ≠ .exited →
    s.down.streamRx.length = n → ∃ s', Reach step goesOn s s' ∧ (s'.down.pc = .exited ∨ OnStream s' sid)
  | 0, s, _, hn, _, hlen => by
    rcases hn with hn | ⟨_, hon⟩
    · rw [List.length_eq_zero_iff.mp hlen] at hn
      cases hn
    · exact ⟨s, .init, .inr hon⟩
  | n + 1, s, hi, hn, hx, hlen => by
    cases hrx : s.down.streamRx with
    | nil => rw [hrx] at hlen; cases hlen
    | cons k rest =>
      rw [hrx] at hlen
      obtain ⟨t, hr, hend⟩ := takes_next hi hrx
      by_cases hexit : t.down.pc = .exited
      · exact ⟨t, hr, .inl hexit⟩
      · have ht : Current t ∧ (t.down.pc ≠ .exited → Newest t sid) := by
          refine hr.invariant (P := fun t => Current t ∧ (t.down.pc ≠ .exited → Newest t sid)) ⟨hi, fun _ => hn⟩ ?_
          intro s₁ s₂ a hi₁ hgo hs
          refine ⟨step_current hi₁.1 hs, fun hx₂ => ?_⟩
          have hx₁ : s₁.down.pc ≠ .exited := fun h => hx₂ (down_exited_stays hi₁.1.living.sound.connect h hs)
          exact step_newest (hi₁.2 hx₁) (delivers_of_goesOn hgo) hi₁.1.living.streams hs hx₂
        obtain ⟨s', hr', hon⟩ := comes_to_newest n t ht.1 (ht.2 hexit) hexit (by
          rw [hend.resolve_left hexit]
          simpa using hlen)
        exact ⟨s', hr.trans hr', hon⟩

/-! ## Every run -/

/-- The stream delivered last is in the downlink's channel, or the downlink is on it; and
    with its client there the downlink comes to it, or ends. -/
theorem newest_stream_kept {capped : Bool} (h : Reach tracked landsStream (init capped, none) (s, some sid))
    (hx : s.down.pc ≠ .exited) :
    Newest s sid ∧ ∃ s', Reach step goesOn s s' ∧ (s'.down.pc = .exited ∨ OnStream s' sid) := by
  have hinv : Current s ∧ ∀ sid', some sid = some sid' → s.down.pc ≠ .exited → Newest s sid' := by
    refine h.invariant (P := fun p => Current p.1 ∧ ∀ sid', p.2 = some sid' → p.1.down.pc ≠ .exited → Newest p.1 sid')
      ⟨⟨init_living capped, init_arrived capped⟩, fun _ h => by cases h⟩ ?_
    rintro ⟨s₁, n₁⟩ ⟨s₂, n₂⟩ a ⟨hi, hn⟩ hok htracked
    obtain ⟨t, hs, he⟩ := Option.map_eq_some_iff.mp htracked
    obtain ⟨rfl, rfl⟩ := Prod.mk.inj he
    refine ⟨step_current hi hs, fun sid' hsid hx => ?_⟩
    have hx₁ : s₁.down.pc ≠ .exited := fun h => hx (down_exited_stays hi.living.sound.connect h hs)
    cases hd : delivers s₁ a with
    | none =>
      have hsid : (delivers s₁ a).or n₁ = some sid' := hsid
      rw [hd] at hsid
      exact step_newest (hn sid' hsid hx₁) hd hi.living.streams hs hx
    | some k =>
      have hsid : (delivers s₁ a).or n₁ = some sid' := hsid
      rw [hd] at hsid
      cases hsid
      have hroom : s₁.down.streamRx.length < downStreamSlots := hok (by rw [hd]; rfl)
      exact newest_of_delivers hd hroom hs hx
  have hn := hinv.2 sid rfl hx
  exact ⟨hn, comes_to_newest _ s hinv.1 hn hx rfl⟩

/-- The link fails, and the next session brings the uplink and the downlink a stream. -/
def flap : List Act :=
  [.link (.outage 0 0), .link .reconnect, .link .restoreRead, .link .restoreOpen, .link .restoreDeliver, .down .accept]

/-- An outage while the downlink waits for its client: the new stream waits in the channel. -/
theorem second_stream_waits :
    ∃ s, Reach tracked landsStream (init true, none) (s, some 1) ∧ s.down.pc = .tcpAccept 0 ∧ Newest s 1 ∧
      ∃ s', Reach step goesOn s s' ∧ (s'.down.pc = .exited ∨ OnStream s' 1) := by
  obtain ⟨⟨s, newest⟩, hr, hp⟩ := Reach.exists_run tracked landsStream (init true, none)
    [[.down .accept, .down .start], flap].flatten (fun p => p.2 = some 1 ∧ p.1.down.pc = .tcpAccept 0) (by decide +kernel)
  obtain ⟨hnewest, hpc⟩ := of_decide_eq_true hp
  cases hnewest
  exact ⟨s, hr, hpc, newest_stream_kept hr (by rw [hpc]; simp)⟩

/-- Three outages while the downlink waits for its client: two dead streams fill its
    channel, and the live one is dropped. -/
theorem the_third_stream_is_dropped :
    ∃ s, Reach tracked anyStep (init true, none) (s, some 3) ∧ s.down.pc ≠ .exited ∧ ¬ Newest s 3 ∧
      s.down.pc = .tcpAccept 0 ∧ s.down.streamRx = [1, 2] ∧ (s.streams 1).cut = true ∧ (s.streams 2).cut = true ∧
      (s.streams 3).cut = false := by
  obtain ⟨⟨s, newest⟩, hr, hp⟩ := Reach.exists_run tracked anyStep (init true, none)
    [[.down .accept, .down .start], flap, flap, flap].flatten
    (fun p => p.2 = some 3 ∧ p.1.down.pc = .tcpAccept 0 ∧ p.1.down.streamRx = [1, 2] ∧ (p.1.streams 1).cut = true ∧
      (p.1.streams 2).cut = true ∧ (p.1.streams 3).cut = false) (by decide +kernel)
  obtain ⟨hnewest, hpc, hrx, hcuts⟩ := of_decide_eq_true hp
  cases hnewest
  refine ⟨s, hr, by rw [hpc]; simp, fun hn => ?_, hpc, hrx, hcuts⟩
  rcases hn with hn | ⟨hn, _⟩
  · rw [hrx] at hn
    cases hn
  · rw [hrx] at hn
    cases hn

end Quelay.Agent.Transfer
