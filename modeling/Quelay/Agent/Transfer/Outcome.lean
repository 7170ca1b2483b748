/-
  Quelay.Agent.Transfer.Outcome — what the two agents report about a stream.

  The receiving agent takes a FIN for the end of the transfer: it writes `Done`, and then
  fires `StreamDone`. A FIN is the pump's, sent once everything is sent; or the
  transport's, sent when the sender drops a live stream. If the sender drops no live
  stream that the receiver may still read before it has finished it, never sees a read
  error, and does not give the uplink up between the FIN and the report, then `StreamDone`
  is reported only for a whole transfer (`done_only_if_whole`). A read error is reported
  as a failure and then ends the stream like a clean EOF (`truncated_done`).

  The sending agent reports the end of a stream from two tasks. The TCP reader reports
  its own errors and lets the stream go on, so that the ack task reports another end
  (`two_terminals`); and the ack task returns without a report when the pump is gone.
  With those excluded, exactly one end is reported, and it is the receiver's
  (`one_terminal_callback`).
-/

import Quelay.Agent.Transfer.Life

namespace Quelay.Agent.Transfer

open Quelay.Lib

variable {sid : Nat}

/-! ## Where a FIN comes from -/

/-- The pump's FIN: it has sent everything on the stream. -/
def pumpFin (pump : StreamPump) (sid : Nat) : Prop := sid = pump.quicTx ∧ pump.done = true

theorem step_pumpFin {s s' : Transfer} {a : Act} (hi : pumpFin s.pump sid) (hf : Finished s) (h : s.step a = some s') :
    pumpFin s'.pump sid := by
  have hpc := (hf hi.2).1
  cases a with
  | reader a => cases readerStep_cases h <;> exact hi
  | ticket a => cases ticketStep_cases h <;> exact hi
  | pump a =>
    cases pumpStep_cases h with
    | postFin => exact ⟨hi.1, rfl⟩
    | linkUp hk => rw [hk] at hpc; simp at hpc
    | drainFin => exact ⟨hi.1, rfl⟩
    | _ => exact hi
  | ack a => cases ackStep_cases h <;> exact hi
  | link a => cases linkStep_cases h <;> exact hi
  | down a => cases downStep_cases h <;> exact hi

theorem upFin_cases {s s' : Transfer} {a : Act} {i : Nat} (h : s.step a = some s') (hf : (s'.streams i).upFin = true) :
    (s.streams i).upFin = true ∨ (pumpFin s'.pump i ∧ s.pump.pc ≠ .exited) ∨ a = .link (.dropStream i) := by
  have update : ∀ {sid : Nat} {q' : QStream}, (Function.update s.streams sid q' i).upFin = true →
      (q'.upFin = true → (s.streams sid).upFin = true) → (s.streams i).upFin = true := by
    intro sid q' hu hq
    by_cases he : i = sid
    · subst he
      rw [Function.update_self] at hu
      exact hq hu
    · rwa [Function.update_of_ne he] at hu
  cases a with
  | reader a => cases readerStep_cases h <;> exact .inl hf
  | ticket a => cases ticketStep_cases h <;> exact .inl hf
  | pump a =>
    cases pumpStep_cases h with
    | linkUp | write => exact .inl (update hf fun h => h)
    | drainFin _ hpc | postFin hpc =>
      by_cases he : i = s.pump.quicTx
      · exact .inr (.inl ⟨⟨he, rfl⟩, by rw [hpc]; simp⟩)
      · refine .inl ?_
        have hf : (Function.update s.streams s.pump.quicTx _ i).upFin = true := hf
        rwa [Function.update_of_ne he] at hf
    | _ => exact .inl hf
  | ack a =>
    cases ackStep_cases h with
    | readMsgClosed | readAck | readLast => exact .inl (update hf fun h => h)
    | _ => exact .inl hf
  | link a =>
    cases linkStep_cases h with
    | outage => exact .inl (update hf fun h => h)
    | restoreOpen => exact .inl (update hf nofun)
    | dropStream sid =>
      by_cases he : i = sid
      · exact .inr (.inr (by rw [he]))
      · refine .inl ?_
        have hf : (Function.update s.streams sid _ i).upFin = true := hf
        rwa [Function.update_of_ne he] at hf
    | _ => exact .inl hf
  | down a =>
    cases downStep_cases h with
    | acceptConnect | acceptReconnect | acceptRefused | tcpAcceptFail | duplicate | gap | write | writeAck | writeFail
    | eof | dropStream => exact .inl (update hf fun h => h)
    | _ => exact .inl hf

/-- The receiver cannot read the stream to a clean end any more. -/
def Closed (s : Transfer) (sid : Nat) : Prop := (s.streams sid).cut = true ∨ Released s.nextAccept s.down sid

instance (s : Transfer) (sid : Nat) : Decidable (Closed s sid) := inferInstanceAs (Decidable (_ ∨ _))

theorem step_closed {s s' : Transfer} {a : Act} (hi : Closed s sid) (hl : Streams s) (h : s.step a = some s') :
    Closed s' sid :=
  hi.imp (fun hc => step_cut hl hc h) fun hr => released_stays hr h

/-- `run_downlink` reads a FIN on an open stream. -/
theorem not_closed_of_eof {s s' : Transfer} (h : DownCase s .eof s') :
    ∃ sid, s.down.pc = .reading sid ∧ (s.streams sid).up = [] ∧ (s.streams sid).upFin = true ∧ ¬ Closed s sid := by
  cases h with
  | @eof sid hpc hup hf hc =>
    refine ⟨sid, hpc, hup, hf, fun h => ?_⟩
    rcases h with h | h
    · rw [hc] at h
      cases h
    · exact h.2 ⟨by rw [hpc]; rfl, .inr (.inl hpc)⟩

/-! ## Success is reported for whole transfers -/

/-- The sending client's socket gives no read error, and the sender drops no live stream
    before it has finished it, unless the receiver is done with the stream. -/
def wholeStreams (s : Transfer) : Act → Prop
  | .reader .readFail => False
  | .link (.dropStream sid) => (s.streams sid).upFin = true ∨ Closed s sid
  | _ => True

instance (s : Transfer) (a : Act) : Decidable (wholeStreams s a) := by
  unfold wholeStreams
  split <;> infer_instance

/-- Every FIN that the receiver can read is the pump's. -/
def Ends (s : Transfer) : Prop := ∀ sid, (s.streams sid).upFin = true → Closed s sid ∨ pumpFin s.pump sid

theorem init_ends (capped : Bool) : Ends (init capped) := by
  intro sid h
  rw [init_streams] at h
  split at h <;> cases h

theorem step_ends {s s' : Transfer} {a : Act} (hi : Ends s) (hl : Living s) (hok : wholeStreams s a)
    (h : s.step a = some s') : Ends s' := by
  have keep : ∀ {sid : Nat}, Closed s sid ∨ pumpFin s.pump sid → Closed s' sid ∨ pumpFin s'.pump sid :=
    fun h' => h'.imp (step_closed · hl.streams h) (step_pumpFin · hl.sound.finished h)
  intro sid hf
  rcases upFin_cases h hf with hf | ⟨hp, _⟩ | rfl
  · exact keep (hi sid hf)
  · exact .inr hp
  · rcases hok with hf | hc
    · exact keep (hi sid hf)
    · exact keep (.inl hc)

/-- What the client wrote is in the spool or still in the socket, and the sentinel stands
    for the client's own EOF. -/
structure CleanOf (wrote pushed sock : List UInt8) (closed cleanEof atEof : Bool) (reader : ReaderPc) : Prop where
  split : wrote = pushed ++ sock
  read : cleanEof = true → sock = [] ∧ closed = true
  marked : atEof = true → cleanEof = true
  reader : reader ≠ .failed

def Clean (s : Transfer) : Prop := CleanOf s.wrote s.pushed s.sock s.closed s.cleanEof s.spool.atEof s.reader

theorem init_clean (capped : Bool) : Clean (init capped) := ⟨rfl, nofun, nofun, nofun⟩

theorem step_clean {s s' : Transfer} {a : Act} (hi : Clean s) (hok : wholeStreams s a) (h : s.step a = some s') :
    Clean s' := by
  cases a with
  | reader a =>
    cases readerStep_cases h with
    | clientWrite data hc =>
      refine ⟨by rw [hi.split, List.append_assoc], fun hx => ?_, hi.marked, hi.reader⟩
      have := (hi.read hx).2
      rw [hc] at this
      cases this
    | clientClose => exact ⟨hi.split, fun hx => ⟨(hi.read hx).1, rfl⟩, hi.marked, hi.reader⟩
    | read n hr =>
      refine ⟨?_, fun hx => ?_, fun hx => ?_, nofun⟩
      · rw [List.append_assoc, List.take_append_drop]
        exact hi.split
      · obtain ⟨hs, hc⟩ := hi.read hx
        exact ⟨by rw [hs, List.drop_nil], hc⟩
      · rw [atEof_push] at hx
        exact hi.marked hx
    | eof hr hs hc => exact ⟨hi.split, fun _ => ⟨hs, hc⟩, fun _ => rfl, nofun⟩
    | eofAgain hr hs hc => exact ⟨hi.split, fun _ => ⟨hs, hc⟩, fun _ => rfl, nofun⟩
    | readFail => exact absurd hok id
    | failedEof hr | failedEofAgain hr => exact absurd hr hi.reader
    | @notify last hr => exact ⟨hi.split, hi.read, hi.marked, by cases last <;> simp⟩
    | _ => exact ⟨hi.split, hi.read, hi.marked, nofun⟩
  | ticket a => cases ticketStep_cases h <;> exact hi
  | pump a => cases pumpStep_cases h <;> exact hi
  | ack a =>
    cases ackStep_cases h with
    | ackNew | ackOld => exact ⟨hi.split, hi.read, fun hx => hi.marked (by rwa [atEof_ack] at hx), hi.reader⟩
    | _ => exact hi
  | link a => cases linkStep_cases h <;> exact hi
  | down a => cases downStep_cases h <;> exact hi

/-- The sending agent has reported a failure. -/
def Failed (callbacks : List Callback) : Prop := ∃ f, .failed f ∈ callbacks

/-- A failure is reported of a transfer that will not complete: the client never
    connected, or the ack task ended after the downlink or with its stream. -/
def Hopeless (s : Transfer) : Prop :=
  (s.reader = .exited ∧ s.spool.atEof = false) ∨
    (s.ack = .exited ∧ (s.down.pc.ended = true ∨ (s.streams s.current).downEnded = true))

theorem step_hopeless {s s' : Transfer} {a : Act} (hi : Hopeless s) (hl : Living s) (h : s.step a = some s') :
    Hopeless s' := by
  rcases hi with ⟨hr, he⟩ | ⟨hx, hend⟩
  · left
    cases a with
    | reader a => cases readerStep_cases h <;> first | exact ⟨hr, he⟩ | simp_all
    | ticket a => cases ticketStep_cases h <;> exact ⟨hr, he⟩
    | pump a => cases pumpStep_cases h <;> exact ⟨hr, he⟩
    | ack a =>
      cases ackStep_cases h with
      | ackNew | ackOld => exact ⟨hr, (atEof_ack ..).trans he⟩
      | _ => exact ⟨hr, he⟩
    | link a => cases linkStep_cases h <;> exact ⟨hr, he⟩
    | down a => cases downStep_cases h <;> exact ⟨hr, he⟩
  · obtain ⟨hx', hcur⟩ := ack_exited_stays hx h
    refine .inr ⟨hx', hend.imp (down_ended_stays hl.sound.connect · h) fun he => ?_⟩
    rw [hcur]
    exact step_ended hl.receiver hl.sound.lane.currentLt he h

theorem failed_append {callbacks : List Callback} {c : Callback} (h : Failed (callbacks ++ [c])) (hc : ∀ f, c ≠ .failed f) :
    Failed callbacks := by
  obtain ⟨f, hf⟩ := h
  rcases List.mem_append.mp hf with hf | hf
  · exact ⟨f, hf⟩
  · exact absurd (List.mem_singleton.mp hf).symm (hc f)

/-- The steps that report a failure where reads do not fail. -/
inductive Fails (s s' : Transfer) : Act → Prop
  | accept : s.spool.atEof = false → s'.reader = .exited → s'.spool.atEof = false → Fails s s' (.reader .acceptFail)
  | error : ¬ Completed s.downReports → s'.ack = .exited → s'.down.pc.ended = true → Fails s s' (.ack .msg)
  | noStream : s'.ack = .exited → (s'.streams s'.current).downEnded = true → Fails s s' (.ack .noStream)

theorem failed_cases {s s' : Transfer} {a : Act} (hl : Living s) (hok : wholeStreams s a) (h : s.step a = some s')
    (hf : Failed s'.callbacks) : Failed s.callbacks ∨ Fails s s' a := by
  cases a with
  | reader a =>
    cases readerStep_cases h with
    | acceptFail hr =>
      have he := hl.sound.notMarked (by rw [hr]; rfl)
      exact .inr (.accept he rfl he)
    | readFail => exact absurd hok id
    | _ => exact .inl hf
  | ticket a => cases ticketStep_cases h <;> exact .inl hf
  | pump a => cases pumpStep_cases h <;> exact .inl hf
  | ack a =>
    cases ackStep_cases h with
    | done => exact .inl (failed_append hf (by simp))
    | space progress =>
      refine .inl ?_
      cases progress with
      | true => exact failed_append hf (by simp)
      | false => exact hf
    | @error f _ _ hrx =>
      obtain ⟨hend, hnot⟩ := hl.lastWord.inbox (.error f) (by rw [hrx]; exact List.mem_cons_self)
      exact .inr (.error hnot rfl hend)
    | goneFail hk =>
      have hm := (ended_of_reconnect hl.sound.inbox hl.feedback (by rw [hk]; simp) (by rw [hk]; simp [mode])).1
      rw [hk] at hm
      cases hm
    | noStream hk =>
      obtain ⟨hx, hmode⟩ := selecting_mode hk
      have hend := ended_of_reconnect hl.sound.inbox hl.feedback hx (by rw [hmode]; simp)
      exact .inr (.noStream rfl hend.2.2.2)
    | _ => exact .inl hf
  | link a => cases linkStep_cases h <;> exact .inl hf
  | down a => cases downStep_cases h <;> exact .inl hf

/-- A step that reports a failure leaves no hope. -/
theorem Fails.hopeless {s s' : Transfer} {a : Act} (h : Fails s s' a) : Hopeless s' := by
  cases h with
  | accept _ hr he => exact .inl ⟨hr, he⟩
  | error _ hx hd => exact .inr ⟨hx, .inl hd⟩
  | noStream hx he => exact .inr ⟨hx, .inr he⟩

/-- What a run without read errors and early drops keeps. -/
structure Faithful (s : Transfer) : Prop where
  living : Living s
  ends : Ends s
  clean : Clean s
  failed : Failed s.callbacks → Hopeless s

theorem reach_faithful {capped : Bool} {s : Transfer} (h : Reach step wholeStreams (init capped) s) : Faithful s := by
  refine h.invariant ⟨init_living capped, init_ends capped, init_clean capped, fun ⟨f, hf⟩ => by cases hf⟩ ?_
  intro s s' a hi hok hs
  refine ⟨step_living hi.living hs, step_ends hi.ends hi.living hok hs, step_clean hi.clean hok hs, fun hf => ?_⟩
  rcases failed_cases hi.living hok hs hf with hf | hn
  · exact step_hopeless (hi.failed hf) hi.living hs
  · exact hn.hopeless

/-- Only `run_downlink`'s EOF branch comes to report success. -/
theorem completed_cases {s s' : Transfer} {a : Act} (h : s.step a = some s') (hd : Completed s'.downReports)
    (hnot : ¬ Completed s.downReports) : a = .down .eof := by
  have hold : ¬ Completed s.downCallbacks := fun hc => hnot (hc.reports _)
  cases a with
  | reader a => cases readerStep_cases h <;> exact absurd hd hnot
  | ticket a => cases ticketStep_cases h <;> exact absurd hd hnot
  | pump a => cases pumpStep_cases h <;> exact absurd hd hnot
  | ack a => cases ackStep_cases h <;> exact absurd hd hnot
  | link a => cases linkStep_cases h <;> exact absurd hd hnot
  | down a =>
    cases downStep_cases h with
    | eof => rfl
    | tcpAcceptFail | gap | writeFail | lost => exact absurd (completed_append hd (by simp)) hold
    | write _ hpc | writeAck _ hpc =>
      simp only [downReports, written, hpc, DownPc.reports] at hd
      exact absurd (completed_progress hd) hold
    | report hpc =>
      unfold downReports at hnot
      rw [hpc] at hnot
      exact absurd hd hnot
    | acceptConnect | start | tcpAccept | readError | resume => exact absurd hd hold
    | _ => exact absurd hd hnot

/-- It is fired when that branch has written its `Done`. -/
theorem fires_cases {s s' : Transfer} {a : Act} (h : s.step a = some s') (hd : Completed s'.downCallbacks)
    (hnot : ¬ Completed s.downCallbacks) :
    ∃ sid n, s.down.pc = .report sid (.done n) ∧ s' = { s with
      down := { s.down with pc := .exited }
      downCallbacks := s.downCallbacks ++ [.done n] } := by
  cases a with
  | reader a => cases readerStep_cases h <;> exact absurd hd hnot
  | ticket a => cases ticketStep_cases h <;> exact absurd hd hnot
  | pump a => cases pumpStep_cases h <;> exact absurd hd hnot
  | ack a => cases ackStep_cases h <;> exact absurd hd hnot
  | link a => cases linkStep_cases h <;> exact absurd hd hnot
  | down a =>
    cases downStep_cases h with
    | @report sid c hpc =>
      cases c with
      | done n => exact ⟨sid, n, hpc, rfl⟩
      | progress | failed => exact absurd (completed_append hd (by simp)) hnot
    | write | writeAck => exact absurd (completed_progress hd) hnot
    | lost => exact absurd (completed_append hd (by simp)) hnot
    | _ => exact absurd hd hnot

/-- A stream that the pump has finished and the receiver has read to its end was
    delivered whole. -/
theorem whole_of_pumpFin {s : Transfer} (hl : Living s) {sid : Nat} (hp : pumpFin s.pump sid)
    (hup : (s.streams sid).up = []) (hc : (s.streams sid).cut = false) (hx : s.down.pc.ended = false) :
    s.spool.atEof = true ∧ s.down.out = s.pushed := by
  obtain ⟨hsid, hd⟩ := hp
  subst hsid
  have hb := hl.sound.bytes
  obtain ⟨hpump, heof, hq⟩ := hl.sound.finished hd
  have hr : running s.pump = true := by
    rcases hpump with h | h <;> simp [running, h, hd]
  obtain ⟨o, e, ho, _, hrun, hcut⟩ := hb.pumpOk.run hr
  have he := hcut hc
  rw [hup] at hrun
  cases hrun
  have hlen : s.pushed.length ≤ s.down.bytesWritten := by omega
  refine ⟨heof, ?_⟩
  rw [hb.outOk.out hx, List.take_of_length_le hlen]

/-- A FIN that `run_downlink` reads is the pump's, and everything has been delivered. -/
theorem whole_of_eof {s s' : Transfer} (hi : Faithful s) (h : DownCase s .eof s') :
    ∃ sid, s.down.pc = .reading sid ∧ (s.streams sid).cut = false ∧ pumpFin s.pump sid ∧ s.spool.atEof = true ∧
      s.cleanEof = true ∧ s.down.out = s.wrote := by
  obtain ⟨sid, hpc, hup, hf, hopen⟩ := not_closed_of_eof h
  have hc : (s.streams sid).cut = false := by simpa using fun h => hopen (.inl h)
  have hfin : pumpFin s.pump sid := (hi.ends sid hf).resolve_left hopen
  obtain ⟨heof, hout⟩ := whole_of_pumpFin hi.living hfin hup hc (by rw [hpc]; rfl)
  have hclean := hi.clean.marked heof
  refine ⟨sid, hpc, hc, hfin, heof, hclean, ?_⟩
  rw [hout, hi.clean.split, (hi.clean.read hclean).1, List.append_nil]

/-- The ack task has reported no failure when `run_downlink` reads FIN. -/
theorem unfailed_of_eof {s s' : Transfer} (hi : Faithful s) (h : DownCase s .eof s') : ¬ Failed s.callbacks := by
  have hl := hi.living
  obtain ⟨sid, hpc, hc, hfin, heof, _⟩ := whole_of_eof hi h
  intro hfail
  rcases hi.failed hfail with ⟨_, he⟩ | ⟨_, hd | he⟩
  · rw [heof] at he
    cases he
  · rw [hpc] at hd
    cases hd
  · -- The stream is the newest, so the ack task is on it; it is neither cut nor let go.
    have hold : Holding s.down sid := ⟨by rw [hpc]; rfl, .inr (.inl hpc)⟩
    have hlt : sid < s.opened := Nat.lt_of_lt_of_le (hl.receiver.holding sid hold) hl.receiver.accepted
    have hle : s.pump.quicTx ≤ s.current := hl.sound.lane.resumedLe _ List.mem_cons_self
    have hcur : sid = s.current := by
      have := hl.newest hlt hc
      have := hl.sound.lane.currentLt
      have := hfin.1
      omega
    rw [← hcur] at he
    simp [QStream.downEnded, hc, hold.downFin hl.receiver] at he

/-- `run_downlink` has read FIN, and its `StreamDone` is to come. -/
def completing : DownPc → Bool
  | .report _ (.done _) => true
  | _ => false

/-- In addition, the ack task does not give up on a dropped handle between the two. -/
def reportsWhole (s : Transfer) : Act → Prop
  | .ack .noStream => completing s.down.pc = false
  | a => wholeStreams s a

instance (s : Transfer) (a : Act) : Decidable (reportsWhole s a) := by
  unfold reportsWhole
  split <;> infer_instance

theorem wholeStreams_of_reportsWhole {s : Transfer} {a : Act} (h : reportsWhole s a) : wholeStreams s a := by
  unfold reportsWhole at h
  split at h
  · trivial
  · exact h

/-- A client that has closed its socket writes no more. -/
theorem closed_stays {s s' : Transfer} {a : Act} (hc : s.closed = true) (h : s.step a = some s') :
    s'.closed = true ∧ s'.wrote = s.wrote := by
  cases a with
  | reader a =>
    cases readerStep_cases h with
    | clientWrite _ hopen =>
      rw [hc] at hopen
      cases hopen
    | clientClose => exact ⟨rfl, rfl⟩
    | _ => exact ⟨hc, rfl⟩
  | ticket a => cases ticketStep_cases h <;> exact ⟨hc, rfl⟩
  | pump a => cases pumpStep_cases h <;> exact ⟨hc, rfl⟩
  | ack a => cases ackStep_cases h <;> exact ⟨hc, rfl⟩
  | link a => cases linkStep_cases h <;> exact ⟨hc, rfl⟩
  | down a => cases downStep_cases h <;> exact ⟨hc, rfl⟩

theorem marked_stays {s s' : Transfer} {a : Act} (he : s.spool.atEof = true) (h : s.step a = some s') :
    s'.spool.atEof = true := by
  cases a with
  | reader a =>
    cases readerStep_cases h with
    | read => rwa [atEof_push]
    | eof | failedEof => rfl
    | _ => exact he
  | ticket a => cases ticketStep_cases h <;> exact he
  | pump a => cases pumpStep_cases h <;> exact he
  | ack a =>
    cases ackStep_cases h with
    | ackNew | ackOld => exact (atEof_ack ..).trans he
    | _ => exact he
  | link a => cases linkStep_cases h <;> exact he
  | down a => cases downStep_cases h <;> exact he

/-- What holds from the FIN on, and between the FIN and the report. -/
structure Whole (s : Transfer) : Prop where
  marked : Completed s.downReports → s.spool.atEof = true
  written : Completed s.downReports → s.down.out = s.wrote
  unfailed : completing s.down.pc = true → ¬ Failed s.callbacks

theorem report_of_completing {pc : DownPc} (h : completing pc = true) : ∃ sid n, pc = .report sid (.done n) := by
  unfold completing at h
  split at h
  · exact ⟨_, _, rfl⟩
  · cases h

theorem completed_of_completing {s : Transfer} (h : completing s.down.pc = true) : Completed s.downReports := by
  obtain ⟨sid, n, hpc⟩ := report_of_completing h
  refine ⟨n, ?_⟩
  unfold downReports
  rw [hpc]
  exact List.mem_append_right _ (List.mem_singleton_self _)

theorem step_whole {s s' : Transfer} {a : Act} (hi : Whole s) (hf : Faithful s) (hok : reportsWhole s a)
    (h : s.step a = some s') : Whole s' := by
  have hl := hf.living
  by_cases hd : Completed s.downReports
  · have hend := hl.lastWord.completed hd
    obtain ⟨_, hout, hreports⟩ := ended_frozen hl.sound.connect hend h
    have he := hi.marked hd
    obtain ⟨_, hclosed⟩ := hf.clean.read (hf.clean.marked he)
    refine ⟨fun _ => marked_stays he h, fun _ => ?_, fun hc hfail => ?_⟩
    · rw [hout, (closed_stays hclosed h).2]
      exact hi.written hd
    · have hc₀ : completing s.down.pc = true := by
        rcases down_ended_moves hl.sound.connect hend h with h' | h'
        · rwa [h'] at hc
        · rw [h'] at hc
          cases hc
      rcases failed_cases hl (wholeStreams_of_reportsWhole hok) h hfail with hfail | hfails
      · exact hi.unfailed hc₀ hfail
      · cases hfails with
        | accept hnot => rw [he] at hnot; cases hnot
        | error hnot => exact hnot hd
        | noStream =>
          have hnot : completing s.down.pc = false := hok
          rw [hc₀] at hnot
          cases hnot
  · by_cases hd' : Completed s'.downReports
    · have ha := completed_cases h hd' hd
      subst ha
      have hcase : DownCase s .eof s' := downStep_cases h
      obtain ⟨sid, hpc, _, _, heof, _, hwrote⟩ := whole_of_eof hf hcase
      have hnofail := unfailed_of_eof hf hcase
      cases hcase with
      | eof => exact ⟨fun _ => heof, fun _ => hwrote, fun _ => hnofail⟩
    · exact ⟨fun h => absurd h hd', fun h => absurd h hd', fun h => absurd (completed_of_completing h) hd'⟩

theorem reach_whole {capped : Bool} {s : Transfer} (h : Reach step reportsWhole (init capped) s) :
    Faithful s ∧ Whole s := by
  have hnot : ¬ Completed (init capped).downReports := fun ⟨_, hn⟩ => List.not_mem_nil hn
  have faithful : ∀ {s : Transfer}, Reach step reportsWhole (init capped) s → Faithful s := fun hr =>
    reach_faithful (hr.mono fun _ _ => wholeStreams_of_reportsWhole)
  refine ⟨faithful h, h.invariant_of faithful ⟨fun h => absurd h hnot, fun h => absurd h hnot, nofun⟩ ?_⟩
  intro s s' a hf _ hi hok hs
  exact step_whole hi hf hok hs

/-- `StreamDone` is reported only for a transfer whose client closed its socket cleanly,
    all of whose bytes have been written, and of which no failure was reported. -/
theorem done_only_if_whole {capped : Bool} {s s' : Transfer} {a : Act} (h : Reach step reportsWhole (init capped) s)
    (hs : s.step a = some s') (hdone : Completed s'.downCallbacks) (hnot : ¬ Completed s.downCallbacks) :
    s'.cleanEof = true ∧ s'.down.out = s'.wrote ∧ ¬ Failed s'.callbacks := by
  obtain ⟨hf, hw⟩ := reach_whole h
  obtain ⟨sid, n, hpc, rfl⟩ := fires_cases hs hdone hnot
  have hc : completing s.down.pc = true := by rw [hpc]; rfl
  have hd := completed_of_completing hc
  exact ⟨hf.clean.marked (hw.marked hd), hw.written hd, hw.unfailed hc⟩

/-- The step left out breaks this: a failure has been reported, and `StreamDone` follows. -/
theorem overtaken {s s' : Transfer} (hc : completing s.down.pc = true) (h : s.step (.ack .noStream) = some s') :
    ∃ s'', s'.step (.down .report) = some s'' ∧ Completed s''.downCallbacks ∧ Failed s''.callbacks := by
  obtain ⟨sid, n, hpc⟩ := report_of_completing hc
  have h : AckCase s .noStream s' := ackStep_cases h
  cases h with
  | noStream =>
    refine ⟨_, by simp only [step, downStep, hpc]; rfl, ⟨n, ?_⟩, .handleDropped, ?_⟩
    · exact List.mem_append_right _ (List.mem_singleton_self _)
    · exact List.mem_append_right _ (List.mem_singleton_self _)

/-- The client writes three bytes; the reader pushes two and fails on the third. -/
def readAndFail : List Act :=
  [.reader .accept, .reader (.clientWrite [1, 2, 3]), .reader .space, .reader (.read 2), .reader .store, .reader .notify,
    .reader .space, .reader .readFail, .reader .failedEof, .reader .store, .reader .notify]

/-- The pump sends what is left of the spool, is asked to finish and sends FIN. -/
def sendAndFinish (n : Nat) : List Act :=
  grant n ++ sendChunk ++ [.ack .check, .ack .finish, .pump .cmd, .pump (.drain 0), .pump .post]

/-- Three bytes and a clean EOF. -/
theorem whole_transfer_done :
    ∃ s s', Reach step reportsWhole (init true) s ∧ s.step (.down .report) = some s' ∧
      s'.down.out = [1, 2, 3] ∧ s'.cleanEof = true ∧ s'.down.out = s'.wrote ∧ ¬ Failed s'.callbacks := by
  obtain ⟨s, hr, hs⟩ := Reach.exists_run step reportsWhole (init true)
    [[.reader .accept], writeAndPush [1, 2, 3], closeClient, sendAndFinish 9, startDownlink,
      [.down (.chunk false), .down .eof]].flatten
    (fun s => s.downCallbacks = [] ∧ (s.step (.down .report)).any fun s' =>
      s'.downCallbacks = [.done 3] ∧ s'.down.out = [1, 2, 3]) (by decide +kernel)
  obtain ⟨h0, h1⟩ := of_decide_eq_true hs
  obtain ⟨s', hstep, h2⟩ := Option.any_eq_true .. |>.mp h1
  obtain ⟨hd, hout⟩ := of_decide_eq_true h2
  have hnot : ¬ Completed s.downCallbacks := by rw [h0]; exact fun ⟨n, hn⟩ => by cases hn
  have hdone : Completed s'.downCallbacks := ⟨3, by rw [hd]; exact List.mem_singleton_self _⟩
  exact ⟨s, s', hr, hstep, hout, done_only_if_whole hr hstep hdone hnot⟩

/-- The client writes three bytes; the reader gets two and then an error, reports the
    failure, and ends the stream like a clean EOF. The receiving agent reports success. -/
theorem truncated_done :
    ∃ s s', Reach step anyStep (init true) s ∧ s.step (.down .report) = some s' ∧
      ¬ Completed s.downCallbacks ∧ Completed s'.downCallbacks ∧
      s'.cleanEof = false ∧ s'.down.out = [1, 2] ∧ s'.wrote = [1, 2, 3] ∧ Failed s'.callbacks := by
  obtain ⟨s, hr, hs⟩ := Reach.exists_run step anyStep (init true)
    [readAndFail, sendAndFinish 9, startDownlink, [.down (.chunk false), .down .eof]].flatten
    (fun s => s.downCallbacks = [] ∧ (s.step (.down .report)).any fun s' =>
      s'.downCallbacks = [.done 2] ∧ s'.cleanEof = false ∧ s'.down.out = [1, 2] ∧ s'.wrote = [1, 2, 3] ∧
      s'.callbacks = [.failed .tcpRead]) (by decide +kernel)
  obtain ⟨h0, h1⟩ := of_decide_eq_true hs
  obtain ⟨s', hstep, h2⟩ := Option.any_eq_true .. |>.mp h1
  obtain ⟨hd, hc, hout, hw, hcb⟩ := of_decide_eq_true h2
  refine ⟨s, s', hr, hstep, ?_, ⟨2, by rw [hd]; exact List.mem_singleton_self _⟩, hc, hout, hw, .tcpRead, ?_⟩
  · rw [h0]
    exact fun ⟨n, hn⟩ => by cases hn
  · rw [hcb]
    exact List.mem_singleton_self _

/-! ## One end is reported -/

instance (callbacks : List Callback) : Decidable (Completed callbacks) :=
  decidable_of_iff (∃ c ∈ callbacks, ∃ n ∈ (match c with | .done n => some n | _ => none), c = .done n) <| by
    constructor
    · rintro ⟨c, hc, n, -, rfl⟩
      exact ⟨n, hc⟩
    · rintro ⟨n, hn⟩
      exact ⟨_, hn, n, rfl, rfl⟩

/-- The TCP reader reports no failure; the pump is there when the ack task hands it a
    stream; the ack task gives up only on a transfer that the receiver has not completed
    and cannot complete; and once it has given up, the sender drops no live stream that
    would look complete. -/
def reportsOnce (s : Transfer) : Act → Prop
  | .reader .acceptFail | .reader .readFail => False
  | .ack .linkUp => s.pump.pc ≠ .exited
  | .ack .noStream => ¬ Completed s.downReports ∧ ∀ sid < s.opened, (s.streams sid).upFin = true → Closed s sid
  | .link (.dropStream sid) =>
    s.ack = .exited → s.down.pc.ended = false → (s.streams sid).upFin = true ∨ Closed s sid
  | _ => True

instance (s : Transfer) (a : Act) : Decidable (reportsOnce s a) := by
  unfold reportsOnce
  split <;> infer_instance

/-- How the ack task returns: on the receiver's last word, for want of a stream, or for
    want of the pump. Nothing else changes then but what is reported. -/
inductive AckExit (s : Transfer) : Act → Transfer → Prop
  | done {s' : Transfer} : s.down.pc.ended = true → s'.down = s.down → s'.downReports = s.downReports →
      s'.callbacks = s.callbacks ++ [.done s.bytesSent] → AckExit s (.ack .msg) s'
  | error {s' : Transfer} (f : Failure) : s.down.pc.ended = true → ¬ Completed s.downReports →
      s'.down = s.down → s'.downReports = s.downReports → s'.callbacks = s.callbacks ++ [.failed f] →
      AckExit s (.ack .msg) s'
  | noStream {s' : Transfer} : s'.downReports = s.downReports → s'.streams = s.streams → s'.down = s.down →
      s'.nextAccept = s.nextAccept → s'.callbacks = s.callbacks ++ [.failed .handleDropped] →
      AckExit s (.ack .noStream) s'
  | noPump {s' : Transfer} : s.pump.pc = .exited → AckExit s (.ack .linkUp) s'

theorem ackExit_cases {s s' : Transfer} {a : Act} (hl : Living s) (hx : s.ack ≠ .exited) (hx' : s'.ack = .exited)
    (h : s.step a = some s') : AckExit s a s' := by
  cases a with
  | reader a => cases readerStep_cases h <;> exact absurd hx' hx
  | ticket a => cases ticketStep_cases h <;> exact absurd hx' hx
  | pump a => cases pumpStep_cases h <;> exact absurd hx' hx
  | ack a =>
    cases ackStep_cases h with
    | done _ hrx => exact .done (hl.lastWord.inbox .done (by rw [hrx]; exact List.mem_cons_self)).1 rfl rfl rfl
    | @error f _ _ hrx =>
      have htells := hl.lastWord.inbox (.error f) (by rw [hrx]; exact List.mem_cons_self)
      exact .error f htells.1 htells.2 rfl rfl rfl
    | goneFail hk =>
      have hm := (ended_of_reconnect hl.sound.inbox hl.feedback hx (by rw [hk]; simp [mode])).1
      rw [hk] at hm
      cases hm
    | streamReaderGone hk _ hne =>
      have hm : mode s.ack ≠ .main := by rw [(selecting_mode hk).2]; simp
      exact absurd (ended_of_reconnect hl.sound.inbox hl.feedback hx hm).2.1 hne
    | noStream => exact .noStream rfl rfl rfl rfl rfl
    | linkUpFail _ hp => exact .noPump hp
    | _ => first | exact absurd hx' hx | cases hx'
  | link a => cases linkStep_cases h <;> exact absurd hx' hx
  | down a => cases downStep_cases h <;> exact absurd hx' hx

/-- Once the ack task has returned, the receiver will not complete unless it has. -/
def Settled (s : Transfer) : Prop :=
  s.ack = .exited → s.down.pc.ended = true ∨ ∀ sid, (s.streams sid).upFin = true → Closed s sid

/-- The pump's FIN comes too late for a stream whose feedback has ended. -/
theorem closed_of_pumpFin {s : Transfer} (hl : Living s) {sid : Nat} (hp : pumpFin s.pump sid)
    (he : (s.streams s.current).downEnded = true) : Closed s sid := by
  have hle : s.pump.quicTx ≤ s.current := hl.sound.lane.resumedLe _ List.mem_cons_self
  have hlt := hl.sound.lane.currentLt
  have hsid := hp.1
  cases hc : (s.streams sid).cut with
  | true => exact .inl hc
  | false =>
    have hnew := hl.newest (by omega) hc
    have hcur : sid = s.current := by omega
    rw [← hcur] at he
    simp only [QStream.downEnded, hc, Bool.false_or, Bool.and_eq_true] at he
    exact .inr (hl.receiver.letGo sid (.inl he.2))

theorem step_settled {s s' : Transfer} {a : Act} (hi : Settled s) (hl : Living s) (hok : reportsOnce s a)
    (h : s.step a = some s') : Settled s' := by
  intro hx'
  have hl' := step_living hl h
  by_cases hx : s.ack = .exited
  · rcases hi hx with hd | hclosed
    · exact .inl (down_ended_stays hl.sound.connect hd h)
    by_cases hd : s.down.pc.ended = true
    · exact .inl (down_ended_stays hl.sound.connect hd h)
    refine .inr fun sid hf => ?_
    rcases upFin_cases h hf with hf | ⟨hp, hpump⟩ | rfl
    · exact step_closed (hclosed sid hf) hl.streams h
    · have hcur := (ack_exited_stays hx h).2
      rcases hl.exits hx with hd' | ⟨hp', _⟩ | he
      · exact absurd hd' hd
      · exact absurd hp' hpump
      · refine closed_of_pumpFin hl' hp ?_
        rw [hcur]
        exact step_ended hl.receiver hl.sound.lane.currentLt he h
    · rcases hok hx (Bool.eq_false_iff.mpr hd) with hf | hc
      · exact step_closed (hclosed sid hf) hl.streams h
      · exact step_closed hc hl.streams h
  · cases ackExit_cases hl hx hx' h with
    | done hd hdown | error _ hd _ hdown => exact .inl (by rw [hdown]; exact hd)
    | noStream _ hstreams hdown hacc =>
      refine .inr fun sid hf => ?_
      rw [hstreams] at hf
      have hlt : sid < s.opened := by
        by_contra hge
        rw [hl.streams.unused sid (by omega)] at hf
        cases hf
      rw [Closed, hstreams, hdown, hacc]
      exact hok.2 sid hlt hf
    | noPump hp => exact absurd hp hok

/-- The log up to the last report has no end in it, and the last report is one, which
    says `StreamDone` if the receiver does. -/
def EndsOnce (callbacks downCallbacks : List Callback) : Prop :=
  ∃ before last, callbacks = before ++ [last] ∧ (∀ c ∈ before, c.terminal = false) ∧ last.terminal = true ∧
    (Completed downCallbacks → ∃ n, last = .done n)

structure ToldOf (ack : AckPc) (callbacks downReports : List Callback) : Prop where
  running : ack ≠ .exited → ∀ c ∈ callbacks, c.terminal = false
  ended : ack = .exited → EndsOnce callbacks downReports

def Told (s : Transfer) : Prop := ToldOf s.ack s.callbacks s.downReports

/-- Once the ack task has returned nothing more is reported. -/
theorem silent_of_exited {s s' : Transfer} {a : Act} (hx : s.ack = .exited) (hok : reportsOnce s a)
    (h : s.step a = some s') : s'.callbacks = s.callbacks := by
  cases a with
  | reader a =>
    cases readerStep_cases h with
    | acceptFail | readFail => exact absurd hok id
    | _ => rfl
  | ticket a => cases ticketStep_cases h <;> rfl
  | pump a => cases pumpStep_cases h <;> rfl
  | ack a => cases ackStep_cases h <;> first | rfl | simp_all [AckPc.selecting]
  | link a => cases linkStep_cases h <;> rfl
  | down a => cases downStep_cases h <;> rfl

/-- Before that, only progress is. -/
theorem progress_of_running {s s' : Transfer} {a : Act} (hx' : s'.ack ≠ .exited) (hok : reportsOnce s a)
    (h : s.step a = some s') {c : Callback} (hc : c ∈ s'.callbacks) : c ∈ s.callbacks ∨ c.terminal = false := by
  cases a with
  | reader a =>
    cases readerStep_cases h with
    | acceptFail | readFail => exact absurd hok id
    | _ => exact .inl hc
  | ticket a => cases ticketStep_cases h <;> exact .inl hc
  | pump a => cases pumpStep_cases h <;> exact .inl hc
  | ack a =>
    cases ackStep_cases h with
    | space progress =>
      cases progress with
      | false => exact .inl hc
      | true =>
        rcases List.mem_append.mp hc with hc | hc
        · exact .inl hc
        · exact .inr (by rw [List.mem_singleton.mp hc]; rfl)
    | done | error | goneFail | noStream => exact absurd rfl hx'
    | _ => exact .inl hc
  | link a => cases linkStep_cases h <;> exact .inl hc
  | down a => cases downStep_cases h <;> exact .inl hc

theorem step_told {s s' : Transfer} {a : Act} (hi : Told s) (hl : Living s) (hset : Settled s) (hok : reportsOnce s a)
    (h : s.step a = some s') : Told s' := by
  refine ⟨fun hx' c hc => ?_, fun hx' => ?_⟩
  · have hx : s.ack ≠ .exited := fun hx => hx' (ack_exited_stays hx h).1
    rcases progress_of_running hx' hok h hc with hc | hc
    · exact hi.running hx c hc
    · exact hc
  · by_cases hx : s.ack = .exited
    · obtain ⟨before, last, hcb, hb, ht, hd⟩ := hi.ended hx
      refine ⟨before, last, (silent_of_exited hx hok h).trans hcb, hb, ht, fun hdone => ?_⟩
      by_cases hdone0 : Completed s.downReports
      · exact hd hdone0
      · -- The receiver would complete only on a stream that it can still read to its end.
        have ha := completed_cases h hdone hdone0
        subst ha
        obtain ⟨sid, hpc, _, hf, hopen⟩ := not_closed_of_eof (show DownCase s .eof s' from downStep_cases h)
        rcases hset hx with hdown | hclosed
        · rw [hpc] at hdown
          cases hdown
        · exact absurd (hclosed sid hf) hopen
    · have hb := hi.running hx
      cases ackExit_cases hl hx hx' h with
      | done _ _ _ hcb => exact ⟨_, _, hcb, hb, rfl, fun _ => ⟨_, rfl⟩⟩
      | error f _ hnot _ hdown hcb => exact ⟨_, _, hcb, hb, rfl, fun hd => absurd (hdown ▸ hd) hnot⟩
      | noStream hdown _ _ _ hcb => exact ⟨_, _, hcb, hb, rfl, fun hd => absurd (hdown ▸ hd) hok.1⟩
      | noPump hp => exact absurd hp hok

/-- What is fired is among the reports. -/
theorem EndsOnce.fired {s : Transfer} (h : EndsOnce s.callbacks s.downReports) : EndsOnce s.callbacks s.downCallbacks := by
  obtain ⟨before, last, hcb, hb, ht, hd⟩ := h
  exact ⟨before, last, hcb, hb, ht, fun hdone => hd (hdone.reports _)⟩

structure Reported (s : Transfer) : Prop where
  living : Living s
  settled : Settled s
  told : Told s

theorem reach_reported {capped : Bool} {s : Transfer} (h : Reach step reportsOnce (init capped) s) : Reported s := by
  refine h.invariant ⟨init_living capped, nofun, ⟨fun _ _ hc => (List.not_mem_nil hc).elim, nofun⟩⟩ ?_
  intro s s' a hi hok hs
  exact ⟨step_living hi.living hs, step_settled hi.settled hi.living hok hs,
    step_told hi.told hi.living hi.settled hok hs⟩

/-- When the ack task has returned, exactly one end has been reported, last; it is
    `StreamDone` if the receiving agent reported that; and no step reports anything more. -/
theorem one_terminal_callback {capped : Bool} {s : Transfer} (h : Reach step reportsOnce (init capped) s)
    (hx : s.ack = .exited) :
    EndsOnce s.callbacks s.downCallbacks ∧
      ∀ a s', reportsOnce s a → s.step a = some s' → s'.callbacks = s.callbacks :=
  ⟨((reach_reported h).told.ended hx).fired, fun _ _ hok hs => silent_of_exited hx hok hs⟩

/-- A transfer with an outage in it, to its end. -/
theorem replayed_and_done :
    ∃ s, Reach step reportsOnce (init true) s ∧ s.opened = 2 ∧ s.ack = .exited ∧ s.downCallbacks = [.done 3] ∧
      EndsOnce s.callbacks s.downCallbacks := by
  obtain ⟨s, hr, hs⟩ := Reach.exists_run step reportsOnce (init true)
    [[.reader .accept], writeAndPush [1, 2, 3], grant 2, sendChunk, startDownlink, [.down (.chunk false)], loseLink,
      restoreLink, resumePump, closeClient, sendAndFinish 9, resumeDownlink,
      [.down (.chunk false), .down .eof, .down .report, .ack .readMsg, .ack .msg]].flatten
    (fun s => s.opened = 2 ∧ s.ack = .exited ∧ s.downCallbacks = [.done 3]) (by decide +kernel)
  obtain ⟨ho, hx, hd⟩ := of_decide_eq_true hs
  exact ⟨s, hr, ho, hx, hd, (one_terminal_callback hr hx).1⟩

/-- The TCP reader reports its read error, and the ack task `StreamDone`. -/
theorem two_terminals :
    ∃ s, Reach step anyStep (init true) s ∧ s.ack = .exited ∧ s.callbacks = [.failed .tcpRead, .done 0] ∧
      ¬ EndsOnce s.callbacks s.downCallbacks := by
  obtain ⟨s, hr, hs⟩ := Reach.exists_run step anyStep (init true)
    [readAndFail, sendAndFinish 9, startDownlink, [.down (.chunk false), .down .eof, .ack .readMsg, .ack .msg]].flatten
    (fun s => s.ack = .exited ∧ s.callbacks = [.failed .tcpRead, .done 0]) (by decide +kernel)
  obtain ⟨hx, hcb⟩ := of_decide_eq_true hs
  refine ⟨s, hr, hx, hcb, fun ⟨before, last, hsplit, hb, _⟩ => ?_⟩
  rw [hcb] at hsplit
  have hmem : .failed .tcpRead ∈ before := by
    cases before with
    | nil => cases hsplit
    | cons c rest =>
      rw [List.cons_append, List.cons.injEq] at hsplit
      rw [← hsplit.1]
      exact List.mem_cons_self
  cases hb _ hmem

end Quelay.Agent.Transfer
