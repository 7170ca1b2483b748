/-
  Quelay.Agent.Transfer.Progress — what the two agents say while a stream runs.

  `StreamProgress` and `StreamDone` carry a byte count. The sender's is the largest ack it
  has taken, the receiver's is what it has written to its client. Neither agent ever goes
  back, or says more than the receiving client has got (`counts_never_overstate`). The
  receiver writes `Done` on the stream before it fires its own `StreamDone`, so the sender
  may be the first to say that the stream is done; but not before the receiver has read
  FIN and written everything.
-/

import Quelay.Agent.Transfer.Tally

namespace Quelay.Agent

/-- The byte count of a callback. -/
def Callback.count : Callback → Option Nat
  | .progress n => some n
  | .done n => some n
  | .failed _ => none

def Callback.progressed : Callback → Option Nat
  | .progress n => some n
  | _ => none

namespace Transfer

open Quelay.Lib

def counts (callbacks : List Callback) : List Nat := callbacks.filterMap Callback.count

def progressed (callbacks : List Callback) : List Nat := callbacks.filterMap Callback.progressed

/-! ## Counts that rise -/

/-- The counts do not fall, each progress is above the ones before it, and none is above
    `level`. -/
structure Rising (level : Nat) (callbacks : List Callback) : Prop where
  order : (counts callbacks).Pairwise (· ≤ ·)
  strict : (progressed callbacks).Pairwise (· < ·)
  le : ∀ n ∈ counts callbacks, n ≤ level

variable {level : Nat} {callbacks : List Callback}

theorem mem_counts_of_progressed {n : Nat} (h : n ∈ progressed callbacks) : n ∈ counts callbacks := by
  obtain ⟨c, hc, hn⟩ := List.mem_filterMap.mp h
  refine List.mem_filterMap.mpr ⟨c, hc, ?_⟩
  cases c with
  | progress => exact hn
  | done | failed => cases hn

theorem pairwise_snoc {R : Nat → Nat → Prop} {l : List Nat} {n : Nat} (h : l.Pairwise R) (hn : ∀ m ∈ l, R m n) :
    (l ++ [n]).Pairwise R := by
  refine List.pairwise_append.mpr ⟨h, List.pairwise_singleton .., ?_⟩
  intro m hm k hk
  rw [List.mem_singleton.mp hk]
  exact hn m hm

theorem counts_append (c : Callback) : counts (callbacks ++ [c]) = counts callbacks ++ c.count.toList := by
  cases c <;> simp [counts, Callback.count]

theorem progressed_append (c : Callback) : progressed (callbacks ++ [c]) = progressed callbacks ++ c.progressed.toList := by
  cases c <;> simp [progressed, Callback.progressed]

theorem Rising.raise (h : Rising level callbacks) {level' : Nat} (hle : level ≤ level') : Rising level' callbacks :=
  ⟨h.order, h.strict, fun n hn => Nat.le_trans (h.le n hn) hle⟩

theorem Rising.sublist (h : Rising level callbacks) {callbacks' : List Callback} (hs : callbacks'.Sublist callbacks) :
    Rising level callbacks' :=
  ⟨h.order.sublist (hs.filterMap _), h.strict.sublist (hs.filterMap _), fun n hn => h.le n ((hs.filterMap _).subset hn)⟩

theorem Rising.failed (h : Rising level callbacks) (f : Failure) : Rising level (callbacks ++ [.failed f]) := by
  refine ⟨?_, ?_, ?_⟩
  · rw [counts_append]
    simpa [Callback.count] using h.order
  · rw [progressed_append]
    simpa [Callback.progressed] using h.strict
  · rw [counts_append]
    simpa [Callback.count] using h.le

theorem Rising.done (h : Rising level callbacks) : Rising level (callbacks ++ [.done level]) := by
  refine ⟨?_, ?_, ?_⟩
  · rw [counts_append]
    exact pairwise_snoc h.order h.le
  · rw [progressed_append]
    simpa [Callback.progressed] using h.strict
  · intro n hn
    rw [counts_append] at hn
    rcases List.mem_append.mp hn with hn | hn
    · exact h.le n hn
    · exact Nat.le_of_eq (List.mem_singleton.mp hn)

/-- A progress with a count that was not reached before. -/
theorem Rising.progress (h : Rising level callbacks) (hlt : ∀ n ∈ counts callbacks, n < level) :
    Rising level (callbacks ++ [.progress level]) := by
  refine ⟨?_, ?_, ?_⟩
  · rw [counts_append]
    exact pairwise_snoc h.order h.le
  · rw [progressed_append]
    exact pairwise_snoc h.strict fun m hm => hlt m (mem_counts_of_progressed hm)
  · intro n hn
    rw [counts_append] at hn
    rcases List.mem_append.mp hn with hn | hn
    · exact h.le n hn
    · exact Nat.le_of_eq (List.mem_singleton.mp hn)

/-! ## The sender -/

/-- `bytes_sent` is where the spool's tail is, and a count that is about to be reported is
    a new one. -/
structure SenderCounts (s : Transfer) : Prop where
  level : s.bytesSent = s.spool.bytesAcked
  rising : Rising s.bytesSent s.callbacks
  fresh : s.ack = .space → ∀ n ∈ counts s.callbacks, n < s.bytesSent

theorem init_senderCounts (capped : Bool) : SenderCounts (init capped) := by
  refine ⟨rfl, ⟨.nil, .nil, ?_⟩, ?_⟩
  · intro n hn
    cases hn
  · intro h
    cases h

theorem SenderCounts.failed {s s' : Transfer} (hi : SenderCounts s) {f : Failure}
    (hcallbacks : s'.callbacks = s.callbacks ++ [.failed f]) (hsent : s'.bytesSent = s.bytesSent)
    (hacked : s'.spool.bytesAcked = s.spool.bytesAcked) (hack : s'.ack = .space → s.ack = .space) : SenderCounts s' := by
  refine ⟨by rw [hsent, hacked, hi.level], ?_, fun hsp n hn => ?_⟩
  · rw [hcallbacks, hsent]
    exact hi.rising.failed f
  · rw [hcallbacks, counts_append, Callback.count, Option.toList_none, List.append_nil] at hn
    rw [hsent]
    exact hi.fresh (hack hsp) n hn

theorem ack_senderCounts {s s' : Transfer} {a : AckAct} (hi : SenderCounts s) (hb : Bytes s) (h : AckCase s a s') :
    SenderCounts s' := by
  have taken : ∀ {n : Nat} {rest : List AckMsg}, s.ackRx = .ack n :: rest →
      (s.spool.ack n).bytesAcked = max s.spool.bytesAcked n := by
    intro n rest hrx
    have hle := hb.inbox n (by rw [hrx]; exact List.mem_cons_self)
    exact SpoolBuffer.ack_bytesAcked hb.holds (Nat.le_trans hle hb.outOk.le)
  have hlevel := hi.level
  cases h with
  | @ackNew n rest hsel hrx hlt =>
    have heq := taken hrx
    refine ⟨?_, hi.rising.raise (Nat.le_max_left ..), fun _ m hm => ?_⟩
    · show max s.bytesSent n = (s.spool.ack n).bytesAcked
      omega
    · have hle := hi.rising.le m hm
      show m < max s.bytesSent n
      omega
  | @ackOld n rest hsel hrx hle =>
    have heq := taken hrx
    refine ⟨?_, hi.rising, ?_⟩
    · show s.bytesSent = (s.spool.ack n).bytesAcked
      omega
    · intro h
      cases h
  | done =>
    refine ⟨hlevel, hi.rising.done, ?_⟩
    intro h
    cases h
  | error | goneFail | noStream =>
    refine hi.failed rfl rfl rfl ?_
    intro h
    cases h
  | space progress hsp =>
    refine ⟨hlevel, ?_, ?_⟩
    · cases progress with
      | true => exact hi.rising.progress (hi.fresh hsp)
      | false => exact hi.rising
    · intro h
      cases h
  | readMsgClosed | readAck | readLast | readEndClosed | readEnd | readerClosed =>
    exact ⟨hlevel, hi.rising, hi.fresh⟩
  | _ =>
    refine ⟨hlevel, hi.rising, ?_⟩
    intro h
    cases h

theorem step_senderCounts {s s' : Transfer} {a : Act} (hi : SenderCounts s) (hb : Bytes s) (h : s.step a = some s') :
    SenderCounts s' := by
  cases a with
  | reader a =>
    cases readerStep_cases h with
    | acceptFail | readFail => exact hi.failed rfl rfl rfl fun h => h
    | _ => exact ⟨hi.level, hi.rising, hi.fresh⟩
  | ticket a => cases ticketStep_cases h <;> exact ⟨hi.level, hi.rising, hi.fresh⟩
  | pump a => cases pumpStep_cases h <;> exact ⟨hi.level, hi.rising, hi.fresh⟩
  | ack a => exact ack_senderCounts hi hb (ackStep_cases h)
  | link a => cases linkStep_cases h <;> exact ⟨hi.level, hi.rising, hi.fresh⟩
  | down a => cases downStep_cases h <;> exact ⟨hi.level, hi.rising, hi.fresh⟩

/-! ## The receiver -/

/-- A terminal callback is the last one. -/
def EndsLast (callbacks : List Callback) : Prop :=
  ∀ front c back, callbacks = front ++ c :: back → c.terminal = true → back = []

/-- Of what the receiver has reported or is about to. -/
structure ReceiverCounts (s : Transfer) : Prop where
  rising : Rising s.down.bytesWritten s.downReports
  got : s.down.bytesWritten ≤ s.down.out.length
  running : s.down.pc.ended = false → ∀ c ∈ s.downReports, c.terminal = false
  last : EndsLast s.downReports
  done : ∀ n, .done n ∈ s.downReports → n = s.down.out.length

theorem EndsLast.of_prefix {callbacks' : List Callback} (h : EndsLast callbacks) (hp : callbacks' <+: callbacks) :
    EndsLast callbacks' := by
  intro front c back heq hc
  obtain ⟨rest, hrest⟩ := hp
  have hnil : back ++ rest = [] := by
    refine h front c _ ?_ hc
    rw [← hrest, heq, List.append_assoc, List.cons_append]
  exact (List.append_eq_nil_iff.mp hnil).1

theorem endsLast_of_running (h : ∀ c ∈ callbacks, c.terminal = false) : EndsLast callbacks := by
  intro front c back heq hc
  rw [h c (by rw [heq]; simp)] at hc
  cases hc

theorem EndsLast.snoc (h : ∀ c ∈ callbacks, c.terminal = false) (c : Callback) : EndsLast (callbacks ++ [c]) := by
  intro front x back heq hx
  rcases List.eq_nil_or_concat back with rfl | ⟨init, y, rfl⟩
  · rfl
  · -- A terminal callback before the new one would be among the old.
    have hpre : callbacks = front ++ x :: init := by
      have hcat : callbacks ++ [c] = (front ++ x :: init) ++ [y] := by simpa using heq
      exact (List.append_inj' hcat rfl).1
    rw [h x (by rw [hpre]; simp)] at hx
    cases hx

variable {s s' : Transfer}

theorem init_receiverCounts (capped : Bool) : ReceiverCounts (init capped) := by
  refine ⟨⟨.nil, .nil, ?_⟩, Nat.le_refl _, ?_, ?_, ?_⟩
  · intro n hn
    cases hn
  · intro _ c hc
    cases hc
  · exact endsLast_of_running fun c hc => absurd hc List.not_mem_nil
  · intro n hn
    cases hn

/-- The downlink says nothing. -/
theorem ReceiverCounts.keep (hi : ReceiverCounts s) (hw : s'.down.bytesWritten = s.down.bytesWritten)
    (hout : s'.down.out = s.down.out) (hcb : s'.downReports = s.downReports)
    (hpc : s.down.pc.ended = true → s'.down.pc.ended = true) : ReceiverCounts s' := by
  refine ⟨?_, ?_, ?_, hcb ▸ hi.last, ?_⟩
  · rw [hw, hcb]
    exact hi.rising
  · rw [hw, hout]
    exact hi.got
  · intro hx
    rw [hcb]
    refine hi.running ?_
    by_contra hx0
    rw [hpc (by simpa using hx0)] at hx
    cases hx
  · rw [hcb, hout]
    exact hi.done

/-- The downlink ends with a failure. -/
theorem ReceiverCounts.fail (hi : ReceiverCounts s) (hx : s.down.pc.ended = false) (hx' : s'.down.pc.ended = true)
    {f : Failure} (hcb : s'.downReports = s.downCallbacks ++ [.failed f])
    (hw : s'.down.bytesWritten = s.down.bytesWritten) (hout : s.down.out.length ≤ s'.down.out.length) :
    ReceiverCounts s' := by
  rw [← downReports_of_running hx] at hcb
  refine ⟨?_, ?_, fun h => absurd hx' (Bool.eq_false_iff.mp h), ?_, ?_⟩
  · rw [hw, hcb]
    exact hi.rising.failed f
  · rw [hw]
    exact Nat.le_trans hi.got hout
  · rw [hcb]
    exact .snoc (hi.running hx) _
  · intro n hn
    rw [hcb] at hn
    rcases List.mem_append.mp hn with hn | hn
    · exact absurd (hi.running hx _ hn) (by simp [Callback.terminal])
    · cases List.mem_singleton.mp hn

/-- The downlink writes some bytes to its client, and may report them. -/
theorem ReceiverCounts.write (hi : ReceiverCounts s) (hx : s.down.pc.ended = false) (hpc : s'.down.pc = s.down.pc)
    {data : List UInt8} {progress : Bool} (hw : s'.down.bytesWritten = s.down.bytesWritten + data.length)
    (hout : s'.down.out = s.down.out ++ data)
    (hcb : s'.downCallbacks = if progress ∧ data ≠ [] then s.downCallbacks ++ [.progress s'.down.bytesWritten]
      else s.downCallbacks) : ReceiverCounts s' := by
  rw [← downReports_of_running hx, ← downReports_of_running (hpc ▸ hx)] at hcb
  have hold : ∀ c ∈ s'.downReports, c.terminal = false := by
    intro c hc
    rw [hcb] at hc
    split at hc
    · rcases List.mem_append.mp hc with hc | hc
      · exact hi.running hx c hc
      · rw [List.mem_singleton.mp hc]
        rfl
    · exact hi.running hx c hc
  refine ⟨?_, ?_, fun _ => hold, endsLast_of_running hold, fun n hn => absurd (hold _ hn) (by simp [Callback.terminal])⟩
  · have hrise : Rising s'.down.bytesWritten s.downReports := hi.rising.raise (by omega)
    rw [hcb]
    split
    · rename_i hnew
      have hpos := List.length_pos_iff.mpr hnew.2
      refine hrise.progress fun n hn => ?_
      have hle := hi.rising.le n hn
      omega
    · exact hrise
  · have hgot := hi.got
    rw [hw, hout, List.length_append]
    omega

/-- The downlink reads FIN: it has written everything, and will say so. -/
theorem ReceiverCounts.finish (hi : ReceiverCounts s) (hb : Bytes s) (hx : s.down.pc.ended = false)
    (hx' : s'.down.pc.ended = true) (hcb : s'.downReports = s.downCallbacks ++ [.done s.down.bytesWritten])
    (hw : s'.down.bytesWritten = s.down.bytesWritten) (hout : s'.down.out = s.down.out) : ReceiverCounts s' := by
  rw [← downReports_of_running hx] at hcb
  refine ⟨?_, ?_, fun h => absurd hx' (Bool.eq_false_iff.mp h), ?_, ?_⟩
  · rw [hw, hcb]
    exact hi.rising.done
  · rw [hw, hout]
    exact hi.got
  · rw [hcb]
    exact .snoc (hi.running hx) _
  · intro n hn
    rw [hcb] at hn
    rcases List.mem_append.mp hn with hn | hn
    · exact absurd (hi.running hx _ hn) (by simp [Callback.terminal])
    · cases List.mem_singleton.mp hn
      rw [hout, hb.outOk.out hx, List.length_take, Nat.min_eq_left hb.outOk.le]

theorem step_receiverCounts {a : Act} (hi : ReceiverCounts s) (hl : Living s) (h : s.step a = some s') :
    ReceiverCounts s' := by
  have hstays : s.down.pc.ended = true → s'.down.pc.ended = true := fun hx => down_ended_stays hl.sound.connect hx h
  have hruns : s.down.pc.ended = false → s'.down.pc.ended = false → s'.downCallbacks = s.downCallbacks →
      s'.downReports = s.downReports := by
    intro hx hx' hcb
    rw [downReports_of_running hx, downReports_of_running hx', hcb]
  cases a with
  | reader a => cases readerStep_cases h <;> exact hi.keep rfl rfl rfl hstays
  | ticket a => cases ticketStep_cases h <;> exact hi.keep rfl rfl rfl hstays
  | pump a => cases pumpStep_cases h <;> exact hi.keep rfl rfl rfl hstays
  | ack a => cases ackStep_cases h <;> exact hi.keep rfl rfl rfl hstays
  | link a => cases linkStep_cases h <;> exact hi.keep rfl rfl rfl hstays
  | down a =>
    cases downStep_cases h with
    | acceptConnect _ hu =>
      have hx : s.down.pc.ended = false := by rw [hl.sound.connect.absent (hl.sound.connect.first _ _ hu)]; rfl
      exact hi.keep rfl rfl (hruns hx rfl rfl) hstays
    | start hpc | tcpAccept hpc | readError hpc | resume hpc =>
      exact hi.keep rfl rfl (hruns (by rw [hpc]; rfl) rfl rfl) hstays
    | tcpAcceptFail hpc | gap _ hpc => exact hi.fail (by rw [hpc]; rfl) rfl rfl rfl (Nat.le_refl _)
    | lost hpc => exact hi.fail (by rw [hpc]; rfl) rfl rfl rfl (Nat.le_refl _)
    | writeFail _ hpc =>
      refine hi.fail (by rw [hpc]; rfl) rfl rfl rfl ?_
      rw [List.length_append]
      exact Nat.le_add_right ..
    | write _ hpc | writeAck _ hpc => exact hi.write (by rw [hpc]; rfl) rfl rfl rfl rfl
    | eof hpc => exact hi.finish hl.sound.bytes (by rw [hpc]; rfl) rfl rfl rfl rfl
    | report hpc =>
      have hx : s.down.pc.ended = true := by rw [hpc]; rfl
      exact hi.keep rfl rfl (ended_frozen hl.sound.connect hx h).2.2 hstays
    | _ => exact hi.keep rfl rfl rfl hstays

/-! ## Both agents -/

structure CountsOk (s : Transfer) : Prop where
  living : Living s
  counted : Counted s
  sender : SenderCounts s
  receiver : ReceiverCounts s
  told : ∀ n, .done n ∈ s.callbacks → Completed s.downReports

theorem completed_stays {a : Act} (hd : Completed s.downReports) (hl : Living s) (h : s.step a = some s') :
    Completed s'.downReports := by
  rw [(ended_frozen hl.sound.connect (hl.lastWord.completed hd) h).2.2]
  exact hd

theorem reach_countsOk {capped : Bool} {ok : Transfer → Act → Prop} (h : Reach step ok (init capped) s) : CountsOk s := by
  refine h.invariant ⟨init_living capped, ⟨Nat.le_refl _, Nat.le_refl _⟩, init_senderCounts capped,
    init_receiverCounts capped, fun n hn => absurd hn List.not_mem_nil⟩ ?_
  intro s s' a hi _ hs
  refine ⟨step_living hi.living hs, step_counted hi.counted hi.living.sound.bytes hs,
    step_senderCounts hi.sender hi.living.sound.bytes hs, step_receiverCounts hi.receiver hi.living hs, ?_⟩
  intro n hn
  refine completed_stays ?_ hi.living hs
  rcases sender_done_cases hs hn with hn | ⟨_, _, rest, hrx⟩
  · exact hi.told n hn
  · exact (hi.living.lastWord.inbox .done (by rw [hrx]; exact List.mem_cons_self)).2

/-- The sender says no more than the receiving client has got. -/
theorem CountsOk.sent (hi : CountsOk s) : Rising s.down.out.length s.callbacks :=
  hi.sender.rising.raise (Nat.le_trans hi.counted.sent hi.receiver.got)

/-- A report of the receiver's is fired, or the task is on its way to fire it. -/
theorem mem_downReports {c : Callback} : c ∈ s.downReports ↔ c ∈ s.downCallbacks ∨ ∃ sid, s.down.pc = .report sid c := by
  unfold downReports
  cases s.down.pc <;> simp [DownPc.reports, eq_comm]

/-- In every run, whatever fails: each agent's counts never fall and are at most what the
    receiving client has got; the receiver says nothing after an end; and when the sender
    calls a stream done, the receiver has read FIN: it has called the stream done, with
    everything it wrote, or has written `Done` and is about to. -/
theorem counts_never_overstate {capped : Bool} (h : Reach step anyStep (init capped) s) :
    Rising s.down.out.length s.callbacks ∧ Rising s.down.out.length s.downCallbacks ∧ EndsLast s.downCallbacks ∧
      ∀ n, .done n ∈ s.callbacks → n ≤ s.down.out.length ∧
        (.done s.down.out.length ∈ s.downCallbacks ∨ ∃ sid, s.down.pc = .report sid (.done s.down.out.length)) := by
  have hi := reach_countsOk h
  have hfired : s.downCallbacks <+: s.downReports := DownPc.prefix_reports ..
  refine ⟨hi.sent, (hi.receiver.rising.raise hi.receiver.got).sublist hfired.sublist, hi.receiver.last.of_prefix hfired,
    fun n hn => ⟨hi.sent.le n ?_, ?_⟩⟩
  · exact List.mem_filterMap.mpr ⟨_, hn, rfl⟩
  · obtain ⟨m, hm⟩ := hi.told n hn
    rw [← mem_downReports]
    exact hi.receiver.done m hm ▸ hm

/-- Two chunks with a report each, and both agents' ends, the sender's first: it has
    counted nothing. -/
theorem counts_never_overstate_done :
    ∃ s s', Reach step anyStep (init true) s ∧ s.downCallbacks = [.progress 2, .progress 3] ∧ s.callbacks = [.done 0] ∧
      s.down.out.length = 3 ∧ (∃ sid, s.down.pc = .report sid (.done 3)) ∧
      s.step (.down .report) = some s' ∧ s'.downCallbacks = [.progress 2, .progress 3, .done 3] ∧
      Rising s'.down.out.length s'.downCallbacks ∧ EndsLast s'.downCallbacks := by
  obtain ⟨s, hr, hs⟩ := Reach.exists_run step anyStep (init true)
    [[.reader .accept], writeAndPush [1, 2, 3], closeClient, grant 2, sendChunk, sendAndFinish 9, startDownlink,
      [.down (.chunk true), .down (.chunk true), .down .eof, .ack .readMsg, .ack .msg]].flatten
    (fun s => s.downCallbacks = [.progress 2, .progress 3] ∧ s.callbacks = [.done 0] ∧ s.down.out.length = 3 ∧
      (s.step (.down .report)).any fun s' => s'.downCallbacks = [.progress 2, .progress 3, .done 3])
    (by decide +kernel)
  obtain ⟨hdown, hup, hout, hnext⟩ := of_decide_eq_true hs
  obtain ⟨s', hstep, hdown'⟩ := Option.any_eq_true .. |>.mp hnext
  obtain ⟨_, _, _, hdone⟩ := counts_never_overstate hr
  have hcoming := (hdone 0 (by rw [hup]; exact List.mem_singleton_self _)).2
  rw [hout, hdown] at hcoming
  obtain ⟨_, hrise, hlast, _⟩ := counts_never_overstate (.step _ hr trivial hstep)
  exact ⟨s, s', hr, hdown, hup, hout, hcoming.resolve_left (by simp), hstep, of_decide_eq_true hdown', hrise, hlast⟩

end Transfer

end Quelay.Agent
