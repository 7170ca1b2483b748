/-
  Quelay.Agent.Registrations — `register` and `deregister` against the timer's ticks
  (`quelay-agent/src/rate_limiter.rs`).

  Each call is two steps, one under each lock, and a uuid's calls follow one another: it
  is registered, deregistered, and may be registered again. Its pump holds the other end
  of the ticket channel that the call made, and `try_send` finds the channel closed once
  the pump has exited.

  A tick cleans up by uuid what it found closed in the channels of its snapshot. A uuid
  that is deregistered and registered again in between is cleaned up with the rest: its
  new entries go, and its new pump gets no tickets (`tick_evicts_new_registration`). If no
  uuid is registered again while a tick holds it from before, every stream that should be
  registered is (`registered_while_pump_runs`).
-/

import Quelay.Agent.AggregateRateLimiter
import Quelay.Domain.SchedulerTables

namespace Quelay.Agent

open Quelay.Domain Quelay.Lib

/-- Where a uuid is in its calls. -/
inductive Lifecycle where
  | out
  | registering
  | registered (channel : Nat)
  | deregistering
  deriving DecidableEq, Repr

/-- The limiter, with the calls made on it and the ticket channels whose pumps have
    exited. -/
structure Arl where
  limiter : Limiter
  life : Uuid → Lifecycle
  exited : Nat → Bool

inductive ArlAct where
  | register (uuid : Uuid) (p : Priority)
  | insertStream (uuid : Uuid)
  | deregister (uuid : Uuid)
  | removeStream (uuid : Uuid)
  | pumpExits (channel : Nat)
  | other (a : LimiterAct)

namespace Arl

def new : Arl := ⟨.new, fun _ => .out, fun _ => false⟩

/-- The timer's steps and the stores of offsets; `try_send` answers `closed` exactly when
    the channel's pump has exited. -/
def answers (s : Arl) : LimiterAct → Bool
  | .registerScheduler _ _ | .registerStreams _ | .deregisterScheduler _ | .deregisterStreams _ => false
  | .deliver answer =>
    match s.limiter.pc with
    | .deliver snap ((uuid, _) :: _) _ _ =>
      match snap.find? (·.uuid = uuid) with
      | some x => (answer == .closed) == s.exited x.allocTx
      | none => true
    | _ => true
  | _ => true

/-- One half of a call. -/
def call (s : Arl) (p : RateParams) (uuid : Uuid) (before after : Lifecycle) (a : LimiterAct) : Option Arl :=
  if s.life uuid = before then
    (s.limiter.step p a).map fun l => { s with limiter := l, life := Function.update s.life uuid after }
  else none

def step (p : RateParams) (s : Arl) : ArlAct → Option Arl
  | .register uuid prio => s.call p uuid .out .registering (.registerScheduler uuid prio)
  | .insertStream uuid => s.call p uuid .registering (.registered s.limiter.channels) (.registerStreams uuid)
  | .deregister uuid =>
    match s.life uuid with
    | .registered c => s.call p uuid (.registered c) .deregistering (.deregisterScheduler uuid)
    | _ => none
  | .removeStream uuid => s.call p uuid .deregistering .out (.deregisterStreams uuid)
  | .pumpExits c => some { s with exited := Function.update s.exited c true }
  | .other a => if s.answers a then (s.limiter.step p a).map fun l => { s with limiter := l } else none

/-! ## What is meant by present -/

/-- No call and no tick is in progress. -/
def Quiet (s : Arl) : Prop := s.limiter.pc = .waiting ∧ ∀ u, s.life u ≠ .registering ∧ s.life u ≠ .deregistering

/-- The stream is in both tables. -/
def Present (s : Arl) (u : Uuid) : Prop :=
  (∃ e, (u, e) ∈ s.limiter.streams) ∧ s.limiter.scheduler.Lists u

end Arl

/-- What the tick in progress sampled. -/
def TickPc.snapshot : TickPc → List Sampled
  | .schedule snap => snap
  | .deliver snap _ _ _ => snap
  | _ => []

/-- The uuids the tick in progress is going to clean up. -/
def TickPc.closed : TickPc → List Uuid
  | .deliver _ _ _ closed => closed
  | .cleanStreams closed => closed
  | .cleanScheduler closed => closed
  | _ => []

/-- The tick in progress has the uuid from before. -/
def TickPc.holds (pc : TickPc) (u : Uuid) : Bool := pc.snapshot.any (·.uuid = u) || pc.closed.contains u

/-- A uuid is not registered while the tick in progress holds it. -/
def outsideTicks (s : Arl) : ArlAct → Bool
  | .register u _ => !s.limiter.pc.holds u
  | _ => true

/-! ## The invariant -/

/-- What the tables and the tick in progress have of a uuid, from where it is in its calls. -/
structure Row (sched : DrrScheduler) (streams : List (Uuid × Registered)) (pc : TickPc) (exited : Nat → Bool)
    (u : Uuid) (l : Lifecycle) : Prop where
  out : l = .out ∨ l = .deregistering → (sched.streams u).isSome = false
  registering : l = .registering → (sched.streams u).isSome = true ∧ pc.holds u = false
  registered : ∀ c, l = .registered c → exited c = false → (sched.streams u).isSome = true ∧ ∃ e, (u, e) ∈ streams
  entries : ∀ e, (u, e) ∈ streams → l = .registered e.allocTx ∨ l = .deregistering
  sampled : ∀ x ∈ pc.snapshot, x.uuid = u → ∀ c, l = .registered c → c = x.allocTx
  closed : u ∈ pc.closed → ∀ c, l = .registered c → exited c = true

structure Arl.Ok (s : Arl) : Prop where
  sound : s.limiter.scheduler.Sound
  rows : ∀ u, Row s.limiter.scheduler s.limiter.streams s.limiter.pc s.exited u (s.life u)

theorem holds_of_closed (pc : TickPc) {u : Uuid} (h : u ∈ pc.closed) : pc.holds u = true := by
  simp [TickPc.holds, h]

theorem holds_of_sampled (pc : TickPc) {x : Sampled} (h : x ∈ pc.snapshot) : pc.holds x.uuid = true := by
  simp only [TickPc.holds, Bool.or_eq_true, List.any_eq_true, decide_eq_true_eq]
  exact .inl ⟨x, h, rfl⟩

theorem holds_cases {pc : TickPc} {u : Uuid} (h : pc.holds u = true) :
    (∃ x ∈ pc.snapshot, x.uuid = u) ∨ u ∈ pc.closed := by
  simpa [TickPc.holds] using h

section

variable {sched sched' : DrrScheduler} {streams streams' : List (Uuid × Registered)} {pc pc' : TickPc} {exited : Nat → Bool}
  {u : Uuid} {l : Lifecycle}

theorem Row.not_registering (h : Row sched streams pc exited u l) (hh : pc.holds u = true) : l ≠ .registering := by
  intro hl
  have := (h.registering hl).2
  rw [hh] at this
  cases this

/-- Other tables will do in which the uuid is the same. -/
theorem Row.frame (h : Row sched streams pc exited u l) (hs : (sched'.streams u).isSome = (sched.streams u).isSome)
    (he : ∀ e, (u, e) ∈ streams' ↔ (u, e) ∈ streams) : Row sched' streams' pc exited u l where
  out hl := hs.trans (h.out hl)
  registering hl := ⟨hs.trans (h.registering hl).1, (h.registering hl).2⟩
  registered c hl hc := by
    obtain ⟨hsome, e, hmem⟩ := h.registered c hl hc
    exact ⟨hs.trans hsome, e, (he e).mpr hmem⟩
  entries e hmem := h.entries e ((he e).mp hmem)
  sampled := h.sampled
  closed := h.closed

/-- What the tick was going to clean up, it may go on with. -/
theorem Row.keeps_closed (h : Row sched streams pc exited u l) (hu : u ∈ pc.closed) :
    pc.holds u = true ∧ ∀ c, l = .registered c → exited c = true :=
  ⟨holds_of_closed pc hu, h.closed hu⟩

/-- The tick moves on: it samples nothing more, and finds only held uuids closed. -/
theorem Row.move (h : Row sched streams pc exited u l) (hsnap : ∀ x ∈ pc'.snapshot, x ∈ pc.snapshot)
    (hclosed : u ∈ pc'.closed → pc.holds u = true ∧ ∀ c, l = .registered c → exited c = true) :
    Row sched streams pc' exited u l := by
  refine ⟨h.out, fun hl => ⟨(h.registering hl).1, ?_⟩, h.registered, h.entries, fun x hx => h.sampled x (hsnap x hx),
    fun hu => (hclosed hu).2⟩
  cases hh : pc'.holds u with
  | false => rfl
  | true =>
    exfalso
    rcases holds_cases hh with ⟨x, hx, rfl⟩ | hc
    · exact h.not_registering (holds_of_sampled pc (hsnap x hx)) hl
    · exact h.not_registering (hclosed hc).1 hl

/-- The tick ends, or has not begun. -/
theorem Row.idle (h : Row sched streams pc exited u l) : Row sched streams .waiting exited u l :=
  h.move (fun _ hx => (List.not_mem_nil hx).elim) fun hu => (List.not_mem_nil hu).elim

/-- A snapshot of the table. -/
theorem Row.sample (h : Row sched streams .waiting exited u l) :
    Row sched streams (.schedule (snapshot streams)) exited u l := by
  have hfrom : ∀ x ∈ snapshot streams, x.uuid = u → l = .registered x.allocTx ∨ l = .deregistering := by
    rintro x hx rfl
    obtain ⟨⟨u, e⟩, he, rfl⟩ := List.mem_map.mp hx
    exact h.entries e he
  refine ⟨h.out, fun hl => ⟨(h.registering hl).1, ?_⟩, h.registered, h.entries, fun x hx hxu c hc => ?_,
    fun hu => (List.not_mem_nil hu).elim⟩
  · cases hh : (TickPc.schedule (snapshot streams)).holds u with
    | false => rfl
    | true =>
      exfalso
      rcases holds_cases hh with ⟨x, hx, hxu⟩ | hc
      · rcases hfrom x hx hxu with h' | h' <;> rw [hl] at h' <;> cases h'
      · cases hc
  · rcases hfrom x hx hxu with h' | h'
    · rw [hc] at h'
      exact Lifecycle.registered.inj h'
    · rw [hc] at h'
      cases h'

/-- Removing from the table what no registered stream with a running pump is. -/
theorem Row.filter (h : Row sched streams pc exited u l) (keep : Uuid × Registered → Bool)
    (hkeep : ∀ c, l = .registered c → exited c = false → ∀ e, keep (u, e) = true) :
    Row sched (streams.filter keep) pc exited u l := by
  refine ⟨h.out, h.registering, fun c hl hc => ?_, fun e he => h.entries e (List.mem_filter.mp he).1, h.sampled, h.closed⟩
  obtain ⟨hs, e, he⟩ := h.registered c hl hc
  exact ⟨hs, e, List.mem_filter.mpr ⟨he, hkeep c hl hc e⟩⟩

/-- What the tick holds closed has no running pump. -/
theorem Row.not_closed (h : Row sched streams pc exited u l) {c : Nat} (hl : l = .registered c) (hc : exited c = false) :
    u ∉ pc.closed := by
  intro hu
  have := h.closed hu c hl
  rw [hc] at this
  cases this

/-- And from the scheduler, what the tick holds closed. -/
theorem Row.deregisters (h : Row sched streams pc exited u l) :
    Row (pc.closed.foldl (·.deregister) sched) streams pc exited u l := by
  have hsome := DrrScheduler.isSome_deregisters pc.closed sched u
  have hkept : u ∉ pc.closed → ((pc.closed.foldl (·.deregister) sched).streams u).isSome = (sched.streams u).isSome := by
    intro hu
    rw [hsome, List.contains_eq_mem, decide_eq_false hu]
    rfl
  refine ⟨fun hl => by rw [hsome, h.out hl, Bool.and_false], fun hl => ?_, fun c hl hc => ?_, h.entries, h.sampled, h.closed⟩
  · have hnot : u ∉ pc.closed := fun hu => h.not_registering (holds_of_closed pc hu) hl
    obtain ⟨hs, hh⟩ := h.registering hl
    exact ⟨(hkept hnot).trans hs, hh⟩
  · obtain ⟨hs, he⟩ := h.registered c hl hc
    exact ⟨(hkept (h.not_closed hl hc)).trans hs, he⟩

end

theorem setBacklogs_shape (s : DrrScheduler) (snap : List Sampled) : s.SameShape (setBacklogs s snap) := by
  induction snap generalizing s with
  | nil => exact .refl s
  | cons x snap ih =>
    have hone : s.SameShape (s.setBacklog x.uuid x.backlog) := DrrScheduler.modify_shape s x.uuid _ fun _ => rfl
    exact hone.trans (ih _)

theorem schedule_shape_of {s : DrrScheduler} {snap : List Sampled} {budget : Nat} {order : HashOrder}
    {r : DrrScheduler × Except SchedError (List (Uuid × Nat))} (h : (setBacklogs s snap).schedule budget order = r) :
    s.SameShape r.1 := by
  rw [← h]
  exact (setBacklogs_shape s snap).trans (DrrScheduler.schedule_shape _ _ _)

/-! ## The calls -/

/-- A half of a call: the rows of the other uuids stay, and the caller's is given. -/
theorem Arl.Ok.call {s : Arl} (h : s.Ok) {u : Uuid} {after : Lifecycle} {m : Limiter} (hpc : m.pc = s.limiter.pc)
    (hsound : m.scheduler.Sound)
    (hs : ∀ v, v ≠ u → (m.scheduler.streams v).isSome = (s.limiter.scheduler.streams v).isSome)
    (he : ∀ v, v ≠ u → ∀ e, (v, e) ∈ m.streams ↔ (v, e) ∈ s.limiter.streams)
    (hrow : Row m.scheduler m.streams s.limiter.pc s.exited u after) :
    Arl.Ok { s with limiter := m, life := Function.update s.life u after } := by
  refine ⟨hsound, fun v => ?_⟩
  simp only [hpc]
  by_cases hv : v = u
  · subst hv
    rw [Function.update_self]
    exact hrow
  · rw [Function.update_of_ne hv]
    exact (h.rows v).frame (hs v hv) (he v hv)

theorem register_ok {s : Arl} (h : s.Ok) {u : Uuid} (hu : s.life u = .out) (hh : s.limiter.pc.holds u = false)
    (p : Priority) :
    Arl.Ok { s with
      limiter := { s.limiter with scheduler := s.limiter.scheduler.register u p }
      life := Function.update s.life u .registering } := by
  have hrow := h.rows u
  rw [hu] at hrow
  have hsome := DrrScheduler.isSome_register s.limiter.scheduler u p
  have hnone : s.limiter.scheduler.streams u = none := by simpa using hrow.out (.inl rfl)
  refine h.call rfl (h.sound.register hnone p) (fun v hv => ?_) (fun v _ e => Iff.rfl) ?_
  · rw [hsome, decide_eq_false hv]
    rfl
  · refine ⟨fun hl => ?_, fun _ => ⟨?_, hh⟩, fun c hl => ?_, fun e he => ?_, fun x _ _ c hl => ?_, fun _ c hl => ?_⟩
    · rcases hl with hl | hl <;> cases hl
    · rw [hsome, decide_eq_true rfl]
      rfl
    · cases hl
    · rcases hrow.entries e he with h' | h' <;> cases h'
    · cases hl
    · cases hl

theorem insertStream_ok {s : Arl} (h : s.Ok) {u : Uuid} (hu : s.life u = .registering) :
    Arl.Ok { s with
      limiter := s.limiter.insertStream u
      life := Function.update s.life u (.registered s.limiter.channels) } := by
  have hrow := h.rows u
  rw [hu] at hrow
  obtain ⟨hsome, hh⟩ := hrow.registering rfl
  refine h.call rfl h.sound (fun v _ => rfl) (fun v hv e => ?_) ?_
  · simp [Limiter.insertStream, hv]
  · refine ⟨fun hl => ?_, fun hl => ?_, fun c _ _ => ⟨hsome, _, List.mem_cons_self⟩, fun e he => ?_, fun x hx hxu => ?_,
      fun hc => ?_⟩
    · rcases hl with hl | hl <;> cases hl
    · cases hl
    · rcases List.mem_cons.mp he with heq | he
      · cases heq
        exact .inl rfl
      · simpa using (List.mem_filter.mp he).2
    · -- The tick in progress does not know the uuid.
      rw [← hxu, holds_of_sampled _ hx] at hh
      cases hh
    · rw [holds_of_closed _ hc] at hh
      cases hh

theorem deregister_ok {s : Arl} (h : s.Ok) {u : Uuid} :
    Arl.Ok { s with
      limiter := { s.limiter with scheduler := s.limiter.scheduler.deregister u }
      life := Function.update s.life u .deregistering } := by
  have hsome := DrrScheduler.isSome_deregister s.limiter.scheduler u
  refine h.call rfl (h.sound.deregister u) (fun v hv => ?_) (fun v _ e => Iff.rfl) ?_
  · rw [hsome, decide_eq_false hv]
    rfl
  · refine ⟨fun _ => ?_, fun hl => ?_, fun c hl => ?_, fun e _ => .inr rfl, fun x _ _ c hl => ?_, fun _ c hl => ?_⟩
    · rw [hsome, decide_eq_true rfl]
      rfl
    · cases hl
    · cases hl
    · cases hl
    · cases hl

theorem removeStream_ok {s : Arl} (h : s.Ok) {u : Uuid} (hu : s.life u = .deregistering) :
    Arl.Ok { s with
      limiter := { s.limiter with streams := s.limiter.streams.filter (·.1 != u) }
      life := Function.update s.life u .out } := by
  have hrow := h.rows u
  rw [hu] at hrow
  refine h.call rfl h.sound (fun v _ => rfl) (fun v hv e => ?_) ?_
  · simp [hv]
  · refine ⟨fun _ => hrow.out (.inr rfl), fun hl => ?_, fun c hl => ?_, fun e he => ?_, fun x _ _ c hl => ?_,
      fun _ c hl => ?_⟩
    · cases hl
    · cases hl
    · simpa using (List.mem_filter.mp he).2
    · cases hl
    · cases hl

/-- Stores to an entry's offsets keep its channel. -/
theorem Row.store {sched : DrrScheduler} {streams : List (Uuid × Registered)} {pc : TickPc} {exited : Nat → Bool} {u : Uuid}
    {l : Lifecycle} (h : Row sched streams pc exited u l) (f : Uuid × Registered → Uuid × Registered)
    (hf : ∀ x, (f x).1 = x.1 ∧ (f x).2.allocTx = x.2.allocTx) : Row sched (streams.map f) pc exited u l := by
  refine ⟨h.out, h.registering, fun c hl hc => ?_, fun e he => ?_, h.sampled, h.closed⟩
  · obtain ⟨hs, e, he⟩ := h.registered c hl hc
    refine ⟨hs, (f (u, e)).2, List.mem_map.mpr ⟨(u, e), he, ?_⟩⟩
    exact Prod.ext (hf (u, e)).1 rfl
  · obtain ⟨x, hx, hfx⟩ := List.mem_map.mp he
    obtain ⟨h1, h2⟩ := hf x
    rw [hfx] at h1 h2
    simp only at h1 h2
    subst h1
    rw [h2]
    exact h.entries x.2 hx

/-! ## Steps and runs -/

/-- The timer's steps. -/
theorem timer_ok {p : RateParams} {s : Arl} {m : Limiter} {a : LimiterAct} (h : s.Ok) (ha : s.answers a = true)
    (hs : s.limiter.step p a = some m) : Arl.Ok { s with limiter := m } := by
  have hrow : ∀ {pc : TickPc}, s.limiter.pc = pc → ∀ u, Row s.limiter.scheduler s.limiter.streams pc s.exited u (s.life u) :=
    fun hpc u => hpc ▸ h.rows u
  cases Limiter.step_cases hs with
  | registerScheduler | registerStreams | deregisterScheduler | deregisterStreams => cases ha
  | storeOffsets uuid =>
    refine ⟨h.sound, fun u => (h.rows u).store _ fun x => ?_⟩
    by_cases hx : x.1 = uuid
    · simp [hx]
    · simp [hx]
  | setSession => exact ⟨h.sound, h.rows⟩
  | tick hpc => exact ⟨h.sound, fun u => (hrow hpc u).sample⟩
  | scheduleError hpc hrun =>
    have hshape := schedule_shape_of hrun
    exact ⟨h.sound.of_shape hshape, fun u => ((h.rows u).frame (hshape.isSome u) fun _ => Iff.rfl).idle⟩
  | schedule hpc hrun =>
    have hshape := schedule_shape_of hrun
    refine ⟨h.sound.of_shape hshape, fun u => ?_⟩
    exact ((hrow hpc u).frame (hshape.isSome u) fun _ => Iff.rfl).move (fun x hx => hx) fun hu => (List.not_mem_nil hu).elim
  | skip hpc | sent hpc =>
    exact ⟨h.sound, fun u => (hrow hpc u).move (fun x hx => hx) fun hu => (hrow hpc u).keeps_closed hu⟩
  | @gone snap uuid _ _ _ _ x hpc hx =>
    -- The channel that was sampled is closed, and the uuid has no other.
    have hexited : s.exited x.allocTx = true := by
      simp only [Arl.answers, hpc, hx] at ha
      simpa using ha
    have huuid : x.uuid = uuid := by simpa using List.find?_some hx
    have hmem : x ∈ snap := List.mem_of_find?_eq_some hx
    refine ⟨h.sound, fun u => (hrow hpc u).move (fun x hx => hx) fun hu => ?_⟩
    rcases List.mem_append.mp hu with hu | hu
    · exact (hrow hpc u).keeps_closed hu
    · obtain rfl := List.mem_singleton.mp hu
      refine ⟨huuid ▸ holds_of_sampled (.deliver _ _ _ _) hmem, fun c hc => ?_⟩
      rw [(hrow hpc u).sampled x hmem huuid c hc]
      exact hexited
  | deduct wireNow hpc =>
    refine ⟨h.sound, fun u => ?_⟩
    simp only
    split
    · exact (hrow hpc u).idle
    · exact (hrow hpc u).move (fun x hx => (List.not_mem_nil hx).elim) fun hu => (hrow hpc u).keeps_closed hu
  | @cleanStreams closed hpc =>
    refine ⟨h.sound, fun u => ?_⟩
    have hfiltered := (hrow hpc u).filter (fun x => !closed.contains x.1) fun c hl hc e => by
      have hnot : u ∉ closed := (hrow hpc u).not_closed hl hc
      simpa using hnot
    exact hfiltered.move (fun x hx => hx) fun hu => (hrow hpc u).keeps_closed hu
  | cleanScheduler hpc => exact ⟨h.sound.deregisters _, fun u => (hrow hpc u).deregisters.idle⟩

theorem call_cases {p : RateParams} {s s' : Arl} {u : Uuid} {before after : Lifecycle} {a : LimiterAct}
    (h : s.call p u before after a = some s') :
    s.life u = before ∧ ∃ m, s.limiter.step p a = some m ∧
      s' = { s with limiter := m, life := Function.update s.life u after } := by
  unfold Arl.call at h
  split at h
  · rename_i hb
    obtain ⟨m, hm, rfl⟩ := Option.map_eq_some_iff.mp h
    exact ⟨hb, m, hm, rfl⟩
  · cases h

theorem step_ok {p : RateParams} {s s' : Arl} {a : ArlAct} (h : s.Ok) (hok : outsideTicks s a = true)
    (hs : s.step p a = some s') : s'.Ok := by
  cases a with
  | register u prio =>
    obtain ⟨hb, m, hm, rfl⟩ := call_cases hs
    simp only [Limiter.step, Option.some.injEq] at hm
    subst hm
    exact register_ok h hb (by simpa [outsideTicks] using hok) prio
  | insertStream u =>
    obtain ⟨hb, m, hm, rfl⟩ := call_cases hs
    simp only [Limiter.step, Option.some.injEq] at hm
    subst hm
    exact insertStream_ok h hb
  | deregister u =>
    simp only [Arl.step] at hs
    split at hs
    · obtain ⟨-, m, hm, rfl⟩ := call_cases hs
      simp only [Limiter.step, Option.some.injEq] at hm
      subst hm
      exact deregister_ok h
    · cases hs
  | removeStream u =>
    obtain ⟨hb, m, hm, rfl⟩ := call_cases hs
    simp only [Limiter.step, Option.some.injEq] at hm
    subst hm
    exact removeStream_ok h hb
  | pumpExits c =>
    simp only [Arl.step, Option.some.injEq] at hs
    subst hs
    refine ⟨h.sound, fun u => ?_⟩
    have hrow := h.rows u
    refine ⟨hrow.out, hrow.registering, fun c' hl hc' => hrow.registered c' hl ?_, hrow.entries, hrow.sampled,
      fun hu c' hl => ?_⟩
    · by_cases hcc : c' = c
      · subst hcc
        simp at hc'
      · simpa only [Function.update_of_ne hcc] using hc'
    · by_cases hcc : c' = c
      · subst hcc
        simp
      · simp only [Function.update_of_ne hcc]
        exact hrow.closed hu c' hl
  | other a =>
    simp only [Arl.step] at hs
    split at hs
    · rename_i ha
      obtain ⟨m, hm, rfl⟩ := Option.map_eq_some_iff.mp hs
      exact timer_ok h ha hm
    · cases hs

theorem init_ok : Arl.new.Ok := by
  refine ⟨⟨.start, rfl, Traced.tables_start⟩, fun u => ⟨fun _ => rfl, fun hl => ?_, fun c hl => ?_, fun e he => ?_,
    fun x hx => ?_, fun hu => ?_⟩⟩
  · cases hl
  · cases hl
  · cases he
  · cases hx
  · cases hu

/-- In every run in which no uuid is registered while the tick in progress holds it: when
    no call and no tick is in progress, every stream whose last call is `register` and
    whose pump runs is in both tables. -/
theorem registered_while_pump_runs (p : RateParams) {s : Arl}
    (h : Reach (Arl.step p) (fun s a => outsideTicks s a = true) Arl.new s) :
    s.Quiet → ∀ u c, s.life u = .registered c → s.exited c = false → s.Present u := by
  have hok : s.Ok := h.invariant (P := Arl.Ok) init_ok fun hi ha hs => step_ok hi ha hs
  intro _ u c hu hc
  obtain ⟨hs, he⟩ := (hok.rows u).registered c hu hc
  exact ⟨he, hok.sound.lists hs⟩

/-- A tick of 100 bytes every five milliseconds. -/
def slowParams : RateParams := ⟨5, 100, by decide⟩

/-- A uuid is registered, its pump exits, and the tick finds the channel closed; between
    the ticket and the clean-up it is deregistered and registered again. -/
def reusedInTick : List ArlAct :=
  let u : Uuid := ⟨1⟩
  [.register u .bulkPriorityMin, .insertStream u, .other (.storeOffsets u 50 0), .pumpExits 0, .other .tick,
    .other (.schedule .inserted), .other (.deliver .closed), .other (.deduct 0), .deregister u, .removeStream u,
    .register u .bulkPriorityMin, .insertStream u, .other .cleanStreams, .other .cleanScheduler]

/-- The calls are all about one uuid. -/
def ArlAct.only (u : Uuid) : ArlAct → Bool
  | .register v _ | .insertStream v | .deregister v | .removeStream v => v == u
  | _ => true

theorem call_others {p : RateParams} {s s' : Arl} {u v : Uuid} {before after : Lifecycle} {a : LimiterAct} (hv : v ≠ u)
    (h : s.call p u before after a = some s') : s'.life v = s.life v := by
  obtain ⟨-, l, -, rfl⟩ := call_cases h
  exact Function.update_of_ne hv _ _

theorem step_others {p : RateParams} {s s' : Arl} {a : ArlAct} {u v : Uuid} (hv : v ≠ u) (ha : a.only u = true)
    (h : s.step p a = some s') : s'.life v = s.life v := by
  cases a with
  | register w prio =>
    obtain rfl : w = u := by simpa [ArlAct.only] using ha
    exact call_others hv h
  | insertStream w =>
    obtain rfl : w = u := by simpa [ArlAct.only] using ha
    exact call_others hv h
  | deregister w =>
    obtain rfl : w = u := by simpa [ArlAct.only] using ha
    simp only [Arl.step] at h
    split at h
    · exact call_others hv h
    · cases h
  | removeStream w =>
    obtain rfl : w = u := by simpa [ArlAct.only] using ha
    exact call_others hv h
  | pumpExits c =>
    simp only [Arl.step, Option.some.injEq] at h
    subst h
    rfl
  | other a =>
    simp only [Arl.step] at h
    split at h
    · obtain ⟨l, -, rfl⟩ := Option.map_eq_some_iff.mp h
      rfl
    · cases h

/-- Between ticks, with the one uuid registered, nothing is in progress. -/
theorem quiet_of_one {p : RateParams} {s : Arl} {u : Uuid} {c : Nat}
    (h : Reach (Arl.step p) (fun _ a => a.only u = true) Arl.new s) (hpc : s.limiter.pc = .waiting)
    (hu : s.life u = .registered c) : s.Quiet := by
  have hout : ∀ v, v ≠ u → s.life v = .out := by
    refine h.invariant (P := fun s => ∀ v, v ≠ u → s.life v = .out) (fun v _ => rfl) fun hi ha hs v hv => ?_
    rw [step_others hv ha hs]
    exact hi v hv
  refine ⟨hpc, fun v => ?_⟩
  by_cases hv : v = u
  · subst hv
    rw [hu]
    exact ⟨by simp, by simp⟩
  · rw [hout v hv]
    exact ⟨by simp, by simp⟩

/-- The tick evicts the second registration: nothing is in progress, the pump of the
    uuid's newest channel runs, and the stream is in neither table. -/
theorem tick_evicts_new_registration :
    ∃ s, Reach (Arl.step slowParams) anyStep Arl.new s ∧ s.Quiet ∧ s.life ⟨1⟩ = .registered 1 ∧ s.exited 1 = false ∧
      ¬ s.Present ⟨1⟩ := by
  obtain ⟨s, hr, hs⟩ := Reach.exists_run (Arl.step slowParams) (fun _ a => a.only ⟨1⟩ = true) Arl.new reusedInTick
    (fun s => decide (s.limiter.pc = .waiting ∧ s.life ⟨1⟩ = .registered 1 ∧ s.exited 1 = false ∧ s.limiter.streams = []))
    (by decide +kernel)
  obtain ⟨hpc, hl, he, hempty⟩ := of_decide_eq_true hs
  refine ⟨s, hr.any, quiet_of_one hr hpc hl, hl, he, ?_⟩
  rintro ⟨⟨e, hmem⟩, -⟩
  rw [hempty] at hmem
  cases hmem

/-- Deregistered and registered again between two ticks; the second tick delivers a
    ticket to the new channel. -/
def reusedBetweenTicks : List ArlAct :=
  let u : Uuid := ⟨1⟩
  [.register u .bulkPriorityMin, .insertStream u, .other (.storeOffsets u 50 0), .other .tick,
    .other (.schedule .inserted), .other (.deliver .ok), .other (.deduct 0), .pumpExits 0, .deregister u,
    .removeStream u, .register u .bulkPriorityMin, .insertStream u, .other .tick, .other (.schedule .inserted),
    .other (.deduct 0)]

theorem registered_again_between_ticks :
    ∃ s, Reach (Arl.step slowParams) (fun s a => outsideTicks s a = true) Arl.new s ∧ s.life ⟨1⟩ = .registered 1 ∧
      s.Present ⟨1⟩ := by
  have hrun : (runAllowed (Arl.step slowParams) (fun s a => outsideTicks s a = true ∧ a.only ⟨1⟩ = true) Arl.new
      reusedBetweenTicks).any (fun s => decide (s.limiter.pc = .waiting ∧ s.life ⟨1⟩ = .registered 1 ∧ s.exited 1 = false))
      = true := by decide +kernel
  obtain ⟨s, hr, hs⟩ := Reach.exists_run _ _ _ _ _ hrun
  obtain ⟨hpc, hl, he⟩ := of_decide_eq_true hs
  have hquiet := quiet_of_one (hr.mono fun _ _ h => h.2) hpc hl
  have hok : Reach (Arl.step slowParams) (fun s a => outsideTicks s a = true) Arl.new s := hr.mono fun _ _ h => h.1
  exact ⟨s, hok, hl, registered_while_pump_runs slowParams hok hquiet ⟨1⟩ 1 hl he⟩

end Quelay.Agent
