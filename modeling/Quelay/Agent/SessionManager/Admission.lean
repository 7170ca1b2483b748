/-
  Quelay.Agent.SessionManager.Admission — what opening a stream leaves in the rate limiter.

  `open_stream_on_session` registers the stream with the rate limiter before
  `spawn_uplink` binds its listener, and returns early, still registered, when that fails.
  The stream is tried again later and is registered once more: the scheduler gives it two
  places in its round (`late_failure_registers_twice`). The other failures come before
  `register` and leave the tables alone. As long as no listener fails, the scheduler and
  the table have each active uplink once and nothing else (`failed_open_leaves_no_trace`).

  A `Node` is the manager beside the rate limiter that its commands and its uplinks' tasks
  call. Without a cap `register` makes no ticket channel and no entry in the table.
-/

import Quelay.Agent.AggregateRateLimiter
import Quelay.Agent.SessionManager.Uplinks
import Quelay.Domain.SchedulerTables

namespace Quelay.Agent

open Quelay.Lib Quelay.Domain

/-- `register`, both of its halves. -/
def Limiter.register (capped : Bool) (l : Limiter) (uuid : Uuid) (p : Priority) : Limiter :=
  let l := { l with scheduler := l.scheduler.register uuid p }
  if capped then l.insertStream uuid else l

def Limiter.deregister (l : Limiter) (uuid : Uuid) : Limiter :=
  { l with scheduler := l.scheduler.deregister uuid, streams := l.streams.filter (·.1 != uuid) }

namespace SessionManager

structure Node where
  manager : Manager
  limiter : Limiter

namespace Node

open Framing Manager

section

variable (json : SerdeJson StreamHeader) (capped : Bool)

/-! ## The rate limiter's side of a step -/

/-- What `open_stream_on_session` does to the rate limiter, and whether it returned a
    handle. -/
def openStreamOnSession (opens : PendingStream → OpenResult) (l : Limiter) (p : PendingStream) : Limiter × Bool :=
  match openResult json opens p with
  | .refused => (l, false)
  | .registered => (l.register capped p.uuid p.priority, false)
  | .opened => (l.register capped p.uuid p.priority, true)

/-- How the attempts of a step to open streams end. -/
def opensOf : Act → PendingStream → OpenResult
  | .streamStart _ _ _ opens | .streamFinished _ opens | .setMaxConcurrent _ opens | .reconnect _ opens => opens
  | _ => fun _ => .refused

/-- The stream that `promote_pending` tries to open. -/
def promoteTries (r : RemoteState) : List PendingStream := if r.hasActiveSlot ∧ r.session then r.pending.take 1 else []

/-- The streams that a step tries to open, in order. -/
def tries (m : Manager) : Act → List PendingStream
  | .streamStart uuid info priority _ =>
    if m.remote.hasActiveSlot ∧ m.remote.session then [m.newStream uuid info priority] else []
  | .streamFinished uuid _ => promoteTries (m.removeUplink uuid).remote
  | .setMaxConcurrent limit _ => promoteTries { m.remote with maxConcurrent := limit }
  | .reconnect restores opens =>
    let m := { m with remote := { m.remote with session := true }, opens := opens }.restoreActive restores
    drainTries json opens m.remote.pending m
  | _ => []

/-- The uuids that a step deregisters. -/
def leaves (m : Manager) : Act → List Uuid
  | .deregister number => ((m.tasks.find? fun t => t.number == number && t.pc == .deregister).map (·.uuid)).toList
  | _ => []

def limiterAfter (s : Node) (a : Act) : Limiter :=
  (leaves s.manager a).foldl Limiter.deregister
    ((tries json s.manager a).foldl (fun l p => (openStreamOnSession json capped (opensOf a) l p).1) s.limiter)

def step (s : Node) (a : Act) : Option Node := (s.manager.step json a).map fun m => ⟨m, limiterAfter json capped s a⟩

end

def init (maxConcurrent maxPending : Nat) : Node := ⟨.init maxConcurrent maxPending, .new⟩

/-- The uplinks that have not left the rate limiter yet. -/
def active (m : Manager) : List Uuid := (m.tasks.filter fun t => enrolled t.pc).map (·.uuid)

/-! ## The manager's own table follows -/

/-- An attempt's entry in the manager's table of the limiter's streams. -/
def enter (json : SerdeJson StreamHeader) (opens : PendingStream → OpenResult) (arl : ByUuid) (p : PendingStream) : ByUuid :=
  if openResult json opens p = .refused then arl else arl.insert p.uuid p.number

section

variable {json : SerdeJson StreamHeader} {opens : PendingStream → OpenResult} {m m' m₁ : Manager} {p : PendingStream}

theorem enter_opened (ho : openResult json opens p = .opened) (arl : ByUuid) :
    enter json opens arl p = arl.insert p.uuid p.number := if_neg (by rw [ho]; simp)

theorem enter_failed (hf : Failed json opens m p m₁) : enter json opens m.arl p = m₁.arl := by
  rcases hf with ⟨hr, rfl⟩ | ⟨hr, rfl⟩
  · exact if_pos hr
  · exact if_neg (by rw [hr]; simp)

theorem arl_queueStream (m : Manager) (p : PendingStream) : (m.queueStream p).arl = m.arl := by
  unfold queueStream
  split <;> rfl

theorem arl_onStreamStart (m : Manager) (p : PendingStream) :
    (onStreamStart json opens m p).arl =
      (if m.remote.hasActiveSlot = true ∧ m.remote.session = true then [p] else []).foldl (enter json opens) m.arl := by
  unfold onStreamStart
  by_cases hslot : m.remote.hasActiveSlot = true ∧ m.remote.session = true
  · rw [if_pos hslot, if_pos hslot, List.foldl_cons, List.foldl_nil]
    rcases openStreamOnSession_cases json opens m p with ⟨ho, m₁, hopen, _, hin⟩ | ⟨m₁, hopen, hfail⟩
    · rw [hopen, enter_opened ho]
      dsimp only
      rw [hin]
      rfl
    · rw [hopen, enter_failed hfail]
      exact arl_queueStream m₁ p
  · rw [if_neg hslot, if_neg hslot]
    exact arl_queueStream m p

theorem arl_promotePending (m : Manager) :
    (promotePending json opens m).arl = (promoteTries m.remote).foldl (enter json opens) m.arl := by
  unfold promotePending promoteTries
  by_cases hslot : m.remote.hasActiveSlot = true ∧ m.remote.session = true
  · rw [if_pos hslot, if_pos hslot]
    cases hp : m.remote.pending with
    | nil => rfl
    | cons p rest =>
      rw [List.take_succ_cons, List.take_zero, List.foldl_cons, List.foldl_nil]
      dsimp only
      rcases openStreamOnSession_cases json opens m p with ⟨ho, m₁, hopen, hin, _⟩ | ⟨m₁, hopen, hfail⟩
      · rw [hopen, enter_opened ho]
        dsimp only
        rw [hin]
        rfl
      · rw [hopen, enter_failed hfail]
  · rw [if_neg hslot, if_neg hslot]
    rfl

theorem arl_tried {ps kept tried : List PendingStream} (h : Tried json opens ps m kept tried m') :
    m'.arl = tried.foldl (enter json opens) m.arl := by
  induction h with
  | nil => rfl
  | full => rfl
  | opened _ ho _ ih =>
    rw [List.foldl_cons, enter_opened ho]
    exact ih
  | failed hf _ ih =>
    rw [List.foldl_cons, enter_failed hf]
    exact ih

/-- What the manager's steps do to its own table of the limiter's streams is what they do to
    the limiter; the rest is the timer's. -/
theorem arl_step {a : Act} (hm : m.step json a = some m') (ht : ∀ uuids, a ≠ .timerRemove uuids) :
    m'.arl = (leaves m a).foldl (fun arl u => arl.erase u) ((tries json m a).foldl (enter json (opensOf a)) m.arl) := by
  cases a with
  | streamStart uuid info priority opens =>
    cases hm
    exact arl_onStreamStart _ _
  | streamFinished uuid opens =>
    cases hm
    exact arl_promotePending _
  | setMaxConcurrent limit opens =>
    cases hm
    exact arl_promotePending _
  | reconnect restores opens =>
    simp only [Manager.step] at hm
    split at hm
    · cases hm
    · cases hm
      let m₀ : Manager := { m with remote := { m.remote with session := true }, opens := opens }
      obtain ⟨kept, m₁, htried, heq⟩ := drainPending_tried json opens (m₀.restoreActive restores)
        (session_restoreActive m₀ restores)
      have harl : (m₀.restoreActive restores).arl = m.arl :=
        restoreActive_keeps (P := fun m' => m'.arl = m.arl) (fun h _ _ => h) (fun h => h) rfl
      rw [heq]
      refine (arl_tried htried).trans ?_
      rw [harl]
      rfl
  | linkFailed | pumpExits n | takeStream n | timerSnapshot =>
    cases hm
    rfl
  | ends n | finish n =>
    obtain ⟨t, _, _, _, rfl⟩ := taskStep_cases hm
    rfl
  | deregister n =>
    obtain ⟨t, ht, rfl⟩ := Option.map_eq_some_iff.mp hm
    show m.arl.erase t.uuid = (((m.tasks.find? _).map (·.uuid)).toList.foldl _ _)
    rw [ht]
    rfl
  | timerRemove uuids => exact absurd rfl (ht uuids)

end

/-- A step of commands, reconnections and tasks, no uuid twice, in which no attempt fails
    after the stream was registered. -/
def noLateFailure (json : SerdeJson StreamHeader) (s : Node) (a : Act) : Prop :=
  (∀ p ∈ tries json s.manager a, openResult json (opensOf a) p ≠ .registered) ∧
    match a with
    | .streamStart uuid _ _ _ => uuid ∉ s.manager.replies.map (·.stream.uuid)
    | .streamFinished uuid _ => uuid ∈ s.manager.finished
    | .timerSnapshot | .timerRemove _ => False
    | _ => True

instance (json : SerdeJson StreamHeader) (s : Node) (a : Act) : Decidable (noLateFailure json s a) := by
  induction a using Act.casesOn <;> dsimp only [noLateFailure] <;> infer_instance

/-! ## The invariant -/

structure Admitted (capped : Bool) (queue : List PendingStream) (m : Manager) (l : Limiter) : Prop where
  numbers : (m.tasks.map (·.number)).Nodup
  distinct : (m.tasks.map (·.uuid) ++ queue.map (·.uuid)).Nodup
  known : ∀ u ∈ m.tasks.map (·.uuid) ++ queue.map (·.uuid), u ∈ m.replies.map (·.stream.uuid)
  sound : l.scheduler.Sound
  listed : ∀ u, (l.scheduler.streams u).isSome = true ↔ u ∈ active m
  keys : (l.streams.map (·.1)).Nodup
  table : ∀ u, u ∈ l.streams.map (·.1) ↔ capped = true ∧ u ∈ active m

variable {json : SerdeJson StreamHeader} {capped : Bool} {opens : PendingStream → OpenResult} {m m' : Manager}
  {l : Limiter} {p : PendingStream} {queue queue' : List PendingStream}

theorem mem_active {u : Uuid} : u ∈ active m ↔ ∃ t ∈ m.tasks, enrolled t.pc = true ∧ t.uuid = u := by
  simp [active, and_assoc]

theorem active_sub {u : Uuid} (h : u ∈ active m) : u ∈ m.tasks.map (·.uuid) := by
  obtain ⟨t, ht, _, hu⟩ := mem_active.mp h
  exact List.mem_map.mpr ⟨t, ht, hu⟩

/-- The limiter's tables and the uplinks stay, and the queue loses no more than entries. -/
theorem Admitted.same (h : Admitted capped queue m l) (hnumbers : m'.tasks.map (·.number) = m.tasks.map (·.number))
    (huuids : m'.tasks.map (·.uuid) = m.tasks.map (·.uuid)) (hactive : active m' = active m)
    (hreplies : ∀ u ∈ m.replies.map (·.stream.uuid), u ∈ m'.replies.map (·.stream.uuid)) (hqueue : queue'.Sublist queue) : Admitted capped queue' m' l := by
  have hsub : (m'.tasks.map (·.uuid) ++ queue'.map (·.uuid)).Sublist (m.tasks.map (·.uuid) ++ queue.map (·.uuid)) := by
    rw [huuids]
    exact (List.Sublist.refl _).append (hqueue.map _)
  exact ⟨by rw [hnumbers]; exact h.numbers, h.distinct.sublist hsub, fun u hu => hreplies u (h.known u (hsub.mem hu)), h.sound,
    fun u => by rw [hactive]; exact h.listed u, h.keys, fun u => by rw [hactive]; exact h.table u⟩

/-- A stream with a uuid of its own enters the queue. -/
theorem Admitted.enqueue (h : Admitted capped queue m l) (hnew : p.uuid ∉ m.tasks.map (·.uuid) ++ queue.map (·.uuid))
    (hknown : p.uuid ∈ m.replies.map (·.stream.uuid)) (hperm : queue'.Perm (p :: queue)) : Admitted capped queue' m l := by
  have hp : (m.tasks.map (·.uuid) ++ queue'.map (·.uuid)).Perm
      (p.uuid :: (m.tasks.map (·.uuid) ++ queue.map (·.uuid))) :=
    ((List.Perm.refl _).append (hperm.map _)).trans List.perm_middle
  refine ⟨h.numbers, hp.nodup_iff.mpr (List.nodup_cons.mpr ⟨hnew, h.distinct⟩), fun u hu => ?_, h.sound, h.listed, h.keys, h.table⟩
  rcases List.mem_cons.mp (hp.mem_iff.mp hu) with rfl | hu
  · exact hknown
  · exact h.known u hu

theorem register_streams (l : Limiter) (capped : Bool) (u : Uuid) (prio : Priority) :
    (l.register capped u prio).scheduler = l.scheduler.register u prio ∧
      (l.register capped u prio).streams.map (·.1) =
        if capped then u :: (l.streams.map (·.1)).filter (· != u) else l.streams.map (·.1) := by
  unfold Limiter.register
  cases capped with
  | false => exact ⟨rfl, rfl⟩
  | true =>
    refine ⟨rfl, ?_⟩
    simp only [if_true, Limiter.insertStream, List.map_cons, List.filter_map]
    rfl

/-- A stream with a uuid of its own is opened. -/
theorem Admitted.opened (h : Admitted capped queue m l) (hnew : p.uuid ∉ m.tasks.map (·.uuid) ++ queue.map (·.uuid))
    (hknown : p.uuid ∈ m.replies.map (·.stream.uuid)) (hnumber : ¬ m.Promoted p) :
    Admitted capped queue (m.opened p) (l.register capped p.uuid p.priority) := by
  obtain ⟨hsched, hstreams⟩ := register_streams l capped p.uuid p.priority
  have huuids : (m.opened p).tasks.map (·.uuid) = m.tasks.map (·.uuid) ++ [p.uuid] := List.map_append
  have hactive : active (m.opened p) = active m ++ [p.uuid] := by
    unfold active
    show ((m.tasks ++ [_]).filter _).map _ = _
    rw [List.filter_append, List.map_append]
    rfl
  have hout : p.uuid ∉ active m := fun hu => hnew (List.mem_append_left _ (active_sub hu))
  have hnone : l.scheduler.streams p.uuid = none := by
    have : ¬ (l.scheduler.streams p.uuid).isSome = true := fun hs => hout ((h.listed _).mp hs)
    simpa using this
  have hperm : ((m.opened p).tasks.map (·.uuid) ++ queue.map (·.uuid)).Perm
      (p.uuid :: (m.tasks.map (·.uuid) ++ queue.map (·.uuid))) := by
    rw [huuids, List.append_assoc]
    exact List.perm_middle
  refine ⟨?_, hperm.nodup_iff.mpr (List.nodup_cons.mpr ⟨hnew, h.distinct⟩), fun u hu => ?_, ?_, fun u => ?_, ?_, fun u => ?_⟩
  · have hmap : (m.opened p).tasks.map (·.number) = m.tasks.map (·.number) ++ [p.number] := List.map_append
    rw [hmap]
    refine List.nodup_append.mpr ⟨h.numbers, List.nodup_singleton _, ?_⟩
    rintro n hn k hk rfl
    obtain ⟨t, ht, htn⟩ := List.mem_map.mp hn
    exact hnumber ⟨t, ht, htn.trans (List.mem_singleton.mp hk)⟩
  · rcases List.mem_cons.mp (hperm.mem_iff.mp hu) with rfl | hu
    · exact hknown
    · exact h.known u hu
  · rw [hsched]
    exact h.sound.register hnone _
  · rw [hsched, DrrScheduler.isSome_register, hactive, List.mem_append, ← h.listed, Bool.or_eq_true, decide_eq_true_eq,
      List.mem_singleton]
    exact or_comm
  · rw [hstreams]
    split
    · exact List.nodup_cons.mpr ⟨by simp, h.keys.filter _⟩
    · exact h.keys
  · rw [hstreams, hactive]
    cases capped with
    | false => simpa using h.table u
    | true =>
      have hu := h.table u
      simp only [true_and] at hu
      simp only [if_true, List.mem_cons, List.mem_filter, bne_iff_ne, ne_eq, true_and, List.mem_append,
        List.not_mem_nil, or_false, hu]
      by_cases hup : u = p.uuid <;> simp [hup]

/-- The task of an uplink deregisters it. -/
theorem Admitted.leave (h : Admitted capped queue m l) {v : Uuid}
    (hnumbers : m'.tasks.map (·.number) = m.tasks.map (·.number))
    (htasks : m'.tasks.map (·.uuid) = m.tasks.map (·.uuid)) (hreplies : m'.replies = m.replies) (hactive : ∀ u, u ∈ active m' ↔ u ≠ v ∧ u ∈ active m) :
    Admitted capped queue m' (l.deregister v) := by
  refine ⟨by rw [hnumbers]; exact h.numbers, by rw [htasks]; exact h.distinct, by rw [htasks, hreplies]; exact h.known, h.sound.deregister _, fun u => ?_, ?_,
    fun u => ?_⟩
  · show ((l.scheduler.deregister v).streams u).isSome = true ↔ _
    rw [DrrScheduler.isSome_deregister, hactive, ← h.listed]
    simp
  · show ((l.streams.filter (·.1 != v)).map (·.1)).Nodup
    exact h.keys.sublist (List.filter_sublist.map _)
  · have hmap : (l.deregister v).streams.map (·.1) = (l.streams.map (·.1)).filter (· != v) := by
      unfold Limiter.deregister
      rw [List.filter_map]
      rfl
    rw [hmap, List.mem_filter, h.table, hactive]
    simp only [bne_iff_ne]
    constructor
    · rintro ⟨⟨hc, hu⟩, hne⟩
      exact ⟨hc, hne, hu⟩
    · rintro ⟨hc, hne, hu⟩
      exact ⟨⟨hc, hu⟩, hne⟩

/-! ## Commands -/

/-- An attempt that does not succeed, and not too late either, leaves the limiter alone. -/
theorem openStreamOnSession_refused (ho : openResult json opens p ≠ .opened) (hr : openResult json opens p ≠ .registered)
    (l : Limiter) : (openStreamOnSession json capped opens l p).1 = l := by
  unfold openStreamOnSession
  split
  · rfl
  · exact absurd ‹_› hr
  · exact absurd ‹_› ho

theorem openStreamOnSession_opened (ho : openResult json opens p = .opened) (l : Limiter) :
    (openStreamOnSession json capped opens l p).1 = l.register capped p.uuid p.priority := by
  unfold openStreamOnSession
  rw [ho]

/-- Attempts, none of which succeeds or fails late, leave it alone. -/
theorem foldl_refused {ps : List PendingStream}
    (h : ∀ p ∈ ps, openResult json opens p ≠ .opened ∧ openResult json opens p ≠ .registered) (l : Limiter) :
    ps.foldl (fun l p => (openStreamOnSession json capped opens l p).1) l = l := by
  induction ps with
  | nil => rfl
  | cons p ps ih =>
    obtain ⟨ho, hr⟩ := h p List.mem_cons_self
    rw [List.foldl_cons, openStreamOnSession_refused ho hr]
    exact ih fun q hq => h q (List.mem_cons_of_mem _ hq)

theorem Admitted.failed {m₁ : Manager} (h : Admitted capped queue m l) (hf : Failed json opens m p m₁) :
    Admitted capped queue m₁ l := by
  obtain ⟨_, htasks, hreplies, _⟩ := hf.remote
  exact h.same (by rw [htasks]) (by rw [htasks]) (by unfold active; rw [htasks]) (fun u hu => by rw [hreplies]; exact hu) (.refl _)

/-- A queued stream is opened and leaves the queue. -/
theorem Admitted.promote {pre ps : List PendingStream} (h : Admitted capped (pre ++ p :: ps) m l)
    (hq : QueueOk (pre ++ p :: ps) m) :
    Admitted capped (pre ++ ps) (m.opened p) (l.register capped p.uuid p.priority) := by
  have hsub : (pre ++ ps).Sublist (pre ++ p :: ps) := (List.Sublist.refl pre).append (List.sublist_cons_self p ps)
  have hnew : p.uuid ∉ m.tasks.map (·.uuid) ++ (pre ++ ps).map (·.uuid) := by
    have hperm : (m.tasks.map (·.uuid) ++ (pre ++ p :: ps).map (·.uuid)).Perm
        (p.uuid :: (m.tasks.map (·.uuid) ++ (pre ++ ps).map (·.uuid))) := by
      have hmid : (pre ++ p :: ps).Perm (p :: (pre ++ ps)) := List.perm_middle
      exact ((List.Perm.refl _).append (hmid.map _)).trans List.perm_middle
    exact (List.nodup_cons.mp (hperm.nodup_iff.mp h.distinct)).1
  exact (h.same rfl rfl rfl (fun u hu => hu) hsub).opened hnew (h.known _ (by simp)) (hq.waiting p (by simp))

theorem Admitted.start {m₀ : Manager} (h : Admitted capped m₀.remote.pending m₀ l) (hc : StartCase json opens m₀ p m')
    (hfresh : p.uuid ∉ m₀.replies.map (·.stream.uuid)) (hnumber : ¬ m₀.Promoted p)
    (hlate : m₀.remote.hasActiveSlot = true → m₀.remote.session = true → openResult json opens p ≠ .registered) :
    Admitted capped m'.remote.pending m'
      ((if m₀.remote.hasActiveSlot = true ∧ m₀.remote.session = true then [p] else []).foldl
        (fun l p => (openStreamOnSession json capped opens l p).1) l) := by
  have hnew : p.uuid ∉ m₀.tasks.map (·.uuid) ++ m₀.remote.pending.map (·.uuid) := fun hu => hfresh (h.known _ hu)
  -- With the reply the uuid is known.
  have hreplied : ∀ r : Reply, r.stream = p → Admitted capped m₀.remote.pending { m₀ with replies := m₀.replies ++ [r] } l ∧
      p.uuid ∈ (m₀.replies ++ [r]).map (·.stream.uuid) := by
    rintro r rfl
    refine ⟨h.same rfl rfl rfl (fun u hu => ?_) (.refl _), by simp⟩
    rw [List.map_append]
    exact List.mem_append_left _ hu
  have hquiet : ∀ {m₁ : Manager}, Unopened json opens m₀ p m₁ →
      (if m₀.remote.hasActiveSlot = true ∧ m₀.remote.session = true then [p] else []).foldl
        (fun l p => (openStreamOnSession json capped opens l p).1) l = l := by
    intro m₁ hnot
    refine foldl_refused (fun q hq => ?_) l
    split at hq
    · rename_i hslot
      obtain rfl := List.mem_singleton.mp hq
      exact ⟨hnot.not_opened hslot.1 hslot.2, hlate hslot.1 hslot.2⟩
    · cases hq
  cases hc with
  | running hslot hlive ho =>
    obtain ⟨hr, hknown⟩ := hreplied ⟨p, .running⟩ rfl
    rw [if_pos ⟨hslot, hlive⟩, List.foldl_cons, List.foldl_nil, openStreamOnSession_opened ho]
    exact (hr.opened hnew hknown hnumber).same rfl rfl rfl (fun u hu => hu) (.refl _)
  | @queued m₁ statuses hnot hroom =>
    have htasks := (Unopened.remote hnot).2.1
    obtain ⟨hr, hknown⟩ := hreplied ⟨p, .pending (.ofNat (m₀.remote.enqueue p).2)⟩ rfl
    rw [hquiet hnot]
    have hperm := insert_perm (fun e : PendingStream => decide (e.priority < p.priority)) p m₀.remote.pending
    refine (hr.enqueue hnew hknown hperm).same ?_ ?_ ?_ (fun u hu => hu) (.refl _)
    · show m₁.tasks.map _ = _
      rw [htasks]
    · show m₁.tasks.map _ = _
      rw [htasks]
    · show (m₁.tasks.filter _).map _ = _
      rw [htasks]
      rfl
  | @refused m₁ statuses hnot hfull =>
    obtain ⟨hremote, htasks, _⟩ := Unopened.remote hnot
    obtain ⟨hr, _⟩ := hreplied ⟨p, .queueFull⟩ rfl
    rw [hquiet hnot]
    show Admitted capped m₁.remote.pending _ _
    rw [hremote]
    refine hr.same ?_ ?_ ?_ (fun u hu => hu) (.refl _)
    · show m₁.tasks.map _ = _
      rw [htasks]
    · show m₁.tasks.map _ = _
      rw [htasks]
    · show (m₁.tasks.filter _).map _ = _
      rw [htasks]
      rfl

theorem Admitted.promotePending (h : Admitted capped m.remote.pending m l) (hq : QueueOk m.remote.pending m)
    (hlate : ∀ p ∈ promoteTries m.remote, openResult json opens p ≠ .registered) :
    Admitted capped (promotePending json opens m).remote.pending (promotePending json opens m)
      ((promoteTries m.remote).foldl (fun l p => (openStreamOnSession json capped opens l p).1) l) := by
  have hcase := promotePending_cases json opens m
  generalize Manager.promotePending json opens m = m₁ at hcase ⊢
  cases hcase with
  | idle hidle =>
    have hnil : promoteTries m.remote = [] := by
      unfold promoteTries
      rcases hidle with hidle | hidle | hidle
      · simp [hidle]
      · simp [hidle]
      · simp [hidle]
    rw [hnil]
    exact h
  | @promoted p rest hslot hlive hp ho =>
    have htry : promoteTries m.remote = [p] := by
      unfold promoteTries
      rw [if_pos ⟨hslot, hlive⟩, hp]
      rfl
    rw [htry, List.foldl_cons, List.foldl_nil, openStreamOnSession_opened ho]
    rw [hp] at h hq
    have hopened : Admitted capped ([] ++ rest) (m.opened p) (l.register capped p.uuid p.priority) := Admitted.promote h hq
    exact hopened.same rfl rfl rfl (fun u hu => hu) (.refl _)
  | @failed _ p rest hp hf =>
    rw [foldl_refused (fun q ht => ⟨?_, hlate q ht⟩), hf.remote.1]
    · exact h.failed hf
    · unfold promoteTries at ht
      split at ht
      · rw [hp, List.take_succ_cons, List.take_zero] at ht
        obtain rfl := List.mem_singleton.mp ht
        exact hf.not_opened
      · cases ht

theorem Admitted.tried {ps kept tried : List PendingStream} (h : Tried json opens ps m kept tried m')
    (hlate : ∀ p ∈ tried, openResult json opens p ≠ .registered) :
    ∀ pre l, QueueOk (pre ++ ps) m → Admitted capped (pre ++ ps) m l →
      Admitted capped (pre ++ kept) m' (tried.foldl (fun l p => (openStreamOnSession json capped opens l p).1) l) := by
  induction h with
  | nil => exact fun pre l _ h => h
  | full => exact fun pre l _ h => h
  | opened _ ho _ ih =>
    intro pre l hq h
    rw [List.foldl_cons, openStreamOnSession_opened ho]
    exact ih (fun q hq => hlate q (List.mem_cons_of_mem _ hq)) pre _ hq.promote (h.promote hq)
  | @failed p ps kept tried m m₁ m' hf _ ih =>
    intro pre l hq h
    rw [List.foldl_cons, openStreamOnSession_refused hf.not_opened (hlate p List.mem_cons_self)]
    have := ih (fun q hq => hlate q (List.mem_cons_of_mem _ hq)) (pre ++ [p]) l (by simpa using hq.failed hf)
      (by simpa using h.failed hf)
    simpa using this

/-! ## Steps -/

/-- A task's move that keeps it in the limiter, or out of it. -/
theorem active_updateTask (m : Manager) (n : Nat) {f : Uplink → Uplink} (hu : ∀ t, (f t).uuid = t.uuid)
    (hpc : ∀ t ∈ m.tasks, t.number = n → enrolled (f t).pc = enrolled t.pc) : active (m.updateTask n f) = active m := by
  unfold active updateTask
  simp only
  rw [List.filter_map, List.map_map]
  have hkept : m.tasks.filter ((fun t => enrolled t.pc) ∘ fun t => if t.number = n then f t else t) =
      m.tasks.filter fun t => enrolled t.pc := by
    refine List.filter_congr fun t ht => ?_
    simp only [Function.comp_apply]
    split
    · exact hpc t ht ‹_›
    · rfl
  rw [hkept]
  refine List.map_congr_left fun t _ => ?_
  simp only [Function.comp_apply]
  split
  · exact hu t
  · rfl

theorem Admitted.same_task (h : Admitted capped queue m l) {t t' : Uplink} (ht : t ∈ m.tasks) (ht' : t' ∈ m.tasks)
    (hn : t.number = t'.number) : t = t' := List.inj_on_of_nodup_map h.numbers ht ht' hn

theorem Admitted.same_uplink (h : Admitted capped queue m l) {t t' : Uplink} (ht : t ∈ m.tasks) (ht' : t' ∈ m.tasks)
    (hu : t.uuid = t'.uuid) : t = t' := List.inj_on_of_nodup_map (List.nodup_append.mp h.distinct).1 ht ht' hu

/-- A task takes a step that keeps it in the limiter, or out of it. -/
theorem Admitted.advance (h : Admitted capped queue m l) {t : Uplink} (ht : t ∈ m.tasks) {f : Uplink → Uplink}
    (hn : ∀ t, (f t).number = t.number) (hu : ∀ t, (f t).uuid = t.uuid) (hpc : enrolled (f t).pc = enrolled t.pc) :
    Admitted capped queue (m.updateTask t.number f) l := by
  refine h.same (map_updateTask m _ hn) (map_updateTask m _ hu) (active_updateTask m _ hu fun t' ht' he => ?_)
    (fun u hu => hu) (.refl _)
  obtain rfl := h.same_task ht' ht he
  exact hpc

theorem Admitted.restore (h : Admitted capped queue m l) (restores : Nat → Bool) :
    Admitted capped queue (m.restoreActive restores) l := by
  refine restoreActive_keeps (P := fun m => Admitted capped queue m l) (fun hm _ _ => ?_) (fun hm => ?_) h
  · exact hm.same rfl rfl rfl (fun u hu => hu) (.refl _)
  · exact hm.same (map_updateTask _ _ fun _ => rfl) (map_updateTask _ _ fun _ => rfl)
      (active_updateTask _ _ (fun _ => rfl) fun _ _ _ => rfl) (fun u hu => hu) (.refl _)

theorem leaves_deregister {n : Nat} {next : Uplink → Manager} (hm : m.taskStep n .deregister next = some m') :
    ∃ t ∈ m.tasks, t.number = n ∧ t.pc = .deregister ∧ m' = next t ∧ leaves m (.deregister n) = [t.uuid] := by
  obtain ⟨t, ht, rfl⟩ := Option.map_eq_some_iff.mp hm
  have hpred := List.find?_some ht
  simp only [Bool.and_eq_true, beq_iff_eq] at hpred
  refine ⟨t, List.mem_of_find?_eq_some ht, hpred.1, hpred.2, rfl, ?_⟩
  show ((m.tasks.find? _).map (·.uuid)).toList = [t.uuid]
  rw [ht]
  rfl

/-- Only the task itself has its uuid. -/
theorem mem_active_left (h : Admitted capped queue m l) {t : Uplink} (ht : t ∈ m.tasks) (u : Uuid) :
    u ∈ active (m.updateTask t.number fun t => { t with pc := .finish }) ↔ u ≠ t.uuid ∧ u ∈ active m := by
  rw [mem_active, mem_active]
  constructor
  · rintro ⟨t', ht', hpc, rfl⟩
    obtain ⟨t₀, ht₀, rfl⟩ := mem_updateTask.mp ht'
    by_cases hn : t₀.number = t.number
    · rw [if_pos hn] at hpc
      cases hpc
    · rw [if_neg hn] at hpc ⊢
      refine ⟨fun hu => hn ?_, t₀, ht₀, hpc, rfl⟩
      rw [h.same_uplink ht₀ ht hu]
  · rintro ⟨hne, t₀, ht₀, hpc, rfl⟩
    refine ⟨t₀, mem_updateTask.mpr ⟨t₀, ht₀, if_neg fun hn => hne ?_⟩, hpc, rfl⟩
    rw [h.same_task ht₀ ht hn]

theorem step_admitted {s s' : Node} {a : Act} (h : Admitted capped s.manager.remote.pending s.manager s.limiter)
    (hq : QueueOk s.manager.remote.pending s.manager) (hok : noLateFailure json s a)
    (hs : s.step json capped a = some s') : Admitted capped s'.manager.remote.pending s'.manager s'.limiter := by
  obtain ⟨m', hm, rfl⟩ := Option.map_eq_some_iff.mp hs
  obtain ⟨hlate, hok⟩ := hok
  cases a with
  | streamStart uuid info priority opens =>
    cases hm
    let m₀ : Manager := { s.manager with started := s.manager.started + 1, opens := opens }
    have h₀ : Admitted capped m₀.remote.pending m₀ s.limiter := h.same rfl rfl rfl (fun u hu => hu) (.refl _)
    refine h₀.start (onStreamStart_cases json opens _ _) hok ?_ fun hslot hlive => hlate _ ?_
    · rintro ⟨t, ht, hn⟩
      exact Nat.lt_irrefl _ (hn ▸ hq.opened t ht)
    · show _ ∈ if _ then _ else _
      rw [if_pos ⟨hslot, hlive⟩]
      exact List.mem_singleton_self _
  | streamFinished uuid opens =>
    cases hm
    let m₀ : Manager := { s.manager with finished := s.manager.finished.erase uuid, opens := opens }.removeUplink uuid
    have h₀ : Admitted capped m₀.remote.pending m₀ s.limiter := h.same rfl rfl rfl (fun u hu => hu) (.refl _)
    have hq₀ : QueueOk m₀.remote.pending m₀ := hq.same rfl rfl rfl fun _ _ => Iff.rfl
    exact (h₀.promotePending hq₀ hlate).same rfl rfl rfl (fun u hu => hu) (.refl _)
  | setMaxConcurrent limit opens =>
    cases hm
    let m₀ : Manager := { s.manager with remote := { s.manager.remote with maxConcurrent := limit }, opens := opens }
    have h₀ : Admitted capped m₀.remote.pending m₀ s.limiter := h.same rfl rfl rfl (fun u hu => hu) (.refl _)
    have hq₀ : QueueOk m₀.remote.pending m₀ := hq.same rfl rfl rfl fun _ _ => Iff.rfl
    exact (h₀.promotePending hq₀ hlate).same rfl rfl rfl (fun u hu => hu) (.refl _)
  | linkFailed =>
    cases hm
    exact h.same rfl rfl rfl (fun u hu => hu) (.refl _)
  | reconnect restores opens =>
    simp only [Manager.step] at hm
    split at hm
    · cases hm
    · cases hm
      let m₀ : Manager := { s.manager with remote := { s.manager.remote with session := true }, opens := opens }
      have hq₀ : QueueOk m₀.remote.pending m₀ := hq.same rfl rfl rfl fun _ _ => Iff.rfl
      have h₀ : Admitted capped m₀.remote.pending m₀ s.limiter := h.same rfl rfl rfl (fun u hu => hu) (.refl _)
      have hq₁ := hq₀.restore restores
      have h₁ := h₀.restore restores
      obtain ⟨kept, m₁, htried, heq⟩ := drainPending_tried json opens (m₀.restoreActive restores)
        (session_restoreActive m₀ restores)
      rw [← pending_restoreActive m₀ restores] at h₁
      have h₂ := Admitted.tried htried hlate [] s.limiter hq₁ h₁
      show Admitted capped (drainPending json opens (m₀.restoreActive restores)).remote.pending
        (drainPending json opens (m₀.restoreActive restores)) _
      rw [heq]
      exact h₂.same rfl rfl rfl (fun u hu => hu) (.refl _)
  | pumpExits n | takeStream n =>
    cases hm
    exact h.same (map_updateTask _ n fun _ => rfl) (map_updateTask _ n fun _ => rfl)
      (active_updateTask _ n (fun _ => rfl) fun _ _ _ => rfl) (fun u hu => hu) (.refl _)
  | ends n =>
    obtain ⟨t, ht, rfl, hpc, rfl⟩ := taskStep_cases hm
    exact h.advance ht (fun _ => rfl) (fun _ => rfl) (by rw [hpc]; rfl)
  | deregister n =>
    obtain ⟨t, ht, rfl, hpc, rfl, hleaves⟩ := leaves_deregister hm
    show Admitted capped _ _ ((leaves s.manager (.deregister t.number)).foldl _ s.limiter)
    rw [hleaves]
    exact h.leave (map_updateTask s.manager t.number fun _ => rfl) (map_updateTask s.manager t.number fun _ => rfl) rfl
      (mem_active_left h ht)
  | finish n =>
    obtain ⟨t, ht, rfl, hpc, rfl⟩ := taskStep_cases hm
    have hgone : Admitted capped s.manager.remote.pending
        (s.manager.updateTask t.number fun t => { t with pc := .gone, pump := false }) s.limiter :=
      h.advance ht (fun _ => rfl) (fun _ => rfl) (by rw [hpc]; rfl)
    exact hgone.same rfl rfl rfl (fun u hu => hu) (.refl _)
  | timerSnapshot => cases hok
  | timerRemove uuids => cases hok

/-! ## Handles -/

/-- The streams of a reconnection find room. -/
def roomy (s : Node) : Act → Prop
  | .reconnect restores _ => Roomy restores s.manager
  | _ => True

instance (s : Node) (a : Act) : Decidable (roomy s a) := by
  induction a using Act.casesOn <;> dsimp only [roomy] <;> infer_instance

/-- A handle is an uplink's that is not gone, or its `StreamFinished` is on its way. -/
structure Owners (m : Manager) : Prop where
  owner : ∀ u ∈ m.remote.activeUplinks.keys, (∃ t ∈ m.tasks, t.pc ≠ .gone ∧ t.uuid = u) ∨ u ∈ m.finished
  finished : ∀ u ∈ m.finished, u ∈ m.tasks.map (·.uuid)
  snapshot : m.snapshot = []

theorem Owners.same (h : Owners m) (hkeys : ∀ u ∈ m'.remote.activeUplinks.keys, u ∈ m.remote.activeUplinks.keys)
    (htasks : m'.tasks.map (fun t => (t.uuid, t.pc)) = m.tasks.map fun t => (t.uuid, t.pc))
    (hfinished : m'.finished = m.finished) (hsnap : m'.snapshot = m.snapshot) : Owners m' := by
  have huuids : m'.tasks.map (·.uuid) = m.tasks.map (·.uuid) := by
    have := congrArg (List.map Prod.fst) htasks
    simpa [Function.comp_def] using this
  refine ⟨fun u hu => ?_, by rw [hfinished, huuids]; exact h.finished, hsnap.trans h.snapshot⟩
  rw [hfinished]
  refine (h.owner u (hkeys u hu)).imp_left fun ⟨t, ht, hpc, htu⟩ => ?_
  have hmem : (t.uuid, t.pc) ∈ m'.tasks.map fun t => (t.uuid, t.pc) := by
    rw [htasks]
    exact List.mem_map.mpr ⟨t, ht, rfl⟩
  obtain ⟨t', ht', he⟩ := List.mem_map.mp hmem
  simp only [Prod.mk.injEq] at he
  exact ⟨t', ht', by rw [he.2]; exact hpc, he.1.trans htu⟩

theorem Owners.failed {m₁ : Manager} (h : Owners m) (hf : Failed json opens m p m₁) : Owners m₁ := by
  rcases hf with ⟨_, rfl⟩ | ⟨_, rfl⟩
  · exact h
  · exact h.same (fun u hu => hu) rfl rfl rfl

theorem Owners.opened (h : Owners m) (p : PendingStream) : Owners (m.opened p) := by
  have hmem : ∀ t, t ∈ (m.opened p).tasks ↔ t ∈ m.tasks ∨ t = ⟨p.number, p.uuid, .running, 0, true⟩ := by
    intro t
    exact List.mem_append.trans (or_congr Iff.rfl List.mem_singleton)
  refine ⟨fun u hu => ?_, fun u hu => ?_, h.snapshot⟩
  · have hu : u ∈ (m.remote.activeUplinks.insert p.uuid p.number).keys := hu
    rw [AList.keys_insert] at hu
    rcases List.mem_cons.mp hu with rfl | hu
    · exact .inl ⟨_, (hmem _).mpr (.inr rfl), by simp, rfl⟩
    · refine (h.owner u (List.mem_of_mem_erase hu)).imp_left fun ⟨t, ht, hpc, htu⟩ => ?_
      exact ⟨t, (hmem t).mpr (.inl ht), hpc, htu⟩
  · obtain ⟨t, ht, htu⟩ := List.mem_map.mp (h.finished u hu)
    exact List.mem_map.mpr ⟨t, (hmem t).mpr (.inl ht), htu⟩

theorem keys_removeUplink {u v : Uuid} (h : u ∈ (m.removeUplink v).remote.activeUplinks.keys) :
    u ≠ v ∧ u ∈ m.remote.activeUplinks.keys := by
  have h : u ∈ (m.remote.activeUplinks.erase v).keys := h
  rw [AList.keys_erase] at h
  exact (List.Nodup.mem_erase_iff m.remote.activeUplinks.keys_nodup).mp h

theorem Owners.start {m₀ : Manager} (h : Owners m₀) (hc : StartCase json opens m₀ p m') : Owners m' := by
  cases hc with
  | running => exact (h.opened p).same (fun u hu => hu) rfl rfl rfl
  | queued hnot | refused hnot =>
    have hunopened := Unopened.keeps hnot h h.failed
    exact hunopened.same (fun u hu => hu) rfl rfl rfl

theorem Owners.promotePending (h : Owners m) : Owners (promotePending json opens m) := by
  have hcase := promotePending_cases json opens m
  generalize Manager.promotePending json opens m = m₁ at hcase
  cases hcase with
  | idle => exact h
  | promoted => exact (h.opened _).same (fun u hu => hu) rfl rfl rfl
  | failed _ hf => exact h.failed hf

theorem Owners.restore (h : Owners m) (restores : Nat → Bool) : Owners (m.restoreActive restores) := by
  refine restoreActive_keeps (P := Owners) (fun hm _ _ => ?_) (fun hm => ?_) h
  · exact hm.same (fun u hu => (keys_removeUplink hu).2) rfl rfl rfl
  · exact hm.same (fun u hu => hu) (map_updateTask _ _ fun _ => rfl) rfl rfl

theorem Owners.drain (h : Owners m) (hlive : m.remote.session = true) : Owners (drainPending json opens m) := by
  obtain ⟨kept, m', hdrains, heq⟩ := drainPending_drains json opens m hlive
  rw [heq]
  have := hdrains.invariant (I := fun _ m => Owners m) (fun _ _ hi => hi.opened _) (fun _ hf hi => hi.failed hf) [] h
  exact this.same (fun u hu => hu) rfl rfl rfl

/-- A task moves on; if it is gone, its `StreamFinished` is sent. -/
theorem Owners.advance (h : Owners m) (n : Nat) (f : Uplink → Uplink) (hu : ∀ t, (f t).uuid = t.uuid) {fin : List Uuid}
    (hmore : ∀ u ∈ m.finished, u ∈ fin) (hfin : ∀ u ∈ fin, u ∈ m.tasks.map (·.uuid))
    (hpc : ∀ t ∈ m.tasks, t.number = n → (f t).pc ≠ .gone ∨ t.uuid ∈ fin) :
    Owners { m.updateTask n f with finished := fin } := by
  refine ⟨fun u hk => ?_, fun u hf => ?_, h.snapshot⟩
  · rcases h.owner u hk with ⟨t, ht, hlive, rfl⟩ | hf
    · have hmem : (if t.number = n then f t else t) ∈ (m.updateTask n f).tasks := mem_updateTask.mpr ⟨t, ht, rfl⟩
      by_cases hn : t.number = n
      · rw [if_pos hn] at hmem
        exact (hpc t ht hn).imp_left fun hlive' => ⟨f t, hmem, hlive', hu t⟩
      · rw [if_neg hn] at hmem
        exact .inl ⟨t, hmem, hlive, rfl⟩
    · exact .inr (hmore u hf)
  · have : (m.updateTask n f).tasks.map (·.uuid) = m.tasks.map (·.uuid) := map_updateTask m n hu
    show u ∈ (m.updateTask n f).tasks.map (·.uuid)
    rw [this]
    exact hfin u hf

theorem step_owners {a : Act} (h : Owners m) (hnumbers : (m.tasks.map (·.number)).Nodup)
    (htimer : a ≠ .timerSnapshot) (hs : m.step json a = some m') : Owners m' := by
  cases a with
  | streamStart uuid info priority opens =>
    cases hs
    have h₀ : Owners { m with started := m.started + 1, opens := opens } := h.same (fun u hu => hu) rfl rfl rfl
    exact h₀.start (onStreamStart_cases json opens _ _)
  | streamFinished uuid opens =>
    cases hs
    have h₀ : Owners ({ m with finished := m.finished.erase uuid, opens := opens }.removeUplink uuid) := by
      refine ⟨fun u hu => ?_, fun u hu => h.finished u (List.mem_of_mem_erase hu), h.snapshot⟩
      obtain ⟨hne, hu⟩ := keys_removeUplink hu
      exact (h.owner u hu).imp_right fun hf => (List.mem_erase_of_ne hne).mpr hf
    exact h₀.promotePending.same (fun u hu => hu) rfl rfl rfl
  | setMaxConcurrent limit opens =>
    cases hs
    have h₀ : Owners { m with remote := { m.remote with maxConcurrent := limit }, opens := opens } :=
      h.same (fun u hu => hu) rfl rfl rfl
    exact h₀.promotePending.same (fun u hu => hu) rfl rfl rfl
  | linkFailed =>
    cases hs
    exact h.same (fun u hu => hu) rfl rfl rfl
  | reconnect restores opens =>
    simp only [Manager.step] at hs
    split at hs
    · cases hs
    · cases hs
      let m₀ : Manager := { m with remote := { m.remote with session := true }, opens := opens }
      have h₀ : Owners m₀ := h.same (fun u hu => hu) rfl rfl rfl
      exact (h₀.restore restores).drain (session_restoreActive m₀ restores)
  | pumpExits n | takeStream n =>
    cases hs
    exact h.same (fun u hu => hu) (map_updateTask _ _ fun _ => rfl) rfl rfl
  | ends n =>
    obtain ⟨t, _, _, _, rfl⟩ := taskStep_cases hs
    exact h.advance n (fun t => { t with pc := .deregister }) (fun _ => rfl) (fun u hu => hu) h.finished
      fun _ _ _ => .inl (by simp)
  | deregister n =>
    obtain ⟨t, _, _, _, rfl⟩ := taskStep_cases hs
    have h₁ := h.advance n (fun t => { t with pc := .finish }) (fun _ => rfl) (fun u hu => hu) h.finished
      fun _ _ _ => .inl (by simp)
    exact h₁.same (fun u hu => hu) rfl rfl rfl
  | finish n =>
    obtain ⟨t, ht, rfl, _, rfl⟩ := taskStep_cases hs
    refine h.advance t.number (fun t => { t with pc := .gone, pump := false }) (fun _ => rfl)
      (fun u hu => List.mem_append_left _ hu) (fun u hu => ?_) fun t' ht' hn => .inr ?_
    · rcases List.mem_append.mp hu with hu | hu
      · exact h.finished u hu
      · exact List.mem_map.mpr ⟨t, ht, (List.mem_singleton.mp hu).symm⟩
    · rw [List.inj_on_of_nodup_map hnumbers ht' ht hn]
      exact List.mem_append_right _ (List.mem_singleton_self _)
  | timerSnapshot => exact absurd rfl htimer
  | timerRemove uuids =>
    simp only [Manager.step] at hs
    split at hs
    · cases hs
      exact h.same (fun u hu => hu) rfl rfl h.snapshot.symm
    · cases hs

/-! ## Whole runs -/

/-- The limiter's scheduler and its table are as they were. -/
def Untouched (l l' : Limiter) : Prop := l'.scheduler = l.scheduler ∧ l'.streams = l.streams

/-- No uplink is on its way out. -/
def Settled (m : Manager) : Prop := (∀ t ∈ m.tasks, t.pc = .running ∨ t.pc = .gone) ∧ m.finished = []

instance (m : Manager) : Decidable (Settled m) := inferInstanceAs (Decidable (_ ∧ _))

theorem not_untouched_register (l : Limiter) (u : Uuid) (prio : Priority) : ¬ Untouched l (l.register capped u prio) := by
  rintro ⟨hsched, -⟩
  rw [(register_streams l capped u prio).1] at hsched
  have := DrrScheduler.length_queued_register l.scheduler u prio
  rw [hsched] at this
  omega

/-- An attempt that fails leaves the limiter alone exactly when it fails before the stream
    is registered. -/
theorem failed_open_iff (opens : PendingStream → OpenResult) (l : Limiter) (p : PendingStream) :
    ((openStreamOnSession json capped opens l p).2 = false → Untouched l (openStreamOnSession json capped opens l p).1) ↔
      openResult json opens p ≠ .registered := by
  unfold openStreamOnSession
  cases h : openResult json opens p with
  | refused => exact ⟨fun _ => by simp, fun _ _ => ⟨rfl, rfl⟩⟩
  | registered => exact ⟨fun hu => absurd (hu rfl) (not_untouched_register l _ _), fun hne => absurd rfl hne⟩
  | opened => exact ⟨fun _ => by simp, fun _ hf => by cases hf⟩

theorem Admitted.queued_perm (h : Admitted capped queue m l) : l.scheduler.queued.Perm (active m) := by
  have hnodup : (active m).Nodup :=
    (List.nodup_append.mp h.distinct).1.sublist (List.filter_sublist.map _)
  refine (List.perm_ext_iff_of_nodup h.sound.nodup_queued hnodup).mpr fun u => ?_
  rw [h.sound.mem_queued, h.listed]

theorem Admitted.table_perm (h : Admitted true queue m l) : (l.streams.map (·.1)).Perm (active m) := by
  have hnodup : (active m).Nodup :=
    (List.nodup_append.mp h.distinct).1.sublist (List.filter_sublist.map _)
  refine (List.perm_ext_iff_of_nodup h.keys hnodup).mpr fun u => ?_
  rw [h.table]
  simp

theorem admitted_of_reach {maxConcurrent maxPending : Nat} {s : Node}
    (h : Reach (step json capped) (noLateFailure json) (init maxConcurrent maxPending) s) :
    QueueOk s.manager.remote.pending s.manager ∧ Admitted capped s.manager.remote.pending s.manager s.limiter := by
  refine h.invariant (P := fun s => QueueOk s.manager.remote.pending s.manager ∧
    Admitted capped s.manager.remote.pending s.manager s.limiter) ⟨init_queueOk _ _, ?_⟩ fun hi hok hs => ?_
  · refine ⟨List.nodup_nil, List.nodup_nil, fun u hu => ?_, ⟨.start, rfl, Traced.tables_start⟩, fun u => ?_,
      List.nodup_nil, fun u => ?_⟩
    · cases hu
    · simp [init, Manager.init, Limiter.new, DrrScheduler.new, active]
    · simp [init, Manager.init, Limiter.new, active]
  · refine ⟨?_, step_admitted hi.2 hi.1 hok hs⟩
    obtain ⟨m', hm, rfl⟩ := Option.map_eq_some_iff.mp hs
    exact step_queueOk hi.1 hm

/-- With room at every reconnection, the uplinks have their handles. -/
theorem held_of_reach {maxConcurrent maxPending : Nat} {s : Node}
    (h : Reach (step json capped) (fun s a => noLateFailure json s a ∧ roomy s a) (init maxConcurrent maxPending) s) :
    Held s.manager.remote.pending s.manager ∧ Owners s.manager := by
  refine h.invariant_of (I := fun s => Admitted capped s.manager.remote.pending s.manager s.limiter)
    (P := fun s => Held s.manager.remote.pending s.manager ∧ Owners s.manager)
    (fun hr => (admitted_of_reach (hr.mono fun _ _ hok => hok.1)).2) ⟨init_held _ _, ?_⟩ ?_
  · exact ⟨fun u hu => (List.not_mem_nil hu).elim, fun u hu => (List.not_mem_nil hu).elim, rfl⟩
  · rintro s s' a hi - ⟨hheld, howners⟩ ⟨hok, hroom⟩ hs
    obtain ⟨m', hm, rfl⟩ := Option.map_eq_some_iff.mp hs
    refine ⟨step_held hheld ?_ hm, step_owners howners hi.numbers ?_ hm⟩
    · cases a with
      | streamStart uuid info priority opens =>
        -- A uuid without a reply is used by nothing.
        have hfresh : uuid ∉ s.manager.tasks.map (·.uuid) ++ s.manager.remote.pending.map (·.uuid) :=
          fun hu => hok.2 (hi.known uuid hu)
        refine ⟨fun q hq hu => hfresh ?_, fun t ht hu => absurd ?_ hfresh, fun hf => hfresh ?_, fun e he => ?_⟩
        · exact List.mem_append_right _ (List.mem_map.mpr ⟨q, hq, hu⟩)
        · exact List.mem_append_left _ (List.mem_map.mpr ⟨t, ht, hu⟩)
        · exact List.mem_append_left _ (howners.finished uuid hf)
        · rw [howners.snapshot] at he
          cases he
      | streamFinished => exact hok.2
      | reconnect => exact hroom
      | setMaxConcurrent | linkFailed | pumpExits | takeStream | ends | deregister | finish => trivial
      | timerSnapshot | timerRemove => cases hok.2
    · rintro rfl
      cases hok.2

/-- An attempt to open a stream that fails leaves the limiter alone exactly when it fails
    before the stream is registered. In every run with distinct uuids in which no attempt
    fails after that, the scheduler's queues and, with a cap, the table have each uplink
    that has not deregistered once and nothing else; and with room at the reconnections
    that is each entry of `active_uplinks`, when no uplink is on its way out. -/
theorem failed_open_leaves_no_trace (json : SerdeJson StreamHeader) (capped : Bool) :
    (∀ opens l p, ((openStreamOnSession json capped opens l p).2 = false →
        Untouched l (openStreamOnSession json capped opens l p).1) ↔ openResult json opens p ≠ .registered) ∧
    ∀ maxConcurrent maxPending s, Reach (step json capped) (noLateFailure json) (init maxConcurrent maxPending) s →
      s.limiter.scheduler.queued.Perm (active s.manager) ∧
      (capped = true → (s.limiter.streams.map (·.1)).Perm (active s.manager)) ∧
      (Reach (step json capped) (fun s a => noLateFailure json s a ∧ roomy s a) (init maxConcurrent maxPending) s →
        Settled s.manager → s.limiter.scheduler.queued.Perm s.manager.remote.activeUplinks.keys) := by
  refine ⟨failed_open_iff, fun maxConcurrent maxPending s h => ?_⟩
  obtain ⟨-, hadm⟩ := admitted_of_reach h
  refine ⟨hadm.queued_perm, ?_, fun hr hsettled => ?_⟩
  · rintro rfl
    exact hadm.table_perm
  · obtain ⟨hheld, howners⟩ := held_of_reach hr
    refine (List.perm_ext_iff_of_nodup hadm.sound.nodup_queued s.manager.remote.activeUplinks.keys_nodup).mpr fun u => ?_
    rw [hadm.queued_perm.mem_iff, mem_active]
    constructor
    · rintro ⟨t, ht, hpc, rfl⟩
      have hlive : t.pc ≠ .gone := by
        intro hg
        rw [hg] at hpc
        cases hpc
      rw [← AList.mem_keys, ← AList.lookup_isSome, hheld.kept.handle t ht hlive]
      rfl
    · intro hu
      rcases howners.owner u hu with ⟨t, ht, hlive, htu⟩ | hf
      · refine ⟨t, ht, ?_, htu⟩
        rw [(hsettled.1 t ht).resolve_right hlive]
        rfl
      · rw [hsettled.2] at hf
        cases hf

/-- Two streams for one slot and an outage between: when the first has ended, the second is
    the one active uplink and the one stream of the scheduler. -/
theorem second_stream_takes_over :
    ∃ s, Reach (step plainJson true) (noLateFailure plainJson) (init 1 5) s ∧ active s.manager = [⟨2⟩] ∧
      s.limiter.scheduler.queued.Perm (active s.manager) ∧
      s.limiter.scheduler.queued.Perm s.manager.remote.activeUplinks.keys := by
  obtain ⟨s, hr, hs⟩ := Reach.exists_run (step plainJson true) (fun s a => noLateFailure plainJson s a ∧ roomy s a) (init 1 5)
    [.streamStart ⟨1⟩ plainInfo ⟨0⟩ allOpen, .streamStart ⟨2⟩ plainInfo ⟨0⟩ allOpen, .linkFailed,
      .reconnect (fun _ => true) allOpen, .takeStream 0, .ends 0, .deregister 0, .finish 0, .streamFinished ⟨1⟩ allOpen]
    (fun s => active s.manager = [⟨2⟩] ∧ Settled s.manager) (by decide +kernel)
  obtain ⟨hactive, hsettled⟩ := of_decide_eq_true hs
  have hmono := hr.mono (fun _ _ hok => hok.1)
  obtain ⟨hqueued, _, hkeys⟩ := (failed_open_leaves_no_trace plainJson true).2 1 5 s hmono
  exact ⟨s, hmono, hactive, hqueued, hkeys hr hsettled⟩

/-- Every attempt fails at the listener. -/
def noListener (_ : PendingStream) : OpenResult := .registered

/-- The first attempt finds no listener, the one after a reconnect goes through: the failed
    call has left an entry, and the uplink has two places in the scheduler's round. -/
theorem late_failure_registers_twice :
    ((openStreamOnSession plainJson true noListener .new ⟨⟨1⟩, plainInfo, ⟨0⟩, 0⟩).2 = false ∧
      ¬ Untouched .new (openStreamOnSession plainJson true noListener .new ⟨⟨1⟩, plainInfo, ⟨0⟩, 0⟩).1) ∧
    ∃ s, Reach (step plainJson true) anyStep (init 1 5) s ∧ Settled s.manager ∧
      s.limiter.scheduler.queued = [⟨1⟩, ⟨1⟩] ∧ active s.manager = [⟨1⟩] ∧
      s.manager.remote.activeUplinks.keys = [⟨1⟩] := by
  refine ⟨⟨by decide +kernel, fun hu => ?_⟩, ?_⟩
  · have hstreams := hu.2
    revert hstreams
    decide +kernel
  · obtain ⟨s, hr, hs⟩ := Reach.exists_run (step plainJson true) anyStep (init 1 5)
      [.streamStart ⟨1⟩ plainInfo ⟨0⟩ noListener, .linkFailed, .reconnect (fun _ => true) allOpen]
      (fun s => Settled s.manager ∧ s.limiter.scheduler.queued = [⟨1⟩, ⟨1⟩] ∧ active s.manager = [⟨1⟩] ∧
        s.manager.remote.activeUplinks.keys = [⟨1⟩]) (by decide +kernel)
    exact ⟨s, hr, of_decide_eq_true hs⟩

end Node

end SessionManager

end Quelay.Agent
