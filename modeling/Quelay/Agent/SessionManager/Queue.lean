/-
  Quelay.Agent.SessionManager.Queue — the pending queue keeps its order, its bound and its
  entries, and the limit of active uplinks holds.

  `Ahead` is the order of the queue: higher priority first, and among equals the one that
  was accepted first. `QueueOk` is an invariant of a queue beside the rest of the manager,
  so that it can be followed through `drain_pending`'s loop, which opens uplinks while the
  entries are still in place.
-/

import Quelay.Agent.SessionManager.Cases

namespace Quelay.Agent.SessionManager.Manager

open Quelay.Lib Quelay.Domain Framing

/-- `a` is to be opened before `b`. -/
def Ahead (a b : PendingStream) : Prop := b.priority < a.priority ∨ (a.priority = b.priority ∧ a.number < b.number)

/-- An uplink has been opened for the stream. -/
def Promoted (m : Manager) (p : PendingStream) : Prop := ∃ t ∈ m.tasks, t.number = p.number

structure QueueOk (queue : List PendingStream) (m : Manager) : Prop where
  sorted : queue.Pairwise Ahead
  distinct : queue.Pairwise fun a b => a.number ≠ b.number
  room : queue.length ≤ m.remote.maxPending
  fresh : ∀ p ∈ queue, p.number < m.started
  opened : ∀ t ∈ m.tasks, t.number < m.started
  accepted : ∀ p ∈ queue, ∃ pos, ⟨p, .pending pos⟩ ∈ m.replies
  kept : ∀ p pos, ⟨p, .pending pos⟩ ∈ m.replies → p ∈ queue ∨ m.Promoted p
  waiting : ∀ p ∈ queue, ¬ m.Promoted p

variable {json : SerdeJson StreamHeader} {opens : PendingStream → OpenResult} {m m' : Manager} {p : PendingStream}
  {queue : List PendingStream}

/-! ## Moves -/

/-- Only what the invariant does not look at changes. -/
theorem QueueOk.same (h : QueueOk queue m) (hmax : m'.remote.maxPending = m.remote.maxPending)
    (hstarted : m'.started = m.started) (htasks : m'.tasks.map (·.number) = m.tasks.map (·.number))
    (hreplies : ∀ p pos, ⟨p, .pending pos⟩ ∈ m'.replies ↔ ⟨p, .pending pos⟩ ∈ m.replies) : QueueOk queue m' := by
  have hmem : ∀ n, (∃ t ∈ m'.tasks, t.number = n) ↔ ∃ t ∈ m.tasks, t.number = n := by
    intro n
    rw [← List.mem_map, ← List.mem_map, htasks]
  refine ⟨h.sorted, h.distinct, hmax ▸ h.room, hstarted ▸ h.fresh, ?_, ?_, ?_, ?_⟩
  · intro t ht
    obtain ⟨t', ht', hn⟩ := (hmem t.number).mp ⟨t, ht, rfl⟩
    rw [hstarted, ← hn]
    exact h.opened t' ht'
  · intro p hp
    obtain ⟨pos, hpos⟩ := h.accepted p hp
    exact ⟨pos, (hreplies p pos).mpr hpos⟩
  · intro p pos hr
    exact (h.kept p pos ((hreplies p pos).mp hr)).imp_right (hmem _).mpr
  · exact fun p hp hprom => h.waiting p hp ((hmem _).mp hprom)

theorem QueueOk.failed {m₁ : Manager} (h : QueueOk queue m) (hf : Failed json opens m p m₁) : QueueOk queue m₁ := by
  obtain ⟨hremote, htasks, hreplies, hstarted, _⟩ := hf.remote
  exact h.same (by rw [hremote]) hstarted (by rw [htasks]) (by simp [hreplies])

theorem promoted_opened {p' : PendingStream} : (m.opened p).Promoted p' ↔ m.Promoted p' ∨ p.number = p'.number := by
  constructor
  · rintro ⟨t, ht, hn⟩
    rcases List.mem_append.mp ht with ht | ht
    · exact .inl ⟨t, ht, hn⟩
    · obtain rfl := List.mem_singleton.mp ht
      exact .inr hn
  · rintro (⟨t, ht, hn⟩ | hn)
    · exact ⟨t, List.mem_append_left _ ht, hn⟩
    · exact ⟨_, List.mem_append_right _ (List.mem_singleton_self _), hn⟩

/-- A queued stream is opened and leaves the queue. -/
theorem QueueOk.promote {l ps : List PendingStream} (h : QueueOk (l ++ p :: ps) m) : QueueOk (l ++ ps) (m.opened p) := by
  have hsub : (l ++ ps).Sublist (l ++ p :: ps) := (List.Sublist.refl l).append (List.sublist_cons_self p ps)
  have hp : p ∈ l ++ p :: ps := by simp
  -- Every other entry has another number.
  have hne : ∀ q ∈ l ++ ps, p.number ≠ q.number := by
    intro q hq
    rcases List.mem_append.mp hq with hq | hq
    · exact fun he => (List.pairwise_append.mp h.distinct).2.2 q hq p List.mem_cons_self he.symm
    · exact (List.pairwise_cons.mp (List.pairwise_append.mp h.distinct).2.1).1 q hq
  refine ⟨h.sorted.sublist hsub, h.distinct.sublist hsub, hsub.length_le.trans h.room,
    fun q hq => h.fresh q (hsub.mem hq), ?_, fun q hq => h.accepted q (hsub.mem hq), ?_, ?_⟩
  · intro t ht
    rcases List.mem_append.mp ht with ht | ht
    · exact h.opened t ht
    · obtain rfl := List.mem_singleton.mp ht
      exact h.fresh p hp
  · intro q pos hr
    rw [promoted_opened]
    rcases h.kept q pos hr with hq | hprom
    · rcases List.mem_append.mp hq with hq | hq
      · exact .inl (List.mem_append_left _ hq)
      · rcases List.mem_cons.mp hq with rfl | hq
        · exact .inr (.inr rfl)
        · exact .inl (List.mem_append_right _ hq)
    · exact .inr (.inl hprom)
  · intro q hq hprom
    rcases promoted_opened.mp hprom with hprom | he
    · exact h.waiting q (hsub.mem hq) hprom
    · exact hne q hq he

/-! ## Commands -/

/-- The entry goes behind everything of its priority or above. -/
theorem enqueue_sorted {r : RemoteState} (h : r.pending.Pairwise Ahead) (hn : ∀ q ∈ r.pending, q.number < p.number) :
    (r.enqueue p).1.pending.Pairwise Ahead := by
  refine insert_pairwise h ?_ ?_ ?_
  · intro q hq hnot
    have hle : p.priority ≤ q.priority := by simpa using hnot
    rcases lt_or_eq_of_le hle with hlt | heq
    · exact .inl hlt
    · exact .inr ⟨heq.symm, hn q hq⟩
  · intro q _ hlt
    exact .inl (by simpa using hlt)
  · intro x _ y _ hxy hx
    have hx : x.priority < p.priority := by simpa using hx
    rcases hxy with hlt | ⟨heq, _⟩
    · simpa using hlt.trans hx
    · simpa [← heq] using hx

theorem enqueue_position (r : RemoteState) (p : PendingStream) :
    ∃ before after, r.pending = before ++ after ∧ (r.enqueue p).1.pending = before ++ p :: after ∧
      (r.enqueue p).2 = before.length + 1 := by
  obtain ⟨before, after, hsplit, hins, hlen⟩ := insert_split (fun e : PendingStream => decide (e.priority < p.priority)) p
    r.pending
  refine ⟨before, after, hsplit, hins, ?_⟩
  rw [hlen]
  rfl

theorem mem_replies_snoc {replies : List Reply} {r : Reply} {p : PendingStream} {pos : Int32}
    (h : ∀ pos, r.status ≠ .pending pos) : ⟨p, .pending pos⟩ ∈ replies ++ [r] ↔ ⟨p, .pending pos⟩ ∈ replies := by
  constructor
  · intro hm
    rcases List.mem_append.mp hm with hm | hm
    · exact hm
    · obtain rfl := List.mem_singleton.mp hm
      exact absurd rfl (h pos)
  · exact List.mem_append_left _

/-- The next stream gets its number. -/
theorem QueueOk.begin (h : QueueOk m.remote.pending m) {m₀ : Manager} (hremote : m₀.remote = m.remote)
    (htasks : m₀.tasks = m.tasks) (hreplies : m₀.replies = m.replies) (hstarted : m₀.started = m.started + 1) :
    QueueOk m₀.remote.pending m₀ := by
  refine ⟨hremote ▸ h.sorted, hremote ▸ h.distinct, hremote ▸ h.room, ?_, ?_, ?_, ?_, ?_⟩
  · rw [hremote, hstarted]
    exact fun q hq => Nat.lt_succ_of_lt (h.fresh q hq)
  · rw [htasks, hstarted]
    exact fun t ht => Nat.lt_succ_of_lt (h.opened t ht)
  · rw [hremote, hreplies]
    exact h.accepted
  · unfold Promoted
    rw [hremote, hreplies, htasks]
    exact h.kept
  · unfold Promoted
    rw [hremote, htasks]
    exact h.waiting

/-- A stream that was never queued is opened: that concerns no entry. -/
theorem QueueOk.openAtOnce (h : QueueOk queue m) (hnew : ∀ q ∈ queue, q.number < p.number) (hstarted : p.number < m.started) :
    QueueOk queue (m.opened p) := by
  refine ⟨h.sorted, h.distinct, h.room, h.fresh, ?_, h.accepted, ?_, ?_⟩
  · intro t ht
    rcases List.mem_append.mp ht with ht | ht
    · exact h.opened t ht
    · obtain rfl := List.mem_singleton.mp ht
      exact hstarted
  · intro q pos hr
    exact (h.kept q pos hr).imp_right fun hprom => promoted_opened.mpr (.inl hprom)
  · intro q hq hprom
    rcases promoted_opened.mp hprom with hprom | he
    · exact h.waiting q hq hprom
    · have := hnew q hq
      omega

/-- A stream with a number of its own is queued, and its client told so. -/
theorem QueueOk.enqueue (h : QueueOk m.remote.pending m) (hnew : ∀ q ∈ m.remote.pending, q.number < p.number)
    (hstarted : p.number < m.started) (hnot : ¬ m.Promoted p) (hroom : m.remote.pendingQueueFull = false) (pos : Int32) :
    QueueOk (m.remote.enqueue p).1.pending
      { m.setPending (m.remote.enqueue p).1.pending with replies := m.replies ++ [⟨p, .pending pos⟩] } := by
  have hperm : ((m.remote.enqueue p).1.pending).Perm (p :: m.remote.pending) := insert_perm _ _ _
  have hmem : ∀ q, q ∈ (m.remote.enqueue p).1.pending ↔ q = p ∨ q ∈ m.remote.pending :=
    fun q => hperm.mem_iff.trans List.mem_cons
  refine ⟨enqueue_sorted h.sorted hnew, ?_, ?_, ?_, h.opened, ?_, ?_, ?_⟩
  · refine (hperm.pairwise_iff fun hab => hab.symm).mpr ?_
    exact List.pairwise_cons.mpr ⟨fun q hq he => by have := hnew q hq; omega, h.distinct⟩
  · show (m.remote.enqueue p).1.pending.length ≤ m.remote.maxPending
    rw [hperm.length_eq, List.length_cons]
    have : m.remote.pending.length < m.remote.maxPending := by
      simpa [RemoteState.pendingQueueFull] using hroom
    omega
  · intro q hq
    rcases (hmem q).mp hq with rfl | hq
    · exact hstarted
    · exact h.fresh q hq
  · intro q hq
    rcases (hmem q).mp hq with rfl | hq
    · exact ⟨_, List.mem_append_right _ (List.mem_singleton_self _)⟩
    · obtain ⟨pos, hpos⟩ := h.accepted q hq
      exact ⟨pos, List.mem_append_left _ hpos⟩
  · intro q pos' hr
    rcases List.mem_append.mp hr with hr | hr
    · exact (h.kept q pos' hr).imp_left fun hq => (hmem q).mpr (.inr hq)
    · have hqp : q = p := by
        have := List.mem_singleton.mp hr
        injection this
      exact .inl ((hmem q).mpr (.inl hqp))
  · intro q hq hprom
    rcases (hmem q).mp hq with rfl | hq
    · exact hnot hprom
    · exact h.waiting q hq hprom

/-- The stream of a `StreamStart` has a number that no other has. -/
theorem QueueOk.start (h : QueueOk m.remote.pending m) {m₀ : Manager} (hc : StartCase json opens m₀ p m')
    (hp : p.number = m.started) (hremote : m₀.remote = m.remote) (htasks : m₀.tasks = m.tasks)
    (hreplies : m₀.replies = m.replies) (hstarted : m₀.started = m.started + 1) : QueueOk m'.remote.pending m' := by
  have h₀ : QueueOk m₀.remote.pending m₀ := h.begin hremote htasks hreplies hstarted
  have hnew : ∀ q ∈ m₀.remote.pending, q.number < p.number := by
    rw [hremote, hp]
    exact h.fresh
  have hlt : p.number < m₀.started := by omega
  cases hc with
  | running => exact (h₀.openAtOnce hnew hlt).same rfl rfl rfl fun q pos => mem_replies_snoc (by simp)
  | @queued m₁ statuses hnot hroom =>
    obtain ⟨hremote₁, htasks₁, hreplies₁, hstarted₁, _⟩ := Unopened.remote hnot
    have h₁ : QueueOk m₁.remote.pending m₁ := by
      rw [hremote₁]
      exact Unopened.keeps hnot h₀ h₀.failed
    have hfresh : ¬ m₁.Promoted p := by
      rintro ⟨t, ht, hn⟩
      rw [htasks₁, htasks] at ht
      have := h.opened t ht
      omega
    rw [← hremote₁] at hnew hroom ⊢
    rw [← hreplies₁]
    exact (h₁.enqueue hnew (hstarted₁ ▸ hlt) hfresh hroom _).same rfl rfl rfl fun _ _ => Iff.rfl
  | @refused m₁ statuses hnot _ =>
    obtain ⟨hremote₁, _, hreplies₁, _, _⟩ := Unopened.remote hnot
    have h₁ : QueueOk m₁.remote.pending m₁ := by
      rw [hremote₁]
      exact Unopened.keeps hnot h₀ h₀.failed
    refine h₁.same rfl rfl rfl fun q pos => ?_
    rw [hreplies₁]
    exact mem_replies_snoc (by simp)

theorem QueueOk.promotePending (h : QueueOk m.remote.pending m) (hc : PromoteCase json opens m m') :
    QueueOk m'.remote.pending m' := by
  cases hc with
  | idle => exact h
  | promoted _ _ hp =>
    rw [hp] at h
    exact QueueOk.same (QueueOk.promote (l := []) h) rfl rfl rfl fun _ _ => Iff.rfl
  | failed _ hf =>
    rw [hf.remote.1]
    exact h.failed hf

theorem QueueOk.restore (h : QueueOk m.remote.pending m) (restores : Nat → Bool) :
    QueueOk (m.restoreActive restores).remote.pending (m.restoreActive restores) := by
  refine restoreActive_keeps (P := fun m => QueueOk m.remote.pending m) ?_ ?_ h
  · intro m uuid n hm _ _
    exact hm.same rfl rfl rfl fun _ _ => Iff.rfl
  · intro m n hm
    exact hm.same rfl rfl (map_updateTask m n fun _ => rfl) fun _ _ => Iff.rfl

theorem QueueOk.drain (h : QueueOk m.remote.pending m) (hlive : m.remote.session = true) :
    QueueOk (drainPending json opens m).remote.pending (drainPending json opens m) := by
  obtain ⟨kept, m', hdrains, heq⟩ := drainPending_drains json opens m hlive
  rw [heq]
  have := hdrains.invariant (I := QueueOk) (fun _ _ hi => hi.promote) (fun _ hf hi => hi.failed hf) [] h
  exact this.same rfl rfl rfl fun _ _ => Iff.rfl

theorem step_queueOk {a : Act} (h : QueueOk m.remote.pending m) (hs : step json m a = some m') :
    QueueOk m'.remote.pending m' := by
  cases a with
  | streamStart uuid info priority opens =>
    cases hs
    exact h.start (onStreamStart_cases json opens _ _) rfl rfl rfl rfl rfl
  | streamFinished uuid opens =>
    cases hs
    have h₀ : QueueOk m.remote.pending
        ({ m with finished := m.finished.erase uuid, opens := opens }.removeUplink uuid) :=
      h.same rfl rfl rfl fun _ _ => Iff.rfl
    exact (h₀.promotePending (promotePending_cases json opens _)).same rfl rfl rfl fun _ _ => Iff.rfl
  | setMaxConcurrent limit opens =>
    cases hs
    have h₀ : QueueOk m.remote.pending { m with remote := { m.remote with maxConcurrent := limit }, opens := opens } :=
      h.same rfl rfl rfl fun _ _ => Iff.rfl
    exact (h₀.promotePending (promotePending_cases json opens _)).same rfl rfl rfl fun _ _ => Iff.rfl
  | linkFailed =>
    cases hs
    exact h.same rfl rfl rfl fun _ _ => Iff.rfl
  | reconnect restores opens =>
    simp only [step] at hs
    split at hs
    · cases hs
    · cases hs
      have h₀ : QueueOk m.remote.pending { m with remote := { m.remote with session := true }, opens := opens } :=
        h.same rfl rfl rfl fun _ _ => Iff.rfl
      refine (h₀.restore restores).drain ?_
      rw [session_restoreActive]
  | pumpExits n =>
    cases hs
    exact h.same rfl rfl (map_updateTask m n fun _ => rfl) fun _ _ => Iff.rfl
  | takeStream n =>
    cases hs
    exact h.same rfl rfl (map_updateTask m n fun _ => rfl) fun _ _ => Iff.rfl
  | ends n | deregister n | finish n =>
    obtain ⟨t, _, _, _, rfl⟩ := taskStep_cases hs
    exact h.same rfl rfl (map_updateTask m n fun _ => rfl) fun _ _ => Iff.rfl
  | timerSnapshot =>
    cases hs
    exact h.same rfl rfl rfl fun _ _ => Iff.rfl
  | timerRemove uuids =>
    simp only [step] at hs
    split at hs
    · cases hs
      exact h.same rfl rfl rfl fun _ _ => Iff.rfl
    · cases hs

theorem init_queueOk (maxConcurrent maxPending : Nat) :
    QueueOk (init maxConcurrent maxPending).remote.pending (init maxConcurrent maxPending) :=
  ⟨.nil, .nil, Nat.zero_le _, nofun, nofun, nofun, nofun, nofun⟩

/-! ## Replies -/

theorem replies_promotePending (m : Manager) : (promotePending json opens m).replies = m.replies := by
  have hc := promotePending_cases json opens m
  generalize promotePending json opens m = m' at hc ⊢
  cases hc with
  | idle => rfl
  | promoted => rfl
  | failed _ hf => exact hf.remote.2.2.1

theorem replies_drainPending (m : Manager) (hlive : m.remote.session = true) :
    (drainPending json opens m).replies = m.replies := by
  obtain ⟨kept, m', hdrains, heq⟩ := drainPending_drains json opens m hlive
  rw [heq]
  have := hdrains.invariant (I := fun _ m' => m'.replies = m.replies) (fun _ _ hi => hi)
    (fun _ hf hi => hf.remote.2.2.1.trans hi) [] rfl
  exact this

theorem replies_restoreActive (m : Manager) (restores : Nat → Bool) :
    (m.restoreActive restores).replies = m.replies :=
  restoreActive_keeps (P := fun m' => m'.replies = m.replies) (fun hm _ _ => hm) (fun hm => hm) rfl

/-- The position in a reply is the stream's place in the queue. -/
def Placed (m m' : Manager) : Prop :=
  ∀ p pos, ⟨p, .pending pos⟩ ∈ m'.replies.drop m.replies.length →
    ∃ before after, m.remote.pending = before ++ after ∧ m'.remote.pending = before ++ p :: after ∧
      pos = .ofNat (before.length + 1)

theorem placed_of_same (h : m'.replies = m.replies) : Placed m m' := by
  intro p pos hr
  rw [h, List.drop_length] at hr
  cases hr

theorem StartCase.placed {m₀ : Manager} (hc : StartCase json opens m₀ p m') (hremote : m₀.remote = m.remote)
    (hreplies : m₀.replies = m.replies) : Placed m m' := by
  -- The command gets one reply; only a queued stream's has a position.
  have hone : ∀ {r q pos}, ⟨q, .pending pos⟩ ∈ (m₀.replies ++ [r]).drop m.replies.length → r = ⟨q, .pending pos⟩ := by
    intro r q pos hr
    rw [hreplies, List.drop_left] at hr
    exact (List.mem_singleton.mp hr).symm
  cases hc with
  | running =>
    intro q pos hr
    cases hone hr
  | refused =>
    intro q pos hr
    cases hone hr
  | queued =>
    intro q pos hr
    obtain ⟨before, after, hsplit, hins, hpos⟩ := enqueue_position m₀.remote p
    cases hone hr
    exact ⟨before, after, by rw [← hremote]; exact hsplit, hins, by rw [hpos]⟩

theorem step_placed {a : Act} (hs : step json m a = some m') : Placed m m' := by
  cases a with
  | streamStart uuid info priority opens =>
    cases hs
    exact (onStreamStart_cases json opens _ _).placed rfl rfl
  | streamFinished uuid opens =>
    cases hs
    exact placed_of_same (replies_promotePending _)
  | setMaxConcurrent limit opens =>
    cases hs
    exact placed_of_same (replies_promotePending _)
  | reconnect restores opens =>
    simp only [step] at hs
    split at hs
    · cases hs
    · cases hs
      refine placed_of_same ?_
      rw [replies_drainPending _ (by rw [session_restoreActive]), replies_restoreActive]
  | ends n | deregister n | finish n =>
    obtain ⟨t, _, _, _, rfl⟩ := taskStep_cases hs
    exact placed_of_same rfl
  | timerRemove uuids =>
    simp only [step] at hs
    split at hs
    · cases hs
      exact placed_of_same rfl
    · cases hs
  | linkFailed | pumpExits | takeStream | timerSnapshot =>
    cases hs
    exact placed_of_same rfl

/-! ## The limit -/

/-- The active uplinks are within the limit. -/
def Within (r : RemoteState) : Prop := ∀ max, r.maxConcurrent = some max → r.activeUplinks.keys.length ≤ max

/-- The limit is not lowered. -/
def notLowered (m : Manager) : Act → Prop
  | .setMaxConcurrent (some new) _ => ∃ old, m.remote.maxConcurrent = some old ∧ old ≤ new
  | _ => True

instance (m : Manager) (a : Act) : Decidable (notLowered m a) := by
  unfold notLowered
  split
  · rename_i new _
    refine decidable_of_iff (m.remote.maxConcurrent.any (· ≤ new) = true) ?_
    cases m.remote.maxConcurrent <;> simp
  · exact inferInstance

theorem within_opened (hslot : m.remote.hasActiveSlot = true) : Within (m.opened p).remote := by
  intro max hmax
  have hmax : m.remote.maxConcurrent = some max := hmax
  have hlt : m.remote.activeUplinks.keys.length < max := by
    simpa [RemoteState.hasActiveSlot, hmax] using hslot
  show (m.remote.activeUplinks.insert p.uuid p.number).keys.length ≤ max
  have herase := List.length_erase_le (a := p.uuid) (l := m.remote.activeUplinks.keys)
  rw [AList.keys_insert, List.length_cons]
  omega

theorem Within.removeUplink (h : Within m.remote) (uuid : Uuid) : Within (m.removeUplink uuid).remote := by
  intro max hmax
  show (m.remote.activeUplinks.erase uuid).keys.length ≤ max
  rw [AList.keys_erase]
  exact List.length_erase_le.trans (h max hmax)

theorem Within.promotePending (h : Within m.remote) : Within (promotePending json opens m).remote := by
  have hc := promotePending_cases json opens m
  generalize Manager.promotePending json opens m = m' at hc ⊢
  cases hc with
  | idle => exact h
  | promoted hslot => exact within_opened hslot
  | failed _ hf =>
    rw [hf.remote.1]
    exact h

theorem StartCase.within {m₀ : Manager} (hc : StartCase json opens m₀ p m') (h : Within m₀.remote) : Within m'.remote := by
  cases hc with
  | running hslot => exact within_opened hslot
  | @queued m₁ _ hfail | @refused m₁ _ hfail =>
    have h₁ : Within m₁.remote := by
      rcases hfail with ⟨rfl, _⟩ | hf
      · exact h
      · rw [hf.remote.1]
        exact h
    exact h₁

theorem step_within {a : Act} (h : Within m.remote) (hok : notLowered m a) (hs : step json m a = some m') :
    Within m'.remote := by
  cases a with
  | streamStart uuid info priority opens =>
    cases hs
    exact (onStreamStart_cases json opens _ _).within h
  | streamFinished uuid opens =>
    cases hs
    have h₀ : Within ({ m with finished := m.finished.erase uuid, opens := opens }.removeUplink uuid).remote :=
      h.removeUplink uuid
    exact h₀.promotePending
  | setMaxConcurrent limit opens =>
    cases hs
    refine Within.promotePending (m := { m with remote := { m.remote with maxConcurrent := limit }, opens := opens }) ?_
    intro max hmax
    have hmax : limit = some max := hmax
    subst hmax
    obtain ⟨old, hold, hle⟩ := hok
    exact (h old hold).trans hle
  | reconnect restores opens =>
    simp only [step] at hs
    split at hs
    · cases hs
    · cases hs
      have hres : Within (restoreActive restores { m with remote := { m.remote with session := true }, opens := opens }).remote :=
        restoreActive_keeps (P := fun m => Within m.remote) (fun hm _ _ => hm.removeUplink _) (fun hm => hm) h
      have hlive := session_restoreActive { m with remote := { m.remote with session := true }, opens := opens } restores
      obtain ⟨kept, m', hdrains, heq⟩ := drainPending_drains json opens _ hlive
      rw [heq]
      have hend : Within m'.remote := by
        refine hdrains.invariant (I := fun _ m => Within m.remote) (fun hslot _ _ => within_opened hslot) ?_ [] hres
        intro q p m m₁ _ hf hi
        rw [hf.remote.1]
        exact hi
      exact hend
  | ends n | deregister n | finish n =>
    obtain ⟨t, _, _, _, rfl⟩ := taskStep_cases hs
    exact h
  | timerRemove uuids =>
    simp only [step] at hs
    split at hs
    · cases hs
      exact h
    · cases hs
  | linkFailed | pumpExits | takeStream | timerSnapshot =>
    cases hs
    exact h

/-! ## Every run -/

/-- The queue is ordered and bounded, holds the accepted streams that have no uplink yet as
    they were accepted, replies give places in it, and the limit holds if it is not lowered. -/
theorem pending_queue_ordered (json : SerdeJson StreamHeader) (maxConcurrent maxPending : Nat) :
    (∀ m, Reach (step json) anyStep (init maxConcurrent maxPending) m →
      m.remote.pending.Pairwise Ahead ∧ m.remote.pending.length ≤ m.remote.maxPending ∧
      (∀ p pos, ⟨p, .pending pos⟩ ∈ m.replies → ¬ m.Promoted p → p ∈ m.remote.pending) ∧
      (∀ p ∈ m.remote.pending, (∃ pos, ⟨p, .pending pos⟩ ∈ m.replies) ∧ ¬ m.Promoted p) ∧
      ∀ a m', step json m a = some m' → Placed m m') ∧
    ∀ m, Reach (step json) notLowered (init maxConcurrent maxPending) m →
      ∀ max, m.remote.maxConcurrent = some max → m.remote.activeUplinks.keys.length ≤ max := by
  constructor
  · intro m hr
    have hq : QueueOk m.remote.pending m :=
      hr.invariant (P := fun m => QueueOk m.remote.pending m) (init_queueOk maxConcurrent maxPending)
        fun hi _ hs => step_queueOk hi hs
    exact ⟨hq.sorted, hq.room, fun p pos hp hnot => (hq.kept p pos hp).resolve_right hnot,
      fun p hp => ⟨hq.accepted p hp, hq.waiting p hp⟩, fun a m' hs => step_placed hs⟩
  · intro m hr
    have h0 : Within (init maxConcurrent maxPending).remote := fun max _ => Nat.zero_le max
    exact hr.invariant (P := fun m => Within m.remote) h0 fun hi hok hs => step_within hi hok hs

/-- The text of a uuid: 32 hex digits with hyphens. -/
def uuidText (u : Uuid) : List UInt8 :=
  (List.range 32).flatMap fun i =>
    let digit := u.bits.toNat / 16 ^ (31 - i) % 16
    (if i ∈ [8, 12, 16, 20] then [45] else []) ++ [.ofNat (if digit < 10 then 48 + digit else 87 + digit)]

/-- The JSON text of a header without a size and without attributes: an object with the
    members `uuid`, `priority`, `size_bytes` and `attrs`. -/
def plainJson : SerdeJson StreamHeader where
  toVec h := .ok (
    [123, 34, 117, 117, 105, 100, 34, 58, 34] ++ uuidText h.uuid ++
    [34, 44, 34, 112, 114, 105, 111, 114, 105, 116, 121, 34, 58] ++
    (Nat.toDigits 10 h.priority.toNat).map (fun c => .ofNat c.toNat) ++
    [44, 34, 115, 105, 122, 101, 95, 98, 121, 116, 101, 115, 34, 58, 110, 117, 108, 108, 44] ++
    [34, 97, 116, 116, 114, 115, 34, 58, 123, 125, 125])
  fromSlice _ := .error "not modelled"

def plainInfo : DomainStreamInfo := ⟨none, ∅⟩

/-- Every attempt succeeds. -/
def allOpen (_ : PendingStream) : OpenResult := .opened

/-- Three streams for one slot: the second and the third wait, the third in front. -/
theorem three_streams_one_slot :
    ∃ m, Reach (step plainJson) anyStep (init 1 2) m ∧ m.remote.pending.map (·.number) = [2, 1] ∧
      m.remote.pending.Pairwise Ahead := by
  obtain ⟨m, hr, hm⟩ := Reach.exists_run (step plainJson) anyStep (init 1 2)
    [.streamStart ⟨1⟩ plainInfo ⟨0⟩ allOpen, .streamStart ⟨2⟩ plainInfo ⟨0⟩ allOpen, .streamStart ⟨3⟩ plainInfo ⟨5⟩ allOpen]
    (fun m => m.remote.pending.map (·.number) = [2, 1]) (by decide +kernel)
  exact ⟨m, hr, of_decide_eq_true hm, ((pending_queue_ordered plainJson 1 2).1 m hr).1⟩

end Quelay.Agent.SessionManager.Manager
