/-
  Quelay.Agent.SessionManager.Conserving — when no slot is left free beside a stream that
  could be opened.

  `drain_pending` tries every entry until the slots are full. `promote_pending` tries the
  first entry and opens at most one stream, whatever the number of free slots: after a
  raise of the limit by two, or with a first entry that cannot be opened, slots stay free
  beside streams that could use them, and the next `StreamStart` overtakes these
  (`a_raised_limit_leaves_a_slot_free`). Where one stream from the front is enough, and no
  queued stream becomes openable by itself, the queue is work-conserving
  (`work_conserving`).
-/

import Quelay.Agent.SessionManager.Queue

namespace Quelay.Agent.SessionManager.Manager

open Quelay.Lib Quelay.Domain Framing

variable {json : SerdeJson StreamHeader} {opens : PendingStream → OpenResult} {m m' : Manager} {p : PendingStream}

/-- On a live session, a free slot means that no queued stream could have been opened while
    the last command was handled. -/
def Conserving (json : SerdeJson StreamHeader) (m : Manager) : Prop :=
  m.remote.session = true → m.remote.hasActiveSlot = true →
    ∀ p ∈ m.remote.pending, openResult json m.opens p ≠ .opened

/-- The first entry can be opened, and then no slot is left or no other entry can be. -/
def FrontEnough (json : SerdeJson StreamHeader) (opens : PendingStream → OpenResult) (r : RemoteState) : Prop :=
  ∀ p ∈ r.pending.head?, openResult json opens p = .opened ∧
    ((∀ q ∈ r.pending.tail, openResult json opens q ≠ .opened) ∨
      (p.uuid ∉ r.activeUplinks ∧ r.maxConcurrent = some (r.activeUplinks.keys.length + 1)))

/-- With a slot free on a live session, no entry can be opened or the first is enough. -/
def PromotesEnough (json : SerdeJson StreamHeader) (opens : PendingStream → OpenResult) (r : RemoteState) : Prop :=
  r.session = true → r.hasActiveSlot = true →
    (∀ q ∈ r.pending, openResult json opens q ≠ .opened) ∨ FrontEnough json opens r

/-- What is asked of a command: a queued stream beside a free slot has not become openable
    since the last one; and `promote_pending` has one stream to open, the first, or none. -/
def fillsSlots (json : SerdeJson StreamHeader) (m : Manager) : Act → Prop
  | .streamStart _ _ _ opens =>
    m.remote.session = true → m.remote.hasActiveSlot = true →
      ∀ p ∈ m.remote.pending, openResult json opens p = .opened → openResult json m.opens p = .opened
  | .streamFinished uuid opens =>
    PromotesEnough json opens { m.remote with activeUplinks := m.remote.activeUplinks.erase uuid }
  | .setMaxConcurrent limit opens => PromotesEnough json opens { m.remote with maxConcurrent := limit }
  | _ => True

instance (r : RemoteState) : Decidable (FrontEnough json opens r) :=
  inferInstanceAs (Decidable (∀ p ∈ r.pending.head?, _))

instance (r : RemoteState) : Decidable (PromotesEnough json opens r) := inferInstanceAs (Decidable (_ → _ → _ ∨ _))

instance (m : Manager) (a : Act) : Decidable (fillsSlots json m a) := by
  unfold fillsSlots
  split <;> infer_instance

/-! ## Commands -/

theorem hasActiveSlot_opened (hfresh : p.uuid ∉ m.remote.activeUplinks)
    (hlast : m.remote.maxConcurrent = some (m.remote.activeUplinks.keys.length + 1)) :
    (m.opened p).remote.hasActiveSlot = false := by
  have hkeys : (m.opened p).remote.activeUplinks.keys.length = m.remote.activeUplinks.keys.length + 1 := by
    show (m.remote.activeUplinks.insert p.uuid p.number).keys.length = _
    rw [AList.keys_insert, List.length_cons, List.erase_of_not_mem (by simpa [AList.mem_keys] using hfresh)]
  have hmax : (m.opened p).remote.maxConcurrent = some (m.remote.activeUplinks.keys.length + 1) := hlast
  simp [RemoteState.hasActiveSlot, hmax, hkeys]

theorem promotePending_conserving (hopens : m.opens = opens) (h : PromotesEnough json opens m.remote) :
    Conserving json (promotePending json opens m) := by
  have hc := promotePending_cases json opens m
  generalize promotePending json opens m = m' at hc ⊢
  cases hc with
  | idle hidle =>
    intro hlive hslot p hp
    rcases hidle with hno | hno | hno
    · rw [hslot] at hno
      cases hno
    · rw [hlive] at hno
      cases hno
    · rw [hno] at hp
      cases hp
  | @promoted p rest hslot hlive hp ho =>
    intro _ hslot' q hq
    have hq : q ∈ rest := hq
    rcases h hlive hslot with hnone | hfront
    · exact absurd ho (hnone p (by rw [hp]; exact List.mem_cons_self))
    · obtain ⟨_, hrest | ⟨hfresh, hlast⟩⟩ := hfront p (by rw [hp]; rfl)
      · rw [hp] at hrest
        exact hopens ▸ hrest q hq
      · have hfull := hasActiveSlot_opened hfresh hlast
        exact absurd (hfull.symm.trans hslot') nofun
  | @failed m₁ p rest hp hf =>
    intro hlive hslot q hq
    obtain ⟨hremote, _, _, _, ho⟩ := hf.remote
    rw [hremote] at hlive hslot hq
    rw [ho, hopens]
    rcases h hlive hslot with hnone | hfront
    · exact hnone q hq
    · exact absurd (hfront p (by rw [hp]; rfl)).1 hf.not_opened

theorem StartCase.conserving {m₀ : Manager} (hc : StartCase json opens m₀ p m') (hopens : m₀.opens = opens)
    (hnone : m₀.remote.session = true → m₀.remote.hasActiveSlot = true →
      ∀ q ∈ m₀.remote.pending, openResult json opens q ≠ .opened) : Conserving json m' := by
  cases hc with
  | running hslot hlive _ =>
    intro _ _ q hq
    show openResult json m₀.opens q ≠ .opened
    rw [hopens]
    exact hnone hlive hslot q hq
  | @queued m₁ _ hfail _ =>
    obtain ⟨hremote, _, _, _, ho⟩ := Unopened.remote hfail
    intro hlive hslot q hq
    have hlive₀ : m₀.remote.session = true := by rw [← hremote]; exact hlive
    have hslot₀ : m₀.remote.hasActiveSlot = true := by rw [← hremote]; exact hslot
    have hperm : ((m₀.remote.enqueue p).1.pending).Perm (p :: m₀.remote.pending) := insert_perm _ _ _
    show openResult json m₁.opens q ≠ .opened
    rw [ho, hopens]
    rcases List.mem_cons.mp (hperm.mem_iff.mp hq) with rfl | hq
    -- Either the stream itself failed to open, or no slot was free.
    · exact Unopened.not_opened hfail hslot₀ hlive₀
    · exact hnone hlive₀ hslot₀ q hq
  | @refused m₁ _ hfail _ =>
    obtain ⟨hremote, _, _, _, ho⟩ := Unopened.remote hfail
    intro hlive hslot q hq
    have hlive : m₀.remote.session = true := by rw [← hremote]; exact hlive
    have hslot : m₀.remote.hasActiveSlot = true := by rw [← hremote]; exact hslot
    have hq : q ∈ m₀.remote.pending := by rw [← hremote]; exact hq
    show openResult json m₁.opens q ≠ .opened
    rw [ho, hopens]
    exact hnone hlive hslot q hq

/-- The loop stops with no slot left, or after it has tried every entry. -/
theorem Drains.tried {ps kept : List PendingStream} (h : Drains json opens ps m kept m') :
    m'.remote.hasActiveSlot = false ∨ ∀ q ∈ kept, openResult json opens q ≠ .opened := by
  induction h with
  | nil => exact .inr nofun
  | full hslot => exact .inl hslot
  | opened _ _ _ ih => exact ih
  | failed hf _ ih =>
    refine ih.imp_right fun hkept q hq => ?_
    rcases List.mem_cons.mp hq with rfl | hq
    · exact hf.not_opened
    · exact hkept q hq

theorem opens_drains {ps kept : List PendingStream} (h : Drains json opens ps m kept m') : m'.opens = m.opens :=
  h.invariant (I := fun _ m' => m'.opens = m.opens) (fun _ _ hi => hi) (fun _ hf hi => hf.remote.2.2.2.2.trans hi) [] rfl

theorem opens_restoreActive (m : Manager) (restores : Nat → Bool) : (m.restoreActive restores).opens = m.opens :=
  restoreActive_keeps (P := fun m' => m'.opens = m.opens) (fun hm _ _ => hm) (fun hm => hm) rfl

theorem drainPending_conserving (hopens : m.opens = opens) (hlive : m.remote.session = true) :
    Conserving json (drainPending json opens m) := by
  obtain ⟨kept, m', hdrains, heq⟩ := drainPending_drains json opens m hlive
  rw [heq]
  intro _ hslot q hq
  have hslot : m'.remote.hasActiveSlot = true := hslot
  show openResult json m'.opens q ≠ .opened
  rw [opens_drains hdrains, hopens]
  rcases hdrains.tried with hfull | hkept
  · rw [hslot] at hfull
    cases hfull
  · exact hkept q hq

/-! ## Every run -/

theorem step_conserving {a : Act} (h : Conserving json m) (hok : fillsSlots json m a) (hs : step json m a = some m') :
    Conserving json m' := by
  cases a with
  | streamStart uuid info priority opens =>
    cases hs
    refine (onStreamStart_cases json opens _ _).conserving rfl ?_
    intro hlive hslot q hq ho
    exact h hlive hslot q hq (hok hlive hslot q hq ho)
  | streamFinished uuid opens =>
    cases hs
    have hp : PromotesEnough json opens
        ({ m with finished := m.finished.erase uuid, opens := opens }.removeUplink uuid).remote := hok
    exact promotePending_conserving rfl hp
  | setMaxConcurrent limit opens =>
    cases hs
    have hp : PromotesEnough json opens
        ({ m with remote := { m.remote with maxConcurrent := limit }, opens := opens } : Manager).remote := hok
    exact promotePending_conserving rfl hp
  | linkFailed =>
    cases hs
    exact nofun
  | reconnect restores opens =>
    simp only [step] at hs
    split at hs
    · cases hs
    · cases hs
      exact drainPending_conserving (opens_restoreActive _ restores) (session_restoreActive _ restores)
  | ends n | deregister n | finish n =>
    obtain ⟨t, _, _, _, rfl⟩ := taskStep_cases hs
    exact h
  | timerRemove uuids =>
    simp only [step] at hs
    split at hs
    · cases hs
      exact h
    · cases hs
  | pumpExits | takeStream | timerSnapshot =>
    cases hs
    exact h

theorem init_conserving (maxConcurrent maxPending : Nat) : Conserving json (init maxConcurrent maxPending) :=
  fun _ _ => nofun

/-- After every command and every reconnection, no slot of a live session is free beside a
    stream that can be opened; and a new stream is not opened ahead of one that waits with
    its priority or a higher one and can be opened. -/
theorem work_conserving {maxConcurrent maxPending : Nat}
    (h : Reach (step json) (fillsSlots json) (init maxConcurrent maxPending) m) :
    Conserving json m ∧
      ∀ uuid info priority opens m', fillsSlots json m (.streamStart uuid info priority opens) →
        step json m (.streamStart uuid info priority opens) = some m' →
        ⟨m.newStream uuid info priority, .running⟩ ∈ m'.replies.drop m.replies.length →
        ∀ q ∈ m.remote.pending, openResult json opens q = .opened → q.priority < priority := by
  have hcons : Conserving json m :=
    h.invariant (init_conserving maxConcurrent maxPending) fun hi hok hs => step_conserving hi hok hs
  refine ⟨hcons, ?_⟩
  intro uuid info priority opens m' hok hs hr q hq ho
  cases hs
  have hc := onStreamStart_cases json opens { m with started := m.started + 1, opens := opens }
    (m.newStream uuid info priority)
  generalize onStreamStart json opens { m with started := m.started + 1, opens := opens }
    (m.newStream uuid info priority) = m' at hc hr
  -- The reply says that the stream was opened, so a slot was free.
  cases hc with
  | running hslot hlive _ => exact absurd (hok hlive hslot q hq ho) (hcons hlive hslot q hq)
  | queued | refused =>
    rw [List.drop_left] at hr
    cases List.mem_singleton.mp hr

/-- One slot: the second stream waits, and is opened when the first has finished. -/
theorem freed_slot_is_filled :
    ∃ m, Reach (step plainJson) (fillsSlots plainJson) (init 1 5) m ∧ m.remote.pending = [] ∧ m.tasks.length = 2 ∧
      Conserving plainJson m := by
  obtain ⟨m, hr, hm⟩ := Reach.exists_run (step plainJson) (fillsSlots plainJson) (init 1 5)
    [.streamStart ⟨1⟩ plainInfo ⟨0⟩ allOpen, .streamStart ⟨2⟩ plainInfo ⟨0⟩ allOpen, .streamFinished ⟨1⟩ allOpen]
    (fun m => m.remote.pending = [] ∧ m.tasks.length = 2) (by decide +kernel)
  obtain ⟨hp, ht⟩ := of_decide_eq_true hm
  exact ⟨m, hr, hp, ht, (work_conserving hr).1⟩

/-- Three streams for one slot, then the limit becomes three: one of the two that wait is
    opened, a slot stays free beside the other, and a fourth stream is opened ahead of it. -/
theorem a_raised_limit_leaves_a_slot_free :
    ∃ m m', Reach (step plainJson) anyStep (init 1 5) m ∧ ¬ Conserving plainJson m ∧
      step plainJson m (.streamStart ⟨4⟩ plainInfo ⟨0⟩ allOpen) = some m' ∧
      ⟨m.newStream ⟨4⟩ plainInfo ⟨0⟩, .running⟩ ∈ m'.replies.drop m.replies.length ∧
      ∃ q ∈ m.remote.pending, openResult plainJson allOpen q = .opened ∧ q.priority = ⟨0⟩ := by
  obtain ⟨m, hr, hm⟩ := Reach.exists_run (step plainJson) anyStep (init 1 5)
    [.streamStart ⟨1⟩ plainInfo ⟨0⟩ allOpen, .streamStart ⟨2⟩ plainInfo ⟨0⟩ allOpen,
      .streamStart ⟨3⟩ plainInfo ⟨0⟩ allOpen, .setMaxConcurrent (some 3) allOpen]
    (fun m => (m.remote.session = true ∧ m.remote.hasActiveSlot = true ∧
        ∃ q ∈ m.remote.pending, openResult plainJson m.opens q = .opened ∧ openResult plainJson allOpen q = .opened ∧
          q.priority = ⟨0⟩) ∧
      ⟨m.newStream ⟨4⟩ plainInfo ⟨0⟩, .running⟩ ∈
        ((step plainJson m (.streamStart ⟨4⟩ plainInfo ⟨0⟩ allOpen)).elim [] fun m' => m'.replies.drop m.replies.length))
    (by decide +kernel)
  obtain ⟨⟨hlive, hslot, q, hq, ho, ho', hpri⟩, hrep⟩ := of_decide_eq_true hm
  exact ⟨m, _, hr, fun hcons => hcons hlive hslot q hq ho, rfl, hrep, q, hq, ho', hpri⟩

end Quelay.Agent.SessionManager.Manager
