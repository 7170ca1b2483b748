/-
  Quelay.Agent.SessionManager.Uplinks — accepted streams are neither lost nor doubled, as
  long as no uuid is used again too early.

  `active_uplinks`, the rate limiter's table and its timer's snapshot know a stream by the
  client's uuid alone. If a `StreamStart` comes with a uuid that is still in use, the
  second handle replaces the first: the first uplink runs without a handle, gets no stream
  after an outage, and its end removes the other's entries (`a_repeated_uuid_loses_a_handle`).
  An uplink also loses its handle when `restore_active` finds its channel full. In runs
  without these, `Kept` holds, and with it `no_stream_lost_or_doubled`.
-/

import Quelay.Agent.SessionManager.Queue

namespace Quelay.Agent.SessionManager.Manager

open Quelay.Lib Quelay.Domain Framing

variable {json : SerdeJson StreamHeader} {opens : PendingStream → OpenResult} {m m' : Manager} {p : PendingStream}
  {queue : List PendingStream}

/-- The stream is still in the rate limiter's table by its own doing. -/
def enrolled : TaskPc → Bool
  | .running | .deregister => true
  | _ => false

structure Kept (queue : List PendingStream) (m : Manager) : Prop where
  numbers : (m.tasks.map (·.number)).Nodup
  handle : ∀ t ∈ m.tasks, t.pc ≠ .gone → m.remote.activeUplinks.lookup t.uuid = some t.number
  owner : ∀ u n, m.remote.activeUplinks.lookup u = some n → ∃ t ∈ m.tasks, t.number = n ∧ t.uuid = u
  finished : ∀ u ∈ m.finished, ∀ t ∈ m.tasks, t.uuid = u → t.pc = .gone
  registered : ∀ t ∈ m.tasks, enrolled t.pc = true → t.pump = true → m.arl.lookup t.uuid = some t.number
  below : ∀ u n, m.arl.lookup u = some n → n < m.started
  table : ∀ u n, m.arl.lookup u = some n → ∀ t ∈ m.tasks, t.number = n → t.uuid = u ∧ enrolled t.pc = true
  attempt : ∀ u n, m.arl.lookup u = some n → ∀ p ∈ queue, p.number = n → p.uuid = u
  past : ∀ e ∈ m.snapshot, e.2 < m.started
  seen : ∀ e ∈ m.snapshot, (∃ t ∈ m.tasks, t.number = e.2) →
    (∀ t ∈ m.tasks, t.uuid = e.1 → t.pc ≠ .gone → t.number = e.2) ∧ ∀ p ∈ queue, p.uuid ≠ e.1
  seenAttempt : ∀ e ∈ m.snapshot, ∀ p ∈ queue, p.number = e.2 → p.uuid = e.1
  uuids : queue.Pairwise fun p q => p.uuid ≠ q.uuid
  waiting : ∀ p ∈ queue, p.uuid ∉ m.finished ∧ ∀ t ∈ m.tasks, t.uuid = p.uuid → t.pc = .gone

/-! ## Tasks -/

theorem mem_updateTask {n : Nat} {f : Uplink → Uplink} {t' : Uplink} :
    t' ∈ (m.updateTask n f).tasks ↔ ∃ t ∈ m.tasks, (if t.number = n then f t else t) = t' := List.mem_map

theorem Kept.same_task (h : Kept queue m) {t t' : Uplink} (ht : t ∈ m.tasks) (ht' : t' ∈ m.tasks)
    (hn : t.number = t'.number) : t = t' :=
  List.inj_on_of_nodup_map h.numbers ht ht' hn

/-- Live uplinks have distinct uuids. -/
theorem Kept.live_unique (h : Kept queue m) {t t' : Uplink} (ht : t ∈ m.tasks) (ht' : t' ∈ m.tasks) (hlive : t.pc ≠ .gone)
    (hlive' : t'.pc ≠ .gone) (hu : t.uuid = t'.uuid) : t = t' := by
  refine h.same_task ht ht' ?_
  have h₁ := h.handle t ht hlive
  have h₂ := h.handle t' ht' hlive'
  rw [hu, h₂] at h₁
  exact (Option.some.inj h₁).symm

/-- Tasks change in what the tables do not depend on. -/
theorem Kept.move (h : Kept queue m) (n : Nat) (f : Uplink → Uplink) (hn : ∀ t, (f t).number = t.number) (hu : ∀ t, (f t).uuid = t.uuid)
    (hpc : ∀ t, (f t).pc = t.pc) (hpump : ∀ t, (f t).pump = true → t.pump = true) :
    Kept queue (m.updateTask n f) := by
  let g : Uplink → Uplink := fun t => if t.number = n then f t else t
  have hg : ∀ t, (g t).number = t.number ∧ (g t).uuid = t.uuid ∧ (g t).pc = t.pc ∧ ((g t).pump = true → t.pump = true) := by
    intro t
    by_cases he : t.number = n
    · rw [show g t = f t from if_pos he]
      exact ⟨hn t, hu t, hpc t, hpump t⟩
    · rw [show g t = t from if_neg he]
      exact ⟨rfl, rfl, rfl, fun h => h⟩
  have hmem : ∀ t' ∈ (m.updateTask n f).tasks, ∃ t ∈ m.tasks, t' = g t := by
    intro t' ht'
    obtain ⟨t, ht, he⟩ := mem_updateTask.mp ht'
    exact ⟨t, ht, he.symm⟩
  refine ⟨?_, ?_, ?_, ?_, ?_, h.below, ?_, h.attempt, h.past, ?_, h.seenAttempt, h.uuids, ?_⟩
  · rw [map_updateTask m n hn]
    exact h.numbers
  · intro t' ht' hlive
    obtain ⟨t, ht, rfl⟩ := hmem t' ht'
    rw [(hg t).2.2.1] at hlive
    rw [(hg t).1, (hg t).2.1]
    exact h.handle t ht hlive
  · intro u n' hl
    obtain ⟨t, ht, hnum, huuid⟩ := h.owner u n' hl
    exact ⟨g t, mem_updateTask.mpr ⟨t, ht, rfl⟩, by rw [(hg t).1, hnum], by rw [(hg t).2.1, huuid]⟩
  · intro u hmem' t' ht' huuid
    obtain ⟨t, ht, rfl⟩ := hmem t' ht'
    rw [(hg t).2.1] at huuid
    rw [(hg t).2.2.1]
    exact h.finished u hmem' t ht huuid
  · intro t' ht' hreg hp
    obtain ⟨t, ht, rfl⟩ := hmem t' ht'
    rw [(hg t).2.2.1] at hreg
    rw [(hg t).1, (hg t).2.1]
    exact h.registered t ht hreg ((hg t).2.2.2 hp)
  · intro u n' hl t' ht' hnum
    obtain ⟨t, ht, rfl⟩ := hmem t' ht'
    rw [(hg t).1] at hnum
    rw [(hg t).2.1, (hg t).2.2.1]
    exact h.table u n' hl t ht hnum
  · rintro e he ⟨t', ht', hnum⟩
    obtain ⟨t, ht, rfl⟩ := hmem t' ht'
    rw [(hg t).1] at hnum
    obtain ⟨hlive, hq⟩ := h.seen e he ⟨t, ht, hnum⟩
    refine ⟨fun t' ht' huuid hpc' => ?_, hq⟩
    obtain ⟨t, ht, rfl⟩ := hmem t' ht'
    rw [(hg t).2.1] at huuid
    rw [(hg t).2.2.1] at hpc'
    rw [(hg t).1]
    exact hlive t ht huuid hpc'
  · intro p hp
    refine ⟨(h.waiting p hp).1, fun t' ht' huuid => ?_⟩
    obtain ⟨t, ht, rfl⟩ := hmem t' ht'
    rw [(hg t).2.1] at huuid
    rw [(hg t).2.2.1]
    exact (h.waiting p hp).2 t ht huuid

/-! ## Opening -/

/-- A stream whose uuid nothing else uses: it is queued, or is the one being started. -/
structure Unused (rest : List PendingStream) (m : Manager) (p : PendingStream) : Prop where
  below : p.number < m.started
  noTask : ∀ t ∈ m.tasks, t.number ≠ p.number
  noEntry : ∀ q ∈ rest, q.number ≠ p.number ∧ q.uuid ≠ p.uuid
  finished : p.uuid ∉ m.finished
  live : ∀ t ∈ m.tasks, t.uuid = p.uuid → t.pc = .gone
  table : ∀ u, m.arl.lookup u = some p.number → u = p.uuid
  seen : ∀ e ∈ m.snapshot, e.2 = p.number → e.1 = p.uuid
  unseen : ∀ e ∈ m.snapshot, (∃ t ∈ m.tasks, t.number = e.2) → e.1 ≠ p.uuid

theorem Kept.unused {l ps : List PendingStream} (h : Kept (l ++ p :: ps) m) (hq : QueueOk (l ++ p :: ps) m) :
    Unused (l ++ ps) m p := by
  have hp : p ∈ l ++ p :: ps := by simp
  have hsplit := List.pairwise_append.mp h.uuids
  have hnum := List.pairwise_append.mp hq.distinct
  refine ⟨hq.fresh p hp, fun t ht hn => hq.waiting p hp ⟨t, ht, hn⟩, ?_, (h.waiting p hp).1, (h.waiting p hp).2,
    fun u hu => (h.attempt u _ hu p hp rfl).symm, fun e he hn => (h.seenAttempt e he p hp hn.symm).symm,
    fun e he ht => ((h.seen e he ht).2 p hp).symm⟩
  intro q hqm
  rcases List.mem_append.mp hqm with hqm | hqm
  · exact ⟨hnum.2.2 q hqm p List.mem_cons_self, hsplit.2.2 q hqm p List.mem_cons_self⟩
  · exact ⟨((List.pairwise_cons.mp hnum.2.1).1 q hqm).symm, ((List.pairwise_cons.mp hsplit.2.1).1 q hqm).symm⟩

theorem Kept.sublist {queue' : List PendingStream} (h : Kept queue m) (hsub : queue'.Sublist queue) : Kept queue' m :=
  ⟨h.numbers, h.handle, h.owner, h.finished, h.registered, h.below, h.table,
    fun u n hl p hp => h.attempt u n hl p (hsub.mem hp), h.past,
    fun e he ht => ⟨(h.seen e he ht).1, fun p hp => (h.seen e he ht).2 p (hsub.mem hp)⟩,
    fun e he p hp => h.seenAttempt e he p (hsub.mem hp), h.uuids.sublist hsub, fun p hp => h.waiting p (hsub.mem hp)⟩

/-- The rate limiter's entry of the stream is made. Live uplinks keep theirs. -/
theorem Kept.register (h : Kept queue m) (hp : Unused queue m p) : Kept queue (m.register p) := by
  have hother : ∀ u n, (m.arl.insert p.uuid p.number).lookup u = some n →
      (u = p.uuid ∧ n = p.number) ∨ (u ≠ p.uuid ∧ m.arl.lookup u = some n) := by
    intro u n hl
    by_cases hu : u = p.uuid
    · subst hu
      rw [AList.lookup_insert] at hl
      exact .inl ⟨rfl, (Option.some.inj hl).symm⟩
    · rw [AList.lookup_insert_ne hu] at hl
      exact .inr ⟨hu, hl⟩
  refine ⟨h.numbers, h.handle, h.owner, h.finished, ?_, ?_, ?_, ?_, h.past, h.seen, h.seenAttempt, h.uuids, h.waiting⟩
  · intro t ht hreg hpump
    have hu : t.uuid ≠ p.uuid := by
      intro hu
      rw [hp.live t ht hu] at hreg
      cases hreg
    show (m.arl.insert p.uuid p.number).lookup t.uuid = some t.number
    rw [AList.lookup_insert_ne hu]
    exact h.registered t ht hreg hpump
  · intro u n hl
    rcases hother u n hl with ⟨_, rfl⟩ | ⟨_, hl⟩
    · exact hp.below
    · exact h.below u n hl
  · intro u n hl t ht hn
    rcases hother u n hl with ⟨_, rfl⟩ | ⟨_, hl⟩
    · exact absurd hn (hp.noTask t ht)
    · exact h.table u n hl t ht hn
  · intro u n hl q hq hn
    rcases hother u n hl with ⟨_, rfl⟩ | ⟨_, hl⟩
    · exact absurd hn (hp.noEntry q hq).1
    · exact h.attempt u n hl q hq hn

/-- The same for a stream that stays in the queue. -/
theorem Kept.registerQueued {l ps : List PendingStream} (h : Kept (l ++ p :: ps) m) (hq : QueueOk (l ++ p :: ps) m) :
    Kept (l ++ p :: ps) (m.register p) := by
  have hp := h.unused hq
  have hk := (h.sublist ((List.Sublist.refl l).append (List.sublist_cons_self p ps))).register hp
  refine ⟨hk.numbers, hk.handle, hk.owner, hk.finished, hk.registered, hk.below, hk.table, ?_, h.past, h.seen,
    h.seenAttempt, h.uuids, h.waiting⟩
  intro u n hl q hqm hn
  by_cases hu : u = p.uuid
  · subst hu
    have hl : (m.arl.insert p.uuid p.number).lookup p.uuid = some n := hl
    rw [AList.lookup_insert] at hl
    -- Only `p` itself has its number.
    have : q = p := by
      rcases List.mem_append.mp hqm with hqm | hqm
      · exact absurd (hn.trans (Option.some.inj hl).symm) (hp.noEntry q (List.mem_append_left _ hqm)).1
      · rcases List.mem_cons.mp hqm with rfl | hqm
        · rfl
        · exact absurd (hn.trans (Option.some.inj hl).symm) (hp.noEntry q (List.mem_append_right _ hqm)).1
    rw [this]
  · have hl : (m.arl.insert p.uuid p.number).lookup u = some n := hl
    rw [AList.lookup_insert_ne hu] at hl
    exact h.attempt u n hl q hqm hn

theorem Kept.opened (h : Kept queue m) (hp : Unused queue m p) : Kept queue (m.opened p) := by
  have hr := h.register hp
  have hmem : ∀ t, t ∈ (m.opened p).tasks ↔ t ∈ m.tasks ∨ t = ⟨p.number, p.uuid, .running, 0, true⟩ := by
    intro t
    exact List.mem_append.trans (or_congr Iff.rfl List.mem_singleton)
  have hlook : ∀ u, (m.opened p).remote.activeUplinks.lookup u =
      (m.remote.activeUplinks.insert p.uuid p.number).lookup u := fun _ => rfl
  refine ⟨?_, ?_, ?_, ?_, ?_, hr.below, ?_, hr.attempt, h.past, ?_, h.seenAttempt, h.uuids, ?_⟩
  · have hmap : (m.opened p).tasks.map (·.number) = m.tasks.map (·.number) ++ [p.number] := List.map_append
    rw [hmap, List.nodup_append]
    refine ⟨h.numbers, List.nodup_singleton _, ?_⟩
    intro n hn n' hn' he
    obtain ⟨t, ht, rfl⟩ := List.mem_map.mp hn
    obtain rfl : n' = p.number := by simpa using hn'
    exact hp.noTask t ht he
  · intro t ht hlive
    rw [hlook]
    rcases (hmem t).mp ht with ht | rfl
    · have hu : t.uuid ≠ p.uuid := fun hu => hlive (hp.live t ht hu)
      rw [AList.lookup_insert_ne hu]
      exact h.handle t ht hlive
    · exact AList.lookup_insert _
  · intro u n hl
    rw [hlook] at hl
    by_cases hu : u = p.uuid
    · subst hu
      rw [AList.lookup_insert] at hl
      exact ⟨_, (hmem _).mpr (.inr rfl), Option.some.inj hl, rfl⟩
    · rw [AList.lookup_insert_ne hu] at hl
      obtain ⟨t, ht, hn, huuid⟩ := h.owner u n hl
      exact ⟨t, (hmem t).mpr (.inl ht), hn, huuid⟩
  · intro u hu t ht huuid
    rcases (hmem t).mp ht with ht | rfl
    · exact h.finished u hu t ht huuid
    · have huuid : p.uuid = u := huuid
      exact absurd (huuid ▸ hu) hp.finished
  · intro t ht hreg hpump
    rcases (hmem t).mp ht with ht | rfl
    · exact hr.registered t ht hreg hpump
    · exact AList.lookup_insert _
  · intro u n hl t ht hn
    rcases (hmem t).mp ht with ht | rfl
    · exact hr.table u n hl t ht hn
    · refine ⟨?_, rfl⟩
      have hn : p.number = n := hn
      subst hn
      by_contra hne
      have hl : (m.arl.insert p.uuid p.number).lookup u = some p.number := hl
      rw [AList.lookup_insert_ne (Ne.symm hne)] at hl
      exact hne (hp.table u hl).symm
  · rintro e he ⟨t, ht, hn⟩
    rcases (hmem t).mp ht with ht | rfl
    · obtain ⟨hlive, hqueue⟩ := h.seen e he ⟨t, ht, hn⟩
      refine ⟨fun t' ht' huuid hpc => ?_, hqueue⟩
      rcases (hmem t').mp ht' with ht' | rfl
      · exact hlive t' ht' huuid hpc
      · exact absurd huuid.symm (hp.unseen e he ⟨t, ht, hn⟩)
    · -- The snapshot has an earlier attempt of the same stream.
      have hn : p.number = e.2 := hn
      have hu := hp.seen e he hn.symm
      refine ⟨fun t' ht' huuid hpc => ?_, fun q hq => by rw [hu]; exact (hp.noEntry q hq).2⟩
      rcases (hmem t').mp ht' with ht' | rfl
      · exact absurd (hp.live t' ht' (huuid.trans hu)) hpc
      · exact hn
  · intro q hq
    refine ⟨(h.waiting q hq).1, fun t ht huuid => ?_⟩
    rcases (hmem t).mp ht with ht | rfl
    · exact (h.waiting q hq).2 t ht huuid
    · exact absurd huuid.symm (hp.noEntry q hq).2

/-- A failed attempt on a queued stream. -/
theorem Kept.failed {m₁ : Manager} (h : Kept queue m) (hq : QueueOk queue m) (hp : p ∈ queue)
    (hf : Failed json opens m p m₁) : Kept queue m₁ := by
  rcases hf with ⟨_, rfl⟩ | ⟨_, rfl⟩
  · exact h
  · obtain ⟨l, ps, rfl⟩ := List.append_of_mem hp
    exact h.registerQueued hq

/-- A stream with an unused uuid enters the queue. -/
theorem Kept.enqueue (h : Kept queue m) (hp : Unused queue m p) (hseen : ∀ e ∈ m.snapshot, e.1 ≠ p.uuid)
    (hnew : ∀ e ∈ m.snapshot, e.2 ≠ p.number) {queue' : List PendingStream} (hperm : queue'.Perm (p :: queue)) :
    Kept queue' m := by
  have hmem : ∀ q, q ∈ queue' ↔ q = p ∨ q ∈ queue := fun q => hperm.mem_iff.trans List.mem_cons
  refine ⟨h.numbers, h.handle, h.owner, h.finished, h.registered, h.below, h.table, ?_, h.past, ?_, ?_, ?_, ?_⟩
  · intro u n hl q hq hn
    rcases (hmem q).mp hq with rfl | hq
    · exact (hp.table u (hn ▸ hl)).symm
    · exact h.attempt u n hl q hq hn
  · intro e he ht
    refine ⟨(h.seen e he ht).1, fun q hq => ?_⟩
    rcases (hmem q).mp hq with rfl | hq
    · exact (hseen e he).symm
    · exact (h.seen e he ht).2 q hq
  · intro e he q hq hn
    rcases (hmem q).mp hq with rfl | hq
    · exact absurd hn.symm (hnew e he)
    · exact h.seenAttempt e he q hq hn
  · refine (hperm.pairwise_iff fun hab => hab.symm).mpr ?_
    exact List.pairwise_cons.mpr ⟨fun q hq => (hp.noEntry q hq).2.symm, h.uuids⟩
  · intro q hq
    rcases (hmem q).mp hq with rfl | hq
    · exact ⟨hp.finished, hp.live⟩
    · exact h.waiting q hq

/-! ## The end of an uplink -/

/-- A handle that belongs to no live uplink is removed. -/
theorem Kept.removeUplink (h : Kept queue m) {uuid : Uuid} (hdead : ∀ t ∈ m.tasks, t.uuid = uuid → t.pc = .gone) :
    Kept queue (m.removeUplink uuid) := by
  refine ⟨h.numbers, ?_, ?_, h.finished, h.registered, h.below, h.table, h.attempt, h.past, h.seen, h.seenAttempt, h.uuids,
    h.waiting⟩
  · intro t ht hlive
    have hne : t.uuid ≠ uuid := fun he => hlive (hdead t ht he)
    show (m.remote.activeUplinks.erase uuid).lookup t.uuid = some t.number
    rw [AList.lookup_erase_ne hne]
    exact h.handle t ht hlive
  · intro u n hl
    exact h.owner u n (lookup_of_erase hl).2

/-- The tasks after one has moved: the others, and that one moved. -/
theorem Kept.mem_advanced (h : Kept queue m) {t t' : Uplink} (ht : t ∈ m.tasks) {f : Uplink → Uplink}
    (ht' : t' ∈ (m.updateTask t.number f).tasks) : (t' ∈ m.tasks ∧ t'.number ≠ t.number) ∨ t' = f t := by
  obtain ⟨t₀, ht₀, he⟩ := mem_updateTask.mp ht'
  by_cases hn : t₀.number = t.number
  · rw [if_pos hn, h.same_task ht₀ ht hn] at he
    exact .inr he.symm
  · rw [if_neg hn] at he
    exact .inl ⟨he ▸ ht₀, he ▸ hn⟩

/-- A task's next move towards its end. -/
theorem Kept.advance (h : Kept queue m) {t : Uplink} (ht : t ∈ m.tasks) (hlive : t.pc ≠ .gone) (f : Uplink → Uplink)
    (hnum : ∀ x, (f x).number = x.number) (huu : ∀ x, (f x).uuid = x.uuid)
    (hreg : enrolled (f t).pc = true → enrolled t.pc = true ∧ ((f t).pump = true → t.pump = true))
    {arl : ByUuid} (harl : arl = m.arl ∨ (arl = m.arl.erase t.uuid ∧ enrolled (f t).pc = false))
    (hout : enrolled (f t).pc = false → ∀ u, arl.lookup u ≠ some t.number)
    {finished : List Uuid} (hfin : finished = m.finished ∨ (finished = m.finished ++ [t.uuid] ∧ (f t).pc = .gone)) :
    Kept queue { m.updateTask t.number f with finished := finished, arl := arl } := by
  have hmem : ∀ t' ∈ (m.updateTask t.number f).tasks, (t' ∈ m.tasks ∧ t'.number ≠ t.number) ∨ t' = f t :=
    fun _ => h.mem_advanced ht
  -- Another live uplink has another uuid.
  have hother : ∀ t' ∈ m.tasks, t'.number ≠ t.number → t'.uuid = t.uuid → t'.pc = .gone := by
    intro t' ht' hne hu
    by_contra hl
    exact hne (congrArg Uplink.number (h.live_unique ht' ht hl hlive hu))
  have hless : ∀ u n, arl.lookup u = some n → m.arl.lookup u = some n := by
    intro u n hl
    rcases harl with harl | ⟨harl, _⟩
    · rwa [harl] at hl
    · rw [harl] at hl
      exact (lookup_of_erase hl).2
  refine ⟨?_, ?_, ?_, ?_, ?_, fun u n hl => h.below u n (hless u n hl), ?_, fun u n hl => h.attempt u n (hless u n hl),
    h.past, ?_, h.seenAttempt, h.uuids, ?_⟩
  · show ((m.updateTask t.number f).tasks.map (·.number)).Nodup
    rw [map_updateTask m t.number hnum]
    exact h.numbers
  · intro t' ht' hl
    rcases hmem t' ht' with ⟨ht', _⟩ | rfl
    · exact h.handle t' ht' hl
    · rw [hnum, huu]
      exact h.handle t ht hlive
  · intro u n hl
    obtain ⟨t₀, ht₀, hn, hu⟩ := h.owner u n hl
    refine ⟨_, mem_updateTask.mpr ⟨t₀, ht₀, rfl⟩, ?_⟩
    split
    · rw [hnum, huu]
      exact ⟨hn, hu⟩
    · exact ⟨hn, hu⟩
  · intro u hu t' ht' huuid
    rcases hmem t' ht' with ⟨ht', hne⟩ | rfl
    · rcases hfin with hfin | ⟨hfin, _⟩
      · rw [hfin] at hu
        exact h.finished u hu t' ht' huuid
      · rw [hfin] at hu
        rcases List.mem_append.mp hu with hu | hu
        · exact h.finished u hu t' ht' huuid
        · rw [List.mem_singleton.mp hu] at huuid
          exact hother t' ht' hne huuid
    · rcases hfin with hfin | ⟨_, hgone⟩
      · rw [hfin] at hu
        rw [huu] at huuid
        exact absurd (h.finished u hu t ht huuid) hlive
      · exact hgone
  · intro t' ht' hr hpump
    show arl.lookup t'.uuid = some t'.number
    rcases hmem t' ht' with ⟨ht₁, hne⟩ | rfl
    · have hu : t'.uuid ≠ t.uuid := by
        intro hu
        rw [hother t' ht₁ hne hu] at hr
        cases hr
      rcases harl with harl | ⟨harl, _⟩
      · rw [harl]
        exact h.registered t' ht₁ hr hpump
      · rw [harl, AList.lookup_erase_ne hu]
        exact h.registered t' ht₁ hr hpump
    · rcases harl with harl | ⟨_, hnot⟩
      · rw [harl, hnum, huu]
        exact h.registered t ht (hreg hr).1 ((hreg hr).2 hpump)
      · rw [hr] at hnot
        cases hnot
  · intro u n hl t' ht' hn
    rcases hmem t' ht' with ⟨ht', _⟩ | rfl
    · exact h.table u n (hless u n hl) t' ht' hn
    · rw [hnum] at hn
      subst hn
      rw [huu]
      refine ⟨(h.table u _ (hless u _ hl) t ht rfl).1, ?_⟩
      by_contra hr
      exact hout (by simpa using hr) u hl
  · rintro e he ⟨t', ht', hn⟩
    have hex : ∃ t ∈ m.tasks, t.number = e.2 := by
      rcases hmem t' ht' with ⟨ht', _⟩ | rfl
      · exact ⟨t', ht', hn⟩
      · exact ⟨t, ht, (hnum t).symm.trans hn⟩
    obtain ⟨hl, hq⟩ := h.seen e he hex
    refine ⟨fun t' ht' hu hpc => ?_, hq⟩
    rcases hmem t' ht' with ⟨ht', _⟩ | rfl
    · exact hl t' ht' hu hpc
    · rw [huu] at hu
      rw [hnum]
      exact hl t ht hu hlive
  · intro q hq
    obtain ⟨hnot, hgone⟩ := h.waiting q hq
    have hne : t.uuid ≠ q.uuid := fun hu => hlive (hgone t ht hu)
    refine ⟨?_, fun t' ht' hu => ?_⟩
    · show q.uuid ∉ finished
      rcases hfin with hfin | ⟨hfin, _⟩
      · rw [hfin]
        exact hnot
      · rw [hfin]
        simp [hnot, hne.symm]
    · rcases hmem t' ht' with ⟨ht', _⟩ | rfl
      · exact hgone t' ht' hu
      · exact absurd ((huu t).symm.trans hu) hne

/-- Only what the invariant does not look at changes, and more commands are counted. -/
theorem Kept.frame (h : Kept queue m) (htasks : m'.tasks = m.tasks)
    (hactive : m'.remote.activeUplinks = m.remote.activeUplinks) (harl : m'.arl = m.arl)
    (hfin : ∀ u ∈ m'.finished, u ∈ m.finished) (hsnap : m'.snapshot = m.snapshot) (hstarted : m.started ≤ m'.started) :
    Kept queue m' := by
  refine ⟨?_, ?_, ?_, ?_, ?_, ?_, ?_, ?_, ?_, ?_, ?_, h.uuids, ?_⟩
  all_goals simp only [htasks, hactive, harl, hsnap]
  · exact h.numbers
  · exact h.handle
  · exact h.owner
  · exact fun u hu => h.finished u (hfin u hu)
  · exact h.registered
  · exact fun u n hl => (h.below u n hl).trans_le hstarted
  · exact h.table
  · exact h.attempt
  · exact fun e he => (h.past e he).trans_le hstarted
  · exact h.seen
  · exact h.seenAttempt
  · exact fun p hp => ⟨fun hu => (h.waiting p hp).1 (hfin _ hu), (h.waiting p hp).2⟩

/-! ## Reconnection -/

/-- The channel of every live uplink that gets a stream has room. -/
def Roomy (restores : Nat → Bool) (m : Manager) : Prop :=
  ∀ t ∈ m.tasks, t.pc ≠ .gone → restores t.number = true → t.streams < upStreamSlots

/-- The uplink gets its stream, if it is one of these. -/
def give (restores : Nat → Bool) (uuids : List Uuid) (t : Uplink) : Uplink :=
  if t.uuid ∈ uuids ∧ t.pc ≠ .gone ∧ restores t.number = true then { t with streams := t.streams + 1 } else t

variable {restores : Nat → Bool} {uuid : Uuid}

/-- A handle whose task is gone belongs to no live uplink. -/
theorem Kept.dead_of_gone (h : Kept queue m) {n : Nat} (hl : m.remote.activeUplinks.lookup uuid = some n)
    (hgone : m.isGone n = true) : ∀ t ∈ m.tasks, t.uuid = uuid → t.pc = .gone := by
  intro t ht hu
  by_contra hlive
  have hn : t.number = n := by
    have := h.handle t ht hlive
    rw [hu, hl] at this
    exact (Option.some.inj this).symm
  simp only [isGone, List.any_eq_true, Bool.and_eq_true, beq_iff_eq] at hgone
  obtain ⟨t', ht', hn', hpc⟩ := hgone
  rw [h.same_task ht ht' (hn.trans hn'.symm)] at hlive
  exact hlive hpc

theorem give_of_dead (hdead : ∀ t ∈ m.tasks, t.uuid = uuid → t.pc = .gone) :
    m.tasks.map (give restores [uuid]) = m.tasks := by
  refine (List.map_congr_left fun t ht => ?_).trans (List.map_id _)
  refine if_neg fun hc => hc.2.1 (hdead t ht ?_)
  simpa using hc.1

theorem restoreOne_kept (h : Kept queue m) (uuid : Uuid)
    (hroom : ∀ t ∈ m.tasks, t.uuid = uuid → t.pc ≠ .gone → restores t.number = true → t.streams < upStreamSlots) :
    Kept queue (restoreOne restores m uuid) ∧ (restoreOne restores m uuid).tasks = m.tasks.map (give restores [uuid]) := by
  unfold restoreOne
  cases hl : m.remote.activeUplinks.lookup uuid with
  | none =>
    refine ⟨h, (give_of_dead fun t ht hu => ?_).symm⟩
    by_contra hlive
    have := h.handle t ht hlive
    rw [hu, hl] at this
    cases this
  | some n =>
    dsimp only
    -- The live uplink with this uuid, if there is one, is number `n`.
    have hnum : ∀ t ∈ m.tasks, t.uuid = uuid → t.pc ≠ .gone → t.number = n := by
      intro t ht hu hlive
      have := h.handle t ht hlive
      rw [hu, hl] at this
      exact (Option.some.inj this).symm
    by_cases hr : restores n = true
    · rw [if_pos hr]
      by_cases hgone : m.isGone n = true
      · rw [if_pos (.inl hgone)]
        have hdead := h.dead_of_gone hl hgone
        exact ⟨h.removeUplink hdead, (give_of_dead hdead).symm⟩
      · have hlive : ∀ t ∈ m.tasks, t.number = n → t.pc ≠ .gone := by
          intro t ht hn hpc
          refine hgone ?_
          simp only [isGone, List.any_eq_true, Bool.and_eq_true, beq_iff_eq]
          exact ⟨t, ht, hn, hpc⟩
        obtain ⟨t₀, ht₀, hn₀, hu₀⟩ := h.owner uuid n hl
        have hnotfull : ¬ m.channelFull n = true := by
          intro hfull
          simp only [channelFull, List.any_eq_true, Bool.and_eq_true, beq_iff_eq, decide_eq_true_eq] at hfull
          obtain ⟨t, ht, hn, hle⟩ := hfull
          rw [h.same_task ht ht₀ (hn.trans hn₀.symm)] at hle
          have := hroom t₀ ht₀ hu₀ (hlive t₀ ht₀ hn₀) (hn₀ ▸ hr)
          omega
        rw [if_neg (by simp [hgone, hnotfull])]
        refine ⟨h.move n _ (fun _ => rfl) (fun _ => rfl) (fun _ => rfl) (fun _ hp => hp), ?_⟩
        refine List.map_congr_left fun t ht => ?_
        by_cases hn : t.number = n
        · have hu : t.uuid = uuid := by rw [h.same_task ht ht₀ (hn.trans hn₀.symm), hu₀]
          rw [if_pos hn, give, if_pos ⟨by simp [hu], hlive t ht hn, hn ▸ hr⟩]
        · rw [if_neg hn, give, if_neg fun hc => hn (hnum t ht (by simpa using hc.1) hc.2.1)]
    · rw [if_neg hr]
      refine ⟨h, ((List.map_congr_left fun t ht => ?_).trans (List.map_id _)).symm⟩
      refine if_neg fun hc => hr ?_
      rw [← hnum t ht (by simpa using hc.1) hc.2.1]
      exact hc.2.2

theorem give_give {uuids : List Uuid} (hu : uuid ∉ uuids) (t : Uplink) :
    give restores uuids (give restores [uuid] t) = give restores (uuid :: uuids) t := by
  by_cases ht : t.uuid = uuid
  · have hout : ∀ t' : Uplink, t'.uuid = t.uuid → give restores uuids t' = t' := by
      intro t' ht'
      exact if_neg fun hc => hu (by rw [← ht, ← ht']; exact hc.1)
    have hsame : (give restores [uuid] t).uuid = t.uuid := by
      unfold give
      split <;> rfl
    rw [hout _ hsame]
    simp [give, ht]
  · have hskip : give restores [uuid] t = t := if_neg fun hc => ht (by simpa using hc.1)
    rw [hskip]
    simp [give, ht]

theorem restoreLoop_kept : ∀ (uuids : List Uuid) (m : Manager), uuids.Nodup → Kept queue m →
    (∀ t ∈ m.tasks, t.uuid ∈ uuids → t.pc ≠ .gone → restores t.number = true → t.streams < upStreamSlots) →
    Kept queue (uuids.foldl (restoreOne restores) m) ∧
      (uuids.foldl (restoreOne restores) m).tasks = m.tasks.map (give restores uuids)
  | [], m, _, h, _ => ⟨h, (List.map_congr_left fun t _ => if_neg fun hc => by cases hc.1).trans (List.map_id _) |>.symm⟩
  | uuid :: uuids, m, hnodup, h, hroom => by
    obtain ⟨hnot, hnodup⟩ := List.nodup_cons.mp hnodup
    obtain ⟨h₁, htasks⟩ := restoreOne_kept h uuid
      fun t ht hu => hroom t ht (by simp [hu])
    have hroom₁ : ∀ t ∈ (restoreOne restores m uuid).tasks, t.uuid ∈ uuids → t.pc ≠ .gone → restores t.number = true →
        t.streams < upStreamSlots := by
      intro t ht hu hlive hr
      rw [htasks] at ht
      obtain ⟨t₀, ht₀, rfl⟩ := List.mem_map.mp ht
      by_cases hsame : t₀.uuid = uuid
      · have : (give restores [uuid] t₀).uuid = uuid := by
          unfold give
          split <;> exact hsame
        exact absurd (this ▸ hu) hnot
      · have hskip : give restores [uuid] t₀ = t₀ := if_neg fun hc => hsame (by simpa using hc.1)
        rw [hskip] at hu hlive hr ⊢
        exact hroom t₀ ht₀ (List.mem_cons_of_mem _ hu) hlive hr
    obtain ⟨h₂, htasks₂⟩ := restoreLoop_kept uuids (restoreOne restores m uuid) hnodup h₁ hroom₁
    refine ⟨h₂, htasks₂.trans ?_⟩
    rw [htasks, List.map_map]
    exact List.map_congr_left fun t _ => give_give hnot t

theorem pruneLoop_kept (uuids : List Uuid) : ∀ m : Manager, Kept queue m →
    Kept queue (uuids.foldl pruneOne m) ∧ (uuids.foldl pruneOne m).tasks = m.tasks := by
  induction uuids with
  | nil => exact fun m h => ⟨h, rfl⟩
  | cons uuid uuids ih =>
    intro m h
    have h₁ : Kept queue (pruneOne m uuid) ∧ (pruneOne m uuid).tasks = m.tasks := by
      unfold pruneOne
      cases hl : m.remote.activeUplinks.lookup uuid with
      | none => exact ⟨h, rfl⟩
      | some n =>
        dsimp only
        split
        · exact ⟨h.removeUplink (h.dead_of_gone hl ‹_›), rfl⟩
        · exact ⟨h, rfl⟩
    obtain ⟨h₂, htasks⟩ := ih _ h₁.1
    exact ⟨h₂, htasks.trans h₁.2⟩

/-- Every live uplink keeps its handle, and gets its stream if that could be opened. -/
theorem restoreActive_kept (h : Kept queue m) (hroom : Roomy restores m) :
    Kept queue (m.restoreActive restores) ∧
      ∀ t ∈ m.tasks, t.pc ≠ .gone → restores t.number = true →
        { t with streams := t.streams + 1 } ∈ (m.restoreActive restores).tasks := by
  obtain ⟨h₁, htasks₁⟩ := restoreLoop_kept m.remote.activeUplinks.keys m m.remote.activeUplinks.keys_nodup h
    fun t ht _ => hroom t ht
  obtain ⟨h₂, htasks₂⟩ := pruneLoop_kept
    (m.remote.activeUplinks.keys.foldl (restoreOne restores) m).remote.activeUplinks.keys _ h₁
  refine ⟨h₂, fun t ht hlive hr => ?_⟩
  have hkey : t.uuid ∈ m.remote.activeUplinks.keys := by
    rw [← AList.mem_keys, ← AList.lookup_isSome, h.handle t ht hlive]
    rfl
  have : (m.restoreActive restores).tasks = m.tasks.map (give restores m.remote.activeUplinks.keys) := htasks₂.trans htasks₁
  rw [this]
  exact List.mem_map.mpr ⟨t, ht, if_pos ⟨hkey, hlive, hr⟩⟩

/-! ## Commands -/

/-- Nothing uses the uuid: no queued stream, no live uplink, no `StreamFinished` on its way
    and no snapshot of the timer. -/
def FreshUuid (m : Manager) (uuid : Uuid) : Prop :=
  (∀ q ∈ m.remote.pending, q.uuid ≠ uuid) ∧ (∀ t ∈ m.tasks, t.uuid = uuid → t.pc = .gone) ∧ uuid ∉ m.finished ∧
    ∀ e ∈ m.snapshot, e.1 ≠ uuid

instance (m : Manager) (uuid : Uuid) : Decidable (FreshUuid m uuid) := inferInstanceAs (Decidable (_ ∧ _ ∧ _ ∧ _))

instance (restores : Nat → Bool) (m : Manager) : Decidable (Roomy restores m) :=
  inferInstanceAs (Decidable (∀ t ∈ m.tasks, _))

/-- `StreamFinished` comes from the uplinks' tasks; a uuid is fresh when it is used; and
    the streams of a reconnection find room. -/
def keepsUplinks (m : Manager) : Act → Prop
  | .streamStart uuid _ _ _ => FreshUuid m uuid
  | .streamFinished uuid _ => uuid ∈ m.finished
  | .reconnect restores _ => Roomy restores m
  | _ => True

instance (m : Manager) (a : Act) : Decidable (keepsUplinks m a) := by
  induction a using Act.casesOn <;> dsimp only [keepsUplinks] <;> infer_instance

/-- A stream answered `running` has had its uplink. -/
def Answered (m : Manager) : Prop := ∀ p, ⟨p, .running⟩ ∈ m.replies → m.Promoted p

/-- The invariants of the queue and of the uplinks, for a queue that is being drained. -/
structure Held (queue : List PendingStream) (m : Manager) : Prop where
  queueOk : QueueOk queue m
  kept : Kept queue m
  answered : Answered m

theorem Held.promote {l ps : List PendingStream} (h : Held (l ++ p :: ps) m) : Held (l ++ ps) (m.opened p) :=
  ⟨h.queueOk.promote,
    (h.kept.sublist ((List.Sublist.refl l).append (List.sublist_cons_self p ps))).opened (h.kept.unused h.queueOk),
    fun q hq => promoted_opened.mpr (.inl (h.answered q hq))⟩

theorem Held.failed {m₁ : Manager} (h : Held queue m) (hp : p ∈ queue) (hf : Failed json opens m p m₁) : Held queue m₁ := by
  refine ⟨h.queueOk.failed hf, h.kept.failed h.queueOk hp hf, ?_⟩
  obtain ⟨_, htasks, hreplies, _⟩ := hf.remote
  intro q hq
  rw [hreplies] at hq
  obtain ⟨t, ht, hn⟩ := h.answered q hq
  exact ⟨t, htasks ▸ ht, hn⟩

theorem Unused.register (h : Unused queue m p) : Unused queue (m.register p) p := by
  refine ⟨h.below, h.noTask, h.noEntry, h.finished, h.live, fun u hu => ?_, h.seen, h.unseen⟩
  by_contra hne
  have hu : (m.arl.insert p.uuid p.number).lookup u = some p.number := hu
  rw [AList.lookup_insert_ne hne] at hu
  exact hne (h.table u hu)

theorem Kept.start {m₀ : Manager} (hc : StartCase json opens m₀ p m') (h : Kept m₀.remote.pending m₀)
    (hp : Unused m₀.remote.pending m₀ p) (hseen : ∀ e ∈ m₀.snapshot, e.1 ≠ p.uuid ∧ e.2 ≠ p.number) :
    Kept m'.remote.pending m' := by
  -- An attempt that fails late leaves the rate limiter's entry.
  have hattempt : ∀ {m₁ : Manager}, Unopened json opens m₀ p m₁ →
      Kept m₀.remote.pending m₁ ∧ Unused m₀.remote.pending m₁ p ∧ m₁.remote = m₀.remote ∧ m₁.snapshot = m₀.snapshot := by
    intro m₁ hnot
    rcases hnot with ⟨rfl, _⟩ | ⟨_, rfl⟩ | ⟨_, rfl⟩
    · exact ⟨h, hp, rfl, rfl⟩
    · exact ⟨h, hp, rfl, rfl⟩
    · exact ⟨h.register hp, hp.register, rfl, rfl⟩
  cases hc with
  | running => exact (h.opened hp).frame rfl rfl rfl (fun _ hu => hu) rfl (Nat.le_refl _)
  | @queued m₁ statuses hfail _ =>
    obtain ⟨h₁, hp₁, _, hsnap⟩ := hattempt hfail
    rw [← hsnap] at hseen
    have hq := h₁.enqueue hp₁ (fun e he => (hseen e he).1) (fun e he => (hseen e he).2)
      (insert_perm (fun e => decide (e.priority < p.priority)) p m₀.remote.pending)
    exact hq.frame rfl rfl rfl (fun _ hu => hu) rfl (Nat.le_refl _)
  | @refused m₁ statuses hfail _ =>
    obtain ⟨h₁, _, hremote, _⟩ := hattempt hfail
    rw [← hremote] at h₁
    exact h₁.frame rfl rfl rfl (fun _ hu => hu) rfl (Nat.le_refl _)

theorem StartCase.answered {m₀ : Manager} (hc : StartCase json opens m₀ p m') (h : Answered m₀) : Answered m' := by
  cases hc with
  | running =>
    intro q hq
    rcases List.mem_append.mp hq with hq | hq
    · exact promoted_opened.mpr (.inl (h q hq))
    · have : q = p := by
        have := List.mem_singleton.mp hq
        injection this
      exact promoted_opened.mpr (.inr (by rw [this]))
  | queued hfail | refused hfail =>
    intro q hq
    rcases List.mem_append.mp hq with hq | hq
    · obtain ⟨t, ht, hn⟩ := h q hq
      exact ⟨t, by rw [← (Unopened.remote hfail).2.1] at ht; exact ht, hn⟩
    · cases List.mem_singleton.mp hq

theorem Held.start {uuid : Uuid} {info : DomainStreamInfo} {priority : Priority} (h : Held m.remote.pending m)
    (hfresh : FreshUuid m uuid)
    (hc : StartCase json opens { m with started := m.started + 1, opens := opens } (m.newStream uuid info priority) m') :
    Held m'.remote.pending m' := by
  obtain ⟨hq, hlive, hfin, hsnap⟩ := hfresh
  have hk : Kept m.remote.pending { m with started := m.started + 1, opens := opens } :=
    h.kept.frame rfl rfl rfl (fun _ hu => hu) rfl (Nat.le_succ _)
  have hp : Unused m.remote.pending { m with started := m.started + 1, opens := opens } (m.newStream uuid info priority) := by
    refine ⟨Nat.lt_succ_self _, fun t ht he => ?_, fun q hqm => ⟨fun he => ?_, hq q hqm⟩, hfin, hlive, fun u hu => ?_,
      fun e he hn => ?_, fun e he _ => hsnap e he⟩
    · exact absurd (h.queueOk.opened t ht) (he ▸ Nat.lt_irrefl _)
    · exact absurd (h.queueOk.fresh q hqm) (he ▸ Nat.lt_irrefl _)
    · exact absurd (h.kept.below u _ hu) (Nat.lt_irrefl _)
    · exact absurd (h.kept.past e he) (hn ▸ Nat.lt_irrefl _)
  refine ⟨h.queueOk.start hc rfl rfl rfl rfl rfl, Kept.start hc hk hp fun e he => ⟨hsnap e he, fun hn => ?_⟩,
    hc.answered h.answered⟩
  exact absurd (h.kept.past e he) (hn ▸ Nat.lt_irrefl _)

theorem Held.promotePending (json : SerdeJson StreamHeader) (opens : PendingStream → OpenResult)
    (h : Held m.remote.pending m) :
    Held (promotePending json opens m).remote.pending (promotePending json opens m) := by
  have hc := promotePending_cases json opens m
  generalize Manager.promotePending json opens m = m' at hc ⊢
  cases hc with
  | idle => exact h
  | @promoted p rest _ _ hp _ =>
    rw [hp] at h
    have h' : Held rest (m.opened p) := Held.promote (l := []) h
    exact ⟨h'.queueOk.same rfl rfl rfl fun _ _ => Iff.rfl,
      h'.kept.frame rfl rfl rfl (fun _ hu => hu) rfl (Nat.le_refl _), h'.answered⟩
  | failed hp hf =>
    rw [hf.remote.1]
    exact h.failed (by rw [hp]; exact List.mem_cons_self) hf

theorem Held.drain (h : Held m.remote.pending m) (hlive : m.remote.session = true) :
    Held (drainPending json opens m).remote.pending (drainPending json opens m) ∧
      ∀ t ∈ m.tasks, t ∈ (drainPending json opens m).tasks := by
  obtain ⟨kept, m', hdrains, heq⟩ := drainPending_drains json opens m hlive
  rw [heq]
  have h' := hdrains.invariant (I := Held) (fun _ _ hi => hi.promote) (fun hp hf hi => hi.failed hp hf) [] h
  have ht := hdrains.invariant (I := fun _ m' => ∀ t ∈ m.tasks, t ∈ m'.tasks)
    (fun _ _ hi t ht => List.mem_append_left _ (hi t ht)) (fun _ hf hi t ht => by rw [hf.remote.2.1]; exact hi t ht) []
    fun t ht => ht
  exact ⟨⟨h'.queueOk.same rfl rfl rfl fun _ _ => Iff.rfl,
    h'.kept.frame rfl rfl rfl (fun _ hu => hu) rfl (Nat.le_refl _), h'.answered⟩, ht⟩

/-- Tasks change, and the queue and the replies do not. -/
theorem Held.tasks (h : Held queue m) (hk : Kept queue m') (hmax : m'.remote.maxPending = m.remote.maxPending)
    (hstarted : m'.started = m.started) (htasks : m'.tasks.map (·.number) = m.tasks.map (·.number))
    (hreplies : m'.replies = m.replies) : Held queue m' := by
  refine ⟨h.queueOk.same hmax hstarted htasks fun _ _ => by rw [hreplies], hk, fun q hq => ?_⟩
  rw [hreplies] at hq
  have hn : q.number ∈ m.tasks.map (·.number) := List.mem_map.mpr (h.answered q hq)
  rw [← htasks] at hn
  exact List.mem_map.mp hn

/-! ## The timer -/

theorem Kept.takeSnapshot (h : Kept queue m) : Kept queue { m with snapshot := m.arl.entries.map fun e => (e.1, e.2) } := by
  have hmem : ∀ e ∈ m.arl.entries.map (fun e => ((e.1, e.2) : Uuid × Nat)), m.arl.lookup e.1 = some e.2 := by
    intro e he
    obtain ⟨e', he', rfl⟩ := List.mem_map.mp he
    exact AList.mem_lookup_iff.mpr he'
  refine ⟨h.numbers, h.handle, h.owner, h.finished, h.registered, h.below, h.table, h.attempt,
    fun e he => h.below e.1 e.2 (hmem e he), ?_, fun e he p hp hn => h.attempt e.1 e.2 (hmem e he) p hp hn, h.uuids, h.waiting⟩
  rintro e he ⟨t, ht, hn⟩
  -- The entry is that of a live uplink.
  obtain ⟨hu, hreg⟩ := h.table e.1 e.2 (hmem e he) t ht hn
  have hlive : t.pc ≠ .gone := by
    intro hpc
    rw [hpc] at hreg
    cases hreg
  constructor
  · intro t' ht' hu' hpc'
    rw [h.live_unique ht' ht hpc' hlive (hu'.trans hu.symm), hn]
  · intro p hp hup
    exact hlive ((h.waiting p hp).2 t ht (hu.trans hup.symm))

theorem lookup_foldl_erase (uuids : List Uuid) (arl : ByUuid) (u : Uuid) :
    (uuids.foldl (fun arl uuid => arl.erase uuid) arl).lookup u = if u ∈ uuids then none else arl.lookup u := by
  induction uuids generalizing arl with
  | nil => simp
  | cons uuid uuids ih =>
    rw [List.foldl_cons, ih]
    by_cases hu : u = uuid
    · subst hu
      simp
    · simp [hu, AList.lookup_erase_ne hu]

theorem Kept.timerRemove (h : Kept queue m) {uuids : List Uuid} (hclosed : uuids.all m.foundClosed = true) :
    Kept queue { m with arl := uuids.foldl (fun arl uuid => arl.erase uuid) m.arl, snapshot := [] } := by
  have hlook := lookup_foldl_erase uuids m.arl
  have hless : ∀ u n, (uuids.foldl (fun arl uuid => arl.erase uuid) m.arl).lookup u = some n →
      m.arl.lookup u = some n := by
    intro u n hl
    rw [hlook] at hl
    split at hl
    · cases hl
    · exact hl
  refine ⟨h.numbers, h.handle, h.owner, h.finished, ?_, fun u n hl => h.below u n (hless u n hl),
    fun u n hl => h.table u n (hless u n hl), fun u n hl => h.attempt u n (hless u n hl), nofun, nofun, nofun, h.uuids,
    h.waiting⟩
  intro t ht hreg hpump
  have hnot : t.uuid ∉ uuids := by
    intro hu
    have hc := List.all_eq_true.mp hclosed t.uuid hu
    simp only [foundClosed, List.any_eq_true, Bool.and_eq_true, beq_iff_eq, Bool.not_eq_true'] at hc
    obtain ⟨e, he, hue, t', ht', hn', hgone⟩ := hc
    have hlive : t.pc ≠ .gone := by
      intro hpc
      rw [hpc] at hreg
      cases hreg
    have hn := (h.seen e he ⟨t', ht', hn'⟩).1 t ht hue.symm hlive
    rw [h.same_task ht' ht (hn'.trans hn.symm), hpump] at hgone
    cases hgone
  show (uuids.foldl (fun arl uuid => arl.erase uuid) m.arl).lookup t.uuid = some t.number
  rw [hlook, if_neg hnot]
  exact h.registered t ht hreg hpump

/-! ## Every run -/

theorem Held.restore (h : Held m.remote.pending m) (hroom : Roomy restores m) :
    Held (m.restoreActive restores).remote.pending (m.restoreActive restores) := by
  have hsame : (m.restoreActive restores).remote.pending = m.remote.pending ∧
      (m.restoreActive restores).remote.maxPending = m.remote.maxPending ∧
      (m.restoreActive restores).started = m.started ∧
      (m.restoreActive restores).tasks.map (·.number) = m.tasks.map (·.number) ∧
      (m.restoreActive restores).replies = m.replies := by
    refine restoreActive_keeps (P := fun m' => m'.remote.pending = m.remote.pending ∧
      m'.remote.maxPending = m.remote.maxPending ∧ m'.started = m.started ∧
      m'.tasks.map (·.number) = m.tasks.map (·.number) ∧ m'.replies = m.replies) (fun hm _ _ => hm) ?_ ⟨rfl, rfl, rfl, rfl, rfl⟩
    intro m' n hm
    exact ⟨hm.1, hm.2.1, hm.2.2.1, (map_updateTask (f := fun t => { t with streams := t.streams + 1 }) m' n fun _ => rfl).trans hm.2.2.2.1, hm.2.2.2.2⟩
  rw [hsame.1]
  exact h.tasks (restoreActive_kept h.kept hroom).1 hsame.2.1 hsame.2.2.1 hsame.2.2.2.1 hsame.2.2.2.2

theorem Held.frame (h : Held queue m) (hk : Kept queue m') (hmax : m'.remote.maxPending = m.remote.maxPending)
    (hstarted : m'.started = m.started) (htasks : m'.tasks = m.tasks) (hreplies : m'.replies = m.replies) : Held queue m' :=
  h.tasks hk hmax hstarted (by rw [htasks]) hreplies

theorem step_held {a : Act} (h : Held m.remote.pending m) (hok : keepsUplinks m a) (hs : step json m a = some m') :
    Held m'.remote.pending m' := by
  have hk := h.kept
  cases a with
  | streamStart uuid info priority opens =>
    cases hs
    exact h.start hok (onStreamStart_cases json opens _ _)
  | streamFinished uuid opens =>
    cases hs
    have hdead := hk.finished uuid hok
    have h₀ : Held m.remote.pending ({ m with finished := m.finished.erase uuid, opens := opens }.removeUplink uuid) :=
      h.frame ((hk.removeUplink hdead).frame rfl rfl rfl (fun _ hu => List.mem_of_mem_erase hu) rfl (Nat.le_refl _))
        rfl rfl rfl rfl
    have h₁ := Held.promotePending json opens (m := { m with finished := m.finished.erase uuid, opens := opens }.removeUplink uuid) h₀
    exact h₁.frame (h₁.kept.frame rfl rfl rfl (fun _ hu => hu) rfl (Nat.le_refl _)) rfl rfl rfl rfl
  | setMaxConcurrent limit opens =>
    cases hs
    have h₀ : Held m.remote.pending { m with remote := { m.remote with maxConcurrent := limit }, opens := opens } :=
      h.frame (hk.frame rfl rfl rfl (fun _ hu => hu) rfl (Nat.le_refl _)) rfl rfl rfl rfl
    have h₁ := Held.promotePending json opens
      (m := { m with remote := { m.remote with maxConcurrent := limit }, opens := opens }) h₀
    exact h₁.frame (h₁.kept.frame rfl rfl rfl (fun _ hu => hu) rfl (Nat.le_refl _)) rfl rfl rfl rfl
  | linkFailed =>
    cases hs
    exact h.frame (hk.frame rfl rfl rfl (fun _ hu => hu) rfl (Nat.le_refl _)) rfl rfl rfl rfl
  | reconnect restores opens =>
    simp only [step] at hs
    split at hs
    · cases hs
    · cases hs
      have h₀ : Held m.remote.pending { m with remote := { m.remote with session := true }, opens := opens } :=
        h.frame (hk.frame rfl rfl rfl (fun _ hu => hu) rfl (Nat.le_refl _)) rfl rfl rfl rfl
      have h₁ := Held.restore (m := { m with remote := { m.remote with session := true }, opens := opens }) h₀ hok
      exact (h₁.drain (session_restoreActive _ restores)).1
  | pumpExits n =>
    cases hs
    exact h.tasks (hk.move n _ (fun _ => rfl) (fun _ => rfl) (fun _ => rfl) (by simp)) rfl rfl
      (map_updateTask m n fun _ => rfl) rfl
  | takeStream n =>
    cases hs
    exact h.tasks (hk.move n _ (fun _ => rfl) (fun _ => rfl) (fun _ => rfl) fun _ hp => hp) rfl rfl
      (map_updateTask m n fun _ => rfl) rfl
  | ends n =>
    obtain ⟨t, ht, rfl, hpc, rfl⟩ := taskStep_cases hs
    have h₁ := hk.advance ht (by rw [hpc]; simp) (fun t => { t with pc := .deregister }) (fun _ => rfl) (fun _ => rfl)
      (fun _ => ⟨by rw [hpc]; rfl, fun hp => hp⟩) (.inl rfl) (fun hp => by cases hp) (.inl rfl)
    exact h.tasks h₁ rfl rfl (map_updateTask m _ fun _ => rfl) rfl
  | deregister n =>
    obtain ⟨t, ht, rfl, hpc, rfl⟩ := taskStep_cases hs
    refine h.tasks (hk.advance ht (by rw [hpc]; simp) (fun t => { t with pc := .finish }) (fun _ => rfl) (fun _ => rfl)
      (fun hp => by cases hp) (.inr ⟨rfl, rfl⟩) ?_ (.inl rfl)) rfl rfl (map_updateTask m _ fun _ => rfl) rfl
    -- The entry that goes is the stream's own, and it has no other.
    intro _ u hl
    obtain ⟨hu, hl⟩ := lookup_of_erase hl
    exact hu (hk.table u _ hl t ht rfl).1.symm
  | finish n =>
    obtain ⟨t, ht, rfl, hpc, rfl⟩ := taskStep_cases hs
    refine h.tasks (hk.advance ht (by rw [hpc]; simp) (fun t => { t with pc := .gone, pump := false }) (fun _ => rfl)
      (fun _ => rfl) (fun hp => by cases hp) (.inl rfl) ?_ (.inr ⟨rfl, rfl⟩)) rfl rfl (map_updateTask m _ fun _ => rfl) rfl
    intro _ u hl
    have := (hk.table u _ hl t ht rfl).2
    rw [hpc] at this
    cases this
  | timerSnapshot =>
    cases hs
    exact h.frame hk.takeSnapshot rfl rfl rfl rfl
  | timerRemove uuids =>
    simp only [step] at hs
    split at hs
    · rename_i hclosed
      cases hs
      exact h.frame (hk.timerRemove hclosed) rfl rfl rfl rfl
    · cases hs

theorem init_held (maxConcurrent maxPending : Nat) :
    Held (init maxConcurrent maxPending).remote.pending (init maxConcurrent maxPending) :=
  ⟨init_queueOk maxConcurrent maxPending,
    ⟨List.nodup_nil, nofun, nofun, nofun, nofun, nofun, nofun, nofun, nofun, nofun, nofun, .nil, nofun⟩, nofun⟩

/-! ## Entries -/

/-- How many entries of the queue and of `active_uplinks` stand for stream `n`. -/
def entriesOf (m : Manager) (n : Nat) : Nat :=
  (m.remote.pending.map (·.number)).count n + (m.remote.activeUplinks.entries.map (·.2)).count n

def live (m : Manager) : List Uplink := m.tasks.filter (·.pc ≠ .gone)

/-- No two handles are of the same uplink. -/
theorem Kept.handles_nodup (h : Kept queue m) : (m.remote.activeUplinks.entries.map (·.2)).Nodup := by
  refine List.Nodup.map_on ?_ m.remote.activeUplinks.nodupKeys.nodup
  intro e he e' he' hn
  obtain ⟨t, ht, htn, htu⟩ := h.owner e.1 e.2 (AList.mem_lookup_iff.mpr he)
  obtain ⟨t', ht', htn', htu'⟩ := h.owner e'.1 e'.2 (AList.mem_lookup_iff.mpr he')
  have hsame := h.same_task ht ht' (htn.trans (hn.trans htn'.symm))
  have hu : e.1 = e'.1 := by rw [← htu, ← htu', hsame]
  exact Sigma.ext hu (heq_of_eq hn)

theorem Held.entry_of_queued (h : Held m.remote.pending m) (hp : p ∈ m.remote.pending) : m.entriesOf p.number = 1 := by
  have hpending : (m.remote.pending.map (·.number)).count p.number = 1 :=
    List.count_eq_one_of_mem (List.pairwise_map.mpr h.queueOk.distinct) (List.mem_map.mpr ⟨p, hp, rfl⟩)
  have hactive : (m.remote.activeUplinks.entries.map (·.2)).count p.number = 0 := by
    refine List.count_eq_zero.mpr fun hmem => ?_
    obtain ⟨e, he, hn⟩ := List.mem_map.mp hmem
    obtain ⟨t, ht, htn, _⟩ := h.kept.owner e.1 e.2 (AList.mem_lookup_iff.mpr he)
    exact h.queueOk.waiting p hp ⟨t, ht, htn.trans hn⟩
  rw [entriesOf, hpending, hactive]

theorem Held.entry_of_live (h : Held m.remote.pending m) {t : Uplink} (ht : t ∈ m.tasks) (hlive : t.pc ≠ .gone) :
    m.entriesOf t.number = 1 := by
  have hpending : (m.remote.pending.map (·.number)).count t.number = 0 := by
    refine List.count_eq_zero.mpr fun hmem => ?_
    obtain ⟨q, hq, hn⟩ := List.mem_map.mp hmem
    exact h.queueOk.waiting q hq ⟨t, ht, hn.symm⟩
  have hactive : (m.remote.activeUplinks.entries.map (·.2)).count t.number = 1 := by
    refine List.count_eq_one_of_mem h.kept.handles_nodup (List.mem_map.mpr ⟨⟨t.uuid, t.number⟩, ?_, rfl⟩)
    exact AList.mem_lookup_iff.mp (h.kept.handle t ht hlive)
  rw [entriesOf, hpending, hactive]

/-- A stream that has had its uplink has its one entry until that uplink ends. -/
theorem Held.entry_of_promoted (h : Held m.remote.pending m) (hp : m.Promoted p) :
    (∃ t ∈ m.tasks, t.number = p.number ∧ t.pc = .gone) ∨ m.entriesOf p.number = 1 := by
  obtain ⟨t, ht, hn⟩ := hp
  by_cases hpc : t.pc = .gone
  · exact .inl ⟨t, ht, hn, hpc⟩
  · exact .inr (hn ▸ h.entry_of_live ht hpc)

/-- Live uplinks have distinct handles, so there are no more of them than handles. -/
theorem Kept.live_le (h : Kept queue m) : m.live.length ≤ m.remote.activeUplinks.keys.length := by
  have hmem : ∀ t ∈ m.live, t ∈ m.tasks ∧ t.pc ≠ .gone := fun t ht => by simpa [live] using ht
  have hnodup : (m.live.map (·.uuid)).Nodup := by
    refine List.Nodup.map_on ?_ ((List.Nodup.of_map _ h.numbers).filter _)
    intro t ht t' ht' hu
    exact h.live_unique (hmem t ht).1 (hmem t' ht').1 (hmem t ht).2 (hmem t' ht').2 hu
  have hsub : m.live.map (·.uuid) ⊆ m.remote.activeUplinks.keys := by
    intro u hu
    obtain ⟨t, ht, rfl⟩ := List.mem_map.mp hu
    rw [← AList.mem_keys, ← AList.lookup_isSome, h.handle t (hmem t ht).1 (hmem t ht).2]
    rfl
  have hlength := (List.subperm_of_subset hnodup hsub).length_le
  rwa [List.length_map] at hlength

/-- Every accepted stream has exactly one entry until its own uplink ends. A live uplink
    has its handle and, while it can be given tickets, its place in the rate limiter's
    table; it gets a stream at every reconnection that opens one for it; and live uplinks
    are within a limit that is not lowered. -/
theorem no_stream_lost_or_doubled {maxConcurrent maxPending : Nat}
    (h : Reach (step json) keepsUplinks (init maxConcurrent maxPending) m) :
    (∀ r ∈ m.replies, r.status ≠ .queueFull →
      (∃ t ∈ m.tasks, t.number = r.stream.number ∧ t.pc = .gone) ∨ m.entriesOf r.stream.number = 1) ∧
    (∀ t ∈ m.tasks, t.pc ≠ .gone → m.remote.activeUplinks.lookup t.uuid = some t.number) ∧
    (∀ t ∈ m.tasks, enrolled t.pc = true → t.pump = true → m.arl.lookup t.uuid = some t.number) ∧
    (∀ restores opens m', keepsUplinks m (.reconnect restores opens) →
      step json m (.reconnect restores opens) = some m' →
      ∀ t ∈ m.tasks, t.pc ≠ .gone → restores t.number = true → { t with streams := t.streams + 1 } ∈ m'.tasks) ∧
    ∀ max, Reach (step json) notLowered (init maxConcurrent maxPending) m → m.remote.maxConcurrent = some max →
      m.live.length ≤ max := by
  have hheld : Held m.remote.pending m :=
    h.invariant (P := fun m => Held m.remote.pending m) (init_held maxConcurrent maxPending)
      fun hi hok hs => step_held hi hok hs
  refine ⟨?_, hheld.kept.handle, hheld.kept.registered, ?_, ?_⟩
  · rintro ⟨p, status⟩ hr hstatus
    cases status with
    | running => exact hheld.entry_of_promoted (hheld.answered p hr)
    | pending pos =>
      rcases hheld.queueOk.kept p pos hr with hp | hp
      · exact .inr (hheld.entry_of_queued hp)
      · exact hheld.entry_of_promoted hp
    | queueFull => exact absurd rfl hstatus
  · intro restores opens m' hroom hs t ht hlive hr
    simp only [step] at hs
    split at hs
    · cases hs
    · cases hs
      let m₀ : Manager := { m with remote := { m.remote with session := true }, opens := opens }
      have hk₀ : Kept m.remote.pending m₀ := hheld.kept.frame rfl rfl rfl (fun _ hu => hu) rfl (Nat.le_refl _)
      have h₀ : Held m₀.remote.pending m₀ := hheld.frame hk₀ rfl rfl rfl rfl
      have hgiven := (restoreActive_kept hk₀ hroom).2 t ht hlive hr
      exact ((h₀.restore hroom).drain (session_restoreActive m₀ restores)).2 _ hgiven
  · intro max hmono hmax
    have h0 : Within (init maxConcurrent maxPending).remote := fun max _ => Nat.zero_le max
    have hwithin : Within m.remote :=
      hmono.invariant (P := fun m => Within m.remote) h0 fun hi hok hs => step_within hi hok hs
    exact hheld.kept.live_le.trans (hwithin max hmax)

/-- Two streams for one slot and an outage: the second gets the slot when the first has
    ended, and each has its one entry throughout. -/
theorem one_entry_across_an_outage :
    ∃ m, Reach (step plainJson) keepsUplinks (init 1 5) m ∧ m.tasks.map (·.pc) = [.gone, .running] ∧ m.live.length ≤ 1 ∧
      ∀ t ∈ m.tasks, t.pc ≠ .gone → m.remote.activeUplinks.lookup t.uuid = some t.number := by
  obtain ⟨m, hr, hm⟩ := Reach.exists_run (step plainJson) (fun m a => keepsUplinks m a ∧ notLowered m a) (init 1 5)
    [.streamStart ⟨1⟩ plainInfo ⟨0⟩ allOpen, .streamStart ⟨2⟩ plainInfo ⟨0⟩ allOpen, .linkFailed,
      .reconnect (fun _ => true) allOpen, .takeStream 0, .ends 0, .deregister 0, .finish 0, .streamFinished ⟨1⟩ allOpen]
    (fun m => m.tasks.map (·.pc) = [.gone, .running] ∧ m.remote.maxConcurrent = some 1) (by decide +kernel)
  obtain ⟨hpcs, hmax⟩ := of_decide_eq_true hm
  obtain ⟨_, hhandle, _, _, hlive⟩ := no_stream_lost_or_doubled (hr.mono fun _ _ hok => hok.1)
  exact ⟨m, hr.mono fun _ _ hok => hok.1, hpcs, hlive 1 (hr.mono fun _ _ hok => hok.2) hmax, hhandle⟩

/-- Two streams with one uuid and two slots: both run, and the first has no entry. A
    reconnection gives it no stream, the end of the second leaves none of them in
    `active_uplinks`, and a third and a fourth are started beside the first. -/
theorem a_repeated_uuid_loses_a_handle :
    ∃ m m', Reach (step plainJson) anyStep (init 2 5) m ∧
      (∃ r ∈ m.replies, r.status = .running ∧ m.entriesOf r.stream.number = 0 ∧
        ∃ t ∈ m.tasks, t.number = r.stream.number ∧ t.pc = .running ∧ t.streams = 0) ∧
      Reach (step plainJson) anyStep (init 2 5) m' ∧ m'.remote.maxConcurrent = some 2 ∧ m'.live.length = 3 := by
  obtain ⟨m, hr, hm⟩ := Reach.exists_run (step plainJson) anyStep (init 2 5)
    [.streamStart ⟨1⟩ plainInfo ⟨0⟩ allOpen, .streamStart ⟨1⟩ plainInfo ⟨0⟩ allOpen, .linkFailed,
      .reconnect (fun _ => true) allOpen]
    (fun m => ∃ r ∈ m.replies, r.status = .running ∧ m.entriesOf r.stream.number = 0 ∧
      ∃ t ∈ m.tasks, t.number = r.stream.number ∧ t.pc = .running ∧ t.streams = 0) (by decide +kernel)
  obtain ⟨m', hr', hm'⟩ := Reach.exists_run (step plainJson) anyStep (init 2 5)
    [.streamStart ⟨1⟩ plainInfo ⟨0⟩ allOpen, .streamStart ⟨1⟩ plainInfo ⟨0⟩ allOpen, .ends 1, .deregister 1, .finish 1,
      .streamFinished ⟨1⟩ allOpen, .streamStart ⟨2⟩ plainInfo ⟨0⟩ allOpen, .streamStart ⟨3⟩ plainInfo ⟨0⟩ allOpen]
    (fun m => m.remote.maxConcurrent = some 2 ∧ m.live.length = 3) (by decide +kernel)
  obtain ⟨hmax, hlive⟩ := of_decide_eq_true hm'
  exact ⟨m, m', hr, of_decide_eq_true hm, hr', hmax, hlive⟩

end Quelay.Agent.SessionManager.Manager
