/-
  Quelay.Agent.SessionManager.Snapshots — whether the last `QueueStatus` callback says what
  the queue is.

  A command sends its status by hand. `on_stream_start` sends it before the handle of a
  stream that it opened at once is in `active_uplinks`, so the count is one short
  (`running_stream_not_counted`); a reconnect that drops handles or opens pending streams
  sends none. Everywhere else the status is sent last, and is right as long as the count
  fits the `i32`. A run is reported truthfully exactly when none of its steps does one of
  these (`snapshots_truthful_iff`).
-/

import Quelay.Agent.SessionManager.Queue

namespace Quelay.Agent.SessionManager.Manager

open Quelay.Lib Quelay.Domain Framing

/-- The status gives the number of active uplinks and the queue in its order. -/
structure Says (q : QueueStatus) (r : RemoteState) : Prop where
  active : q.activeCount.toInt = r.activeUplinks.keys.length
  pending : q.pending = r.pending.map (·.uuid)

/-- The last status that was sent says what is there. -/
def Truthful (m : Manager) : Prop := ∃ q, m.statuses.getLast? = some q ∧ Says q m.remote

/-- The step changed `active_uplinks` or `pending`. -/
def Changed (m m' : Manager) : Prop :=
  (∃ u, m'.remote.activeUplinks.lookup u ≠ m.remote.activeUplinks.lookup u) ∨ m'.remote.pending ≠ m.remote.pending

/-- A promotion does not bring the number of uplinks to `2 ^ 31`. -/
def CountFits (json : SerdeJson StreamHeader) (opens : PendingStream → OpenResult) (r : RemoteState) : Prop :=
  r.hasActiveSlot = true → r.session = true → ∀ p rest, r.pending = p :: rest → openResult json opens p = .opened →
    p.uuid ∈ r.activeUplinks ∨ r.activeUplinks.keys.length + 1 < 2 ^ 31

/-- `restore_active` and its pruning keep every handle. -/
def KeepsHandles (restores : Nat → Bool) (m : Manager) : Prop :=
  ∀ u n, m.remote.activeUplinks.lookup u = some n →
    m.isGone n = false ∧ (restores n = true → m.channelFull n = false)

/-- What a step needs so that the status it leaves is right. -/
def reported (json : SerdeJson StreamHeader) (m : Manager) : Act → Prop
  | .streamStart uuid info priority opens =>
    m.remote.hasActiveSlot = true → m.remote.session = true →
      openResult json opens (m.newStream uuid info priority) = .opened → uuid ∈ m.remote.activeUplinks
  | .streamFinished uuid opens => CountFits json opens (m.removeUplink uuid).remote
  | .setMaxConcurrent limit opens => CountFits json opens { m.remote with maxConcurrent := limit }
  | .reconnect restores opens =>
    KeepsHandles restores m ∧
      (m.remote.hasActiveSlot = true → ∀ p ∈ m.remote.pending, openResult json opens p ≠ .opened)
  | _ => True

variable {json : SerdeJson StreamHeader} {opens : PendingStream → OpenResult} {m m' : Manager} {p : PendingStream}
  {restores : Nat → Bool}

/-! ## The status -/

theorem toInt_ofNat_iff (n : Nat) : (Int32.ofNat n).toInt = n ↔ n < 2 ^ 31 := by
  refine ⟨fun h => ?_, Int32.toInt_ofNat_of_lt⟩
  have := Int32.toInt_lt (Int32.ofNat n)
  omega

theorem says_queueStatus_iff (r : RemoteState) : Says r.queueStatus r ↔ r.activeUplinks.keys.length < 2 ^ 31 :=
  ⟨fun h => (toInt_ofNat_iff _).mp h.active, fun h => ⟨(toInt_ofNat_iff _).mpr h, rfl⟩⟩

/-- A status that is sent last is right if the count fits. -/
theorem truthful_sendQueueStatus_iff (m : Manager) :
    m.sendQueueStatus.Truthful ↔ m.remote.activeUplinks.keys.length < 2 ^ 31 := by
  rw [← says_queueStatus_iff]
  constructor
  · rintro ⟨q, hq, htold⟩
    have : m.sendQueueStatus.statuses.getLast? = some m.remote.queueStatus := List.getLast?_concat
    rw [this] at hq
    cases hq
    exact htold
  · exact fun h => ⟨_, List.getLast?_concat, h⟩

theorem length_insert (t : ByUuid) (u : Uuid) (n : Nat) :
    (t.insert u n).keys.length = if u ∈ t then t.keys.length else t.keys.length + 1 := by
  rw [AList.keys_insert, List.length_cons]
  split
  · rename_i hu
    have hpos : 0 < t.keys.length := List.length_pos_of_mem (AList.mem_keys.mp hu)
    rw [List.length_erase_of_mem (AList.mem_keys.mp hu)]
    omega
  · rename_i hu
    rw [List.erase_of_not_mem fun h => hu (AList.mem_keys.mpr h)]

/-! ## Handles -/

/-- Every handle belongs to a task that was started, and no two handles to the same. -/
structure HandlesApart (m : Manager) : Prop where
  started : ∀ u n, m.remote.activeUplinks.lookup u = some n → n ∈ m.tasks.map (·.number)
  apart : ∀ u v n, m.remote.activeUplinks.lookup u = some n → m.remote.activeUplinks.lookup v = some n → u = v

theorem HandlesApart.same (h : HandlesApart m) (hactive : m'.remote.activeUplinks = m.remote.activeUplinks)
    (htasks : m'.tasks.map (·.number) = m.tasks.map (·.number)) : HandlesApart m' := by
  refine ⟨?_, ?_⟩
  · rw [hactive, htasks]
    exact h.started
  · rw [hactive]
    exact h.apart

theorem HandlesApart.removeUplink (h : HandlesApart m) (u : Uuid) : HandlesApart (m.removeUplink u) := by
  have hsub : ∀ v n, (m.remote.activeUplinks.erase u).lookup v = some n → m.remote.activeUplinks.lookup v = some n :=
    fun v n hv => (lookup_of_erase hv).2
  exact ⟨fun v n hv => h.started v n (hsub v n hv), fun v w n hv hw => h.apart v w n (hsub v n hv) (hsub w n hw)⟩

theorem HandlesApart.opened (h : HandlesApart m) (hp : ¬ m.Promoted p) : HandlesApart (m.opened p) := by
  have hnew : p.number ∉ m.tasks.map (·.number) := by
    intro hm
    obtain ⟨t, ht, hn⟩ := List.mem_map.mp hm
    exact hp ⟨t, ht, hn⟩
  have hmap : (m.opened p).tasks.map (·.number) = m.tasks.map (·.number) ++ [p.number] := List.map_append
  have hlook : ∀ u n, (m.opened p).remote.activeUplinks.lookup u = some n →
      (u = p.uuid ∧ n = p.number) ∨ m.remote.activeUplinks.lookup u = some n := by
    intro u n hu
    have hu : (m.remote.activeUplinks.insert p.uuid p.number).lookup u = some n := hu
    by_cases hup : u = p.uuid
    · subst hup
      rw [AList.lookup_insert] at hu
      exact .inl ⟨rfl, (Option.some.inj hu).symm⟩
    · rw [AList.lookup_insert_ne hup] at hu
      exact .inr hu
  refine ⟨fun u n hu => ?_, fun u v n hu hv => ?_⟩
  · rw [hmap]
    rcases hlook u n hu with ⟨_, rfl⟩ | hu
    · simp
    · exact List.mem_append_left _ (h.started u n hu)
  · rcases hlook u n hu with ⟨rfl, rfl⟩ | hu
    · rcases hlook v _ hv with ⟨rfl, _⟩ | hv
      · rfl
      · exact absurd (h.started v _ hv) hnew
    · rcases hlook v n hv with ⟨_, rfl⟩ | hv
      · exact absurd (h.started u _ hu) hnew
      · exact h.apart u v n hu hv

theorem HandlesApart.failed {m₁ : Manager} (h : HandlesApart m) (hf : Failed json opens m p m₁) : HandlesApart m₁ := by
  obtain ⟨hremote, htasks, _⟩ := hf.remote
  exact h.same (by rw [hremote]) (by rw [htasks])

/-! ## `restore_active` -/

theorem isGone_give (m : Manager) (n k : Nat) :
    (m.updateTask n fun t => { t with streams := t.streams + 1 }).isGone k = m.isGone k := by
  unfold isGone updateTask
  rw [List.any_map]
  refine congrArg (m.tasks.any ·) (funext fun t => ?_)
  show ((if t.number = n then _ else t : Uplink).number == k && (if t.number = n then _ else t : Uplink).pc == .gone) = _
  split <;> rfl

/-- A stream given to a task fills no other task's channel, and empties none. -/
theorem channelFull_give (m : Manager) (n k : Nat) :
    (m.channelFull k = true → (m.updateTask n fun t => { t with streams := t.streams + 1 }).channelFull k = true) ∧
      (k ≠ n → (m.updateTask n fun t => { t with streams := t.streams + 1 }).channelFull k = m.channelFull k) := by
  unfold channelFull updateTask
  rw [List.any_map]
  constructor
  · intro h
    obtain ⟨t, ht, hfull⟩ := List.any_eq_true.mp h
    refine List.any_eq_true.mpr ⟨t, ht, ?_⟩
    simp only [Bool.and_eq_true, beq_iff_eq, decide_eq_true_eq] at hfull
    simp only [Function.comp_apply]
    split
    · simp only [Bool.and_eq_true, beq_iff_eq, decide_eq_true_eq]
      exact ⟨hfull.1, by omega⟩
    · simp [hfull]
  · intro hk
    refine congrArg (m.tasks.any ·) (funext fun t => ?_)
    simp only [Function.comp_apply]
    split
    · rename_i ht
      have : (t.number == k) = false := by simpa [ht] using Ne.symm hk
      simp only [this, Bool.false_and]
    · rfl

/-- The turns that are left find a task for every handle, and room in its channel. -/
def StillKept (restores : Nat → Bool) (uuids : List Uuid) (m : Manager) : Prop :=
  ∀ u n, m.remote.activeUplinks.lookup u = some n →
    m.isGone n = false ∧ (u ∈ uuids → restores n = true → m.channelFull n = false)

theorem restoreLoop_remote (restores : Nat → Bool) (uuids : List Uuid) :
    ∀ m : Manager, uuids.Nodup → HandlesApart m → StillKept restores uuids m →
      (uuids.foldl (restoreOne restores) m).remote = m.remote ∧
        ∀ n, (uuids.foldl (restoreOne restores) m).isGone n = m.isGone n := by
  induction uuids with
  | nil => exact fun m _ _ _ => ⟨rfl, fun _ => rfl⟩
  | cons u uuids ih =>
    intro m hnd ha hk
    obtain ⟨hu, hnd⟩ := List.nodup_cons.mp hnd
    rw [List.foldl_cons]
    unfold restoreOne
    cases hl : m.remote.activeUplinks.lookup u with
    | none => exact ih m hnd ha fun v n hv => ⟨(hk v n hv).1, fun hm => (hk v n hv).2 (List.mem_cons_of_mem _ hm)⟩
    | some n =>
      dsimp only
      by_cases hr : restores n = true
      · obtain ⟨hgone, hroom⟩ := hk u n hl
        have hroom := hroom List.mem_cons_self hr
        rw [if_pos hr, if_neg (by simp [hgone, hroom])]
        have ha' : HandlesApart (m.updateTask n fun t => { t with streams := t.streams + 1 }) :=
          ha.same rfl (map_updateTask m n fun _ => rfl)
        -- The handles that are still to come have other numbers.
        obtain ⟨hremote, hg⟩ := ih _ hnd ha' fun v k hv => by
          refine ⟨(isGone_give m n k).trans (hk v k hv).1, fun hm hrk => ?_⟩
          have hkn : k ≠ n := by
            rintro rfl
            exact hu (ha.apart u v k hl hv ▸ hm)
          rw [(channelFull_give m n k).2 hkn]
          exact (hk v k hv).2 (List.mem_cons_of_mem _ hm) hrk
        exact ⟨hremote, fun k => (hg k).trans (isGone_give m n k)⟩
      · rw [if_neg hr]
        exact ih m hnd ha fun v n hv => ⟨(hk v n hv).1, fun hm => (hk v n hv).2 (List.mem_cons_of_mem _ hm)⟩

theorem pruneLoop_same (uuids : List Uuid) (m : Manager)
    (h : ∀ u n, m.remote.activeUplinks.lookup u = some n → m.isGone n = false) : uuids.foldl pruneOne m = m := by
  induction uuids with
  | nil => rfl
  | cons u uuids ih =>
    rw [List.foldl_cons]
    unfold pruneOne
    cases hl : m.remote.activeUplinks.lookup u with
    | none => exact ih
    | some n =>
      dsimp only
      rw [if_neg (by simp [h u n hl])]
      exact ih

theorem remote_restoreActive (ha : HandlesApart m) (h : KeepsHandles restores m) :
    (m.restoreActive restores).remote = m.remote := by
  have hk : StillKept restores m.remote.activeUplinks.keys m := fun u n hl => ⟨(h u n hl).1, fun _ => (h u n hl).2⟩
  obtain ⟨hremote, hgone⟩ := restoreLoop_remote restores _ m m.remote.activeUplinks.keys_nodup ha hk
  unfold restoreActive
  rw [pruneLoop_same]
  · exact hremote
  · intro u n hl
    rw [hremote] at hl
    rw [hgone]
    exact (h u n hl).1

/-- A loop whose turn at `a` establishes `Q` from `P`, when every turn keeps both. -/
theorem foldl_establishes {σ α : Type} {P Q : σ → Prop} {f : σ → α → σ} {a : α} (hP : ∀ s b, P s → P (f s b))
    (ha : ∀ s, P s → Q (f s a)) (hQ : ∀ s b, Q s → Q (f s b)) (l : List α) (hl : a ∈ l) : ∀ s, P s → Q (l.foldl f s) := by
  induction l with
  | nil => cases hl
  | cons b l ih =>
    intro s hs
    rcases List.mem_cons.mp hl with rfl | hl
    · exact foldl_keeps hQ l _ (ha s hs)
    · exact ih hl _ (hP s b hs)

/-- The uuid has no handle, or one that the condition is true of. -/
def Doomed (u : Uuid) (C : Manager → Nat → Prop) (m : Manager) : Prop :=
  ∀ n, m.remote.activeUplinks.lookup u = some n → C m n

theorem lookup_removeUplink {u v : Uuid} {n : Nat} (h : (m.removeUplink v).remote.activeUplinks.lookup u = some n) :
    m.remote.activeUplinks.lookup u = some n :=
  (lookup_of_erase h).2

section

variable {C : Manager → Nat → Prop} {u : Uuid}

theorem Doomed.removeUplink (h : Doomed u C m) (hC : ∀ n v, C m n → C (m.removeUplink v) n) (v : Uuid) :
    Doomed u C (m.removeUplink v) :=
  fun n hn => hC n v (h n (lookup_removeUplink hn))

theorem Doomed.restoreOne (h : Doomed u C m) (hC : ∀ n v, C m n → C (m.removeUplink v) n)
    (hgive : ∀ n k, C m n → C (m.updateTask k fun t => { t with streams := t.streams + 1 }) n) (v : Uuid) :
    Doomed u C (restoreOne restores m v) := by
  unfold Manager.restoreOne
  split
  · exact h
  · split
    · split
      · exact h.removeUplink hC v
      · exact fun n hn => hgive n _ (h n hn)
    · exact h

theorem Doomed.pruneOne (h : Doomed u C m) (hC : ∀ n v, C m n → C (m.removeUplink v) n) (v : Uuid) :
    Doomed u C (pruneOne m v) := by
  unfold Manager.pruneOne
  split
  · exact h
  · split
    · exact h.removeUplink hC v
    · exact h

end

/-- A handle whose task is gone, or whose channel is full when its stream comes, is
    dropped. -/
theorem restoreActive_drops {u : Uuid} {n : Nat} (hl : m.remote.activeUplinks.lookup u = some n)
    (h : m.isGone n = true ∨ (restores n = true ∧ m.channelFull n = true)) :
    (m.restoreActive restores).remote.activeUplinks.lookup u = none := by
  have habsent : ∀ m : Manager, Doomed u (fun _ _ => False) m ↔ m.remote.activeUplinks.lookup u = none :=
    fun m => Option.eq_none_iff_forall_ne_some.symm
  have hmem : u ∈ m.remote.activeUplinks.keys := AList.mem_keys.mp (AList.lookup_isSome.mp (by rw [hl]; rfl))
  have hstart : ∀ C : Manager → Nat → Prop, C m n → Doomed u C m := by
    intro C hC k hk
    rw [hl] at hk
    cases hk
    exact hC
  rw [← habsent]
  unfold restoreActive
  rcases h with hgone | ⟨hr, hfull⟩
  · -- The first loop may leave the handle, the second does not.
    have hfirst := foldl_keeps (P := Doomed u fun m k => m.isGone k = true) (f := restoreOne restores)
      (fun s v hs => hs.restoreOne (fun _ _ hk => hk) (fun k j hk => (isGone_give s j k).trans hk) v)
      m.remote.activeUplinks.keys m (hstart _ hgone)
    by_cases hu : u ∈ (m.remote.activeUplinks.keys.foldl (restoreOne restores) m).remote.activeUplinks.keys
    · refine foldl_establishes (P := Doomed u fun m k => m.isGone k = true) (fun s v hs => hs.pruneOne (fun _ _ hk => hk) v)
        (fun s hs => ?_) (fun s v hs => hs.pruneOne (fun _ _ hk => hk) v) _ hu _ hfirst
      rw [habsent]
      unfold pruneOne
      cases hk : s.remote.activeUplinks.lookup u with
      | none => exact hk
      | some k =>
        dsimp only
        rw [if_pos (hs k hk)]
        exact AList.lookup_erase ..
    · refine foldl_keeps (fun s v hs => hs.pruneOne (fun _ _ hk => hk) v) _ _ ?_
      rw [habsent]
      exact AList.lookup_eq_none.mpr fun h => hu (AList.mem_keys.mp h)
  · have hfirst := foldl_establishes (P := Doomed u fun m k => restores k = true ∧ m.channelFull k = true)
      (Q := Doomed u fun _ _ => False) (f := restoreOne restores) (a := u)
      (fun s v hs => hs.restoreOne (fun _ _ hk => hk) (fun k j hk => ⟨hk.1, (channelFull_give s j k).1 hk.2⟩) v)
      (fun s hs => ?_) (fun s v hs => hs.restoreOne (fun _ _ hk => hk) (fun _ _ hk => hk) v) m.remote.activeUplinks.keys hmem m
      (hstart _ ⟨hr, hfull⟩)
    · exact foldl_keeps (fun s v hs => hs.pruneOne (fun _ _ hk => hk) v) _ _ hfirst
    · rw [habsent]
      unfold restoreOne
      cases hk : s.remote.activeUplinks.lookup u with
      | none => exact hk
      | some k =>
        dsimp only
        rw [if_pos (hs k hk).1, if_pos (.inr (hs k hk).2)]
        exact AList.lookup_erase ..

theorem keys_restoreActive (m : Manager) (restores : Nat → Bool) :
    (m.restoreActive restores).remote.activeUplinks.keys ⊆ m.remote.activeUplinks.keys := by
  refine restoreActive_keeps (P := fun m' => m'.remote.activeUplinks.keys ⊆ m.remote.activeUplinks.keys) ?_ (fun h => h)
    fun _ h => h
  intro m' u n h _ _ v hv
  refine h ?_
  have hv : v ∈ (m'.remote.activeUplinks.erase u).keys := hv
  rw [AList.keys_erase] at hv
  exact List.mem_of_mem_erase hv

/-- Handles are dropped: the count goes down. -/
theorem restoreActive_fewer (h : ¬ KeepsHandles restores m) :
    (∃ u n, m.remote.activeUplinks.lookup u = some n ∧ (m.restoreActive restores).remote.activeUplinks.lookup u = none) ∧
      (m.restoreActive restores).remote.activeUplinks.keys.length < m.remote.activeUplinks.keys.length := by
  obtain ⟨u, n, hl, hdrop⟩ : ∃ u n, m.remote.activeUplinks.lookup u = some n ∧
      (m.isGone n = true ∨ (restores n = true ∧ m.channelFull n = true)) := by
    unfold KeepsHandles at h
    push Not at h
    obtain ⟨u, n, hl, h⟩ := h
    refine ⟨u, n, hl, ?_⟩
    cases hg : m.isGone n with
    | true => exact .inl rfl
    | false =>
      obtain ⟨hr, hf⟩ := h hg
      exact .inr ⟨hr, by simpa using hf⟩
  have hnone := restoreActive_drops hl hdrop
  refine ⟨⟨u, n, hl, hnone⟩, ?_⟩
  have hout : u ∉ (m.restoreActive restores).remote.activeUplinks.keys :=
    fun hu => AList.lookup_eq_none.mp hnone (AList.mem_keys.mpr hu)
  have hin : u ∈ m.remote.activeUplinks.keys := AList.mem_keys.mp (AList.lookup_isSome.mp (by rw [hl]; rfl))
  have hnd : (u :: (m.restoreActive restores).remote.activeUplinks.keys).Nodup :=
    List.nodup_cons.mpr ⟨hout, AList.keys_nodup _⟩
  have hsub := hnd.subperm (List.cons_subset.mpr ⟨hin, keys_restoreActive m restores⟩)
  exact hsub.length_le

/-! ## `drain_pending` -/

/-- With no slot, or nothing to open, the loop changes nothing. -/
theorem Drains.nothing {ps kept : List PendingStream} (h : Drains json opens ps m kept m')
    (hnone : m.remote.hasActiveSlot = true → ∀ p ∈ ps, openResult json opens p ≠ .opened) :
    kept = ps ∧ m'.remote = m.remote := by
  induction h with
  | nil => exact ⟨rfl, rfl⟩
  | full => exact ⟨rfl, rfl⟩
  | opened hslot ho => exact absurd ho (hnone hslot _ List.mem_cons_self)
  | failed hf _ ih =>
    have hremote := hf.remote.1
    obtain ⟨rfl, hm⟩ := ih fun hslot q hq => hnone (hremote ▸ hslot) q (List.mem_cons_of_mem _ hq)
    exact ⟨rfl, hm.trans hremote⟩

theorem Drains.length_le {ps kept : List PendingStream} (h : Drains json opens ps m kept m') : kept.length ≤ ps.length := by
  induction h with
  | nil => exact Nat.le_refl _
  | full => exact Nat.le_refl _
  | opened _ _ _ ih => exact Nat.le_succ_of_le ih
  | failed _ _ ih => exact Nat.succ_le_succ ih

/-- Otherwise the queue gets shorter. -/
theorem Drains.shorter {ps kept : List PendingStream} (h : Drains json opens ps m kept m')
    (hslot : m.remote.hasActiveSlot = true) (hp : p ∈ ps) (ho : openResult json opens p = .opened) :
    kept.length < ps.length := by
  induction h with
  | nil => cases hp
  | full hfull =>
    rw [hslot] at hfull
    cases hfull
  | opened _ _ h _ => exact Nat.lt_succ_of_le h.length_le
  | failed hf _ ih =>
    rcases List.mem_cons.mp hp with rfl | hp
    · exact absurd ho hf.not_opened
    · exact Nat.succ_lt_succ (ih (hf.remote.1 ▸ hslot) hp)

/-! ## Statuses -/

theorem Failed.statuses {m₁ : Manager} (h : Failed json opens m p m₁) : m₁.statuses = m.statuses := by
  rcases h with ⟨_, rfl⟩ | ⟨_, rfl⟩ <;> rfl

theorem Drains.statuses {ps kept : List PendingStream} (h : Drains json opens ps m kept m') : m'.statuses = m.statuses := by
  induction h with
  | nil => rfl
  | full => rfl
  | opened _ _ _ ih => exact ih
  | failed hf _ ih => exact ih.trans hf.statuses

theorem statuses_restoreActive (m : Manager) (restores : Nat → Bool) : (m.restoreActive restores).statuses = m.statuses :=
  restoreActive_keeps (P := fun m' => m'.statuses = m.statuses) (fun h _ _ => h) (fun h => h) rfl

/-! ## One step -/

/-- Nothing has happened yet, or the last status is right. -/
def UpToDate (m : Manager) : Prop :=
  (m.statuses = [] ∧ m.remote.activeUplinks.keys = [] ∧ m.remote.pending = []) ∨ m.Truthful

theorem UpToDate.fits (h : UpToDate m) : m.remote.activeUplinks.keys.length < 2 ^ 31 := by
  rcases h with ⟨_, hk, _⟩ | ⟨q, _, hq⟩
  · rw [hk]
    decide
  · have := Int32.toInt_lt q.activeCount
    rw [hq.active] at this
    omega

theorem UpToDate.same (h : UpToDate m) (hs : m'.statuses = m.statuses)
    (ha : m'.remote.activeUplinks = m.remote.activeUplinks) (hp : m'.remote.pending = m.remote.pending) : UpToDate m' := by
  rcases h with ⟨h1, h2, h3⟩ | ⟨q, hq, htold⟩
  · exact .inl ⟨hs.trans h1, by rw [ha, h2], hp.trans h3⟩
  · exact .inr ⟨q, by rw [hs, hq], by rw [ha]; exact htold.active, by rw [hp]; exact htold.pending⟩

theorem not_changed (ha : m'.remote.activeUplinks = m.remote.activeUplinks) (hp : m'.remote.pending = m.remote.pending) :
    ¬ Changed m m' := by
  rintro (⟨u, hu⟩ | hne)
  · exact hu (by rw [ha])
  · exact hne hp

/-- A step that meets its condition `R` leaves a status that is right, or changes nothing;
    any other changes something that the last status does not say. -/
def StepReports (R : Prop) (m m' : Manager) : Prop :=
  (R ∧ (m'.Truthful ∨ (UpToDate m' ∧ ¬ Changed m m'))) ∨ (¬ R ∧ Changed m m' ∧ ¬ m'.Truthful)

theorem stepReports_same (h : UpToDate m) {R : Prop} (hR : R) (hs : m'.statuses = m.statuses)
    (ha : m'.remote.activeUplinks = m.remote.activeUplinks) (hp : m'.remote.pending = m.remote.pending) :
    StepReports R m m' := .inl ⟨hR, .inr ⟨h.same hs ha hp, not_changed ha hp⟩⟩

theorem truthful_queueStream (p : PendingStream) (h : m.remote.activeUplinks.keys.length < 2 ^ 31) :
    (m.queueStream p).Truthful := by
  unfold queueStream
  split
  · exact (truthful_sendQueueStatus_iff _).mpr h
  · exact (truthful_sendQueueStatus_iff _).mpr h

theorem onStreamStart_reports (m₀ : Manager) (p : PendingStream) (h : m₀.remote.activeUplinks.keys.length < 2 ^ 31)
    (hr : m₀.remote = m.remote) :
    StepReports (m₀.remote.hasActiveSlot = true → m₀.remote.session = true → openResult json opens p = .opened →
      p.uuid ∈ m₀.remote.activeUplinks) m (onStreamStart json opens m₀ p) := by
  unfold onStreamStart
  by_cases hslot : m₀.remote.hasActiveSlot = true ∧ m₀.remote.session = true
  · rw [if_pos hslot]
    rcases openStreamOnSession_cases json opens m₀ p with ⟨ho, m₁, hopen, _, hin⟩ | ⟨m₁, hopen, hfail⟩
    · rw [hopen]
      dsimp only
      rw [hin]
      -- The status that went out has the count without the new handle.
      have hlast : (m₁.statuses ++ [m₀.remote.queueStatus]).getLast? = some m₀.remote.queueStatus := List.getLast?_concat
      have hcount : m₀.remote.queueStatus.activeCount.toInt = m₀.remote.activeUplinks.keys.length := (toInt_ofNat_iff _).mpr h
      have hlen := length_insert m₀.remote.activeUplinks p.uuid p.number
      by_cases hu : p.uuid ∈ m₀.remote.activeUplinks
      · rw [if_pos hu] at hlen
        refine .inl ⟨fun _ _ _ => hu, .inl ⟨_, hlast, ?_, rfl⟩⟩
        exact hcount.trans (congrArg Nat.cast hlen.symm)
      · rw [if_neg hu] at hlen
        refine .inr ⟨fun hall => hu (hall hslot.1 hslot.2 ho), .inl ⟨p.uuid, ?_⟩, ?_⟩
        · rw [← hr, AList.lookup_eq_none.mpr hu]
          show (m₀.remote.activeUplinks.insert p.uuid p.number).lookup p.uuid ≠ none
          rw [AList.lookup_insert]
          exact Option.some_ne_none _
        · rintro ⟨q, hq, htold⟩
          cases hlast.symm.trans hq
          have hactive : m₀.remote.queueStatus.activeCount.toInt =
              (m₀.remote.activeUplinks.insert p.uuid p.number).keys.length := htold.active
          rw [hcount, hlen] at hactive
          omega
    · rw [hopen]
      refine .inl ⟨fun _ _ ho => absurd ho hfail.not_opened, .inl (truthful_queueStream p ?_)⟩
      rw [hfail.remote.1]
      exact h
  · rw [if_neg hslot]
    exact .inl ⟨fun h1 h2 => absurd ⟨h1, h2⟩ hslot, .inl (truthful_queueStream p h)⟩

theorem promotePending_reports (m m₀ : Manager) (h : m₀.remote.activeUplinks.keys.length < 2 ^ 31)
    (hp : m₀.remote.pending = m.remote.pending) :
    StepReports (CountFits json opens m₀.remote) m (promotePending json opens m₀).sendQueueStatus := by
  unfold StepReports
  rw [truthful_sendQueueStatus_iff]
  have hcase := promotePending_cases json opens m₀
  generalize promotePending json opens m₀ = m₁ at hcase ⊢
  cases hcase with
  | idle hidle =>
    refine .inl ⟨fun h1 h2 p rest hq _ => ?_, .inl h⟩
    rcases hidle with hidle | hidle | hidle
    · rw [h1] at hidle
      cases hidle
    · rw [h2] at hidle
      cases hidle
    · rw [hq] at hidle
      cases hidle
  | @promoted p rest hslot hlive hq ho =>
    have hlen : ((m₀.opened p).setPending rest).remote.activeUplinks.keys.length =
        if p.uuid ∈ m₀.remote.activeUplinks then m₀.remote.activeUplinks.keys.length
        else m₀.remote.activeUplinks.keys.length + 1 := length_insert _ _ _
    by_cases hfits : p.uuid ∈ m₀.remote.activeUplinks ∨ m₀.remote.activeUplinks.keys.length + 1 < 2 ^ 31
    · refine .inl ⟨fun _ _ p' rest' hq' _ => ?_, .inl ?_⟩
      · rw [hq] at hq'
        cases hq'
        exact hfits
      · rw [hlen]
        split
        · exact h
        · rename_i hu
          exact hfits.resolve_left hu
    · push Not at hfits
      refine .inr ⟨fun hc => ?_, .inr ?_, ?_⟩
      · rcases hc hslot hlive p rest hq ho with hu | hlt
        · exact hfits.1 hu
        · omega
      · rw [← hp, hq]
        show rest ≠ p :: rest
        intro he
        have := congrArg List.length he
        simp at this
      · rw [hlen, if_neg hfits.1]
        omega
  | @failed _ p rest hq hf =>
    refine .inl ⟨fun _ _ p' rest' hq' ho => ?_, by rw [hf.remote.1]; exact .inl h⟩
    rw [hq] at hq'
    cases hq'
    exact absurd ho hf.not_opened

theorem not_truthful_of (h : UpToDate m) (hs : m'.statuses = m.statuses)
    (hne : m'.remote.activeUplinks.keys.length ≠ m.remote.activeUplinks.keys.length ∨
      m'.remote.pending.length ≠ m.remote.pending.length) : ¬ m'.Truthful := by
  rintro ⟨q, hq, htold⟩
  rw [hs] at hq
  rcases h with ⟨hnil, _⟩ | ⟨q', hq', htold'⟩
  · rw [hnil] at hq
    cases hq
  · rw [hq'] at hq
    cases hq
    rcases hne with hne | hne
    · exact hne (by exact_mod_cast htold.active.symm.trans htold'.active)
    · have := congrArg List.length (htold.pending.symm.trans htold'.pending)
      simp only [List.length_map] at this
      exact hne this

theorem reconnect_reports {m₀ : Manager} (h : UpToDate m) (ha : HandlesApart m) (hlive : m₀.remote.session = true)
    (hactive : m₀.remote.activeUplinks = m.remote.activeUplinks) (hpend : m₀.remote.pending = m.remote.pending)
    (hmax : m₀.remote.maxConcurrent = m.remote.maxConcurrent) (htasks : m₀.tasks = m.tasks)
    (hstatus : m₀.statuses = m.statuses) :
    StepReports (KeepsHandles restores m ∧
        (m.remote.hasActiveSlot = true → ∀ p ∈ m.remote.pending, openResult json opens p ≠ .opened)) m
      (drainPending json opens (m₀.restoreActive restores)) := by
  obtain ⟨kept, m₁, hdrains, heq⟩ := drainPending_drains json opens (m₀.restoreActive restores)
    (by rw [session_restoreActive, hlive])
  rw [heq, pending_restoreActive, hpend] at *
  have hkeeps : KeepsHandles restores m₀ ↔ KeepsHandles restores m := by
    unfold KeepsHandles isGone channelFull
    rw [hactive, htasks]
  have hslots : m₀.remote.hasActiveSlot = m.remote.hasActiveSlot := by
    unfold RemoteState.hasActiveSlot
    rw [hactive, hmax]
  have hstatus₁ : (m₁.setPending kept).statuses = m.statuses :=
    hdrains.statuses.trans ((statuses_restoreActive _ _).trans hstatus)
  by_cases hk : KeepsHandles restores m
  · have hremote := remote_restoreActive (ha.same hactive (by rw [htasks])) (hkeeps.mpr hk)
    rw [← hslots]
    by_cases ho : m₀.remote.hasActiveSlot = true → ∀ p ∈ m.remote.pending, openResult json opens p ≠ .opened
    · obtain ⟨rfl, hr⟩ := hdrains.nothing (by rw [hremote]; exact ho)
      refine stepReports_same h ⟨hk, ho⟩ hstatus₁ ?_ rfl
      show m₁.remote.activeUplinks = _
      rw [hr, hremote, hactive]
    · refine .inr ⟨fun hc => ho hc.2, ?_⟩
      push Not at ho
      obtain ⟨hslot, p, hp, hopen⟩ := ho
      have hlt := hdrains.shorter (by rw [hremote]; exact hslot) hp hopen
      refine ⟨.inr fun he => ?_, not_truthful_of h hstatus₁ (.inr (Nat.ne_of_lt hlt))⟩
      have he : kept = m.remote.pending := he
      rw [he] at hlt
      exact Nat.lt_irrefl _ hlt
  · -- A handle is dropped; what is opened afterwards leaves the queue.
    refine .inr ⟨fun hc => hk hc.1, ?_⟩
    obtain ⟨⟨u, n, hl, hnone⟩, hfewer⟩ := restoreActive_fewer (fun hc => hk (hkeeps.mp hc))
    rw [hactive] at hl hfewer
    by_cases hlen : kept.length = m.remote.pending.length
    · have hsame : kept = m.remote.pending ∧ m₁.remote = (m₀.restoreActive restores).remote := by
        refine hdrains.nothing fun hslot p hp hopen => ?_
        have := hdrains.shorter hslot hp hopen
        omega
      refine ⟨.inl ⟨u, ?_⟩, not_truthful_of h hstatus₁ (.inl ?_)⟩
      · show m₁.remote.activeUplinks.lookup u ≠ _
        rw [hsame.2, hnone, hl]
        exact (Option.some_ne_none _).symm
      · show m₁.remote.activeUplinks.keys.length ≠ _
        rw [hsame.2]
        exact Nat.ne_of_lt hfewer
    · refine ⟨.inr fun he => ?_, not_truthful_of h hstatus₁ (.inr hlen)⟩
      have he : kept = m.remote.pending := he
      exact hlen (by rw [he])

theorem step_reports {a : Act} (h : UpToDate m) (ha : HandlesApart m) (hs : step json m a = some m') :
    StepReports (reported json m a) m m' := by
  cases a with
  | streamStart uuid info priority opens =>
    cases hs
    exact onStreamStart_reports { m with started := m.started + 1, opens := opens } (m.newStream uuid info priority)
      h.fits rfl
  | streamFinished uuid opens =>
    cases hs
    refine promotePending_reports m ({ m with finished := m.finished.erase uuid, opens := opens }.removeUplink uuid) ?_ rfl
    have hle : (m.remote.activeUplinks.erase uuid).keys.length ≤ m.remote.activeUplinks.keys.length := by
      rw [AList.keys_erase]
      exact List.length_erase_le
    exact Nat.lt_of_le_of_lt hle h.fits
  | setMaxConcurrent limit opens =>
    cases hs
    exact promotePending_reports m { m with remote := { m.remote with maxConcurrent := limit }, opens := opens } h.fits rfl
  | linkFailed =>
    cases hs
    exact stepReports_same h trivial rfl rfl rfl
  | reconnect restores opens =>
    simp only [step] at hs
    split at hs
    · cases hs
    · cases hs
      exact reconnect_reports h ha rfl rfl rfl rfl rfl rfl
  | pumpExits n | takeStream n | timerSnapshot =>
    cases hs
    exact stepReports_same h trivial rfl rfl rfl
  | ends n | deregister n | finish n =>
    obtain ⟨t, _, _, _, rfl⟩ := taskStep_cases hs
    exact stepReports_same h trivial rfl rfl rfl
  | timerRemove uuids =>
    simp only [step] at hs
    split at hs
    · cases hs
      exact stepReports_same h trivial rfl rfl rfl
    · cases hs

/-! ## Whole runs -/

theorem HandlesApart.start {m₀ : Manager} (hc : StartCase json opens m₀ p m') (h : HandlesApart m₀) (hp : ¬ m₀.Promoted p) :
    HandlesApart m' := by
  cases hc with
  | running => exact (h.opened hp).same rfl rfl
  | queued hnot | refused hnot =>
    have hunopened := Unopened.keeps hnot h h.failed
    exact hunopened.same rfl rfl

theorem HandlesApart.promotePending (h : HandlesApart m) (hq : QueueOk m.remote.pending m) :
    HandlesApart (promotePending json opens m) := by
  have hcase := promotePending_cases json opens m
  generalize Manager.promotePending json opens m = m₁ at hcase
  cases hcase with
  | idle => exact h
  | promoted _ _ hp =>
    have hnew := hq.waiting _ (hp ▸ List.mem_cons_self)
    exact (h.opened hnew).same rfl rfl
  | failed _ hf => exact h.failed hf

theorem HandlesApart.restore (h : HandlesApart m) (restores : Nat → Bool) : HandlesApart (m.restoreActive restores) :=
  restoreActive_keeps (P := HandlesApart) (fun hm _ _ => hm.removeUplink _)
    (fun hm => hm.same rfl (map_updateTask _ _ fun _ => rfl)) h

theorem HandlesApart.drain (h : HandlesApart m) (hq : QueueOk m.remote.pending m) (hlive : m.remote.session = true) :
    HandlesApart (drainPending json opens m) := by
  obtain ⟨kept, m', hdrains, heq⟩ := drainPending_drains json opens m hlive
  rw [heq]
  have := hdrains.invariant (I := fun queue m => QueueOk queue m ∧ HandlesApart m)
    (fun _ _ hi => ⟨hi.1.promote, hi.2.opened (hi.1.waiting _ (by simp))⟩)
    (fun _ hf hi => ⟨hi.1.failed hf, hi.2.failed hf⟩) [] ⟨hq, h⟩
  exact this.2.same rfl rfl

theorem step_handlesApart {a : Act} (hq : QueueOk m.remote.pending m) (h : HandlesApart m)
    (hs : step json m a = some m') : HandlesApart m' := by
  cases a with
  | streamStart uuid info priority opens =>
    cases hs
    refine HandlesApart.start (onStreamStart_cases json opens _ _) (h.same rfl rfl) ?_
    rintro ⟨t, ht, hn⟩
    exact Nat.lt_irrefl _ (hn ▸ hq.opened t ht)
  | streamFinished uuid opens =>
    cases hs
    have h₀ : HandlesApart ({ m with finished := m.finished.erase uuid, opens := opens }.removeUplink uuid) :=
      (h.removeUplink uuid).same rfl rfl
    exact (h₀.promotePending (hq.same rfl rfl rfl fun _ _ => Iff.rfl)).same rfl rfl
  | setMaxConcurrent limit opens =>
    cases hs
    have h₀ : HandlesApart { m with remote := { m.remote with maxConcurrent := limit }, opens := opens } := h.same rfl rfl
    exact (h₀.promotePending (hq.same rfl rfl rfl fun _ _ => Iff.rfl)).same rfl rfl
  | linkFailed | timerSnapshot =>
    cases hs
    exact h.same rfl rfl
  | reconnect restores opens =>
    simp only [step] at hs
    split at hs
    · cases hs
    · cases hs
      have hq₀ : QueueOk m.remote.pending { m with remote := { m.remote with session := true }, opens := opens } :=
        hq.same rfl rfl rfl fun _ _ => Iff.rfl
      have h₀ : HandlesApart { m with remote := { m.remote with session := true }, opens := opens } := h.same rfl rfl
      exact (h₀.restore restores).drain (hq₀.restore restores) (by rw [session_restoreActive])
  | pumpExits n | takeStream n =>
    cases hs
    exact h.same rfl (map_updateTask m n fun _ => rfl)
  | ends n | deregister n | finish n =>
    obtain ⟨t, _, _, _, rfl⟩ := taskStep_cases hs
    exact h.same rfl (map_updateTask m n fun _ => rfl)
  | timerRemove uuids =>
    simp only [step] at hs
    split at hs
    · cases hs
      exact h.same rfl rfl
    · cases hs

/-- In every run: each step that changes `active_uplinks` or `pending` leaves a last status
    that says what they are, exactly when every step meets the condition. -/
theorem snapshots_truthful_iff (json : SerdeJson StreamHeader) (maxConcurrent maxPending : Nat) (as : List Act) :
    Along (step json) (fun m _ m' => Changed m m' → m'.Truthful) (init maxConcurrent maxPending) as ↔
      Along (step json) (fun m a _ => reported json m a) (init maxConcurrent maxPending) as := by
  refine along_congr (I := fun m => UpToDate m ∧ HandlesApart m ∧ QueueOk m.remote.pending m) ?_ ?_ ?_ as
  · rintro m m' a ⟨hu, ha, -⟩ hs
    rcases step_reports hu ha hs with ⟨hr, ht | ⟨-, hc⟩⟩ | ⟨hr, hc, ht⟩
    · exact ⟨fun _ => hr, fun _ _ => ht⟩
    · exact ⟨fun _ => hr, fun _ hc' => absurd hc' hc⟩
    · exact ⟨fun h => absurd (h hc) ht, fun h => absurd h hr⟩
  · rintro m m' a ⟨hu, ha, hq⟩ hs hr
    refine ⟨?_, step_handlesApart hq ha hs, step_queueOk hq hs⟩
    rcases step_reports hu ha hs with ⟨-, ht | ⟨hu', -⟩⟩ | ⟨hn, -⟩
    · exact .inr ht
    · exact hu'
    · exact absurd hr hn
  · exact ⟨.inl ⟨rfl, rfl, rfl⟩, ⟨fun u n hu => (by cases hu), fun u v n hu => (by cases hu)⟩, init_queueOk _ _⟩

/-- A stream that is opened at once: the status sent for it counts no active uplink. -/
theorem running_stream_not_counted :
    ¬ Along (step plainJson) (fun m _ m' => Changed m m' → m'.Truthful) (init 1 5)
      [.streamStart ⟨1⟩ plainInfo ⟨0⟩ allOpen] := by
  intro h
  obtain ⟨q, hq, htold⟩ := (h _ rfl).1 (.inl ⟨⟨1⟩, by decide +kernel⟩)
  have hsent : (onStreamStart plainJson allOpen { init 1 5 with started := 1, opens := allOpen }
      ((init 1 5).newStream ⟨1⟩ plainInfo ⟨0⟩)).statuses.getLast? = some ⟨0, 1, 5, []⟩ := by decide +kernel
  cases hsent.symm.trans hq
  have hcount := htold.active
  revert hcount
  decide +kernel

end Quelay.Agent.SessionManager.Manager
