/-
  Quelay.Agent.SessionManager.Cases — what the handling of a command can do.

  Every uplink is opened by the same three moves: the stream enters the rate limiter's
  table, its task starts, its handle goes into `active_uplinks` (`opened`); an attempt that
  fails late leaves the first (`registered`). `StartCase`, `PromoteCase` and `Drains` say
  which of these a command makes, and what becomes of the queue; an invariant of the queue
  and the uplinks is proved against the moves.
-/

import Quelay.Agent.SessionManager.State

namespace Quelay.Agent.SessionManager.Manager

open Quelay.Lib Quelay.Domain Framing

/-! ## Moves -/

/-- An entry that an erasure leaves is another's, and was there before. -/
theorem lookup_of_erase {entries : ByUuid} {u v : Uuid} {n : Nat} (h : (entries.erase v).lookup u = some n) :
    u ≠ v ∧ entries.lookup u = some n := by
  by_cases hu : u = v
  · rw [hu, AList.lookup_erase] at h
    cases h
  · rw [AList.lookup_erase_ne hu] at h
    exact ⟨hu, h⟩

def register (m : Manager) (p : PendingStream) : Manager := { m with arl := m.arl.insert p.uuid p.number }

/-- The stream is opened, and its handle stored. -/
def opened (m : Manager) (p : PendingStream) : Manager :=
  ({ m.register p with tasks := m.tasks ++ [⟨p.number, p.uuid, .running, 0, true⟩] } : Manager).insertUplink p

def setPending (m : Manager) (pending : List PendingStream) : Manager :=
  { m with remote := { m.remote with pending := pending } }

/-- A failed attempt to open `p` leaves this. -/
def Failed (json : SerdeJson StreamHeader) (opens : PendingStream → OpenResult) (m : Manager) (p : PendingStream)
    (m' : Manager) : Prop :=
  (openResult json opens p = .refused ∧ m' = m) ∨ (openResult json opens p = .registered ∧ m' = m.register p)

variable {json : SerdeJson StreamHeader} {opens : PendingStream → OpenResult} {m m' : Manager} {p : PendingStream}

theorem Failed.not_opened (h : Failed json opens m p m') : openResult json opens p ≠ .opened := by
  rcases h with ⟨h, _⟩ | ⟨h, _⟩ <;> simp [h]

/-- A failed attempt touches the rate limiter's table at most. -/
theorem Failed.remote (h : Failed json opens m p m') : m'.remote = m.remote ∧ m'.tasks = m.tasks ∧
    m'.replies = m.replies ∧ m'.started = m.started ∧ m'.opens = m.opens := by
  rcases h with ⟨_, rfl⟩ | ⟨_, rfl⟩ <;> exact ⟨rfl, rfl, rfl, rfl, rfl⟩

theorem openStreamOnSession_cases (json : SerdeJson StreamHeader) (opens : PendingStream → OpenResult) (m : Manager)
    (p : PendingStream) :
    (openResult json opens p = .opened ∧ ∃ m₁, openStreamOnSession json opens m p = (m₁, true) ∧
      m₁.insertUplink p = m.opened p ∧
      m₁.sendQueueStatus.insertUplink p =
        { m.opened p with statuses := m₁.statuses ++ [m.remote.queueStatus] }) ∨
    ∃ m₁, openStreamOnSession json opens m p = (m₁, false) ∧ Failed json opens m p m₁ := by
  unfold openStreamOnSession
  cases h : openResult json opens p with
  | refused => exact .inr ⟨m, rfl, .inl ⟨h, rfl⟩⟩
  | registered => exact .inr ⟨m.register p, rfl, .inr ⟨h, rfl⟩⟩
  | opened => exact .inl ⟨rfl, _, rfl, rfl, rfl⟩

/-! ## `on_stream_start` -/

/-- A start that opens nothing leaves this: no slot was free, or the attempt failed. -/
def Unopened (json : SerdeJson StreamHeader) (opens : PendingStream → OpenResult) (m : Manager) (p : PendingStream)
    (m' : Manager) : Prop :=
  m' = m ∧ ¬ (m.remote.hasActiveSlot = true ∧ m.remote.session = true) ∨ Failed json opens m p m'

theorem Unopened.keeps {P : Manager → Prop} (h : Unopened json opens m p m') (hm : P m)
    (hf : Failed json opens m p m' → P m') : P m' := by
  rcases h with ⟨rfl, _⟩ | h
  · exact hm
  · exact hf h

theorem Unopened.remote (h : Unopened json opens m p m') : m'.remote = m.remote ∧ m'.tasks = m.tasks ∧
    m'.replies = m.replies ∧ m'.started = m.started ∧ m'.opens = m.opens :=
  h.keeps (P := fun m' => m'.remote = m.remote ∧ m'.tasks = m.tasks ∧ m'.replies = m.replies ∧ m'.started = m.started ∧
    m'.opens = m.opens) ⟨rfl, rfl, rfl, rfl, rfl⟩ Failed.remote

theorem Unopened.not_opened (h : Unopened json opens m p m') (hslot : m.remote.hasActiveSlot = true)
    (hlive : m.remote.session = true) : openResult json opens p ≠ .opened := by
  rcases h with ⟨_, hnot⟩ | h
  · exact absurd ⟨hslot, hlive⟩ hnot
  · exact h.not_opened

inductive StartCase (json : SerdeJson StreamHeader) (opens : PendingStream → OpenResult) (m : Manager) (p : PendingStream) :
    Manager → Prop
  | running {statuses : List QueueStatus} (hslot : m.remote.hasActiveSlot = true) (hlive : m.remote.session = true)
      (ho : openResult json opens p = .opened) :
      StartCase json opens m p { m.opened p with statuses := statuses, replies := m.replies ++ [⟨p, .running⟩] }
  | queued {m₁ : Manager} {statuses : List QueueStatus}
      (hnot : m₁ = m ∧ ¬ (m.remote.hasActiveSlot = true ∧ m.remote.session = true) ∨ Failed json opens m p m₁)
      (hroom : m.remote.pendingQueueFull = false) :
      StartCase json opens m p { m₁.setPending (m.remote.enqueue p).1.pending with
        statuses := statuses, replies := m.replies ++ [⟨p, .pending (.ofNat (m.remote.enqueue p).2)⟩] }
  | refused {m₁ : Manager} {statuses : List QueueStatus}
      (hnot : m₁ = m ∧ ¬ (m.remote.hasActiveSlot = true ∧ m.remote.session = true) ∨ Failed json opens m p m₁)
      (hfull : m.remote.pendingQueueFull = true) :
      StartCase json opens m p { m₁ with statuses := statuses, replies := m.replies ++ [⟨p, .queueFull⟩] }

theorem queueStream_cases {m₁ : Manager}
    (hnot : m₁ = m ∧ ¬ (m.remote.hasActiveSlot = true ∧ m.remote.session = true) ∨ Failed json opens m p m₁) :
    StartCase json opens m p (m₁.queueStream p) := by
  have hframe := Unopened.remote hnot
  have hsame : m₁.remote = m.remote ∧ m₁.replies = m.replies := ⟨hframe.1, hframe.2.2.1⟩
  unfold queueStream
  by_cases hfull : m₁.remote.pendingQueueFull = true
  · have heq : (m₁.reply p .queueFull).sendQueueStatus =
        { m₁ with statuses := m₁.statuses ++ [m₁.remote.queueStatus], replies := m.replies ++ [⟨p, .queueFull⟩] } := by
      rw [← hsame.2]
      rfl
    rw [if_pos hfull, heq]
    rw [hsame.1] at hfull
    exact .refused hnot hfull
  · have heq : ({ m₁ with remote := (m₁.remote.enqueue p).1 }.reply p (.pending (.ofNat (m₁.remote.enqueue p).2))).sendQueueStatus =
        { m₁.setPending (m.remote.enqueue p).1.pending with
          statuses := m₁.statuses ++ [(m₁.remote.enqueue p).1.queueStatus]
          replies := m.replies ++ [⟨p, .pending (.ofNat (m.remote.enqueue p).2)⟩] } := by
      rw [← hsame.1, ← hsame.2]
      rfl
    rw [if_neg hfull]
    rw [hsame.1] at hfull
    dsimp only
    rw [heq]
    exact .queued hnot (by simpa using hfull)

theorem onStreamStart_cases (json : SerdeJson StreamHeader) (opens : PendingStream → OpenResult) (m : Manager)
    (p : PendingStream) : StartCase json opens m p (onStreamStart json opens m p) := by
  unfold onStreamStart
  by_cases hslot : m.remote.hasActiveSlot = true ∧ m.remote.session = true
  · rw [if_pos hslot]
    rcases openStreamOnSession_cases json opens m p with ⟨ho, m₁, hopen, _, hin⟩ | ⟨m₁, hopen, hfail⟩
    · rw [hopen]
      dsimp only
      rw [hin]
      exact .running hslot.1 hslot.2 ho
    · rw [hopen]
      exact queueStream_cases (.inr hfail)
  · rw [if_neg hslot]
    exact queueStream_cases (.inl ⟨rfl, hslot⟩)

/-! ## `promote_pending` -/

inductive PromoteCase (json : SerdeJson StreamHeader) (opens : PendingStream → OpenResult) (m : Manager) : Manager → Prop
  | idle (h : m.remote.hasActiveSlot = false ∨ m.remote.session = false ∨ m.remote.pending = []) :
      PromoteCase json opens m m
  | promoted {p : PendingStream} {rest : List PendingStream} (hslot : m.remote.hasActiveSlot = true)
      (hlive : m.remote.session = true) (hp : m.remote.pending = p :: rest) (ho : openResult json opens p = .opened) :
      PromoteCase json opens m ((m.opened p).setPending rest)
  | failed {m₁ : Manager} {p : PendingStream} {rest : List PendingStream} (hp : m.remote.pending = p :: rest)
      (hf : Failed json opens m p m₁) : PromoteCase json opens m m₁

theorem promotePending_cases (json : SerdeJson StreamHeader) (opens : PendingStream → OpenResult) (m : Manager) :
    PromoteCase json opens m (promotePending json opens m) := by
  unfold promotePending
  by_cases hslot : m.remote.hasActiveSlot = true ∧ m.remote.session = true
  · rw [if_pos hslot]
    split
    · exact .idle (.inr (.inr ‹_›))
    · rename_i p rest hp
      rcases openStreamOnSession_cases json opens m p with ⟨ho, m₁, hopen, hin, _⟩ | ⟨m₁, hopen, hfail⟩
      · rw [hopen]
        dsimp only
        rw [hin]
        exact .promoted hslot.1 hslot.2 hp ho
      · rw [hopen]
        exact .failed hp hfail
  · rw [if_neg hslot]
    refine .idle ?_
    by_cases h : m.remote.hasActiveSlot = true
    · exact .inr (.inl (by simpa [h] using hslot))
    · exact .inl (by simpa using h)

/-! ## `drain_pending` -/

/-- The loop over the queue: what it leaves of it, and the uplinks it opens. -/
inductive Drains (json : SerdeJson StreamHeader) (opens : PendingStream → OpenResult) :
    List PendingStream → Manager → List PendingStream → Manager → Prop
  | nil {m : Manager} : Drains json opens [] m [] m
  | full {ps : List PendingStream} {m : Manager} (hslot : m.remote.hasActiveSlot = false) : Drains json opens ps m ps m
  | opened {p : PendingStream} {ps kept : List PendingStream} {m m' : Manager} (hslot : m.remote.hasActiveSlot = true)
      (ho : openResult json opens p = .opened) (h : Drains json opens ps (m.opened p) kept m') :
      Drains json opens (p :: ps) m kept m'
  | failed {p : PendingStream} {ps kept : List PendingStream} {m m₁ m' : Manager} (hf : Failed json opens m p m₁)
      (h : Drains json opens ps m₁ kept m') : Drains json opens (p :: ps) m (p :: kept) m'

/-- The streams that the loop tries to open, in order. -/
def drainTries (json : SerdeJson StreamHeader) (opens : PendingStream → OpenResult) :
    List PendingStream → Manager → List PendingStream
  | [], _ => []
  | p :: ps, m =>
    if m.remote.hasActiveSlot then
      match openStreamOnSession json opens m p with
      | (m, true) => p :: drainTries json opens ps (m.insertUplink p)
      | (m, false) => p :: drainTries json opens ps m
    else []

/-- `Drains`, with the streams that were tried. -/
inductive Tried (json : SerdeJson StreamHeader) (opens : PendingStream → OpenResult) :
    List PendingStream → Manager → List PendingStream → List PendingStream → Manager → Prop
  | nil {m : Manager} : Tried json opens [] m [] [] m
  | full {ps : List PendingStream} {m : Manager} (hslot : m.remote.hasActiveSlot = false) : Tried json opens ps m ps [] m
  | opened {p : PendingStream} {ps kept tried : List PendingStream} {m m' : Manager}
      (hslot : m.remote.hasActiveSlot = true) (ho : openResult json opens p = .opened)
      (h : Tried json opens ps (m.opened p) kept tried m') : Tried json opens (p :: ps) m kept (p :: tried) m'
  | failed {p : PendingStream} {ps kept tried : List PendingStream} {m m₁ m' : Manager}
      (hf : Failed json opens m p m₁) (h : Tried json opens ps m₁ kept tried m') :
      Tried json opens (p :: ps) m (p :: kept) (p :: tried) m'

theorem Tried.drains {ps kept tried : List PendingStream} (h : Tried json opens ps m kept tried m') :
    Drains json opens ps m kept m' := by
  induction h with
  | nil => exact .nil
  | full hslot => exact .full hslot
  | opened hslot ho _ ih => exact .opened hslot ho ih
  | failed hf _ ih => exact .failed hf ih

/-- What the loop gathers is what has to go: removing it from the back leaves the rest of
    the queue as it was. -/
theorem drainLoop_tried (json : SerdeJson StreamHeader) (opens : PendingStream → OpenResult) (ps : List PendingStream) :
    ∀ (i : Nat) (m : Manager), ∃ kept,
      Tried json opens ps m kept (drainTries json opens ps m) (drainLoop json opens i ps m).1 ∧
        ∀ l : List PendingStream, l.length = i →
          (drainLoop json opens i ps m).2.reverse.foldl List.eraseIdx (l ++ ps) = l ++ kept := by
  induction ps with
  | nil => exact fun i m => ⟨[], .nil, fun l _ => rfl⟩
  | cons p ps ih =>
    intro i m
    unfold drainLoop drainTries
    by_cases hslot : m.remote.hasActiveSlot = true
    · rw [if_pos hslot, if_pos hslot]
      rcases openStreamOnSession_cases json opens m p with ⟨ho, m₁, hopen, hin, _⟩ | ⟨m₁, hopen, hfail⟩
      · rw [hopen]
        dsimp only
        rw [hin]
        obtain ⟨kept, htried, herase⟩ := ih (i + 1) (m.opened p)
        refine ⟨kept, .opened hslot ho htried, fun l hl => ?_⟩
        have := herase (l ++ [p]) (by simp [hl])
        rw [List.append_assoc, List.singleton_append] at this
        simp only [List.reverse_cons, List.foldl_append, this, List.foldl_cons, List.foldl_nil]
        rw [List.append_assoc, List.eraseIdx_append_of_length_le (by omega), hl, Nat.sub_self]
        rfl
      · rw [hopen]
        dsimp only
        obtain ⟨kept, htried, herase⟩ := ih (i + 1) m₁
        refine ⟨p :: kept, .failed hfail htried, fun l hl => ?_⟩
        have := herase (l ++ [p]) (by simp [hl])
        simpa [List.append_assoc] using this
    · rw [if_neg hslot, if_neg hslot]
      exact ⟨p :: ps, .full (by simpa using hslot), fun l _ => rfl⟩

theorem Drains.pending {ps kept : List PendingStream} (h : Drains json opens ps m kept m') :
    m'.remote.pending = m.remote.pending := by
  induction h with
  | nil => rfl
  | full => rfl
  | opened _ _ _ ih => exact ih
  | failed hf _ ih => rw [ih, hf.remote.1]

theorem drainPending_tried (json : SerdeJson StreamHeader) (opens : PendingStream → OpenResult) (m : Manager)
    (hlive : m.remote.session = true) :
    ∃ kept m', Tried json opens m.remote.pending m kept (drainTries json opens m.remote.pending m) m' ∧
      drainPending json opens m = m'.setPending kept := by
  obtain ⟨kept, htried, herase⟩ := drainLoop_tried json opens m.remote.pending 0 m
  refine ⟨kept, _, htried, ?_⟩
  unfold drainPending
  rw [if_pos hlive]
  have := herase [] rfl
  rw [List.nil_append, List.nil_append] at this
  simp only [setPending, htried.drains.pending, this]

theorem drainPending_drains (json : SerdeJson StreamHeader) (opens : PendingStream → OpenResult) (m : Manager)
    (hlive : m.remote.session = true) :
    ∃ kept m', Drains json opens m.remote.pending m kept m' ∧ drainPending json opens m = m'.setPending kept := by
  obtain ⟨kept, m', htried, heq⟩ := drainPending_tried json opens m hlive
  exact ⟨kept, m', htried.drains, heq⟩

/-- An invariant of the queue and the rest that every move keeps, the loop keeps. -/
theorem Drains.invariant {I : List PendingStream → Manager → Prop}
    (hopen : ∀ {l ps : List PendingStream} {p : PendingStream} {m : Manager}, m.remote.hasActiveSlot = true →
      openResult json opens p = .opened → I (l ++ p :: ps) m → I (l ++ ps) (m.opened p))
    (hfail : ∀ {q : List PendingStream} {p : PendingStream} {m m₁ : Manager}, p ∈ q → Failed json opens m p m₁ → I q m →
      I q m₁)
    {ps kept : List PendingStream} (h : Drains json opens ps m kept m') :
    ∀ l, I (l ++ ps) m → I (l ++ kept) m' := by
  induction h with
  | nil => exact fun l hi => hi
  | full => exact fun l hi => hi
  | opened hslot ho _ ih => exact fun l hi => ih l (hopen hslot ho hi)
  | @failed p ps kept m m₁ m' hf _ ih =>
    intro l hi
    have := ih (l ++ [p]) (by simpa using hfail (by simp) hf hi)
    simpa using this

/-! ## `restore_active` -/

theorem foldl_keeps {σ α : Type} {P : σ → Prop} {f : σ → α → σ} (h : ∀ s a, P s → P (f s a)) (l : List α) :
    ∀ s, P s → P (l.foldl f s) := by
  induction l with
  | nil => exact fun s hs => hs
  | cons a l ih => exact fun s hs => ih (f s a) (h s a hs)

/-- What each handle's turn keeps, `restore_active` keeps. -/
theorem restoreActive_keeps {P : Manager → Prop} {restores : Nat → Bool}
    (hremove : ∀ {m : Manager} {uuid : Uuid} {n : Nat}, P m → m.remote.activeUplinks.lookup uuid = some n →
      m.isGone n = true ∨ (restores n = true ∧ m.channelFull n = true) → P (m.removeUplink uuid))
    (hgive : ∀ {m : Manager} {n : Nat}, P m → P (m.updateTask n fun t => { t with streams := t.streams + 1 }))
    (h : P m) : P (m.restoreActive restores) := by
  unfold restoreActive
  refine foldl_keeps (fun m uuid hm => ?_) _ _ (foldl_keeps (fun m uuid hm => ?_) _ _ h)
  · unfold pruneOne
    cases hl : m.remote.activeUplinks.lookup uuid with
    | none => exact hm
    | some n =>
      dsimp only
      split
      · exact hremove hm hl (.inl ‹_›)
      · exact hm
  · unfold restoreOne
    cases hl : m.remote.activeUplinks.lookup uuid with
    | none => exact hm
    | some n =>
      dsimp only
      by_cases hr : restores n = true
      · rw [if_pos hr]
        split
        · rename_i hor
          exact hremove hm hl (hor.imp_right fun hfull => ⟨hr, hfull⟩)
        · exact hgive hm
      · rw [if_neg hr]
        exact hm

theorem pending_restoreActive (m : Manager) (restores : Nat → Bool) :
    (m.restoreActive restores).remote.pending = m.remote.pending :=
  restoreActive_keeps (P := fun m' => m'.remote.pending = m.remote.pending) (fun h _ _ => h) (fun h => h) rfl

theorem session_restoreActive (m : Manager) (restores : Nat → Bool) :
    (m.restoreActive restores).remote.session = m.remote.session :=
  restoreActive_keeps (P := fun m' => m'.remote.session = m.remote.session) (fun hm _ _ => hm) (fun hm => hm) rfl

/-! ## Tasks -/

theorem map_updateTask (m : Manager) (n : Nat) {f : Uplink → Uplink} {α : Type} {g : Uplink → α} (hg : ∀ t, g (f t) = g t) :
    (m.updateTask n f).tasks.map g = m.tasks.map g := by
  unfold updateTask
  rw [List.map_map]
  refine List.map_congr_left fun t _ => ?_
  show g (if t.number = n then f t else t) = g t
  split
  · exact hg t
  · rfl

theorem taskStep_cases {n : Nat} {pc : TaskPc} {next : Uplink → Manager} (h : m.taskStep n pc next = some m') :
    ∃ t ∈ m.tasks, t.number = n ∧ t.pc = pc ∧ m' = next t := by
  obtain ⟨t, ht, rfl⟩ := Option.map_eq_some_iff.mp h
  have hmem := List.mem_of_find?_eq_some ht
  have hpred := List.find?_some ht
  simp only [Bool.and_eq_true, beq_iff_eq] at hpred
  exact ⟨t, hmem, hpred.1, hpred.2, rfl⟩

end Quelay.Agent.SessionManager.Manager
