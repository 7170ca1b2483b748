/-
  Quelay.Domain.Scheduler — `DrrScheduler` (`quelay-domain/src/scheduler.rs`) and the
  `Priority` it orders streams by (`quelay-domain/src/priority.rs`).

  Three tables: `streams` (the `HashMap` of entries), `c2iQueue` (strict streams,
  priority at least 64, highest first) and `bulkOrder` (the round-robin deque of the
  others). Byte counts are naturals; the one machine addition that can leave its type
  is `entry.deficit += entry.quantum` on `u32`, whose overflow is the error
  `deficitOverflow` (the panic of a debug build). `schedule` changes the scheduler
  also when it fails, so it returns the scheduler beside its result.

  `bulk_allocs` is a `HashMap`, and `result.extend(bulk_allocs)` lists it in the map's
  own order: a `HashOrder` is any such order.
-/

import Mathlib.Algebra.GroupWithZero.Nat
import Mathlib.Order.Lattice
import Mathlib.Data.List.Perm.Basic
import Mathlib.Logic.Function.Basic

namespace Quelay.Domain

structure Uuid where
  bits : BitVec 128
  deriving DecidableEq, Repr

/-! ## Priority -/

structure Priority where
  value : Int8
  deriving DecidableEq, Repr

namespace Priority

instance : LinearOrder Priority :=
  LinearOrder.lift' (fun p : Priority => p.value.toInt) fun ⟨_⟩ ⟨_⟩ h => congrArg _ (Int8.toInt_inj.mp h)

def fromI8 (value : Int8) : Priority := ⟨value⟩

def isStrict (p : Priority) : Bool := 64 ≤ p.value.toInt

def initialQuantum (p : Priority) : Nat := if p.isStrict then 65536 else 8192

def c2iPriorityMin : Priority := ⟨64⟩

def bulkPriorityMin : Priority := ⟨0⟩

end Priority

/-! ## The scheduler's tables -/

def bulkQuantumBytes : Nat := 4 * 1024

structure StreamEntry where
  priority : Priority
  deficit : Nat
  quantum : Nat
  backlog : Nat
  deriving DecidableEq, Repr

structure DrrScheduler where
  streams : Uuid → Option StreamEntry
  bulkOrder : List Uuid
  c2iQueue : List Uuid

/-- The errors `schedule` ends with: `QueLayError::StreamNotFound`, or the panic of the
    deficit's `u32` addition. -/
inductive SchedError where
  | streamNotFound (id : Uuid)
  | deficitOverflow (id : Uuid)
  deriving DecidableEq, Repr

/-- The order in which a `HashMap` lists its entries: some permutation of them. -/
structure HashOrder where
  list : List (Uuid × Nat) → List (Uuid × Nat)
  perm : ∀ l, (list l).Perm l

/-- The map listed in the order its keys were inserted. -/
def HashOrder.inserted : HashOrder := ⟨id, fun l => List.Perm.refl l⟩

namespace DrrScheduler

def new : DrrScheduler := ⟨fun _ => none, [], []⟩

/-- Change the entry of `id`, if it has one (`if let Some(entry) = get_mut(&id)`). -/
def modify (s : DrrScheduler) (id : Uuid) (f : StreamEntry → StreamEntry) : DrrScheduler :=
  { s with streams := Function.update s.streams id ((s.streams id).map f) }

def rebalance (s : DrrScheduler) : DrrScheduler :=
  { s with streams := fun id =>
      if id ∈ s.bulkOrder then (s.streams id).map fun e => { e with quantum := bulkQuantumBytes } else s.streams id }

/-- The priority the strict queue is ordered by; an id without an entry counts as 0. -/
def queuedPriority (streams : Uuid → Option StreamEntry) (id : Uuid) : Priority :=
  ((streams id).map (·.priority)).getD (Priority.fromI8 0)

def register (s : DrrScheduler) (id : Uuid) (p : Priority) : DrrScheduler :=
  let streams := Function.update s.streams id (some ⟨p, 0, p.initialQuantum, 0⟩)
  if p.isStrict then
    let insertAt := s.c2iQueue.findIdx fun other => decide (queuedPriority streams other < p)
    { s with streams := streams, c2iQueue := s.c2iQueue.insertIdx insertAt id }
  else rebalance { s with streams := streams, bulkOrder := s.bulkOrder ++ [id] }

def deregister (s : DrrScheduler) (id : Uuid) : DrrScheduler :=
  match s.streams id with
  | none => s
  | some entry =>
    let streams := Function.update s.streams id none
    if entry.priority.isStrict then { s with streams := streams, c2iQueue := s.c2iQueue.filter (· != id) }
    else rebalance { s with streams := streams, bulkOrder := s.bulkOrder.filter (· != id) }

def setQuantum (s : DrrScheduler) (id : Uuid) (quantum : Nat) : DrrScheduler :=
  s.modify id fun e => { e with quantum := quantum }

def setBacklog (s : DrrScheduler) (id : Uuid) (backlog : Nat) : DrrScheduler :=
  s.modify id fun e => { e with backlog := backlog }

/-! ## One call of `schedule` -/

/-- The strict phase: each queued stream in turn gets what budget, backlog and quantum
    allow. -/
def strictPhase (streams : Uuid → Option StreamEntry) :
    List Uuid → Nat → List (Uuid × Nat) → Except SchedError (Nat × List (Uuid × Nat))
  | [], budget, result => .ok (budget, result)
  | id :: ids, budget, result =>
    if budget = 0 then .ok (budget, result)
    else match streams id with
      | none => .error (.streamNotFound id)
      | some entry =>
        let send := min (min budget entry.backlog) entry.quantum
        if 0 < send then strictPhase streams ids (budget - send) (result ++ [(id, send)])
        else strictPhase streams ids budget result

/-- `*bulk_allocs.entry(id).or_insert(0) += send`. -/
def addAlloc : List (Uuid × Nat) → Uuid → Nat → List (Uuid × Nat)
  | [], id, send => [(id, send)]
  | (i, n) :: rest, id, send => if i = id then (i, n + send) :: rest else (i, n) :: addAlloc rest id send

/-- What the two bulk loops carry from turn to turn. -/
structure Bulk where
  sched : DrrScheduler
  budget : Nat
  allocs : List (Uuid × Nat)

/-- The scheduler after a turn of `id`: its deficit stored, the deque rotated. -/
def afterTurn (s : DrrScheduler) (id : Uuid) (rest : List Uuid) (entry : StreamEntry) (deficit : Nat) : DrrScheduler :=
  { s with
    streams := Function.update s.streams id (some { entry with deficit := deficit })
    bulkOrder := rest ++ [id] }

/-- What a turn sends, once the quantum has been added to the deficit. -/
def turnSend (budget : Nat) (entry : StreamEntry) : Nat :=
  min (min budget (entry.deficit + entry.quantum)) entry.backlog

/-- One turn of the stream at the front of `bulk_order`: whether it sent, and the state
    after it. A failed turn changes nothing. -/
def turn (b : Bulk) : Except SchedError (Bool × Bulk) :=
  match b.sched.bulkOrder with
  | [] => .ok (false, b)
  | id :: rest =>
    match b.sched.streams id with
    | none => .error (.streamNotFound id)
    | some entry =>
      if 2 ^ 32 ≤ entry.deficit + entry.quantum then .error (.deficitOverflow id)
      else if 0 < turnSend b.budget entry then
        .ok (true, ⟨b.sched.afterTurn id rest entry (entry.deficit + entry.quantum - turnSend b.budget entry),
          b.budget - turnSend b.budget entry, addAlloc b.allocs id (turnSend b.budget entry)⟩)
      -- Idle: the deficit does not accumulate.
      else .ok (false, { b with sched := b.sched.afterTurn id rest entry 0 })

/-- Phase 1: one turn for every bulk stream, while budget remains. -/
def mandatoryRound : Nat → Bulk → Bulk × Except SchedError Unit
  | 0, b => (b, .ok ())
  | n + 1, b =>
    if b.budget = 0 then (b, .ok ())
    else match turn b with
      | .error e => (b, .error e)
      | .ok (_, b') => mandatoryRound n b'

/-- Everything a turn can do. -/
theorem turn_cases {b b' : Bulk} {sent : Bool} (h : turn b = .ok (sent, b')) :
    (b.sched.bulkOrder = [] ∧ sent = false ∧ b' = b) ∨
    ∃ id rest entry, b.sched.bulkOrder = id :: rest ∧ b.sched.streams id = some entry ∧
      entry.deficit + entry.quantum < 2 ^ 32 ∧
      ((sent = true ∧ 0 < turnSend b.budget entry ∧
          b' = ⟨b.sched.afterTurn id rest entry (entry.deficit + entry.quantum - turnSend b.budget entry),
            b.budget - turnSend b.budget entry, addAlloc b.allocs id (turnSend b.budget entry)⟩) ∨
        (sent = false ∧ turnSend b.budget entry = 0 ∧ b' = { b with sched := b.sched.afterTurn id rest entry 0 })) := by
  unfold turn at h
  split at h
  · rename_i ho
    simp only [Except.ok.injEq, Prod.mk.injEq] at h
    exact .inl ⟨ho, h.1.symm, h.2.symm⟩
  · rename_i id rest ho
    split at h
    · cases h
    · rename_i entry he
      refine .inr ⟨id, rest, entry, ho, he, ?_⟩
      split at h
      · cases h
      · rename_i hd
        refine ⟨by omega, ?_⟩
        split at h
        · rename_i hp
          simp only [Except.ok.injEq, Prod.mk.injEq] at h
          exact .inl ⟨h.1.symm, hp, h.2.symm⟩
        · rename_i hp
          simp only [Except.ok.injEq, Prod.mk.injEq] at h
          exact .inr ⟨h.1.symm, by omega, h.2.symm⟩

theorem turn_budget {b b' : Bulk} {sent : Bool} (h : turn b = .ok (sent, b')) :
    (sent = true → b'.budget < b.budget) ∧ (sent = false → b'.budget = b.budget) := by
  rcases turn_cases h with ⟨_, rfl, rfl⟩ | ⟨id, rest, e, _, _, _, ⟨rfl, hp, rfl⟩ | ⟨rfl, _, rfl⟩⟩
  · simp
  · have : turnSend b.budget e ≤ b.budget := by unfold turnSend; omega
    simp only [forall_const, reduceCtorEq, false_imp_iff, and_true]
    omega
  · simp

/-- Phase 2: further turns until the budget is spent or `n` turns in a row sent
    nothing. A turn that sends spends budget, one that does not is counted, so the loop
    ends. -/
def extraTurns (n idle : Nat) (b : Bulk) : Bulk × Except SchedError Unit :=
  if 0 < b.budget ∧ idle < n then
    match h : turn b with
    | .error e => (b, .error e)
    | .ok (true, b') => extraTurns n 0 b'
    | .ok (false, b') => extraTurns n (idle + 1) b'
  else (b, .ok ())
termination_by b.budget * (n + 1) + (n - idle)
decreasing_by
  · have hlt := (turn_budget h).1 rfl
    have : (b'.budget + 1) * (n + 1) ≤ b.budget * (n + 1) := Nat.mul_le_mul_right _ hlt
    rw [Nat.add_mul] at this
    omega
  · have heq := (turn_budget h).2 rfl
    rw [heq]
    omega

def schedule (s : DrrScheduler) (budget : Nat) (order : HashOrder) :
    DrrScheduler × Except SchedError (List (Uuid × Nat)) :=
  match strictPhase s.streams s.c2iQueue budget [] with
  | .error e => (s, .error e)
  | .ok (budget, result) =>
    let n := s.bulkOrder.length
    if n = 0 ∨ budget = 0 then (s, .ok result)
    else match mandatoryRound n ⟨s, budget, []⟩ with
      | (b, .error e) => (b.sched, .error e)
      | (b, .ok _) =>
        match extraTurns n 0 b with
        | (b, .error e) => (b.sched, .error e)
        | (b, .ok _) => (b.sched, .ok (result ++ order.list b.allocs))

end DrrScheduler

/-! ## Sequences of calls -/

inductive Op where
  | register (id : Uuid) (p : Priority)
  | deregister (id : Uuid)
  | setQuantum (id : Uuid) (quantum : Nat)
  | setBacklog (id : Uuid) (backlog : Nat)
  | schedule (budget : Nat) (order : HashOrder)

def DrrScheduler.apply (s : DrrScheduler) : Op → DrrScheduler
  | .register id p => s.register id p
  | .deregister id => s.deregister id
  | .setQuantum id q => s.setQuantum id q
  | .setBacklog id n => s.setBacklog id n
  | .schedule budget order => (s.schedule budget order).1

end Quelay.Domain
