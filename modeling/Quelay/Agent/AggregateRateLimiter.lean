/-
  Quelay.Agent.AggregateRateLimiter — `RateParams`, `AggregateRateLimiter` and the tick
  loop of `AggregateTimerTask` (`quelay-agent/src/rate_limiter.rs`).

  The timer task takes the `streams` lock and the `scheduler` lock in turn and holds
  neither between them, so a tick is a sequence of steps (`TickPc`) that `register`,
  `deregister` and the tasks that store `head_offset` and `q_atomic` interleave with.
  `register` and `deregister` are two steps each, one for each lock they take. What a
  pump's ticket channel answers to `try_send` is up to the pump.

  `spent` is a ghost: the ticket bytes delivered by each tick, newest first.
-/

import Quelay.Domain.SchedulerBudget
import Quelay.Lib.Machine

namespace Quelay.Agent

open Quelay.Domain Quelay.Lib

def u64Max : Nat := 2 ^ 64 - 1

def saturatingAdd (a b : Nat) : Nat := min (a + b) u64Max

/-! ## Parameters -/

def chunksPerTick : Nat := 8

def minIntervalMs : Nat := 5

def maxIntervalMs : Nat := 100

/-- The timer parameters; `per_tick * 2` is computed in `u64` at the start of the loop. -/
structure RateParams where
  intervalMs : Nat
  budgetBytes : Nat
  carryFits : 2 * budgetBytes ≤ u64Max

/-- A `u64` product, `none` where it overflows. -/
def mulU64 (a b : Nat) : Option Nat := if a * b ≤ u64Max then some (a * b) else none

/-- `from_rate_bps`, `none` where it panics: a rate below 8 bits a second divides by
    zero, a product may overflow. -/
def RateParams.fromRateBps (rateBps chunkSize : Nat) : Option RateParams :=
  let rateBytesPerSec := rateBps / 8
  let idealBytesPerTick := chunksPerTick * chunkSize
  match mulU64 idealBytesPerTick 1000 with
  | none => none
  | some ideal =>
    if rateBytesPerSec = 0 then none
    else
      let intervalMs := max minIntervalMs (min (ideal / rateBytesPerSec) maxIntervalMs)
      match h : mulU64 rateBytesPerSec intervalMs with
      | none => none
      | some bytes => some ⟨intervalMs, bytes / 1000, by
          have : bytes ≤ u64Max := by
            unfold mulU64 at h
            split at h
            · cases h; assumption
            · cases h
          omega⟩

/-! ## State -/

/-- A registered stream: its ticket channel (each `register` makes a new one) and the
    two offsets its reader and its pump store. -/
structure Registered where
  allocTx : Nat
  headOffset : Nat
  qAtomic : Nat
  deriving DecidableEq, Repr

/-- What `try_send` on a ticket channel answers. -/
inductive SendOutcome where
  | ok
  | full
  | closed
  deriving DecidableEq, Repr

/-- A stream as the snapshot saw it: its backlog and a clone of its channel. -/
structure Sampled where
  uuid : Uuid
  backlog : Nat
  allocTx : Nat
  deriving DecidableEq, Repr

/-- Where the timer task is: between ticks, or before one of a tick's later steps. -/
inductive TickPc where
  | waiting
  | schedule (snapshot : List Sampled)
  | deliver (snapshot : List Sampled) (allocs : List (Uuid × Nat)) (delivered : Nat) (closed : List Uuid)
  | cleanStreams (closed : List Uuid)
  | cleanScheduler (closed : List Uuid)
  deriving DecidableEq, Repr

structure Limiter where
  scheduler : DrrScheduler
  streams : List (Uuid × Registered)
  channels : Nat
  availableBudget : Nat
  wireBaseline : Nat
  pc : TickPc
  spent : List Nat

def Limiter.new : Limiter := ⟨.new, [], 0, 0, 0, .waiting, []⟩

/-! ## Steps -/

inductive LimiterAct where
  | registerScheduler (uuid : Uuid) (p : Priority)
  | registerStreams (uuid : Uuid)
  | deregisterScheduler (uuid : Uuid)
  | deregisterStreams (uuid : Uuid)
  | storeOffsets (uuid : Uuid) (head q : Nat)
  | setSession (baseline : Nat)
  | tick
  | schedule (order : HashOrder)
  | deliver (answer : SendOutcome)
  | deduct (wireNow : Nat)
  | cleanStreams
  | cleanScheduler

/-- The budget a tick starts from: one interval more, at most two. -/
def accumulate (perTick available : Nat) : Nat := min (saturatingAdd available perTick) (perTick * 2)

def snapshot (streams : List (Uuid × Registered)) : List Sampled :=
  streams.map fun (uuid, e) => ⟨uuid, e.headOffset - e.qAtomic, e.allocTx⟩

def setBacklogs (s : DrrScheduler) (snap : List Sampled) : DrrScheduler :=
  snap.foldl (fun s x => s.setBacklog x.uuid x.backlog) s

/-- The budget after the wire bytes are deducted and the undelivered bytes added back. -/
def deduct (available wireDelta delivered : Nat) : Nat :=
  saturatingAdd (available - wireDelta) (available - delivered)

/-- Add to what the newest tick has delivered. -/
def spend (bytes : Nat) : List Nat → List Nat
  | [] => []
  | n :: rest => (n + bytes) :: rest

namespace Limiter

/-- `register` without its first half: a channel of its own, both offsets at zero. -/
def insertStream (s : Limiter) (uuid : Uuid) : Limiter :=
  { s with
    streams := (uuid, ⟨s.channels, 0, 0⟩) :: s.streams.filter (·.1 != uuid)
    channels := s.channels + 1 }

def step (p : RateParams) (s : Limiter) : LimiterAct → Option Limiter
  | .registerScheduler uuid prio => some { s with scheduler := s.scheduler.register uuid prio }
  | .registerStreams uuid => some (s.insertStream uuid)
  | .deregisterScheduler uuid => some { s with scheduler := s.scheduler.deregister uuid }
  | .deregisterStreams uuid => some { s with streams := s.streams.filter (·.1 != uuid) }
  | .storeOffsets uuid head q =>
    let store (e : Registered) : Registered := { e with headOffset := head, qAtomic := q }
    some { s with streams := s.streams.map fun (id, e) => if id = uuid then (id, store e) else (id, e) }
  | .setSession baseline => some { s with wireBaseline := baseline }
  | .tick =>
    match s.pc with
    | .waiting =>
      some { s with
        availableBudget := accumulate p.budgetBytes s.availableBudget
        pc := .schedule (snapshot s.streams)
        spent := 0 :: s.spent }
    | _ => none
  | .schedule order =>
    match s.pc with
    | .schedule snap =>
      match (setBacklogs s.scheduler snap).schedule s.availableBudget order with
      -- A failed call is logged and the loop goes on to the next tick.
      | (sched, .error _) => some { s with scheduler := sched, pc := .waiting }
      | (sched, .ok allocs) => some { s with scheduler := sched, pc := .deliver snap allocs 0 [] }
    | _ => none
  | .deliver answer =>
    match s.pc with
    | .deliver snap ((uuid, bytes) :: allocs) delivered closed =>
      if bytes = 0 ∨ snap.find? (·.uuid = uuid) = none then
        some { s with pc := .deliver snap allocs delivered closed }
      else match answer with
        | .ok => some { s with
            pc := .deliver snap allocs (saturatingAdd delivered bytes) closed
            spent := spend bytes s.spent }
        | .full => some { s with pc := .deliver snap allocs delivered closed }
        | .closed => some { s with pc := .deliver snap allocs delivered (closed ++ [uuid]) }
    | _ => none
  | .deduct wireNow =>
    match s.pc with
    | .deliver _ [] delivered closed =>
      some { s with
        availableBudget := deduct s.availableBudget (wireNow - s.wireBaseline) delivered
        wireBaseline := wireNow
        pc := if closed = [] then .waiting else .cleanStreams closed }
    | _ => none
  | .cleanStreams =>
    match s.pc with
    | .cleanStreams closed =>
      some { s with streams := s.streams.filter (fun x => !closed.contains x.1), pc := .cleanScheduler closed }
    | _ => none
  | .cleanScheduler =>
    match s.pc with
    | .cleanScheduler closed =>
      some { s with scheduler := closed.foldl (·.deregister) s.scheduler, pc := .waiting }
    | _ => none

/-- Everything a step can do, one case for each outcome. -/
inductive Case (p : RateParams) (s : Limiter) : LimiterAct → Limiter → Prop
  | registerScheduler (uuid : Uuid) (prio : Priority) :
      Case p s (.registerScheduler uuid prio) { s with scheduler := s.scheduler.register uuid prio }
  | registerStreams (uuid : Uuid) : Case p s (.registerStreams uuid) (s.insertStream uuid)
  | deregisterScheduler (uuid : Uuid) :
      Case p s (.deregisterScheduler uuid) { s with scheduler := s.scheduler.deregister uuid }
  | deregisterStreams (uuid : Uuid) :
      Case p s (.deregisterStreams uuid) { s with streams := s.streams.filter (·.1 != uuid) }
  | storeOffsets (uuid : Uuid) (head q : Nat) :
      Case p s (.storeOffsets uuid head q) { s with streams := s.streams.map fun (id, e) =>
        if id = uuid then (id, { e with headOffset := head, qAtomic := q }) else (id, e) }
  | setSession (baseline : Nat) : Case p s (.setSession baseline) { s with wireBaseline := baseline }
  | tick (hpc : s.pc = .waiting) : Case p s .tick { s with
      availableBudget := accumulate p.budgetBytes s.availableBudget
      pc := .schedule (snapshot s.streams)
      spent := 0 :: s.spent }
  | scheduleError {order : HashOrder} {snap : List Sampled} {sched : DrrScheduler} {e : SchedError}
      (hpc : s.pc = .schedule snap)
      (hrun : (setBacklogs s.scheduler snap).schedule s.availableBudget order = (sched, .error e)) :
      Case p s (.schedule order) { s with scheduler := sched, pc := .waiting }
  | schedule {order : HashOrder} {snap : List Sampled} {sched : DrrScheduler} {allocs : List (Uuid × Nat)}
      (hpc : s.pc = .schedule snap)
      (hrun : (setBacklogs s.scheduler snap).schedule s.availableBudget order = (sched, .ok allocs)) :
      Case p s (.schedule order) { s with scheduler := sched, pc := .deliver snap allocs 0 [] }
  -- Nothing for the stream, or nothing known of it, or its channel is full.
  | skip {answer : SendOutcome} {snap : List Sampled} {uuid : Uuid} {bytes : Nat} {allocs : List (Uuid × Nat)}
      {delivered : Nat} {closed : List Uuid} (hpc : s.pc = .deliver snap ((uuid, bytes) :: allocs) delivered closed) :
      Case p s (.deliver answer) { s with pc := .deliver snap allocs delivered closed }
  | sent {snap : List Sampled} {uuid : Uuid} {bytes : Nat} {allocs : List (Uuid × Nat)} {delivered : Nat}
      {closed : List Uuid} (hpc : s.pc = .deliver snap ((uuid, bytes) :: allocs) delivered closed) :
      Case p s (.deliver .ok) { s with
        pc := .deliver snap allocs (saturatingAdd delivered bytes) closed
        spent := spend bytes s.spent }
  | gone {snap : List Sampled} {uuid : Uuid} {bytes : Nat} {allocs : List (Uuid × Nat)} {delivered : Nat}
      {closed : List Uuid} {x : Sampled} (hpc : s.pc = .deliver snap ((uuid, bytes) :: allocs) delivered closed)
      (hx : snap.find? (·.uuid = uuid) = some x) :
      Case p s (.deliver .closed) { s with pc := .deliver snap allocs delivered (closed ++ [uuid]) }
  | deduct (wireNow : Nat) {snap : List Sampled} {delivered : Nat} {closed : List Uuid}
      (hpc : s.pc = .deliver snap [] delivered closed) :
      Case p s (.deduct wireNow) { s with
        availableBudget := Agent.deduct s.availableBudget (wireNow - s.wireBaseline) delivered
        wireBaseline := wireNow
        pc := if closed = [] then .waiting else .cleanStreams closed }
  | cleanStreams {closed : List Uuid} (hpc : s.pc = .cleanStreams closed) : Case p s .cleanStreams
      { s with streams := s.streams.filter (fun x => !closed.contains x.1), pc := .cleanScheduler closed }
  | cleanScheduler {closed : List Uuid} (hpc : s.pc = .cleanScheduler closed) :
      Case p s .cleanScheduler { s with scheduler := closed.foldl (·.deregister) s.scheduler, pc := .waiting }

theorem step_cases {p : RateParams} {s s' : Limiter} {a : LimiterAct} (h : s.step p a = some s') : Case p s a s' := by
  cases a with
  | registerScheduler | registerStreams | deregisterScheduler | deregisterStreams | storeOffsets | setSession =>
    cases h
    constructor
  | tick =>
    simp only [step] at h
    split at h
    · cases h
      exact .tick ‹_›
    · cases h
  | schedule order =>
    simp only [step] at h
    split at h
    · rename_i hpc
      split at h
      · cases h
        exact .scheduleError hpc ‹_›
      · cases h
        exact .schedule hpc ‹_›
    · cases h
  | deliver answer =>
    simp only [step] at h
    split at h
    · rename_i hpc
      split at h
      · cases h
        exact .skip hpc
      · rename_i hfound
        cases answer with
        | ok =>
          cases h
          exact .sent hpc
        | full =>
          cases h
          exact .skip hpc
        | closed =>
          cases h
          obtain ⟨x, hx⟩ := Option.ne_none_iff_exists'.mp fun hn => hfound (.inr hn)
          exact .gone hpc hx
    · cases h
  | deduct wireNow =>
    simp only [step] at h
    split at h
    · cases h
      exact .deduct wireNow ‹_›
    · cases h
  | cleanStreams =>
    simp only [step] at h
    split at h
    · cases h
      exact .cleanStreams ‹_›
    · cases h
  | cleanScheduler =>
    simp only [step] at h
    split at h
    · cases h
      exact .cleanScheduler ‹_›
    · cases h

end Limiter

end Quelay.Agent
