/-
  Quelay.Agent.SessionManager.State — the sender's pending queue and its active uplinks
  (`quelay-agent/src/session_manager.rs`), with the uplink tasks it starts and the rate
  limiter's table (`rate_limiter.rs`).

  A command is handled under the lock of `RemoteState`, so it is one step. Each attempt
  to open a stream can fail in the ways of `OpenResult`; a header that is too long for the
  framing never gets further. An uplink's task ends in four moves: `run_inner` returns,
  the stream leaves the rate limiter's table, `StreamFinished` is sent, and the task's
  channels close. The rate limiter's timer removes by uuid the streams that it found
  closed after it took its snapshot.

  `active_uplinks` and the rate limiter's table are keyed by the client's uuid; what they
  hold is the stream's number, which stands for the handle and the table's entry of that
  stream. Numbers are ghosts: they count the `StreamStart` commands.
-/

import Quelay.Agent.Framing
import Quelay.Lib.Machine
import Quelay.Lib.StableInsert
import Quelay.Agent.Transfer.State
import Mathlib.Data.List.AList

namespace Quelay.Agent.SessionManager

open Quelay.Lib Quelay.Domain Framing

/-! ## State -/

structure DomainStreamInfo where
  sizeBytes : Option UInt64
  attrs : Finmap fun _ : String => String
  deriving DecidableEq

structure PendingStream where
  uuid : Uuid
  info : DomainStreamInfo
  priority : Priority
  /-- Ghost: the number of its `StreamStart`. -/
  number : Nat
  deriving DecidableEq

/-- A table with the client's uuid as its key. -/
abbrev ByUuid := AList fun _ : Uuid => Nat

structure RemoteState where
  session : Bool
  pending : List PendingStream
  maxConcurrent : Option Nat
  maxPending : Nat
  activeUplinks : ByUuid

/-- What an `AckTask` still has to do: its event loop, leave the rate limiter's table,
    send `StreamFinished`. -/
inductive TaskPc where
  | running
  | deregister
  | finish
  | gone
  deriving DecidableEq, Repr

/-- An uplink's task. `streams` counts the fresh streams in its channel; `pump` says that
    the pump has not exited. -/
structure Uplink where
  number : Nat
  uuid : Uuid
  pc : TaskPc
  streams : Nat
  pump : Bool
  deriving DecidableEq, Repr

inductive StreamStartStatus where
  | running
  | pending (queuePosition : Int32)
  | queueFull
  deriving DecidableEq, Repr

structure Reply where
  stream : PendingStream
  status : StreamStartStatus
  deriving DecidableEq

structure QueueStatus where
  activeCount : Int32
  maxConcurrent : Int32
  maxPending : Int32
  pending : List Uuid
  deriving DecidableEq

/-- How an attempt to open a stream ends: no stream, or no header on it; the stream is
    registered with the rate limiter, and has no listener; or all went well. -/
inductive OpenResult where
  | refused
  | registered
  | opened
  deriving DecidableEq, Repr

structure Manager where
  remote : RemoteState
  /-- The rate limiter's tables of streams. -/
  arl : ByUuid
  tasks : List Uplink
  /-- `StreamFinished` commands on their way. -/
  finished : List Uuid
  /-- The timer's snapshot of the table. -/
  snapshot : List (Uuid × Nat)
  statuses : List QueueStatus
  /-- Ghosts: the commands counted, their replies, and how attempts to open would have
      ended while the last command was handled. -/
  started : Nat
  replies : List Reply
  opens : PendingStream → OpenResult

namespace RemoteState

def enqueue (r : RemoteState) (p : PendingStream) : RemoteState × Nat :=
  let pos := r.pending.findIdx fun e => e.priority < p.priority
  ({ r with pending := r.pending.insertIdx pos p }, pos + 1)

def hasActiveSlot (r : RemoteState) : Bool :=
  match r.maxConcurrent with
  | some maxConcurrent => r.activeUplinks.keys.length < maxConcurrent
  | none => true

def pendingQueueFull (r : RemoteState) : Bool := r.maxPending ≤ r.pending.length

def queueStatus (r : RemoteState) : QueueStatus where
  activeCount := .ofNat r.activeUplinks.keys.length
  maxConcurrent := .ofNat (r.maxConcurrent.getD 0)
  maxPending := .ofNat r.maxPending
  pending := r.pending.map (·.uuid)

end RemoteState

def PendingStream.header (p : PendingStream) : StreamHeader :=
  ⟨p.uuid, p.priority.value.toUInt8, p.info.sizeBytes, p.info.attrs⟩

namespace Manager

/-- `SessionManager::new`: a limit of 0 is none. -/
def init (maxConcurrent maxPending : Nat) : Manager where
  remote := ⟨true, [], if maxConcurrent = 0 then none else some maxConcurrent, maxPending, ∅⟩
  arl := ∅
  tasks := []
  finished := []
  snapshot := []
  statuses := []
  started := 0
  replies := []
  opens := fun _ => .refused

def sendQueueStatus (m : Manager) : Manager := { m with statuses := m.statuses ++ [m.remote.queueStatus] }

def reply (m : Manager) (p : PendingStream) (status : StreamStartStatus) : Manager :=
  { m with replies := m.replies ++ [⟨p, status⟩] }

def insertUplink (m : Manager) (p : PendingStream) : Manager :=
  { m with remote := { m.remote with activeUplinks := m.remote.activeUplinks.insert p.uuid p.number } }

section

variable (json : SerdeJson StreamHeader)

/-! ## Opening a stream -/

/-- How opening this stream ends: the header decides before the listener does. -/
def openResult (opens : PendingStream → OpenResult) (p : PendingStream) : OpenResult :=
  match opens p with
  | .refused => .refused
  | r =>
    match writeConnectHeader json p.header with
    | .error _ => .refused
    | .ok _ => r

/-- `open_stream_on_session`, and whether it returned a handle. -/
def openStreamOnSession (opens : PendingStream → OpenResult) (m : Manager) (p : PendingStream) : Manager × Bool :=
  match openResult json opens p with
  | .refused => (m, false)
  | .registered => ({ m with arl := m.arl.insert p.uuid p.number }, false)
  | .opened =>
    ({ m with
      arl := m.arl.insert p.uuid p.number
      tasks := m.tasks ++ [⟨p.number, p.uuid, .running, 0, true⟩] }, true)

/-! ## Commands -/

/-- A stream that is not opened at once is queued, or refused. -/
def queueStream (m : Manager) (p : PendingStream) : Manager :=
  if m.remote.pendingQueueFull then (m.reply p .queueFull).sendQueueStatus
  else
    let (remote, position) := m.remote.enqueue p
    ({ m with remote := remote }.reply p (.pending (.ofNat position))).sendQueueStatus

def onStreamStart (opens : PendingStream → OpenResult) (m : Manager) (p : PendingStream) : Manager :=
  if m.remote.hasActiveSlot ∧ m.remote.session then
    match openStreamOnSession json opens m p with
    -- The status goes out before the handle is in.
    | (m, true) => (m.sendQueueStatus.insertUplink p).reply p .running
    | (m, false) => m.queueStream p
  else m.queueStream p

def promotePending (opens : PendingStream → OpenResult) (m : Manager) : Manager :=
  if m.remote.hasActiveSlot ∧ m.remote.session then
    match m.remote.pending with
    | [] => m
    | p :: rest =>
      match openStreamOnSession json opens m p with
      | (m, true) => { m.insertUplink p with remote := { (m.insertUplink p).remote with pending := rest } }
      | (m, false) => m
  else m

/-- The loop of `drain_pending` from index `i` on: the uplinks it opens, and the indices
    it gathers. -/
def drainLoop (opens : PendingStream → OpenResult) : Nat → List PendingStream → Manager → Manager × List Nat
  | _, [], m => (m, [])
  | i, p :: ps, m =>
    if m.remote.hasActiveSlot then
      match openStreamOnSession json opens m p with
      | (m, true) =>
        let (m, promoted) := drainLoop opens (i + 1) ps (m.insertUplink p)
        (m, i :: promoted)
      | (m, false) => drainLoop opens (i + 1) ps m
    else (m, [])

def drainPending (opens : PendingStream → OpenResult) (m : Manager) : Manager :=
  if m.remote.session then
    let (m, promoted) := drainLoop json opens 0 m.remote.pending m
    { m with remote := { m.remote with pending := promoted.reverse.foldl List.eraseIdx m.remote.pending } }
  else m

end

/-! ## Reconnection -/

def isGone (m : Manager) (number : Nat) : Bool := m.tasks.any fun t => t.number == number && t.pc == .gone

def channelFull (m : Manager) (number : Nat) : Bool :=
  m.tasks.any fun t => t.number == number && upStreamSlots ≤ t.streams

def updateTask (m : Manager) (number : Nat) (f : Uplink → Uplink) : Manager :=
  { m with tasks := m.tasks.map fun t => if t.number = number then f t else t }

def removeUplink (m : Manager) (uuid : Uuid) : Manager :=
  { m with remote := { m.remote with activeUplinks := m.remote.activeUplinks.erase uuid } }

/-- One turn of `restore_active`'s loop; `restores` says whether a stream and its header
    went through. A closed or full channel costs the uplink its handle. -/
def restoreOne (restores : Nat → Bool) (m : Manager) (uuid : Uuid) : Manager :=
  match m.remote.activeUplinks.lookup uuid with
  | none => m
  | some number =>
    if restores number then
      if m.isGone number ∨ m.channelFull number then m.removeUplink uuid
      else m.updateTask number fun t => { t with streams := t.streams + 1 }
    else m

/-- The handles of tasks that are gone are dropped. -/
def pruneOne (m : Manager) (uuid : Uuid) : Manager :=
  match m.remote.activeUplinks.lookup uuid with
  | none => m
  | some number => if m.isGone number then m.removeUplink uuid else m

def restoreActive (restores : Nat → Bool) (m : Manager) : Manager :=
  let m := m.remote.activeUplinks.keys.foldl (restoreOne restores) m
  m.remote.activeUplinks.keys.foldl pruneOne m

/-! ## Steps -/

end Manager

inductive Act where
  | streamStart (uuid : Uuid) (info : DomainStreamInfo) (priority : Priority) (opens : PendingStream → OpenResult)
  | streamFinished (uuid : Uuid) (opens : PendingStream → OpenResult)
  | setMaxConcurrent (limit : Option Nat) (opens : PendingStream → OpenResult)
  | linkFailed
  | reconnect (restores : Nat → Bool) (opens : PendingStream → OpenResult)
  | pumpExits (number : Nat)
  | takeStream (number : Nat)
  | ends (number : Nat)
  | deregister (number : Nat)
  | finish (number : Nat)
  | timerSnapshot
  | timerRemove (uuids : List Uuid)

namespace Manager

variable (json : SerdeJson StreamHeader)

/-- The stream of the next `StreamStart`. -/
def newStream (m : Manager) (uuid : Uuid) (info : DomainStreamInfo) (priority : Priority) : PendingStream :=
  ⟨uuid, info, priority, m.started⟩

/-- A step that only a task at `pc` can take. -/
def taskStep (m : Manager) (number : Nat) (pc : TaskPc) (next : Uplink → Manager) : Option Manager :=
  (m.tasks.find? fun t => t.number == number && t.pc == pc).map next

/-- The timer found the stream's ticket channel closed. -/
def foundClosed (m : Manager) (uuid : Uuid) : Bool :=
  m.snapshot.any fun e => e.1 == uuid && m.tasks.any fun t => t.number == e.2 && !t.pump

def step (m : Manager) : Act → Option Manager
  | .streamStart uuid info priority opens =>
    let p := m.newStream uuid info priority
    some (onStreamStart json opens { m with started := m.started + 1, opens := opens } p)
  | .streamFinished uuid opens =>
    let m := { m with finished := m.finished.erase uuid, opens := opens }
    some (promotePending json opens (m.removeUplink uuid)).sendQueueStatus
  | .setMaxConcurrent limit opens =>
    let m := { m with remote := { m.remote with maxConcurrent := limit }, opens := opens }
    some (promotePending json opens m).sendQueueStatus
  | .linkFailed => some { m with remote := { m.remote with session := false } }
  | .reconnect restores opens =>
    if m.remote.session then none
    else
      let m := { m with remote := { m.remote with session := true }, opens := opens }
      some (drainPending json opens (m.restoreActive restores))
  | .pumpExits number => some (m.updateTask number fun t => { t with pump := false })
  | .takeStream number => some (m.updateTask number fun t => { t with streams := t.streams - 1 })
  | .ends number => m.taskStep number .running fun _ => m.updateTask number fun t => { t with pc := .deregister }
  | .deregister number =>
    m.taskStep number .deregister fun t =>
      { m.updateTask number fun t => { t with pc := .finish } with arl := m.arl.erase t.uuid }
  | .finish number =>
    m.taskStep number .finish fun t =>
      { m.updateTask number fun t => { t with pc := .gone, pump := false } with finished := m.finished ++ [t.uuid] }
  | .timerSnapshot => some { m with snapshot := m.arl.entries.map fun e => (e.1, e.2) }
  | .timerRemove uuids =>
    if uuids.all m.foundClosed then
      some { m with arl := uuids.foldl (fun arl uuid => arl.erase uuid) m.arl, snapshot := [] }
    else none

end Manager

end Quelay.Agent.SessionManager
