/-
  Quelay.Agent.Transfer.State — one uplink and its downlink, joined by a succession of
  QUIC streams.

  Sender: `run_tcp_reader`, the uncapped forwarder or the capped timer, `StreamPump`,
  `AckTask` with its reader sub-task (`quelay-agent/src/active_stream.rs`,
  `rate_limiter.rs`), and the part of `SessionManager::run` / `restore_active` that
  gives the uplink a new stream (`session_manager.rs`). Receiver: `accept_loop`'s
  handling of the uplink's streams and `run_downlink`. A task's local state is where it
  stands between two steps; a step does what the task does between two points at which
  another task can see or change what it touches.

  Streams are numbered in the order in which they are opened; a session carries one
  stream of the uplink, so an outage cuts the newest. A stream is two queues of frames.
  The frames that a cut leaves can still be read, then the reader gets an error; a
  frame that the cut falls into is not one of them. Ghost fields are marked.
-/

import Quelay.Agent.Spool
import Quelay.Lib.Notify
import Mathlib.Logic.Function.Basic

namespace Quelay.Agent

open Quelay.Lib

def ackInterval : Nat := 64 * 1024

/-! ## Messages -/

/-- Why a stream failed: the `code` and the `reason` of `StreamFailed` (the reason up
    to the text of the operating system's error). -/
inductive Failure where
  | tcpAccept
  | tcpRead
  | tcpWrite
  | chunkGap
  | handleDropped
  | readerGone
  deriving DecidableEq, Repr

inductive FailReason where
  | senderClosed
  | linkFailed
  | unknown
  deriving DecidableEq, Repr

namespace Failure

def code : Failure → FailReason
  | .tcpAccept | .tcpWrite | .chunkGap => .unknown
  | .tcpRead => .senderClosed
  | .handleDropped | .readerGone => .linkFailed

def reason : Failure → String
  | .tcpAccept => "TCP accept failed"
  | .tcpRead => "TCP read error"
  | .tcpWrite => "TCP write error"
  | .chunkGap => "chunk offset gap — pump logic error"
  | .handleDropped => "link failed permanently"
  | .readerGone => "ack reader exited without Done"

end Failure

inductive Callback where
  | progress (bytes : Nat)
  | done (bytes : Nat)
  | failed (f : Failure)
  deriving DecidableEq, Repr

/-- `StreamDone` and `StreamFailed` end a stream, `StreamProgress` does not. -/
def Callback.terminal : Callback → Bool
  | .progress _ => false
  | _ => true

/-- Receiver to sender. -/
inductive WormholeMsg where
  | ack (bytesReceived : Nat)
  | done
  | error (f : Failure)
  deriving DecidableEq, Repr

/-- Sender to receiver: the header that opens a stream, and chunks. -/
inductive UpFrame where
  | connect
  | reconnect (replayFrom : Nat)
  | chunk (streamOffset : Nat) (payload : List UInt8)
  deriving DecidableEq, Repr

/-- One QUIC stream. `stopped`: the receiver has dropped its halves, so that writes may
    fail. Ghosts: the pump's `q` when it took the write half, and the payload bytes it
    has written since. -/
structure QStream where
  up : List UpFrame
  upFin : Bool
  down : List WormholeMsg
  downFin : Bool
  cut : Bool
  stopped : Bool
  adoptedAt : Option Nat
  sent : List UInt8
  deriving DecidableEq, Repr

namespace QStream

/-- A stream number not used yet. -/
def blank : QStream := ⟨[], false, [], false, false, false, none, []⟩

def opened (header : UpFrame) : QStream := { blank with up := [header] }

/-- The stream an uplink starts on, with the pump's `q` at zero. -/
def first : QStream := ⟨[.connect], false, [], false, false, false, some 0, []⟩

/-- A chunk is written; on a cut stream it is lost. -/
def write (q : QStream) (offset : Nat) (payload : List UInt8) : QStream :=
  { q with up := if q.cut then q.up else q.up ++ [.chunk offset payload], sent := q.sent ++ payload }

def writeMsg (q : QStream) (m : WormholeMsg) : QStream :=
  { q with down := if q.cut then q.down else q.down ++ [m] }

/-- The connection is lost: `up` and `down` frames are still delivered. -/
def cutAt (q : QStream) (up down : Nat) : QStream :=
  { q with up := q.up.take up, down := q.down.take down, cut := true }

/-- Reading the feedback fails: nothing is left, and nothing will come. -/
def downEnded (q : QStream) : Bool := q.down.isEmpty && (q.cut || q.downFin)

end QStream

/-! ## Tasks -/

/-- `run_tcp_reader`. `last` marks the store and the notification of `handle_eof`. -/
inductive ReaderPc where
  | accept
  | space
  | spacePoll
  | spaceParked
  | read
  | failed
  | store (head : Nat) (last : Bool)
  | notify (last : Bool)
  | exited
  deriving DecidableEq, Repr

/-- The two tasks that await `data_ready`. -/
inductive Waiter where
  | forwarder
  | ackTask
  deriving DecidableEq, Repr

/-- The uncapped forwarder. -/
inductive FwdPc where
  | poll
  | parked
  | check
  | send
  | exited
  deriving DecidableEq, Repr

/-- The capped timer's look at this stream: it loads `head_offset`, then `q_atomic`. -/
inductive TimerPc where
  | idle
  | head (offset : Nat)
  | sampled
  deriving DecidableEq, Repr

/-- A ticket's bytes; the forwarder's `u64::MAX` outlasts any stream. -/
inductive Budget where
  | bytes (n : Nat)
  | unlimited
  deriving DecidableEq, Repr

namespace Budget

def isZero : Budget → Bool
  | .bytes n => n == 0
  | .unlimited => false

def clip : Budget → Nat → Nat
  | .bytes n, len => min len n
  | .unlimited, len => len

def spend : Budget → Nat → Budget
  | .bytes n, len => .bytes (n - len)
  | .unlimited, _ => .unlimited

end Budget

inductive RateCmd where
  | linkDown
  | linkUp (sid : Nat)
  | finish
  deriving DecidableEq, Repr

/-- Where the pump goes after it has stored `q`. -/
inductive AfterStore where
  | drain (remaining : Budget)
  | select
  | waitUp
  deriving DecidableEq, Repr

/-- `StreamPump`: in `run`'s select, in `drain_alloc`, or in `wait_for_link_up`. -/
inductive PumpPc where
  | select
  | drain (remaining : Budget)
  | write (remaining : Budget) (chunk : List UInt8)
  | store (next : AfterStore)
  | post
  | waitUp
  | exited
  deriving DecidableEq, Repr

def AfterStore.pc : AfterStore → PumpPc
  | .drain remaining => .drain remaining
  | .select => .select
  | .waitUp => .waitUp

structure StreamPump where
  pc : PumpPc
  q : Nat
  quicTx : Nat
  finishing : Bool
  done : Bool
  deriving DecidableEq, Repr

/-- The select an `AckTask` is in or on its way to: `run_inner`'s, or the one of
    `on_stream_error`; or the end of `on_reader_gone`. -/
inductive Sel where
  | main
  | reconnect
  | gone
  deriving DecidableEq, Repr

inductive AckPc where
  | check (k : Sel)
  | finish (k : Sel)
  | poll (k : Sel)
  | parked (k : Sel)
  | space
  | linkUp (sid : Nat)
  | exited
  deriving DecidableEq, Repr

/-- The select the ack task is in. -/
def AckPc.selecting : AckPc → Option Sel
  | .poll k => some k
  | .parked k => some k
  | _ => none

inductive AckMsg where
  | ack (bytesReceived : Nat)
  | done
  | error (f : Failure)
  | streamError
  deriving DecidableEq, Repr

def WormholeMsg.toAckMsg : WormholeMsg → AckMsg
  | .ack n => .ack n
  | .done => .done
  | .error f => .error f

inductive AckReaderPc where
  | reading (sid : Nat)
  | waiting
  | exited
  deriving DecidableEq, Repr

/-- `restore_active` for this uplink. -/
inductive RestorePc where
  | idle
  | start
  | opening (replayFrom : Nat)
  | deliver (sid : Nat)
  deriving DecidableEq, Repr

/-- In `report` the task has written its last message on the stream, and is on its way to
    the callback channel. -/
inductive DownPc where
  | absent
  | spawned
  | tcpAccept (sid : Nat)
  | reading (sid : Nat)
  | waiting
  | report (sid : Nat) (c : Callback)
  | exited
  deriving DecidableEq, Repr

namespace DownPc

/-- It reads no stream any more. -/
def ended : DownPc → Bool
  | .report _ _ | .exited => true
  | _ => false

/-- Its stream is held until it has reported. -/
def reportsOn : DownPc → Nat → Bool
  | .report i _, sid => i == sid
  | _, _ => false

/-- What has been reported, and the callback that is still to come. -/
def reports : DownPc → List Callback → List Callback
  | .report _ c, callbacks => callbacks ++ [c]
  | _, callbacks => callbacks

theorem reports_of_running {pc : DownPc} (hx : pc.ended = false) (callbacks : List Callback) :
    pc.reports callbacks = callbacks := by
  cases pc with
  | report => cases hx
  | _ => rfl

theorem prefix_reports (pc : DownPc) (callbacks : List Callback) : callbacks <+: pc.reports callbacks := by
  cases pc with
  | report => exact List.prefix_append ..
  | _ => exact List.prefix_rfl

theorem mem_reports {pc : DownPc} {callbacks : List Callback} {c : Callback} (h : c ∈ callbacks) :
    c ∈ pc.reports callbacks :=
  (pc.prefix_reports callbacks).subset h

end DownPc

/-- `run_downlink`; `out` is what it has written to the receiving client. -/
structure Downlink where
  pc : DownPc
  bytesWritten : Nat
  lastAcked : Nat
  out : List UInt8
  streamRx : List Nat
  handle : Bool
  deriving DecidableEq, Repr

/-! ## The system -/

def cmdSlots : Nat := 8

def ackSlots : Nat := 32

def upStreamSlots : Nat := 4

def downStreamSlots : Nat := 2

structure Transfer where
  capped : Bool
  /-- What the sending client has written, and the part the reader has not read. -/
  wrote : List UInt8
  sock : List UInt8
  closed : Bool
  /-- Ghost: the bytes pushed into the spool. -/
  pushed : List UInt8
  /-- Ghost: the reader has seen the client's clean EOF. -/
  cleanEof : Bool
  spool : SpoolBuffer
  headOffset : Nat
  qAtomic : Nat
  reader : ReaderPc
  dataReady : Notify Waiter
  spaceReady : Notify Unit
  fwd : FwdPc
  timer : TimerPc
  alloc : Option Budget
  cmds : List RateCmd
  pump : StreamPump
  ack : AckPc
  finishSent : Bool
  bytesSent : Nat
  ackReader : AckReaderPc
  ackRx : List AckMsg
  streamRx : List Nat
  handle : Bool
  /-- Ghost: the newest stream the ack task has resumed on. -/
  current : Nat
  streams : Nat → QStream
  opened : Nat
  link : Bool
  /-- `link_enable(false)` has told the uplinks and has still to close the session. -/
  closing : Bool
  restore : RestorePc
  nextAccept : Nat
  down : Downlink
  callbacks : List Callback
  downCallbacks : List Callback

namespace Transfer

/-- `spawn_uplink` on a stream whose connect header has been written. -/
def init (capped : Bool) : Transfer where
  capped := capped
  wrote := []
  sock := []
  closed := false
  pushed := []
  cleanEof := false
  spool := .new
  headOffset := 0
  qAtomic := 0
  reader := .accept
  dataReady := .empty
  spaceReady := .empty
  fwd := if capped then .exited else .poll
  timer := .idle
  alloc := none
  cmds := []
  pump := ⟨.select, 0, 0, false, false⟩
  ack := .check .main
  finishSent := false
  bytesSent := 0
  ackReader := .reading 0
  ackRx := []
  streamRx := []
  handle := true
  current := 0
  streams := Function.update (fun _ => .blank) 0 .first
  opened := 1
  link := true
  closing := false
  restore := .idle
  nextAccept := 0
  down := ⟨.absent, 0, 0, [], [], false⟩
  callbacks := []
  downCallbacks := []

def setStream (s : Transfer) (sid : Nat) (q : QStream) : Transfer :=
  { s with streams := Function.update s.streams sid q }

/-- A half of the stream is still held at the sender: neither is dropped by itself. -/
def held (s : Transfer) (sid : Nat) : Bool :=
  (s.pump.pc != .exited && s.pump.quicTx == sid) || s.cmds.contains (.linkUp sid) || s.ack == .linkUp sid ||
    s.ackReader == .reading sid || s.streamRx.contains sid || s.restore == .deliver sid

/-- The stream is held at the receiver. -/
def heldDown (s : Transfer) (sid : Nat) : Bool :=
  s.down.pc == .tcpAccept sid || s.down.pc == .reading sid || s.down.pc.reportsOn sid ||
    (s.down.pc != .exited && s.down.streamRx.contains sid)

/-- What the receiving agent has reported or is about to. -/
def downReports (s : Transfer) : List Callback := s.down.pc.reports s.downCallbacks

theorem downReports_of_running {s : Transfer} (hx : s.down.pc.ended = false) : s.downReports = s.downCallbacks :=
  DownPc.reports_of_running hx _

end Transfer

end Quelay.Agent
