/-
  Quelay.Agent.Transfer.Wire — the transfer over byte streams.

  `Step` has queues of frames. Here a stream is two strings of bytes: the pump writes what
  `encode_chunk` returns, `accept_loop`, `run_downlink` and the ack reader get what
  `read_stream_open`, `read_chunk` and `read_wormhole_msg` make of the bytes that are
  there, and an outage cuts both strings at any byte. A read that lacks bytes waits, until
  the stream has ended; every other error is one at once.

  The tasks are the same: a step of a task finds the frame it has read in the queue of its
  stream, and what it leaves in a queue goes out as bytes.
-/

import Quelay.Agent.Transfer.Life
import Quelay.Agent.Framing
import Quelay.Lib.Frames

namespace Quelay.Agent

open Quelay.Lib

/-- The values of the Thrift enumeration. -/
def FailReason.value : FailReason → UInt32
  | .senderClosed => 0
  | .linkFailed => 1
  | .unknown => 99

namespace Failure

/-- The reason in a wormhole message, up to the offsets and the system's text in it. Only
    the first three are ever sent. -/
def sent : Failure → String
  | .tcpAccept => "TCP accept failed"
  | .chunkGap => "chunk gap"
  | .tcpWrite => "TCP write error"
  | f => f.reason

def ofSent (reason : String) : Option Failure :=
  [tcpAccept, chunkGap, tcpWrite, tcpRead, handleDropped, readerGone].find? fun f => f.sent = reason

theorem ofSent_sent (f : Failure) : ofSent f.sent = some f := by
  cases f <;> decide

end Failure

def WormholeMsg.toWire : WormholeMsg → Framing.WormholeMsg
  | .ack n => .ack (UInt64.ofNat n)
  | .done => .done
  | .error f => .error f.code.value f.sent

def WormholeMsg.ofWire : Framing.WormholeMsg → Option WormholeMsg
  | .ack n => some (.ack n.toNat)
  | .done => some .done
  | .error _ reason => (Failure.ofSent reason).map .error

/-! ## Frames as bytes -/

/-- The uplink's header, and `serde_json` at the three types that are sent. -/
structure Codec where
  connectJson : Framing.SerdeJson Framing.StreamHeader
  reconnectJson : Framing.SerdeJson Framing.ReconnectHeader
  wormholeJson : Framing.SerdeJson Framing.WormholeMsg
  header : Framing.StreamHeader

namespace Codec

variable (c : Codec)

def reconnectHeader (replayFrom : Nat) : Framing.ReconnectHeader := ⟨c.header.uuid, UInt64.ofNat replayFrom⟩

/-- What a successful write puts on the stream. -/
def bytesOf (written : Except Framing.QueLayError (List UInt8)) : List UInt8 := written.toOption.getD []

def upBytes : UpFrame → List UInt8
  | .connect => bytesOf (Framing.writeConnectHeader c.connectJson c.header)
  | .reconnect replayFrom => bytesOf (Framing.writeReconnectHeader c.reconnectJson (c.reconnectHeader replayFrom))
  | .chunk offset payload => Framing.encodeChunk (UInt64.ofNat offset) payload

def downBytes (m : WormholeMsg) : List UInt8 := bytesOf (Framing.writeWormholeMsg c.wormholeJson m.toWire)

/-- The header at the front of a stream of this uplink. -/
def readOpen (bs : List UInt8) : Except Framing.QueLayError (UpFrame × List UInt8) :=
  match Framing.readStreamOpen c.connectJson c.reconnectJson bs with
  | .ok (.new _, rest) => .ok (.connect, rest)
  | .ok (.reconnect header, rest) => .ok (.reconnect header.replayFrom.toNat, rest)
  | .error e => .error e

def readMsg (bs : List UInt8) : Except Framing.QueLayError (Framing.WormholeMsg × List UInt8) :=
  Framing.readWormholeMsg c.wormholeJson bs

end Codec

/-- The errors of a framed read that only say that bytes are missing. -/
def framedLacks (kind : String) : List Framing.QueLayError :=
  [.transport s!"{kind} read fixed header: {Framing.earlyEof}", .transport s!"{kind} read payload: {Framing.earlyEof}"]

def chunkLacks : List Framing.QueLayError :=
  [.transport s!"chunk read header[1..]: {Framing.earlyEof}", .transport s!"chunk read payload: {Framing.earlyEof}"]

/-- The read returns an error: it is not waiting for bytes that may still come. -/
def broken {α : Type} (lacks : List Framing.QueLayError) (ended : Bool) : Except Framing.QueLayError α → Bool
  | .ok _ => false
  | .error e => ended || decide (e ∉ lacks)

/-! ## The system -/

def QStream.bare (q : QStream) : QStream := { q with up := [], down := [] }

/-- The tasks, with empty queues, and the bytes of every stream. -/
structure Wired where
  core : Transfer
  up : Nat → List UInt8
  down : Nat → List UInt8

namespace Transfer

def bare (s : Transfer) : Transfer := { s with streams := fun sid => (s.streams sid).bare }

/-- The frame that was read is in the queue. -/
def loadUp (s : Transfer) (sid : Nat) (f : UpFrame) : Transfer := s.setStream sid { s.streams sid with up := [f] }

def loadDown (s : Transfer) (sid : Nat) (m : WormholeMsg) : Transfer :=
  s.setStream sid { s.streams sid with down := [m] }

/-- `read_wormhole_msg` fails. -/
def readFailed (s : Transfer) : Option Transfer :=
  if s.ack = .exited then some { s with ackReader := .waiting }
  else if s.ackRx.length < ackSlots then some { s with ackRx := s.ackRx ++ [.streamError], ackReader := .waiting }
  else none

end Transfer

namespace Wired

variable (c : Codec) (w : Wired)

def init (capped : Bool) : Wired where
  core := (Transfer.init capped).bare
  up := Function.update (fun _ => []) 0 (c.upBytes .connect)
  down := fun _ => []

/-- What a step has left in the queues goes out. -/
def send (t : Transfer) : Wired where
  core := t.bare
  up := fun sid => w.up sid ++ encodeAll c.upBytes (t.streams sid).up
  down := fun sid => w.down sid ++ encodeAll c.downBytes (t.streams sid).down

/-- The same at the receiver, which writes feedback only. -/
def answer (t : Transfer) : Wired where
  core := t.bare
  up := w.up
  down := fun sid => w.down sid ++ encodeAll c.downBytes (t.streams sid).down

def takeUp (sid : Nat) (rest : List UInt8) : Wired := { w with up := Function.update w.up sid rest }

def outage (up down : Nat) : Option Wired :=
  (w.core.step (.link (.outage up down))).map fun t =>
    let sid := w.core.opened - 1
    if (w.core.streams sid).cut then { w with core := t }
    else ⟨t, Function.update w.up sid ((w.up sid).take up), Function.update w.down sid ((w.down sid).take down)⟩

def accept : Option Wired :=
  let sid := w.core.nextAccept
  match c.readOpen (w.up sid) with
  | .ok (f, rest) => ((w.core.loadUp sid f).step (.down .accept)).map ((w.takeUp sid rest).answer c)
  | .error _ => none

/-- `accept_stream` fails with the connection, or `read_stream_open` does. -/
def acceptSkip : Option Wired :=
  let sid := w.core.nextAccept
  let q := w.core.streams sid
  if sid < w.core.opened ∧ (q.cut ∨ broken (framedLacks "framing") q.upFin (c.readOpen (w.up sid))) then
    some { w with core := { w.core with nextAccept := sid + 1 } }
  else none

def chunk (progress : Bool) : Option Wired :=
  match w.core.down.pc with
  | .reading sid =>
    match Framing.readChunk (w.up sid) with
    | .ok (some ch, rest) =>
      ((w.core.loadUp sid (.chunk ch.streamOffset.toNat ch.payload)).step (.down (.chunk progress))).map
        ((w.takeUp sid rest).answer c)
    | _ => none
  | _ => none

/-- The client's socket fails. The downlink ends, and nobody reads the stream again. -/
def writeFail (written : Nat) : Option Wired :=
  match w.core.down.pc with
  | .reading sid =>
    match Framing.readChunk (w.up sid) with
    | .ok (some ch, _) =>
      ((w.core.loadUp sid (.chunk ch.streamOffset.toNat ch.payload)).step (.down (.writeFail written))).map (w.answer c)
    | _ => none
  | _ => none

def eof : Option Wired :=
  match w.core.down.pc with
  | .reading sid => if w.up sid = [] then (w.core.step (.down .eof)).map (w.send c) else none
  | _ => none

def readError : Option Wired :=
  match w.core.down.pc with
  | .reading sid =>
    let q := w.core.streams sid
    if (w.up sid = [] ∧ q.cut) ∨ broken chunkLacks (q.cut || q.upFin) (Framing.readChunk (w.up sid)) then
      some { w with core := { w.core with down := { w.core.down with pc := .waiting } } }
    else none
  | _ => none

def readMsg : Option Wired :=
  match w.core.ackReader with
  | .reading sid =>
    match c.readMsg (w.down sid) with
    | .ok (m, rest) =>
      (WormholeMsg.ofWire m).bind fun m =>
        ((w.core.loadDown sid m).step (.ack .readMsg)).map fun t => ⟨t.bare, w.up, Function.update w.down sid rest⟩
    | .error _ => none
  | _ => none

def readEnd : Option Wired :=
  match w.core.ackReader with
  | .reading sid =>
    let q := w.core.streams sid
    if broken (framedLacks "wormhole") (q.cut || q.downFin) (c.readMsg (w.down sid)) then
      w.core.readFailed.map fun t => { w with core := t }
    else none
  | _ => none

/-- Steps that read bytes, or cut them, and all the others. -/
def step : Act → Option Wired
  | .link (.outage up down) => w.outage up down
  | .down .accept => w.accept c
  | .down .acceptSkip => w.acceptSkip c
  | .down (.chunk progress) => w.chunk c progress
  | .down (.writeFail written) => w.writeFail c written
  | .down .eof => w.eof c
  | .down .readError => w.readError
  | .ack .readMsg => w.readMsg c
  | .ack .readEnd => w.readEnd c
  | a => (w.core.step a).map (w.send c)

/-- A client never writes more bytes than a `u64` counts. -/
def counted : Act → Prop
  | .reader (.clientWrite data) => w.core.wrote.length + data.length < 2 ^ 64
  | _ => True

instance (a : Act) : Decidable (w.counted a) :=
  match a with
  | .reader (.clientWrite data) => inferInstanceAs (Decidable (w.core.wrote.length + data.length < 2 ^ 64))
  | .reader .clientClose | .reader .accept | .reader .acceptFail | .reader .space | .reader .spacePoll
  | .reader .spaceWake | .reader (.read _) | .reader .eof | .reader .readFail | .reader .failedEof | .reader .store
  | .reader .notify | .ticket _ | .pump _ | .ack _ | .link _ | .down _ => .isTrue trivial

end Wired

end Quelay.Agent
