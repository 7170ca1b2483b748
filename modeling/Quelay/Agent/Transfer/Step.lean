/-
  Quelay.Agent.Transfer.Step — the steps of the tasks and of their environment.

  One function for each task, `none` where the step is not enabled. Where a task does
  the same check twice in a row (`run_inner` calls `try_send_finish` before and after
  each message) one check stands for both.
-/

import Quelay.Agent.Transfer.State

namespace Quelay.Agent

open Quelay.Lib

namespace Transfer

/-! ## The sending client and `run_tcp_reader` -/

inductive ReaderAct where
  | clientWrite (data : List UInt8)
  | clientClose
  | accept
  | acceptFail
  | space
  | spacePoll
  | spaceWake
  | read (n : Nat)
  | eof
  | readFail
  | failedEof
  | store
  | notify

/-- `handle_eof` under the spool's lock: publish the sentinel, unless it is there. -/
def handleEof (s : Transfer) : Transfer :=
  if s.spool.atEof then { s with reader := .exited }
  else { s with spool := s.spool.markEof, reader := .store s.spool.markEof.headOffset true }

def readerStep (s : Transfer) : ReaderAct → Option Transfer
  | .clientWrite data => if s.closed then none else some { s with wrote := s.wrote ++ data, sock := s.sock ++ data }
  | .clientClose => some { s with closed := true }
  | .accept => if s.reader = .accept then some { s with reader := .space } else none
  | .acceptFail =>
    if s.reader = .accept then some { s with callbacks := s.callbacks ++ [.failed .tcpAccept], reader := .exited }
    else none
  | .space =>
    if s.reader = .space then
      if s.spool.available < chunkSize then some { s with reader := .spacePoll } else some { s with reader := .read }
    else none
  | .spacePoll =>
    if s.reader = .spacePoll then
      if s.spaceReady.permit then some { s with spaceReady := s.spaceReady.take, reader := .space }
      else some { s with spaceReady := s.spaceReady.park (), reader := .spaceParked }
    else none
  | .spaceWake =>
    if s.reader = .spaceParked ∧ () ∈ s.spaceReady.woken then
      some { s with spaceReady := s.spaceReady.resume (), reader := .space }
    else none
  | .read n =>
    if s.reader = .read ∧ 0 < n ∧ n ≤ s.sock.length ∧ n ≤ chunkSize then
      some { s with
        sock := s.sock.drop n
        pushed := s.pushed ++ s.sock.take n
        spool := s.spool.push (s.sock.take n)
        reader := .store (s.spool.push (s.sock.take n)).headOffset false }
    else none
  | .eof => if s.reader = .read ∧ s.sock = [] ∧ s.closed then some (handleEof { s with cleanEof := true }) else none
  | .readFail =>
    if s.reader = .read then some { s with callbacks := s.callbacks ++ [.failed .tcpRead], reader := .failed } else none
  | .failedEof => if s.reader = .failed then some (handleEof s) else none
  | .store =>
    match s.reader with
    | .store head last => some { s with headOffset := head, reader := .notify last }
    | _ => none
  | .notify =>
    match s.reader with
    | .notify last =>
      some { s with dataReady := s.dataReady.notifyOne, reader := if last then .exited else .space }
    | _ => none

/-! ## Tickets: the uncapped forwarder, and the capped timer -/

inductive TicketAct where
  | poll
  | wake
  | check
  | send
  | timerHead
  | timerQ
  | timerSend (n : Nat)

def ticketStep (s : Transfer) : TicketAct → Option Transfer
  | .poll =>
    if s.fwd = .poll then
      if s.dataReady.permit then some { s with dataReady := s.dataReady.take, fwd := .check }
      else some { s with dataReady := s.dataReady.park .forwarder, fwd := .parked }
    else none
  | .wake =>
    if s.fwd = .parked ∧ .forwarder ∈ s.dataReady.woken then
      some { s with dataReady := s.dataReady.resume .forwarder, fwd := .check }
    else none
  | .check =>
    if s.fwd = .check then
      if 0 < s.spool.headOffset - s.qAtomic then some { s with fwd := .send } else some { s with fwd := .poll }
    else none
  | .send =>
    if s.fwd = .send then
      if s.pump.pc = .exited then some { s with fwd := .exited }
      else if s.alloc = none then some { s with alloc := some .unlimited, fwd := .poll }
      else none
    else none
  | .timerHead => if s.capped ∧ s.timer = .idle then some { s with timer := .head s.headOffset } else none
  | .timerQ =>
    match s.timer with
    | .head offset => some { s with timer := if 0 < offset - s.qAtomic then .sampled else .idle }
    | _ => none
  | .timerSend n =>
    if s.timer = .sampled ∧ 0 < n then
      -- A full or closed channel refuses the ticket.
      if s.pump.pc ≠ .exited ∧ s.alloc = none then some { s with alloc := some (.bytes n), timer := .idle }
      else some { s with timer := .idle }
    else none

/-! ## `StreamPump` -/

inductive PumpAct where
  | ticket
  | cmd
  | drain (split : Nat)
  | write
  | writeFail
  | store
  | post
  | discard
  | closed

/-- The pump ends: its channels and the write half it holds are dropped. -/
def pumpExit (s : Transfer) : Transfer := { s with cmds := [], alloc := none, pump := { s.pump with pc := .exited } }

/-- `quic_tx.shutdown()`. -/
def sendFin (s : Transfer) : Transfer :=
  { s.setStream s.pump.quicTx { s.streams s.pump.quicTx with upFin := true } with pump := { s.pump with done := true } }

/-- The first part of a turn of `drain_alloc`'s loop: what it finds under the lock. -/
def drainTurn (s : Transfer) (remaining : Budget) (split : Nat) : Transfer :=
  if remaining.isZero then { s with pump := { s.pump with pc := .post } }
  else if s.spool.atEof ∧ s.spool.headOffset ≤ s.pump.q then
    let s := if s.pump.finishing then s.sendFin else s
    { s with pump := { s.pump with pc := .post } }
  else if s.spool.headOffset ≤ s.pump.q then { s with pump := { s.pump with pc := .post } }
  else
    let slice := s.spool.sliceFrom split s.pump.q
    let chunk := slice.take (remaining.clip (min slice.length chunkSize))
    if chunk = [] then { s with pump := { s.pump with pc := .post } }
    else { s with pump := { s.pump with pc := .write remaining chunk } }

/-- A write half is installed. -/
def adopt (s : Transfer) (sid : Nat) : Transfer :=
  { s.setStream sid { s.streams sid with adoptedAt := some s.spool.bytesAcked } with
    pump := { s.pump with pc := .store .select, q := s.spool.bytesAcked, quicTx := sid } }

/-- `Finish` in the running state: with nothing left to send, one turn finds the
    sentinel; else the tickets go on. -/
def onFinish (s : Transfer) : Transfer :=
  { s with pump := { s.pump with
      finishing := true
      pc := if s.spool.headOffset - s.pump.q = 0 then .drain (.bytes 1) else .select } }

def rewind (s : Transfer) : Transfer :=
  { s with pump := { s.pump with pc := .store .waitUp, q := s.spool.bytesAcked } }

def pumpStep (s : Transfer) : PumpAct → Option Transfer
  | .ticket =>
    match s.pump.pc, s.alloc with
    | .select, some t => some { s with alloc := none, pump := { s.pump with pc := .drain t } }
    | _, _ => none
  | .cmd =>
    match s.pump.pc, s.cmds with
    | .select, .linkDown :: cmds => some { s.rewind with cmds := cmds }
    | .select, .linkUp _ :: cmds => some { s with cmds := cmds }
    | .select, .finish :: cmds => some { s.onFinish with cmds := cmds }
    | .waitUp, .linkDown :: cmds => some { s.rewind with cmds := cmds }
    | .waitUp, .linkUp sid :: cmds => some { s.adopt sid with cmds := cmds }
    | .waitUp, .finish :: cmds => some { s with cmds := cmds, pump := { s.pump with finishing := true } }
    | _, _ => none
  | .drain split =>
    match s.pump.pc with
    | .drain remaining => some (s.drainTurn remaining split)
    | _ => none
  | .write =>
    match s.pump.pc with
    | .write remaining chunk =>
      some { s.setStream s.pump.quicTx ((s.streams s.pump.quicTx).write s.pump.q chunk) with
        pump := { s.pump with
          pc := .store (.drain (remaining.spend chunk.length))
          q := s.pump.q + chunk.length } }
    | _ => none
  | .writeFail =>
    match s.pump.pc with
    | .write _ _ =>
      if (s.streams s.pump.quicTx).cut ∨ (s.streams s.pump.quicTx).stopped then
        some { s with pump := { s.pump with pc := .waitUp } }
      else none
    | _ => none
  | .store =>
    match s.pump.pc with
    | .store next =>
      some { s with qAtomic := s.pump.q, pump := { s.pump with pc := next.pc } }
    | _ => none
  | .post =>
    if s.pump.pc = .post then
      let s := if s.pump.finishing ∧ s.spool.atEof ∧ s.spool.headOffset - s.pump.q = 0 then s.sendFin else s
      some (if s.pump.done then s.pumpExit else { s with pump := { s.pump with pc := .select } })
    else none
  | .discard => if s.pump.pc = .waitUp ∧ s.alloc ≠ none then some { s with alloc := none } else none
  | .closed =>
    if (s.pump.pc = .select ∨ s.pump.pc = .waitUp) ∧ s.cmds = [] ∧ s.ack = .exited then some s.pumpExit else none

/-! ## `AckTask` and its reader -/

inductive AckAct where
  | check
  | finish
  | poll
  | wake
  | msg
  | space (progress : Bool)
  | gone
  | goneFail
  | stream
  | noStream
  | linkUp
  | readMsg
  | readEnd
  | readerClosed

/-- `data_ready` once the ack task leaves its select another way. -/
def unpark (s : Transfer) : Notify Waiter :=
  match s.ack with
  | .parked _ => s.dataReady.cancel .ackTask
  | _ => s.dataReady

/-- The ack task returns: its receivers are dropped. -/
def ackExit (s : Transfer) : Transfer := { s with dataReady := s.unpark, ack := .exited, ackRx := [], streamRx := [] }

/-- `on_ack` under the spool's lock. -/
def onAck (s : Transfer) (bytesReceived : Nat) : Transfer :=
  let prev := s.spool.bytesAcked
  let s := { s with spool := s.spool.ack bytesReceived }
  if prev < bytesReceived then { s with bytesSent := max s.bytesSent bytesReceived, ack := .space }
  else { s with ack := .check .main }

/-- `on_stream_error` up to its check for EOF: `link_down` is dropped when the channel
    is full or the pump is gone. -/
def onStreamError (s : Transfer) : Transfer :=
  { s with
    cmds := if s.pump.pc ≠ .exited ∧ s.cmds.length < cmdSlots then s.cmds ++ [.linkDown] else s.cmds
    ack := .check .reconnect }

def ackStep (s : Transfer) : AckAct → Option Transfer
  | .check =>
    match s.ack with
    | .check k =>
      if s.finishSent = false ∧ s.spool.atEof then some { s with finishSent := true, ack := .finish k }
      else some { s with ack := .poll k }
    | _ => none
  | .finish =>
    match s.ack with
    | .finish k =>
      if s.pump.pc = .exited then some { s with ack := .poll k }
      else if s.cmds.length < cmdSlots then some { s with cmds := s.cmds ++ [.finish], ack := .poll k }
      else none
    | _ => none
  | .poll =>
    match s.ack with
    | .poll .gone => none
    | .poll k =>
      if s.dataReady.permit then some { s with dataReady := s.dataReady.take, ack := .check k }
      else some { s with dataReady := s.dataReady.park .ackTask, ack := .parked k }
    | _ => none
  | .wake =>
    match s.ack with
    | .parked k =>
      if .ackTask ∈ s.dataReady.woken then some { s with dataReady := s.dataReady.resume .ackTask, ack := .check k }
      else none
    | _ => none
  | .msg =>
    match s.ack.selecting, s.ackRx with
    | some .main, m :: ackRx =>
      let t := { s with dataReady := s.unpark, ackRx := ackRx }
      match m with
      | .ack n => some (t.onAck n)
      | .done => some { s.ackExit with callbacks := s.callbacks ++ [.done s.bytesSent] }
      | .error f => some { s.ackExit with callbacks := s.callbacks ++ [.failed f] }
      | .streamError => some t.onStreamError
    | _, _ => none
  | .space progress =>
    if s.ack = .space then
      some { s with
        spaceReady := s.spaceReady.notifyOne
        callbacks := if progress then s.callbacks ++ [.progress s.bytesSent] else s.callbacks
        ack := .check .main }
    else none
  | .gone =>
    if s.ack.selecting = some .main ∧ s.ackRx = [] ∧ s.ackReader = .exited then
      some { s with dataReady := s.unpark, ack := .check .gone }
    else none
  | .goneFail =>
    if s.ack = .poll .gone then some { s.ackExit with callbacks := s.callbacks ++ [.failed .readerGone] } else none
  | .stream =>
    match s.ack.selecting, s.streamRx with
    | some .reconnect, sid :: streamRx =>
      -- The read half goes to the waiting sub-task; if that is gone the task returns.
      if s.ackReader = .waiting then
        some { s with
          dataReady := s.unpark
          streamRx := streamRx
          ackReader := .reading sid
          current := sid
          ack := .linkUp sid }
      else some s.ackExit
    | _, _ => none
  | .noStream =>
    if s.ack.selecting = some .reconnect ∧ s.streamRx = [] ∧ s.handle = false then
      some { s.ackExit with callbacks := s.callbacks ++ [.failed .handleDropped] }
    else none
  | .linkUp =>
    match s.ack with
    | .linkUp sid =>
      -- `link_up` fails once the pump has exited, and the task returns.
      if s.pump.pc = .exited then some s.ackExit
      else if s.cmds.length < cmdSlots then
        some { s with cmds := s.cmds ++ [.linkUp sid], finishSent := false, ack := .check .main }
      else none
    | _ => none
  | .readMsg =>
    match s.ackReader with
    | .reading sid =>
      match (s.streams sid).down with
      | m :: down =>
        let t := s.setStream sid { s.streams sid with down := down }
        if s.ack = .exited then some { t with ackReader := .exited }
        else if s.ackRx.length < ackSlots then
          some { t with
            ackRx := s.ackRx ++ [m.toAckMsg]
            ackReader := match m with
              | .ack _ => .reading sid
              | _ => .exited }
        else none
      | [] => none
    | _ => none
  | .readEnd =>
    match s.ackReader with
    | .reading sid =>
      if (s.streams sid).downEnded then
        if s.ack = .exited then some { s with ackReader := .waiting }
        else if s.ackRx.length < ackSlots then
          some { s with ackRx := s.ackRx ++ [.streamError], ackReader := .waiting }
        else none
      else none
    | _ => none
  | .readerClosed => if s.ackReader = .waiting ∧ s.ack = .exited then some { s with ackReader := .exited } else none

/-! ## The link and `SessionManager` -/

inductive LinkAct where
  | outage (up down : Nat)
  | reconnect
  | restoreRead
  | restoreOpen
  | restoreFail
  | restoreDeliver
  | hookLinkDown
  | dropHandle
  | dropStream (sid : Nat)

def linkStep (s : Transfer) : LinkAct → Option Transfer
  | .outage up down =>
    if s.link then
      let sid := s.opened - 1
      if (s.streams sid).cut then some { s with link := false, closing := false }
      else some { s.setStream sid ((s.streams sid).cutAt up down) with link := false, closing := false }
    else none
  | .reconnect => if s.link = false ∧ s.restore = .idle then some { s with link := true, restore := .start } else none
  | .restoreRead =>
    if s.restore = .start then
      some { s with restore := if s.handle then .opening s.spool.bytesAcked else .idle }
    else none
  | .restoreOpen =>
    match s.restore with
    | .opening replayFrom =>
      if s.link then
        some { s.setStream s.opened (.opened (.reconnect replayFrom)) with
          opened := s.opened + 1
          restore := .deliver s.opened }
      else none
    | _ => none
  | .restoreFail =>
    match s.restore with
    | .opening _ => some { s with restore := .idle }
    | _ => none
  | .restoreDeliver =>
    match s.restore with
    | .deliver sid =>
      if s.handle ∧ s.ack ≠ .exited ∧ s.streamRx.length < upStreamSlots then
        some { s with streamRx := s.streamRx ++ [sid], restore := .idle }
      -- "pump already exited, pruning": also when the channel is full.
      else some { s with handle := false, restore := .idle }
    | _ => none
  | .hookLinkDown =>
    -- `link_enable(false)`, which goes on to close the session if there is a live one.
    if s.restore = .idle ∧ s.closing = false ∧ s.handle ∧ s.pump.pc ≠ .exited ∧ s.cmds.length < cmdSlots then
      some { s with cmds := s.cmds ++ [.linkDown], closing := s.link }
    else none
  | .dropHandle => some { s with handle := false }
  | .dropStream sid =>
    -- Both halves are dropped on a live connection: the transport sends FIN.
    if sid < s.opened ∧ s.held sid = false ∧ (s.streams sid).cut = false then
      some (s.setStream sid { s.streams sid with upFin := true })
    else none

/-! ## `accept_loop` and `run_downlink` -/

inductive DownAct where
  | accept
  | acceptSkip
  | start
  | tcpAccept
  | tcpAcceptFail
  | chunk (progress : Bool)
  | writeFail (written : Nat)
  | eof
  | report
  | readError
  | resume
  | lost
  | dropHandle
  | dropStream (sid : Nat)

/-- `deliver_reconnect_stream`: the stream, or nothing where it is dropped. -/
def deliverReconnectStream (d : Downlink) (replayFrom sid : Nat) : Downlink :=
  if d.bytesWritten < replayFrom then d
  else if d.pc ≠ .exited ∧ d.streamRx.length < downStreamSlots then { d with streamRx := d.streamRx ++ [sid] }
  else d

/-- `run_downlink` has failed: it tells the sender, and then its own side. -/
def downFail (s : Transfer) (sid : Nat) (f : Failure) : Transfer :=
  { s.setStream sid ((s.streams sid).writeMsg (.error f)) with down := { s.down with pc := .report sid (.failed f) } }

/-- The payload without the part that was written before. -/
def trimmed (d : Downlink) (offset : Nat) (payload : List UInt8) : List UInt8 := payload.drop (d.bytesWritten - offset)

/-- A chunk that continues what was written goes to the client, and is acknowledged
    once a whole interval has been written since the last ack. -/
def writeChunk (s : Transfer) (sid offset : Nat) (payload : List UInt8) (progress : Bool) : Transfer :=
  let data := trimmed s.down offset payload
  let written := s.down.bytesWritten + data.length
  let s := { s with
    down := { s.down with bytesWritten := written, out := s.down.out ++ data }
    downCallbacks := if progress ∧ data ≠ [] then s.downCallbacks ++ [.progress written] else s.downCallbacks }
  if ackInterval ≤ written - s.down.lastAcked then
    { s.setStream sid ((s.streams sid).writeMsg (.ack written)) with down := { s.down with lastAcked := written } }
  else s

/-- Take the chunk off the stream's queue. -/
def popUp (s : Transfer) (sid : Nat) (rest : List UpFrame) : Transfer :=
  s.setStream sid { s.streams sid with up := rest }

def downStep (s : Transfer) : DownAct → Option Transfer
  | .accept =>
    let sid := s.nextAccept
    if sid < s.opened then
      match (s.streams sid).up with
      | .connect :: rest =>
        some { s.popUp sid rest with
          nextAccept := sid + 1
          down := { s.down with pc := .spawned, streamRx := [sid], handle := true } }
      | .reconnect replayFrom :: rest =>
        some { s.popUp sid rest with
          nextAccept := sid + 1
          down := if s.down.handle then deliverReconnectStream s.down replayFrom sid else s.down }
      | _ => none
    else none
  | .acceptSkip =>
    if s.nextAccept < s.opened ∧ (s.streams s.nextAccept).cut then some { s with nextAccept := s.nextAccept + 1 } else none
  | .start =>
    match s.down.pc, s.down.streamRx with
    | .spawned, sid :: rest => some { s with down := { s.down with pc := .tcpAccept sid, streamRx := rest } }
    | _, _ => none
  | .tcpAccept =>
    match s.down.pc with
    | .tcpAccept sid => some { s with down := { s.down with pc := .reading sid, lastAcked := s.down.bytesWritten } }
    | _ => none
  | .tcpAcceptFail =>
    match s.down.pc with
    | .tcpAccept sid => some (s.downFail sid .tcpAccept)
    | _ => none
  | .chunk progress =>
    match s.down.pc with
    | .reading sid =>
      match (s.streams sid).up with
      | .chunk offset payload :: rest =>
        -- A duplicate is skipped before the gap check.
        if offset + payload.length ≤ s.down.bytesWritten then some (s.popUp sid rest)
        else if s.down.bytesWritten < offset then some ((s.popUp sid rest).downFail sid .chunkGap)
        else some ((s.popUp sid rest).writeChunk sid offset payload progress)
      | _ => none
    | _ => none
  | .writeFail written =>
    match s.down.pc with
    | .reading sid =>
      match (s.streams sid).up with
      | .chunk offset payload :: _ =>
        -- Some of the chunk may be out. Nobody reads the stream again.
        if s.down.bytesWritten < offset + payload.length ∧ offset ≤ s.down.bytesWritten then
          let t := s.downFail sid .tcpWrite
          some { t with down := { t.down with out := s.down.out ++ (trimmed s.down offset payload).take written } }
        else none
      | _ => none
    | _ => none
  | .eof =>
    match s.down.pc with
    | .reading sid =>
      let q := s.streams sid
      if q.up = [] ∧ q.upFin ∧ q.cut = false then
        some { s.setStream sid { q.writeMsg .done with downFin := true } with
          down := { s.down with pc := .report sid (.done s.down.bytesWritten) } }
      else none
    | _ => none
  | .report =>
    match s.down.pc with
    | .report _ c => some { s with down := { s.down with pc := .exited }, downCallbacks := s.downCallbacks ++ [c] }
    | _ => none
  | .readError =>
    match s.down.pc with
    | .reading sid =>
      if (s.streams sid).up = [] ∧ (s.streams sid).cut then some { s with down := { s.down with pc := .waiting } } else none
    | _ => none
  | .resume =>
    match s.down.pc, s.down.streamRx with
    | .waiting, sid :: rest => some { s with down := { s.down with pc := .reading sid, streamRx := rest } }
    | _, _ => none
  | .lost =>
    if s.down.pc = .waiting ∧ s.down.streamRx = [] ∧ s.down.handle = false then
      some { s with
        down := { s.down with pc := .exited }
        downCallbacks := s.downCallbacks ++ [.failed .handleDropped] }
    else none
  | .dropHandle => some { s with down := { s.down with handle := false } }
  | .dropStream sid =>
    if sid < s.nextAccept ∧ s.heldDown sid = false then
      some (s.setStream sid { s.streams sid with downFin := true, stopped := true })
    else none

/-! ## The whole system -/

end Transfer

inductive Act where
  | reader (a : Transfer.ReaderAct)
  | ticket (a : Transfer.TicketAct)
  | pump (a : Transfer.PumpAct)
  | ack (a : Transfer.AckAct)
  | link (a : Transfer.LinkAct)
  | down (a : Transfer.DownAct)

def Transfer.step (s : Transfer) : Act → Option Transfer
  | .reader a => s.readerStep a
  | .ticket a => s.ticketStep a
  | .pump a => s.pumpStep a
  | .ack a => s.ackStep a
  | .link a => s.linkStep a
  | .down a => s.downStep a

end Quelay.Agent
