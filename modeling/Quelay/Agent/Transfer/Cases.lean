/-
  Quelay.Agent.Transfer.Cases — everything a step can do, one case for each outcome:
  its guards, and the state it leads to. Every invariant is proved by these cases.
-/

import Quelay.Agent.Transfer.Step

namespace Quelay.Agent.Transfer

open Quelay.Lib

/-! ## `run_tcp_reader` -/

inductive ReaderCase (s : Transfer) : ReaderAct → Transfer → Prop
  | clientWrite (data : List UInt8) : s.closed = false →
      ReaderCase s (.clientWrite data) { s with wrote := s.wrote ++ data, sock := s.sock ++ data }
  | clientClose : ReaderCase s .clientClose { s with closed := true }
  | accept : s.reader = .accept → ReaderCase s .accept { s with reader := .space }
  | acceptFail : s.reader = .accept →
      ReaderCase s .acceptFail { s with callbacks := s.callbacks ++ [.failed .tcpAccept], reader := .exited }
  | spaceNone : s.reader = .space → s.spool.available < chunkSize → ReaderCase s .space { s with reader := .spacePoll }
  | spaceOk : s.reader = .space → chunkSize ≤ s.spool.available → ReaderCase s .space { s with reader := .read }
  | spacePermit : s.reader = .spacePoll → s.spaceReady.permit = true →
      ReaderCase s .spacePoll { s with spaceReady := s.spaceReady.take, reader := .space }
  | spacePark : s.reader = .spacePoll → s.spaceReady.permit = false →
      ReaderCase s .spacePoll { s with spaceReady := s.spaceReady.park (), reader := .spaceParked }
  | spaceWake : s.reader = .spaceParked → () ∈ s.spaceReady.woken →
      ReaderCase s .spaceWake { s with spaceReady := s.spaceReady.resume (), reader := .space }
  | read (n : Nat) : s.reader = .read → 0 < n → n ≤ s.sock.length → n ≤ chunkSize →
      ReaderCase s (.read n) { s with
        sock := s.sock.drop n
        pushed := s.pushed ++ s.sock.take n
        spool := s.spool.push (s.sock.take n)
        reader := .store (s.spool.push (s.sock.take n)).headOffset false }
  | eof : s.reader = .read → s.sock = [] → s.closed = true → s.spool.atEof = false →
      ReaderCase s .eof { s with
        cleanEof := true, spool := s.spool.markEof, reader := .store s.spool.markEof.headOffset true }
  | eofAgain : s.reader = .read → s.sock = [] → s.closed = true → s.spool.atEof = true →
      ReaderCase s .eof { s with cleanEof := true, reader := .exited }
  | readFail : s.reader = .read →
      ReaderCase s .readFail { s with callbacks := s.callbacks ++ [.failed .tcpRead], reader := .failed }
  | failedEof : s.reader = .failed → s.spool.atEof = false →
      ReaderCase s .failedEof { s with spool := s.spool.markEof, reader := .store s.spool.markEof.headOffset true }
  | failedEofAgain : s.reader = .failed → s.spool.atEof = true →
      ReaderCase s .failedEof { s with reader := .exited }
  | store {head : Nat} {last : Bool} : s.reader = .store head last →
      ReaderCase s .store { s with headOffset := head, reader := .notify last }
  | notify {last : Bool} : s.reader = .notify last →
      ReaderCase s .notify { s with
        dataReady := s.dataReady.notifyOne, reader := if last then .exited else .space }

theorem readerStep_cases {s s' : Transfer} {a : ReaderAct} (h : s.readerStep a = some s') : ReaderCase s a s' := by
  cases a with
  | clientWrite data =>
    simp only [readerStep] at h
    split at h
    · cases h
    · rename_i hc; cases h; exact .clientWrite data (by simpa using hc)
  | clientClose => cases h; exact .clientClose
  | accept =>
    simp only [readerStep] at h
    split at h
    · rename_i hr; cases h; exact .accept hr
    · cases h
  | acceptFail =>
    simp only [readerStep] at h
    split at h
    · rename_i hr; cases h; exact .acceptFail hr
    · cases h
  | space =>
    simp only [readerStep] at h
    split at h
    · rename_i hr
      split at h
      · rename_i hs; cases h; exact .spaceNone hr hs
      · rename_i hs; cases h; exact .spaceOk hr (by omega)
    · cases h
  | spacePoll =>
    simp only [readerStep] at h
    split at h
    · rename_i hr
      split at h
      · rename_i hp; cases h; exact .spacePermit hr hp
      · rename_i hp; cases h; exact .spacePark hr (by simpa using hp)
    · cases h
  | spaceWake =>
    simp only [readerStep] at h
    split at h
    · rename_i hr; cases h; exact .spaceWake hr.1 hr.2
    · cases h
  | read n =>
    simp only [readerStep] at h
    split at h
    · rename_i hr; cases h; exact .read n hr.1 hr.2.1 hr.2.2.1 hr.2.2.2
    · cases h
  | eof =>
    simp only [readerStep, handleEof] at h
    split at h
    · rename_i hr
      split at h
      · rename_i he; cases h; exact .eofAgain hr.1 hr.2.1 hr.2.2 he
      · rename_i he; cases h; exact .eof hr.1 hr.2.1 hr.2.2 (by simpa using he)
    · cases h
  | readFail =>
    simp only [readerStep] at h
    split at h
    · rename_i hr; cases h; exact .readFail hr
    · cases h
  | failedEof =>
    simp only [readerStep, handleEof] at h
    split at h
    · rename_i hr
      split at h
      · rename_i he; cases h; exact .failedEofAgain hr he
      · rename_i he; cases h; exact .failedEof hr (by simpa using he)
    · cases h
  | store =>
    simp only [readerStep] at h
    split at h
    · rename_i head last hr; cases h; exact .store hr
    · cases h
  | notify =>
    simp only [readerStep] at h
    split at h
    · rename_i last hr; cases h; exact .notify hr
    · cases h

/-! ## Tickets -/

inductive TicketCase (s : Transfer) : TicketAct → Transfer → Prop
  | pollPermit : s.fwd = .poll → s.dataReady.permit = true →
      TicketCase s .poll { s with dataReady := s.dataReady.take, fwd := .check }
  | pollPark : s.fwd = .poll → s.dataReady.permit = false →
      TicketCase s .poll { s with dataReady := s.dataReady.park .forwarder, fwd := .parked }
  | wake : s.fwd = .parked → .forwarder ∈ s.dataReady.woken →
      TicketCase s .wake { s with dataReady := s.dataReady.resume .forwarder, fwd := .check }
  | checkSome : s.fwd = .check → 0 < s.spool.headOffset - s.qAtomic → TicketCase s .check { s with fwd := .send }
  | checkNone : s.fwd = .check → s.spool.headOffset - s.qAtomic = 0 → TicketCase s .check { s with fwd := .poll }
  | sendClosed : s.fwd = .send → s.pump.pc = .exited → TicketCase s .send { s with fwd := .exited }
  | send : s.fwd = .send → s.pump.pc ≠ .exited → s.alloc = none →
      TicketCase s .send { s with alloc := some .unlimited, fwd := .poll }
  | timerHead : s.capped = true → s.timer = .idle → TicketCase s .timerHead { s with timer := .head s.headOffset }
  | timerSome {offset : Nat} : s.timer = .head offset → 0 < offset - s.qAtomic →
      TicketCase s .timerQ { s with timer := .sampled }
  | timerNone {offset : Nat} : s.timer = .head offset → offset - s.qAtomic = 0 →
      TicketCase s .timerQ { s with timer := .idle }
  | timerSend (n : Nat) : s.timer = .sampled → 0 < n → s.pump.pc ≠ .exited → s.alloc = none →
      TicketCase s (.timerSend n) { s with alloc := some (.bytes n), timer := .idle }
  | timerRefused (n : Nat) : s.timer = .sampled → 0 < n → (s.pump.pc = .exited ∨ s.alloc ≠ none) →
      TicketCase s (.timerSend n) { s with timer := .idle }

theorem ticketStep_cases {s s' : Transfer} {a : TicketAct} (h : s.ticketStep a = some s') : TicketCase s a s' := by
  cases a with
  | poll =>
    simp only [ticketStep] at h
    split at h
    · rename_i hf
      split at h
      · rename_i hp; cases h; exact .pollPermit hf hp
      · rename_i hp; cases h; exact .pollPark hf (by simpa using hp)
    · cases h
  | wake =>
    simp only [ticketStep] at h
    split at h
    · rename_i hf; cases h; exact .wake hf.1 hf.2
    · cases h
  | check =>
    simp only [ticketStep] at h
    split at h
    · rename_i hf
      split at h
      · rename_i hb; cases h; exact .checkSome hf hb
      · rename_i hb; cases h; exact .checkNone hf (by omega)
    · cases h
  | send =>
    simp only [ticketStep] at h
    split at h
    · rename_i hf
      split at h
      · rename_i hx; cases h; exact .sendClosed hf hx
      · rename_i hx
        split at h
        · rename_i ha; cases h; exact .send hf hx ha
        · cases h
    · cases h
  | timerHead =>
    simp only [ticketStep] at h
    split at h
    · rename_i ht; cases h; exact .timerHead ht.1 ht.2
    · cases h
  | timerQ =>
    simp only [ticketStep] at h
    split at h
    · rename_i offset ht
      by_cases hb : 0 < offset - s.qAtomic
      · rw [if_pos hb] at h; cases h; exact .timerSome ht hb
      · rw [if_neg hb] at h; cases h; exact .timerNone ht (by omega)
    · cases h
  | timerSend n =>
    simp only [ticketStep] at h
    split at h
    · rename_i ht
      split at h
      · rename_i ha; cases h; exact .timerSend n ht.1 ht.2 ha.1 ha.2
      · rename_i ha
        cases h
        refine .timerRefused n ht.1 ht.2 ?_
        by_cases hx : s.pump.pc = .exited
        · exact .inl hx
        · exact .inr fun hn => ha ⟨hx, hn⟩
    · cases h

/-! ## `StreamPump` -/

inductive PumpCase (s : Transfer) : PumpAct → Transfer → Prop
  | ticket {t : Budget} : s.pump.pc = .select → s.alloc = some t →
      PumpCase s .ticket { s with alloc := none, pump := { s.pump with pc := .drain t } }
  | linkDown {cmds : List RateCmd} : s.pump.pc = .select ∨ s.pump.pc = .waitUp → s.cmds = .linkDown :: cmds →
      PumpCase s .cmd { s with
        cmds := cmds, pump := { s.pump with pc := .store .waitUp, q := s.spool.bytesAcked } }
  | linkUpIgnored {sid : Nat} {cmds : List RateCmd} : s.pump.pc = .select → s.cmds = .linkUp sid :: cmds →
      PumpCase s .cmd { s with cmds := cmds }
  | linkUp {sid : Nat} {cmds : List RateCmd} : s.pump.pc = .waitUp → s.cmds = .linkUp sid :: cmds →
      PumpCase s .cmd { s with
        cmds := cmds
        streams := Function.update s.streams sid { s.streams sid with adoptedAt := some s.spool.bytesAcked }
        pump := { s.pump with pc := .store .select, q := s.spool.bytesAcked, quicTx := sid } }
  | finishDrained {cmds : List RateCmd} : s.pump.pc = .select → s.cmds = .finish :: cmds →
      s.spool.headOffset ≤ s.pump.q →
      PumpCase s .cmd { s with cmds := cmds, pump := { s.pump with pc := .drain (.bytes 1), finishing := true } }
  | finishBacklog {cmds : List RateCmd} : s.pump.pc = .select → s.cmds = .finish :: cmds →
      s.pump.q < s.spool.headOffset →
      PumpCase s .cmd { s with cmds := cmds, pump := { s.pump with pc := .select, finishing := true } }
  | finishWaiting {cmds : List RateCmd} : s.pump.pc = .waitUp → s.cmds = .finish :: cmds →
      PumpCase s .cmd { s with cmds := cmds, pump := { s.pump with finishing := true } }
  | drainSpent {remaining : Budget} (split : Nat) : s.pump.pc = .drain remaining → remaining.isZero = true →
      PumpCase s (.drain split) { s with pump := { s.pump with pc := .post } }
  | drainFin {remaining : Budget} (split : Nat) : s.pump.pc = .drain remaining → remaining.isZero = false →
      s.spool.atEof = true → s.spool.headOffset ≤ s.pump.q → s.pump.finishing = true →
      PumpCase s (.drain split) { s with
        streams := Function.update s.streams s.pump.quicTx { s.streams s.pump.quicTx with upFin := true }
        pump := { s.pump with pc := .post, done := true } }
  | drainNone {remaining : Budget} (split : Nat) : s.pump.pc = .drain remaining → remaining.isZero = false →
      (s.spool.atEof = true → s.pump.finishing = false) → s.spool.headOffset ≤ s.pump.q →
      PumpCase s (.drain split) { s with pump := { s.pump with pc := .post } }
  | drainEmpty {remaining : Budget} (split : Nat) : s.pump.pc = .drain remaining → remaining.isZero = false →
      s.pump.q < s.spool.headOffset →
      (s.spool.sliceFrom split s.pump.q).take
        (remaining.clip (min (s.spool.sliceFrom split s.pump.q).length chunkSize)) = [] →
      PumpCase s (.drain split) { s with pump := { s.pump with pc := .post } }
  | drainChunk {remaining : Budget} {chunk : List UInt8} (split : Nat) : s.pump.pc = .drain remaining →
      remaining.isZero = false → s.pump.q < s.spool.headOffset →
      chunk = (s.spool.sliceFrom split s.pump.q).take
        (remaining.clip (min (s.spool.sliceFrom split s.pump.q).length chunkSize)) → chunk ≠ [] →
      PumpCase s (.drain split) { s with pump := { s.pump with pc := .write remaining chunk } }
  | write {remaining : Budget} {chunk : List UInt8} : s.pump.pc = .write remaining chunk →
      PumpCase s .write { s with
        streams := Function.update s.streams s.pump.quicTx ((s.streams s.pump.quicTx).write s.pump.q chunk)
        pump := { s.pump with
          pc := .store (.drain (remaining.spend chunk.length)), q := s.pump.q + chunk.length } }
  | writeFail {remaining : Budget} {chunk : List UInt8} : s.pump.pc = .write remaining chunk →
      (s.streams s.pump.quicTx).cut = true ∨ (s.streams s.pump.quicTx).stopped = true →
      PumpCase s .writeFail { s with pump := { s.pump with pc := .waitUp } }
  | store {next : AfterStore} : s.pump.pc = .store next →
      PumpCase s .store { s with qAtomic := s.pump.q, pump := { s.pump with pc := next.pc } }
  | postFin : s.pump.pc = .post → s.pump.finishing = true → s.spool.atEof = true → s.spool.headOffset ≤ s.pump.q →
      PumpCase s .post { s with
        cmds := []
        alloc := none
        streams := Function.update s.streams s.pump.quicTx { s.streams s.pump.quicTx with upFin := true }
        pump := { s.pump with pc := .exited, done := true } }
  | postDone : s.pump.pc = .post → s.pump.done = true →
      PumpCase s .post { s with cmds := [], alloc := none, pump := { s.pump with pc := .exited } }
  | post : s.pump.pc = .post → s.pump.done = false →
      (s.pump.finishing = true → s.spool.atEof = true → s.pump.q < s.spool.headOffset) →
      PumpCase s .post { s with pump := { s.pump with pc := .select } }
  | discard : s.pump.pc = .waitUp → s.alloc ≠ none → PumpCase s .discard { s with alloc := none }
  | closed : s.pump.pc = .select ∨ s.pump.pc = .waitUp → s.cmds = [] → s.ack = .exited →
      PumpCase s .closed { s with cmds := [], alloc := none, pump := { s.pump with pc := .exited } }

theorem pumpStep_cases {s s' : Transfer} {a : PumpAct} (h : s.pumpStep a = some s') : PumpCase s a s' := by
  cases a with
  | ticket =>
    simp only [pumpStep] at h
    split at h
    · rename_i t hpc ha; cases h; exact .ticket hpc ha
    · cases h
  | cmd =>
    simp only [pumpStep] at h
    split at h
    · rename_i cmds hpc hc; cases h; exact .linkDown (.inl hpc) hc
    · rename_i sid cmds hpc hc; cases h; exact .linkUpIgnored hpc hc
    · rename_i cmds hpc hc
      simp only [onFinish, Option.some.injEq] at h
      subst h
      by_cases hq : s.spool.headOffset - s.pump.q = 0
      · simp only [if_pos hq]
        exact .finishDrained hpc hc (by omega)
      · simp only [if_neg hq]
        exact .finishBacklog hpc hc (by omega)
    · rename_i cmds hpc hc; cases h; exact .linkDown (.inr hpc) hc
    · rename_i sid cmds hpc hc; cases h; exact .linkUp hpc hc
    · rename_i cmds hpc hc; cases h; exact .finishWaiting hpc hc
    · cases h
  | drain split =>
    simp only [pumpStep] at h
    split at h
    · rename_i remaining hpc
      simp only [drainTurn, Option.some.injEq] at h
      split at h
      · rename_i hz; subst h; exact .drainSpent split hpc hz
      · rename_i hz
        have hz' : remaining.isZero = false := by simpa using hz
        split at h
        · rename_i he
          split at h
          · rename_i hf; subst h; exact .drainFin split hpc hz' he.1 he.2 hf
          · rename_i hf
            subst h
            exact .drainNone split hpc hz' (fun _ => by simpa using hf) he.2
        · rename_i he
          split at h
          · rename_i hq
            subst h
            exact .drainNone split hpc hz' (fun heof => absurd ⟨heof, hq⟩ he) hq
          · rename_i hq
            split at h
            · rename_i hc; subst h; exact .drainEmpty split hpc hz' (by omega) hc
            · rename_i hc; subst h; exact .drainChunk split hpc hz' (by omega) rfl hc
    · cases h
  | write =>
    simp only [pumpStep] at h
    split at h
    · rename_i remaining chunk hpc; cases h; exact .write hpc
    · cases h
  | writeFail =>
    simp only [pumpStep] at h
    split at h
    · rename_i remaining chunk hpc
      split at h
      · rename_i hx; cases h; exact .writeFail hpc hx
      · cases h
    · cases h
  | store =>
    simp only [pumpStep] at h
    split at h
    · rename_i next hpc
      cases h
      exact .store hpc
    · cases h
  | post =>
    simp only [pumpStep] at h
    split at h
    · rename_i hpc
      simp only [Option.some.injEq] at h
      by_cases hf : s.pump.finishing = true ∧ s.spool.atEof = true ∧ s.spool.headOffset - s.pump.q = 0
      · simp only [if_pos hf, sendFin, if_true, pumpExit] at h
        subst h
        exact .postFin hpc hf.1 hf.2.1 (by omega)
      · simp only [if_neg hf] at h
        split at h
        · rename_i hd; subst h; exact .postDone hpc hd
        · rename_i hd
          subst h
          refine .post hpc (by simpa using hd) fun h1 h2 => ?_
          by_contra hlt
          exact hf ⟨h1, h2, by omega⟩
    · cases h
  | discard =>
    simp only [pumpStep] at h
    split at h
    · rename_i hw; cases h; exact .discard hw.1 hw.2
    · cases h
  | closed =>
    simp only [pumpStep] at h
    split at h
    · rename_i hw; cases h; exact .closed hw.1 hw.2.1 hw.2.2
    · cases h

/-! ## `AckTask` -/

inductive AckCase (s : Transfer) : AckAct → Transfer → Prop
  | checkEof {k : Sel} : s.ack = .check k → s.finishSent = false → s.spool.atEof = true →
      AckCase s .check { s with finishSent := true, ack := .finish k }
  | checkNone {k : Sel} : s.ack = .check k → (s.finishSent = true ∨ s.spool.atEof = false) →
      AckCase s .check { s with ack := .poll k }
  | finishClosed {k : Sel} : s.ack = .finish k → s.pump.pc = .exited → AckCase s .finish { s with ack := .poll k }
  | finish {k : Sel} : s.ack = .finish k → s.pump.pc ≠ .exited → s.cmds.length < cmdSlots →
      AckCase s .finish { s with cmds := s.cmds ++ [.finish], ack := .poll k }
  | pollPermit {k : Sel} : s.ack = .poll k → k ≠ .gone → s.dataReady.permit = true →
      AckCase s .poll { s with dataReady := s.dataReady.take, ack := .check k }
  | pollPark {k : Sel} : s.ack = .poll k → k ≠ .gone → s.dataReady.permit = false →
      AckCase s .poll { s with dataReady := s.dataReady.park .ackTask, ack := .parked k }
  | wake {k : Sel} : s.ack = .parked k → .ackTask ∈ s.dataReady.woken →
      AckCase s .wake { s with dataReady := s.dataReady.resume .ackTask, ack := .check k }
  | ackNew {n : Nat} {rest : List AckMsg} : s.ack.selecting = some .main → s.ackRx = .ack n :: rest →
      s.spool.bytesAcked < n →
      AckCase s .msg { s with
        dataReady := s.unpark, ackRx := rest, spool := s.spool.ack n, bytesSent := max s.bytesSent n, ack := .space }
  | ackOld {n : Nat} {rest : List AckMsg} : s.ack.selecting = some .main → s.ackRx = .ack n :: rest →
      n ≤ s.spool.bytesAcked →
      AckCase s .msg { s with
        dataReady := s.unpark, ackRx := rest, spool := s.spool.ack n, ack := .check .main }
  | done {rest : List AckMsg} : s.ack.selecting = some .main → s.ackRx = .done :: rest →
      AckCase s .msg { s with
        dataReady := s.unpark, ack := .exited, ackRx := [], streamRx := []
        callbacks := s.callbacks ++ [.done s.bytesSent] }
  | error {f : Failure} {rest : List AckMsg} : s.ack.selecting = some .main → s.ackRx = .error f :: rest →
      AckCase s .msg { s with
        dataReady := s.unpark, ack := .exited, ackRx := [], streamRx := []
        callbacks := s.callbacks ++ [.failed f] }
  | streamError {rest : List AckMsg} : s.ack.selecting = some .main → s.ackRx = .streamError :: rest →
      s.pump.pc ≠ .exited → s.cmds.length < cmdSlots →
      AckCase s .msg { s with
        dataReady := s.unpark, ackRx := rest, cmds := s.cmds ++ [.linkDown], ack := .check .reconnect }
  | streamErrorDropped {rest : List AckMsg} : s.ack.selecting = some .main → s.ackRx = .streamError :: rest →
      (s.pump.pc = .exited ∨ cmdSlots ≤ s.cmds.length) →
      AckCase s .msg { s with dataReady := s.unpark, ackRx := rest, ack := .check .reconnect }
  | space (progress : Bool) : s.ack = .space →
      AckCase s (.space progress) { s with
        spaceReady := s.spaceReady.notifyOne
        callbacks := if progress then s.callbacks ++ [.progress s.bytesSent] else s.callbacks
        ack := .check .main }
  | gone : s.ack.selecting = some .main → s.ackRx = [] → s.ackReader = .exited →
      AckCase s .gone { s with dataReady := s.unpark, ack := .check .gone }
  | goneFail : s.ack = .poll .gone →
      AckCase s .goneFail { s with
        dataReady := s.unpark, ack := .exited, ackRx := [], streamRx := []
        callbacks := s.callbacks ++ [.failed .readerGone] }
  | stream {sid : Nat} {rest : List Nat} : s.ack.selecting = some .reconnect → s.streamRx = sid :: rest →
      s.ackReader = .waiting →
      AckCase s .stream { s with
        dataReady := s.unpark, streamRx := rest, ackReader := .reading sid, current := sid, ack := .linkUp sid }
  | streamReaderGone {sid : Nat} {rest : List Nat} : s.ack.selecting = some .reconnect → s.streamRx = sid :: rest →
      s.ackReader ≠ .waiting →
      AckCase s .stream { s with dataReady := s.unpark, ack := .exited, ackRx := [], streamRx := [] }
  | noStream : s.ack.selecting = some .reconnect → s.streamRx = [] → s.handle = false →
      AckCase s .noStream { s with
        dataReady := s.unpark, ack := .exited, ackRx := [], streamRx := []
        callbacks := s.callbacks ++ [.failed .handleDropped] }
  | linkUpFail {sid : Nat} : s.ack = .linkUp sid → s.pump.pc = .exited →
      AckCase s .linkUp { s with dataReady := s.unpark, ack := .exited, ackRx := [], streamRx := [] }
  | linkUp {sid : Nat} : s.ack = .linkUp sid → s.pump.pc ≠ .exited → s.cmds.length < cmdSlots →
      AckCase s .linkUp { s with cmds := s.cmds ++ [.linkUp sid], finishSent := false, ack := .check .main }
  | readMsgClosed {sid : Nat} {m : WormholeMsg} {rest : List WormholeMsg} : s.ackReader = .reading sid →
      (s.streams sid).down = m :: rest → s.ack = .exited →
      AckCase s .readMsg { s with
        streams := Function.update s.streams sid { s.streams sid with down := rest }, ackReader := .exited }
  | readAck {sid n : Nat} {rest : List WormholeMsg} : s.ackReader = .reading sid →
      (s.streams sid).down = .ack n :: rest → s.ack ≠ .exited → s.ackRx.length < ackSlots →
      AckCase s .readMsg { s with
        streams := Function.update s.streams sid { s.streams sid with down := rest }
        ackRx := s.ackRx ++ [.ack n], ackReader := .reading sid }
  | readLast {sid : Nat} {m : WormholeMsg} {rest : List WormholeMsg} : s.ackReader = .reading sid →
      (s.streams sid).down = m :: rest → (∀ n, m ≠ .ack n) → s.ack ≠ .exited → s.ackRx.length < ackSlots →
      AckCase s .readMsg { s with
        streams := Function.update s.streams sid { s.streams sid with down := rest }
        ackRx := s.ackRx ++ [m.toAckMsg], ackReader := .exited }
  | readEndClosed {sid : Nat} : s.ackReader = .reading sid → (s.streams sid).downEnded = true → s.ack = .exited →
      AckCase s .readEnd { s with ackReader := .waiting }
  | readEnd {sid : Nat} : s.ackReader = .reading sid → (s.streams sid).downEnded = true → s.ack ≠ .exited →
      s.ackRx.length < ackSlots →
      AckCase s .readEnd { s with ackRx := s.ackRx ++ [.streamError], ackReader := .waiting }
  | readerClosed : s.ackReader = .waiting → s.ack = .exited →
      AckCase s .readerClosed { s with ackReader := .exited }

theorem ackStep_cases {s s' : Transfer} {a : AckAct} (h : s.ackStep a = some s') : AckCase s a s' := by
  cases a with
  | check =>
    simp only [ackStep] at h
    split at h
    · rename_i k hk
      split at h
      · rename_i he; cases h; exact .checkEof hk he.1 he.2
      · rename_i he
        cases h
        refine .checkNone hk ?_
        cases hf : s.finishSent with
        | true => exact .inl rfl
        | false => exact .inr (by simpa [hf] using he)
    · cases h
  | finish =>
    simp only [ackStep] at h
    split at h
    · rename_i k hk
      split at h
      · rename_i hx; cases h; exact .finishClosed hk hx
      · rename_i hx
        split at h
        · rename_i hl; cases h; exact .finish hk hx hl
        · cases h
    · cases h
  | poll =>
    simp only [ackStep] at h
    split at h
    · cases h
    · rename_i k hk hg
      have hne : k ≠ .gone := by
        rintro rfl
        exact hk rfl
      split at h
      · rename_i hp; cases h; exact .pollPermit hg hne hp
      · rename_i hp; cases h; exact .pollPark hg hne (by simpa using hp)
    · cases h
  | wake =>
    simp only [ackStep] at h
    split at h
    · rename_i k hk
      split at h
      · rename_i hw; cases h; exact .wake hk hw
      · cases h
    · cases h
  | msg =>
    simp only [ackStep] at h
    split at h
    · rename_i m rest hsel hrx
      split at h
      · rename_i n
        simp only [onAck, Option.some.injEq] at h
        split at h
        · rename_i hlt; subst h; exact .ackNew hsel hrx hlt
        · rename_i hlt; subst h; exact .ackOld hsel hrx (by omega)
      · cases h; exact .done hsel hrx
      · cases h; exact .error hsel hrx
      · simp only [onStreamError, Option.some.injEq] at h
        subst h
        by_cases hx : s.pump.pc ≠ .exited ∧ s.cmds.length < cmdSlots
        · simp only [if_pos hx]
          exact .streamError hsel hrx hx.1 hx.2
        · simp only [if_neg hx]
          refine .streamErrorDropped hsel hrx ?_
          by_cases he : s.pump.pc = .exited
          · exact .inl he
          · exact .inr (by by_contra hlt; exact hx ⟨he, by omega⟩)
    · cases h
  | space progress =>
    simp only [ackStep] at h
    split at h
    · rename_i hs; cases h; exact .space progress hs
    · cases h
  | gone =>
    simp only [ackStep] at h
    split at h
    · rename_i hg; cases h; exact .gone hg.1 hg.2.1 hg.2.2
    · cases h
  | goneFail =>
    simp only [ackStep] at h
    split at h
    · rename_i hg; cases h; exact .goneFail hg
    · cases h
  | stream =>
    simp only [ackStep] at h
    split at h
    · rename_i sid rest hsel hrx
      split at h
      · rename_i hw; cases h; exact .stream hsel hrx hw
      · rename_i hw; cases h; exact .streamReaderGone hsel hrx hw
    · cases h
  | noStream =>
    simp only [ackStep] at h
    split at h
    · rename_i hn; cases h; exact .noStream hn.1 hn.2.1 hn.2.2
    · cases h
  | linkUp =>
    simp only [ackStep] at h
    split at h
    · rename_i sid hl
      split at h
      · rename_i hx; cases h; exact .linkUpFail hl hx
      · rename_i hx
        split at h
        · rename_i hc; cases h; exact .linkUp hl hx hc
        · cases h
    · cases h
  | readMsg =>
    simp only [ackStep] at h
    split at h
    · rename_i sid hr
      split at h
      · rename_i m rest hd
        split at h
        · rename_i hx; cases h; exact .readMsgClosed hr hd hx
        · rename_i hx
          split at h
          · rename_i hl
            cases h
            cases m with
            | ack n => exact .readAck hr hd hx hl
            | done => exact .readLast hr hd (fun _ => by simp) hx hl
            | error f => exact .readLast hr hd (fun _ => by simp) hx hl
          · cases h
      · cases h
    · cases h
  | readEnd =>
    simp only [ackStep] at h
    split at h
    · rename_i sid hr
      split at h
      · rename_i hd
        split at h
        · rename_i hx; cases h; exact .readEndClosed hr hd hx
        · rename_i hx
          split at h
          · rename_i hl; cases h; exact .readEnd hr hd hx hl
          · cases h
      · cases h
    · cases h
  | readerClosed =>
    simp only [ackStep] at h
    split at h
    · rename_i hw; cases h; exact .readerClosed hw.1 hw.2
    · cases h

/-! ## The link -/

inductive LinkCase (s : Transfer) : LinkAct → Transfer → Prop
  | outage (up down : Nat) : s.link = true → (s.streams (s.opened - 1)).cut = false →
      LinkCase s (.outage up down) { s with
        streams := Function.update s.streams (s.opened - 1) ((s.streams (s.opened - 1)).cutAt up down)
        link := false
        closing := false }
  | outageIdle (up down : Nat) : s.link = true → (s.streams (s.opened - 1)).cut = true →
      LinkCase s (.outage up down) { s with link := false, closing := false }
  | reconnect : s.link = false → s.restore = .idle →
      LinkCase s .reconnect { s with link := true, restore := .start }
  | restoreRead : s.restore = .start → s.handle = true →
      LinkCase s .restoreRead { s with restore := .opening s.spool.bytesAcked }
  | restoreSkip : s.restore = .start → s.handle = false → LinkCase s .restoreRead { s with restore := .idle }
  | restoreOpen {replayFrom : Nat} : s.restore = .opening replayFrom → s.link = true →
      LinkCase s .restoreOpen { s with
        streams := Function.update s.streams s.opened (.opened (.reconnect replayFrom))
        opened := s.opened + 1
        restore := .deliver s.opened }
  | restoreFail {replayFrom : Nat} : s.restore = .opening replayFrom →
      LinkCase s .restoreFail { s with restore := .idle }
  | restoreDeliver {sid : Nat} : s.restore = .deliver sid → s.handle = true → s.ack ≠ .exited →
      s.streamRx.length < upStreamSlots →
      LinkCase s .restoreDeliver { s with streamRx := s.streamRx ++ [sid], restore := .idle }
  | restorePrune {sid : Nat} : s.restore = .deliver sid →
      (s.handle = false ∨ s.ack = .exited ∨ upStreamSlots ≤ s.streamRx.length) →
      LinkCase s .restoreDeliver { s with handle := false, restore := .idle }
  | hookLinkDown : s.restore = .idle → s.closing = false → s.handle = true → s.pump.pc ≠ .exited →
      s.cmds.length < cmdSlots →
      LinkCase s .hookLinkDown { s with cmds := s.cmds ++ [.linkDown], closing := s.link }
  | dropHandle : LinkCase s .dropHandle { s with handle := false }
  | dropStream (sid : Nat) : sid < s.opened → s.held sid = false → (s.streams sid).cut = false →
      LinkCase s (.dropStream sid) { s with
        streams := Function.update s.streams sid { s.streams sid with upFin := true } }

theorem linkStep_cases {s s' : Transfer} {a : LinkAct} (h : s.linkStep a = some s') : LinkCase s a s' := by
  cases a with
  | outage up down =>
    simp only [linkStep] at h
    split at h
    · rename_i hl
      split at h
      · rename_i hc; cases h; exact .outageIdle up down hl hc
      · rename_i hc; cases h; exact .outage up down hl (by simpa using hc)
    · cases h
  | reconnect =>
    simp only [linkStep] at h
    split at h
    · rename_i hl; cases h; exact .reconnect hl.1 hl.2
    · cases h
  | restoreRead =>
    simp only [linkStep] at h
    split at h
    · rename_i hr
      by_cases hh : s.handle = true
      · rw [if_pos hh] at h; cases h; exact .restoreRead hr hh
      · rw [if_neg hh] at h; cases h; exact .restoreSkip hr (by simpa using hh)
    · cases h
  | restoreOpen =>
    simp only [linkStep] at h
    split at h
    · rename_i replayFrom hr
      split at h
      · rename_i hl; cases h; exact .restoreOpen hr hl
      · cases h
    · cases h
  | restoreFail =>
    simp only [linkStep] at h
    split at h
    · rename_i replayFrom hr; cases h; exact .restoreFail hr
    · cases h
  | restoreDeliver =>
    simp only [linkStep] at h
    split at h
    · rename_i sid hr
      split at h
      · rename_i hd; cases h; exact .restoreDeliver hr hd.1 hd.2.1 hd.2.2
      · rename_i hd
        cases h
        refine .restorePrune hr ?_
        cases hh : s.handle with
        | false => exact .inl rfl
        | true =>
          by_cases hx : s.ack = .exited
          · exact .inr (.inl hx)
          · exact .inr (.inr (by by_contra hlt; exact hd ⟨hh, hx, by omega⟩))
    · cases h
  | hookLinkDown =>
    simp only [linkStep] at h
    split at h
    · rename_i hk; cases h; exact .hookLinkDown hk.1 hk.2.1 hk.2.2.1 hk.2.2.2.1 hk.2.2.2.2
    · cases h
  | dropHandle => cases h; exact .dropHandle
  | dropStream sid =>
    simp only [linkStep] at h
    split at h
    · rename_i hd; cases h; exact .dropStream sid hd.1 hd.2.1 hd.2.2
    · cases h

/-! ## `accept_loop` and `run_downlink` -/

/-- A chunk goes to the client: the state without the ack. -/
def written (s : Transfer) (sid offset : Nat) (payload : List UInt8) (rest : List UpFrame) (progress : Bool) : Transfer :=
  { s with
    streams := Function.update s.streams sid { s.streams sid with up := rest }
    down := { s.down with
      bytesWritten := s.down.bytesWritten + (trimmed s.down offset payload).length
      out := s.down.out ++ trimmed s.down offset payload }
    downCallbacks :=
      if progress ∧ trimmed s.down offset payload ≠ [] then
        s.downCallbacks ++ [.progress (s.down.bytesWritten + (trimmed s.down offset payload).length)]
      else s.downCallbacks }

inductive DownCase (s : Transfer) : DownAct → Transfer → Prop
  | acceptConnect {rest : List UpFrame} : s.nextAccept < s.opened → (s.streams s.nextAccept).up = .connect :: rest →
      DownCase s .accept { s with
        streams := Function.update s.streams s.nextAccept { s.streams s.nextAccept with up := rest }
        nextAccept := s.nextAccept + 1
        down := { s.down with pc := .spawned, streamRx := [s.nextAccept], handle := true } }
  | acceptReconnect {replayFrom : Nat} {rest : List UpFrame} : s.nextAccept < s.opened →
      (s.streams s.nextAccept).up = .reconnect replayFrom :: rest → s.down.handle = true →
      replayFrom ≤ s.down.bytesWritten → s.down.pc ≠ .exited → s.down.streamRx.length < downStreamSlots →
      DownCase s .accept { s with
        streams := Function.update s.streams s.nextAccept { s.streams s.nextAccept with up := rest }
        nextAccept := s.nextAccept + 1
        down := { s.down with streamRx := s.down.streamRx ++ [s.nextAccept] } }
  | acceptRefused {replayFrom : Nat} {rest : List UpFrame} : s.nextAccept < s.opened →
      (s.streams s.nextAccept).up = .reconnect replayFrom :: rest →
      (s.down.handle = false ∨ s.down.bytesWritten < replayFrom ∨ s.down.pc = .exited ∨
        downStreamSlots ≤ s.down.streamRx.length) →
      DownCase s .accept { s with
        streams := Function.update s.streams s.nextAccept { s.streams s.nextAccept with up := rest }
        nextAccept := s.nextAccept + 1 }
  | acceptSkip : s.nextAccept < s.opened → (s.streams s.nextAccept).cut = true →
      DownCase s .acceptSkip { s with nextAccept := s.nextAccept + 1 }
  | start {sid : Nat} {rest : List Nat} : s.down.pc = .spawned → s.down.streamRx = sid :: rest →
      DownCase s .start { s with down := { s.down with pc := .tcpAccept sid, streamRx := rest } }
  | tcpAccept {sid : Nat} : s.down.pc = .tcpAccept sid →
      DownCase s .tcpAccept { s with down := { s.down with pc := .reading sid, lastAcked := s.down.bytesWritten } }
  | tcpAcceptFail {sid : Nat} : s.down.pc = .tcpAccept sid →
      DownCase s .tcpAcceptFail { s with
        streams := Function.update s.streams sid ((s.streams sid).writeMsg (.error .tcpAccept))
        down := { s.down with pc := .report sid (.failed .tcpAccept) } }
  | duplicate {sid offset : Nat} {payload : List UInt8} {rest : List UpFrame} (progress : Bool) :
      s.down.pc = .reading sid → (s.streams sid).up = .chunk offset payload :: rest →
      offset + payload.length ≤ s.down.bytesWritten →
      DownCase s (.chunk progress) { s with
        streams := Function.update s.streams sid { s.streams sid with up := rest } }
  | gap {sid offset : Nat} {payload : List UInt8} {rest : List UpFrame} (progress : Bool) :
      s.down.pc = .reading sid → (s.streams sid).up = .chunk offset payload :: rest →
      s.down.bytesWritten < offset →
      DownCase s (.chunk progress) { s with
        streams := Function.update s.streams sid
          ({ s.streams sid with up := rest }.writeMsg (.error .chunkGap))
        down := { s.down with pc := .report sid (.failed .chunkGap) } }
  | write {sid offset : Nat} {payload : List UInt8} {rest : List UpFrame} (progress : Bool) :
      s.down.pc = .reading sid → (s.streams sid).up = .chunk offset payload :: rest →
      s.down.bytesWritten < offset + payload.length → offset ≤ s.down.bytesWritten →
      s.down.bytesWritten + (trimmed s.down offset payload).length - s.down.lastAcked < ackInterval →
      DownCase s (.chunk progress) (s.written sid offset payload rest progress)
  | writeAck {sid offset : Nat} {payload : List UInt8} {rest : List UpFrame} (progress : Bool) :
      s.down.pc = .reading sid → (s.streams sid).up = .chunk offset payload :: rest →
      s.down.bytesWritten < offset + payload.length → offset ≤ s.down.bytesWritten →
      ackInterval ≤ s.down.bytesWritten + (trimmed s.down offset payload).length - s.down.lastAcked →
      DownCase s (.chunk progress) { s.written sid offset payload rest progress with
        streams := Function.update s.streams sid ({ s.streams sid with up := rest }.writeMsg
          (.ack (s.down.bytesWritten + (trimmed s.down offset payload).length)))
        down := { s.down with
          bytesWritten := s.down.bytesWritten + (trimmed s.down offset payload).length
          lastAcked := s.down.bytesWritten + (trimmed s.down offset payload).length
          out := s.down.out ++ trimmed s.down offset payload } }
  | writeFail {sid offset : Nat} {payload : List UInt8} {rest : List UpFrame} (n : Nat) :
      s.down.pc = .reading sid → (s.streams sid).up = .chunk offset payload :: rest →
      s.down.bytesWritten < offset + payload.length → offset ≤ s.down.bytesWritten →
      DownCase s (.writeFail n) { s with
        streams := Function.update s.streams sid ((s.streams sid).writeMsg (.error .tcpWrite))
        down := { s.down with
          pc := .report sid (.failed .tcpWrite)
          out := s.down.out ++ (trimmed s.down offset payload).take n } }
  | eof {sid : Nat} : s.down.pc = .reading sid → (s.streams sid).up = [] → (s.streams sid).upFin = true →
      (s.streams sid).cut = false →
      DownCase s .eof { s with
        streams := Function.update s.streams sid { (s.streams sid).writeMsg .done with downFin := true }
        down := { s.down with pc := .report sid (.done s.down.bytesWritten) } }
  | report {sid : Nat} {c : Callback} : s.down.pc = .report sid c →
      DownCase s .report { s with
        down := { s.down with pc := .exited }
        downCallbacks := s.downCallbacks ++ [c] }
  | readError {sid : Nat} : s.down.pc = .reading sid → (s.streams sid).up = [] → (s.streams sid).cut = true →
      DownCase s .readError { s with down := { s.down with pc := .waiting } }
  | resume {sid : Nat} {rest : List Nat} : s.down.pc = .waiting → s.down.streamRx = sid :: rest →
      DownCase s .resume { s with down := { s.down with pc := .reading sid, streamRx := rest } }
  | lost : s.down.pc = .waiting → s.down.streamRx = [] → s.down.handle = false →
      DownCase s .lost { s with
        down := { s.down with pc := .exited }
        downCallbacks := s.downCallbacks ++ [.failed .handleDropped] }
  | dropHandle : DownCase s .dropHandle { s with down := { s.down with handle := false } }
  | dropStream (sid : Nat) : sid < s.nextAccept → s.heldDown sid = false →
      DownCase s (.dropStream sid) { s with
        streams := Function.update s.streams sid { s.streams sid with downFin := true, stopped := true } }

theorem downStep_cases {s s' : Transfer} {a : DownAct} (h : s.downStep a = some s') : DownCase s a s' := by
  cases a with
  | accept =>
    simp only [downStep] at h
    split at h
    · rename_i hn
      split at h
      · rename_i rest hu; cases h; exact .acceptConnect hn hu
      · rename_i replayFrom rest hu
        simp only [Option.some.injEq] at h
        subst h
        cases hh : s.down.handle with
        | false =>
          simp only [Bool.false_eq_true, if_false]
          exact .acceptRefused hn hu (.inl hh)
        | true =>
          simp only [if_true, deliverReconnectStream]
          by_cases hw : s.down.bytesWritten < replayFrom
          · rw [if_pos hw]
            exact .acceptRefused hn hu (.inr (.inl hw))
          · rw [if_neg hw]
            by_cases hc : s.down.pc ≠ .exited ∧ s.down.streamRx.length < downStreamSlots
            · rw [if_pos hc]
              exact .acceptReconnect hn hu hh (by omega) hc.1 hc.2
            · rw [if_neg hc]
              refine .acceptRefused hn hu (.inr (.inr ?_))
              by_cases hx : s.down.pc = .exited
              · exact .inl hx
              · exact .inr (by by_contra hlt; exact hc ⟨hx, by omega⟩)
      · cases h
    · cases h
  | acceptSkip =>
    simp only [downStep] at h
    split at h
    · rename_i hn; cases h; exact .acceptSkip hn.1 hn.2
    · cases h
  | start =>
    simp only [downStep] at h
    split at h
    · rename_i sid rest hpc hrx; cases h; exact .start hpc hrx
    · cases h
  | tcpAccept =>
    simp only [downStep] at h
    split at h
    · rename_i sid hpc; cases h; exact .tcpAccept hpc
    · cases h
  | tcpAcceptFail =>
    simp only [downStep] at h
    split at h
    · rename_i sid hpc; cases h; exact .tcpAcceptFail hpc
    · cases h
  | chunk progress =>
    simp only [downStep] at h
    split at h
    · rename_i sid hpc
      split at h
      · rename_i offset payload rest hu
        split at h
        · rename_i hd; cases h; exact .duplicate progress hpc hu hd
        · rename_i hd
          split at h
          · rename_i hg
            cases h
            simp only [downFail, popUp, setStream, Function.update_self, Function.update_idem]
            exact .gap progress hpc hu hg
          · rename_i hg
            simp only [Option.some.injEq] at h
            subst h
            by_cases ha : ackInterval ≤
                s.down.bytesWritten + (trimmed s.down offset payload).length - s.down.lastAcked
            · rw [show (s.popUp sid rest).writeChunk sid offset payload progress = _ from if_pos ha]
              simp only [popUp, setStream, Function.update_self, Function.update_idem]
              exact .writeAck progress hpc hu (by omega) (by omega) ha
            · rw [show (s.popUp sid rest).writeChunk sid offset payload progress = _ from if_neg ha]
              exact .write progress hpc hu (by omega) (by omega) (by omega)
      · cases h
    · cases h
  | writeFail n =>
    simp only [downStep] at h
    split at h
    · rename_i sid hpc
      split at h
      · rename_i offset payload rest hu
        split at h
        · rename_i hw; cases h; exact .writeFail n hpc hu hw.1 hw.2
        · cases h
      · cases h
    · cases h
  | eof =>
    simp only [downStep] at h
    split at h
    · rename_i sid hpc
      split at h
      · rename_i he; cases h; exact .eof hpc he.1 he.2.1 he.2.2
      · cases h
    · cases h
  | report =>
    simp only [downStep] at h
    split at h
    · rename_i sid c hpc; cases h; exact .report hpc
    · cases h
  | readError =>
    simp only [downStep] at h
    split at h
    · rename_i sid hpc
      split at h
      · rename_i he; cases h; exact .readError hpc he.1 he.2
      · cases h
    · cases h
  | resume =>
    simp only [downStep] at h
    split at h
    · rename_i sid rest hpc hrx; cases h; exact .resume hpc hrx
    · cases h
  | lost =>
    simp only [downStep] at h
    split at h
    · rename_i hw; cases h; exact .lost hw.1 hw.2.1 hw.2.2
    · cases h
  | dropHandle => cases h; exact .dropHandle
  | dropStream sid =>
    simp only [downStep] at h
    split at h
    · rename_i hd; cases h; exact .dropStream sid hd.1 hd.2
    · cases h

end Quelay.Agent.Transfer
