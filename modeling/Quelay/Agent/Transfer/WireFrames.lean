/-
  Quelay.Agent.Transfer.WireFrames — the frames of a run, and the bytes that carry them.

  - Each frame is read back by the reader that is used on it, with what follows left over,
    and no proper part of it is (`Codec.Good.readOpen`, `Codec.Good.readMsg`,
    `Codec.readChunk_up`).
  - In every run no chunk is longer than `CHUNK_SIZE`, a stream that was not taken starts
    with its header (`Sized`), and, while a `u64` counts what the client has written, every
    number in a frame fits its field (`fits_up`, `fits_down`).
-/

import Quelay.Agent.Transfer.Wire
import Quelay.Agent.Transfer.Parked

namespace Quelay.Agent

open Quelay.Lib

/-! ## Codecs -/

def UpFrame.isChunk : UpFrame → Bool
  | .chunk _ _ => true
  | _ => false

/-- The numbers of the frame fit the fields it has for them. -/
def UpFrame.Fits : UpFrame → Prop
  | .connect => True
  | .reconnect replayFrom => replayFrom < 2 ^ 64
  | .chunk offset payload => offset < 2 ^ 64 ∧ payload.length ≤ chunkSize

def WormholeMsg.Fits : WormholeMsg → Prop
  | .ack n => n < 2 ^ 64
  | _ => True

namespace Codec

variable {c : Codec}

/-- `serde_json` reads back what it wrote, and nothing it writes is too long to be sent. -/
structure Good (c : Codec) : Prop where
  connect : ∃ payload, c.connectJson.Inverts c.header payload ∧ payload.length ≤ Framing.maxJsonPayload
  reconnect : ∀ replayFrom, ∃ payload, c.reconnectJson.Inverts (c.reconnectHeader replayFrom) payload ∧
    payload.length ≤ Framing.maxJsonPayload
  wormhole : ∀ m : WormholeMsg, ∃ payload, c.wormholeJson.Inverts m.toWire payload ∧
    payload.length ≤ Framing.maxJsonPayload

/-- The bytes of a frame are what its writer writes, and its reader reads them back. -/
theorem bytesOf_reads {β : Type} {written : Except Framing.QueLayError (List UInt8)} {payload : List UInt8}
    {r : Reader Framing.QueLayError β} {v : β} (h : Framing.RoundTrips written payload r v)
    (hlen : payload.length ≤ Framing.maxJsonPayload) :
    (∀ tail, r (bytesOf written ++ tail) = .ok (v, tail)) ∧
      ∀ k, k < (bytesOf written).length → ∃ e, r ((bytesOf written).take k) = .error e := by
  obtain ⟨bytes, hb⟩ := h.succeeds.mpr hlen
  have hbytes : bytesOf written = bytes := by rw [hb]; rfl
  rw [hbytes]
  exact ⟨fun tail => h.reads bytes tail hb, fun k hk => h.cut bytes k hb hk⟩

theorem Good.connect_trips (h : c.Good) : ∃ payload, payload.length ≤ Framing.maxJsonPayload ∧
    Framing.RoundTrips (Framing.writeConnectHeader c.connectJson c.header) payload
      (Framing.readStreamOpen c.connectJson c.reconnectJson) (.new c.header) := by
  obtain ⟨payload, hinv, hlen⟩ := h.connect
  refine ⟨payload, hlen, (Framing.readStreamOpen_reads _ _).roundTrips (fun _ => rfl) hinv fun len => ?_⟩
  rw [Framing.decodeOpen, if_pos rfl, hinv.deserialize]
  rfl

theorem Good.reconnect_trips (h : c.Good) (replayFrom : Nat) : ∃ payload, payload.length ≤ Framing.maxJsonPayload ∧
    Framing.RoundTrips (Framing.writeReconnectHeader c.reconnectJson (c.reconnectHeader replayFrom)) payload
      (Framing.readStreamOpen c.connectJson c.reconnectJson) (.reconnect (c.reconnectHeader replayFrom)) := by
  obtain ⟨payload, hinv, hlen⟩ := h.reconnect replayFrom
  refine ⟨payload, hlen, (Framing.readStreamOpen_reads _ _).roundTrips (fun _ => rfl) hinv fun len => ?_⟩
  rw [Framing.decodeOpen, if_neg (show Framing.opReconnect ≠ Framing.opNewStream by decide), if_pos rfl,
    hinv.deserialize]
  rfl

theorem Good.readOpen (h : c.Good) {f : UpFrame} (hf : f.isChunk = false) (hfit : f.Fits) :
    (∀ tail, c.readOpen (c.upBytes f ++ tail) = .ok (f, tail)) ∧
      ∀ k, k < (c.upBytes f).length → ∃ e, c.readOpen ((c.upBytes f).take k) = .error e := by
  cases f with
  | chunk => cases hf
  | connect =>
    obtain ⟨payload, hlen, htrip⟩ := h.connect_trips
    obtain ⟨hread, hcut⟩ := bytesOf_reads htrip hlen
    refine ⟨fun tail => ?_, fun k hk => ?_⟩
    · rw [Codec.readOpen, upBytes, hread]
    · obtain ⟨e, he⟩ := hcut k hk
      exact ⟨e, by rw [Codec.readOpen, upBytes, he]⟩
  | reconnect replayFrom =>
    obtain ⟨payload, hlen, htrip⟩ := h.reconnect_trips replayFrom
    obtain ⟨hread, hcut⟩ := bytesOf_reads htrip hlen
    have hexact : (c.reconnectHeader replayFrom).replayFrom.toNat = replayFrom := UInt64.toNat_ofNat_of_lt' hfit
    refine ⟨fun tail => ?_, fun k hk => ?_⟩
    · rw [Codec.readOpen, upBytes, hread]
      dsimp only
      rw [hexact]
    · obtain ⟨e, he⟩ := hcut k hk
      exact ⟨e, by rw [Codec.readOpen, upBytes, he]⟩

/-- Nothing is not a header. -/
theorem readOpen_nil : ∃ e ∈ framedLacks "framing", c.readOpen [] = .error e := by
  have h := Framing.readStreamOpen_reads c.connectJson c.reconnectJson []
  rw [Framing.readFramed_eq, readFrame_eq, if_pos (by decide)] at h
  exact ⟨_, List.mem_cons_self, by rw [Codec.readOpen, h]⟩

theorem readMsg_nil : ∃ e ∈ framedLacks "wormhole", c.readMsg [] = .error e := by
  have h := Framing.readWormholeMsg_reads c.wormholeJson []
  rw [Framing.readFramed_eq, readFrame_eq, if_pos (by decide)] at h
  exact ⟨_, List.mem_cons_self, h⟩

theorem Good.readMsg (h : c.Good) (m : WormholeMsg) :
    (∀ tail, c.readMsg (c.downBytes m ++ tail) = .ok (m.toWire, tail)) ∧
      ∀ k, k < (c.downBytes m).length → ∃ e, c.readMsg ((c.downBytes m).take k) = .error e := by
  obtain ⟨payload, hinv, hlen⟩ := h.wormhole m
  have htrip : Framing.RoundTrips (Framing.writeWormholeMsg c.wormholeJson m.toWire) payload
      (Framing.readWormholeMsg c.wormholeJson) m.toWire :=
    (Framing.readWormholeMsg_reads _).roundTrips (fun _ => rfl) hinv fun _ => hinv.deserialize "wormhole"
  exact bytesOf_reads htrip hlen

/-- The chunk that the bytes of a frame are read as. -/
theorem readChunk_up {offset : Nat} {payload : List UInt8} (hfit : (UpFrame.chunk offset payload).Fits) :
    (∀ tail, Framing.readChunk (c.upBytes (.chunk offset payload) ++ tail) =
      .ok (some ⟨UInt64.ofNat offset, payload⟩, tail)) ∧
    (∀ k, 0 < k → k < (c.upBytes (.chunk offset payload)).length →
      ∃ e, Framing.readChunk ((c.upBytes (.chunk offset payload)).take k) = .error e) ∧
    (UInt64.ofNat offset).toNat = offset := by
  let ch : Framing.Chunk := ⟨UInt64.ofNat offset, payload⟩
  have hf : ch.Fits := hfit.2
  exact ⟨fun tail => Framing.readChunk_append hf tail, fun k h0 hk => Framing.readChunk_cut hf h0 hk,
    UInt64.toNat_ofNat_of_lt' hfit.1⟩

end Codec

theorem WormholeMsg.ofWire_toWire {m : WormholeMsg} (h : m.Fits) : ofWire m.toWire = some m := by
  cases m with
  | ack n => exact congrArg (some ∘ WormholeMsg.ack) (UInt64.toNat_ofNat_of_lt' h)
  | done => rfl
  | error f => rw [toWire, ofWire, Failure.ofSent_sent]; rfl

/-! ## The frames of a run -/

namespace Transfer

structure SizedOf (streams : Nat → QStream) (nextAccept : Nat) (pc : PumpPc) : Prop where
  chunk : ∀ rem c, pc = .write rem c → c.length ≤ chunkSize
  sized : ∀ sid o p, .chunk o p ∈ (streams sid).up → p.length ≤ chunkSize
  front : ∀ sid, nextAccept ≤ sid → ∀ f l, (streams sid).up = f :: l → f.isChunk = false

/-- No chunk is longer than `CHUNK_SIZE`, and a stream that the receiver has not taken
    starts with its header. -/
def Sized (s : Transfer) : Prop := SizedOf s.streams s.nextAccept s.pump.pc

variable {streams : Nat → QStream} {nextAccept : Nat} {pc : PumpPc} {sid : Nat}

theorem SizedOf.update {q' : QStream} {pc' : PumpPc} (hi : SizedOf streams nextAccept pc)
    (hc : ∀ rem c, pc' = .write rem c → c.length ≤ chunkSize)
    (hm : ∀ o p, .chunk o p ∈ q'.up → .chunk o p ∈ (streams sid).up ∨ p.length ≤ chunkSize)
    (hf : nextAccept ≤ sid → ∀ f l, q'.up = f :: l → f.isChunk = false) :
    SizedOf (Function.update streams sid q') nextAccept pc' := by
  refine ⟨hc, ?_, ?_⟩
  · refine forall_update (P := fun _ q => ∀ o p, .chunk o p ∈ q.up → p.length ≤ chunkSize) hi.sized ?_
    intro o p hp
    rcases hm o p hp with hold | hnew
    · exact hi.sized sid o p hold
    · exact hnew
  · exact forall_update (P := fun i q => nextAccept ≤ i → ∀ f l, q.up = f :: l → f.isChunk = false) hi.front hf

/-- Marks on a stream leave its frames. -/
theorem SizedOf.flags {q' : QStream} {pc' : PumpPc} (hi : SizedOf streams nextAccept pc)
    (hup : q'.up = (streams sid).up) (hc : ∀ rem c, pc' = .write rem c → pc = .write rem c) :
    SizedOf (Function.update streams sid q') nextAccept pc' := by
  refine hi.update (fun rem c h => hi.chunk rem c (hc rem c h)) (fun o p h => .inl (hup ▸ h)) ?_
  intro hle f l hl
  exact hi.front sid hle f l (hup ▸ hl)

/-- The first frame of a stream is taken off. -/
theorem SizedOf.pop {q' : QStream} {f : UpFrame} {nextAccept' : Nat} (hi : SizedOf streams nextAccept pc)
    (hup : (streams sid).up = f :: q'.up) (hle : nextAccept ≤ nextAccept') (hlt : sid < nextAccept') :
    SizedOf (Function.update streams sid q') nextAccept' pc := by
  refine ⟨hi.chunk, ?_, ?_⟩
  · refine forall_update (P := fun _ q => ∀ o p, .chunk o p ∈ q.up → p.length ≤ chunkSize) hi.sized ?_
    intro o p hp
    exact hi.sized sid o p (by rw [hup]; exact List.mem_cons_of_mem _ hp)
  · intro i hi' f' l hl
    rw [Function.update_of_ne (by omega)] at hl
    exact hi.front i (by omega) f' l hl

theorem SizedOf.movePump (hi : SizedOf streams nextAccept pc) {pc' : PumpPc}
    (hc : ∀ rem c, pc' = .write rem c → c.length ≤ chunkSize) : SizedOf streams nextAccept pc' :=
  ⟨hc, hi.sized, hi.front⟩

theorem init_sized (capped : Bool) : Sized (init capped) := by
  refine ⟨?_, ?_, ?_⟩
  · intro rem c h
    cases h
  · intro sid o p h
    rw [init_streams] at h
    split at h
    · exact absurd h (by simp [QStream.first])
    · cases h
  · intro sid _ f l h
    rw [init_streams] at h
    split at h
    · cases h
      rfl
    · cases h

theorem pump_sized {s s' : Transfer} {a : PumpAct} (hi : Sized s) (hl : Living s) (hf : Framed s)
    (h : PumpCase s a s') : Sized s' := by
  cases h with
  | linkUp | drainFin | postFin =>
    refine SizedOf.flags hi rfl ?_
    intro rem c h
    cases h
  | @drainChunk remaining chunk split hpc hz hlt hc hne =>
    refine SizedOf.movePump hi ?_
    intro rem c h
    cases h
    rw [hc, List.length_take]
    have hclip : remaining.clip (min (s.spool.sliceFrom split s.pump.q).length chunkSize) ≤ chunkSize := by
      cases remaining with
      | bytes n => simp only [Budget.clip]; omega
      | unlimited => simp only [Budget.clip]; omega
    omega
  | @write rem chunk hpc =>
    have hsize := hi.chunk rem chunk hpc
    refine SizedOf.update hi ?_ ?_ ?_
    · intro rem c h
      cases h
    · intro o p hm
      unfold QStream.write at hm
      dsimp only at hm
      split at hm
      · exact .inl hm
      · rcases List.mem_append.mp hm with hm | hm
        · exact .inl hm
        · cases List.mem_singleton.mp hm
          exact .inr hsize
    · intro hle f l hup
      unfold QStream.write at hup
      dsimp only at hup
      split at hup
      · exact hi.front _ hle f l hup
      · rename_i hcut
        -- A live stream that was not taken still has its header in front of the chunk.
        have hlane := hl.sound.lane
        have hopen : s.pump.quicTx < s.opened :=
          Nat.lt_of_le_of_lt (hlane.resumedLe _ List.mem_cons_self) hlane.currentLt
        have hhead : headed (s.streams s.pump.quicTx).up = true :=
          (hf.unread _ hle hopen).resolve_left hcut
        cases hq : (s.streams s.pump.quicTx).up with
        | nil => rw [hq] at hhead; cases hhead
        | cons g rest =>
          rw [hq, List.cons_append] at hup
          rw [← (List.cons.inj hup).1]
          exact hi.front _ hle g rest hq
  | ticket | linkDown | linkUpIgnored | finishDrained | finishBacklog | finishWaiting | drainSpent | drainNone
  | drainEmpty | writeFail | postDone | post | closed =>
    refine SizedOf.movePump hi ?_
    intro rem c h
    first | cases h | exact hi.chunk rem c h
  | @store next hpc =>
    refine SizedOf.movePump hi ?_
    intro rem c h
    cases next <;> cases h
  | discard => exact hi

theorem step_sized {s s' : Transfer} {a : Act} (hi : Sized s) (hl : Living s) (hf : Framed s)
    (h : s.step a = some s') : Sized s' := by
  have hreading : ∀ {sid}, s.down.pc = .reading sid → sid < s.nextAccept := by
    intro sid hpc
    exact hl.receiver.holding sid ⟨by rw [hpc]; rfl, .inr (.inl hpc)⟩
  cases a with
  | reader a => cases readerStep_cases h <;> exact hi
  | ticket a => cases ticketStep_cases h <;> exact hi
  | pump a => exact pump_sized hi hl hf (pumpStep_cases h)
  | ack a =>
    cases ackStep_cases h with
    | readMsgClosed | readAck | readLast => exact SizedOf.flags hi rfl fun _ _ h => h
    | _ => exact hi
  | link a =>
    cases linkStep_cases h with
    | outage up =>
      refine SizedOf.update hi hi.chunk (fun o p hm => .inl (List.mem_of_mem_take hm)) ?_
      intro hle f l hl
      have hup : (s.streams (s.opened - 1)).up = f :: (l ++ (s.streams (s.opened - 1)).up.drop up) := by
        rw [← List.cons_append, ← hl]
        exact (List.take_append_drop up _).symm
      exact hi.front _ hle f _ hup
    | restoreOpen =>
      refine SizedOf.update hi hi.chunk (fun o p hm => absurd hm (by simp [QStream.opened])) ?_
      intro _ f l hl
      cases hl
      rfl
    | dropStream => exact SizedOf.flags hi rfl fun _ _ h => h
    | _ => exact hi
  | down a =>
    cases downStep_cases h with
    | acceptConnect _ hu | acceptReconnect _ hu | acceptRefused _ hu =>
      exact SizedOf.pop hi hu (Nat.le_succ _) (Nat.lt_succ_self _)
    | acceptSkip => exact ⟨hi.chunk, hi.sized, fun sid hle => hi.front sid (Nat.le_of_succ_le hle)⟩
    | duplicate _ hpc hu | gap _ hpc hu | write _ hpc hu | writeAck _ hpc hu =>
      exact SizedOf.pop hi hu (Nat.le_refl _) (hreading hpc)
    | tcpAcceptFail | writeFail | eof | dropStream => exact SizedOf.flags hi rfl fun _ _ h => h
    | _ => exact hi

/-- What the reader has not pushed is still in the socket. -/
theorem step_wrote {s s' : Transfer} {a : Act} (hi : s.wrote = s.pushed ++ s.sock) (h : s.step a = some s') :
    s'.wrote = s'.pushed ++ s'.sock := by
  cases a with
  | reader a =>
    cases readerStep_cases h with
    | clientWrite data => simp only [hi, List.append_assoc]
    | read n => simp only [hi, List.append_assoc, List.take_append_drop]
    | _ => exact hi
  | ticket a => cases ticketStep_cases h <;> exact hi
  | pump a => cases pumpStep_cases h <;> exact hi
  | ack a => cases ackStep_cases h <;> exact hi
  | link a => cases linkStep_cases h <;> exact hi
  | down a => cases downStep_cases h <;> exact hi

/-- What is known of the frames of a run. -/
structure FramesOk (s : Transfer) : Prop where
  living : Living s
  framed : Framed s
  sized : Sized s
  wrote : s.wrote = s.pushed ++ s.sock

theorem reach_framesOk {capped : Bool} {ok : Transfer → Act → Prop} {s : Transfer}
    (h : Reach step ok (init capped) s) : FramesOk s := by
  refine h.invariant ⟨init_living capped, init_framed capped, init_sized capped, rfl⟩ ?_
  intro s s' a hi _ hs
  exact ⟨step_living hi.living hs, step_framed hi.framed hi.living hs, step_sized hi.sized hi.living hi.framed hs,
    step_wrote hi.wrote hs⟩

theorem FramesOk.pushed_lt {s : Transfer} (hi : FramesOk s) (hn : s.wrote.length < 2 ^ 64) : s.pushed.length < 2 ^ 64 := by
  rw [hi.wrote, List.length_append] at hn
  omega

theorem FramesOk.written_lt {s : Transfer} (hi : FramesOk s) (hn : s.wrote.length < 2 ^ 64) :
    s.down.bytesWritten < 2 ^ 64 :=
  Nat.lt_of_le_of_lt hi.living.sound.bytes.outOk.le (hi.pushed_lt hn)

theorem Run.mem {pushed : List UInt8} {o e : Nat} {l : List UpFrame} (h : Run pushed o l e) {f : UpFrame} (hf : f ∈ l) :
    ∃ offset payload, f = .chunk offset payload ∧ offset + payload.length ≤ pushed.length := by
  induction h with
  | nil => cases hf
  | @cons o e payload l hne hp _ ih =>
    rcases List.mem_cons.mp hf with rfl | hf
    · exact ⟨o, payload, rfl, length_le_of_prefix_drop hp hne⟩
    · exact ih hf

/-- What is behind the front frame is a chunk, and so is the front unless it is a header. -/
theorem mem_body {l : List UpFrame} {f : UpFrame} (h : f ∈ l) : f ∈ body l ∨ (f.isChunk = false ∧ ∃ rest, l = f :: rest) := by
  cases l with
  | nil => cases h
  | cons g rest =>
    cases g with
    | chunk => exact .inl h
    | connect | reconnect =>
      rcases List.mem_cons.mp h with rfl | h
      · exact .inr ⟨rfl, rest, rfl⟩
      · exact .inl h

theorem fits_up {s : Transfer} (hi : FramesOk s) (hn : s.wrote.length < 2 ^ 64) {sid : Nat} {f : UpFrame}
    (hf : f ∈ (s.streams sid).up) : f.Fits := by
  have hpush := hi.pushed_lt hn
  have hwrit := hi.written_lt hn
  have hb := hi.living.sound.bytes.streamOk sid
  rcases mem_body hf with hbody | ⟨hh, rest, hup⟩
  · obtain ⟨o, e, _, hrun⟩ := hb.run
    obtain ⟨offset, payload, rfl, hle⟩ := hrun.mem hbody
    exact ⟨by omega, hi.sized.sized sid offset payload hf⟩
  · cases f with
    | chunk => cases hh
    | connect => trivial
    | reconnect r => exact Nat.lt_of_le_of_lt (hb.header r rest hup) hwrit

theorem fits_down {s : Transfer} (hi : FramesOk s) (hn : s.wrote.length < 2 ^ 64) {sid : Nat} {m : WormholeMsg}
    (hm : m ∈ (s.streams sid).down) : m.Fits := by
  cases m with
  | ack n => exact Nat.lt_of_le_of_lt ((hi.living.sound.bytes.streamOk sid).acks n hm) (hi.written_lt hn)
  | done => trivial
  | error f => trivial

end Transfer

end Quelay.Agent
