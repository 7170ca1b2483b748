/-
  Quelay.Agent.CallbackAgent — the thread that owns the callback socket to the client
  (`quelay-agent/src/callback.rs`).

  Tasks send commands into a channel of 64 slots; the thread takes them in order. `Register`
  drops the connection and makes a new one, `Ping` and the events go out on the connection
  there is, and an error of either drops it. Whether a connect, a ping or a call succeeds is
  the environment's; so is the value of a percentage, a `Percent`.

  A connection's record stays when it is dropped. Ghosts: what was handled before the first
  connection and on or after each, what was sent, and whether an error dropped it.

  In every run a connection carries the events that follow its `Register` in the order they
  were sent, each once and none left out, up to its end: the first error on it or the next
  `Register` (`callbacks_in_order`).
-/

import Quelay.Thrift.Mapping
import Mathlib.Data.List.TakeWhile

namespace Quelay.Agent

open Quelay.Lib Quelay.Domain Quelay.Thrift SessionManager

/-! ## Commands and calls -/

inductive CallbackCmd (Percent : Type) where
  | register (endpoint : String)
  | ping
  | streamStarted (uuid : Uuid) (info : DomainStreamInfo) (port : UInt16)
  | streamProgress (uuid : Uuid) (bytes : UInt64) (percent : Option Percent)
  | streamDone (uuid : Uuid) (bytes bytesWire : UInt64)
  | streamFailed (uuid : Uuid) (code : FailReason) (reason : String)
  | linkStatus (state : LinkState)
  | queueStatus (status : QueueStatus)

structure ProgressInfo (Percent : Type) where
  bytesTransferred : Option Int64
  sizeBytes : Option Int64
  percentDone : Option Percent

/-- The `oneway` calls of `QueLayCallback`. -/
inductive Call (Percent : Type) where
  | streamStarted (uuid : String) (info : WireStreamInfo) (port : Int32)
  | streamProgress (uuid : String) (progress : ProgressInfo Percent)
  | streamDone (uuid : String) (bytesTransferred bytesWire : Int64)
  | streamFailed (uuid : String) (code : FailReason) (reason : String)
  | linkStatusUpdate (state : WireLinkState)
  | queueStatusUpdate (status : WireQueueStatus)

variable {Percent : Type} (uuids : UuidText)

/-- The call that an event goes out as. -/
def CallbackCmd.call : CallbackCmd Percent → Option (Call Percent)
  | .register _ | .ping => none
  | .streamStarted uuid info port =>
    some (.streamStarted (uuids.toText uuid) (streamInfoToWire info) (.ofNat port.toNat))
  | .streamProgress uuid bytes percent => some (.streamProgress (uuids.toText uuid) ⟨some bytes.toInt64, none, percent⟩)
  | .streamDone uuid bytes bytesWire => some (.streamDone (uuids.toText uuid) bytes.toInt64 bytesWire.toInt64)
  | .streamFailed uuid code reason => some (.streamFailed (uuids.toText uuid) code reason)
  | .linkStatus state => some (.linkStatusUpdate state.toWire)
  | .queueStatus status => some (.queueStatusUpdate (queueStatusToWire uuids status))

/-- What a client reads from a call, through the same mapping. -/
def Call.received : Call Percent → Option (CallbackCmd Percent)
  | .streamStarted uuid info port =>
    (uuids.parseStr uuid).map fun u => .streamStarted u (streamInfoOfWire info) (.ofNat port.toInt.toNat)
  | .streamProgress uuid progress =>
    (uuids.parseStr uuid).map fun u =>
      .streamProgress u (progress.bytesTransferred.getD 0).toUInt64 progress.percentDone
  | .streamDone uuid bytes bytesWire => (uuids.parseStr uuid).map fun u => .streamDone u bytes.toUInt64 bytesWire.toUInt64
  | .streamFailed uuid code reason => (uuids.parseStr uuid).map fun u => .streamFailed u code reason
  | .linkStatusUpdate state => some (.linkStatus (.ofWire state))
  | .queueStatusUpdate status => some (.queueStatus (queueStatusOfWire uuids status))

def CallbackCmd.isRegister : CallbackCmd Percent → Bool
  | .register _ => true
  | _ => false

/-! ## The thread -/

def callbackSlots : Nat := 64

/-- A connection. Ghosts: the commands handled since its `Register`, and that an error of a
    call or a ping has dropped it. -/
structure Connection (Percent : Type) where
  endpoint : String
  calls : List (Call Percent)
  since : List (CallbackCmd Percent)
  broken : Bool

/-- `connections`: newest first; the newest is the client if there is one. -/
structure CallbackAgent (Percent : Type) where
  rx : List (CallbackCmd Percent)
  client : Bool
  connections : List (Connection Percent)
  before : List (CallbackCmd Percent)
  sent : List (CallbackCmd Percent)

inductive CallbackAct (Percent : Type) where
  | send (cmd : CallbackCmd Percent)
  | recv (ok : Bool)

namespace CallbackAgent

def init : CallbackAgent Percent := ⟨[], false, [], [], []⟩

/-- Ghost: the command is handled. -/
def note (a : CallbackAgent Percent) (cmd : CallbackCmd Percent) : CallbackAgent Percent :=
  match a.connections with
  | [] => { a with before := a.before ++ [cmd] }
  | c :: past => { a with connections := { c with since := c.since ++ [cmd] } :: past }

/-- An error on the connection: the client is marked dead. -/
def dead (a : CallbackAgent Percent) : CallbackAgent Percent :=
  match a.connections with
  | [] => { a with client := false }
  | c :: past => { a with client := false, connections := { c with broken := true } :: past }

def deliver (a : CallbackAgent Percent) (call : Call Percent) : CallbackAgent Percent :=
  match a.connections with
  | [] => a
  | c :: past => { a with connections := { c with calls := c.calls ++ [call] } :: past }

/-- Nothing without a client; else the call, or its error. -/
def fire (a : CallbackAgent Percent) (call : Call Percent) (ok : Bool) : CallbackAgent Percent :=
  if a.client then if ok then a.deliver call else a.dead else a

/-- One turn of the loop; `ok` is how the connect, the ping or the call ends. -/
def handle (a : CallbackAgent Percent) (cmd : CallbackCmd Percent) (ok : Bool) : CallbackAgent Percent :=
  match cmd with
  | .register endpoint =>
    -- The connection there is is dropped first.
    if ok then { a with client := true, connections := ⟨endpoint, [], [], false⟩ :: a.connections }
    else { a with client := false }.note cmd
  | .ping => (if a.client ∧ ok = false then a.dead else a).note cmd
  | cmd =>
    match cmd.call uuids with
    | some call => (a.fire call ok).note cmd
    | none => a.note cmd

def step (a : CallbackAgent Percent) : CallbackAct Percent → Option (CallbackAgent Percent)
  | .send cmd =>
    -- A sender waits for a slot.
    if a.rx.length < callbackSlots then some { a with rx := a.rx ++ [cmd], sent := a.sent ++ [cmd] } else none
  | .recv ok =>
    match a.rx with
    | cmd :: rx => some ({ a with rx := rx }.handle uuids cmd ok)
    | [] => none

/-- Everything handled, in order. -/
def handled (a : CallbackAgent Percent) : List (CallbackCmd Percent) :=
  a.before ++ (a.connections.reverse.map fun c => .register c.endpoint :: c.since).flatten

end CallbackAgent

/-! ## What a connection carries -/

namespace Connection

/-- The commands up to the next `Register`. -/
def turn (c : Connection Percent) : List (CallbackCmd Percent) := c.since.takeWhile fun cmd => !cmd.isRegister

/-- The connection carries the events of its turn, up to an error. -/
structure Serves (c : Connection Percent) : Prop where
  calls : c.calls <+: c.turn.filterMap (CallbackCmd.call uuids)
  whole : c.broken = false → c.calls = c.turn.filterMap (CallbackCmd.call uuids)

variable {uuids} {c : Connection Percent} {cmd : CallbackCmd Percent}

theorem takeWhile_snoc {α : Type} {p : α → Bool} {l : List α} {x : α} :
    (l ++ [x]).takeWhile p = if l.all p then l ++ [x].takeWhile p else l.takeWhile p := by
  rw [List.takeWhile_append]
  by_cases h : l.all p = true
  · have hself : l.takeWhile p = l := List.takeWhile_eq_self_iff.mpr (List.all_eq_true.mp h)
    rw [if_pos h, hself, if_pos rfl]
  · rw [if_neg h, if_neg]
    intro hlen
    have hself : l.takeWhile p = l := (List.takeWhile_prefix p).eq_of_length hlen
    exact h (List.all_eq_true.mpr (List.takeWhile_eq_self_iff.mp hself))

/-- A turn that goes on, and one that is over. -/
theorem turn_snoc (c : Connection Percent) (cmd : CallbackCmd Percent) :
    { c with since := c.since ++ [cmd] }.turn =
      if c.since.all (fun cmd => !cmd.isRegister) then c.since ++ [cmd].takeWhile (fun cmd => !cmd.isRegister)
      else c.turn := takeWhile_snoc

theorem turn_of_all (h : c.since.all (fun cmd => !cmd.isRegister) = true) : c.turn = c.since :=
  List.takeWhile_eq_self_iff.mpr (List.all_eq_true.mp h)

theorem turn_grows (c : Connection Percent) (cmd : CallbackCmd Percent) :
    c.turn <+: { c with since := c.since ++ [cmd] }.turn := by
  rw [turn_snoc]
  split
  · rename_i h
    rw [turn_of_all h]
    exact List.prefix_append ..
  · exact List.prefix_refl _

/-- A ping or a `Register` changes nothing in the events of the turn. -/
theorem Serves.plain (h : c.Serves uuids) (hcmd : cmd.call uuids = none) :
    { c with since := c.since ++ [cmd] }.Serves uuids := by
  have hsame : { c with since := c.since ++ [cmd] }.turn.filterMap (CallbackCmd.call uuids) =
      c.turn.filterMap (CallbackCmd.call uuids) := by
    rw [turn_snoc]
    split
    · rename_i hall
      rw [turn_of_all hall, List.filterMap_append]
      cases hr : cmd.isRegister <;> simp [hr, hcmd]
    · rfl
  exact ⟨hsame ▸ h.calls, fun hb => hsame ▸ h.whole hb⟩

/-- Nothing goes out on a connection that was dropped. -/
theorem Serves.lost (h : c.Serves uuids) (hend : c.broken = true ∨ c.since.all (fun cmd => !cmd.isRegister) = false) :
    { c with since := c.since ++ [cmd] }.Serves uuids := by
  rcases hend with hb | hreg
  · refine ⟨h.calls.trans ((turn_grows c cmd).filterMap _), fun hb' => ?_⟩
    have hb' : c.broken = false := hb'
    rw [hb] at hb'
    cases hb'
  · have hsame : { c with since := c.since ++ [cmd] }.turn = c.turn := by
      rw [turn_snoc, if_neg (by rw [hreg]; simp)]
    exact ⟨hsame ▸ h.calls, fun hb => hsame ▸ h.whole hb⟩

/-- An event goes out. -/
theorem Serves.event (h : c.Serves uuids) (hb : c.broken = false)
    (hall : c.since.all (fun cmd => !cmd.isRegister) = true) (hr : cmd.isRegister = false) {call : Call Percent}
    (hcmd : cmd.call uuids = some call) :
    { c with calls := c.calls ++ [call], since := c.since ++ [cmd] }.Serves uuids := by
  have hturn : { c with calls := c.calls ++ [call], since := c.since ++ [cmd] }.turn = c.since ++ [cmd] := by
    refine (turn_snoc c cmd).trans ?_
    rw [if_pos hall]
    simp [hr]
  have hwhole : c.calls ++ [call] = (c.since ++ [cmd]).filterMap (CallbackCmd.call uuids) := by
    rw [List.filterMap_append, h.whole hb, turn_of_all hall]
    simp [hcmd]
  exact ⟨by rw [hturn, ← hwhole], fun _ => by rw [hturn, ← hwhole]⟩

theorem Serves.error (h : c.Serves uuids) : { c with broken := true }.Serves uuids := by
  refine ⟨h.calls, fun hb => ?_⟩
  cases hb

end Connection

/-! ## The thread's invariant -/

namespace CallbackAgent

variable {uuids} {a a' : CallbackAgent Percent} {cmd : CallbackCmd Percent}

/-- No `Register` since the connection was made. -/
def Current (c : Connection Percent) : Prop := c.since.all (fun cmd => !cmd.isRegister) = true

/-- The newest connection is the client's just if nothing has ended it. -/
structure Orderly (uuids : UuidText) (a : CallbackAgent Percent) : Prop where
  serves : ∀ c ∈ a.connections, c.Serves uuids
  live : a.client = true → ∃ c past, a.connections = c :: past ∧ c.broken = false ∧ Current c
  gone : a.client = false → ∀ c past, a.connections = c :: past → c.broken = true ∨ ¬ Current c

theorem note_nil (h : a.connections = []) : a.note cmd = { a with before := a.before ++ [cmd] } := by
  simp only [note, h]

theorem note_cons {c : Connection Percent} {past : List (Connection Percent)} (h : a.connections = c :: past) :
    a.note cmd = { a with connections := { c with since := c.since ++ [cmd] } :: past } := by
  simp only [note, h]

theorem orderly_of_nil (h : a.connections = []) (hc : a.client = false) : Orderly uuids a := by
  refine ⟨fun c hm => ?_, fun hl => ?_, fun _ c past heq => ?_⟩
  · rw [h] at hm
    cases hm
  · rw [hc] at hl
    cases hl
  · rw [h] at heq
    cases heq

theorem handled_note (a : CallbackAgent Percent) (cmd : CallbackCmd Percent) :
    (a.note cmd).handled = a.handled ++ [cmd] := by
  cases h : a.connections with
  | nil => simp [note_nil h, handled, h]
  | cons c past => simp [note_cons h, handled, h]

theorem handled_dead (a : CallbackAgent Percent) : a.dead.handled = a.handled := by
  unfold dead handled
  cases h : a.connections with
  | nil => simp
  | cons c past => simp

theorem handled_deliver (a : CallbackAgent Percent) (call : Call Percent) : (a.deliver call).handled = a.handled := by
  unfold deliver handled
  cases h : a.connections with
  | nil => simp [h]
  | cons c past => simp

theorem handled_fire (a : CallbackAgent Percent) (call : Call Percent) (ok : Bool) :
    (a.fire call ok).handled = a.handled := by
  unfold fire
  split
  · split
    · exact handled_deliver a call
    · exact handled_dead a
  · rfl

theorem handled_handle (a : CallbackAgent Percent) (cmd : CallbackCmd Percent) (ok : Bool) :
    (a.handle uuids cmd ok).handled = a.handled ++ [cmd] := by
  cases cmd with
  | register endpoint =>
    cases ok with
    | true => simp [handle, handled]
    | false => exact handled_note { a with client := false } (.register endpoint)
  | ping =>
    simp only [handle, handled_note]
    split
    · rw [handled_dead]
    · rfl
  | _ => simp only [handle, CallbackCmd.call, handled_note, handled_fire]

/-- Without a client, a command only ends up in the record. -/
theorem Orderly.idle (hi : Orderly uuids a) (hc : a.client = false) (cmd : CallbackCmd Percent) :
    Orderly uuids (a.note cmd) := by
  cases h : a.connections with
  | nil =>
    rw [note_nil h]
    exact orderly_of_nil h hc
  | cons c past =>
    have hend := hi.gone hc c past h
    rw [note_cons h]
    refine ⟨?_, fun hl => ?_, fun _ d rest heq => ?_⟩
    · intro d hd
      rcases List.mem_cons.mp hd with rfl | hd
      · refine (hi.serves c (by rw [h]; exact List.mem_cons_self)).lost (hend.imp (fun h => h) fun hn => ?_)
        exact Bool.eq_false_iff.mpr hn
      · exact hi.serves d (by rw [h]; exact List.mem_cons_of_mem _ hd)
    · have hl : a.client = true := hl
      rw [hc] at hl
      cases hl
    · cases heq
      refine hend.imp (fun h => h) fun hn hcur => hn ?_
      have hall : (c.since ++ [cmd]).all (fun cmd => !cmd.isRegister) = true := hcur
      rw [List.all_append, Bool.and_eq_true] at hall
      exact hall.1

/-- The record of the client changes, and the connection is still good. -/
theorem Orderly.head (hi : Orderly uuids a) {c c' : Connection Percent} {past : List (Connection Percent)}
    (h : a.connections = c :: past) (hs : c'.Serves uuids) {client : Bool}
    (hlive : client = true → c'.broken = false ∧ Current c')
    (hgone : client = false → c'.broken = true ∨ ¬ Current c') :
    Orderly uuids { a with client := client, connections := c' :: past } := by
  refine ⟨fun d hd => ?_, fun hl => ⟨c', past, rfl, hlive hl⟩, fun hc d rest heq => ?_⟩
  · rcases List.mem_cons.mp hd with rfl | hd
    · exact hs
    · exact hi.serves d (by rw [h]; exact List.mem_cons_of_mem _ hd)
  · cases heq
    exact hgone hc

theorem current_snoc {c : Connection Percent} (h : Current c) (hr : cmd.isRegister = false) :
    Current { c with since := c.since ++ [cmd] } := by
  unfold Current at h ⊢
  simp only [List.all_append, h, List.all_cons, hr, Bool.not_false, List.all_nil, Bool.and_self]

theorem Orderly.fired (hi : Orderly uuids a) (hr : cmd.isRegister = false) {call : Call Percent}
    (hcmd : cmd.call uuids = some call) (ok : Bool) : Orderly uuids ((a.fire call ok).note cmd) := by
  cases hc : a.client with
  | false =>
    have hsame : a.fire call ok = a := by rw [fire, if_neg (by rw [hc]; simp)]
    rw [hsame]
    exact hi.idle hc cmd
  | true =>
    obtain ⟨c, past, h, hb, hcur⟩ := hi.live hc
    have hs := hi.serves c (by rw [h]; exact List.mem_cons_self)
    cases ok with
    | true =>
      have heq : (a.fire call true).note cmd =
          { a with client := true, connections := { c with calls := c.calls ++ [call], since := c.since ++ [cmd] } :: past } := by
        simp only [fire, deliver, note, hc, h, if_true]
      rw [heq]
      refine hi.head h (hs.event hb hcur hr hcmd) (fun _ => ⟨hb, current_snoc hcur hr⟩) ?_
      intro h
      cases h
    | false =>
      have heq : (a.fire call false).note cmd =
          { a with client := false, connections := { c with broken := true, since := c.since ++ [cmd] } :: past } := by
        simp only [fire, dead, note, hc, h, if_true, Bool.false_eq_true, if_false]
      rw [heq]
      refine hi.head h (hs.error.lost (.inl rfl)) ?_ fun _ => .inl rfl
      intro h
      cases h

theorem Orderly.pinged (hi : Orderly uuids a) (ok : Bool) : Orderly uuids (a.handle uuids .ping ok) := by
  cases hc : a.client with
  | false =>
    have hsame : a.handle uuids .ping ok = a.note .ping := by simp only [handle, hc, Bool.false_eq_true, false_and, if_false]
    rw [hsame]
    exact hi.idle hc .ping
  | true =>
    obtain ⟨c, past, h, hb, hcur⟩ := hi.live hc
    have hs := hi.serves c (by rw [h]; exact List.mem_cons_self)
    cases ok with
    | true =>
      have heq : a.handle uuids .ping true =
          { a with client := true, connections := { c with since := c.since ++ [.ping] } :: past } := by
        simp only [handle, note, h, Bool.true_eq_false, and_false, if_false, hc]
      rw [heq]
      refine hi.head h (hs.plain rfl) (fun _ => ⟨hb, current_snoc hcur rfl⟩) ?_
      intro h
      cases h
    | false =>
      have heq : a.handle uuids .ping false =
          { a with client := false, connections := { c with broken := true, since := c.since ++ [.ping] } :: past } := by
        simp only [handle, dead, note, hc, h, and_self, if_true]
      rw [heq]
      refine hi.head h (hs.error.lost (.inl rfl)) ?_ fun _ => .inl rfl
      intro h
      cases h

theorem Orderly.registered (hi : Orderly uuids a) (endpoint : String) (ok : Bool) :
    Orderly uuids (a.handle uuids (.register endpoint) ok) := by
  cases ok with
  | true =>
    have heq : a.handle uuids (.register endpoint) true =
        { a with client := true, connections := ⟨endpoint, [], [], false⟩ :: a.connections } := rfl
    rw [heq]
    refine ⟨fun c hm => ?_, fun _ => ⟨_, _, rfl, rfl, rfl⟩, fun h => by cases h⟩
    rcases List.mem_cons.mp hm with rfl | hm
    · exact ⟨List.prefix_refl _, fun _ => rfl⟩
    · exact hi.serves c hm
  | false =>
    have heq : a.handle uuids (.register endpoint) false = { a with client := false }.note (.register endpoint) := rfl
    rw [heq]
    cases h : a.connections with
    | nil =>
      rw [note_nil rfl]
      exact orderly_of_nil rfl rfl
    | cons c past =>
      rw [note_cons rfl]
      refine hi.head h ((hi.serves c (by rw [h]; exact List.mem_cons_self)).plain rfl) ?_ fun _ => .inr ?_
      · intro h
        cases h
      · intro hcur
        have hall : (c.since ++ [CallbackCmd.register endpoint]).all (fun cmd => !cmd.isRegister) = true := hcur
        rw [List.all_append, Bool.and_eq_true] at hall
        cases hall.2

theorem handle_orderly (hi : Orderly uuids a) (cmd : CallbackCmd Percent) (ok : Bool) :
    Orderly uuids (a.handle uuids cmd ok) := by
  cases cmd with
  | register endpoint => exact hi.registered endpoint ok
  | ping => exact hi.pinged ok
  | streamStarted | streamProgress | streamDone | streamFailed | linkStatus | queueStatus => exact hi.fired rfl rfl ok

/-- The thread takes nothing else from the channel. -/
def SameChannel (a a' : CallbackAgent Percent) : Prop := a'.rx = a.rx ∧ a'.sent = a.sent

theorem note_channel (a : CallbackAgent Percent) (cmd : CallbackCmd Percent) : SameChannel a (a.note cmd) := by
  unfold note
  cases a.connections <;> exact ⟨rfl, rfl⟩

theorem dead_channel (a : CallbackAgent Percent) : SameChannel a a.dead := by
  unfold dead
  cases a.connections <;> exact ⟨rfl, rfl⟩

theorem fire_channel (a : CallbackAgent Percent) (call : Call Percent) (ok : Bool) : SameChannel a (a.fire call ok) := by
  unfold fire
  split
  · split
    · unfold deliver
      cases a.connections <;> exact ⟨rfl, rfl⟩
    · exact dead_channel a
  · exact ⟨rfl, rfl⟩

theorem SameChannel.trans {b : CallbackAgent Percent} (h : SameChannel a a') (h' : SameChannel a' b) : SameChannel a b :=
  ⟨h'.1.trans h.1, h'.2.trans h.2⟩

theorem handle_channel (a : CallbackAgent Percent) (cmd : CallbackCmd Percent) (ok : Bool) :
    SameChannel a (a.handle uuids cmd ok) := by
  cases cmd with
  | register endpoint =>
    cases ok with
    | true => exact ⟨rfl, rfl⟩
    | false => exact note_channel { a with client := false } _
  | ping =>
    refine SameChannel.trans ?_ (note_channel _ .ping)
    split
    · exact dead_channel a
    · exact ⟨rfl, rfl⟩
  | streamStarted | streamProgress | streamDone | streamFailed | linkStatus | queueStatus =>
    exact (fire_channel a _ ok).trans (note_channel _ _)

/-- The channel keeps the order, and nothing is lost between the senders and the thread. -/
structure Ordered (uuids : UuidText) (a : CallbackAgent Percent) : Prop where
  sent : a.sent = a.handled ++ a.rx
  slots : a.rx.length ≤ callbackSlots
  orderly : Orderly uuids a

theorem step_ordered {act : CallbackAct Percent} (hi : Ordered uuids a) (h : a.step uuids act = some a') :
    Ordered uuids a' := by
  cases act with
  | send cmd =>
    simp only [step] at h
    split at h
    · rename_i hlt
      cases h
      refine ⟨?_, ?_, hi.orderly.serves, hi.orderly.live, hi.orderly.gone⟩
      · show a.sent ++ [cmd] = a.handled ++ (a.rx ++ [cmd])
        rw [hi.sent, List.append_assoc]
      · show (a.rx ++ [cmd]).length ≤ callbackSlots
        rw [List.length_append]
        exact hlt
    · cases h
  | recv ok =>
    simp only [step] at h
    split at h
    · rename_i cmd rx hrx
      cases h
      have hi' : Orderly uuids { a with rx := rx } := ⟨hi.orderly.serves, hi.orderly.live, hi.orderly.gone⟩
      obtain ⟨hrest, hsent⟩ : SameChannel { a with rx := rx } ({ a with rx := rx }.handle uuids cmd ok) :=
        handle_channel _ cmd ok
      refine ⟨?_, ?_, handle_orderly hi' cmd ok⟩
      · rw [hrest, hsent, handled_handle]
        show a.sent = a.handled ++ [cmd] ++ rx
        rw [hi.sent, hrx, List.append_assoc]
        rfl
      · rw [hrest]
        have hslots := hi.slots
        rw [hrx, List.length_cons] at hslots
        show rx.length ≤ callbackSlots
        omega
    · cases h

theorem reach_ordered (h : Reach (step uuids) anyStep init a) : Ordered uuids a := by
  refine h.invariant ⟨rfl, Nat.zero_le _, orderly_of_nil rfl rfl⟩ ?_
  intro a a' act hi _ hs
  exact step_ordered hi hs

end CallbackAgent

/-! ## What a client gets -/

def CallbackCmd.isEvent : CallbackCmd Percent → Bool
  | .register _ | .ping => false
  | _ => true

/-- The events of a connection's turn. -/
def Connection.events (c : Connection Percent) : List (CallbackCmd Percent) := c.turn.filter (·.isEvent)

variable {uuids}

theorem Call.received_call (hu : uuids.Inverts) {cmd : CallbackCmd Percent} {call : Call Percent}
    (h : cmd.call uuids = some call) : call.received uuids = some cmd := by
  cases cmd with
  | register | ping => cases h
  | streamStarted uuid info port =>
    cases h
    have hport : (Int32.ofNat port.toNat).toInt.toNat = port.toNat := by
      have hlt := port.toNat_lt
      rw [Int32.toInt_ofNat_of_lt (by omega)]
      rfl
    simp only [received, hu uuid, streamInfo_ofWire_toWire, hport, UInt16.ofNat_toNat, Option.map_some]
  | streamProgress uuid bytes percent =>
    cases h
    simp only [received, hu uuid, Option.getD_some, Option.map_some, UInt64.toUInt64_toInt64]
  | streamDone uuid bytes bytesWire =>
    cases h
    simp only [received, hu uuid, Option.map_some, UInt64.toUInt64_toInt64]
  | streamFailed uuid code reason =>
    cases h
    simp only [received, hu uuid, Option.map_some]
  | linkStatus state =>
    cases h
    rw [received, LinkState.ofWire_toWire]
  | queueStatus status =>
    cases h
    rw [received, queueStatus_ofWire_toWire hu]

theorem map_received (hu : uuids.Inverts) (l : List (CallbackCmd Percent)) :
    (l.filterMap (CallbackCmd.call uuids)).map (Call.received uuids) = (l.filter (·.isEvent)).map some := by
  induction l with
  | nil => rfl
  | cons cmd l ih =>
    cases hcall : cmd.call uuids with
    | none =>
      have hno : cmd.isEvent = false := by
        cases cmd with
        | register | ping => rfl
        | _ => cases hcall
      rw [List.filterMap_cons, hcall, List.filter_cons, hno]
      exact ih
    | some call =>
      have hyes : cmd.isEvent = true := by
        cases cmd with
        | register | ping => cases hcall
        | _ => rfl
      rw [List.filterMap_cons, hcall, List.filter_cons, hyes]
      simp only [if_true, List.map_cons, Call.received_call hu hcall, ih]

theorem Connection.Serves.received {c : Connection Percent} (h : c.Serves uuids) (hu : uuids.Inverts) :
    ∃ events, events <+: c.events ∧ c.calls.map (Call.received uuids) = events.map some ∧
      (c.broken = false → events = c.events) := by
  have hmap := map_received hu c.turn
  have htake : c.calls = (c.turn.filterMap (CallbackCmd.call uuids)).take c.calls.length :=
    List.prefix_iff_eq_take.mp h.calls
  refine ⟨c.events.take c.calls.length, List.take_prefix .., ?_, fun hb => ?_⟩
  · rw [htake, List.map_take, hmap, List.map_take, ← htake]
    rfl
  · have hlen : c.calls.length = c.events.length := by
      have hcount := congrArg List.length hmap
      rw [List.length_map, List.length_map, ← h.whole hb] at hcount
      exact hcount
    rw [hlen, List.take_length]

/-- In every run: the thread handles what was sent in the order it was sent, and the client
    at each connection gets the events of the connection's turn in that order, each once and
    none left out, all of them unless an error has ended it. -/
theorem callbacks_in_order (hu : uuids.Inverts) {a : CallbackAgent Percent}
    (h : Reach (CallbackAgent.step uuids) anyStep .init a) :
    a.sent = a.handled ++ a.rx ∧ a.rx.length ≤ callbackSlots ∧
      ∀ c ∈ a.connections, ∃ events, events <+: c.events ∧ c.calls.map (Call.received uuids) = events.map some ∧
        (c.broken = false → events = c.events) := by
  have hi := CallbackAgent.reach_ordered h
  exact ⟨hi.sent, hi.slots, fun c hc => (hi.orderly.serves c hc).received hu⟩

/-- Two events go out, the next call fails, one event finds no client, and another
    `Register` makes a new connection. -/
theorem callbacks_in_order_reconnected :
    ∃ a : CallbackAgent Unit, Reach (CallbackAgent.step hyphenated) anyStep .init a ∧
      a.connections.map (fun c => (c.endpoint, c.events.length, c.calls.length, c.broken)) =
        [("127.0.0.1:9", 1, 1, false), ("127.0.0.1:8", 4, 2, true)] ∧
      a.sent = a.handled ++ a.rx := by
  obtain ⟨a, hr, ha⟩ := Reach.exists_run (CallbackAgent.step hyphenated) anyStep (.init : CallbackAgent Unit)
    [.send (.register "127.0.0.1:8"), .send (.linkStatus .normal), .recv true, .recv true,
      .send (.streamDone ⟨1⟩ 3 4), .send .ping, .recv true, .recv true,
      .send (.linkStatus .failed), .send (.linkStatus .normal), .recv false, .recv true,
      .send (.register "127.0.0.1:9"), .send (.queueStatus ⟨0, 0, 0, []⟩), .recv true, .recv true]
    (fun a => a.connections.map (fun c => (c.endpoint, c.events.length, c.calls.length, c.broken)) =
      [("127.0.0.1:9", 1, 1, false), ("127.0.0.1:8", 4, 2, true)]) (by decide +kernel)
  exact ⟨a, hr, of_decide_eq_true ha, (callbacks_in_order hyphenated_inverts hr).1⟩

end Quelay.Agent
