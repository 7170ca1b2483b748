/-
  Quelay.Agent.Transfer.WireRefines — the byte streams do what the queues of frames do.

  `Carries c s w`: the bytes of every stream of `w` are those of the frames in `s`, and on
  a cut stream perhaps a part of one more frame, which nobody can read. Every step of the
  byte system is a step of the frame system from the state it stands for, so what holds of
  every run with frames holds with bytes and any cut.

  - Whatever the cuts, the receiving client gets a prefix of what was pushed
    (`bytes_refine_frames`).
  - On a stream that is not cut, no reader ever meets a malformed or a truncated frame
    (`live_bytes_well_framed`).
-/

import Quelay.Agent.Transfer.WireSteps
import Quelay.Agent.Transfer.WireJson
import Quelay.Lib.Refine

namespace Quelay.Agent.Transfer

open Quelay.Lib

/-! ## The relation -/

/-- What a part of a frame behind the frames of a cut stream can be a part of: of the
    header if that was not read, else of a chunk. -/
structure NextUp (s : Transfer) (sid : Nat) (f : UpFrame) : Prop where
  fits : f.Fits
  chunk : Holding s.down sid ∨ (s.streams sid).up ≠ [] → f.isChunk = true
  header : s.nextAccept ≤ sid → (s.streams sid).up = [] → f.isChunk = false

structure Carries (c : Codec) (s : Transfer) (w : Wired) : Prop where
  core : w.core = s.bare
  counted : s.wrote.length < 2 ^ 64
  up : ∀ sid, Line c.upBytes (s.streams sid).up (s.streams sid).cut (NextUp s sid) (w.up sid)
  down : ∀ sid, Line c.downBytes (s.streams sid).down (s.streams sid).cut WormholeMsg.Fits (w.down sid)

variable {c : Codec} {s s' t : Transfer} {w w' : Wired} {a : Act}

theorem init_carries (c : Codec) (capped : Bool) : Carries c (init capped) (Wired.init c capped) := by
  have hup : (Wired.init c capped).up = Function.update (fun _ => []) 0 (c.upBytes .connect) := rfl
  have hwrote : (init capped).wrote.length = 0 := rfl
  refine ⟨rfl, by omega, fun sid => line_of_spans ?_, fun sid => line_of_spans ?_⟩
  · rw [init_streams, hup]
    by_cases h : sid = 0
    · subst h
      have hfirst : encodeAll c.upBytes QStream.first.up = c.upBytes .connect := List.append_nil _
      rw [if_pos rfl, Function.update_self, ← hfirst]
      exact .whole
    · rw [if_neg h, Function.update_of_ne h]
      exact .whole
  · rw [init_streams]
    split <;> exact .whole

theorem nextAccept_cases (h : s.step a = some s') :
    s'.nextAccept = s.nextAccept ∨ a = .down .accept ∨ a = .down .acceptSkip := by
  cases a with
  | reader a => cases readerStep_cases h <;> exact .inl rfl
  | ticket a => cases ticketStep_cases h <;> exact .inl rfl
  | pump a => cases pumpStep_cases h <;> exact .inl rfl
  | ack a => cases ackStep_cases h <;> exact .inl rfl
  | link a => cases linkStep_cases h <;> exact .inl rfl
  | down a =>
    cases downStep_cases h with
    | acceptConnect | acceptReconnect | acceptRefused => exact .inr (.inl rfl)
    | acceptSkip => exact .inr (.inr rfl)
    | _ => exact .inl rfl

/-- The receiver takes nothing new, and the frames of a cut stream are as they were. -/
theorem NextUp.step {sid : Nat} {f : UpFrame} (hf : NextUp s sid f) (hl : Living s) (h : s.step a = some s')
    (hn : s'.nextAccept = s.nextAccept) (hup : (s'.streams sid).up ≠ [] → (s.streams sid).up ≠ [])
    (hnil : s.nextAccept ≤ sid → (s'.streams sid).up = [] → (s.streams sid).up = []) : NextUp s' sid f := by
  refine ⟨hf.fits, fun hc => hf.chunk (hc.imp ?_ hup), fun hle hz => hf.header (hn ▸ hle) (hnil (hn ▸ hle) hz)⟩
  intro hh
  exact (holding_cases (step_living hl h).receiver h hh).resolve_right (by omega)

/-- A step that reads nothing, with its output as bytes. -/
theorem Carries.send (hR : Carries c s w) (hl : Living s) (h : s.step a = some s') (hadds : Adds s t s')
    (hn : s'.nextAccept = s.nextAccept) (hcount : s'.wrote.length < 2 ^ 64) : Carries c s' (w.send c t) := by
  have hcut : ∀ sid, (s.streams sid).cut = true → (s'.streams sid).cut = true := fun sid hc => step_cut hl.streams hc h
  refine ⟨hadds.bare, hcount, fun sid => ?_, fun sid => ?_⟩
  · have hline := (hR.up sid).append (hadds.cutUp sid)
    rw [← hadds.up sid] at hline
    refine hline.mono (hcut sid) ?_
    intro f hc hf
    have hup : (s'.streams sid).up = (s.streams sid).up := by rw [hadds.up sid, hadds.cutUp sid hc, List.append_nil]
    exact hf.step hl h hn (fun hne => hup ▸ hne) fun _ hz => hup ▸ hz
  · have hline := (hR.down sid).append (hadds.cutDown sid)
    rw [← hadds.down sid] at hline
    exact hline.mono (hcut sid) fun _ _ hf => hf

/-- The feedback goes out as bytes. -/
theorem Carries.answer (hR : Carries c s w) (hl : Living s) (h : s.step a = some s') {sid : Nat} {rest : List UpFrame}
    (hg : Gives s t s' sid rest) (hn : ∀ i, i ≠ sid → s'.nextAccept ≤ i → s.nextAccept ≤ i)
    (hh : ∀ i, i ≠ sid → Holding s'.down i → Holding s.down i) (hcount : s'.wrote = s.wrote) {bs : List UInt8}
    (hline : Line c.upBytes rest (s.streams sid).cut (NextUp s' sid) bs) :
    Carries c s' ((w.takeUp sid bs).answer c t) := by
  have hcut : ∀ sid, (s.streams sid).cut = true → (s'.streams sid).cut = true := fun sid hc => step_cut hl.streams hc h
  refine ⟨hg.bare, hcount ▸ hR.counted, fun i => ?_, fun i => ?_⟩
  · by_cases hi : i = sid
    · subst hi
      have hbs : ((w.takeUp i bs).answer c t).up i = bs := Function.update_self _ _ _
      rw [hg.up, hbs]
      exact hline.mono (hcut i) fun _ _ hf => hf
    · have hbs : ((w.takeUp sid bs).answer c t).up i = w.up i := Function.update_of_ne hi _ _
      have hup := hg.others i hi
      rw [hbs, hup]
      refine (hR.up i).mono (hcut i) ?_
      intro f _ hf
      refine ⟨hf.fits, fun hc => hf.chunk (hc.imp (hh i hi) fun hne => hup ▸ hne), ?_⟩
      intro hle hz
      exact hf.header (hn i hi hle) (hup ▸ hz)
  · have hline := (hR.down i).append (hg.cutDown i)
    rw [← hg.down i] at hline
    exact hline.mono (hcut i) fun _ _ hf => hf

/-- A header that was read is the first frame of its stream. -/
theorem Carries.open_front (hR : Carries c s w) (hc : c.Good) (hi : FramesOk s) {f : UpFrame} {bs : List UInt8}
    (hr : c.readOpen (w.up s.nextAccept) = .ok (f, bs)) :
    ∃ l, (s.streams s.nextAccept).up = f :: l ∧
      Line c.upBytes l (s.streams s.nextAccept).cut (NextUp s s.nextAccept) bs := by
  have hline := hR.up s.nextAccept
  cases hu : (s.streams s.nextAccept).up with
  | nil =>
    rw [hu] at hline
    rcases hline.of_nil with hbs | ⟨g, n, _, hg, _, hn, hbs⟩
    · obtain ⟨e, _, he⟩ := Codec.readOpen_nil (c := c)
      rw [hbs, he] at hr
      cases hr
    · obtain ⟨e, he⟩ := (hc.readOpen (hg.header (Nat.le_refl _) hu) hg.fits).2 n hn
      rw [hbs, he] at hr
      cases hr
  | cons g l =>
    rw [hu] at hline
    obtain ⟨rest, hbs, hline⟩ := hline.cons
    have hhead := hi.sized.front _ (Nat.le_refl _) g l hu
    have hmem : g ∈ (s.streams s.nextAccept).up := by rw [hu]; exact List.mem_cons_self
    have hfit := fits_up hi hR.counted hmem
    rw [hbs, (hc.readOpen hhead hfit).1 rest] at hr
    cases hr
    exact ⟨l, rfl, hline⟩

/-- A live stream that was not taken has its header, which is read without an error. -/
theorem Carries.open_live (hR : Carries c s w) (hc : c.Good) (hi : FramesOk s) (hlt : s.nextAccept < s.opened)
    (hlive : (s.streams s.nextAccept).cut = false) :
    ∃ f l bs, (s.streams s.nextAccept).up = f :: l ∧ c.readOpen (w.up s.nextAccept) = .ok (f, bs) := by
  have hnot : ¬ (s.streams s.nextAccept).cut = true := by rw [hlive]; simp
  have hhead : headed (s.streams s.nextAccept).up = true := (hi.framed.unread _ (Nat.le_refl _) hlt).resolve_left hnot
  cases hu : (s.streams s.nextAccept).up with
  | nil => rw [hu] at hhead; cases hhead
  | cons g l =>
    have hline := hR.up s.nextAccept
    rw [hu] at hline
    obtain ⟨rest, hbs, _⟩ := hline.cons
    have hmem : g ∈ (s.streams s.nextAccept).up := by rw [hu]; exact List.mem_cons_self
    have hread := (hc.readOpen (hi.sized.front _ (Nat.le_refl _) g l hu) (fits_up hi hR.counted hmem)).1 rest
    exact ⟨g, l, rest, rfl, by rw [hbs, hread]⟩

/-- Every frame of a stream that the downlink reads is a chunk. -/
theorem isChunk_of_held (hi : FramesOk s) {sid : Nat} (hh : Holding s.down sid) {f : UpFrame}
    (hf : f ∈ (s.streams sid).up) : f.isChunk = true := by
  obtain ⟨o, e, _, hrun⟩ := (hi.living.sound.bytes.streamOk sid).run
  rcases mem_body hf with hbody | ⟨hno, l, hup⟩
  · obtain ⟨offset, payload, rfl, _⟩ := hrun.mem hbody
    rfl
  · have hread := hi.framed.read sid hh
    rw [hup] at hread
    cases f with
    | chunk => rfl
    | connect | reconnect => cases hread

/-- What `read_chunk` makes of the bytes of a stream that the downlink reads. -/
theorem Carries.chunk_front (hR : Carries c s w) (hi : FramesOk s) {sid : Nat} (hh : Holding s.down sid) :
    (∃ offset payload l bs, (s.streams sid).up = .chunk offset payload :: l ∧
        Framing.readChunk (w.up sid) = .ok (some ⟨UInt64.ofNat offset, payload⟩, bs) ∧
        (UInt64.ofNat offset).toNat = offset ∧ Line c.upBytes l (s.streams sid).cut (NextUp s sid) bs) ∨
      ((s.streams sid).up = [] ∧ (w.up sid = [] ∨
        ((s.streams sid).cut = true ∧ w.up sid ≠ [] ∧ ∃ e, Framing.readChunk (w.up sid) = .error e))) := by
  have hline := hR.up sid
  cases hu : (s.streams sid).up with
  | nil =>
    rw [hu] at hline
    refine .inr ⟨rfl, ?_⟩
    rcases hline.of_nil with hbs | ⟨g, n, hcut, hg, h0, hn, hbs⟩
    · exact .inl hbs
    · have hchunk := hg.chunk (.inl hh)
      cases g with
      | chunk offset payload =>
        obtain ⟨_, herr, _⟩ := Codec.readChunk_up (c := c) hg.fits
        obtain ⟨e, he⟩ := herr n h0 hn
        refine .inr ⟨hcut, ?_, e, by rw [hbs, he]⟩
        intro hz
        rw [hbs] at hz
        have := congrArg List.length hz
        rw [List.length_take, List.length_nil] at this
        omega
      | connect | reconnect => cases hchunk
  | cons g l =>
    have hmem : g ∈ (s.streams sid).up := by rw [hu]; exact List.mem_cons_self
    have hchunk := isChunk_of_held hi hh hmem
    have hfit := fits_up hi hR.counted hmem
    rw [hu] at hline
    obtain ⟨rest, hbs, hrest⟩ := hline.cons
    cases g with
    | chunk offset payload =>
      obtain ⟨hread, _, hexact⟩ := Codec.readChunk_up (c := c) hfit
      exact .inl ⟨offset, payload, l, rest, rfl, by rw [hbs, hread], hexact, hrest⟩
    | connect | reconnect => cases hchunk

/-! ## Every step of the byte system -/

/-- The frame system takes the step too. -/
def Answers (c : Codec) (s : Transfer) (w' : Wired) : Prop := ∃ b s', s.step b = some s' ∧ Carries c s' w'

theorem wrote_kept (h : s.step a = some s') (ha : ∀ data, a ≠ .reader (.clientWrite data)) : s'.wrote = s.wrote := by
  cases a with
  | reader a =>
    cases readerStep_cases h with
    | clientWrite data => exact absurd rfl (ha data)
    | _ => rfl
  | ticket a => cases ticketStep_cases h <;> rfl
  | pump a => cases pumpStep_cases h <;> rfl
  | ack a => cases ackStep_cases h <;> rfl
  | link a => cases linkStep_cases h <;> rfl
  | down a => cases downStep_cases h <;> rfl

theorem counted_stays (hR : Carries c s w) (hok : w.counted a) (h : s.step a = some s') : s'.wrote.length < 2 ^ 64 := by
  by_cases hw : ∃ data, a = .reader (.clientWrite data)
  · obtain ⟨data, rfl⟩ := hw
    have hlen : w.core.wrote.length + data.length < 2 ^ 64 := hok
    rw [hR.core] at hlen
    have hstep : s.readerStep (.clientWrite data) = some s' := h
    cases readerStep_cases hstep with
    | clientWrite data =>
      rw [List.length_append]
      exact hlen
  · rw [wrote_kept h fun data ha => hw ⟨data, ha⟩]
    exact hR.counted

theorem Carries.sends (hR : Carries c s w) (hl : Living s) (hok : w.counted a) (ha : a ≠ .down .accept)
    (ha' : a ≠ .down .acceptSkip) (hadds : ∃ s', s.step a = some s' ∧ Adds s t s') : Answers c s (w.send c t) := by
  obtain ⟨s', hs, hadds⟩ := hadds
  have hn : s'.nextAccept = s.nextAccept := by
    rcases nextAccept_cases hs with hn | hn | hn
    · exact hn
    · exact absurd hn ha
    · exact absurd hn ha'
  exact ⟨a, s', hs, hR.send hl hs hadds hn (counted_stays hR hok hs)⟩

/-- The steps that read no bytes. -/
theorem Carries.plain (hR : Carries c s w) (hl : Living s) (hok : w.counted a)
    (ha : blind a = true ∨ marks a = true ∨ writes a = true) (h : (w.core.step a).map (w.send c) = some w') :
    Answers c s w' := by
  obtain ⟨t, ht, rfl⟩ := Option.map_eq_some_iff.mp h
  rw [hR.core] at ht
  refine hR.sends hl hok ?_ ?_ ?_
  · rintro rfl
    rcases ha with ha | ha | ha <;> cases ha
  · rintro rfl
    rcases ha with ha | ha | ha <;> cases ha
  · rcases ha with ha | ha | ha
    · exact adds_of_blind ha ht
    · exact adds_of_marks ha ht
    · exact adds_of_writes hl.streams ha ht

theorem send_bare (w : Wired) (s' : Transfer) : w.send c s'.bare = { w with core := s'.bare } := by
  have hup : (w.send c s'.bare).up = w.up := by
    funext sid
    exact List.append_nil _
  have hdown : (w.send c s'.bare).down = w.down := by
    funext sid
    exact List.append_nil _
  show Wired.mk s'.bare (w.send c s'.bare).up (w.send c s'.bare).down = _
  rw [hup, hdown]

/-- A step that changes no stream. -/
theorem Carries.still (hR : Carries c s w) (hl : Living s) (hok : w.counted a) (ha : a ≠ .down .accept)
    (ha' : a ≠ .down .acceptSkip) (h : s.step a = some s') (hs : s'.streams = s.streams) :
    Answers c s { w with core := s'.bare } := by
  rw [← send_bare (c := c) w s']
  refine hR.sends hl hok ha ha' ⟨s', h, adds_of_kept (fun sid => ?_) fun sid => ?_⟩
  · rw [hs]
  · rw [hs]

/-! ### Outages -/

theorem mem_body_tail {g f : UpFrame} {l : List UpFrame} (h : f ∈ l) : f ∈ body (g :: l) := by
  cases g with
  | chunk => exact List.mem_cons_of_mem _ h
  | connect | reconnect => exact h

/-- The frame that a cut falls into. -/
theorem nextUp_of_cut (hR : Carries c s w) (hi : FramesOk s) {sid k : Nat}
    (hup : (s'.streams sid).up = (s.streams sid).up.take k) (hd : s'.down = s.down)
    (hn : s'.nextAccept = s.nextAccept) {f : UpFrame} (hf : (s.streams sid).up.take k ++ [f] <+: (s.streams sid).up) : NextUp s' sid f := by
  obtain ⟨tail, htail⟩ := hf
  have hmem : f ∈ (s.streams sid).up := by
    rw [← htail]
    simp
  refine ⟨fits_up hi hR.counted hmem, fun hc => ?_, fun hle hz => ?_⟩
  · rcases hc with hh | hne
    · rw [hd] at hh
      exact isChunk_of_held hi hh hmem
    · rw [hup] at hne
      obtain ⟨o, e, _, hrun⟩ := (hi.living.sound.bytes.streamOk sid).run
      obtain ⟨g, l, hgl⟩ := List.exists_cons_of_ne_nil hne
      have hbody : f ∈ body (s.streams sid).up := by
        rw [← htail, hgl, List.cons_append, List.cons_append]
        exact mem_body_tail (by simp)
      obtain ⟨offset, payload, rfl, _⟩ := hrun.mem hbody
      rfl
  · rw [hup] at hz
    rw [hz, List.nil_append] at htail
    exact hi.sized.front sid (hn ▸ hle) f tail htail.symm

theorem cutAt_bare (q : QStream) (up down k j : Nat) : q.bare.cutAt up down = (q.cutAt k j).bare := by
  simp [QStream.cutAt, QStream.bare]

theorem Carries.outage (hR : Carries c s w) (hi : FramesOk s) {up down : Nat} (h : w.outage up down = some w') :
    Answers c s w' := by
  obtain ⟨core, wup, wdown⟩ := w
  obtain rfl : core = s.bare := hR.core
  obtain ⟨t, ht, rfl⟩ := Option.map_eq_some_iff.mp h
  have hstep : s.bare.linkStep (.outage up down) = some t := ht
  cases linkStep_cases hstep with
  | outageIdle _ _ hlink hcut =>
    have hlink' : s.link = true := hlink
    have hcut' : (s.streams (s.opened - 1)).cut = true := hcut
    dsimp only
    rw [if_pos hcut]
    have hs : s.step (.link (.outage up down)) = some { s with link := false, closing := false } := by
      simp only [step, linkStep, hlink', hcut', if_true]
    refine hR.still hi.living ?_ ?_ ?_ hs rfl
    · trivial
    · simp
    · simp
  | outage _ _ hlink hcut =>
    have hlink' : s.link = true := hlink
    have hcut' : (s.streams (s.opened - 1)).cut = false := hcut
    dsimp only
    have hnc : ¬ (s.bare.streams (s.bare.opened - 1)).cut = true := by rw [hcut]; simp
    rw [if_neg hnc]
    have hup := hR.up (s.opened - 1)
    have hdown := hR.down (s.opened - 1)
    rw [hcut'] at hup hdown
    obtain ⟨k, hk⟩ := hup.cutAt up
    obtain ⟨j, hj⟩ := hdown.cutAt down
    let q' := (s.streams (s.opened - 1)).cutAt k j
    let s' : Transfer :=
      { s with streams := Function.update s.streams (s.opened - 1) q', link := false, closing := false }
    have hs : s.step (.link (.outage k j)) = some s' := by
      simp only [step, linkStep, hlink', hcut', if_true, Bool.false_eq_true, if_false]
      rfl
    have hself : s'.streams (s.opened - 1) = q' := Function.update_self _ _ _
    have hother : ∀ i, i ≠ s.opened - 1 → s'.streams i = s.streams i := fun i hne => Function.update_of_ne hne _ _
    refine ⟨_, s', hs, ?_, hR.counted, fun i => ?_, fun i => ?_⟩
    · have hq : (s.bare.streams (s.bare.opened - 1)).cutAt up down = q'.bare := cutAt_bare _ up down k j
      rw [hq]
      exact congrArg (fun f => { s.bare with streams := f, link := false, closing := false })
        (Function.comp_update QStream.bare s.streams (s.opened - 1) q').symm
    · by_cases hne : i = s.opened - 1
      · subst hne
        rw [hself]
        show Line c.upBytes q'.up true _ (Function.update wup (s.opened - 1) ((wup (s.opened - 1)).take up) (s.opened - 1))
        rw [Function.update_self]
        refine hk ?_
        intro f hf
        exact nextUp_of_cut hR hi (congrArg QStream.up hself) rfl rfl hf
      · rw [hother i hne]
        show Line c.upBytes _ _ _ (Function.update wup (s.opened - 1) ((wup (s.opened - 1)).take up) i)
        rw [Function.update_of_ne hne]
        refine (hR.up i).mono (fun h => h) ?_
        intro f _ hf
        exact ⟨hf.fits, fun hc => hf.chunk (by rwa [hother i hne] at hc), fun hle hz => hf.header hle (hother i hne ▸ hz)⟩
    · by_cases hne : i = s.opened - 1
      · subst hne
        rw [hself]
        show Line c.downBytes q'.down true _
          (Function.update wdown (s.opened - 1) ((wdown (s.opened - 1)).take down) (s.opened - 1))
        rw [Function.update_self]
        refine hj ?_
        intro m hm
        obtain ⟨tail, htail⟩ := hm
        exact fits_down hi hR.counted (by rw [← htail]; simp)
      · rw [hother i hne]
        show Line c.downBytes _ _ _ (Function.update wdown (s.opened - 1) ((wdown (s.opened - 1)).take down) i)
        rw [Function.update_of_ne hne]
        exact hR.down i

/-! ### Reads at the receiver -/

theorem Carries.accept (hR : Carries c s w) (hc : c.Good) (hi : FramesOk s) (h : w.accept c = some w') :
    Answers c s w' := by
  obtain ⟨core, wup, wdown⟩ := w
  obtain rfl : core = s.bare := hR.core
  simp only [Wired.accept] at h
  split at h
  · rename_i f bs hread
    obtain ⟨t, ht, rfl⟩ := Option.map_eq_some_iff.mp h
    obtain ⟨l, hup, hline⟩ := hR.open_front hc hi hread
    obtain ⟨s', hs, hg⟩ := accept_gives hup ht
    have hn : s'.nextAccept = s.nextAccept + 1 := by
      have hstep : s.downStep .accept = some s' := hs
      cases downStep_cases hstep <;> rfl
    refine ⟨_, s', hs, hR.answer hi.living hs hg (fun i _ hle => by omega) ?_ (wrote_kept hs (by simp)) ?_⟩
    · intro i hne hh
      refine (holding_cases (step_living hi.living hs).receiver hs hh).resolve_right ?_
      omega
    · refine hline.mono (fun h => h) ?_
      intro g _ hg'
      -- The header is gone, so what the cut left is a part of a chunk.
      refine ⟨hg'.fits, fun _ => hg'.chunk (.inr (by rw [hup]; simp)), fun hle _ => absurd hle (by omega)⟩
  · cases h

theorem Carries.acceptSkip (hR : Carries c s w) (hc : c.Good) (hi : FramesOk s) (h : w.acceptSkip c = some w') :
    Answers c s w' := by
  obtain ⟨core, wup, wdown⟩ := w
  obtain rfl : core = s.bare := hR.core
  simp only [Wired.acceptSkip] at h
  split at h
  · rename_i hcond
    cases h
    have hlt : s.nextAccept < s.opened := hcond.1
    have hcut : (s.streams s.nextAccept).cut = true := by
      by_contra hlive
      obtain ⟨f, l, bs, _, hread⟩ := hR.open_live hc hi hlt (Bool.eq_false_iff.mpr hlive)
      have hread' : c.readOpen (wup s.bare.nextAccept) = .ok (f, bs) := hread
      rw [hread'] at hcond
      rcases hcond.2 with hcond | hcond
      · exact hlive hcond
      · cases hcond
    have hs : s.step (.down .acceptSkip) = some { s with nextAccept := s.nextAccept + 1 } := by
      simp only [step, downStep, hlt, hcut, and_self, if_true]
    refine ⟨_, _, hs, rfl, hR.counted, fun sid => ?_, hR.down⟩
    refine (hR.up sid).mono (fun h => h) ?_
    intro f _ hf
    exact ⟨hf.fits, hf.chunk, fun hle hz => hf.header (Nat.le_of_succ_le hle) hz⟩
  · cases h

theorem reading_holds {sid : Nat} (hpc : s.down.pc = .reading sid) : Holding s.down sid :=
  ⟨by rw [hpc]; rfl, .inr (.inl hpc)⟩

theorem Carries.chunk (hR : Carries c s w) (hi : FramesOk s) {progress : Bool} (h : w.chunk c progress = some w') :
    Answers c s w' := by
  obtain ⟨core, wup, wdown⟩ := w
  obtain rfl : core = s.bare := hR.core
  simp only [Wired.chunk] at h
  split at h
  · rename_i sid hpc
    have hpc : s.down.pc = .reading sid := hpc
    have hh := reading_holds hpc
    have hlt := hi.living.receiver.holding sid hh
    rcases hR.chunk_front hi hh with ⟨offset, payload, l, bs, hup, hread, hexact, hline⟩ | ⟨_, hnil | ⟨_, _, e, he⟩⟩
    · have hread' : Framing.readChunk (wup sid) = .ok (some ⟨UInt64.ofNat offset, payload⟩, bs) := hread
      simp only [hread', hexact] at h
      obtain ⟨t, ht, rfl⟩ := Option.map_eq_some_iff.mp h
      obtain ⟨s', hs, hg⟩ := chunk_gives hpc hup ht
      have hn : s'.nextAccept = s.nextAccept := by
        rcases nextAccept_cases hs with hn | hn | hn
        · exact hn
        · cases hn
        · cases hn
      have hkeep : ∀ i, Holding s'.down i → Holding s.down i := by
        intro i hh'
        exact (holding_cases (step_living hi.living hs).receiver hs hh').resolve_right (by omega)
      refine ⟨_, s', hs, hR.answer hi.living hs hg (fun i _ hle => by omega) (fun i _ => hkeep i)
        (wrote_kept hs (by simp)) ?_⟩
      refine hline.mono (fun h => h) ?_
      intro g _ hg'
      exact ⟨hg'.fits, fun _ => hg'.chunk (.inl hh), fun hle _ => absurd hle (by omega)⟩
    · have hnil' : wup sid = [] := hnil
      rw [hnil', Framing.readChunk_nil] at h
      cases h
    · have he' : Framing.readChunk (wup sid) = .error e := he
      rw [he'] at h
      cases h
  · cases h

theorem takeUp_self (w : Wired) (sid : Nat) : w.takeUp sid (w.up sid) = w := by
  show { w with up := Function.update w.up sid (w.up sid) } = w
  rw [Function.update_eq_self]

theorem Carries.writeFail (hR : Carries c s w) (hi : FramesOk s) {n : Nat} (h : w.writeFail c n = some w') :
    Answers c s w' := by
  obtain ⟨core, wup, wdown⟩ := w
  obtain rfl : core = s.bare := hR.core
  simp only [Wired.writeFail] at h
  split at h
  · rename_i sid hpc
    have hpc : s.down.pc = .reading sid := hpc
    have hh := reading_holds hpc
    have hlt := hi.living.receiver.holding sid hh
    rcases hR.chunk_front hi hh with ⟨offset, payload, l, bs, hup, hread, hexact, _⟩ | ⟨_, hnil | ⟨_, _, e, he⟩⟩
    · have hread' : Framing.readChunk (wup sid) = .ok (some ⟨UInt64.ofNat offset, payload⟩, bs) := hread
      simp only [hread', hexact] at h
      obtain ⟨t, ht, rfl⟩ := Option.map_eq_some_iff.mp h
      obtain ⟨s', hs, hg⟩ := writeFail_gives hpc hup ht
      have hstep : s.downStep (.writeFail n) = some s' := hs
      have hx : s'.down.pc.ended = true ∧ s'.nextAccept = s.nextAccept := by
        cases downStep_cases hstep
        exact ⟨rfl, rfl⟩
      rw [← takeUp_self ⟨s.bare, wup, wdown⟩ sid]
      refine ⟨_, s', hs, hR.answer hi.living hs hg (fun i _ hle => by omega) (fun i _ hh' => absurd hx.1 (Bool.eq_false_iff.mp hh'.1))
        (wrote_kept hs (by simp)) ?_⟩
      refine (hR.up sid).mono (fun h => h) ?_
      intro g _ hg'
      exact ⟨hg'.fits, fun _ => hg'.chunk (.inl hh), fun hle _ => absurd hle (by omega)⟩
    · have hnil' : wup sid = [] := hnil
      rw [hnil', Framing.readChunk_nil] at h
      cases h
    · have he' : Framing.readChunk (wup sid) = .error e := he
      rw [he'] at h
      cases h
  · cases h

theorem Carries.eof (hR : Carries c s w) (hi : FramesOk s) (h : w.eof c = some w') : Answers c s w' := by
  obtain ⟨core, wup, wdown⟩ := w
  obtain rfl : core = s.bare := hR.core
  simp only [Wired.eof] at h
  split at h
  · rename_i sid hpc
    have hpc : s.down.pc = .reading sid := hpc
    split at h
    · rename_i hnil
      obtain ⟨t, ht, rfl⟩ := Option.map_eq_some_iff.mp h
      have hup : (s.streams sid).up = [] := by
        rcases hR.chunk_front hi (reading_holds hpc) with ⟨_, _, _, _, _, hread, _⟩ | ⟨hup, _⟩
        · have hread' : Framing.readChunk (wup sid) = _ := hread
          rw [hnil, Framing.readChunk_nil] at hread'
          cases hread'
        · exact hup
      refine hR.sends hi.living (a := .down .eof) ?_ ?_ ?_ (adds_of_eof hpc hup ht)
      · trivial
      · simp
      · simp
    · cases h
  · cases h

theorem Carries.readError (hR : Carries c s w) (hi : FramesOk s) (h : w.readError = some w') : Answers c s w' := by
  obtain ⟨core, wup, wdown⟩ := w
  obtain rfl : core = s.bare := hR.core
  simp only [Wired.readError] at h
  split at h
  · rename_i sid hpc
    have hpc : s.down.pc = .reading sid := hpc
    split at h
    · rename_i hcond
      cases h
      obtain ⟨hup, hcut⟩ : (s.streams sid).up = [] ∧ (s.streams sid).cut = true := by
        rcases hR.chunk_front hi (reading_holds hpc) with ⟨_, _, _, _, _, hread, _⟩ | ⟨hup, hnil | ⟨hcut, _⟩⟩
        · have hread' : Framing.readChunk (wup sid) = _ := hread
          rcases hcond with ⟨hnil, _⟩ | hbroken
          · rw [hnil, Framing.readChunk_nil] at hread'
            cases hread'
          · rw [hread'] at hbroken
            cases hbroken
        · have hnil' : wup sid = [] := hnil
          rcases hcond with ⟨_, hcut⟩ | hbroken
          · exact ⟨hup, hcut⟩
          · rw [hnil', Framing.readChunk_nil] at hbroken
            cases hbroken
        · exact ⟨hup, hcut⟩
      have hs : s.step (.down .readError) = some { s with down := { s.down with pc := .waiting } } := by
        simp only [step, downStep, hpc, hup, hcut, and_self, if_true]
      refine hR.still hi.living ?_ ?_ ?_ hs rfl
      · trivial
      · simp
      · simp
    · cases h
  · cases h

/-! ### Reads at the sender -/

theorem loadDown_self (s : Transfer) (sid : Nat) (m : WormholeMsg) :
    (s.loadDown sid m).streams sid = { s.streams sid with down := [m] } := Function.update_self _ _ _

theorem loadDown_of_ne (s : Transfer) {sid i : Nat} {m : WormholeMsg} (h : i ≠ sid) :
    (s.loadDown sid m).streams i = s.streams i := Function.update_of_ne h _ _

/-- Where the sub-task goes on after a message. -/
def readingAfter (sid : Nat) : WormholeMsg → AckReaderPc
  | .ack _ => .reading sid
  | _ => .exited

/-- The reader sub-task takes a message off `sid`. -/
theorem readMsg_takes {sid : Nat} {m : WormholeMsg} {rest : List WormholeMsg} (hr : s.ackReader = .reading sid)
    (hd : (s.streams sid).down = m :: rest) (h : (s.bare.loadDown sid m).ackStep .readMsg = some t) :
    ∃ s', s.step (.ack .readMsg) = some s' ∧ t.bare = s'.bare ∧
      s'.streams = Function.update s.streams sid { s.streams sid with down := rest } := by
  have hself := loadDown_self s.bare sid m
  have hr' : (s.bare.loadDown sid m).ackReader = .reading sid := hr
  have hstreams : (fun i => (Function.update (s.bare.loadDown sid m).streams sid
        { (s.streams sid).bare with down := [] } i).bare) =
      fun i => (Function.update s.streams sid { s.streams sid with down := rest } i).bare := by
    funext i
    by_cases hi : i = sid
    · subst hi
      rw [Function.update_self, Function.update_self]
      rfl
    · rw [Function.update_of_ne hi, Function.update_of_ne hi]
      rw [loadDown_of_ne s.bare hi]
      rfl
  simp only [ackStep, hr', hself, setStream] at h
  by_cases hx : s.ack = .exited
  · have hx' : (s.bare.loadDown sid m).ack = .exited := hx
    rw [if_pos hx'] at h
    cases h
    refine ⟨_, by simp only [step, ackStep, hr, hd, if_pos hx]; rfl, ?_, rfl⟩
    exact congrArg (fun f => { s with streams := f, ackReader := .exited }) hstreams
  have hx' : ¬ (s.bare.loadDown sid m).ack = .exited := hx
  rw [if_neg hx'] at h
  by_cases hlen : s.ackRx.length < ackSlots
  · have hlen' : (s.bare.loadDown sid m).ackRx.length < ackSlots := hlen
    rw [if_pos hlen'] at h
    cases h
    refine ⟨_, by simp only [step, ackStep, hr, hd, if_neg hx, if_pos hlen]; rfl, ?_, rfl⟩
    exact congrArg (fun f =>
      { s with streams := f, ackRx := s.ackRx ++ [m.toAckMsg], ackReader := readingAfter sid m }) hstreams
  · have hlen' : ¬ (s.bare.loadDown sid m).ackRx.length < ackSlots := hlen
    rw [if_neg hlen'] at h
    cases h

/-- What `read_wormhole_msg` makes of the bytes of a stream. -/
theorem Carries.msg_front (hR : Carries c s w) (hc : c.Good) (hi : FramesOk s) (sid : Nat) :
    (∃ m l bs, (s.streams sid).down = m :: l ∧ c.readMsg (w.down sid) = .ok (m.toWire, bs) ∧
        WormholeMsg.ofWire m.toWire = some m ∧
        Line c.downBytes l (s.streams sid).cut WormholeMsg.Fits bs) ∨
      ((s.streams sid).down = [] ∧ ∃ e, c.readMsg (w.down sid) = .error e ∧
        (w.down sid = [] ∧ e ∈ framedLacks "wormhole" ∨ (s.streams sid).cut = true)) := by
  have hline := hR.down sid
  cases hd : (s.streams sid).down with
  | nil =>
    rw [hd] at hline
    refine .inr ⟨rfl, ?_⟩
    rcases hline.of_nil with hbs | ⟨m, n, hcut, _, _, hn, hbs⟩
    · obtain ⟨e, hmem, he⟩ := Codec.readMsg_nil (c := c)
      exact ⟨e, by rw [hbs, he], .inl ⟨hbs, hmem⟩⟩
    · obtain ⟨e, he⟩ := (hc.readMsg m).2 n hn
      exact ⟨e, by rw [hbs, he], .inr hcut⟩
  | cons m l =>
    rw [hd] at hline
    obtain ⟨bs, hbs, hrest⟩ := hline.cons
    have hfit : m.Fits := fits_down hi hR.counted (by rw [hd]; exact List.mem_cons_self)
    exact .inl ⟨m, l, bs, rfl, by rw [hbs, (hc.readMsg m).1], WormholeMsg.ofWire_toWire hfit, hrest⟩

theorem Carries.readMsg (hR : Carries c s w) (hc : c.Good) (hi : FramesOk s) (h : w.readMsg c = some w') :
    Answers c s w' := by
  obtain ⟨core, wup, wdown⟩ := w
  obtain rfl : core = s.bare := hR.core
  simp only [Wired.readMsg] at h
  split at h
  · rename_i sid hr
    have hr : s.ackReader = .reading sid := hr
    rcases hR.msg_front hc hi sid with ⟨m, l, bs, hd, hread, hof, hline⟩ | ⟨_, e, he, _⟩
    · have hread' : c.readMsg (wdown sid) = .ok (m.toWire, bs) := hread
      simp only [hread', hof, Option.bind_some] at h
      obtain ⟨t, ht, rfl⟩ := Option.map_eq_some_iff.mp h
      obtain ⟨s', hs, hbare, hstreams⟩ := readMsg_takes hr hd ht
      have hstep : s.ackStep .readMsg = some s' := hs
      have hsame : s'.down = s.down ∧ s'.nextAccept = s.nextAccept := by
        cases ackStep_cases hstep <;> exact ⟨rfl, rfl⟩
      have hup : ∀ i, (s'.streams i).up = (s.streams i).up ∧ (s'.streams i).cut = (s.streams i).cut := by
        intro i
        rw [hstreams]
        by_cases hi : i = sid
        · subst hi
          rw [Function.update_self]
          exact ⟨rfl, rfl⟩
        · rw [Function.update_of_ne hi]
          exact ⟨rfl, rfl⟩
      have hcount : s'.wrote = s.wrote := wrote_kept hs (by simp)
      refine ⟨_, s', hs, hbare, hcount ▸ hR.counted, fun i => ?_, fun i => ?_⟩
      · rw [(hup i).1, (hup i).2]
        refine (hR.up i).mono (fun h => h) ?_
        intro f _ hf
        refine ⟨hf.fits, fun hc => hf.chunk ?_, fun hle hz => hf.header ?_ ?_⟩
        · rwa [hsame.1, (hup i).1] at hc
        · rwa [hsame.2] at hle
        · rwa [(hup i).1] at hz
      · rw [hstreams]
        show Line c.downBytes _ _ _ (Function.update wdown sid bs i)
        by_cases hi : i = sid
        · subst hi
          rw [Function.update_self, Function.update_self]
          exact hline
        · rw [Function.update_of_ne hi, Function.update_of_ne hi]
          exact hR.down i
    · have he' : c.readMsg (wdown sid) = .error e := he
      rw [he'] at h
      cases h
  · cases h

theorem Carries.readEnd (hR : Carries c s w) (hc : c.Good) (hi : FramesOk s) (h : w.readEnd c = some w') :
    Answers c s w' := by
  obtain ⟨core, wup, wdown⟩ := w
  obtain rfl : core = s.bare := hR.core
  simp only [Wired.readEnd] at h
  split at h
  · rename_i sid hr
    have hr : s.ackReader = .reading sid := hr
    split at h
    · rename_i hbroken
      have hended : (s.streams sid).downEnded = true := by
        rcases hR.msg_front hc hi sid with ⟨m, l, bs, _, hread, _⟩ | ⟨hd, e, he, hwhy⟩
        · have hread' : c.readMsg (wdown sid) = .ok (m.toWire, bs) := hread
          rw [hread'] at hbroken
          cases hbroken
        · have he' : c.readMsg (wdown sid) = .error e := he
          have hend : (s.streams sid).cut = true ∨ (s.streams sid).downFin = true := by
            rcases hwhy with ⟨_, hmem⟩ | hcut
            · rw [he', broken, decide_eq_false (not_not.mpr hmem), Bool.or_false] at hbroken
              exact (Bool.or_eq_true _ _).mp hbroken
            · exact .inl hcut
          rw [QStream.downEnded, hd]
          exact (Bool.or_eq_true _ _).mpr hend
      obtain ⟨t, ht, rfl⟩ := Option.map_eq_some_iff.mp h
      simp only [readFailed] at ht
      by_cases hx : s.ack = .exited
      · have hx' : s.bare.ack = .exited := hx
        rw [if_pos hx'] at ht
        cases ht
        have hs : s.step (.ack .readEnd) = some { s with ackReader := .waiting } := by
          simp only [step, ackStep, hr, hended, if_pos hx, if_true]
        refine hR.still hi.living ?_ ?_ ?_ hs rfl
        · trivial
        · simp
        · simp
      have hx' : ¬ s.bare.ack = .exited := hx
      rw [if_neg hx'] at ht
      by_cases hlen : s.ackRx.length < ackSlots
      · have hlen' : s.bare.ackRx.length < ackSlots := hlen
        rw [if_pos hlen'] at ht
        cases ht
        have hs : s.step (.ack .readEnd) = some { s with ackRx := s.ackRx ++ [.streamError], ackReader := .waiting } := by
          simp only [step, ackStep, hr, hended, if_neg hx, if_pos hlen, if_true]
        refine hR.still hi.living ?_ ?_ ?_ hs rfl
        · trivial
        · simp
        · simp
      · have hlen' : ¬ s.bare.ackRx.length < ackSlots := hlen
        rw [if_neg hlen'] at ht
        cases ht
    · cases h
  · cases h

/-! ## The refinement -/

/-- Every step over bytes is a step over frames. -/
theorem Carries.answers (hR : Carries c s w) (hc : c.Good) (hi : FramesOk s) (hok : w.counted a)
    (h : w.step c a = some w') : Answers c s w' := by
  cases a with
  | reader a => exact hR.plain hi.living hok (.inl rfl) h
  | ticket a => exact hR.plain hi.living hok (.inl rfl) h
  | pump a =>
    refine hR.plain hi.living hok ?_ h
    cases a <;> simp [blind, marks, writes]
  | ack a =>
    cases a with
    | readMsg => exact hR.readMsg hc hi h
    | readEnd => exact hR.readEnd hc hi h
    | _ => exact hR.plain hi.living hok (.inl rfl) h
  | link a =>
    cases a with
    | outage up down => exact hR.outage hi h
    | restoreOpen => exact hR.plain hi.living hok (.inr (.inr rfl)) h
    | dropStream sid => exact hR.plain hi.living hok (.inr (.inl rfl)) h
    | _ => exact hR.plain hi.living hok (.inl rfl) h
  | down a =>
    cases a with
    | accept => exact hR.accept hc hi h
    | acceptSkip => exact hR.acceptSkip hc hi h
    | chunk progress => exact hR.chunk hi h
    | writeFail n => exact hR.writeFail hi h
    | eof => exact hR.eof hi h
    | readError => exact hR.readError hi h
    | tcpAcceptFail => exact hR.plain hi.living hok (.inr (.inr rfl)) h
    | dropStream sid => exact hR.plain hi.living hok (.inr (.inl rfl)) h
    | _ => exact hR.plain hi.living hok (.inl rfl) h

theorem wired_simulates (hc : c.Good) (capped : Bool) :
    Simulates (Wired.step c) Wired.counted (Wired.init c capped) step anyStep (init capped) FramesOk
      fun w s => Carries c s w := by
  refine ⟨init_carries c capped, ?_⟩
  intro w w' s a hR hi hok h
  obtain ⟨b, s', hs, hR'⟩ := hR.answers hc hi hok h
  exact .inr ⟨b, s', trivial, hs, hR'⟩

/-- Every state over bytes stands for one over frames. -/
theorem reach_carries (hc : c.Good) {capped : Bool} (h : Reach (Wired.step c) Wired.counted (Wired.init c capped) w) :
    ∃ s, Reach step anyStep (init capped) s ∧ Carries c s w := by
  refine (wired_simulates hc capped).reach ?_ h
  intro t ht
  exact reach_framesOk ht

/-- A run over bytes, with any cuts, is a run over frames: the tasks do the same, a stream
    that is not cut holds the bytes of its frames, and the receiving client has a prefix of
    what the sending client wrote. -/
theorem bytes_refine_frames (hc : c.Good) {capped : Bool}
    (h : Reach (Wired.step c) Wired.counted (Wired.init c capped) w) :
    (∃ s, Reach step anyStep (init capped) s ∧ w.core = s.bare ∧
      ∀ sid, (s.streams sid).cut = false →
        w.up sid = encodeAll c.upBytes (s.streams sid).up ∧ w.down sid = encodeAll c.downBytes (s.streams sid).down) ∧
      w.core.down.out <+: w.core.wrote := by
  obtain ⟨s, hs, hR⟩ := reach_carries hc h
  have hi := reach_framesOk hs
  refine ⟨⟨s, hs, hR.core, fun sid hlive => ?_⟩, ?_⟩
  · have hup := hR.up sid
    have hdown := hR.down sid
    rw [hlive] at hup hdown
    exact ⟨hup.eq_of_live, hdown.eq_of_live⟩
  · have hout : s.down.out <+: s.wrote := by
      rw [hi.wrote]
      exact hi.living.sound.bytes.outOk.sent.trans (List.prefix_append ..)
    rw [hR.core]
    exact hout

/-- An uplink of three bytes. -/
def threeBytes : Codec :=
  WireJson.textCodec ⟨⟨1⟩, 0, some 3, ∅⟩
    "\x7b\"uuid\":\"00000000-0000-0000-0000-000000000001\",\"priority\":0,\"size_bytes\":3,\"attrs\":\x7b\x7d\x7d"
    "00000000-0000-0000-0000-000000000001"

theorem threeBytes_good : threeBytes.Good := WireJson.textCodec_good _ (by decide +kernel) (by decide +kernel)

/-- The link fails in the middle of a chunk, and the ack task notices. -/
def cutInChunk : List Act := [.ack .check, .link (.outage 5 0), .ack .readEnd, .ack .msg, .ack .check]

/-- Up to the cut, after two of the three bytes. -/
def sendAndCut : List Act :=
  [[.reader .accept], writeAndPush [1, 2, 3], grant 2, sendChunk, startDownlink, [.down (.chunk false)], grant 9,
    sendChunk, cutInChunk].flatten

/-- Half of the third byte's chunk header arrives on the first stream, and nothing reads
    it; all three bytes come on the second. -/
theorem bytes_refine_frames_cut :
    ∃ w, Reach (Wired.step threeBytes) Wired.counted (Wired.init threeBytes true) w ∧ w.up 0 = [0, 0, 0, 0, 0] ∧
      w.core.down.out = [1, 2, 3] ∧ w.core.down.out <+: w.core.wrote ∧
      ∃ s, Reach step anyStep (init true) s ∧ w.core = s.bare := by
  obtain ⟨w, hr, hw⟩ := Reach.exists_run (Wired.step threeBytes) Wired.counted (Wired.init threeBytes true)
    [sendAndCut, restoreLink, resumePump, grant 9, sendChunk, resumeDownlink, [.down (.chunk false)]].flatten
    (fun w => w.up 0 = [0, 0, 0, 0, 0] ∧ w.core.down.out = [1, 2, 3]) (by decide +kernel)
  obtain ⟨hup, hout⟩ := of_decide_eq_true hw
  obtain ⟨⟨s, hs, hcore, _⟩, hsent⟩ := bytes_refine_frames threeBytes_good hr
  exact ⟨w, hr, hup, hout, hsent, s, hs, hcore⟩

/-- On a stream that is not cut no read fails: there is a whole header in front of a stream
    that was not taken, and what is read after it is nothing yet or a whole frame. -/
theorem live_bytes_well_framed (hc : c.Good) {capped : Bool}
    (h : Reach (Wired.step c) Wired.counted (Wired.init c capped) w) :
    (w.core.nextAccept < w.core.opened → (w.core.streams w.core.nextAccept).cut = false →
      ∃ f rest, c.readOpen (w.up w.core.nextAccept) = .ok (f, rest)) ∧
    (∀ sid, w.core.down.pc = .reading sid → (w.core.streams sid).cut = false →
      w.up sid = [] ∨ ∃ ch rest, Framing.readChunk (w.up sid) = .ok (some ch, rest)) ∧
    (∀ sid, w.core.ackReader = .reading sid → (w.core.streams sid).cut = false →
      w.down sid = [] ∨ ∃ m rest, c.readMsg (w.down sid) = .ok (m, rest)) := by
  obtain ⟨s, hs, hR⟩ := reach_carries hc h
  have hi := reach_framesOk hs
  rw [hR.core]
  refine ⟨fun hlt hlive => ?_, fun sid hpc hlive => ?_, fun sid hr hlive => ?_⟩
  · have hlive : (s.streams s.nextAccept).cut = false := hlive
    obtain ⟨f, l, bs, _, hread⟩ := hR.open_live hc hi hlt hlive
    exact ⟨f, bs, hread⟩
  · have hlive : (s.streams sid).cut = false := hlive
    rcases hR.chunk_front hi (reading_holds hpc) with ⟨o, p, l, bs, _, hread, _⟩ | ⟨_, hnil | ⟨hcut, _⟩⟩
    · exact .inr ⟨_, bs, hread⟩
    · exact .inl hnil
    · rw [hlive] at hcut
      cases hcut
  · have hlive : (s.streams sid).cut = false := hlive
    rcases hR.msg_front hc hi sid with ⟨m, l, bs, _, hread, _⟩ | ⟨_, e, _, ⟨hnil, _⟩ | hcut⟩
    · exact .inr ⟨_, bs, hread⟩
    · exact .inl hnil
    · rw [hlive] at hcut
      cases hcut

/-- After the cut the second stream is live, and its header is read. -/
theorem live_bytes_well_framed_cut :
    ∃ w, Reach (Wired.step threeBytes) Wired.counted (Wired.init threeBytes true) w ∧ w.core.nextAccept = 1 ∧
      ∃ f rest, threeBytes.readOpen (w.up 1) = .ok (f, rest) := by
  obtain ⟨w, hr, hw⟩ := Reach.exists_run (Wired.step threeBytes) Wired.counted (Wired.init threeBytes true)
    [sendAndCut, restoreLink, resumePump].flatten
    (fun w => w.core.nextAccept = 1 ∧ w.core.opened = 2 ∧ (w.core.streams 1).cut = false) (by decide +kernel)
  obtain ⟨hnext, hopened, hlive⟩ := of_decide_eq_true hw
  obtain ⟨hheader, _⟩ := live_bytes_well_framed threeBytes_good hr
  rw [hnext, hopened] at hheader
  exact ⟨w, hr, hnext, hheader (by omega) hlive⟩

end Quelay.Agent.Transfer
