import CppServerStudio.Rtsp.Pacing

/-!
# The slices of a picture

A picture is a slice with its first macroblock, and the slices without it that follow. `readFrame`
moves the media clock on right behind the first slice, so that the others get the time of the next
picture, and the encoder sets the marker where the time changes.

## Main definitions

* `PictureStream`: a stream in which each further slice follows the first slice of a picture
* `EsSender.Streamed`: the turns of `readFrame` by some time, with the units read and the packets
* `OneTimestamp`: the slices of a picture have one time, the times of pictures increase, and the
  marker is on the last packet of a picture
* `EsStream.RunsOneTimestamp`: this holds of all runs, and none of them fails

## Main results

* `EsSender.Played.exists_streamed`: calls of `readFrame` make such turns
* `EsReader.Traced.sends`: the calls of a turn, when each picture has one slice
* `oneTimestamp_iff`: the streams whose runs give one time to each picture
-/

namespace CppServerStudio

open Scanning EncoderUnits

/-! ## Slices -/

namespace NalUnit

/-- A unit of the types 1 to 5. -/
def isSlice (unit : NalUnit) : Bool :=
  let nalu := ({} : H264Nalu).fill unit.bytes
  nalBP ≤ nalu.nalUnitType && nalu.nalUnitType ≤ nalIdr

/-- A slice of a picture that has begun. -/
def continues (unit : NalUnit) : Bool := unit.isSlice && !unit.decodeAble

variable {unit : NalUnit}

theorem isFrame_of_isSlice (h : unit.isSlice = true) : unit.isFrame = true := by
  rw [isSlice, Bool.and_eq_true, decide_eq_true_eq, decide_eq_true_eq] at h
  rw [isFrame, H264Nalu.isFrame, H264Nalu.isSps, H264Nalu.isPps, H264Nalu.dropAble]
  generalize (({} : H264Nalu).fill unit.bytes).nalUnitType = type at h
  have hne : ∀ other : Byte, nalIdr < other → type ≠ other := by
    rintro other hlt rfl
    exact absurd h.2 (by simpa using hlt)
  simp [hne nalSps (by decide), hne nalPps (by decide), hne nalSei (by decide),
    hne nalAud (by decide)]

theorem isSlice_of_decodeAble (h : unit.decodeAble = true) : unit.isSlice = true := by
  rw [decodeAble, H264Nalu.decodeAble, Bool.and_eq_true] at h
  exact h.1

end NalUnit

namespace EsStream

variable (stream : EsStream)

/-- A further slice. -/
def Continues (i : ℕ) : Prop := (stream.unitAt i).continues = true

/-- The last slice of a picture: no further slice comes before the next picture. -/
def LastSlice (i : ℕ) : Prop :=
  (stream.unitAt i).isSlice = true ∧
    ∀ j, i < j → stream.Continues j → ∃ k, i < k ∧ k < j ∧ stream.First k

end EsStream

/-- **A stream of pictures**: each further slice follows the first slice of some picture. -/
structure PictureStream extends EsStream where
  slices : ∀ c < frames.length, toEsStream.Continues c → ∃ i < c, toEsStream.First i

/-! ## Runs, turn by turn -/

/-- **The turns** that `readFrame` makes, each of them at some time: the units that are read, each
with the packets that are sent for it. What a turn does is the same at any time, so these are the
turns of calls at such times, of which the last may still be going on. -/
inductive EsSender.Streamed (fresh : H264Nalu) (track : Track) (stream : Bytes) :
    EsSender → List (H264Nalu × List RtpPacket) → Prop
  | nil : Streamed fresh track stream (start track stream) []
  | snoc {s steps nowTime fuel t nalu rtps} (h : Streamed fresh track stream s steps)
      (hlate : s.reader.late nowTime = true) (hturn : s.turn fresh fuel = .ok (t, nalu, rtps)) :
      Streamed fresh track stream t (steps ++ [(nalu, rtps)])

/-- **What is sent for a frame** when the next one is there: the packets of parameter sets, without
the marker, and those of the frame, which give back its bytes. The marker is on the last one of
these if the frame is the last slice of a picture, and on no other packet. -/
def EsStream.Sends (stream : EsStream) (i : ℕ) (rtps : List RtpPacket) : Prop :=
  ∃ config frame, rtps = config ++ frame ∧ (∀ rtp ∈ config, rtp.mark = false) ∧
    depacketize none (frame.map RtpPacket.payload) = some [(stream.unitAt i).bytes] ∧
    ∀ k rtp, frame[k]? = some rtp →
      (rtp.mark = true ↔ stream.LastSlice i ∧ k + 1 = frame.length)

/-- **One timestamp per picture**, for the units that were read with the packets that were sent for
them. The times of pictures increase modulo `2 ^ 32`: of two pictures that are less than `2 ^ 31`
ticks apart the second one is ahead. -/
structure OneTimestamp (stream : EsStream) (steps : List (H264Nalu × List RtpPacket)) : Prop where
  samePts : ∀ i j, i < j → stream.First i → stream.Continues j →
    (∀ k, i < k → k < j → ¬ stream.First k) → ∀ first slice,
      steps[i]? = some first → steps[j]? = some slice → slice.1.pts = first.1.pts
  increasing : ∀ i j, i < j → stream.First i → stream.First j →
    3600 * (Nat.count stream.First j - Nat.count stream.First i) < 2 ^ 31 → ∀ first next,
      steps[i]? = some first → steps[j]? = some next →
        0 < (next.1.pts - first.1.pts).toNat ∧ (next.1.pts - first.1.pts).toNat < 2 ^ 31
  sends : ∀ i j, stream.NextFrame i j → ∀ nalu rtps, steps[j]? = some (nalu, rtps) →
    stream.Sends i rtps
  silent : ∀ j, (∀ i, ¬ stream.NextFrame i j) → ∀ nalu rtps, steps[j]? = some (nalu, rtps) →
    rtps = []

/-- **Every run gives one timestamp to each picture**, and its next turn does not fail, so that each
picture is sent to its last packet. -/
def EsStream.RunsOneTimestamp (stream : EsStream) (fresh : H264Nalu) (track : Track) : Prop :=
  ∀ s steps, EsSender.Streamed fresh track (annexB stream.frames) s steps →
    OneTimestamp stream steps ∧ ∃ fuel r, s.turn fresh fuel = .ok r

/-! ## What is sent -/

namespace PackRtpCall

variable {fuel : ℕ} {e e' : H264RtpEncoder} {call : PackRtpCall} {calls : List PackRtpCall}
  {rtps : List RtpPacket}

/-- The packets of a call have the marker on the last one, if the call is marked. -/
theorem mark_of_send (hmtu : 16 ≤ e.mtuSize) (h : call.send fuel e = .ok (e', rtps)) :
    ∀ k rtp, rtps[k]? = some rtp →
      (rtp.mark = true ↔ call.isMark = true ∧ k + 1 = rtps.length) := by
  intro k rtp hk
  rw [send] at h
  split_ifs at h
  have hlossless := H264RtpEncoder.lossless_packRtp hmtu (ne_nil_of_packRtp h) h
  have hview := hlossless.wellMarked.mark k rtp.view (by rw [List.getElem?_map, hk]; rfl)
  rwa [List.length_map] at hview

/-- The packets of calls without the marker. -/
theorem mark_of_sendAll (hmtu : 16 ≤ e.mtuSize) (hcalls : ∀ call ∈ calls, call.isMark = false)
    (h : sendAll fuel e calls = .ok (e', rtps)) : ∀ rtp ∈ rtps, rtp.mark = false := by
  induction calls generalizing e rtps with
  | nil =>
    cases h
    exact fun rtp hrtp => absurd hrtp List.not_mem_nil
  | cons call calls ih =>
    rw [List.forall_mem_cons] at hcalls
    rw [sendAll] at h
    obtain ⟨⟨e₁, first⟩, hfirst, h⟩ := bind_eq_ok.mp h
    obtain ⟨⟨e₂, others⟩, hothers, h⟩ := bind_eq_ok.mp h
    cases h
    obtain ⟨-, hsize⟩ := sendable_of_send hmtu hfirst
    rw [List.forall_mem_append]
    refine ⟨fun rtp hrtp => ?_, ih (hsize ▸ hmtu) hcalls.2 hothers⟩
    obtain ⟨k, hk, rfl⟩ := List.getElem_of_mem hrtp
    have hmark := mark_of_send hmtu hfirst k _ (List.getElem?_eq_getElem hk)
    rw [hcalls.1] at hmark
    simpa using hmark

end PackRtpCall

theorem EncoderUnits.isMark_insertConfigFrame (u : EncoderUnits) (pts : UInt32) :
    ∀ call ∈ u.insertConfigFrame pts, call.isMark = false := by
  rw [insertConfigFrame]
  split <;> simp

/-- The calls for a frame: those for parameter sets, without the marker, and one for its bytes,
which is marked if it is the last slice of a picture. -/
def EsStream.Calls (stream : EsStream) (i : ℕ) (calls : List PackRtpCall) : Prop :=
  ∃ config call, calls = config ++ [call] ∧ (∀ c ∈ config, c.isMark = false) ∧
    call.asked = (stream.unitAt i).bytes ∧ (call.isMark = true ↔ stream.LastSlice i)

/-- **The packets for a frame.** -/
theorem EsStream.Calls.sends {stream : EsStream} {i fuel : ℕ} {calls : List PackRtpCall}
    {e e' : H264RtpEncoder} {rtps : List RtpPacket} (h : stream.Calls i calls)
    (hmtu : 16 ≤ e.mtuSize) (hsend : PackRtpCall.sendAll fuel e calls = .ok (e', rtps)) :
    stream.Sends i rtps := by
  obtain ⟨config, call, rfl, hconfig, hasked, hmark⟩ := h
  rw [PackRtpCall.sendAll_append] at hsend
  obtain ⟨⟨e₁, first⟩, hfirst, hsend⟩ := bind_eq_ok.mp hsend
  obtain ⟨⟨e₂, frame⟩, hframe, hsend⟩ := bind_eq_ok.mp hsend
  cases hsend
  have hmtu₁ : 16 ≤ e₁.mtuSize := by rwa [(PackRtpCall.sendable_of_sendAll hmtu hfirst).2]
  refine ⟨first, frame, rfl, PackRtpCall.mark_of_sendAll hmtu hconfig hfirst, ?_, ?_⟩
  · rw [PackRtpCall.depacketize_sendAll hmtu₁ hframe, List.map_singleton, hasked]
  · -- the one call for the frame
    rw [PackRtpCall.sendAll] at hframe
    obtain ⟨⟨e₃, rtps⟩, hone, hframe⟩ := bind_eq_ok.mp hframe
    cases hframe
    rw [List.append_nil, ← hmark]
    exact PackRtpCall.mark_of_send hmtu₁ hone

/-! ## Times -/

section

variable {p : ℕ → Prop} [DecidablePred p] {i j c : ℕ}

theorem count_of_none (hij : i ≤ j) (h : ∀ k, i ≤ k → k < j → ¬ p k) :
    Nat.count p j = Nat.count p i := by
  induction j, hij using Nat.le_induction with
  | base => rfl
  | succ j hij ih =>
    rw [Nat.count_succ, if_neg (h j hij (Nat.lt_succ_self j)), Nat.add_zero]
    exact ih fun k hik hkj => h k hik (hkj.trans (Nat.lt_succ_self j))

theorem count_of_next (hij : i < j) (h : ∀ k, i < k → k < j → ¬ p k) :
    Nat.count p j = Nat.count p i + if p i then 1 else 0 := by
  rw [count_of_none (Nat.succ_le_of_lt hij) fun k hik hkj => h k hik hkj, Nat.count_succ]

/-- The last one before a position. -/
theorem exists_last_lt (h : ∃ i < c, p i) : ∃ i < c, p i ∧ ∀ k, i < k → k < c → ¬ p k := by
  obtain ⟨i, hi, hp⟩ := h
  have hle := Nat.findGreatest_le (P := p) (c - 1)
  refine ⟨Nat.findGreatest p (c - 1), by omega, Nat.findGreatest_spec (by omega) hp, ?_⟩
  exact fun k hik hkc => Nat.findGreatest_is_greatest hik (by omega)

end

/-- The times of two pictures, or of the slices of one. -/
theorem time_ne (n : ℕ) : 3600 * UInt32.ofNat (n + 1) ≠ 3600 * UInt32.ofNat n := by
  intro h
  rw [UInt32.ofNat_add] at h
  grind

theorem toNat_time_sub {m n : ℕ} (hmn : m ≤ n) (hlt : 3600 * (n - m) < 2 ^ 31) :
    (3600 * UInt32.ofNat n - 3600 * UInt32.ofNat m).toNat = 3600 * (n - m) := by
  obtain ⟨d, rfl⟩ := Nat.exists_eq_add_of_le hmn
  rw [Nat.add_sub_cancel_left] at hlt ⊢
  have hsub : 3600 * UInt32.ofNat (m + d) - 3600 * UInt32.ofNat m = 3600 * UInt32.ofNat d := by
    rw [UInt32.ofNat_add]
    grind
  have hsmall : d < 2 ^ 32 := by omega
  rw [hsub, UInt32.toNat_mul, UInt32.toNat_ofNat_of_lt' hsmall]
  change 3600 * d % 2 ^ 32 = 3600 * d
  exact Nat.mod_eq_of_lt (hlt.trans (by decide))

/-! ## One slice for each picture -/

/-- Each slice is the first one of a picture. -/
def EsStream.OneSlice (stream : EsStream) : Prop :=
  ∀ frame ∈ stream.frames, frame.2.isSlice = true → frame.2.decodeAble = true

namespace EsReader

variable {fresh : H264Nalu} {stream : EsStream} {s : EsReader}
  {steps : List (H264Nalu × List PackRtpCall)} {i j : ℕ}

theorem not_continues (h : stream.OneSlice) (j : ℕ) : ¬ stream.Continues j := by
  intro hcont
  rw [EsStream.Continues, NalUnit.continues, Bool.and_eq_true] at hcont
  have hfirst := h _ (List.get_mem stream.frames _) hcont.1
  have hnot := hcont.2
  rw [EsStream.unitAt, hfirst] at hnot
  exact absurd hnot (by decide)

theorem lastSlice_iff (h : stream.OneSlice) : stream.LastSlice i ↔ stream.First i := by
  refine ⟨fun hlast => h _ (List.get_mem stream.frames _) hlast.1, fun hfirst => ?_⟩
  exact ⟨NalUnit.isSlice_of_decodeAble hfirst, fun j _ hcont => absurd hcont (not_continues h j)⟩

/-- **The time changes behind the first slice of a picture** and nowhere else. -/
theorem pts_ne_iff (hnext : stream.NextFrame i j) :
    (stampAt stream fresh i).pts ≠ (stampAt stream fresh j).pts ↔ stream.First i := by
  have hcount : Nat.count stream.First j = Nat.count stream.First i +
      if stream.First i then 1 else 0 := by
    refine count_of_next hnext.lt fun k hik hkj hfirst => ?_
    have hframe := NalUnit.isFrame_of_isSlice (NalUnit.isSlice_of_decodeAble hfirst)
    rw [hnext.between k hik hkj] at hframe
    cases hframe
  change 3600 * UInt32.ofNat (Nat.count stream.First i) ≠
    3600 * UInt32.ofNat (Nat.count stream.First j) ↔ _
  rw [hcount]
  split_ifs with hfirst
  · exact iff_of_true (time_ne _).symm hfirst
  · exact iff_of_false (fun hne => hne rfl) hfirst

/-- The calls of a turn, when each picture has one slice. -/
theorem Traced.calls (h : Traced stream fresh s steps) (hone : stream.OneSlice)
    (hnext : stream.NextFrame i j) {nalu : H264Nalu} {calls : List PackRtpCall}
    (hj : steps[j]? = some (nalu, calls)) : stream.Calls i calls := by
  have hlt := (List.getElem?_eq_some_iff.mp hj).1
  have hlast := (@h.lastOf_iff _ _ _ _ H264Nalu.isFrame NalUnit.isFrame (fun _ => rfl) j hlt.le
    _).mpr ⟨i, rfl, (EsStream.nextFrame_iff.mp hnext).1⟩
  have hcalls := h.calls_eq hj
  obtain ⟨rfl, -⟩ := h.entries j nalu calls hj
  rw [if_pos hnext.next, hlast, Option.elim_some, inputFrameL] at hcalls
  refine ⟨_, _, hcalls, fun call hcall => ?_, PackRtpCall.asked_whole _ _ _ _, ?_⟩
  · split_ifs at hcall
    · exact isMark_insertConfigFrame _ _ call hcall
    · cases hcall
  · rw [decide_eq_true_eq, pts_ne_iff hnext, lastSlice_iff hone]

theorem Traced.silent (h : Traced stream fresh s steps) (hnone : ∀ i, ¬ stream.NextFrame i j)
    {nalu : H264Nalu} {calls : List PackRtpCall} (hj : steps[j]? = some (nalu, calls)) :
    calls = [] := by
  have hlt := (List.getElem?_eq_some_iff.mp hj).1
  rw [h.calls_eq hj]
  split_ifs with hframe
  · cases hlast : lastOf H264Nalu.isFrame ((steps.map Prod.fst).take j) with
    | none => rfl
    | some last =>
      -- the last frame in front would be sent
      obtain ⟨i, -, hi⟩ := (@h.lastOf_iff _ _ _ _ H264Nalu.isFrame NalUnit.isFrame (fun _ => rfl)
        j hlt.le _).mp hlast
      exact absurd (EsStream.nextFrame_iff.mpr ⟨hi, hframe⟩) (hnone i)
  · rfl

end EsReader

namespace EsSender

open EsReader

variable {fresh : H264Nalu} {track : Track} {stream : EsStream} {s : EsSender}
  {steps : List (H264Nalu × List RtpPacket)}

/-- The turns of a call go on from those before it. -/
theorem Streamed.returns {file : Bytes} {nowTime : ℤ} {t : EsSender} {nalus : List H264Nalu}
    {rtps : List RtpPacket} (h : Streamed fresh track file s steps)
    (hread : Returns fresh nowTime s t nalus rtps) :
    ∃ steps', Streamed fresh track file t (steps ++ steps') ∧ steps'.map Prod.fst = nalus ∧
      steps'.flatMap Prod.snd = rtps := by
  obtain ⟨fuel, hread⟩ := hread
  induction fuel generalizing s steps nalus rtps with
  | zero => cases hread
  | succ fuel ih =>
    rw [readFrame] at hread
    split_ifs at hread with hlate
    · obtain ⟨⟨u, nalu, first⟩, hturn, hread⟩ := bind_eq_ok.mp hread
      obtain ⟨⟨t', others, later⟩, hrest, hread⟩ := bind_eq_ok.mp hread
      cases hread
      obtain ⟨steps', hsteps, rfl, rfl⟩ := ih (h.snoc hlate hturn) hrest
      exact ⟨(nalu, first) :: steps', by simpa using hsteps, rfl, rfl⟩
    · cases hread
      exact ⟨[], by simpa using h, rfl, rfl⟩

/-- **Calls of `readFrame`** make such turns. -/
theorem Played.exists_streamed {file : Bytes} {nows : List ℤ} (h : Played fresh track file nows s) :
    ∃ steps, Streamed fresh track file s steps := by
  induction h with
  | nil => exact ⟨[], .nil⟩
  | snoc _ hs ih =>
    obtain ⟨steps, hsteps⟩ := ih
    obtain ⟨steps', hsteps', -⟩ := hsteps.returns hs
    exact ⟨_, hsteps'⟩

/-- The packets of each turn are those of the calls in it. -/
def Packs (steps : List (H264Nalu × List RtpPacket))
    (steps' : List (H264Nalu × List PackRtpCall)) : Prop :=
  ∀ (j : ℕ) nalu rtps, steps[j]? = some (nalu, rtps) → ∃ calls, steps'[j]? = some (nalu, calls) ∧
    ∃ fuel e e', e.mtuSize = 1400 ∧ PackRtpCall.sendAll fuel e calls = .ok (e', rtps)

/-- **The turns** are those of the reader, with the packing. -/
theorem Streamed.sent (h : Streamed fresh track (annexB stream.frames) s steps) :
    ∃ steps', Sent stream fresh s steps' ∧ steps'.length = steps.length ∧ Packs steps steps' := by
  generalize hbytes : annexB stream.frames = bytes at h
  induction h with
  | nil =>
    subst hbytes
    exact ⟨[], sent_start stream fresh track, rfl, fun j nalu rtps hj => by simp at hj⟩
  | @snoc s steps nowTime fuel t nalu rtps _ hlate hturn ih =>
    obtain ⟨steps', hsent, hlen, hpacks⟩ := ih
    obtain ⟨calls, ht, hsend⟩ := hsent.turn hlate hturn
    refine ⟨steps' ++ [(nalu, calls)], ht, by simp [hlen], fun j nalu' rtps' hj => ?_⟩
    rcases Nat.lt_or_ge j steps.length with hlt | hge
    · rw [List.getElem?_append_left hlt] at hj
      rw [List.getElem?_append_left (by omega)]
      exact hpacks j nalu' rtps' hj
    · rw [List.getElem?_append_right hge, List.getElem?_singleton] at hj
      split_ifs at hj with hzero
      cases hj
      rw [List.getElem?_append_right (by omega), hlen, hzero]
      exact ⟨calls, rfl, fuel, s.encoder, t.encoder, hsent.mtuSize, hsend⟩

/-- **With one slice for each picture** the times and the markers are right. -/
theorem Streamed.oneTimestamp (h : Streamed fresh track (annexB stream.frames) s steps)
    (hone : stream.OneSlice) : OneTimestamp stream steps := by
  obtain ⟨steps', hsent, -, hpacks⟩ := h.sent
  have htrace := hsent.streamed.traced
  have hnalu : ∀ j entry, steps[j]? = some entry → entry.1 = stampAt stream fresh j := by
    rintro j ⟨nalu, rtps⟩ hj
    obtain ⟨calls, hcalls, -⟩ := hpacks j nalu rtps hj
    exact (htrace.entries j nalu calls hcalls).1
  constructor
  · exact fun i j _ _ hcont => absurd hcont (not_continues hone j)
  · intro i j hij hi _ hnear first next hfirst hnext
    rw [hnalu i first hfirst, hnalu j next hnext]
    have hcount : Nat.count stream.First i < Nat.count stream.First j :=
      Nat.count_strict_mono hi hij
    have htime : ((stampAt stream fresh j).pts - (stampAt stream fresh i).pts).toNat =
        3600 * (Nat.count stream.First j - Nat.count stream.First i) :=
      toNat_time_sub hcount.le hnear
    rw [htime]
    exact ⟨by omega, hnear⟩
  · intro i j hnext nalu rtps hj
    obtain ⟨calls, hcalls, fuel, e, e', hmtu, hsend⟩ := hpacks j nalu rtps hj
    exact (htrace.calls hone hnext hcalls).sends (by rw [hmtu]; decide) hsend
  · intro j hnone nalu rtps hj
    obtain ⟨calls, hcalls, fuel, e, e', -, hsend⟩ := hpacks j nalu rtps hj
    obtain rfl := htrace.silent hnone hcalls
    cases hsend
    rfl

/-- Runs that do not fail go on for ever. -/
theorem exists_streamed (h : stream.RunsOneTimestamp fresh track) (n : ℕ) :
    ∃ s steps, Streamed fresh track (annexB stream.frames) s steps ∧ steps.length = n := by
  induction n with
  | zero => exact ⟨_, [], .nil, rfl⟩
  | succ n ih =>
    obtain ⟨s, steps, hsteps, rfl⟩ := ih
    obtain ⟨-, fuel, ⟨t, nalu, rtps⟩, hturn⟩ := h s steps hsteps
    obtain ⟨nowTime, hlate⟩ := s.reader.exists_late
    exact ⟨t, _, hsteps.snoc hlate hturn, by simp⟩

/-- **A further slice** has another time than the first slice of its picture. -/
theorem not_continues_of_runs {stream : PictureStream}
    (h : stream.toEsStream.RunsOneTimestamp fresh track) {c : ℕ} (hc : c < stream.frames.length) :
    ¬ stream.toEsStream.Continues c := by
  intro hcont
  obtain ⟨s, steps, hsteps, hlen⟩ := exists_streamed h (c + 1)
  obtain ⟨i, hic, hfirst, hlast⟩ := exists_last_lt (stream.slices c hc hcont)
  obtain ⟨steps', hsent, -, hpacks⟩ := hsteps.sent
  have htrace := hsent.streamed.traced
  have hi : steps[i]? = some (steps[i].1, steps[i].2) := List.getElem?_eq_getElem (by omega)
  have hj : steps[c]? = some (steps[c].1, steps[c].2) := List.getElem?_eq_getElem (by omega)
  have hpts := (h s steps hsteps).1.samePts i c hic hfirst hcont hlast _ _ hi hj
  obtain ⟨calls, hcalls, -⟩ := hpacks i _ _ hi
  obtain ⟨calls', hcalls', -⟩ := hpacks c _ _ hj
  dsimp only at hpts
  rw [(htrace.entries i _ _ hcalls).1, (htrace.entries c _ _ hcalls').1] at hpts
  change 3600 * UInt32.ofNat (Nat.count stream.toEsStream.First c) =
    3600 * UInt32.ofNat (Nat.count stream.toEsStream.First i) at hpts
  rw [count_of_next hic hlast, if_pos hfirst] at hpts
  exact time_ne _ hpts

end EsSender

open EsSender in
/-- **Each picture has one timestamp, in every run, exactly if each picture has one slice** and all
that is sent can be packed. -/
theorem oneTimestamp_iff (stream : PictureStream) (fresh : H264Nalu) (track : Track) :
    stream.toEsStream.RunsOneTimestamp fresh track ↔
      stream.toEsStream.OneSlice ∧ stream.toEsStream.Playable := by
  constructor
  · refine fun h => ⟨fun frame hframe hslice => ?_, fun j => ?_⟩
    · by_contra hnot
      obtain ⟨c, hc, hget⟩ := List.getElem_of_mem hframe
      have hunit : stream.toEsStream.unitAt c = frame.2 := by
        rw [EsStream.unitAt, List.get_eq_getElem]
        simp only [Nat.mod_eq_of_lt hc, hget]
      refine not_continues_of_runs h hc ?_
      rw [EsStream.Continues, NalUnit.continues, hunit, hslice, Bool.true_and, Bool.not_eq_true']
      exact Bool.eq_false_iff.mpr hnot
    · -- the turn behind `j` others does not fail
      obtain ⟨s, steps, hsteps, rfl⟩ := exists_streamed h j
      obtain ⟨steps', hsent, hlen, -⟩ := hsteps.sent
      rw [← hlen]
      exact hsent.turn_ok_iff.mp (h s steps hsteps).2
  · rintro ⟨hone, hplayable⟩ s steps hsteps
    obtain ⟨steps', hsent, -, -⟩ := hsteps.sent
    exact ⟨hsteps.oneTimestamp hone, hsent.turn_ok_iff.mpr (hplayable _)⟩

/-- A further slice of a picture. -/
def furtherSlice : NalUnit := ⟨[0x65, 0x08], by decide, by decide, by decide, by decide⟩

/-- An SPS, a PPS, and a picture with a second slice. -/
def twoSlices : PictureStream where
  frames := EsStream.onePicture.frames ++ [(false, furtherSlice)]
  fits := by
    rw [List.forall_mem_append]
    refine ⟨EsStream.onePicture.fits, ?_⟩
    simp only [List.forall_mem_singleton, NalUnit.Fits]
    decide
  nonempty := List.cons_ne_nil _ _
  slices c hc hcont := by
    have hc' : c < 4 := hc
    rw [EsStream.Continues] at hcont
    interval_cases c
    · exact absurd hcont (by decide)
    · exact absurd hcont (by decide)
    · exact absurd hcont (by decide)
    · exact ⟨2, by decide, by decide⟩

/-- The second slice of a picture gets the time of the next picture. -/
theorem not_oneTimestamp_twoSlices :
    ¬ ∀ (stream : PictureStream) (fresh : H264Nalu) (track : Track),
      stream.toEsStream.RunsOneTimestamp fresh track := by
  intro h
  refine EsSender.not_continues_of_runs (h twoSlices {} ⟨96, 90000, 0, 0, 0, 0, 0⟩)
    (show 3 < 4 by decide) ?_
  rw [EsStream.Continues]
  decide

end CppServerStudio
