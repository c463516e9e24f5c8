import CppServerStudio.Rtsp.ReadFrame

/-!
# The turns of a stream

The turns of `readFrame` read the units of a well-formed stream over and over again. Each frame
makes the encoder send the one in front of it, behind the parameter sets if that is a key frame. A
turn comes to its end exactly if what it sends can be packed.

## Main definitions

* `EsStream.unitAt`: the units that are read
* `EsReader.Streamed`, `EsReader.Traced`: the turns by some time, and the state behind them
* `EsStream.PackableAt`: what is sent in a turn can be packed
* `EsSender.Sent`: the state behind some turns, with the packing

## Main results

* `EsReader.Streamed.traced`: the units that are read, with their times, and the calls
* `EsReader.Traced.sendable_iff`: the calls of a turn that can be carried out
* `EsSender.Sent.turn_ok_iff`: the turns that come to their end
-/

namespace CppServerStudio

open Scanning EncoderUnits

/-! ## The units that are read -/

namespace NalUnit

/-- A unit that is sent as it comes. -/
def isFrame (unit : NalUnit) : Bool := (({} : H264Nalu).fill unit.bytes).isFrame

def isSps (unit : NalUnit) : Bool := (({} : H264Nalu).fill unit.bytes).isSps

def isPps (unit : NalUnit) : Bool := (({} : H264Nalu).fill unit.bytes).isPps

/-- The first slice of a key frame. -/
def keyFrame (unit : NalUnit) : Bool := (({} : H264Nalu).fill unit.bytes).keyFrame

end NalUnit

namespace EsStream

variable (stream : EsStream)

/-- The units that are read, over and over again. -/
def unitAt (i : ℕ) : NalUnit :=
  (stream.frames.get ⟨i % stream.frames.length, Nat.mod_lt _ stream.length_pos⟩).2

/-- The first slice of a picture. -/
def First (i : ℕ) : Prop := (stream.unitAt i).decodeAble = true

instance : DecidablePred stream.First := fun _ => inferInstanceAs (Decidable (_ = true))

/-- The last unit of a kind in front of the unit `j`. -/
structure LastBefore (p : NalUnit → Bool) (i j : ℕ) : Prop where
  lt : i < j
  kind : p (stream.unitAt i) = true
  between : ∀ k, i < k → k < j → p (stream.unitAt k) = false

/-- The unit `j` is the next one behind `i` that is sent as it comes. -/
structure NextFrame (i j : ℕ) : Prop where
  lt : i < j
  frame : (stream.unitAt i).isFrame = true
  next : (stream.unitAt j).isFrame = true
  between : ∀ k, i < k → k < j → (stream.unitAt k).isFrame = false

/-- **What is sent with the unit `j` can be packed**: the frame in front of it; and for a key frame
the last SPS, of which the last PPS has as many bytes, with its NUL. -/
structure PackableAt (j : ℕ) : Prop where
  frame : ∀ i, stream.NextFrame i j → Packable 1400 (stream.unitAt i).bytes.length
  sets : ∀ i sps pps, stream.NextFrame i j → (stream.unitAt i).keyFrame = true →
    stream.LastBefore NalUnit.isSps sps j → stream.LastBefore NalUnit.isPps pps j →
    Packable 1400 (stream.unitAt sps).bytes.length ∧
      (stream.unitAt sps).bytes.length ≤ (stream.unitAt pps).bytes.length + 1

/-- **A stream that can be played**: all that is sent can be packed. -/
def Playable : Prop := ∀ j, stream.PackableAt j

variable {stream} {p : NalUnit → Bool} {i i' j : ℕ}

theorem LastBefore.unique (h : stream.LastBefore p i j) (h' : stream.LastBefore p i' j) :
    i = i' := by
  rcases Nat.lt_trichotomy i i' with hlt | heq | hlt
  · exact absurd (h.between i' hlt h'.lt) (by rw [h'.kind]; decide)
  · exact heq
  · exact absurd (h'.between i hlt h.lt) (by rw [h.kind]; decide)

theorem nextFrame_iff : stream.NextFrame i j ↔
    stream.LastBefore NalUnit.isFrame i j ∧ (stream.unitAt j).isFrame = true :=
  ⟨fun h => ⟨⟨h.lt, h.frame, h.between⟩, h.next⟩,
    fun h => ⟨h.1.lt, h.1.kind, h.2, h.1.between⟩⟩

/-- A file without a unit that cannot be packed, and without an SPS that is longer than a PPS with
its NUL. -/
theorem playable_of_frames (hpackable : ∀ frame ∈ stream.frames, Packable 1400 frame.2.bytes.length)
    (hsets : ∀ sps ∈ stream.frames, ∀ pps ∈ stream.frames, sps.2.isSps = true →
      pps.2.isPps = true → sps.2.bytes.length ≤ pps.2.bytes.length + 1) : stream.Playable := by
  intro j
  have hunit : ∀ i, Packable 1400 (stream.unitAt i).bytes.length :=
    fun i => hpackable _ (List.get_mem _ _)
  refine ⟨fun i _ => hunit i, fun i sps pps _ _ hsps hpps => ⟨hunit sps, ?_⟩⟩
  exact hsets _ (List.get_mem _ _) _ (List.get_mem _ _) hsps.kind hpps.kind

end EsStream

/-! ## Turns -/

namespace EsReader

/-- **The turns** that `readFrame` makes, each of them at some time: the units that are read, each
with the calls of `packRtp` that it causes. What a turn does is the same at any time, so these are
the turns of calls at such times, of which the last may still be going on. -/
inductive Streamed (fresh : H264Nalu) (stream : Bytes) :
    EsReader → List (H264Nalu × List PackRtpCall) → Prop
  | nil : Streamed fresh stream (start stream) []
  | snoc {s steps nowTime t nalu calls} (h : Streamed fresh stream s steps)
      (hlate : s.late nowTime = true) (hturn : s.turn fresh = .ok (t, nalu, calls)) :
      Streamed fresh stream t (steps ++ [(nalu, calls)])

variable {fresh : H264Nalu} {stream : EsStream} {s : EsReader}
  {steps : List (H264Nalu × List PackRtpCall)}

/-- The turns of a call go on from those before it. -/
theorem Streamed.returns {file : Bytes} {nowTime : ℤ} {t : EsReader} {nalus : List H264Nalu}
    {calls : List PackRtpCall} (h : Streamed fresh file s steps)
    (hread : Returns fresh nowTime s t nalus calls) :
    ∃ steps', Streamed fresh file t (steps ++ steps') ∧ steps'.map Prod.fst = nalus ∧
      steps'.flatMap Prod.snd = calls := by
  refine (@readFrame_invariant _ _ _ _ _ _ (fun t nalus calls => ∃ steps',
    Streamed fresh file t (steps ++ steps') ∧ steps'.map Prod.fst = nalus ∧
      steps'.flatMap Prod.snd = calls) ?_ hread [] [] ⟨[], by simpa using h, rfl, rfl⟩).1
  rintro t _ _ u nalu calls' ⟨steps', hsteps, rfl, rfl⟩ hlate hturn
  refine ⟨steps' ++ [(nalu, calls')], ?_, by simp, by simp⟩
  rw [← List.append_assoc]
  exact hsteps.snoc hlate hturn

/-- The unit `j` as it is given to the encoder: its time counts the pictures before it. -/
def stampAt (stream : EsStream) (fresh : H264Nalu) (j : ℕ) : H264Nalu :=
  { fresh.fill (stream.unitAt j).bytes with
    dts := 3600 * UInt32.ofNat (Nat.count stream.First j)
    pts := 3600 * UInt32.ofNat (Nat.count stream.First j) }

/-- **The state behind some turns**, and what was read and sent in them. -/
structure Traced (stream : EsStream) (fresh : H264Nalu) (s : EsReader)
    (steps : List (H264Nalu × List PackRtpCall)) : Prop where
  position : At stream s (steps.length % stream.frames.length)
  timeStamp : s.timeStamp = 40 * UInt32.ofNat (Nat.count stream.First steps.length)
  units : s.units = (inputFrames {} (steps.map Prod.fst)).1
  entries : ∀ j nalu calls, steps[j]? = some (nalu, calls) → nalu = stampAt stream fresh j ∧
    calls = ((inputFrames {} ((steps.map Prod.fst).take j)).1.inputFrame nalu).2

theorem traced_start : Traced stream fresh (start (annexB stream.frames)) [] where
  position := by
    rw [List.length_nil, Nat.zero_mod]
    exact at_start stream
  timeStamp := rfl
  units := rfl
  entries j nalu calls h := by simp at h

/-- **A turn** reads the next unit, and makes the calls for it. -/
theorem Traced.turn (h : Traced stream fresh s steps) :
    ∃ t calls, s.turn fresh = .ok (t, stampAt stream fresh steps.length, calls) ∧
      Traced stream fresh t (steps ++ [(stampAt stream fresh steps.length, calls)]) := by
  have hframe : stream.frames[steps.length % stream.frames.length]? =
      some (stream.frames.get ⟨_, h.position.lt⟩) := List.getElem?_eq_getElem h.position.lt
  obtain ⟨t, hturn, hat, hstamp, hunits⟩ := h.position.turn hframe
  have hnalu : s.stamp fresh (stream.frames.get ⟨_, h.position.lt⟩).2 =
      stampAt stream fresh steps.length := by
    have htime : s.timeStamp * 90 =
        3600 * UInt32.ofNat (Nat.count stream.First steps.length) := by
      rw [h.timeStamp]
      grind
    rw [stamp, htime]
    rfl
  -- the unit is the one at this position, with the time that the pictures before it make
  rw [hnalu] at hturn hunits
  refine ⟨t, _, hturn, ?_, ?_, ?_, ?_⟩
  · rw [List.length_append, List.length_singleton, ← Nat.mod_add_mod]
    exact hat
  · rw [hstamp, h.timeStamp, List.length_append, List.length_singleton, Nat.count_succ]
    change (if stream.First steps.length then _ else _) = _
    split_ifs
    · rw [UInt32.ofNat_add]
      grind
    · rw [Nat.add_zero]
  · rw [hunits, h.units, List.map_append, List.map_singleton, inputFrames_snoc]
  -- the entries: those of the turns before, and that of this one
  · intro j nalu calls hj
    rcases Nat.lt_or_ge j steps.length with hlt | hge
    · rw [List.getElem?_append_left hlt] at hj
      rw [List.map_append, List.take_append_of_le_length (by rw [List.length_map]; exact hlt.le)]
      exact h.entries j nalu calls hj
    · rw [List.getElem?_append_right hge, List.getElem?_singleton] at hj
      split_ifs at hj with hzero
      obtain ⟨rfl, rfl⟩ := Prod.mk.inj (Option.some.inj hj)
      obtain rfl : j = steps.length := by omega
      have htake : ∀ entry, ((steps ++ [entry]).map Prod.fst).take steps.length =
          steps.map Prod.fst := by simp
      refine ⟨rfl, ?_⟩
      rw [htake, h.units]

/-- **The turns** read the units of the stream, over and over again. -/
theorem Streamed.traced (h : Streamed fresh (annexB stream.frames) s steps) :
    Traced stream fresh s steps := by
  generalize hbytes : annexB stream.frames = bytes at h
  -- Induction on the turns; each one is the one that `Traced.turn` gives.
  induction h with
  | nil => exact hbytes ▸ traced_start
  | snoc _ _ hturn ih =>
    obtain ⟨t, calls, hturn', ht⟩ := ih.turn
    obtain ⟨rfl, hentry⟩ := Prod.mk.inj (Except.ok.inj (hturn'.symm.trans hturn))
    obtain ⟨rfl, rfl⟩ := Prod.mk.inj hentry
    exact ht

/-- The unit that is read at a position, as one of those given to the encoder. -/
theorem Traced.getElem?_map (h : Traced stream fresh s steps) {j : ℕ} (hj : j < steps.length) :
    (steps.map Prod.fst)[j]? = some (stampAt stream fresh j) := by
  have hget : steps[j]? = some (steps[j].1, steps[j].2) := List.getElem?_eq_getElem hj
  rw [List.getElem?_map, hget, Option.map_some, (h.entries j _ _ hget).1]

/-- The units that were given to the encoder. -/
theorem Traced.map_fst (h : Traced stream fresh s steps) :
    steps.map Prod.fst = (List.range steps.length).map (stampAt stream fresh) := by
  apply List.ext_getElem
  · simp
  · intro j hj hj'
    rw [List.length_map] at hj
    have hget := h.getElem?_map hj
    rw [List.getElem?_eq_getElem (by simpa using hj)] at hget
    rw [Option.some.inj hget, List.getElem_map, List.getElem_range]

/-- The calls of a turn. -/
theorem Traced.calls_eq (h : Traced stream fresh s steps) {j : ℕ} {nalu : H264Nalu}
    {calls : List PackRtpCall} (hj : steps[j]? = some (nalu, calls)) :
    calls = if (stream.unitAt j).isFrame then
      (lastOf H264Nalu.isFrame ((steps.map Prod.fst).take j)).elim [] fun last =>
        (inputFrames {} ((steps.map Prod.fst).take j)).1.inputFrameL last (last.pts ≠ nalu.pts)
      else [] := by
  obtain ⟨rfl, hcalls⟩ := h.entries j nalu calls hj
  have hlast := congrArg EncoderUnits.lastNalu (inputFrames_units ((steps.map Prod.fst).take j))
  rw [hcalls, inputFrame_eq, hlast]
  rfl

/-- The last one of a kind, of units that are numbered. -/
theorem lastOf_range_iff {p : H264Nalu → Bool} {f : ℕ → H264Nalu} {j : ℕ} {nalu : H264Nalu} :
    lastOf p ((List.range j).map f) = some nalu ↔ ∃ i, f i = nalu ∧ i < j ∧ p (f i) = true ∧
      ∀ k, i < k → k < j → p (f k) = false := by
  induction j with
  | zero => simp [lastOf]
  | succ j ih =>
    rw [List.range_succ, List.map_append, List.map_singleton, lastOf, filter_snoc]
    by_cases hp : p (f j) = true
    · rw [if_pos hp, Option.some.injEq]
      constructor
      · rintro rfl
        exact ⟨j, rfl, Nat.lt_succ_self j, hp, fun k hjk hk => by omega⟩
      · rintro ⟨i, rfl, hi, -, hno⟩
        -- there is none behind the last unit
        by_contra hne
        have hlt : i < j := Nat.lt_of_le_of_ne (Nat.le_of_lt_succ hi) fun h => hne (by rw [h])
        rw [hno j hlt (Nat.lt_succ_self j)] at hp
        cases hp
    · rw [if_neg hp]
      refine ih.trans (exists_congr fun i => and_congr_right fun _ => ?_)
      constructor
      · rintro ⟨hi, hpi, hno⟩
        refine ⟨Nat.lt_succ_of_lt hi, hpi, fun k hik hk => ?_⟩
        rcases Nat.lt_succ_iff_lt_or_eq.mp hk with hk | rfl
        · exact hno k hik hk
        · exact Bool.eq_false_iff.mpr hp
      · rintro ⟨hi, hpi, hno⟩
        refine ⟨?_, hpi, fun k hik hk => hno k hik (Nat.lt_succ_of_lt hk)⟩
        rcases Nat.lt_succ_iff_lt_or_eq.mp hi with hi | rfl
        · exact hi
        · exact absurd hpi hp

/-- **What the encoder keeps** of a kind is the last such unit of the stream. -/
theorem Traced.lastOf_iff (h : Traced stream fresh s steps) {p : H264Nalu → Bool}
    {q : NalUnit → Bool} (hp : ∀ i, p (stampAt stream fresh i) = q (stream.unitAt i)) {j : ℕ}
    (hj : j ≤ steps.length) {nalu : H264Nalu} :
    lastOf p ((steps.map Prod.fst).take j) = some nalu ↔
      ∃ i, stampAt stream fresh i = nalu ∧ stream.LastBefore q i j := by
  rw [h.map_fst, ← List.map_take, List.take_range, min_eq_left hj, lastOf_range_iff]
  simp only [hp]
  exact exists_congr fun i => and_congr_right fun _ =>
    ⟨fun hi => ⟨hi.1, hi.2.1, hi.2.2⟩, fun hi => ⟨hi.lt, hi.kind, hi.between⟩⟩

/-- At a late time there is another turn. -/
theorem exists_late (s : EsReader) : ∃ nowTime, s.late nowTime = true := by
  refine ⟨((s.timeStamp * 1000).toNat : ℤ) + 50001, ?_⟩
  rw [late, decide_eq_true_eq]
  omega

/-! ## Turns that come to their end -/

/-- A call for a whole unit. -/
theorem sendable_whole_iff {mtuSize : ℕ} (i : ℕ) (pts : UInt32) (isMark gopPos : Bool) :
    PackRtpCall.Sendable mtuSize ⟨(stampAt stream fresh i).buffer, (stampAt stream fresh i).len,
      pts, isMark, gopPos⟩ ↔ Packable mtuSize (stream.unitAt i).bytes.length :=
  ⟨fun h => h.packable, fun h => ⟨(stream.unitAt i).length_pos, Nat.le_succ _, h⟩⟩

/-- The calls for the parameter sets. -/
theorem Traced.sendable_config_iff (h : Traced stream fresh s steps) {j : ℕ}
    (hj : j ≤ steps.length) (pts : UInt32) :
    (∀ call ∈ (inputFrames {} ((steps.map Prod.fst).take j)).1.insertConfigFrame pts,
      call.Sendable 1400) ↔
    ∀ sps pps, stream.LastBefore NalUnit.isSps sps j → stream.LastBefore NalUnit.isPps pps j →
      Packable 1400 (stream.unitAt sps).bytes.length ∧
        (stream.unitAt sps).bytes.length ≤ (stream.unitAt pps).bytes.length + 1 := by
  have hsps := @h.lastOf_iff _ _ _ _ H264Nalu.isSps NalUnit.isSps (fun _ => rfl) j hj
  have hpps := @h.lastOf_iff _ _ _ _ H264Nalu.isPps NalUnit.isPps (fun _ => rfl) j hj
  rw [inputFrames_units, insertConfigFrame, ← lastOf, ← lastOf]
  cases hkept : lastOf H264Nalu.isSps ((steps.map Prod.fst).take j) with
  | none =>
    simp only [List.not_mem_nil, false_implies, implies_true, true_iff]
    intro i i' hlast
    cases hkept.symm.trans (hsps.mpr ⟨i, rfl, hlast⟩)
  | some sps =>
    cases hkept' : lastOf H264Nalu.isPps ((steps.map Prod.fst).take j) with
    | none =>
      simp only [List.not_mem_nil, false_implies, implies_true, true_iff]
      intro i i' _ hlast
      cases hkept'.symm.trans (hpps.mpr ⟨i', rfl, hlast⟩)
    | some pps =>
      obtain ⟨i, rfl, hi⟩ := hsps.mp hkept
      obtain ⟨i', rfl, hi'⟩ := hpps.mp hkept'
      simp only [List.forall_mem_cons, List.not_mem_nil, false_implies, implies_true, and_true]
      rw [sendable_whole_iff]
      constructor
      · rintro ⟨hpackable, hcut⟩ a b ha hb
        obtain rfl := ha.unique hi
        obtain rfl := hb.unique hi'
        exact ⟨hpackable, hcut.inside⟩
      · -- the PPS is sent with the length of the SPS
        intro hall
        obtain ⟨hpackable, hlen⟩ := hall i i' hi hi'
        exact ⟨hpackable, (stream.unitAt i).length_pos, hlen, hpackable⟩

/-- **The calls of a turn that can be carried out.** -/
theorem Traced.sendable_iff (h : Traced stream fresh s steps) {j : ℕ} {nalu : H264Nalu}
    {calls : List PackRtpCall} (hj : steps[j]? = some (nalu, calls)) :
    (∀ call ∈ calls, call.Sendable 1400) ↔ stream.PackableAt j := by
  have hle := (List.getElem?_eq_some_iff.mp hj).1.le
  have hframe := @h.lastOf_iff _ _ _ _ H264Nalu.isFrame NalUnit.isFrame (fun _ => rfl) j hle
  rw [h.calls_eq hj]
  by_cases hnext : (stream.unitAt j).isFrame = true
  · rw [if_pos hnext]
    cases hkept : lastOf H264Nalu.isFrame ((steps.map Prod.fst).take j) with
    | none =>
      -- no frame is held back
      have hnone : ∀ i, ¬ stream.NextFrame i j := fun i hi => by
        cases hkept.symm.trans (hframe.mpr ⟨i, rfl, (EsStream.nextFrame_iff.mp hi).1⟩)
      exact iff_of_true (fun call hcall => absurd hcall List.not_mem_nil)
        ⟨fun i hi => absurd hi (hnone i), fun i _ _ hi => absurd hi (hnone i)⟩
    | some last =>
      obtain ⟨i, rfl, hi⟩ := hframe.mp hkept
      have hat : ∀ i', stream.NextFrame i' j ↔ i' = i := fun i' =>
        ⟨fun h' => (EsStream.nextFrame_iff.mp h').1.unique hi,
          fun h' => EsStream.nextFrame_iff.mpr ⟨h' ▸ hi, hnext⟩⟩
      rw [Option.elim_some, inputFrameL, List.forall_mem_append, List.forall_mem_singleton,
        sendable_whole_iff]
      by_cases hkey : (stream.unitAt i).keyFrame = true
      · rw [if_pos (show (stampAt stream fresh i).keyFrame = true from hkey),
          h.sendable_config_iff hle]
        constructor
        · rintro ⟨hconfig, hpackable⟩
          refine ⟨fun i' hi' => ?_, fun i' sps pps hi' _ => hconfig sps pps⟩
          rwa [(hat i').mp hi']
        · intro hpack
          exact ⟨fun sps pps => hpack.sets i sps pps ((hat i).mpr rfl) hkey,
            hpack.frame i ((hat i).mpr rfl)⟩
      · rw [if_neg (show ¬ (stampAt stream fresh i).keyFrame = true from hkey)]
        constructor
        · rintro ⟨-, hpackable⟩
          refine ⟨fun i' hi' => ?_, fun i' sps pps hi' hkey' => ?_⟩
          · rwa [(hat i').mp hi']
          · rw [(hat i').mp hi'] at hkey'
            exact absurd hkey' hkey
        · intro hpack
          exact ⟨fun call hcall => absurd hcall List.not_mem_nil,
            hpack.frame i ((hat i).mpr rfl)⟩
  · rw [if_neg hnext]
    have hnone : ∀ i, ¬ stream.NextFrame i j := fun i hi => hnext hi.next
    exact iff_of_true (fun call hcall => absurd hcall List.not_mem_nil)
      ⟨fun i hi => absurd hi (hnone i), fun i _ _ hi => absurd hi (hnone i)⟩

/-- **All calls** for a stream that can be played can be carried out. -/
theorem Traced.sendable (h : Traced stream fresh s steps) (hplayable : stream.Playable) :
    ∀ call ∈ steps.flatMap Prod.snd, call.Sendable 1400 := by
  intro call hcall
  obtain ⟨entry, hentry, hcall⟩ := List.mem_flatMap.mp hcall
  obtain ⟨j, hj, rfl⟩ := List.getElem_of_mem hentry
  have hget : steps[j]? = some (steps[j].1, steps[j].2) := List.getElem?_eq_getElem hj
  exact (h.sendable_iff hget).mpr (hplayable j) call hcall

end EsReader

/-! ## The state behind some turns -/

namespace EsSender

variable {fresh nalu : H264Nalu} {track : Track} {stream : EsStream} {s t : EsSender}
  {steps : List (H264Nalu × List PackRtpCall)} {rtps : List RtpPacket} {fuel : ℕ} {nowTime : ℤ}

/-- **The state behind some turns**: those of its reader, and all that they sent could be packed. -/
structure Sent (stream : EsStream) (fresh : H264Nalu) (s : EsSender)
    (steps : List (H264Nalu × List PackRtpCall)) : Prop where
  streamed : EsReader.Streamed fresh (annexB stream.frames) s.reader steps
  mtuSize : s.encoder.mtuSize = 1400
  packable : ∀ j < steps.length, stream.PackableAt j

theorem sent_start (stream : EsStream) (fresh : H264Nalu) (track : Track) :
    Sent stream fresh (start track (annexB stream.frames)) [] where
  streamed := .nil
  mtuSize := rfl
  packable j hj := absurd hj (Nat.not_lt_zero j)

/-- Further turns of the reader, whose calls could be carried out. -/
theorem Sent.append (h : Sent stream fresh s steps) {steps' : List (H264Nalu × List PackRtpCall)}
    (hsteps : EsReader.Streamed fresh (annexB stream.frames) t.reader (steps ++ steps'))
    (hsend : PackRtpCall.sendAll fuel s.encoder (steps'.flatMap Prod.snd) = .ok (t.encoder, rtps)) :
    Sent stream fresh t (steps ++ steps') := by
  obtain ⟨hsendable, hsize⟩ :=
    PackRtpCall.sendable_of_sendAll (by rw [h.mtuSize]; decide) hsend
  rw [h.mtuSize] at hsendable hsize
  refine ⟨hsteps, hsize, fun j hj => ?_⟩
  rcases Nat.lt_or_ge j steps.length with hlt | hge
  · exact h.packable j hlt
  · have hget : (steps ++ steps')[j]? =
        some ((steps ++ steps')[j].1, (steps ++ steps')[j].2) := List.getElem?_eq_getElem hj
    refine (hsteps.traced.sendable_iff hget).mp fun call hcall => ?_
    rw [List.getElem_append_right hge] at hcall
    exact hsendable call (List.mem_flatMap.mpr ⟨_, List.getElem_mem _, hcall⟩)

theorem Sent.turn (h : Sent stream fresh s steps) (hlate : s.reader.late nowTime = true)
    (hturn : s.turn fresh fuel = .ok (t, nalu, rtps)) :
    ∃ calls, Sent stream fresh t (steps ++ [(nalu, calls)]) ∧
      PackRtpCall.sendAll fuel s.encoder calls = .ok (t.encoder, rtps) := by
  obtain ⟨calls, hread, hsend⟩ := EsSender.turn_ok_iff.mp hturn
  have hsends : PackRtpCall.sendAll fuel s.encoder ([(nalu, calls)].flatMap Prod.snd) =
      .ok (t.encoder, rtps) := by rwa [List.flatMap_singleton]
  exact ⟨calls, h.append (h.streamed.snoc hlate hread) hsends, hsend⟩

/-- **The turns that come to their end** are those in which all that is sent can be packed. -/
theorem Sent.turn_ok_iff (h : Sent stream fresh s steps) :
    (∃ fuel r, s.turn fresh fuel = .ok r) ↔ stream.PackableAt steps.length := by
  obtain ⟨nowTime, hlate⟩ := s.reader.exists_late
  obtain ⟨r, calls, hread, -⟩ := h.streamed.traced.turn
  -- the calls of this turn can be carried out
  have hsendable := (h.streamed.snoc hlate hread).traced.sendable_iff List.getElem?_concat_length
  rw [← hsendable, ← h.mtuSize, ← PackRtpCall.sendAll_ok_iff (by rw [h.mtuSize]; decide)]
  constructor
  · rintro ⟨fuel, ⟨t, nalu, rtps⟩, hturn⟩
    obtain ⟨calls', hread', hsend⟩ := EsSender.turn_ok_iff.mp hturn
    cases hread.symm.trans hread'
    exact ⟨fuel, t.encoder, rtps, hsend⟩
  · rintro ⟨fuel, e, rtps, hsend⟩
    exact ⟨fuel, (⟨r, e⟩, _, rtps), EsSender.turn_ok_iff.mpr ⟨calls, hread, hsend⟩⟩

end EsSender

end CppServerStudio
