import CppServerStudio.Rtsp.H264

/-!
# The encoder's pipeline

`H264RtpEncoder::inputFrame` keeps the parameter sets on the side, drops what no decoder needs, and
holds each frame back until the next one tells whether it was the last of its time. The number that
`inputFrame` returns, which no caller reads, is left out.

## Main definitions

* `EncoderUnits`, `EncoderUnits.inputFrame`: the units an encoder keeps, and what it passes to
  `packRtp`
* `H264Nalu.isFrame`: the units that are sent as they come
* `Turn`, `turns`: a frame with the next one, and all that was given before that

## Main results

* `inputFrames_units`: the units that are kept are the last of their kinds
* `inputFrames_turns`: what is passed to `packRtp` for any sequence of units
-/

namespace CppServerStudio

/-- The arguments of a call of `packRtp`: the bytes at the pointer, and the number of them to
send. -/
structure PackRtpCall where
  data : Bytes
  len : ℕ
  pts : UInt32
  isMark : Bool
  gopPos : Bool
  deriving DecidableEq

/-- The units an encoder keeps. -/
structure EncoderUnits where
  sps : Option H264Nalu := none
  pps : Option H264Nalu := none
  lastNalu : Option H264Nalu := none

namespace EncoderUnits

/-- **`insertConfigFrame`**. The length of the SPS stands for that of the PPS, too. -/
def insertConfigFrame (u : EncoderUnits) (pts : UInt32) : List PackRtpCall :=
  match u.sps, u.pps with
  | some sps, some pps =>
    [⟨sps.buffer, sps.len, pts, false, true⟩, ⟨pps.buffer, sps.len, pts, false, false⟩]
  | _, _ => []

/-- **`inputFrame_l`**. -/
def inputFrameL (u : EncoderUnits) (nalu : H264Nalu) (isMark : Bool) : List PackRtpCall :=
  (if nalu.keyFrame then u.insertConfigFrame nalu.pts else []) ++
    [⟨nalu.buffer, nalu.len, nalu.pts, isMark, false⟩]

/-- **`inputFrame`**: the units kept after it, and the calls of `packRtp`. -/
def inputFrame (u : EncoderUnits) (nalu : H264Nalu) : EncoderUnits × List PackRtpCall :=
  if nalu.nalUnitType = nalSps then ({ u with sps := some nalu }, [])
  else if nalu.nalUnitType = nalPps then ({ u with pps := some nalu }, [])
  else if nalu.dropAble then (u, [])
  else
    let calls := match u.lastNalu with
      | some last => u.inputFrameL last (last.pts ≠ nalu.pts)
      | none => []
    ({ u with lastNalu := some nalu }, calls)

/-- Consecutive calls of `inputFrame`. -/
def inputFrames : EncoderUnits → List H264Nalu → EncoderUnits × List PackRtpCall
  | u, [] => (u, [])
  | u, nalu :: nalus =>
    let (u, calls) := u.inputFrame nalu
    let (u, later) := u.inputFrames nalus
    (u, calls ++ later)

end EncoderUnits

/-! ## What the calls should be -/

namespace H264Nalu

def isSps (nalu : H264Nalu) : Bool := nalu.nalUnitType = nalSps

def isPps (nalu : H264Nalu) : Bool := nalu.nalUnitType = nalPps

/-- A unit that is neither a parameter set nor an SEI or AUD. -/
def isFrame (nalu : H264Nalu) : Bool := !nalu.isSps && !nalu.isPps && !nalu.dropAble

end H264Nalu

/-- A frame, the next one, and all units that were given before the next one. -/
structure Turn where
  before : List H264Nalu
  frame : H264Nalu
  next : H264Nalu

namespace Turn

/-- The call for the frame itself. -/
def frameCall (t : Turn) : PackRtpCall :=
  ⟨t.frame.buffer, t.frame.len, t.frame.pts, t.frame.pts ≠ t.next.pts, false⟩

/-- The calls for the parameter sets of a key frame: the last ones given before the next frame. -/
def configCalls (t : Turn) : List PackRtpCall :=
  match (t.before.filter H264Nalu.isSps).getLast?, (t.before.filter H264Nalu.isPps).getLast? with
  | some sps, some pps =>
    if t.frame.keyFrame then
      [⟨sps.buffer, sps.len, t.frame.pts, false, true⟩,
        ⟨pps.buffer, sps.len, t.frame.pts, false, false⟩]
    else []
  | _, _ => []

/-- A key frame, with an SPS and a PPS among the units given before the next frame. -/
def Configured (t : Turn) : Prop :=
  t.frame.keyFrame ∧ (∃ u ∈ t.before, u.isSps) ∧ ∃ u ∈ t.before, u.isPps

/-- The calls for an SPS and a PPS of these. -/
def Configures (t : Turn) (calls : List PackRtpCall) : Prop :=
  ∃ sps ∈ t.before, sps.isSps ∧ ∃ pps ∈ t.before, pps.isPps ∧ calls =
    [⟨sps.buffer, sps.len, t.frame.pts, false, true⟩,
      ⟨pps.buffer, sps.len, t.frame.pts, false, false⟩]

end Turn

/-- The turn that the unit at a position begins: it must be a frame, and not the first one. -/
def turnAt (nalus : List H264Nalu) (i : ℕ) : Option Turn := do
  let next ← nalus[i]?
  let frame ← ((nalus.take i).filter H264Nalu.isFrame).getLast?
  if next.isFrame then some ⟨nalus.take i, frame, next⟩ else none

/-- All frames that have a next one. -/
def turns (nalus : List H264Nalu) : List Turn :=
  (List.range nalus.length).filterMap (turnAt nalus)

/-! ## What they are -/

section

variable {nalus : List H264Nalu} {nalu : H264Nalu}

theorem filter_snoc (p : H264Nalu → Bool) :
    ((nalus ++ [nalu]).filter p).getLast? =
      if p nalu then some nalu else (nalus.filter p).getLast? := by
  rw [List.filter_append]
  by_cases h : p nalu <;> simp [h]

/-- The turns of the units before the last one do not depend on it. -/
theorem turns_snoc :
    turns (nalus ++ [nalu]) = turns nalus ++
      (if nalu.isFrame then
        (nalus.filter H264Nalu.isFrame).getLast?.map fun frame => ⟨nalus, frame, nalu⟩
      else none : Option Turn).toList := by
  have hold : ∀ i ∈ List.range nalus.length, turnAt (nalus ++ [nalu]) i = turnAt nalus i := by
    intro i hi
    have hlt := List.mem_range.mp hi
    rw [turnAt, turnAt, List.getElem?_append_left hlt, List.take_append_of_le_length hlt.le]
  have hlast : turnAt (nalus ++ [nalu]) nalus.length =
      if nalu.isFrame then
        (nalus.filter H264Nalu.isFrame).getLast?.map fun frame => ⟨nalus, frame, nalu⟩
      else none := by
    rw [turnAt, List.getElem?_concat_length, List.take_left]
    cases (nalus.filter H264Nalu.isFrame).getLast? <;> simp
  rw [turns, turns, List.length_append, List.length_singleton, List.range_succ,
    List.filterMap_append, List.filterMap_congr hold, ← hlast]
  cases h : turnAt (nalus ++ [nalu]) nalus.length <;> simp [h]

/-- The pairs of consecutive elements of a list, with one more element. -/
theorem zip_tail_snoc {α : Type} (xs : List α) (y : α) :
    (xs ++ [y]).zip (xs ++ [y]).tail =
      xs.zip xs.tail ++ (xs.getLast?.map fun x => (x, y)).toList := by
  induction xs with
  | nil => rfl
  | cons x xs ih =>
    cases xs with
    | nil => rfl
    | cons x' xs =>
      rw [List.getLast?_cons_cons]
      exact congrArg _ ih

/-- A turn says what was given before it. -/
theorem prefix_of_mem_turns {t : Turn} (ht : t ∈ turns nalus) : t.before ++ [t.next] <+: nalus := by
  obtain ⟨i, hi, hturn⟩ := List.mem_filterMap.mp ht
  have hlt := List.mem_range.mp hi
  rw [turnAt, List.getElem?_eq_getElem hlt] at hturn
  obtain ⟨next, hnext, hrest⟩ := Option.bind_eq_some_iff.mp hturn
  obtain rfl := Option.some.inj hnext
  obtain ⟨frame, -, hsome⟩ := Option.bind_eq_some_iff.mp hrest
  split at hsome
  · obtain rfl := Option.some.inj hsome
    rw [← List.take_succ_eq_append_getElem hlt]
    exact List.take_prefix _ _
  · cases hsome

theorem exists_getLast?_filter (p : H264Nalu → Bool) :
    (∃ u ∈ nalus, p u) ↔ ∃ u, (nalus.filter p).getLast? = some u := by
  constructor
  · rintro ⟨u, hu, hp⟩
    have hne : nalus.filter p ≠ [] := List.ne_nil_of_mem (List.mem_filter.mpr ⟨hu, hp⟩)
    exact ⟨_, List.getLast?_eq_some_getLast hne⟩
  · rintro ⟨u, hu⟩
    obtain ⟨hmem, hp⟩ := List.mem_filter.mp (List.mem_of_getLast? hu)
    exact ⟨u, hmem, hp⟩

/-- **The parameter sets of a frame**: those of a key frame, once there were both of them. -/
theorem Turn.configCalls_spec (t : Turn) :
    (t.Configured → t.Configures t.configCalls) ∧ (¬ t.Configured → t.configCalls = []) := by
  rw [Turn.Configured, Turn.configCalls, exists_getLast?_filter, exists_getLast?_filter]
  cases hsps : (t.before.filter H264Nalu.isSps).getLast? with
  | none => exact ⟨by simp, fun _ => rfl⟩
  | some sps =>
    cases hpps : (t.before.filter H264Nalu.isPps).getLast? with
    | none => exact ⟨by simp, fun _ => rfl⟩
    | some pps =>
      obtain ⟨hmem, hsps'⟩ := List.mem_filter.mp (List.mem_of_getLast? hsps)
      obtain ⟨hmem', hpps'⟩ := List.mem_filter.mp (List.mem_of_getLast? hpps)
      refine ⟨fun h => ⟨sps, hmem, hsps', pps, hmem', hpps', if_pos h.1⟩, fun h => if_neg ?_⟩
      intro hkey
      exact h ⟨hkey, ⟨sps, rfl⟩, pps, rfl⟩

namespace EncoderUnits

theorem inputFrames_append (u : EncoderUnits) (nalus nalus' : List H264Nalu) :
    u.inputFrames (nalus ++ nalus') =
      (((u.inputFrames nalus).1.inputFrames nalus').1,
        (u.inputFrames nalus).2 ++ ((u.inputFrames nalus).1.inputFrames nalus').2) := by
  induction nalus generalizing u with
  | nil => rfl
  | cons nalu nalus ih =>
    rw [List.cons_append, inputFrames, inputFrames]
    simp only [ih, List.append_assoc]

theorem inputFrames_snoc (u : EncoderUnits) (nalus : List H264Nalu) (nalu : H264Nalu) :
    u.inputFrames (nalus ++ [nalu]) =
      (((u.inputFrames nalus).1.inputFrame nalu).1,
        (u.inputFrames nalus).2 ++ ((u.inputFrames nalus).1.inputFrame nalu).2) := by
  rw [inputFrames_append]
  simp [inputFrames]

/-- What a unit replaces, and what it makes the encoder send. -/
theorem inputFrame_eq (u : EncoderUnits) (nalu : H264Nalu) :
    u.inputFrame nalu =
      (⟨if nalu.isSps then some nalu else u.sps, if nalu.isPps then some nalu else u.pps,
        if nalu.isFrame then some nalu else u.lastNalu⟩,
      if nalu.isFrame then
        u.lastNalu.elim [] fun last => u.inputFrameL last (last.pts ≠ nalu.pts)
      else []) := by
  rw [inputFrame]
  -- the cases of the `switch`, and then `dropAble`
  by_cases hsps : nalu.nalUnitType = nalSps
  · have hsps' : nalu.isSps = true := decide_eq_true hsps
    have hpps : nalu.isPps = false := by
      rw [H264Nalu.isPps, hsps]
      rfl
    rw [if_pos hsps, H264Nalu.isFrame, hsps', hpps]
    rfl
  · have hsps' : nalu.isSps = false := decide_eq_false hsps
    rw [if_neg hsps]
    by_cases hpps : nalu.nalUnitType = nalPps
    · have hpps' : nalu.isPps = true := decide_eq_true hpps
      rw [if_pos hpps, H264Nalu.isFrame, hsps', hpps']
      rfl
    · have hpps' : nalu.isPps = false := decide_eq_false hpps
      rw [if_neg hpps, H264Nalu.isFrame, hsps', hpps']
      obtain ⟨sps, pps, last⟩ := u
      cases hdrop : nalu.dropAble <;> cases last <;> rfl

/-- **The units kept** are the last parameter sets and the last frame. -/
theorem inputFrames_units (nalus : List H264Nalu) :
    (inputFrames {} nalus).1 = ⟨(nalus.filter H264Nalu.isSps).getLast?,
      (nalus.filter H264Nalu.isPps).getLast?, (nalus.filter H264Nalu.isFrame).getLast?⟩ := by
  -- Induction on the units, from the last one.
  induction nalus using List.reverseRecOn with
  | nil => rfl
  | append_singleton nalus nalu ih =>
    rw [inputFrames_snoc, ih, filter_snoc, filter_snoc, filter_snoc, inputFrame_eq]

/-- What a frame makes the encoder send, for the frame before it. -/
theorem inputFrameL_turn (nalus : List H264Nalu) (frame next : H264Nalu) :
    (inputFrames {} nalus).1.inputFrameL frame (frame.pts ≠ next.pts) =
      (⟨nalus, frame, next⟩ : Turn).configCalls ++ [(⟨nalus, frame, next⟩ : Turn).frameCall] := by
  rw [inputFrames_units, inputFrameL, insertConfigFrame, Turn.configCalls, Turn.frameCall]
  dsimp only
  cases (nalus.filter H264Nalu.isSps).getLast? with
  | none => simp
  | some sps => cases (nalus.filter H264Nalu.isPps).getLast? <;> simp

/-- **The calls of `packRtp`**, for any sequence of units: each frame that has a next one is sent
once, in order, marked if the next one has another time, and directly behind the parameter sets if
it is a key frame and both were given before the next frame. -/
theorem inputFrames_turns (nalus : List H264Nalu) :
    (inputFrames {} nalus).2 = (turns nalus).flatMap (fun t => t.configCalls ++ [t.frameCall]) ∧
    (turns nalus).map (fun t => (t.frame, t.next)) =
      (nalus.filter H264Nalu.isFrame).zip (nalus.filter H264Nalu.isFrame).tail ∧
    ∀ t ∈ turns nalus, t.before ++ [t.next] <+: nalus ∧
      (t.Configured → t.Configures t.configCalls) ∧ (¬ t.Configured → t.configCalls = []) := by
  refine ⟨?_, ?_, fun t ht => ⟨prefix_of_mem_turns ht, t.configCalls_spec⟩⟩
  · induction nalus using List.reverseRecOn with
    | nil => rfl
    | append_singleton nalus nalu ih =>
      rw [inputFrames_snoc, ih, turns_snoc, List.flatMap_append, inputFrame_eq]
      have hlast := congrArg EncoderUnits.lastNalu (inputFrames_units nalus)
      dsimp only at hlast ⊢
      congr 1
      by_cases hframe : nalu.isFrame = true
      -- the frame before, if there is one, is sent now
      · rw [if_pos hframe, if_pos hframe, hlast]
        cases (nalus.filter H264Nalu.isFrame).getLast? with
        | none => rfl
        | some frame => simpa using inputFrameL_turn nalus frame nalu
      · rw [if_neg hframe, if_neg hframe]
        rfl
  · induction nalus using List.reverseRecOn with
    | nil => rfl
    | append_singleton nalus nalu ih =>
      rw [turns_snoc, List.map_append, ih, List.filter_append]
      by_cases hframe : nalu.isFrame = true
      -- a frame more in the list is a pair more
      · rw [if_pos hframe, List.filter_singleton, hframe, cond_true, zip_tail_snoc]
        cases (nalus.filter H264Nalu.isFrame).getLast? <;> rfl
      · rw [if_neg hframe, List.filter_singleton, Bool.not_eq_true _ |>.mp hframe]
        simp

end EncoderUnits

end

end CppServerStudio
