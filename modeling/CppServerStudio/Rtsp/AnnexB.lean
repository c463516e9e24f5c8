import Mathlib.Data.List.GetD
import CppServerStudio.Rtsp.H264

/-!
# Annex-B streams

A byte stream holds NAL units, each behind a start code of three or four bytes. A unit has no start
code inside, and its last byte is not zero, so a test for a start code within a unit fails at a byte
of the unit: no zeros of a unit run into the start code behind it, and nothing behind the unit is
read. So the units are cut off one by one.

## Main definitions

* `NalUnit`: a unit that can be framed
* `annexB`: units framed by start codes

## Main results

* `H264Nalu.getAnnexbNalu_framed`: one call gives the first unit and its end
* `NalReader.splits_annexB`: all units in order, and over and over again
-/

namespace CppServerStudio

open Scanning

/-- A NAL unit: its bytes, with no start code among them. -/
structure NalUnit where
  bytes : Bytes
  ne_nil : bytes ≠ []
  head_ne : bytes.head ne_nil ≠ 0
  last_ne : bytes.getLast ne_nil ≠ 0
  noCode : ¬ startCode3 <:+: bytes

/-- The start code of four bytes, or that of three. -/
def startCode (long : Bool) : Bytes := if long then startCode4 else startCode3

/-- **Annex B**: each unit behind a start code. -/
def annexB (frames : List (Bool × NalUnit)) : Bytes :=
  frames.flatMap fun frame => startCode frame.1 ++ frame.2.bytes

/-- An object holds a unit. -/
structure H264Nalu.Holds (nalu : H264Nalu) (unit : NalUnit) : Prop where
  buffer : nalu.buffer = unit.bytes
  len : nalu.len = unit.bytes.length
  nalUnitType : nalu.nalUnitType = unit.bytes.head unit.ne_nil &&& 0x1F

/-! ## Tests for a start code -/

theorem charAt_append (pre : Bytes) {xs : Bytes} {j : ℕ} (h : j < xs.length) :
    charAt (pre ++ xs) (pre.length + j) = .ok (xs.getD j NUL) := by
  have hle : pre.length + j ≤ (pre ++ xs).length := by
    rw [List.length_append]
    omega
  rw [charAt, if_pos hle, List.getD_append_right _ _ _ _ (by omega)]
  congr 2
  omega

/-- A code that is there is found. -/
theorem matchAt_append (pre code rest : Bytes) :
    matchAt (pre ++ (code ++ rest)) pre.length code = .ok true := by
  induction code generalizing pre with
  | nil => rfl
  | cons b code ih =>
    have hpos : 0 < (b :: code ++ rest).length := by simp
    have hchar := charAt_append pre hpos
    rw [Nat.add_zero] at hchar
    rw [matchAt, hchar, ok_bind, if_pos (by rfl)]
    simpa using ih (pre ++ [b])

/-- A byte that differs from that of the code decides the test. -/
theorem matchAt_of_ne {data code : Bytes} {i k : ℕ} {b : Byte} (hk : code[k]? = some b)
    (hi : i + k < data.length) (hne : data.getD (i + k) NUL ≠ b) :
    matchAt data i code = .ok false := by
  induction code generalizing i k with
  | nil => cases hk
  | cons c code ih =>
    have hchar : charAt data i = .ok (data.getD i NUL) := if_pos (by omega)
    rw [matchAt, hchar, ok_bind]
    split
    · rename_i heq
      cases k with
      | zero =>
        -- the first byte is the one that differs
        obtain rfl := Option.some.inj hk
        exact absurd heq hne
      | succ k =>
        have hshift : i + 1 + k = i + (k + 1) := by omega
        exact ih (i := i + 1) hk (hshift ▸ hi) (hshift ▸ hne)
    · rfl

namespace NalUnit

variable (unit : NalUnit)

theorem length_pos : 0 < unit.bytes.length := List.length_pos_iff.mpr unit.ne_nil

theorem getD_last : unit.bytes.getD (unit.bytes.length - 1) NUL ≠ 0 := by
  have hlen := unit.length_pos
  rw [List.getD_eq_getElem _ _ (by omega), ← List.getLast_eq_getElem unit.ne_nil]
  exact unit.last_ne

/-- Inside a unit, some byte differs from the code of three bytes. -/
theorem exists_ne_startCode3 {j : ℕ} (hj : j + 3 ≤ unit.bytes.length) :
    ∃ k b, startCode3[k]? = some b ∧ k < 3 ∧ unit.bytes.getD (j + k) NUL ≠ b := by
  by_contra hall
  push Not at hall
  -- otherwise the code is there
  refine unit.noCode ⟨unit.bytes.take j, unit.bytes.drop (j + 3), ?_⟩
  have hcode : startCode3 = (unit.bytes.drop j).take 3 := by
    apply List.ext_getElem?
    intro k
    rcases lt_or_ge k 3 with hk | hk
    · have hget : startCode3[k]? = some (unit.bytes.getD (j + k) NUL) := by
        have hlt : k < startCode3.length := hk
        rw [List.getElem?_eq_getElem hlt, ← hall k _ (List.getElem?_eq_getElem hlt) hk]
      rw [hget, List.getElem?_take_of_lt hk, List.getElem?_drop,
        List.getD_eq_getElem _ _ (by omega), List.getElem?_eq_getElem (by omega)]
    · rw [List.getElem?_eq_none (by exact hk), List.getElem?_eq_none]
      rw [List.length_take]
      omega
  rw [hcode, ← List.drop_drop, List.append_assoc, List.take_append_drop, List.take_append_drop]

/-- Where a code would begin inside a unit, some byte of the unit differs from it. -/
theorem exists_ne {j : ℕ} (hj : j < unit.bytes.length) (long : Bool) :
    ∃ k b, (startCode long)[k]? = some b ∧ j + k < unit.bytes.length ∧
      unit.bytes.getD (j + k) NUL ≠ b := by
  have hlast := unit.getD_last
  rcases Nat.lt_or_ge (unit.bytes.length) (j + (startCode long).length) with hshort | hlong
  · -- the last byte of the unit would be one of the zeros of the code
    refine ⟨unit.bytes.length - 1 - j, 0, ?_, by omega, ?_⟩
    · cases long with
      | false =>
        change unit.bytes.length < j + 3 at hshort
        obtain h | h : unit.bytes.length - 1 - j = 0 ∨ unit.bytes.length - 1 - j = 1 := by omega
        all_goals rw [h]; rfl
      | true =>
        change unit.bytes.length < j + 4 at hshort
        obtain h | h | h : unit.bytes.length - 1 - j = 0 ∨ unit.bytes.length - 1 - j = 1 ∨
          unit.bytes.length - 1 - j = 2 := by omega
        all_goals rw [h]; rfl
    · rwa [show j + (unit.bytes.length - 1 - j) = unit.bytes.length - 1 by omega]
  · -- the code would lie in the unit
    cases long with
    | false =>
      obtain ⟨k, b, hk, hlt, hne⟩ := unit.exists_ne_startCode3 hlong
      exact ⟨k, b, hk, by change j + 3 ≤ _ at hlong; omega, hne⟩
    | true =>
      change j + 4 ≤ _ at hlong
      obtain ⟨k, b, hk, hlt, hne⟩ := unit.exists_ne_startCode3 (j := j + 1) (by omega)
      rw [show j + 1 + k = j + (k + 1) by omega] at hne
      exact ⟨k + 1, b, hk, by omega, hne⟩

/-- No test for a code inside a unit succeeds, or reads behind the unit. -/
theorem matchAt_inside (pre rest : Bytes) {j : ℕ} (hj : j < unit.bytes.length) (long : Bool) :
    matchAt (pre ++ (unit.bytes ++ rest)) (pre.length + j) (startCode long) = .ok false := by
  obtain ⟨k, b, hk, hlt, hne⟩ := unit.exists_ne hj long
  apply matchAt_of_ne hk
  · simp only [List.length_append]
    omega
  · rwa [Nat.add_assoc, List.getD_append_right _ _ _ _ (by omega), Nat.add_sub_cancel_left,
      List.getD_append _ _ _ _ hlt]

theorem noneAt_inside (pre rest : Bytes) {j : ℕ} (hj : j < unit.bytes.length) :
    noneAt (pre ++ (unit.bytes ++ rest)) (pre.length + j) startCode4 startCode3 = .ok true := by
  have h4 := unit.matchAt_inside pre rest hj true
  have h3 := unit.matchAt_inside pre rest hj false
  simp only [startCode, if_true, Bool.false_eq_true, if_false] at h4 h3
  rw [noneAt, h4, ok_bind, if_neg Bool.false_ne_true, h3]
  rfl

end NalUnit

/-! ## Start codes -/

theorem length_startCode (long : Bool) : (startCode long).length ≤ 4 := by cases long <;> decide

theorem three_le_length_startCode (long : Bool) : 3 ≤ (startCode long).length := by
  cases long <;> decide

/-- Behind a unit there are four bytes, if there is a frame. -/
theorem four_le_length_frame (long : Bool) {tail : Bytes} (htail : tail ≠ []) :
    4 ≤ (startCode long ++ tail).length := by
  have hthree := three_le_length_startCode long
  have hpos := List.length_pos_iff.mpr htail
  rw [List.length_append]
  omega

/-- At the start of a frame the code of three bytes is there, or not, as its start code says. -/
theorem matchAt_startCode3 (pre tail : Bytes) (long : Bool) :
    matchAt (pre ++ (startCode long ++ tail)) pre.length startCode3 = .ok !long := by
  cases long with
  | false => exact matchAt_append pre startCode3 tail
  | true =>
    -- the third byte of the long code is a zero
    refine matchAt_of_ne (k := 2) (b := 1) rfl ?_ ?_
    · simp [startCode, startCode4]
    · rw [List.getD_append_right _ _ _ _ (by omega), Nat.add_sub_cancel_left]
      exact (by decide : (0 : Byte) ≠ 1)

theorem matchAt_startCode4 (pre tail : Bytes) (long : Bool) :
    matchAt (pre ++ (startCode long ++ tail)) pre.length startCode4 = .ok long := by
  cases long with
  | true => exact matchAt_append pre startCode4 tail
  | false =>
    -- the third byte of the short code is a one
    refine matchAt_of_ne (k := 2) (b := 0) rfl ?_ ?_
    · simp [startCode, startCode3]
    · rw [List.getD_append_right _ _ _ _ (by omega), Nat.add_sub_cancel_left]
      exact (by decide : (1 : Byte) ≠ 0)

/-- The second loop stops at a start code. -/
theorem noneAt_startCode (pre tail : Bytes) (long : Bool) :
    noneAt (pre ++ (startCode long ++ tail)) pre.length startCode4 startCode3 = .ok false := by
  rw [noneAt, matchAt_startCode4 pre tail long, ok_bind]
  cases long with
  | true => rfl
  | false =>
    rw [if_neg Bool.false_ne_true, matchAt_startCode3]
    rfl

/-- The first loop ends at once. -/
theorem noneAt_start (tail : Bytes) (long : Bool) :
    noneAt (startCode long ++ tail) 0 startCode3 startCode4 = .ok false := by
  have h3 := matchAt_startCode3 [] tail long
  have h4 := matchAt_startCode4 [] tail long
  rw [List.nil_append, List.length_nil] at h3 h4
  rw [noneAt, h3, ok_bind]
  cases long with
  | false => rfl
  | true =>
    rw [if_neg (by decide), h4]
    rfl

/-! ## One call -/

/-- What comes behind a unit: nothing, or a start code and the next unit. -/
inductive Follows : Bytes → Prop
  | nil : Follows []
  | frame (long : Bool) {tail : Bytes} (htail : tail ≠ []) : Follows (startCode long ++ tail)

namespace H264Nalu

/-- **The second loop** ends where the unit does. -/
theorem endLoop_framed (unit : NalUnit) {pre rest : Bytes} (hpre : pre.length ≤ 4)
    (hrest : Follows rest) (hsize : (pre ++ (unit.bytes ++ rest)).length < 2 ^ 31) {j fuel : ℕ}
    (hj : j < unit.bytes.length) (hfuel : unit.bytes.length < j + fuel)
    (hleft : j = 0 ∨ pre.length + j + 3 < (pre ++ (unit.bytes ++ rest)).length) :
    endLoop (pre ++ (unit.bytes ++ rest)) fuel (pre.length + j) =
      .ok (pre.length + unit.bytes.length) := by
  have hlen : (pre ++ (unit.bytes ++ rest)).length =
      pre.length + (unit.bytes.length + rest.length) := by simp
  -- Induction on the number of turns left.
  induction fuel generalizing j with
  | zero => omega
  | succ fuel ih =>
    rw [endLoop, unit.noneAt_inside pre rest hj, ok_bind, if_pos rfl, if_neg (by omega)]
    by_cases hend : unit.bytes.length = j + 1
    · -- the next position is the end of the unit
      cases hrest with
      | nil =>
        rw [List.length_nil] at hlen
        rw [if_pos (by omega), hlen]
        rfl
      | @frame long tail htail =>
        have hfour := four_le_length_frame long htail
        rw [if_neg (by omega)]
        -- there the loop meets the start code
        obtain ⟨fuel, rfl⟩ : ∃ n, fuel = n + 1 := ⟨fuel - 1, by omega⟩
        have hnone := noneAt_startCode (pre ++ unit.bytes) tail long
        rw [List.append_assoc, List.length_append, hend, ← Nat.add_assoc] at hnone
        rw [endLoop, hnone, hend, ← Nat.add_assoc]
        rfl
    · split
      · -- fewer than four bytes are left, so nothing follows the unit
        cases hrest with
        | nil =>
          rw [hlen]
          rfl
        | @frame long tail htail =>
          have hfour := four_le_length_frame long htail
          omega
      · exact ih (j := j + 1) (by omega) (by omega) (.inr (by omega))

theorem getD_head (unit : NalUnit) : unit.bytes.getD 0 NUL = unit.bytes.head unit.ne_nil := by
  rw [List.head_eq_getElem, List.getD_eq_getElem]

theorem fill_holds (nalu : H264Nalu) (unit : NalUnit) : (nalu.fill unit.bytes).Holds unit where
  buffer := rfl
  len := rfl
  nalUnitType := by rw [fill, getD_head]

/-- **One call** gives the first unit, and where it ends. -/
theorem getAnnexbNalu_framed (nalu : H264Nalu) (long : Bool) (unit : NalUnit) {rest : Bytes}
    (hrest : Follows rest) (hsize : (startCode long ++ (unit.bytes ++ rest)).length < 2 ^ 31) :
    nalu.getAnnexbNalu (startCode long ++ (unit.bytes ++ rest)) =
      .ok (nalu.fill unit.bytes, (startCode long).length + unit.bytes.length) := by
  have hunit := unit.length_pos
  have hstart : startLoop (startCode long ++ (unit.bytes ++ rest))
      ((startCode long ++ (unit.bytes ++ rest)).length + 1) 0 = .ok (some 0) := by
    rw [startLoop, noneAt_start _ long]
    rfl
  have hshort := matchAt_startCode3 [] (unit.bytes ++ rest) long
  rw [List.nil_append, List.length_nil] at hshort
  have hend : endLoop (startCode long ++ (unit.bytes ++ rest))
      ((startCode long ++ (unit.bytes ++ rest)).length + 1) (startCode long).length =
      .ok ((startCode long).length + unit.bytes.length) :=
    endLoop_framed unit (length_startCode long) hrest hsize (j := 0) hunit
      (by simp only [List.length_append]; omega) (.inl rfl)
  have hextract : (startCode long ++ (unit.bytes ++ rest)).extract (startCode long).length
      ((startCode long).length + unit.bytes.length) = unit.bytes := by
    simp [List.extract_eq_take_drop]
  -- the code of three bytes at the end of the start code
  have hcode : matchAt (startCode long ++ (unit.bytes ++ rest)) (if long then 1 else 0) startCode3 =
      .ok true := by
    cases long with
    | false => exact matchAt_append [] startCode3 (unit.bytes ++ rest)
    | true => exact matchAt_append [0] startCode3 (unit.bytes ++ rest)
  have hpos : (if long then 1 else 0) + 3 = (startCode long).length := by cases long <;> rfl
  have hle : (startCode long).length ≤ (startCode long).length + unit.bytes.length ∧
      (startCode long).length + unit.bytes.length ≤
        (startCode long ++ (unit.bytes ++ rest)).length := by
    simp only [List.length_append]
    omega
  rw [getAnnexbNalu, hstart, ok_bind]
  simp only [hshort, ok_bind, Bool.not_eq_true', Nat.zero_add]
  have hite : (if long = false then 0 else 1) = if long = true then 1 else 0 := by
    cases long <;> rfl
  rw [hite, hcode, ok_bind, if_pos rfl, hpos, hend, ok_bind, if_pos hle, hextract]

end H264Nalu

/-! ## Streams -/

@[simp] theorem annexB_nil : annexB [] = [] := rfl

theorem annexB_cons (frame : Bool × NalUnit) (frames : List (Bool × NalUnit)) :
    annexB (frame :: frames) =
      startCode frame.1 ++ (frame.2.bytes ++ annexB frames) := by
  rw [annexB, List.flatMap_cons, List.append_assoc]
  rfl

theorem annexB_length_pos (frame : Bool × NalUnit) (frames : List (Bool × NalUnit)) :
    0 < (annexB (frame :: frames)).length := by
  have hunit := frame.2.length_pos
  rw [annexB_cons]
  simp only [List.length_append]
  omega

theorem follows_annexB (frames : List (Bool × NalUnit)) : Follows (annexB frames) := by
  cases frames with
  | nil => exact .nil
  | cons frame frames =>
    rw [annexB_cons]
    exact .frame _ (by simp [frame.2.ne_nil])

/-- The rest of a stream is no longer than the stream. -/
theorem length_annexB_drop (frames : List (Bool × NalUnit)) (k : ℕ) :
    (annexB (frames.drop k)).length ≤ (annexB frames).length := by
  conv_rhs => rw [← List.take_append_drop k frames, annexB, List.flatMap_append, List.length_append]
  exact Nat.le_add_left _ _

namespace NalReader

/-- A call takes the first unit off the rest of the stream. -/
theorem readNalu_annexB (fresh : H264Nalu) {r : NalReader} {frame : Bool × NalUnit}
    {frames : List (Bool × NalUnit)} (hdata : r.data = annexB (frame :: frames))
    (hsize : r.data.length < 2 ^ 31) :
    r.readNalu fresh = .ok (fresh.fill frame.2.bytes, { r with data := annexB frames }) := by
  rw [hdata, annexB_cons] at hsize
  have hdrop : (startCode frame.1 ++ (frame.2.bytes ++ annexB frames)).drop
      ((startCode frame.1).length + frame.2.bytes.length) = annexB frames := by
    rw [← List.drop_drop, List.drop_left, List.drop_left]
  rw [readNalu, hdata, annexB_cons,
    fresh.getAnnexbNalu_framed frame.1 frame.2 (follows_annexB frames) hsize, ok_bind]
  dsimp only
  rw [hdrop]

/-- **One pass** gives the units, and then no byte is left. -/
theorem readAll_annexB (fresh : H264Nalu) {r : NalReader} {frames : List (Bool × NalUnit)}
    (hdata : r.data = annexB frames) (hsize : r.data.length < 2 ^ 31) :
    readAll fresh (frames.length + 1) r =
      .ok (frames.map fun frame => fresh.fill frame.2.bytes) := by
  induction frames generalizing r with
  | nil => rw [readAll, if_pos (by rw [hdata]; rfl)]; rfl
  | cons frame frames ih =>
    have hpos := annexB_length_pos frame frames
    have hlt := length_annexB_drop (frame :: frames) 1
    rw [← hdata] at hpos hlt
    have hrest := ih (r := { r with data := annexB frames }) rfl (lt_of_le_of_lt hlt hsize)
    rw [readAll, if_neg (by omega), readNalu_annexB fresh hdata hsize, ok_bind, List.length_cons]
    dsimp only
    rw [hrest, ok_bind, List.map_cons]

/-- A turn of `readFrame` goes on to the next unit, from the last one to the first. -/
theorem rewind_annexB {frames : List (Bool × NalUnit)} {k : ℕ} (hk : k < frames.length) :
    (NalReader.mk (annexB frames) (annexB (frames.drop (k + 1)))).rewind =
      ⟨annexB frames, annexB (frames.drop ((k + 1) % frames.length))⟩ := by
  rcases Nat.lt_or_ge (k + 1) frames.length with hlt | hge
  · have hdrop : frames.drop (k + 1) = frames[k + 1] :: frames.drop (k + 2) :=
      List.drop_eq_getElem_cons hlt
    have hpos := annexB_length_pos frames[k + 1] (frames.drop (k + 2))
    rw [← hdrop] at hpos
    rw [rewind, if_neg (by change ¬ (annexB _).length = 0; omega), Nat.mod_eq_of_lt hlt]
  · have hend : k + 1 = frames.length := by omega
    rw [hend, List.drop_length, Nat.mod_self, List.drop_zero]
    rfl

/-- **Any number of turns** from the unit `k` on. -/
theorem readFrames_annexB (fresh : H264Nalu) {frames : List (Bool × NalUnit)}
    (hsize : (annexB frames).length < 2 ^ 31) (n : ℕ) {k : ℕ} (hk : k < frames.length) :
    ∃ nalus r, readFrames fresh n ⟨annexB frames, annexB (frames.drop k)⟩ = .ok (nalus, r) ∧
      ∀ i < n, ∃ frame, frames[(k + i) % frames.length]? = some frame ∧
        nalus[i]? = some (fresh.fill frame.2.bytes) := by
  induction n generalizing k with
  | zero => exact ⟨[], _, rfl, fun i hi => absurd hi (Nat.not_lt_zero i)⟩
  | succ n ih =>
    have hdrop : frames.drop k = frames[k] :: frames.drop (k + 1) := List.drop_eq_getElem_cons hk
    -- this turn gives the unit `k`, and the next one begins at `k + 1`, or at the start again
    have hread := readNalu_annexB fresh
      (r := ⟨annexB frames, annexB (frames.drop k)⟩) (congrArg annexB hdrop)
      (lt_of_le_of_lt (length_annexB_drop frames k) hsize)
    obtain ⟨nalus, r, hrun, hnalus⟩ := ih (Nat.mod_lt (k + 1) (by omega))
    refine ⟨fresh.fill frames[k].2.bytes :: nalus, r, ?_, ?_⟩
    · rw [readFrames, hread, ok_bind]
      dsimp only
      rw [rewind_annexB hk, hrun]
      rfl
    · intro i hi
      cases i with
      | zero =>
        refine ⟨frames[k], ?_, rfl⟩
        rw [Nat.add_zero, Nat.mod_eq_of_lt hk, List.getElem?_eq_getElem hk]
      | succ i =>
        obtain ⟨frame, hframe, hnalu⟩ := hnalus i (by omega)
        refine ⟨frame, ?_, hnalu⟩
        rw [Nat.mod_add_mod] at hframe
        rw [show k + (i + 1) = k + 1 + i by omega]
        exact hframe

/-- **Splitting inverts framing.** One pass over an Annex-B stream gives its units in order and ends
with the last of them; the turns of `readFrame` give them over and over again. -/
theorem splits_annexB (fresh : H264Nalu) (frames : List (Bool × NalUnit)) (hne : frames ≠ [])
    (hsize : (annexB frames).length < 2 ^ 31) :
    (∃ nalus, readAll fresh (frames.length + 1) (start (annexB frames)) = .ok nalus ∧
      List.Forall₂ (fun nalu frame => nalu.Holds frame.2) nalus frames) ∧
    ∀ n, ∃ nalus r, readFrames fresh n (start (annexB frames)) = .ok (nalus, r) ∧
      ∀ i < n, ∃ nalu frame, nalus[i]? = some nalu ∧
        frames[i % frames.length]? = some frame ∧ nalu.Holds frame.2 := by
  refine ⟨⟨_, readAll_annexB fresh rfl hsize, ?_⟩, fun n => ?_⟩
  · rw [List.forall₂_map_left_iff]
    exact List.forall₂_same.mpr fun frame _ => fresh.fill_holds frame.2
  · obtain ⟨nalus, r, hrun, hnalus⟩ :=
      readFrames_annexB fresh hsize n (List.length_pos_iff.mpr hne)
    refine ⟨nalus, r, hrun, fun i hi => ?_⟩
    obtain ⟨frame, hframe, hnalu⟩ := hnalus i hi
    rw [Nat.zero_add] at hframe
    exact ⟨_, frame, hnalu, hframe, fresh.fill_holds frame.2⟩

/-- A unit of one byte, and one of five. -/
def shortUnit : NalUnit := ⟨[0x65], by decide, by decide, by decide, by decide⟩
def longUnit : NalUnit := ⟨[0x67, 0, 0, 2, 1], by decide, by decide, by decide, by decide⟩

theorem splits_annexB_two :
    ∃ nalus, readAll {} 3 (start (annexB [(true, longUnit), (false, shortUnit)])) = .ok nalus ∧
      List.Forall₂ (fun nalu frame => nalu.Holds frame.2) nalus
        [(true, longUnit), (false, shortUnit)] :=
  (splits_annexB {} [(true, longUnit), (false, shortUnit)] (by simp) (by decide)).1

end NalReader

end CppServerStudio
