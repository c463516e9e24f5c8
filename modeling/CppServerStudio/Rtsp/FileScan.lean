import CppServerStudio.Rtsp.Sdp
import CppServerStudio.Rtsp.StartCodes

/-!
# The parameter sets of a file

`RtspMediaStream::createFromEs` reads the units of a file until it has an SPS and a PPS, or no bytes
are left, and describes what it has by then. The file is named by the client, so it may hold any
bytes. A call that finds no start code at the front takes no bytes, and is made again for the same
bytes.

## Main definitions

* `EsScan`, `EsScan.turn`, `EsScan.loop`: the loop of `createFromEs`
* `RtspMediaStream.createFromFile`: `createFromEs` for the bytes of a file
* `ScanReports`: the loop ends, and the result says whether both sets were found
* `HasParameterSets`: a start code stands at the front, and both sets come, soon enough

## Main results

* `EsScan.Scanned.reads`: the calls for a file with parameter sets
* `scanReports_iff`: the loop ends and reports exactly for the files with parameter sets
-/

namespace CppServerStudio

open Scanning

/-! ## The loop -/

/-- The variables of the loop. `got_sps_pps` has a bit for each set. -/
structure EsScan where
  reader : NalReader
  sps : H264Nalu
  pps : H264Nalu
  gotSps : Bool := false
  gotPps : Bool := false

namespace EsScan

/-- The variables in front of the loop; `fresh` is what a new object holds. -/
def start (fresh : H264Nalu) (stream : Bytes) : EsScan where
  reader := .start stream
  sps := fresh
  pps := fresh

/-- The condition of the loop. -/
def going (s : EsScan) : Bool := 0 < s.reader.data.length && !(s.gotSps && s.gotPps)

/-- One turn. -/
def turn (fresh : H264Nalu) (s : EsScan) : Except NalFault EsScan := do
  let (nalu, reader) ← s.reader.readNalu fresh
  let s := { s with reader := reader }
  if nalu.nalUnitType = nalSps then .ok { s with sps := nalu, gotSps := true }
  else if nalu.nalUnitType = nalPps then .ok { s with pps := nalu, gotPps := true }
  else .ok s

/-- At most `fuel` turns. -/
def loop (fresh : H264Nalu) : ℕ → EsScan → Except NalFault EsScan
  | 0, _ => .error .outOfFuel
  | fuel + 1, s =>
    if s.going then do
      let s ← s.turn fresh
      loop fresh fuel s
    else .ok s

end EsScan

/-- An `unsigned` as an `int`. -/
def toInt (n : ℕ) : ℤ := (n : ℤ).bmod (2 ^ 32)

namespace RtspMediaStream

/-- What the bytes of a file come to. -/
def loadEs (fresh : H264Nalu) (fuel : ℕ) (stream : Bytes) (payloadType timeBase : ℤ) :
    Except NalFault LoadOutcome :=
  if stream = [] then .ok .failed
  else do
    let s ← EsScan.loop fresh fuel (.start fresh stream)
    let sdp ← h264SdpCreate s.sps.buffer (toInt s.sps.len) s.pps.buffer (toInt s.pps.len)
      payloadType timeBase
    .ok (.loaded sdp)

/-- **`createFromEs`** for the bytes that `File::loadFile` gives. -/
def createFromFile (m : RtspMediaStream) (fresh : H264Nalu) (fuel : ℕ) (stream : Bytes)
    (payloadType timeBase : ℤ) : Except NalFault (RtspMediaStream × Bool) := do
  let outcome ← loadEs fresh fuel stream payloadType timeBase
  .ok (m.createFromEs outcome)

end RtspMediaStream

/-! ## What is asked of it -/

/-- The states in which the condition of the loop is tested. -/
def EsScan.Reached (fresh : H264Nalu) (stream : Bytes) : EsScan → Prop :=
  Relation.ReflTransGen (fun s t => s.going = true ∧ s.turn fresh = .ok t) (start fresh stream)

/-- The loop finds a unit. -/
def EsScan.Found (fresh : H264Nalu) (stream : Bytes) (nalu : H264Nalu) : Prop :=
  ∃ s n, Reached fresh stream s ∧ s.going = true ∧
    fresh.getAnnexbNalu s.reader.data = .ok (nalu, n) ∧ 0 < n

/-- The loop finds a unit of this type. -/
def EsScan.Finds (fresh : H264Nalu) (stream : Bytes) (type : Byte) : Prop :=
  ∃ nalu, Found fresh stream nalu ∧ nalu.nalUnitType = type

open EsScan in
/-- **The loop ends and reports**: every call on bytes that are left takes some of them; the result
says whether an SPS and a PPS were found, and then the description has the bytes of such units. -/
structure ScanReports (m : RtspMediaStream) (fresh : H264Nalu) (stream : Bytes)
    (payloadType timeBase : ℤ) : Prop where
  progress : ∀ s, Reached fresh stream s → s.going = true → ∃ nalu n,
    fresh.getAnnexbNalu s.reader.data = .ok (nalu, n) ∧ 1 ≤ n ∧ n ≤ s.reader.data.length
  result : ∃ fuel m' ok,
    m.createFromFile fresh fuel stream payloadType timeBase = .ok (m', ok) ∧
    (ok = true ↔ Finds fresh stream nalSps ∧ Finds fresh stream nalPps) ∧
    (ok = true → ∃ sps pps, Found fresh stream sps ∧ sps.nalUnitType = nalSps ∧
      Found fresh stream pps ∧ pps.nalUnitType = nalPps ∧
      h264SdpCreate sps.buffer sps.buffer.length pps.buffer pps.buffer.length
        payloadType timeBase = .ok m'.sdp)

/-- In front of the position `m` there are a start code and the header byte of a unit of this
type. -/
def UnitBefore (stream : Bytes) (m : ℕ) (type : Byte) : Prop :=
  ∃ q b, q + 4 ≤ m ∧ startCode3 <+: stream.drop q ∧ stream[q + 3]? = some b ∧ b &&& 0x1F = type

/-- Behind some start code the next one comes too late for an `int`, and a set is not yet there. -/
def Overruns (stream : Bytes) : Prop :=
  ∃ r long, startCode long <+: stream.drop r ∧
    Overlong (stream.drop r) (startCode long).length ∧
    ¬ (UnitBefore stream r nalSps ∧ UnitBefore stream r nalPps)

/-- **A file with parameter sets**: a start code stands at the front; behind one like it comes the
header byte of an SPS, and behind another that of a PPS; and no unit is too long before both are
there. -/
structure HasParameterSets (stream : Bytes) : Prop where
  begins : Begins stream
  sps : UnitBefore stream stream.length nalSps
  pps : UnitBefore stream stream.length nalPps
  fits : ¬ Overruns stream

/-- A short file never overruns. -/
theorem not_overruns_of_length_lt {stream : Bytes} (h : stream.length < 2 ^ 31) :
    ¬ Overruns stream := by
  rintro ⟨r, long, -, ⟨hlen, -⟩, -⟩
  rw [List.length_drop] at hlen
  omega

/-! ## Start codes and header bytes -/

variable {data stream : Bytes} {long : Bool} {q r e : ℕ} {type : Byte}

/-- The bytes of a start code. -/
theorem getElem?_of_startCode (h : startCode long <+: data) :
    (∀ k, k + 1 < (startCode long).length → data[k]? = some 0) ∧
      data[(startCode long).length - 1]? = some 1 := by
  have hget := List.prefix_iff_getElem?.mp h
  cases long with
  | false =>
    refine ⟨fun k hk => ?_, hget 2 (by decide)⟩
    have hk' : k < 2 := Nat.lt_of_succ_lt_succ hk
    interval_cases k
    · exact hget 0 (by decide)
    · exact hget 1 (by decide)
  | true =>
    refine ⟨fun k hk => ?_, hget 3 (by decide)⟩
    have hk' : k < 3 := Nat.lt_of_succ_lt_succ hk
    interval_cases k
    · exact hget 0 (by decide)
    · exact hget 1 (by decide)
    · exact hget 2 (by decide)

theorem getElem?_of_startCode_drop (h : startCode long <+: stream.drop r) :
    (∀ k, k + 1 < (startCode long).length → stream[r + k]? = some 0) ∧
      stream[r + ((startCode long).length - 1)]? = some 1 := by
  obtain ⟨hzero, hone⟩ := getElem?_of_startCode h
  simp only [List.getElem?_drop] at hzero hone
  exact ⟨hzero, hone⟩

theorem UnitBefore.mono {m m' : ℕ} (h : UnitBefore stream m type) (hle : m ≤ m') :
    UnitBefore stream m' type := by
  obtain ⟨q, b, hq, hrest⟩ := h
  exact ⟨q, b, by omega, hrest⟩

/-- A code of three bytes behind which there is no zero, and that is not in front of a start code,
is the end of that code, or behind it. -/
theorem startCode3_cases (hcode : startCode long <+: stream.drop r)
    (hpre : startCode3 <+: stream.drop q) (hnext : stream[q + 3]? ≠ some 0) (hq : r < q + 4) :
    q + 3 = r + (startCode long).length ∨ r + (startCode long).length ≤ q := by
  have hthree := three_le_length_startCode long
  obtain ⟨hzero, hone⟩ := getElem?_of_startCode_drop hcode
  obtain ⟨hzero', hone'⟩ := @getElem?_of_startCode_drop _ false _ hpre
  change stream[q + 2]? = some 1 at hone'
  have h0 : stream[q]? = some 0 := hzero' 0 (by decide)
  have h1 : stream[q + 1]? = some 0 := hzero' 1 (by decide)
  have hne : (some 0 : Option Byte) ≠ some 1 := by decide
  by_contra hother
  obtain ⟨hsame, hbehind⟩ := not_or.mp hother
  -- in each of the other places a zero of one code is the last byte of the other, or behind it
  obtain hq' | hq' | hq' | ⟨j, rfl⟩ : q + 3 = r ∨ q + 2 = r ∨ q + 1 = r ∨ ∃ j, q = r + j := by
    rcases Nat.lt_or_ge q r with hlt | hge
    · omega
    · exact .inr (.inr (.inr ⟨q - r, by omega⟩))
  · have hr := hzero 0 (by omega)
    rw [Nat.add_zero, ← hq'] at hr
    exact hnext hr
  · have hr := hzero 0 (by omega)
    rw [Nat.add_zero, ← hq'] at hr
    exact hne (hr.symm.trans hone')
  · have hr := hzero 1 (by omega)
    rw [← hq'] at hr
    exact hne (hr.symm.trans hone')
  · obtain hj | hj | hj : j + 3 < (startCode long).length ∨
        j + 2 = (startCode long).length ∨ j + 1 = (startCode long).length := by omega
    · exact hne ((hzero (j + 2) (by omega)).symm.trans hone')
    · have hr : stream[r + (j + 1)]? = some 1 := by
        rwa [show j + 1 = (startCode long).length - 1 by omega]
      exact hne (h1.symm.trans hr)
    · have hr : stream[r + j]? = some 1 := by
        rwa [show j = (startCode long).length - 1 by omega]
      exact hne (h0.symm.trans hr)

/-- **The header bytes up to the end of a unit** are those in front of it, and its own. -/
theorem unitBefore_add_iff (hcode : startCode long <+: stream.drop r) (htype : type ≠ 0)
    (hno : ∀ j, (startCode long).length ≤ j → j + 4 ≤ e → ¬ Begins (stream.drop (r + j))) :
    UnitBefore stream (r + e) type ↔ UnitBefore stream r type ∨
      ((startCode long).length < e ∧
        ∃ b, stream[r + (startCode long).length]? = some b ∧ b &&& 0x1F = type) := by
  have hthree := three_le_length_startCode long
  constructor
  · rintro ⟨q, b, hq, hpre, hb, hand⟩
    by_cases hold : q + 4 ≤ r
    · exact .inl ⟨q, b, hold, hpre, hb, hand⟩
    have hnext : stream[q + 3]? ≠ some 0 := by
      rw [hb, Ne, Option.some.injEq]
      rintro rfl
      exact htype (hand.symm.trans (by decide))
    rcases startCode3_cases hcode hpre hnext (by omega) with hsame | hbehind
    · exact .inr ⟨by omega, b, hsame ▸ hb, hand⟩
    · -- there is no start code inside the unit
      obtain ⟨j, rfl⟩ := Nat.exists_eq_add_of_le ((Nat.le_add_right _ _).trans hbehind)
      exact absurd ⟨false, hpre⟩ (hno j (by omega) (by omega))
  · rintro (hold | ⟨hlt, b, hb, hand⟩)
    · exact hold.mono (Nat.le_add_right r e)
    · refine ⟨r + ((startCode long).length - 3), b, by omega, ?_, ?_, hand⟩
      · -- the last three bytes of a code are one of three bytes
        cases long with
        | false => exact hcode
        | true =>
          have htail := hcode.drop 1
          rw [List.drop_drop] at htail
          exact htail
      · rwa [show r + ((startCode long).length - 3) + 3 = r + (startCode long).length by omega]

/-- The type of a unit is that of the byte behind its start code. -/
theorem fill_nalUnitType (nalu : H264Nalu) {n : ℕ} (hle : e ≤ data.length) (htype : type ≠ 0) :
    (nalu.fill (data.extract n e)).nalUnitType = type ↔
      n < e ∧ ∃ b, data[n]? = some b ∧ b &&& 0x1F = type := by
  have hfill : (nalu.fill (data.extract n e)).nalUnitType =
      (data.extract n e).getD 0 NUL &&& 0x1F := rfl
  have hget : (data.extract n e)[0]? = if n < e then data[n]? else none := by
    rw [List.extract_eq_take_drop, List.getElem?_take, List.getElem?_drop, Nat.add_zero]
    simp only [Nat.sub_pos_iff_lt]
  rw [hfill, List.getD_eq_getElem?_getD, hget]
  by_cases hlt : n < e
  · rw [if_pos hlt, List.getElem?_eq_getElem (by omega)]
    simp [hlt]
  · rw [if_neg hlt]
    refine iff_of_false ?_ fun h => hlt h.1
    rintro rfl
    exact htype (by decide)

/-- A start code behind another one begins behind it, or is the end of it. -/
theorem startCode_overlap {long' : Bool} {j : ℕ} (h : startCode long <+: data)
    (h' : startCode long' <+: data.drop j) (hj : j < (startCode long).length) :
    j + (startCode long').length ≤ (startCode long).length := by
  by_contra hlt
  -- the one at the end of the first code would be a zero of the second
  have hone := (getElem?_of_startCode h).2
  have hzero := (getElem?_of_startCode_drop h').1 ((startCode long).length - 1 - j) (by omega)
  rw [show j + ((startCode long).length - 1 - j) = (startCode long).length - 1 by omega, hone]
    at hzero
  exact absurd hzero (by decide)

/-- No unit that ends is too long. -/
theorem UnitEnd.not_overlong (hend : UnitEnd data (startCode long).length e)
    (hcode : startCode long <+: data) {long' : Bool} {j : ℕ} (hj : j < e)
    (hcode' : startCode long' <+: data.drop j) :
    ¬ Overlong (data.drop j) (startCode long').length := by
  rintro ⟨hlen, hno⟩
  rw [List.length_drop] at hlen
  have hfour := length_startCode long
  have hin : j < (startCode long).length := by
    by_contra hge
    exact hend.noCode j (by omega) hj (by omega) ⟨long', hcode'⟩
  have hover := startCode_overlap hcode hcode' hin
  have hle := hend.le
  rcases hend.ends with ⟨hbegins, hint⟩ | ⟨-, hshort⟩
  · -- the code that ends the unit comes early enough for the other one
    have hcode := hno (e - j) (by omega) (by omega)
    rw [List.drop_drop, show j + (e - j) = e by omega] at hcode
    exact hcode hbegins
  · omega

theorem UnitEnd.lt (hend : UnitEnd data (startCode long).length e) : e < 2 ^ 31 := by
  have hfour := length_startCode long
  rcases hend.ends with ⟨-, hint⟩ | ⟨rfl, hshort⟩
  · omega
  · exact hshort

/-! ## One turn -/

namespace EsScan

variable {fresh nalu : H264Nalu} {s t : EsScan}

/-- The variables behind a turn that reads `nalu` and takes `n` bytes. -/
def keep (s : EsScan) (nalu : H264Nalu) (n : ℕ) : EsScan where
  reader := { s.reader with data := s.reader.data.drop n }
  sps := if nalu.nalUnitType = nalSps then nalu else s.sps
  pps := if nalu.nalUnitType = nalPps then nalu else s.pps
  gotSps := s.gotSps || nalu.nalUnitType = nalSps
  gotPps := s.gotPps || nalu.nalUnitType = nalPps

theorem turn_eq {n : ℕ} (h : fresh.getAnnexbNalu s.reader.data = .ok (nalu, n)) :
    s.turn fresh = .ok (s.keep nalu n) := by
  have hne : nalSps ≠ nalPps := by decide
  rw [turn, NalReader.readNalu, h, ok_bind, ok_bind]
  dsimp only
  split_ifs with hsps hpps
  · simp [keep, hsps, hne]
  · simp [keep, hpps, hne.symm]
  · simp [keep, hsps, hpps]

theorem turn_eq_error {fault : NalFault} (h : fresh.getAnnexbNalu s.reader.data = .error fault) :
    s.turn fresh = .error fault := by
  rw [turn, NalReader.readNalu, h]
  rfl

/-- A unit that was found, of a certain type. -/
structure Taken (fresh : H264Nalu) (stream : Bytes) (type : Byte) (nalu : H264Nalu) : Prop where
  found : Found fresh stream nalu
  nalUnitType : nalu.nalUnitType = type
  len : nalu.len = nalu.buffer.length
  lt : nalu.len < 2 ^ 31

/-- **The invariant of the loop**: it is at the position `r`, where the bytes end or a start code
stands, and has the sets of which a header byte is in front of `r`. -/
structure Scanned (fresh : H264Nalu) (stream : Bytes) (s : EsScan) (r : ℕ) : Prop where
  reached : Reached fresh stream s
  data : s.reader.data = stream.drop r
  le : r ≤ stream.length
  begins : r < stream.length → Begins (stream.drop r)
  gotSps : s.gotSps = true ↔ UnitBefore stream r nalSps
  gotPps : s.gotPps = true ↔ UnitBefore stream r nalPps
  sps : s.gotSps = true → Taken fresh stream nalSps s.sps
  pps : s.gotPps = true → Taken fresh stream nalPps s.pps

theorem scanned_start (h : Begins stream) : Scanned fresh stream (start fresh stream) 0 where
  reached := .refl
  data := rfl
  le := Nat.zero_le _
  begins _ := h
  gotSps := by
    refine iff_of_false Bool.false_ne_true ?_
    rintro ⟨q, b, hq, -⟩
    omega
  gotPps := by
    refine iff_of_false Bool.false_ne_true ?_
    rintro ⟨q, b, hq, -⟩
    omega
  sps h := absurd h Bool.false_ne_true
  pps h := absurd h Bool.false_ne_true

theorem Scanned.lt (h : Scanned fresh stream s r) (hgo : s.going = true) : r < stream.length := by
  rw [going, Bool.and_eq_true, decide_eq_true_eq, h.data, List.length_drop] at hgo
  omega

/-- Not both sets are in front of a turn. -/
theorem Scanned.not_both (h : Scanned fresh stream s r) (hgo : s.going = true) :
    ¬ (UnitBefore stream r nalSps ∧ UnitBefore stream r nalPps) := by
  rw [going, Bool.and_eq_true] at hgo
  rintro ⟨hsps, hpps⟩
  have hboth := hgo.2
  rw [h.gotSps.mpr hsps, h.gotPps.mpr hpps] at hboth
  exact absurd hboth (by decide)

/-- What a call does in a turn. -/
theorem Scanned.call (h : Scanned fresh stream s r) (hgo : s.going = true) :
    ∃ long, startCode long <+: stream.drop r ∧
      ((∃ e, fresh.getAnnexbNalu s.reader.data =
          .ok (fresh.fill ((stream.drop r).extract (startCode long).length e), e) ∧
        UnitEnd (stream.drop r) (startCode long).length e) ∨
      (fresh.getAnnexbNalu s.reader.data = .error .overread ∧
        (stream.drop r).drop (startCode long).length <+: [0, 0]) ∨
      (fresh.getAnnexbNalu s.reader.data = .error .intOverflow ∧
        Overlong (stream.drop r) (startCode long).length)) := by
  obtain ⟨long, hcode⟩ := h.begins (h.lt hgo)
  rw [h.data]
  exact ⟨long, hcode, fresh.getAnnexbNalu_cases hcode⟩

/-- The header bytes up to the end of the unit of a turn. -/
theorem unitBefore_unit_iff (fresh : H264Nalu) (hcode : startCode long <+: stream.drop r)
    (hend : UnitEnd (stream.drop r) (startCode long).length e) (htype : type ≠ 0) :
    UnitBefore stream (r + e) type ↔ UnitBefore stream r type ∨
      (fresh.fill ((stream.drop r).extract (startCode long).length e)).nalUnitType = type := by
  have hle := hend.le_length
  rw [fill_nalUnitType fresh hle htype, List.getElem?_drop]
  refine unitBefore_add_iff hcode htype fun j hj hlast => ?_
  rw [← List.drop_drop]
  exact hend.noCode j hj (by omega) (.inr (by omega))

/-- The unit of a turn, which is found. -/
theorem Scanned.taken (h : Scanned fresh stream s r) (hgo : s.going = true)
    (hcall : fresh.getAnnexbNalu s.reader.data =
      .ok (fresh.fill ((stream.drop r).extract (startCode long).length e), e))
    (hend : UnitEnd (stream.drop r) (startCode long).length e)
    (htype : (fresh.fill
      ((stream.drop r).extract (startCode long).length e)).nalUnitType = type) :
    Taken fresh stream type
      (fresh.fill ((stream.drop r).extract (startCode long).length e)) := by
  have hthree := three_le_length_startCode long
  have hpos := hend.le
  have hlt := hend.lt
  refine ⟨⟨s, e, h.reached, hgo, hcall, by omega⟩, htype, rfl, ?_⟩
  change ((stream.drop r).extract (startCode long).length e).length < 2 ^ 31
  rw [List.extract_eq_take_drop, List.length_take]
  omega

/-- A set that is kept: the unit of the turn if it is of this type, else the one from before. -/
theorem Taken.keep {held : H264Nalu} {got : Bool}
    (hheld : got = true → Taken fresh stream type held)
    (hnalu : nalu.nalUnitType = type → Taken fresh stream type nalu)
    (hgot : (got || nalu.nalUnitType = type) = true) :
    Taken fresh stream type (if nalu.nalUnitType = type then nalu else held) := by
  rw [Bool.or_eq_true, decide_eq_true_eq] at hgot
  split_ifs with htype
  · exact hnalu htype
  · exact hheld (hgot.resolve_right htype)

/-- **A turn** goes on to the end of the unit. -/
theorem Scanned.keep (h : Scanned fresh stream s r) (hgo : s.going = true)
    (hcode : startCode long <+: stream.drop r)
    (hcall : fresh.getAnnexbNalu s.reader.data =
      .ok (fresh.fill ((stream.drop r).extract (startCode long).length e), e))
    (hend : UnitEnd (stream.drop r) (startCode long).length e) :
    Scanned fresh stream
      (s.keep (fresh.fill ((stream.drop r).extract (startCode long).length e)) e) (r + e) := by
  have hle := hend.le_length
  have hr := h.le
  rw [List.length_drop] at hle
  constructor
  · exact h.reached.tail ⟨hgo, turn_eq hcall⟩
  · rw [EsScan.keep, h.data, List.drop_drop]
  · omega
  · -- the unit ends at a start code, unless it is the last one
    intro hlast
    rw [← List.drop_drop]
    exact hend.ends.elim And.left fun hall => absurd hall.1 (by rw [List.length_drop]; omega)
  · rw [unitBefore_unit_iff fresh hcode hend (by decide), ← h.gotSps, EsScan.keep, Bool.or_eq_true,
      decide_eq_true_eq]
  · rw [unitBefore_unit_iff fresh hcode hend (by decide), ← h.gotPps, EsScan.keep, Bool.or_eq_true,
      decide_eq_true_eq]
  · exact Taken.keep h.sps (h.taken hgo hcall hend)
  · exact Taken.keep h.pps (h.taken hgo hcall hend)

/-! ## The loop ends -/

/-- Behind a few zeros there is no header byte. -/
theorem unitBefore_of_zeros (hcode : startCode long <+: stream.drop r) (htype : type ≠ 0)
    (hzeros : (stream.drop r).drop (startCode long).length <+: [0, 0])
    (h : UnitBefore stream stream.length type) : UnitBefore stream r type := by
  have hlen := hzeros.length_le
  have hle := hcode.length_le
  rw [List.length_drop] at hle
  simp only [List.length_drop, List.length_cons, List.length_nil] at hlen
  have hr : r ≤ stream.length := by
    have hthree := three_le_length_startCode long
    omega
  obtain ⟨e, he⟩ := Nat.exists_eq_add_of_le hr
  rw [he, unitBefore_add_iff hcode htype fun j hj hlast => absurd hlast (by omega)] at h
  refine h.resolve_right ?_
  rintro ⟨hlt, b, hb, rfl⟩
  -- the byte behind the code is a zero
  rw [List.drop_drop] at hzeros
  have hget : (stream.drop (r + (startCode long).length))[0]? = some b := by
    rwa [List.getElem?_drop, Nat.add_zero]
  have hzero := (List.prefix_iff_getElem?.mp hzeros) 0 (by rw [List.length_drop]; omega)
  rw [← List.getElem?_eq_getElem, hget] at hzero
  obtain rfl : 0 = b := Option.some.inj hzero
  exact htype (by decide)

/-- **The calls** for a file with parameter sets succeed. -/
theorem Scanned.reads (h : Scanned fresh stream s r) (hsets : HasParameterSets stream)
    (hgo : s.going = true) :
    ∃ long e, startCode long <+: stream.drop r ∧
      fresh.getAnnexbNalu s.reader.data =
        .ok (fresh.fill ((stream.drop r).extract (startCode long).length e), e) ∧
      UnitEnd (stream.drop r) (startCode long).length e := by
  obtain ⟨long, hcode, ⟨e, hcall, hend⟩ | ⟨-, hzeros⟩ | ⟨-, hlong⟩⟩ := h.call hgo
  · exact ⟨long, e, hcode, hcall, hend⟩
  · -- both header bytes would be in front of the zeros
    exact absurd ⟨unitBefore_of_zeros hcode (by decide) hzeros hsets.sps,
      unitBefore_of_zeros hcode (by decide) hzeros hsets.pps⟩ (h.not_both hgo)
  · exact absurd ⟨r, long, hcode, hlong, h.not_both hgo⟩ hsets.fits

/-- **The loop ends** with both sets. -/
theorem Scanned.loop (h : Scanned fresh stream s r) (hsets : HasParameterSets stream) {fuel : ℕ}
    (hfuel : stream.length < r + fuel) :
    ∃ t, EsScan.loop fresh fuel s = .ok t ∧ Taken fresh stream nalSps t.sps ∧
      Taken fresh stream nalPps t.pps := by
  -- Induction on the turns left; each one takes at least the bytes of a start code.
  induction fuel generalizing s r with
  | zero => exact absurd h.le (by omega)
  | succ fuel ih =>
    rw [EsScan.loop]
    by_cases hgo : s.going = true
    · obtain ⟨long, e, hcode, hcall, hend⟩ := h.reads hsets hgo
      have hthree := three_le_length_startCode long
      have hpos := hend.le
      rw [if_pos hgo, turn_eq hcall, ok_bind]
      exact ih (h.keep hgo hcode hcall hend) (by omega)
    · rw [if_neg hgo]
      have hboth : s.gotSps = true ∧ s.gotPps = true := by
        by_contra hnot
        have hlast : r = stream.length := by
          by_contra hlt
          refine hgo (Bool.and_eq_true_iff.mpr ⟨?_, ?_⟩)
          · rw [decide_eq_true_eq, h.data, List.length_drop]
            have hle := h.le
            omega
          · rwa [Bool.not_eq_true', Bool.eq_false_iff, Ne, Bool.and_eq_true]
        subst hlast
        exact hnot ⟨h.gotSps.mpr hsets.sps, h.gotPps.mpr hsets.pps⟩
      exact ⟨s, rfl, h.sps hboth.1, h.pps hboth.2⟩

/-- Every state in which the condition is tested is at some position. -/
theorem Reached.scanned (h : Reached fresh stream s) (hbegins : Begins stream) :
    ∃ r, Scanned fresh stream s r := by
  induction h with
  | refl => exact ⟨0, scanned_start hbegins⟩
  | tail _ hstep ih =>
    obtain ⟨r, hr⟩ := ih
    obtain ⟨hgo, hturn⟩ := hstep
    obtain ⟨long, hcode, ⟨e, hcall, hend⟩ | ⟨hcall, -⟩ | ⟨hcall, -⟩⟩ := hr.call hgo
    · rw [turn_eq hcall, Except.ok.injEq] at hturn
      rw [← hturn]
      exact ⟨r + e, hr.keep hgo hcode hcall hend⟩
    · cases (turn_eq_error hcall).symm.trans hturn
    · cases (turn_eq_error hcall).symm.trans hturn

/-- The header byte of a unit that is found. -/
theorem Found.unitBefore (h : Found fresh stream nalu) (hbegins : Begins stream)
    (htype : nalu.nalUnitType = type) (hne : type ≠ 0) :
    UnitBefore stream stream.length type := by
  obtain ⟨s, n, hreached, hgo, hcall, -⟩ := h
  obtain ⟨r, hr⟩ := hreached.scanned hbegins
  obtain ⟨long, hcode, ⟨e, hcall', hend⟩ | ⟨hcall', -⟩ | ⟨hcall', -⟩⟩ := hr.call hgo
  · obtain ⟨rfl, rfl⟩ := Prod.mk.inj (Except.ok.inj (hcall'.symm.trans hcall))
    exact ((unitBefore_unit_iff fresh hcode hend hne).mpr (.inr htype)).mono
      (hr.keep hgo hcode hcall' hend).le
  · cases hcall'.symm.trans hcall
  · cases hcall'.symm.trans hcall

/-- A loop that ends goes past no unit that is too long. -/
theorem Scanned.not_overlong (h : Scanned fresh stream s r) {fuel : ℕ}
    (hrun : EsScan.loop fresh fuel s = .ok t) :
    ∃ r', Scanned fresh stream t r' ∧ t.going = false ∧ ∀ q long, r ≤ q → q < r' →
      startCode long <+: stream.drop q → ¬ Overlong (stream.drop q) (startCode long).length := by
  induction fuel generalizing s r with
  | zero => cases hrun
  | succ fuel ih =>
    rw [EsScan.loop] at hrun
    split_ifs at hrun with hgo
    · obtain ⟨long, hcode, ⟨e, hcall, hend⟩ | ⟨hcall, -⟩ | ⟨hcall, -⟩⟩ := h.call hgo
      · rw [turn_eq hcall, ok_bind] at hrun
        obtain ⟨r', ht, hend', hno⟩ := ih (h.keep hgo hcode hcall hend) hrun
        refine ⟨r', ht, hend', fun q long' hq hlt hcode' => ?_⟩
        rcases Nat.lt_or_ge q (r + e) with hin | hout
        · -- the code is in the unit of this turn
          obtain ⟨j, rfl⟩ := Nat.exists_eq_add_of_le hq
          rw [← List.drop_drop] at hcode' ⊢
          exact hend.not_overlong hcode (by omega) hcode'
        · exact hno q long' hout hlt hcode'
      · rw [turn_eq_error hcall] at hrun
        cases hrun
      · rw [turn_eq_error hcall] at hrun
        cases hrun
    · obtain rfl := Except.ok.inj hrun
      refine ⟨r, h, Bool.eq_false_iff.mpr hgo, fun q long hq hlt => absurd hlt (by omega)⟩

/-- No file for which the loop ends overruns. -/
theorem not_overruns (hbegins : Begins stream) {fuel : ℕ}
    (hrun : EsScan.loop fresh fuel (start fresh stream) = .ok t) : ¬ Overruns stream := by
  rintro ⟨q, long, hcode, hlong, hnot⟩
  obtain ⟨r, hr, hend, hno⟩ := (scanned_start hbegins).not_overlong hrun
  refine hno q long (Nat.zero_le q) ?_ hcode hlong
  by_contra hge
  -- not all bytes were taken, so both sets were there
  have hlen := hlong.1
  rw [List.length_drop] at hlen
  rw [going, Bool.and_eq_false_iff] at hend
  rcases hend with hdata | hboth
  · rw [decide_eq_false_iff_not, hr.data, List.length_drop] at hdata
    omega
  · obtain ⟨hsps, hpps⟩ : t.gotSps = true ∧ t.gotPps = true := by simpa using hboth
    exact hnot ⟨(hr.gotSps.mp hsps).mono (by omega), (hr.gotPps.mp hpps).mono (by omega)⟩

end EsScan

/-! ## The result -/

open EsScan

variable {m m' : RtspMediaStream} {fresh : H264Nalu} {payloadType timeBase : ℤ} {ok : Bool}

theorem toInt_of_lt {n : ℕ} (h : n < 2 ^ 31) : toInt n = n :=
  Int.bmod_eq_of_le (by norm_num) (by norm_num; omega)

/-- `createFromEs` comes to its end, and gives `true`, if the loop does. -/
theorem createFromFile_ok {fuel : ℕ} (hne : stream ≠ [])
    (hrun : m.createFromFile fresh fuel stream payloadType timeBase = .ok (m', ok)) :
    ok = true ∧ ∃ t, EsScan.loop fresh fuel (start fresh stream) = .ok t ∧
      h264SdpCreate t.sps.buffer (toInt t.sps.len) t.pps.buffer (toInt t.pps.len)
        payloadType timeBase = .ok m'.sdp := by
  rw [RtspMediaStream.createFromFile, RtspMediaStream.loadEs, if_neg hne] at hrun
  obtain ⟨outcome, hload, hrun⟩ := bind_eq_ok.mp hrun
  obtain ⟨t, ht, hload⟩ := bind_eq_ok.mp hload
  obtain ⟨sdp, hsdp, hload⟩ := bind_eq_ok.mp hload
  obtain rfl := Except.ok.inj hload
  obtain ⟨rfl, rfl⟩ := Prod.mk.inj (Except.ok.inj hrun)
  exact ⟨rfl, t, ht, hsdp⟩

/-- A file with parameter sets is loaded. -/
theorem scanReports_of_hasParameterSets (m : RtspMediaStream) (fresh : H264Nalu)
    (payloadType timeBase : ℤ) (hsets : HasParameterSets stream) :
    ScanReports m fresh stream payloadType timeBase := by
  have hne : stream ≠ [] := by
    rintro rfl
    obtain ⟨q, b, hq, -⟩ := hsets.sps
    rw [List.length_nil] at hq
    omega
  refine ⟨fun s hs hgo => ?_, ?_⟩
  -- each call takes at least a start code
  · obtain ⟨r, hr⟩ := hs.scanned hsets.begins
    obtain ⟨long, e, hcode, hcall, hend⟩ := hr.reads hsets hgo
    have hthree := three_le_length_startCode long
    have hpos := hend.le
    refine ⟨_, e, hcall, by omega, ?_⟩
    rw [hr.data]
    exact hend.le_length
  · have hfuel : stream.length < 0 + (stream.length + 1) := by omega
    obtain ⟨t, ht, hsps, hpps⟩ :=
      (scanned_start hsets.begins : Scanned fresh stream _ 0).loop hsets hfuel
    obtain ⟨sdp, hsdp⟩ := h264SdpCreate_isOk t.sps.buffer t.pps.buffer payloadType timeBase
    -- the lengths are those of the buffers, and fit the `int`
    have hint : h264SdpCreate t.sps.buffer (toInt t.sps.len) t.pps.buffer (toInt t.pps.len)
        payloadType timeBase = .ok sdp := by
      rw [toInt_of_lt hsps.lt, toInt_of_lt hpps.lt, hsps.len, hpps.len]
      exact hsdp
    refine ⟨stream.length + 1, (m.createFromEs (.loaded sdp)).1, true, ?_, ?_, fun _ => ?_⟩
    · rw [RtspMediaStream.createFromFile, RtspMediaStream.loadEs, if_neg hne, ht, ok_bind, hint]
      rfl
    · exact iff_of_true rfl ⟨⟨_, hsps.found, hsps.nalUnitType⟩, _, hpps.found, hpps.nalUnitType⟩
    · exact ⟨_, _, hsps.found, hsps.nalUnitType, hpps.found, hpps.nalUnitType, hsdp⟩

/-- **The loop ends and reports exactly for the files with parameter sets.** -/
theorem scanReports_iff (m : RtspMediaStream) (fresh : H264Nalu) (payloadType timeBase : ℤ)
    (hne : stream ≠ []) :
    ScanReports m fresh stream payloadType timeBase ↔ HasParameterSets stream := by
  refine ⟨fun h => ?_, scanReports_of_hasParameterSets m fresh payloadType timeBase⟩
  have hbegins : Begins stream := by
    by_contra hnot
    -- the first call would take no bytes
    have hgo : (start fresh stream).going = true := by
      rw [going, Bool.and_eq_true, decide_eq_true_eq]
      exact ⟨List.length_pos_of_ne_nil hne, rfl⟩
    obtain ⟨nalu, n, hcall, hpos, -⟩ := h.progress _ .refl hgo
    rcases fresh.getAnnexbNalu_of_not_begins hnot with hzero | ⟨fault, hfault⟩
    · obtain ⟨-, rfl⟩ := Prod.mk.inj (Except.ok.inj (hzero.symm.trans hcall))
      omega
    · cases hfault.symm.trans hcall
  obtain ⟨fuel, m', ok, hrun, hfound, -⟩ := h.result
  obtain ⟨rfl, t, ht, -⟩ := createFromFile_ok hne hrun
  obtain ⟨⟨sps, hsps, htype⟩, pps, hpps, htype'⟩ := hfound.mp rfl
  exact ⟨hbegins, hsps.unitBefore hbegins htype (by decide),
    hpps.unitBefore hbegins htype' (by decide), not_overruns hbegins ht⟩

/-- The bytes of an SPS and a PPS. -/
def twoSets : Bytes := [0, 0, 0, 1, 0x67, 0x42, 0, 0, 1, 0x68, 0xCE]

theorem hasParameterSets_twoSets : HasParameterSets twoSets where
  begins := ⟨true, by decide⟩
  sps := ⟨1, 0x67, by decide⟩
  pps := ⟨6, 0x68, by decide⟩
  fits := not_overruns_of_length_lt (by decide)

theorem scanReports_twoSets :
    ScanReports ⟨[], ⟨96, 90000, 0, 0, 0, 0, 0⟩, [], none, false⟩ {} twoSets 96 90000 :=
  (scanReports_iff _ _ _ _ (by decide)).mpr hasParameterSets_twoSets

/-- For a file without a start code at the front no call takes any bytes. -/
theorem not_scanReports_hello :
    ¬ ∀ (m : RtspMediaStream) (fresh : H264Nalu) (stream : Bytes) (payloadType timeBase : ℤ),
      stream ≠ [] → ScanReports m fresh stream payloadType timeBase := by
  intro h
  have hreport := h ⟨[], ⟨96, 90000, 0, 0, 0, 0, 0⟩, [], none, false⟩ {} (ofString "hello")
    96 90000 (by decide)
  obtain ⟨nalu, n, hcall, hpos, -⟩ := hreport.progress _ .refl (by decide)
  have hzero : (({} : H264Nalu).getAnnexbNalu (ofString "hello")) = .ok ({}, 0) := by decide
  obtain ⟨-, rfl⟩ := Prod.mk.inj (Except.ok.inj (hzero.symm.trans hcall))
  omega

end CppServerStudio
