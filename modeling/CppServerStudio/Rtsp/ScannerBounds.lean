import CppServerStudio.Rtsp.FileScan

/-!
# The bounds of the scanner

Both loops of `get_annexb_nalu` look for a start code before they compare a position with the size.
A test that runs into the end of the bytes goes on past the terminating NUL as long as these are the
beginning of a start code, which the last zeros of a file are.

## Main definitions

* `H264Nalu.ScansInBounds`: a call reads no byte outside, and gives a piece of the bytes
* `Scannable`: the bytes that can be scanned

## Main results

* `noneAt_of_zeros`: a test at the last zeros reads past the NUL
* `H264Nalu.scansInBounds_iff`: the calls that stay in bounds
-/

namespace CppServerStudio

open Scanning

variable {data code : Bytes} {i : ℕ}

/-- **A call stays in bounds**: no read is past the terminating NUL, the result is at most the size,
and unless it is 0, the unit is a piece of the bytes with the length that is kept. -/
def H264Nalu.ScansInBounds (nalu : H264Nalu) (data : Bytes) : Prop :=
  ∃ nalu' n, nalu.getAnnexbNalu data = .ok (nalu', n) ∧ n ≤ data.length ∧
    (n ≠ 0 → nalu'.len = nalu'.buffer.length ∧ nalu'.buffer <:+: data)

/-- **The bytes that can be scanned**: behind a start code at the front there is more than two zeros
at most, and its unit is not too long for an `int`; without one, the bytes are not one or two zeros
alone, and an `int` gets past their end. -/
structure Scannable (data : Bytes) : Prop where
  begins : ∀ long, startCode long <+: data →
    ¬ data.drop (startCode long).length <+: [0, 0] ∧ ¬ Overlong data (startCode long).length
  other : ¬ Begins data → ¬ data <+: [0, 0] ∧ data.length + 1 < 2 ^ 31

/-! ## Tests at the end -/

/-- A test for a code that the last bytes are the beginning of reads past the NUL. -/
theorem matchAt_of_prefix (h : (data ++ [NUL]).drop i <+: code)
    (hne : (data ++ [NUL]).drop i ≠ code) : matchAt data i code = .error .overread := by
  -- Induction on the bytes of the code.
  induction code generalizing i with
  | nil => exact absurd (List.prefix_nil.mp h) hne
  | cons b code ih =>
    rw [matchAt]
    cases hs : (data ++ [NUL]).drop i with
    | nil =>
      rw [charAt_of_drop_nil hs]
      rfl
    | cons c s =>
      obtain ⟨hchar, hrest⟩ := charAt_of_drop hs
      rw [hs, List.cons_prefix_cons] at h
      obtain ⟨rfl, h⟩ := h
      rw [hchar, ok_bind, if_pos rfl]
      refine ih (by rwa [hrest]) ?_
      rw [hrest]
      rintro rfl
      exact hne hs

/-- At most two zeros, with the NUL, are the beginning of both codes, or the NUL is the only
byte. -/
theorem prefix_startCode_of_zeros {s : Bytes} (h : s <+: [0, 0]) :
    s ++ [NUL] <+: startCode true ∧ ¬ startCode false <+: s ++ [NUL] ∧ s ++ [NUL] ≠ startCode true ∧
      (s.length ≤ 1 → s ++ [NUL] <+: startCode false) := by
  have hlen := h.length_le
  obtain ⟨n, rfl⟩ : ∃ n, s = List.replicate n 0 := by
    refine ⟨s.length, List.eq_replicate_of_mem fun b hb => ?_⟩
    have hmem := h.subset hb
    simpa using hmem
  rw [List.length_replicate, List.length_cons, List.length_cons, List.length_nil] at hlen
  interval_cases n <;> decide

/-- **A test at the last zeros** reads past the NUL, whichever code it looks for first. -/
theorem noneAt_of_zeros (hi : i ≤ data.length) (h : data.drop i <+: [0, 0]) (long : Bool) :
    noneAt data i (startCode long) (startCode !long) = .error .overread := by
  obtain ⟨hlong, hshort, hne, hfew⟩ := prefix_startCode_of_zeros h
  rw [← drop_concat hi] at hlong hshort hne hfew
  have hover : matchAt data i (startCode true) = .error .overread := matchAt_of_prefix hlong hne
  rw [noneAt]
  cases long with
  | true => rw [hover, error_bind]
  | false =>
    -- the short code is not there, so the test fails, or goes past the NUL itself
    rcases matchAt_cases data i (startCode false) with ⟨-, hcode⟩ | ⟨hmatch, -⟩ | ⟨hmatch, -⟩
    · exact absurd hcode hshort
    · rw [hmatch, ok_bind, if_neg Bool.false_ne_true]
      change matchAt data i (startCode true) >>= _ = _
      rw [hover, error_bind]
    · rw [hmatch, error_bind]

/-- There is one start code at the front. -/
theorem startCode_inj {long long' : Bool} (h : startCode long <+: data)
    (h' : startCode long' <+: data) : long = long' := by
  have hthree := three_le_length_startCode long
  have hthree' := three_le_length_startCode long'
  have hover := @startCode_overlap _ _ long' 0 h h' (by omega)
  have hover' := @startCode_overlap _ _ long 0 h' h (by omega)
  have hlen : (startCode long).length = (startCode long').length := by omega
  revert hlen
  cases long <;> cases long' <;> decide

/-! ## The first loop -/

namespace H264Nalu

/-- Without a start code at the front, the first loop goes through the bytes if an `int` can. -/
theorem startLoop_none_iff (h : ¬ Begins data) (hzeros : ¬ data <+: [0, 0]) {fuel : ℕ}
    (hi : i + 5 ≤ data.length + 1 ∨ i = 0) (hfuel : data.length < i + fuel) :
    startLoop data fuel i = .ok none ↔ data.length + 1 < 2 ^ 31 := by
  have hnone : noneAt data 0 startCode3 startCode4 = .ok true := by
    have htest := noneAt_cases (Nat.zero_le data.length) false
    rw [List.drop_zero] at htest
    rcases htest with ⟨-, hcode⟩ | ⟨hnone, -⟩ | ⟨-, hend⟩
    · exact absurd hcode h
    · exact hnone
    · exact absurd hend hzeros
  -- Induction on the number of turns left.
  induction fuel generalizing i with
  | zero => omega
  | succ fuel ih =>
    rw [startLoop, hnone, ok_bind, if_pos rfl]
    split_ifs with hover hend
    · refine iff_of_false (fun hrun => ?_) ?_
      · cases hrun
      · omega
    · refine iff_of_true rfl ?_
      omega
    · apply ih
      · omega
      · omega

/-! ## The calls that stay in bounds -/

/-- A call with a start code at the front stays in bounds unless it fails. -/
theorem scansInBounds_of_begins (nalu : H264Nalu) {long : Bool} (h : startCode long <+: data) :
    nalu.ScansInBounds data ↔ ¬ data.drop (startCode long).length <+: [0, 0] ∧
      ¬ Overlong data (startCode long).length := by
  constructor
  · rintro ⟨nalu', n, hcall, -⟩
    constructor
    · intro hzeros
      -- the first test behind the code is already past the NUL
      have hover : endLoop data (data.length + 1) (startCode long).length = .error .overread := by
        have hnone : noneAt data (startCode long).length startCode4 startCode3 = .error .overread :=
          noneAt_of_zeros h.length_le hzeros true
        rw [endLoop, hnone, error_bind]
      rw [nalu.getAnnexbNalu_eq h, hover] at hcall
      cases hcall
    · intro hlong
      rcases nalu.getAnnexbNalu_cases h with ⟨e, -, hend⟩ | ⟨hfail, -⟩ | ⟨hfail, -⟩
      · have hthree := three_le_length_startCode long
        have hle := hend.le
        have hfront : startCode long <+: data.drop 0 := h
        exact hend.not_overlong h (by omega) hfront hlong
      · cases hfail.symm.trans hcall
      · cases hfail.symm.trans hcall
  · rintro ⟨hzeros, hlong⟩
    rcases nalu.getAnnexbNalu_cases h with ⟨e, hcall, hend⟩ | ⟨-, hend⟩ | ⟨-, hend⟩
    · refine ⟨_, e, hcall, hend.le_length, fun _ => ⟨rfl, ?_⟩⟩
      rw [List.extract_eq_take_drop]
      exact (List.take_prefix _ _).isInfix.trans (List.drop_suffix _ _).isInfix
    · exact absurd hend hzeros
    · exact absurd hend hlong

/-- A call without a start code at the front stays in bounds if the first loop ends. -/
theorem scansInBounds_of_not_begins (nalu : H264Nalu) (h : ¬ Begins data) :
    nalu.ScansInBounds data ↔ startLoop data (data.length + 1) 0 = .ok none := by
  constructor
  · rintro ⟨nalu', n, hcall, -⟩
    rcases startLoop_of_not_begins h (data.length + 1) 0 with hrun | ⟨fault, hrun⟩
    · exact hrun
    · rw [getAnnexbNalu, hrun, error_bind] at hcall
      cases hcall
  · intro hrun
    refine ⟨nalu, 0, ?_, Nat.zero_le _, fun hne => absurd rfl hne⟩
    rw [getAnnexbNalu, hrun, ok_bind]

/-- **The calls that stay in bounds** are those on bytes that can be scanned. -/
theorem scansInBounds_iff (nalu : H264Nalu) (data : Bytes) :
    nalu.ScansInBounds data ↔ Scannable data := by
  -- the second loop decides behind a code, the first one where there is none
  by_cases hbegins : Begins data
  · obtain ⟨long, hcode⟩ := hbegins
    rw [nalu.scansInBounds_of_begins hcode]
    constructor
    · intro hscan
      refine ⟨fun long' hcode' => ?_, fun hother => absurd ⟨long, hcode⟩ hother⟩
      rwa [startCode_inj hcode' hcode]
    · intro hscan
      exact hscan.begins long hcode
  · rw [nalu.scansInBounds_of_not_begins hbegins]
    constructor
    · intro hrun
      refine ⟨fun long hcode => absurd ⟨long, hcode⟩ hbegins, fun _ => ?_⟩
      have hzeros : ¬ data <+: [0, 0] := by
        intro hzeros
        have hnone : noneAt data 0 startCode3 startCode4 = .error .overread :=
          noneAt_of_zeros (Nat.zero_le _) hzeros false
        rw [startLoop, hnone, error_bind] at hrun
        cases hrun
      exact ⟨hzeros, (startLoop_none_iff hbegins hzeros (.inr rfl) (by omega)).mp hrun⟩
    · intro hscan
      obtain ⟨hzeros, hlen⟩ := hscan.other hbegins
      exact (startLoop_none_iff hbegins hzeros (.inr rfl) (by omega)).mpr hlen

/-- A start code with nothing behind it is read past its NUL. -/
theorem not_scansInBounds : ¬ ∀ (nalu : H264Nalu) (data : Bytes), data ≠ [] →
    nalu.ScansInBounds data := by
  intro h
  obtain ⟨nalu, n, hcall, -⟩ := h {} startCode3 (by decide)
  have hover : ({} : H264Nalu).getAnnexbNalu startCode3 = .error .overread := rfl
  cases hover.symm.trans hcall

end H264Nalu

end CppServerStudio
