import CppServerStudio.Rtsp.AnnexB

/-!
# Start codes in arbitrary bytes

`H264Nalu::get_annexb_nalu` is called for whatever bytes a file has. It looks for the first start
code only at the front. The unit behind it ends at the next start code, of which the last four bytes
are not looked at again, or at the end of the bytes. A few zeros alone make the call read past the
terminating NUL, and a unit may be too long for an `int`.

## Main definitions

* `Begins`: a start code stands at the front
* `UnitEnd`, `Overlong`: where a unit ends, and that no `int` reaches its end

## Main results

* `H264Nalu.getAnnexbNalu_cases`: one call on bytes with a start code at the front
* `H264Nalu.getAnnexbNalu_of_not_begins`: one call on other bytes
-/

namespace CppServerStudio

open Scanning

/-- A start code stands at the front. -/
def Begins (s : Bytes) : Prop := ∃ long, startCode long <+: s

variable {data code s : Bytes} {i : ℕ}

theorem getLast_startCode (long : Bool) : ∃ front, startCode long = front ++ [1] := by
  cases long
  · exact ⟨[0, 0], rfl⟩
  · exact ⟨[0, 0, 0], rfl⟩

/-! ## Tests -/

theorem charAt_of_drop {b : Byte} (h : (data ++ [NUL]).drop i = b :: s) :
    charAt data i = .ok b ∧ (data ++ [NUL]).drop (i + 1) = s := by
  have hlt : i < (data ++ [NUL]).length := by
    by_contra hge
    rw [List.drop_eq_nil_of_le (by omega)] at h
    cases h
  rw [List.drop_eq_getElem_cons hlt] at h
  obtain ⟨hb, hs⟩ := List.cons.inj h
  rw [List.length_append, List.length_singleton] at hlt
  refine ⟨?_, hs⟩
  rw [charAt, if_pos (by omega), ← hb, ← List.getD_eq_getElem _ NUL]
  rcases Nat.lt_or_ge i data.length with hi | hi
  · rw [List.getD_append _ _ _ _ hi]
  · obtain rfl : i = data.length := by omega
    rw [List.getD_append_right _ _ _ _ hi, List.getD_eq_default _ _ hi, Nat.sub_self]
    rfl

theorem charAt_of_drop_nil (h : (data ++ [NUL]).drop i = []) :
    charAt data i = .error .overread := by
  have hlen := List.drop_eq_nil_iff.mp h
  rw [List.length_append, List.length_singleton] at hlen
  exact if_neg (by omega)

/-- **A test for a code** goes through the bytes up to the NUL, and past it if these are the
beginning of the code. -/
theorem matchAt_cases (data : Bytes) (i : ℕ) (code : Bytes) :
    (matchAt data i code = .ok true ∧ code <+: (data ++ [NUL]).drop i) ∨
    (matchAt data i code = .ok false ∧ ¬ code <+: (data ++ [NUL]).drop i) ∨
    (matchAt data i code = .error .overread ∧ (data ++ [NUL]).drop i <+: code) := by
  -- Induction on the bytes of the code.
  induction code generalizing i with
  | nil => exact .inl ⟨rfl, List.nil_prefix⟩
  | cons b code ih =>
    rw [matchAt]
    cases hs : (data ++ [NUL]).drop i with
    | nil =>
      rw [charAt_of_drop_nil hs]
      exact .inr (.inr ⟨rfl, List.nil_prefix⟩)
    | cons c s =>
      obtain ⟨hchar, hrest⟩ := charAt_of_drop hs
      rw [hchar, ok_bind]
      by_cases hc : c = b
      · subst hc
        rw [if_pos rfl, List.cons_prefix_cons, List.cons_prefix_cons]
        simpa [hrest] using ih (i + 1)
      · rw [if_neg hc, List.cons_prefix_cons]
        exact .inr (.inl ⟨rfl, fun h => hc h.1.symm⟩)

theorem drop_concat (hi : i ≤ data.length) : (data ++ [NUL]).drop i = data.drop i ++ [NUL] :=
  List.drop_append_of_le_length hi

/-- The NUL is no part of a start code. -/
theorem startCode_prefix_concat (long : Bool) :
    startCode long <+: s ++ [NUL] ↔ startCode long <+: s := by
  obtain ⟨front, hfront⟩ := getLast_startCode long
  rw [List.prefix_concat_iff, or_iff_right]
  intro h
  rw [hfront] at h
  exact absurd (List.append_inj' h rfl).2 (by decide)

/-- Bytes that run into a start code with their NUL are zeros. -/
theorem prefix_zeros {long : Bool} (h : s ++ [NUL] <+: startCode long) : s <+: [0, 0] := by
  have hpre : s <+: startCode long := (List.prefix_append s [NUL]).trans h
  have hlen := h.length_le
  have hne : s ++ [NUL] ≠ startCode long := by
    intro heq
    obtain ⟨front, hfront⟩ := getLast_startCode long
    rw [hfront] at heq
    exact absurd (List.append_inj' heq rfl).2 (by decide)
  have hlt : (s ++ [NUL]).length < (startCode long).length :=
    lt_of_le_of_ne hlen fun heq => hne (h.eq_of_length heq)
  rw [List.length_append, List.length_singleton] at hlt
  have hfour := length_startCode long
  cases long with
  | false =>
    have hthree : (startCode false).length = 3 := rfl
    exact List.prefix_of_prefix_length_le hpre ⟨[1], rfl⟩ (by simp; omega)
  | true => exact List.prefix_of_prefix_length_le hpre ⟨[0, 1], rfl⟩ (by simp; omega)

/-- **The test of both loops**: whether a start code is there. -/
theorem noneAt_cases (hi : i ≤ data.length) (long : Bool) :
    (noneAt data i (startCode long) (startCode !long) = .ok false ∧ Begins (data.drop i)) ∨
    (noneAt data i (startCode long) (startCode !long) = .ok true ∧ ¬ Begins (data.drop i)) ∨
    (noneAt data i (startCode long) (startCode !long) = .error .overread ∧
      data.drop i <+: [0, 0]) := by
  have hfirst := matchAt_cases data i (startCode long)
  have hsecond := matchAt_cases data i (startCode !long)
  rw [drop_concat hi, startCode_prefix_concat] at hfirst hsecond
  rw [noneAt]
  rcases hfirst with ⟨hmatch, hcode⟩ | ⟨hmatch, hcode⟩ | ⟨hmatch, hcode⟩
  -- the first test decides, unless it fails inside the bytes
  · rw [hmatch, ok_bind, if_pos rfl]
    exact .inl ⟨rfl, long, hcode⟩
  · rw [hmatch, ok_bind, if_neg Bool.false_ne_true]
    rcases hsecond with ⟨hmatch', hcode'⟩ | ⟨hmatch', hcode'⟩ | ⟨hmatch', hcode'⟩
    · rw [hmatch', ok_bind]
      exact .inl ⟨rfl, _, hcode'⟩
    · rw [hmatch', ok_bind]
      -- both tests fail, and there is no third code
      refine .inr (.inl ⟨rfl, ?_⟩)
      rintro ⟨other, hother⟩
      rcases Bool.eq_or_eq_not other long with rfl | rfl
      · exact hcode hother
      · exact hcode' hother
    · rw [hmatch']
      exact .inr (.inr ⟨rfl, prefix_zeros hcode'⟩)
  · rw [hmatch]
    exact .inr (.inr ⟨rfl, prefix_zeros hcode⟩)

/-! ## The end of a unit -/

/-- **A unit ends** at `e`, for the second loop that begins at `i`: at the first start code that the
loop looks at, or at the end of the bytes, and the `int` gets there. -/
structure UnitEnd (data : Bytes) (i e : ℕ) : Prop where
  le : i ≤ e
  le_length : e ≤ data.length
  noCode : ∀ j, i ≤ j → j < e → j = i ∨ j + 3 < data.length → ¬ Begins (data.drop j)
  ends : Begins (data.drop e) ∧ (e = i ∨ e + 3 < 2 ^ 31) ∨
    e = data.length ∧ data.length < 2 ^ 31

/-- No start code comes before the `int` is too small. -/
def Overlong (data : Bytes) (i : ℕ) : Prop :=
  2 ^ 31 ≤ data.length ∧ ∀ j, i ≤ j → j + 4 ≤ 2 ^ 31 → ¬ Begins (data.drop j)

namespace H264Nalu

/-- **The second loop** on any bytes. -/
theorem endLoop_cases {fuel : ℕ} (hi : i ≤ data.length) (hfuel : data.length < i + fuel)
    (hint : i + 4 < 2 ^ 31 ∨ i + 3 < data.length) :
    (∃ e, endLoop data fuel i = .ok e ∧ UnitEnd data i e) ∨
    (endLoop data fuel i = .error .overread ∧ data.drop i <+: [0, 0]) ∨
    (endLoop data fuel i = .error .intOverflow ∧ Overlong data i) := by
  -- Induction on the number of turns left.
  induction fuel generalizing i with
  | zero => omega
  | succ fuel ih =>
    have htest : (noneAt data i startCode4 startCode3 = .ok false ∧ Begins (data.drop i)) ∨
        (noneAt data i startCode4 startCode3 = .ok true ∧ ¬ Begins (data.drop i)) ∨
        (noneAt data i startCode4 startCode3 = .error .overread ∧ data.drop i <+: [0, 0]) :=
      noneAt_cases hi true
    rw [endLoop]
    rcases htest with ⟨hnone, hcode⟩ | ⟨hnone, hcode⟩ | ⟨hnone, hzeros⟩
    · rw [hnone, ok_bind]
      refine .inl ⟨i, rfl, le_rfl, hi, fun j hj hlt => absurd hj (by omega), ?_⟩
      exact .inl ⟨hcode, .inl rfl⟩
    · rw [hnone, ok_bind, if_pos rfl]
      by_cases hover : 2 ^ 31 ≤ i + 4
      · rw [if_pos hover]
        refine .inr (.inr ⟨rfl, by omega, fun j hj hle => ?_⟩)
        obtain rfl : j = i := by omega
        exact hcode
      rw [if_neg hover]
      by_cases hend : data.length ≤ i + 4
      · -- fewer than four bytes are left
        rw [if_pos hend]
        refine .inl ⟨_, rfl, hi, le_rfl, fun j hj _ hlook => ?_, .inr ⟨rfl, by omega⟩⟩
        obtain rfl : j = i := by omega
        exact hcode
      rw [if_neg hend]
      rcases ih (i := i + 1) (by omega) (by omega) (.inr (by omega)) with
        ⟨e, hrun, he⟩ | ⟨-, hzeros⟩ | ⟨hrun, hlong, hno⟩
      · refine .inl ⟨e, hrun, (Nat.le_succ i).trans he.le, he.le_length, fun j hj hlt _ => ?_, ?_⟩
        · rcases Nat.eq_or_lt_of_le hj with rfl | hj
          · exact hcode
          · exact he.noCode j hj hlt (by omega)
        · exact he.ends.imp (fun h => ⟨h.1, .inr (h.2.elim (by omega) id)⟩) id
      · have hlen := hzeros.length_le
        rw [List.length_drop] at hlen
        simp only [List.length_cons, List.length_nil] at hlen
        omega
      · refine .inr (.inr ⟨hrun, hlong, fun j hj hle => ?_⟩)
        rcases Nat.eq_or_lt_of_le hj with rfl | hj
        · exact hcode
        · exact hno j hj hle
    · rw [hnone]
      exact .inr (.inl ⟨rfl, hzeros⟩)

/-! ## One call -/

/-- Without a start code at the front the first loop finds none. -/
theorem startLoop_of_not_begins (h : ¬ Begins data) (fuel : ℕ) (i : ℕ) :
    startLoop data fuel i = .ok none ∨ ∃ fault, startLoop data fuel i = .error fault := by
  have htest := noneAt_cases (Nat.zero_le data.length) false
  rw [List.drop_zero] at htest
  induction fuel generalizing i with
  | zero => exact .inr ⟨_, rfl⟩
  | succ fuel ih =>
    rw [startLoop]
    rcases htest with ⟨-, hcode⟩ | ⟨hnone, -⟩ | ⟨hnone, -⟩
    · exact absurd hcode h
    · change noneAt data 0 startCode3 startCode4 = _ at hnone
      rw [hnone, ok_bind, if_pos rfl]
      split_ifs
      · exact .inr ⟨_, rfl⟩
      · exact .inl rfl
      · exact ih (i + 1)
    · change noneAt data 0 startCode3 startCode4 = _ at hnone
      rw [hnone]
      exact .inr ⟨_, rfl⟩

/-- **A call without a start code at the front** returns 0, unless it fails. -/
theorem getAnnexbNalu_of_not_begins (nalu : H264Nalu) (h : ¬ Begins data) :
    nalu.getAnnexbNalu data = .ok (nalu, 0) ∨
      ∃ fault, nalu.getAnnexbNalu data = .error fault := by
  rw [getAnnexbNalu]
  rcases startLoop_of_not_begins h (data.length + 1) 0 with hrun | ⟨fault, hrun⟩
  · exact .inl (by rw [hrun, ok_bind])
  · exact .inr ⟨fault, by rw [hrun, error_bind]⟩

/-- The unit between two positions. -/
theorem getAnnexbNalu_eq (nalu : H264Nalu) {long : Bool} (h : startCode long <+: data) :
    nalu.getAnnexbNalu data =
      endLoop data (data.length + 1) (startCode long).length >>= fun e =>
        if (startCode long).length ≤ e ∧ e ≤ data.length then
          .ok (nalu.fill (data.extract (startCode long).length e), e)
        else .error .overread := by
  obtain ⟨tail, rfl⟩ := h
  have hstart : startLoop (startCode long ++ tail) ((startCode long ++ tail).length + 1) 0 =
      .ok (some 0) := by
    rw [startLoop, noneAt_start tail long]
    rfl
  have hshort : matchAt (startCode long ++ tail) 0 startCode3 = .ok !long :=
    matchAt_startCode3 [] tail long
  rw [getAnnexbNalu, hstart, ok_bind]
  simp only [hshort, ok_bind, Bool.not_eq_true', Nat.zero_add]
  -- the code of three bytes at the end of the start code
  cases long with
  | false =>
    have hcode : matchAt (startCode false ++ tail) 0 startCode3 = .ok true :=
      matchAt_append [] startCode3 tail
    rw [if_pos rfl, hcode, ok_bind, if_pos rfl]
    rfl
  | true =>
    have hcode : matchAt (startCode true ++ tail) 1 startCode3 = .ok true :=
      matchAt_append [0] startCode3 tail
    rw [if_neg (by decide : ¬ true = false), hcode, ok_bind, if_pos rfl]
    rfl

/-- **One call** with a start code at the front cuts off the unit behind it, unless that has a few
zeros only, or is too long. -/
theorem getAnnexbNalu_cases (nalu : H264Nalu) {long : Bool} (h : startCode long <+: data) :
    (∃ e, nalu.getAnnexbNalu data =
        .ok (nalu.fill (data.extract (startCode long).length e), e) ∧
      UnitEnd data (startCode long).length e) ∨
    (nalu.getAnnexbNalu data = .error .overread ∧
      data.drop (startCode long).length <+: [0, 0]) ∨
    (nalu.getAnnexbNalu data = .error .intOverflow ∧ Overlong data (startCode long).length) := by
  have hfour := length_startCode long
  have hfuel : data.length < (startCode long).length + (data.length + 1) := by omega
  rw [nalu.getAnnexbNalu_eq h]
  rcases endLoop_cases h.length_le hfuel (.inl (by omega)) with
    ⟨e, hrun, he⟩ | ⟨hrun, hzeros⟩ | ⟨hrun, hlong⟩
  · rw [hrun, ok_bind, if_pos ⟨he.le, he.le_length⟩]
    exact .inl ⟨e, rfl, he⟩
  · rw [hrun]
    exact .inr (.inl ⟨rfl, hzeros⟩)
  · rw [hrun]
    exact .inr (.inr ⟨rfl, hlong⟩)

end H264Nalu

/-! ## Framed units -/

/-- **A unit fits** if the `int` gets to the end of the start code behind it. -/
def NalUnit.Fits (unit : NalUnit) : Prop := unit.bytes.length + 8 ≤ 2 ^ 31

theorem NalUnit.not_begins (unit : NalUnit) (pre rest : Bytes) {j : ℕ}
    (hj : j < unit.bytes.length) :
    ¬ Begins ((pre ++ (unit.bytes ++ rest)).drop (pre.length + j)) := by
  have hlen : pre.length + j ≤ (pre ++ (unit.bytes ++ rest)).length := by
    simp only [List.length_append]
    omega
  have htest : noneAt (pre ++ (unit.bytes ++ rest)) (pre.length + j) startCode4 startCode3 =
      .ok true := unit.noneAt_inside pre rest hj
  rcases noneAt_cases hlen true with ⟨hnone, -⟩ | ⟨-, hcode⟩ | ⟨hnone, -⟩
  · cases htest.symm.trans hnone
  · exact hcode
  · cases htest.symm.trans hnone

theorem Follows.begins {rest : Bytes} (h : Follows rest) :
    rest = [] ∨ Begins rest ∧ 3 < rest.length := by
  cases h with
  | nil => exact .inl rfl
  | @frame long tail htail =>
    have hpos := List.length_pos_of_ne_nil htail
    have hthree : 3 ≤ (startCode long).length := by cases long <;> decide
    refine .inr ⟨⟨long, List.prefix_append _ _⟩, ?_⟩
    rw [List.length_append]
    omega

/-- **One call** gives the first unit, and where it ends, whatever the length of the stream. -/
theorem H264Nalu.getAnnexbNalu_unit (nalu : H264Nalu) (long : Bool) {unit : NalUnit}
    (hfits : unit.Fits) {rest : Bytes} (hrest : Follows rest) :
    nalu.getAnnexbNalu (startCode long ++ (unit.bytes ++ rest)) =
      .ok (nalu.fill unit.bytes, (startCode long).length + unit.bytes.length) := by
  have hfour := length_startCode long
  have hpos := unit.length_pos
  have hlen : (startCode long ++ (unit.bytes ++ rest)).length =
      (startCode long).length + (unit.bytes.length + rest.length) := by simp
  have hbehind : (startCode long ++ (unit.bytes ++ rest)).drop
      ((startCode long).length + unit.bytes.length) = rest := by
    rw [← List.drop_drop, List.drop_left, List.drop_left]
  rw [NalUnit.Fits] at hfits
  rcases nalu.getAnnexbNalu_cases (List.prefix_append (startCode long) (unit.bytes ++ rest)) with
    ⟨e, hcall, hend⟩ | ⟨-, hzeros⟩ | ⟨-, hlong, hno⟩
  · obtain rfl : e = (startCode long).length + unit.bytes.length := by
      have hle := hend.le
      have hle' := hend.le_length
      rcases Nat.lt_trichotomy e ((startCode long).length + unit.bytes.length) with
        hlt | heq | hgt
      · -- there is no start code inside the unit
        obtain ⟨j, rfl⟩ := Nat.exists_eq_add_of_le hle
        rcases hend.ends with ⟨hcode, -⟩ | ⟨hlast, -⟩
        · exact absurd hcode (unit.not_begins _ rest (by omega))
        · omega
      · exact heq
      · -- the loop sees the start code behind the unit
        rcases hrest.begins with rfl | ⟨hcode, hthree⟩
        · rw [List.length_nil] at hlen
          omega
        · refine absurd ?_ (hend.noCode _ (Nat.le_add_right _ _) hgt (.inr (by omega)))
          rwa [hbehind]
    rw [hcall]
    simp [List.extract_eq_take_drop]
  · -- the first byte of a unit is no zero
    rw [List.drop_left] at hzeros
    obtain ⟨b, bs, hunit⟩ := List.exists_cons_of_ne_nil unit.ne_nil
    have hhead := unit.head_ne
    simp only [hunit, List.head_cons] at hhead
    rw [hunit, List.cons_append, List.cons_prefix_cons] at hzeros
    exact absurd hzeros.1 hhead
  · rcases hrest.begins with rfl | ⟨hcode, -⟩
    · rw [List.length_nil] at hlen
      omega
    · refine absurd ?_
        (hno ((startCode long).length + unit.bytes.length) (Nat.le_add_right _ _) (by omega))
      rwa [hbehind]

end CppServerStudio
