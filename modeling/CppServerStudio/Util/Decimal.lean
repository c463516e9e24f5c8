import CppServerStudio.Util.Bytes

/-!
# Decimal numbers

`atoi` reads back what `std::to_string` writes, for the numbers of an `int`.

## Main results

* `atoi_decimalInt`: `atoi` inverts `std::to_string`
* `sscanfU16_decimal`: so does `sscanf` for a port
-/

namespace CppServerStudio

/-- The byte of a digit. -/
theorem isDigit_toUInt8 {c : Char} (hc : c.isDigit = true) :
    isDigit c.toNat.toUInt8 = true ∧ c.toNat.toUInt8.toNat = c.toNat := by
  have hlow : 48 ≤ c.toNat := by
    have h := (Bool.and_eq_true_iff.mp hc).1
    exact of_decide_eq_true h
  have hhigh : c.toNat ≤ 57 := by
    have h := (Bool.and_eq_true_iff.mp hc).2
    exact of_decide_eq_true h
  have hnat : c.toNat.toUInt8.toNat = c.toNat := by
    rw [Nat.toUInt8, UInt8.toNat_ofNat']
    omega
  refine ⟨?_, hnat⟩
  rw [isDigit, Bool.and_eq_true, decide_eq_true_eq, decide_eq_true_eq, UInt8.le_iff_toNat_le,
    UInt8.le_iff_toNat_le, hnat]
  exact ⟨hlow, hhigh⟩

theorem isDigit_of_mem_decimal {n : ℕ} : ∀ b ∈ decimal n, isDigit b = true := by
  intro b hb
  obtain ⟨c, hc, rfl⟩ := List.mem_map.mp hb
  exact (isDigit_toUInt8 (Nat.isDigit_of_mem_toDigits (by decide) (by decide) hc)).1

/-- The digits of a text are read as a number. -/
theorem digitsValue_map {cs : List Char} (h : ∀ c ∈ cs, c.isDigit = true) (acc : ℕ) :
    digitsValue acc (cs.map fun c => c.toNat.toUInt8) = Nat.ofDigitChars 10 cs acc := by
  induction cs generalizing acc with
  | nil => rw [Nat.ofDigitChars_nil]; rfl
  | cons c cs ih =>
    obtain ⟨hdigit, hnat⟩ := isDigit_toUInt8 (h c List.mem_cons_self)
    rw [List.map_cons, digitsValue, if_pos hdigit, hnat, Nat.ofDigitChars_cons]
    exact ih (fun c hc => h c (List.mem_cons_of_mem _ hc)) _

theorem digitsValue_decimal (n : ℕ) : digitsValue 0 (decimal n) = n := by
  rw [decimal, digitsValue_map, Nat.ofDigitChars_ten_toDigits]
  intro c hc
  exact Nat.isDigit_of_mem_toDigits (by decide) (by decide) hc

/-- The digits of a number end at the first byte that is none. -/
theorem decimal_cons_inj {m n : ℕ} {b b' : Byte} {rest rest' : Bytes} (hb : isDigit b = false)
    (hb' : isDigit b' = false) (h : decimal m ++ b :: rest = decimal n ++ b' :: rest') :
    m = n := by
  have htake : ∀ (k : ℕ) {c : Byte} (tail : Bytes), isDigit c = false →
      (decimal k ++ c :: tail).takeWhile isDigit = decimal k := by
    intro k c tail hc
    rw [List.takeWhile_append_of_pos isDigit_of_mem_decimal, List.takeWhile_cons, hc,
      if_neg Bool.false_ne_true, List.append_nil]
  have hdigits : decimal m = decimal n := by rw [← htake m rest hb, h, htake n rest' hb']
  rw [← digitsValue_decimal m, hdigits, digitsValue_decimal]

/-- The last digit of a number stands behind those of its quotient by ten. -/
theorem decimal_eq (n : ℕ) :
    decimal n = (if n < 10 then [] else decimal (n / 10)) ++ [UInt8.ofNat (n % 10 + 48)] := by
  have hdigit : (Nat.digitChar (n % 10)).toNat.toUInt8 = UInt8.ofNat (n % 10 + 48) := by
    rw [Nat.toNat_digitChar_of_lt_ten (Nat.mod_lt n (by norm_num)), Nat.add_comm, Nat.toUInt8_eq]
  unfold decimal
  rw [Nat.toDigits_eq_if (by norm_num)]
  split
  · rename_i hlt
    rw [List.map_singleton, List.nil_append, ← hdigit, Nat.mod_eq_of_lt hlt]
  · rw [List.map_append, List.map_singleton, hdigit]

theorem decimal_ne_nil (n : ℕ) : decimal n ≠ [] := by
  intro h
  exact Nat.toDigits_ne_nil (List.map_eq_nil_iff.mp h)

/-- A digit is no blank, and no sign. -/
theorem of_isDigit : ∀ b : Byte, isDigit b = true → isSpace b = false ∧ b ≠ 45 ∧ b ≠ 43 ∧ b ≠ CR :=
  forall_byte (by decide +kernel)

theorem strtol_decimal (n : ℕ) : strtol (decimal n) = min (n : ℤ) (2 ^ 63 - 1) := by
  have hvalue := digitsValue_decimal n
  have hdigits : ∀ b ∈ decimal n, isDigit b = true := isDigit_of_mem_decimal
  revert hvalue hdigits
  rcases hd : decimal n with _ | ⟨b, bs⟩
  · exact absurd hd (decimal_ne_nil n)
  · intro hvalue hdigits
    obtain ⟨hspace, hminus, hplus, -⟩ := of_isDigit b (hdigits b List.mem_cons_self)
    have hdrop : (b :: bs).dropWhile isSpace = b :: bs := by
      rw [List.dropWhile_cons, hspace]
      rfl
    rw [strtol, hdrop, ← hvalue]
    split
    · rename_i heq
      exact absurd (List.cons.inj heq).1 hminus
    · rename_i heq
      exact absurd (List.cons.inj heq).1 hplus
    · rfl

/-- `sscanf` with `%hu` reads back a number that fits. -/
theorem sscanfU16_decimal (p : UInt16) : sscanfU16 (decimal p.toNat) = some p := by
  have hvalue := digitsValue_decimal p.toNat
  have hdigits : ∀ b ∈ decimal p.toNat, isDigit b = true := isDigit_of_mem_decimal
  have hlt := p.toNat_lt
  revert hvalue hdigits
  rcases hd : decimal p.toNat with _ | ⟨b, bs⟩
  · exact absurd hd (decimal_ne_nil _)
  · intro hvalue hdigits
    have hb := hdigits b List.mem_cons_self
    obtain ⟨hspace, hminus, hplus, -⟩ := of_isDigit b hb
    have hdrop : (b :: bs).dropWhile isSpace = b :: bs := by
      rw [List.dropWhile_cons, hspace]
      rfl
    have hread : strtoul (b :: bs) = some p.toNat := by
      rw [strtoul, if_pos (by simpa using hb), hvalue, min_eq_left (by omega)]
    rw [sscanfU16, hdrop]
    split
    · rename_i heq
      exact absurd (List.cons.inj heq).1 hminus
    · rename_i heq
      exact absurd (List.cons.inj heq).1 hplus
    · rw [hread, Option.map_some, UInt16.ofNat_toNat]

/-- **`atoi` reads back** what `std::to_string` writes. -/
theorem atoi_decimalInt {n : ℤ} (hlow : -2 ^ 31 ≤ n) (hhigh : n < 2 ^ 31) :
    atoi (decimalInt n) = n := by
  have hbmod : ∀ m : ℤ, -2 ^ 31 ≤ m → m < 2 ^ 31 → m.bmod (2 ^ 32) = m := by
    intro m hm hm'
    rw [Int.bmod_eq_of_le] <;> norm_num <;> omega
  rw [atoi, decimalInt]
  by_cases hn : n < 0
  · have hstrtol : strtol (ascii '-' :: decimal n.natAbs) = max (-(n.natAbs : ℤ)) (-2 ^ 63) := by
      rw [strtol, List.dropWhile_cons_of_neg (by decide)]
      change max (-(digitsValue 0 (decimal n.natAbs) : ℤ)) (-2 ^ 63) = _
      rw [digitsValue_decimal]
    rw [if_pos hn, hstrtol, max_eq_left (by omega), show -(n.natAbs : ℤ) = n by omega]
    exact hbmod n hlow hhigh
  · rw [if_neg hn, strtol_decimal, min_eq_left (by omega), show (n.natAbs : ℤ) = n by omega]
    exact hbmod n hlow hhigh

/-- `atoi` gives an `int`. -/
theorem atoi_range (s : Bytes) : -2 ^ 31 ≤ atoi s ∧ atoi s < 2 ^ 31 := by
  have hlow := Int.le_bmod (x := strtol s) (m := 2 ^ 32) (by norm_num)
  have hhigh := Int.bmod_lt (x := strtol s) (m := 2 ^ 32) (by norm_num)
  rw [atoi]
  norm_num at hlow hhigh ⊢
  exact ⟨hlow, hhigh⟩

theorem CR_notMem_decimalInt (n : ℤ) : CR ∉ decimalInt n := by
  have hdecimal : ∀ m, CR ∉ decimal m := by
    intro m hm
    exact (of_isDigit CR (isDigit_of_mem_decimal CR hm)).2.2.2 rfl
  rw [decimalInt]
  split
  · intro h
    rcases List.mem_cons.mp h with h | h
    · exact absurd h (by decide)
    · exact hdecimal _ h
  · exact hdecimal _

end CppServerStudio
