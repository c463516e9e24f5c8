import CppServerStudio.Log.FixedBuffer
import CppServerStudio.Util.Decimal

/-!
# The stream of a log record

`LogStream` writes what is put into it to a buffer of 4096 bytes. What does not fit is dropped. A
number is written from its last digit on and then reversed; when the loop over its digits has ended
the number is zero, and it is only then asked for its sign.

## Main definitions

* `IntegerArg`, `StreamArg`: what is put into a stream
* `LogStream.formatInteger`, `LogStream.insert`: how it is written

## Main results

* `integerText_of_nonneg`: the decimal digits of a number without a sign
* `LogStream.appendsDecimal_iff`: which numbers are written as decimal numbers
-/

namespace CppServerStudio

def fixedBufferSize : ℕ := 4096
def kMaxNumericSize : ℕ := 48

/-! ## Integers -/

/-- A value of one of the integer types. -/
abbrev MachineInt := { value : ℤ // value.natAbs < 2 ^ 64 }

namespace MachineInt

def ofInt32 (n : Int32) : MachineInt :=
  ⟨n.toInt, by have hlow := n.le_toInt; have hhigh := n.toInt_lt; omega⟩

def ofUInt32 (n : UInt32) : MachineInt :=
  ⟨n.toNat, by have hlt := n.toNat_lt; omega⟩

def ofInt64 (n : Int64) : MachineInt :=
  ⟨n.toInt, by have hlow := n.le_toInt; have hhigh := n.toInt_lt; omega⟩

def ofUInt64 (n : UInt64) : MachineInt :=
  ⟨n.toNat, by have hlt := n.toNat_lt; omega⟩

end MachineInt

/-- The integers that `operator<<` is overloaded for. -/
inductive IntegerArg
  | short (num : Int16)
  | unsignedShort (num : UInt16)
  | int (num : Int32)
  | unsignedInt (num : UInt32)
  | long (num : Int64)
  | unsignedLong (num : UInt64)
  | longLong (num : Int64)
  | unsignedLongLong (num : UInt64)

namespace IntegerArg

def value : IntegerArg → ℤ
  | short num => num.toInt
  | unsignedShort num => num.toNat
  | int num => num.toInt
  | unsignedInt num => num.toNat
  | long num => num.toInt
  | unsignedLong num => num.toNat
  | longLong num => num.toInt
  | unsignedLongLong num => num.toNat

/-- What is passed on to `formatInteger`: the short ones are first made wider. -/
def passed : IntegerArg → MachineInt
  | short num => .ofInt32 num.toInt32
  | unsignedShort num => .ofUInt32 num.toUInt32
  | int num => .ofInt32 num
  | unsignedInt num => .ofUInt32 num
  | long num => .ofInt64 num
  | unsignedLong num => .ofUInt64 num
  | longLong num => .ofInt64 num
  | unsignedLongLong num => .ofUInt64 num

/-- A wider type keeps the value. -/
theorem val_passed (num : IntegerArg) : num.passed.val = num.value := by
  cases num with
  | short num => exact Int16.toInt_toInt32 num
  | unsignedShort num => exact congrArg Int.ofNat (UInt16.toNat_toUInt32 num)
  | _ => rfl

end IntegerArg

/-- The loop over the digits, and the value behind it. -/
def digitLoop (value : ℤ) : Bytes × ℤ :=
  let remainder := value.tmod 10
  let digit := UInt8.ofInt (remainder + 48)
  if value.tdiv 10 ≠ 0 then
    let (digits, value) := digitLoop (value.tdiv 10)
    (digit :: digits, value)
  else ([digit], value.tdiv 10)
termination_by value.natAbs
decreasing_by
  rename_i h
  rw [Int.natAbs_tdiv]
  refine Nat.div_lt_self (Int.natAbs_pos.mpr ?_) (by norm_num)
  rintro rfl
  exact h rfl

/-- The bytes that `formatInteger` writes. -/
def integerText (value : ℤ) : Bytes :=
  let (digits, value) := digitLoop value
  (if value < 0 then digits ++ [ascii '-'] else digits).reverse

/-- **The loop over the digits** ends at zero and writes as many digits as the number has; without a
sign they are its decimal digits. -/
theorem digitLoop_spec (value : ℤ) : (digitLoop value).2 = 0 ∧
    (digitLoop value).1.length = (decimal value.natAbs).length ∧
    (0 ≤ value → (digitLoop value).1.reverse = decimal value.natAbs) := by
  -- Induction on the absolute value, which each turn divides by ten.
  induction hk : value.natAbs using Nat.strong_induction_on generalizing value with
  | _ k ih =>
    subst hk
    have hquotient : (value.tdiv 10).natAbs = value.natAbs / 10 := Int.natAbs_tdiv value 10
    have hdigit : 0 ≤ value →
        UInt8.ofInt (value.tmod 10 + 48) = UInt8.ofNat (value.natAbs % 10 + 48) := by
      intro hnonneg
      obtain ⟨n, rfl⟩ := Int.eq_ofNat_of_zero_le hnonneg
      have hmod : (n : ℤ).tmod 10 + 48 = ((n % 10 + 48 : ℕ) : ℤ) := by
        rw [Int.tmod_eq_emod_of_nonneg hnonneg]
        norm_cast
      rw [hmod, Int.natAbs_natCast, UInt8.ofInt, ← UInt8.toNat_inj, UInt8.toNat_ofNat',
        UInt8.toNat_ofNat']
      omega
    rw [digitLoop, decimal_eq]
    by_cases hlast : value.tdiv 10 = 0
    · have hlt : value.natAbs < 10 := by
        rw [hlast, Int.natAbs_zero] at hquotient
        omega
      rw [if_neg (not_not_intro hlast), if_pos hlt]
      refine ⟨hlast, rfl, fun hnonneg => ?_⟩
      rw [hdigit hnonneg]
      rfl
    · have hge : ¬ value.natAbs < 10 := by
        intro hlt
        rw [Nat.div_eq_of_lt hlt, Int.natAbs_eq_zero] at hquotient
        exact hlast hquotient
      obtain ⟨hzero, hlength, hdigits⟩ := ih _ (by omega) (value.tdiv 10) rfl
      rw [hquotient] at hlength hdigits
      rw [if_pos hlast, if_neg hge]
      refine ⟨hzero, ?_, fun hnonneg => ?_⟩
      · simp only [List.length_cons, List.length_append, List.length_nil, hlength]
      · rw [List.reverse_cons, hdigits (Int.tdiv_nonneg hnonneg (by norm_num)), hdigit hnonneg]

/-- No sign is written: behind the loop the value is zero. -/
theorem integerText_eq (value : ℤ) : integerText value = (digitLoop value).1.reverse := by
  rw [integerText]
  simp only [(digitLoop_spec value).1, lt_irrefl, if_false]

theorem integerText_of_nonneg {value : ℤ} (h : 0 ≤ value) :
    integerText value = decimal value.natAbs := by
  rw [integerText_eq]
  exact (digitLoop_spec value).2.2 h

theorem length_integerText (value : ℤ) :
    (integerText value).length = (decimal value.natAbs).length := by
  rw [integerText_eq, List.length_reverse]
  exact (digitLoop_spec value).2.1

theorem length_integerText_le (value : MachineInt) : (integerText value.val).length ≤ 20 := by
  rw [length_integerText, decimal, List.length_map,
    Nat.length_toDigits_le_iff (by norm_num) (by norm_num)]
  have hlt := value.property
  omega

/-! ## The stream -/

/-- What is put into a stream. -/
inductive StreamArg
  | bool (v : Bool)
  | integer (num : IntegerArg)
  /-- A floating-point number, by the text that `%g` writes. -/
  | floating (text : Bytes)
  | char (v : Byte)
  /-- A `const char*`, which may be null, by its characters. -/
  | cString (str : Option Bytes)
  | string (v : Bytes)
  /-- A `Fmt`, by its text. -/
  | fmt (text : Bytes)

structure LogStream where
  buffer : FixedBuffer fixedBufferSize := {}

/-- A negative length is passed to `memcpy`, which takes it for a large one. -/
inductive CopyFault
  | negativeLength
  deriving DecidableEq, Repr

namespace LogStream

variable (s : LogStream)

/-- **`append`** of the first `len` bytes. -/
def append (data : Bytes) (len : ℤ) : Except CopyFault LogStream :=
  if len < s.buffer.avail then
    if len < 0 then .error .negativeLength else .ok ⟨s.buffer.append (data.take len.toNat)⟩
  else .ok s

theorem length_integerText_append {value : MachineInt} (h : kMaxNumericSize ≤ s.buffer.avail) :
    (s.buffer.data ++ integerText value.val).length ≤ fixedBufferSize := by
  have hdigits := length_integerText_le value
  rw [FixedBuffer.avail, FixedBuffer.len, kMaxNumericSize] at h
  rw [List.length_append]
  omega

/-- **`formatInteger`** writes behind the last byte, if there is room for any number. -/
def formatInteger (value : MachineInt) : LogStream :=
  if h : kMaxNumericSize ≤ s.buffer.avail then
    ⟨⟨s.buffer.data ++ integerText value.val, s.length_integerText_append h⟩⟩
  else s

/-- **`operator<<`**. -/
def insert : StreamArg → Except CopyFault LogStream
  | .bool v => s.append (if v then ofString "1" else ofString "0") 1
  | .integer num => .ok (s.formatInteger num.passed)
  | .floating text => s.append text (intOfSize text.length)
  | .char v => s.append [v] 1
  | .cString (some str) => s.append str (intOfSize str.length)
  | .cString none => s.append (ofString "(null)") 6
  | .string v => s.append v (intOfSize v.length)
  | .fmt text => s.append text (intOfSize text.length)

end LogStream

/-! ## Decimal numbers -/

/-- A text read as a decimal number. -/
def readDecimal : Bytes → ℤ
  | 45 :: digits => -(digitsValue 0 digits : ℤ)
  | digits => digitsValue 0 digits

theorem readDecimal_decimalInt (n : ℤ) : readDecimal (decimalInt n) = n := by
  rw [decimalInt]
  split
  · rename_i hneg
    change -(digitsValue 0 (decimal n.natAbs) : ℤ) = n
    rw [digitsValue_decimal]
    omega
  · rename_i hnonneg
    have hvalue : (digitsValue 0 (decimal n.natAbs) : ℤ) = n := by
      rw [digitsValue_decimal]
      omega
    have hdigits : ∀ b ∈ decimal n.natAbs, isDigit b = true := isDigit_of_mem_decimal
    -- the first byte is a digit, and no minus sign
    unfold readDecimal
    split
    · rename_i digits heq
      exact absurd (hdigits 45 (heq ▸ List.mem_cons_self)) (by decide)
    · exact hvalue

namespace LogStream

variable {s : LogStream} {num : IntegerArg}

/-- **A number is written as a decimal number**: behind the bytes of the stream stands its decimal
representation, which is read back as the number. -/
def AppendsDecimal (s : LogStream) (num : IntegerArg) : Prop :=
  ∃ t text, s.insert (.integer num) = .ok t ∧ t.buffer.data = s.buffer.data ++ text ∧
    text = decimalInt num.value ∧ readDecimal text = num.value

/-- What a number appends, when there is room. -/
theorem data_formatInteger {value : MachineInt} (h : kMaxNumericSize ≤ s.buffer.avail) :
    (s.formatInteger value).buffer.data = s.buffer.data ++ integerText value.val := by
  rw [formatInteger, dif_pos h]

theorem insert_integer (num : IntegerArg) (h : kMaxNumericSize ≤ s.buffer.avail) : ∃ t,
    s.insert (.integer num) = .ok t ∧
      t.buffer.data = s.buffer.data ++ integerText num.value := by
  refine ⟨s.formatInteger num.passed, rfl, ?_⟩
  rw [data_formatInteger h, num.val_passed]

/-- The sign of a negative number is missing. -/
theorem integerText_ne_of_neg {value : ℤ} (h : value < 0) :
    integerText value ≠ decimalInt value := by
  intro heq
  have hlength := congrArg List.length heq
  rw [length_integerText, decimalInt, if_pos h, List.length_cons] at hlength
  omega

/-- **A number is written as a decimal number** exactly if it is not negative. -/
theorem appendsDecimal_iff (h : kMaxNumericSize ≤ s.buffer.avail) :
    s.AppendsDecimal num ↔ 0 ≤ num.value := by
  obtain ⟨t, hinsert, hdata⟩ := insert_integer num h
  constructor
  · rintro ⟨t', text, hinsert', hdata', htext, -⟩
    by_contra hneg
    obtain rfl : t = t' := Except.ok.inj (hinsert.symm.trans hinsert')
    rw [hdata, List.append_cancel_left_eq] at hdata'
    exact integerText_ne_of_neg (not_le.mp hneg) (hdata'.trans htext)
  · intro hnonneg
    have htext : integerText num.value = decimalInt num.value := by
      rw [integerText_of_nonneg hnonneg, decimalInt, if_neg (not_lt.mpr hnonneg)]
    exact ⟨t, _, hinsert, hdata, htext, htext ▸ readDecimal_decimalInt num.value⟩

/-- The number that the test of the stream writes. -/
theorem appendsDecimal_eleven : LogStream.AppendsDecimal {} (.int 11) :=
  (appendsDecimal_iff (by decide)).mpr (by decide)

/-- The number -1 is written as a slash. -/
theorem not_appendsDecimal : ¬ ∀ (s : LogStream) (num : IntegerArg),
    kMaxNumericSize ≤ s.buffer.avail → s.AppendsDecimal num := by
  intro h
  have hroom : kMaxNumericSize ≤ ({} : LogStream).buffer.avail := by decide
  obtain ⟨t, text, hinsert, hdata, htext, -⟩ := h {} (.int (-1)) hroom
  obtain ⟨t', hinsert', hdata'⟩ := insert_integer (.int (-1)) hroom
  obtain rfl : t = t' := Except.ok.inj (hinsert.symm.trans hinsert')
  rw [hdata', List.append_cancel_left_eq] at hdata
  exact integerText_ne_of_neg (by decide) (hdata.trans htext)

end LogStream

end CppServerStudio
