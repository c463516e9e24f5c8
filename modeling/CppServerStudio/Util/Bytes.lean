import Mathlib.Tactic

/-!
# Bytes, character classes and `atoi`

Messages are lists of bytes. The character classes are those of `<ctype.h>` in the C locale, which
no byte from `0x80` on belongs to.

## Main definitions

* `Bytes`, `ofString`, `ascii`: byte strings, and the bytes of ASCII literals
* `isBlank`, `isUpper`, `isDigit`: the character classes the parser tests
* `atoi`: `atoi` of a C string
* `sscanfU16`: the number `sscanf` reads with `%hu`
* `intOfSize`: the `int` that the size of a string is cast to
* `decimal`, `decimalInt`: the digits `std::to_string` writes
* `find`, `rfind`: the first and the last occurrence of a string in another
* `be16`, `be32`: numbers in network byte order
* `ntohs`, `ntohl`: what is read back from such bytes
-/

namespace CppServerStudio

/-- One `char` of a buffer, read as an unsigned byte. -/
abbrev Byte := UInt8

/-- A byte string. -/
abbrev Bytes := List Byte

/-- The bytes of a string literal of ASCII characters. -/
def ofString (s : String) : Bytes := s.toList.map fun c => c.toNat.toUInt8

/-- An ASCII character literal. -/
def ascii (c : Char) : Byte := c.toNat.toUInt8

def CR : Byte := 13
def LF : Byte := 10
def NUL : Byte := 0

def SP : Byte := 32
def TAB : Byte := 9

/-- `isblank`: space and tab. -/
def isBlank (ch : Byte) : Bool := ch == SP || ch == TAB

theorem isBlank_CR : isBlank CR = false := by decide

/-- `isupper`: the letters `A` to `Z`. -/
def isUpper (ch : Byte) : Bool := 65 ≤ ch && ch ≤ 90

/-- `isdigit`: the digits `0` to `9`. -/
def isDigit (ch : Byte) : Bool := 48 ≤ ch && ch ≤ 57

/-- `isspace`: the blanks and the five control characters from tab to carriage return. -/
def isSpace (ch : Byte) : Bool := ch == SP || (9 ≤ ch && ch ≤ 13)

section Atoi

/-- The value of the digits at the front of `s`, continuing `acc`. -/
def digitsValue (acc : ℕ) : Bytes → ℕ
  | [] => acc
  | b :: bs => if isDigit b then digitsValue (10 * acc + (b.toNat - 48)) bs else acc

/-- `strtol` in base ten, saturating at the bounds of a 64-bit `long`. -/
def strtol (s : Bytes) : ℤ :=
  match s.dropWhile isSpace with
  | 45 :: ds => max (-(digitsValue 0 ds : ℤ)) (-2 ^ 63)
  | 43 :: ds => min (digitsValue 0 ds : ℤ) (2 ^ 63 - 1)
  | ds => min (digitsValue 0 ds : ℤ) (2 ^ 63 - 1)

/-- `atoi`: `strtol` truncated to a 32-bit `int`. The terminating NUL of the C string, like any
other byte that is not a digit, ends the number. -/
def atoi (s : Bytes) : ℤ := (strtol s).bmod (2 ^ 32)

/-- The number at the front of `s`, if there is a digit: `strtoul` saturates at the bound of a
64-bit `unsigned long`. -/
def strtoul (s : Bytes) : Option ℕ :=
  if s.head?.any isDigit then some (min (digitsValue 0 s) (2 ^ 64 - 1)) else none

/-- `sscanf` with `%hu`, if it assigns a number: a sign is read, and the number is truncated. -/
def sscanfU16 (s : Bytes) : Option UInt16 :=
  match s.dropWhile isSpace with
  | 45 :: ds => (strtoul ds).map fun n =>
      -- an overflow saturates before the sign counts
      if n = 2 ^ 64 - 1 then UInt16.ofNat n else -UInt16.ofNat n
  | 43 :: ds => (strtoul ds).map UInt16.ofNat
  | ds => (strtoul ds).map UInt16.ofNat

end Atoi

/-- A `size_t` as an `int`. -/
def intOfSize (n : ℕ) : ℤ := (n : ℤ).bmod (2 ^ 32)

theorem intOfSize_of_lt {n : ℕ} (h : n < 2 ^ 31) : intOfSize n = n :=
  Int.bmod_eq_of_le (by norm_num) (by norm_num; omega)

theorem intOfSize_neg {n : ℕ} (h : 2 ^ 31 ≤ n) (h' : n < 2 ^ 32) : intOfSize n < 0 := by
  norm_num at h h'
  unfold intOfSize
  rw [Int.bmod_def]
  push_cast
  split_ifs <;> omega

/-- The decimal digits of `n`, as `std::to_string` writes them. -/
def decimal (n : ℕ) : Bytes := (Nat.toDigits 10 n).map fun c => c.toNat.toUInt8

/-- The decimal digits of an integer, behind a minus sign when it is negative. -/
def decimalInt (n : ℤ) : Bytes :=
  if n < 0 then ascii '-' :: decimal n.natAbs else decimal n.natAbs

section Find

/-- `s.find(pat)`: where `pat` occurs first in `s`. -/
def find (pat s : Bytes) : Option ℕ :=
  (List.range (s.length + 1)).find? fun i => pat.isPrefixOf (s.drop i)

/-- `s.rfind(pat)`: where `pat` occurs last in `s`. -/
def rfind (pat s : Bytes) : Option ℕ :=
  (List.range (s.length + 1)).reverse.find? fun i => pat.isPrefixOf (s.drop i)

end Find

/-- The bytes of a 16-bit number, the high one first. -/
def be16 (x : UInt16) : Bytes := [(x >>> 8).toUInt8, x.toUInt8]

/-- The bytes of a 32-bit number, the highest first. -/
def be32 (x : UInt32) : Bytes :=
  [(x >>> 24).toUInt8, (x >>> 16).toUInt8, (x >>> 8).toUInt8, x.toUInt8]

/-- `ntohs` of a field whose bytes in memory are these. -/
def ntohs (b₀ b₁ : Byte) : UInt16 := UInt16.ofNat (b₀.toNat * 256 + b₁.toNat)

/-- `ntohl` of a field whose bytes in memory are these. -/
def ntohl (b₀ b₁ b₂ b₃ : Byte) : UInt32 :=
  UInt32.ofNat (((b₀.toNat * 256 + b₁.toNat) * 256 + b₂.toNat) * 256 + b₃.toNat)

theorem ntohs_be16 (x : UInt16) : ntohs ((be16 x).getD 0 0) ((be16 x).getD 1 0) = x := by
  have hlt := x.toNat_lt
  rw [← UInt16.toNat_inj]
  simp [be16, ntohs, Nat.shiftRight_eq_div_pow]
  omega

theorem ntohl_be32 (x : UInt32) :
    ntohl ((be32 x).getD 0 0) ((be32 x).getD 1 0) ((be32 x).getD 2 0) ((be32 x).getD 3 0) = x := by
  have hlt := x.toNat_lt
  rw [← UInt32.toNat_inj]
  simp [be32, ntohl, Nat.shiftRight_eq_div_pow]
  omega

@[simp] theorem length_be16 (x : UInt16) : (be16 x).length = 2 := rfl

@[simp] theorem length_be32 (x : UInt32) : (be32 x).length = 4 := rfl

/-- A property of all bytes, from a check of each. -/
theorem forall_byte {P : Byte → Prop} (h : ∀ n < 256, P (UInt8.ofNat n)) (b : Byte) : P b := by
  have hb := h b.toNat b.toNat_lt
  rwa [UInt8.ofNat_toNat] at hb

/-- A property of the bytes of a string, from a check of each of them. -/
theorem forall_mem_of_all {P : Byte → Prop} [DecidablePred P] {s : Bytes}
    (h : s.all (fun b => decide (P b)) = true) : ∀ b ∈ s, P b := by
  simpa using h

end CppServerStudio
