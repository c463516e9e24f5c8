import CppServerStudio.Library.Sextets
import CppServerStudio.Rtsp.Sdp

/-!
# Base64

`av_base64_encode_l` keeps its bits in a register: six of them are still there when the next group
of three bytes begins. What it writes are the sextets of the bytes, and `av_base64_decode` reads
them back.

## Main definitions

* `avBase64Decode`, `decodeBase64`: the decoder

## Main results

* `base64_eq`: the text is made of the sextets of the bytes
* `length_base64`: the text and its NUL are as long as `AV_BASE64_SIZE`
* `decodeBase64_base64`: the bytes are read back
-/

namespace CppServerStudio

open Scanning Sextets

/-! ## The decoder -/

/-- The numbers of the digits, from `+` on. -/
def map2 : Bytes :=
  [0x3e, 0xff, 0xff, 0xff, 0x3f, 0x34, 0x35, 0x36,
   0x37, 0x38, 0x39, 0x3a, 0x3b, 0x3c, 0x3d, 0xff,
   0xff, 0xff, 0xff, 0xff, 0xff, 0xff, 0x00, 0x01,
   0x02, 0x03, 0x04, 0x05, 0x06, 0x07, 0x08, 0x09,
   0x0a, 0x0b, 0x0c, 0x0d, 0x0e, 0x0f, 0x10, 0x11,
   0x12, 0x13, 0x14, 0x15, 0x16, 0x17, 0x18, 0x19,
   0xff, 0xff, 0xff, 0xff, 0xff, 0xff, 0x1a, 0x1b,
   0x1c, 0x1d, 0x1e, 0x1f, 0x20, 0x21, 0x22, 0x23,
   0x24, 0x25, 0x26, 0x27, 0x28, 0x29, 0x2a, 0x2b,
   0x2c, 0x2d, 0x2e, 0x2f, 0x30, 0x31, 0x32, 0x33]

/-- The loop of `av_base64_decode` at the digit `i`, with the register `v` and what is written. -/
def base64DecodeLoop (outSize : ℕ) : Bytes → ℕ → UInt32 → Bytes → Option Bytes
  | [], _, _, out => some out
  | ch :: text, i, v, out =>
    if ch = NUL ∨ ch = ascii '=' then some out
    else
      -- below `+` the difference is a large `unsigned`
      let index := (charBits ch - 43).toNat
      if map2.length ≤ index ∨ map2.getD index 0xff = 0xff then none
      else
        let v := (v <<< 6) + (map2.getD index 0xff).toUInt32
        let out := if i % 4 ≠ 0 ∧ out.length < outSize then
          out ++ [(v >>> UInt32.ofNat (6 - 2 * (i % 4))).toUInt8] else out
        base64DecodeLoop outSize text (i + 1) v out

/-- **`av_base64_decode`**: what is written, unless a byte of the text is no digit. -/
def avBase64Decode (outSize : ℕ) (text : Bytes) : Option Bytes :=
  base64DecodeLoop outSize text 0 0 []

/-- **`decodeBase64`**: an invalid text is read as nothing. -/
def decodeBase64 (txt : Bytes) : Bytes :=
  if txt = [] then [] else (avBase64Decode (txt.length * 3 / 4 + 10) txt).getD []

/-! ## The encoder -/

/-- The digit of a sextet. -/
def b64Digit (v : ℕ) : Byte := b64.getD v NUL

/-- The digit that the register holds at a shift. -/
theorem base64Digits_digit (iBits shift : UInt32) :
    b64.getD (((iBits <<< 6) >>> shift) &&& 0x3f).toNat NUL =
      b64Digit (iBits.toNat * 64 % 2 ^ 32 / 2 ^ (shift.toNat % 32) % 64) := by
  have hmask : ∀ n : ℕ, n &&& 0x3f = n % 64 := fun n => Nat.and_two_pow_sub_one_eq_mod n 6
  rw [b64Digit, UInt32.toNat_and, UInt32.toNat_shiftRight, UInt32.toNat_shiftLeft]
  simp [hmask, Nat.shiftRight_eq_div_pow, Nat.shiftLeft_eq]

/-- The register after one more byte. -/
theorem toNat_push (g : UInt32) (b : Byte) :
    ((g <<< 8) + b.toUInt32).toNat = (g.toNat * 256 + b.toNat) % 2 ^ 32 := by
  have hg := g.toNat_lt
  simp [UInt32.toNat_add, UInt32.toNat_shiftLeft, Nat.shiftLeft_eq]

/-- The digit at a shift. -/
def regDigit (iBits : UInt32) (k : ℕ) : Byte :=
  b64Digit (iBits.toNat * 64 % 2 ^ 32 / 2 ^ k % 64)

theorem base64Digits_more (last : Bool) {shift k : ℕ} (iBits : UInt32) (hk : shift = k + 6)
    (hlt : shift < 32) (h : 6 < k ∨ last ∧ 0 < k) : base64Digits last iBits shift =
      (regDigit iBits shift :: (base64Digits last iBits k).1, (base64Digits last iBits k).2) := by
  have hshift : ((shift : ℤ) - 6) = k := by omega
  have hmod : (UInt32.ofNat shift).toNat % 32 = shift := by
    rw [UInt32.toNat_ofNat']
    omega
  rw [base64Digits, hshift, if_pos (by exact_mod_cast h)]
  simp only [Int.toNat_natCast, base64Digits_digit, hmod, regDigit]

theorem base64Digits_done (last : Bool) {shift : ℕ} (iBits : UInt32) (hlt : shift < 32)
    (h : shift ≤ 6 ∨ last = false ∧ shift ≤ 12) : base64Digits last iBits shift =
      ([regDigit iBits shift], (shift : ℤ) - 6) := by
  have hmod : (UInt32.ofNat shift).toNat % 32 = shift := by
    rw [UInt32.toNat_ofNat']
    omega
  have hno : ¬ (6 < (shift : ℤ) - 6 ∨ last ∧ 0 < (shift : ℤ) - 6) := by
    rcases h with h | ⟨rfl, h⟩
    · omega
    · simp
      omega
  rw [base64Digits, if_neg hno]
  simp only [Int.toNat_natCast, base64Digits_digit, hmod, regDigit]

/-- One turn of the outer loop. -/
theorem base64Loop_cons (b : Byte) (bs : Bytes) {ds : Bytes} {g : UInt32} {i j k : ℤ}
    (hj : i + 8 = j) (h : base64Digits bs.isEmpty ((g <<< 8) + b.toUInt32) j = (ds, k)) :
    base64Loop (b :: bs) g i = ds ++ base64Loop bs ((g <<< 8) + b.toUInt32) k := by
  rw [base64Loop, hj, h]

/-- Six bits that are left are written when the next byte comes. -/
theorem base64Loop_six (b : Byte) (bs : Bytes) (g : UInt32) :
    base64Loop (b :: bs) g 6 = b64Digit (g.toNat % 64) :: base64Loop (b :: bs) g 0 := by
  have hg := g.toNat_lt
  have hb := b.toNat_lt
  have hmore := base64Digits_more bs.isEmpty ((g <<< 8) + b.toUInt32) (rfl : 14 = 8 + 6)
    (by norm_num) (.inl (by norm_num))
  have hdigit : regDigit ((g <<< 8) + b.toUInt32) 14 = b64Digit (g.toNat % 64) := by
    rw [regDigit, toNat_push]
    congr 1
    omega
  rw [base64Loop_cons b bs (by norm_num) hmore, hdigit, base64Loop]
  rfl

section Groups

variable (g : UInt32) (a b c : Byte)

theorem regDigit_first : regDigit ((g <<< 8) + a.toUInt32) 8 = b64Digit (a.toNat / 4) := by
  have ha := a.toNat_lt
  rw [regDigit, toNat_push]
  congr 1
  omega

theorem regDigit_second : regDigit ((((g <<< 8) + a.toUInt32) <<< 8) + b.toUInt32) 10 =
    b64Digit (a.toNat % 4 * 16 + b.toNat / 16) := by
  have ha := a.toNat_lt
  have hb := b.toNat_lt
  rw [regDigit, toNat_push, toNat_push]
  congr 1
  omega

theorem regDigit_third : regDigit ((((g <<< 8) + a.toUInt32) <<< 8) + b.toUInt32) 12 =
    b64Digit (a.toNat % 16 * 4 + b.toNat / 64) := by
  have ha := a.toNat_lt
  have hb := b.toNat_lt
  rw [regDigit, toNat_push, toNat_push]
  congr 1
  omega

/-- The bits that are left behind the last byte, filled up with zeros. -/
theorem regDigit_rest (k : ℕ) (hk : k ≤ 6) :
    regDigit ((g <<< 8) + a.toUInt32) k = b64Digit (a.toNat % 2 ^ k * 2 ^ (6 - k)) := by
  have ha := a.toNat_lt
  rw [regDigit, toNat_push]
  congr 1
  interval_cases k <;> omega

end Groups

/-- The last digits are written although they are not complete. -/
theorem base64Loop_last {s : ℤ} (i j : ℕ) (b : Byte) (g : UInt32) (hs : s + 8 = j) (hj : j = i + 6)
    (hi : 0 < i) (hle : i ≤ 6) : base64Loop [b] g s =
      [regDigit ((g <<< 8) + b.toUInt32) j, regDigit ((g <<< 8) + b.toUInt32) i] := by
  have hmore := base64Digits_more true ((g <<< 8) + b.toUInt32) hj (by omega)
    (.inr ⟨rfl, hi⟩)
  rw [base64Digits_done true _ (by omega) (.inl hle)] at hmore
  rw [base64Loop_cons b [] hs hmore]
  rfl

/-- Before the last byte a turn of the loop writes one digit. -/
theorem base64Loop_next {s : ℤ} (i j : ℕ) (b c : Byte) (bs : Bytes) (g : UInt32) (hs : s + 8 = j)
    (hj : j = i + 6) (hle : j ≤ 12) : base64Loop (b :: c :: bs) g s =
      regDigit ((g <<< 8) + b.toUInt32) j :: base64Loop (c :: bs) ((g <<< 8) + b.toUInt32) i := by
  have hdone := base64Digits_done false ((g <<< 8) + b.toUInt32) (show j < 32 by omega)
    (.inr ⟨rfl, hle⟩)
  have hi : (j : ℤ) - 6 = i := by omega
  rw [hi] at hdone
  exact base64Loop_cons b (c :: bs) hs hdone

/-- **The encoder writes the sextets** of the bytes. -/
theorem base64Loop_eq (bs : Bytes) (g : UInt32) :
    base64Loop bs g 0 = (sextets bs).map b64Digit := by
  -- Induction on groups of three bytes; the register keeps bits of the group before.
  induction bs using induction_three generalizing g with
  | nil => rfl
  | one a =>
    rw [base64Loop_last 2 8 a g rfl rfl (by norm_num) (by norm_num), regDigit_first,
      regDigit_rest _ _ _ (by norm_num)]
    rfl
  | two a b =>
    rw [base64Loop_next 2 8 a b [] g rfl rfl (by norm_num),
      base64Loop_last 4 10 b _ rfl rfl (by norm_num) (by norm_num), regDigit_first,
      regDigit_second, regDigit_rest _ _ _ (by norm_num)]
    rfl
  | three a b c rest ih =>
    rw [base64Loop_next 2 8 a b (c :: rest) g rfl rfl (by norm_num),
      base64Loop_next 4 10 b c rest _ rfl rfl (by norm_num), regDigit_first, regDigit_second]
    cases rest with
    | nil =>
      rw [base64Loop_last 6 12 c _ rfl rfl (by norm_num) le_rfl, regDigit_third,
        regDigit_rest _ _ _ le_rfl]
      simp [sextets]
    | cons d rest =>
      -- the last digit of the group is still in the register
      have hc := c.toNat_lt
      rw [base64Loop_next 6 12 c d rest _ rfl rfl le_rfl, regDigit_third, Nat.cast_ofNat,
        base64Loop_six, ih, toNat_push, sextets, List.map_append]
      have hlow : ∀ n, (n * 256 + c.toNat) % 2 ^ 32 % 64 = c.toNat % 64 := by omega
      simp only [hlow, List.map_cons, List.map_nil, List.cons_append, List.nil_append]

/-! ## The text -/

theorem base64_eq (bs : Bytes) : base64 bs = (sextets bs).map b64Digit ++
    List.replicate ((4 - (sextets bs).length % 4) % 4) (ascii '=') := by
  rw [base64, base64Loop_eq, List.length_map]

/-- **The text and its NUL** are as long as `AV_BASE64_SIZE`. -/
theorem length_base64 (bs : Bytes) : (base64 bs).length + 1 = avBase64Size bs.length := by
  rw [base64_eq, List.length_append, List.length_map, List.length_replicate, length_sextets,
    avBase64Size]
  omega

/-- A text in base64 has digits only, and `=` at its end. -/
theorem mem_base64 {bs : Bytes} {ch : Byte} (h : ch ∈ base64 bs) : ch ∈ b64 ∨ ch = ascii '=' := by
  rw [base64_eq, List.mem_append] at h
  rcases h with h | h
  · obtain ⟨v, hv, rfl⟩ := List.mem_map.mp h
    have hlt : v < b64.length := sextets_lt bs v hv
    rw [b64Digit, List.getD_eq_getElem?_getD, List.getElem?_eq_getElem hlt, Option.getD_some]
    exact .inl (List.getElem_mem hlt)
  · exact .inr (List.eq_of_mem_replicate h)

/-! ## Reading the text back -/

/-- A digit is no end of the text, and is found in the table of the decoder. -/
theorem map2_b64Digit : ∀ v < 64, b64Digit v ≠ NUL ∧ b64Digit v ≠ ascii '=' ∧
    (charBits (b64Digit v) - 43).toNat < map2.length ∧
      map2.getD (charBits (b64Digit v) - 43).toNat 0xff = UInt8.ofNat v ∧ UInt8.ofNat v ≠ 0xff := by
  decide +kernel

/-- One digit: behind the first of each four a byte is written. -/
theorem base64DecodeLoop_digit {v i outSize : ℕ} (hv : v < 64) (text : Bytes) (u : UInt32)
    (out : Bytes) : base64DecodeLoop outSize (b64Digit v :: text) i u out =
      base64DecodeLoop outSize text (i + 1) ((u <<< 6) + UInt32.ofNat v)
        (if i % 4 ≠ 0 ∧ out.length < outSize then
          out ++ [(((u <<< 6) + UInt32.ofNat v) >>> UInt32.ofNat (6 - 2 * (i % 4))).toUInt8]
        else out) := by
  obtain ⟨hnul, hpad, hlt, hget, hne⟩ := map2_b64Digit v hv
  have hcast : (UInt8.ofNat v).toUInt32 = UInt32.ofNat v := by
    rw [← UInt32.toNat_inj]
    simp
    omega
  rw [base64DecodeLoop, if_neg (by tauto)]
  simp only [hget, hcast]
  rw [if_neg (by rintro (h | h); exacts [absurd hlt (by omega), hne h])]

theorem toNat_register (v : ℕ) (u : UInt32) :
    ((u <<< 6) + UInt32.ofNat v).toNat = (u.toNat * 64 + v) % 2 ^ 32 := by
  have hshift : (u <<< 6).toNat = u.toNat * 64 % 2 ^ 32 := by
    simp [UInt32.toNat_shiftLeft, Nat.shiftLeft_eq]
  rw [UInt32.toNat_add, hshift, UInt32.toNat_ofNat']
  omega

/-- The byte that two sextets in the register make. -/
theorem toUInt8_register (v w : ℕ) {k : ℕ} (hk : k ≤ 4) (u : UInt32) :
    (((((u <<< 6) + UInt32.ofNat v) <<< 6) + UInt32.ofNat w) >>> UInt32.ofNat k).toUInt8 =
      octet k v w := by
  have hmod : (UInt32.ofNat k).toNat % 32 = k := by
    rw [UInt32.toNat_ofNat']
    omega
  rw [octet, ← UInt8.toNat_inj, UInt32.toNat_toUInt8, UInt32.toNat_shiftRight, hmod,
    toNat_register, toNat_register, UInt8.toNat_ofNat', Nat.shiftRight_eq_div_pow]
  interval_cases k <;> omega

/-- The first digit of four writes nothing. -/
theorem base64DecodeLoop_first {v i outSize : ℕ} (hv : v < 64) (hi : i % 4 = 0) (text : Bytes)
    (u : UInt32) (out : Bytes) : base64DecodeLoop outSize (b64Digit v :: text) i u out =
      base64DecodeLoop outSize text (i + 1) ((u <<< 6) + UInt32.ofNat v) out := by
  rw [base64DecodeLoop_digit hv, if_neg (fun h => h.1 hi)]

/-- Each of the others writes a byte. -/
theorem base64DecodeLoop_next {w i outSize : ℕ} (k v : ℕ) (hw : w < 64)
    (hi : i % 4 ≠ 0) (hk : 6 - 2 * (i % 4) = k) (text : Bytes) (u : UInt32) {out : Bytes}
    (hroom : out.length < outSize) :
    base64DecodeLoop outSize (b64Digit w :: text) i ((u <<< 6) + UInt32.ofNat v) out =
      base64DecodeLoop outSize text (i + 1) ((((u <<< 6) + UInt32.ofNat v) <<< 6) + UInt32.ofNat w)
        (out ++ [octet k v w]) := by
  rw [base64DecodeLoop_digit hw, if_pos ⟨hi, hroom⟩, hk, toUInt8_register v w (by omega)]

theorem base64DecodeLoop_pad {i outSize : ℕ} (n : ℕ) (u : UInt32) (out : Bytes) :
    base64DecodeLoop outSize (List.replicate n (ascii '=')) i u out = some out := by
  cases n with
  | zero => rfl
  | succ n => rw [List.replicate_succ, base64DecodeLoop, if_pos (.inr rfl)]

/-- **The decoder reads the sextets** of the bytes as these bytes, if there is room for them. -/
theorem base64DecodeLoop_sextets {outSize i : ℕ} (bs : Bytes) (n : ℕ) (hi : i % 4 = 0) (u : UInt32)
    {out : Bytes} (hroom : out.length + bs.length ≤ outSize) :
    base64DecodeLoop outSize ((sextets bs).map b64Digit ++ List.replicate n (ascii '=')) i u out =
      some (out ++ octets (sextets bs)) := by
  have hlt := sextets_lt bs
  -- Induction on groups of three bytes, which four digits spell.
  induction bs using induction_three generalizing i u out with
  | nil => simpa [sextets, octets] using base64DecodeLoop_pad n u out
  | one a =>
    simp only [sextets, List.mem_cons, List.not_mem_nil, or_false, forall_eq_or_imp,
      forall_eq] at hlt
    obtain ⟨hv, hw⟩ := hlt
    simp only [List.length_cons, List.length_nil] at hroom
    simp only [sextets, List.map_cons, List.map_nil, List.cons_append, List.nil_append]
    rw [base64DecodeLoop_first hv hi,
      base64DecodeLoop_next 4 _ hw (by omega) (by omega) _ _ (by omega), base64DecodeLoop_pad]
    rfl
  | two a b =>
    simp only [sextets, List.mem_cons, List.not_mem_nil, or_false, forall_eq_or_imp,
      forall_eq] at hlt
    obtain ⟨hv, hw, hx⟩ := hlt
    simp only [List.length_cons, List.length_nil] at hroom
    simp only [sextets, List.map_cons, List.map_nil, List.cons_append, List.nil_append]
    rw [base64DecodeLoop_first hv hi,
      base64DecodeLoop_next 4 _ hw (by omega) (by omega) _ _ (by omega),
      base64DecodeLoop_next 2 _ hx (by omega) (by omega) _ _ (by simp; omega),
      base64DecodeLoop_pad, List.append_assoc]
    rfl
  | three a b c rest ih =>
    simp only [sextets, List.mem_append, List.mem_cons, List.not_mem_nil, or_false, or_imp,
      forall_and, forall_eq] at hlt
    obtain ⟨⟨hv, hw, hx, hy⟩, hrest⟩ := hlt
    simp only [List.length_cons] at hroom
    simp only [sextets, octets, List.map_cons, List.cons_append, List.nil_append]
    rw [base64DecodeLoop_first hv hi,
      base64DecodeLoop_next 4 _ hw (by omega) (by omega) _ _ (by omega),
      base64DecodeLoop_next 2 _ hx (by omega) (by omega) _ _ (by simp; omega),
      base64DecodeLoop_next 0 _ hy (by omega) (by omega) _ _ (by simp; omega),
      ih (by omega) _ (by simp; omega) hrest]
    simp only [List.append_assoc, List.cons_append, List.nil_append]

/-- **The bytes are read back** from their text in base64. -/
theorem decodeBase64_base64 (bs : Bytes) : decodeBase64 (base64 bs) = bs := by
  have hlength := length_base64 bs
  rw [avBase64Size] at hlength
  have hread : avBase64Decode ((base64 bs).length * 3 / 4 + 10) (base64 bs) = some bs := by
    have hroom : ([] : Bytes).length + bs.length ≤ (base64 bs).length * 3 / 4 + 10 := by
      rw [List.length_nil]
      omega
    have hloop := base64DecodeLoop_sextets bs ((4 - (sextets bs).length % 4) % 4)
      (Nat.zero_mod 4) 0 hroom
    rw [← base64_eq, octets_sextets] at hloop
    exact hloop
  rw [decodeBase64]
  split
  · rename_i hnil
    -- only nothing is written as nothing
    cases bs with
    | nil => rfl
    | cons b bs =>
      rw [hnil, List.length_nil, List.length_cons] at hlength
      omega
  · rw [hread, Option.getD_some]

end CppServerStudio
