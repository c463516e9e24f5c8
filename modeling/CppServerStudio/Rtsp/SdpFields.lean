import CppServerStudio.Library.Delimiters
import CppServerStudio.Rtsp.Base64
import CppServerStudio.Util.Decimal
import CppServerStudio.Util.Find

/-!
# The fields of a session description

A client reads the parameters of the format from the description of a stream. The parameter sets
stand in it in base64, if they fit in the arrays of `h264_sdp_create`; the profile is printed from
bytes that have a sign.

## Main definitions

* `formatParameter`: the value of a parameter
* `CarriesSets`: both parameter sets are read back, and no array is too short
* `CarriesProfile`: the profile is the three bytes of the SPS

## Main results

* `h264SdpCreate_eq`: the text of a description
* `carriesSets_iff`: which parameter sets are read back
* `carriesProfile_iff`: which profiles are
-/

namespace CppServerStudio

open Scanning Delimiters

/-! ## The text of a description -/

/-- `title_sdp`. -/
def titleSdp : Bytes :=
  ofString "v=0\r\n" ++ ofString "o=- 0 0 IN IP4 0.0.0.0\r\n" ++
  ofString "s=Streamed by RtspServer Study\r\n" ++ ofString "c=IN IP4 0.0.0.0\r\n" ++
  ofString "t=0 0\r\n" ++ ofString "a=range:npt=now-\r\n"

/-- The text of `video_sdp` in front of the parameters of the format. -/
def videoHead (payloadType timeBase : ℤ) : Bytes :=
  ofString "m=video 0 RTP/AVP " ++ decimalInt payloadType ++ ofString "\na=rtpmap:" ++
  decimalInt payloadType ++ ofString " H264/" ++ decimalInt timeBase ++ ofString "\na=fmtp:" ++
  decimalInt payloadType ++ ofString " "

/-- The parameters of the format, with the texts of the profile and of the parameter sets. -/
def formatText (profile strSps strPps : Bytes) : Bytes :=
  ofString "profile-level-id=" ++ (profile ++ (ofString "; packetization-mode=1; " ++
    (ofString "sprop-parameter-sets=" ++ (strSps ++ ofString "," ++ strPps ++ ofString "\n"))))

/-- The text of a set in an array of 100 bytes. -/
def setText (set : Bytes) : Bytes := if set.length ≤ 72 then base64 set else []

theorem avBase64Encode_set (set : Bytes) : avBase64Encode 100 set set.length =
    .ok (if set.length ≤ 72 then some (base64 set) else none) := by
  rw [avBase64Encode, Int.toNat_natCast, readChars_length, avBase64Size]
  split_ifs with hno hfits
  · omega
  · rfl
  · rfl
  · omega

theorem length_setText (set : Bytes) : (setText set).length ≤ 96 := by
  have hlength := length_base64 set
  rw [avBase64Size] at hlength
  rw [setText]
  split
  · omega
  · exact Nat.zero_le _

theorem length_decimalInt (n : Int32) : (decimalInt n.toInt).length ≤ 11 := by
  have hlow := n.le_toInt
  have hhigh := n.toInt_lt
  have hdigits : (decimal n.toInt.natAbs).length ≤ 10 := by
    rw [decimal, List.length_map, Nat.length_toDigits_le_iff (by norm_num) (by norm_num)]
    omega
  rw [decimalInt]
  split
  · rw [List.length_cons]
    omega
  · omega

theorem length_hexSix {n : ℕ} (h : n < 2 ^ 32) : (hexSix n).length ≤ 8 := by
  have hdigits : (Nat.digits 16 n).length ≤ 8 :=
    (Nat.digits_length_le_iff (by norm_num) n).mpr (h.trans_eq (by norm_num))
  simp only [hexSix, List.length_append, List.length_replicate, List.length_map,
    List.length_reverse]
  omega

/-- `video_sdp` is long enough for the text of a description. -/
theorem length_text_le (payloadType timeBase : Int32) {id : ℕ} (hid : id < 2 ^ 32)
    (sps pps : Bytes) : (videoHead payloadType.toInt timeBase.toInt ++
      formatText (hexSix id) (setText sps) (setText pps)).length ≤ 1023 := by
  have hpayload := length_decimalInt payloadType
  have htime := length_decimalInt timeBase
  have hhex := length_hexSix hid
  have hsps := length_setText sps
  have hpps := length_setText pps
  simp only [videoHead, formatText, List.length_append, ofString, List.length_map]
  simp
  omega

/-- **The text of a description**. -/
theorem h264SdpCreate_eq {sps : Bytes} {id : UInt32} (hid : profileLevelId sps sps.length = .ok id)
    (pps : Bytes) (payloadType timeBase : Int32) :
    h264SdpCreate sps sps.length pps pps.length payloadType.toInt timeBase.toInt =
        .ok (titleSdp ++ (videoHead payloadType.toInt timeBase.toInt ++
          formatText (hexSix id.toNat) (setText sps) (setText pps))) := by
  have htext : ∀ set : Bytes, (if set.length ≤ 72 then some (base64 set) else none).getD [] =
      setText set := by
    intro set
    rw [setText]
    split <;> rfl
  rw [h264SdpCreate, hid, ok_bind, avBase64Encode_set, ok_bind, avBase64Encode_set, ok_bind,
    htext, htext]
  have hvideo : ofString "m=video 0 RTP/AVP " =
      ofString "m=video " ++ (decimalInt 0 ++ ofString " RTP/AVP ") := rfl
  have hprofile :
      ofString " profile-level-id=" = ofString " " ++ ofString "profile-level-id=" := rfl
  have hmode : ofString "; packetization-mode=1; " =
      ofString "; packetization-mode=" ++ (decimalInt 1 ++ ofString "; ") := rfl
  have hsprop : ofString "; sprop-parameter-sets=" =
      ofString "; " ++ ofString "sprop-parameter-sets=" := rfl
  refine congrArg Except.ok ?_
  change titleSdp ++ List.take 1023 _ = _
  rw [List.append_cancel_left_eq]
  have hlength := length_text_le payloadType timeBase id.toNat_lt sps pps
  refine (congrArg (List.take 1023) ?_).trans (List.take_of_length_le hlength)
  simp only [videoHead, formatText, hvideo, hprofile, hmode, hsprop, List.append_assoc]

/-! ## Reading a description -/

/-- **The value of a parameter**, as a client reads it: from behind its name to the semicolon or the
end of the line. -/
def formatParameter (name sdp : Bytes) : Option Bytes :=
  (find name sdp).map fun i =>
    (sdp.drop (i + name.length)).takeWhile fun b => b ≠ ascii ';' ∧ b ≠ LF

theorem formatParameter_eq {name u value : Bytes} {b : Byte} (hu : Passes name u)
    (hvalue : ∀ ch ∈ value, ch ≠ ascii ';' ∧ ch ≠ LF) (hb : b = ascii ';' ∨ b = LF)
    (rest : Bytes) : formatParameter name (u ++ (name ++ (value ++ b :: rest))) = some value := by
  have hdrop : (u ++ (name ++ (value ++ b :: rest))).drop (u.length + name.length) =
      value ++ b :: rest := by
    rw [← List.drop_drop, List.drop_left, List.drop_left]
  rw [formatParameter, find_of_passes hu, Option.map_some, hdrop,
    List.takeWhile_append_of_pos (by simpa using hvalue), List.takeWhile_cons,
    if_neg (by simp; tauto), List.append_nil]

/-- A byte that is neither a digit nor a minus sign. -/
theorem notMem_decimalInt {c : Byte} (hc : isDigit c = false) (hminus : c ≠ ascii '-') (n : ℤ) :
    c ∉ decimalInt n := by
  have hdecimal : ∀ m, c ∉ decimal m := by
    intro m hm
    rw [isDigit_of_mem_decimal c hm] at hc
    cases hc
  rw [decimalInt]
  split
  · rw [List.mem_cons, not_or]
    exact ⟨hminus, hdecimal _⟩
  · exact hdecimal _

/-- `%06X` writes digits. -/
theorem mem_hexSix {n : ℕ} {b : Byte} (h : b ∈ hexSix n) : ∃ d < 16, b = hexDigit d := by
  rw [hexSix, List.mem_append] at h
  rcases h with h | h
  · exact ⟨0, by norm_num, List.eq_of_mem_replicate h⟩
  · obtain ⟨d, hd, rfl⟩ := List.mem_map.mp h
    exact ⟨d, Nat.digits_lt_base (by norm_num) (List.mem_reverse.mp hd), rfl⟩

/-- The names of the parameters do not begin in front of them. -/
theorem passes_videoHead (name : Bytes) {c : Byte} (hname : name.head? = some c)
    (hc : isDigit c = false) (hminus : c ≠ ascii '-')
    (hpieces : ∀ u ∈ [titleSdp, ofString "m=video 0 RTP/AVP ", ofString "\na=rtpmap:",
      ofString " H264/", ofString "\na=fmtp:", ofString " "], Passes name u)
    (payloadType timeBase : ℤ) : Passes name (titleSdp ++ videoHead payloadType timeBase) := by
  obtain ⟨rest, rfl⟩ : ∃ rest, name = c :: rest := by
    cases name with
    | nil => cases hname
    | cons b rest => exact ⟨rest, by rw [Option.some.inj hname]⟩
  have hdecimal : ∀ n, Passes (c :: rest) (decimalInt n) :=
    fun n => passes_of_notMem (notMem_decimalInt hc hminus n)
  simp only [List.mem_cons, List.not_mem_nil, or_false, forall_eq_or_imp, forall_eq] at hpieces
  obtain ⟨htitle, hvideo, hrtpmap, hcodec, hfmtp, hblank⟩ := hpieces
  apply htitle.append
  exact ((((((((hvideo.append (hdecimal _)).append hrtpmap).append (hdecimal _)).append
    hcodec).append (hdecimal _)).append hfmtp).append (hdecimal _)).append hblank)

/-! ## The parameter sets -/

/-- **The parameter sets of a description**: two fields in base64 that decode to the SPS and to the
PPS, with no byte behind the end of an array. -/
structure CarriesSets (sps pps sdp : Bytes) : Prop where
  fields : ∃ a b, formatParameter (ofString "sprop-parameter-sets=") sdp =
    some (a ++ ofString "," ++ b) ∧ ascii ',' ∉ a ∧ ascii ',' ∉ b ∧
      decodeBase64 a = sps ∧ decodeBase64 b = pps
  str_sps : ∀ text, avBase64Encode 100 sps sps.length = .ok (some text) → text.length + 1 ≤ 100
  str_pps : ∀ text, avBase64Encode 100 pps pps.length = .ok (some text) → text.length + 1 ≤ 100
  video_sdp : ∃ video, sdp = titleSdp ++ video ∧ video.length + 1 ≤ 1024

/-- A text that does not fit is not written. -/
theorem length_of_avBase64Encode {set text : Bytes}
    (h : avBase64Encode 100 set set.length = .ok (some text)) : text.length + 1 ≤ 100 := by
  have hlength := length_base64 set
  rw [avBase64Size] at hlength
  rw [avBase64Encode_set, Except.ok.injEq] at h
  split at h
  · rw [← Option.some.inj h]
    omega
  · cases h

theorem notMem_base64 {c : Byte} (hc : c ∉ b64) (hpad : c ≠ ascii '=') (bs : Bytes) :
    c ∉ base64 bs := by
  intro h
  rcases mem_base64 h with h | h
  · exact hc h
  · exact hpad h

theorem notMem_setText {c : Byte} (hc : c ∉ b64) (hpad : c ≠ ascii '=') (set : Bytes) :
    c ∉ setText set := by
  rw [setText]
  split
  · exact notMem_base64 hc hpad set
  · exact List.not_mem_nil

/-- The value of `sprop-parameter-sets`. -/
theorem formatParameter_sets (payloadType timeBase : ℤ) (n : ℕ) (sps pps : Bytes) :
    formatParameter (ofString "sprop-parameter-sets=") (titleSdp ++
      (videoHead payloadType timeBase ++ formatText (hexSix n) (setText sps) (setText pps))) =
        some (setText sps ++ ofString "," ++ setText pps) := by
  have hhex : Passes (ofString "sprop-parameter-sets=") (hexSix n) := by
    refine passes_of_notMem fun h => ?_
    obtain ⟨d, hd, heq⟩ := mem_hexSix h
    revert heq
    interval_cases d <;> decide
  have hhead := passes_videoHead (ofString "sprop-parameter-sets=") rfl rfl (by decide)
    (by decide +kernel) payloadType timeBase
  have hprofile : Passes (ofString "sprop-parameter-sets=") (ofString "profile-level-id=") := by
    decide
  have hmode : Passes (ofString "sprop-parameter-sets=") (ofString "; packetization-mode=1; ") := by
    decide
  have hvalue : ∀ ch ∈ setText sps ++ ofString "," ++ setText pps, ch ≠ ascii ';' ∧ ch ≠ LF := by
    intro ch hch
    refine ⟨?_, ?_⟩
    all_goals
      rintro rfl
      simp only [List.mem_append] at hch
      rcases hch with (hch | hch) | hch
      · exact notMem_setText (by decide) (by decide) _ hch
      · exact absurd hch (by decide)
      · exact notMem_setText (by decide) (by decide) _ hch
  have hfind := formatParameter_eq (((hhead.append hprofile).append hhex).append hmode) hvalue
    (.inr rfl) []
  rw [← hfind, formatText]
  simp only [List.append_assoc]
  rfl

/-- The comma between two fields is found. -/
theorem fields_inj {a b a' b' : Bytes} (ha : ascii ',' ∉ a) (ha' : ascii ',' ∉ a')
    (h : a ++ ofString "," ++ b = a' ++ ofString "," ++ b') : a = a' ∧ b = b' := by
  have hcut : cutAt [ascii ','] (a ++ ([ascii ','] ++ b)) = some (a, b) := cutAt_first ha b
  have hcut' : cutAt [ascii ','] (a' ++ ([ascii ','] ++ b')) = some (a', b') :=
    cutAt_first ha' b'
  have hcomma : ofString "," = [ascii ','] := rfl
  rw [hcomma, List.append_assoc, List.append_assoc] at h
  rw [h, hcut', Option.some.injEq, Prod.mk.injEq] at hcut
  exact ⟨hcut.1.symm, hcut.2.symm⟩

theorem decodeBase64_setText {set : Bytes} :
    decodeBase64 (setText set) = set ↔ set.length ≤ 72 := by
  rw [setText]
  split
  · rename_i hfits
    simp only [hfits, iff_true]
    exact decodeBase64_base64 set
  · rename_i hno
    simp only [hno, iff_false]
    intro hnil
    rw [← show ([] : Bytes) = set from hnil] at hno
    exact hno (Nat.zero_le _)

theorem comma_notMem_setText (set : Bytes) : ascii ',' ∉ setText set :=
  notMem_setText (by decide) (by decide) set

/-- A set that does not fit is not read back. -/
theorem lengths_of_carriesSets {sps pps : Bytes} {payloadType timeBase : ℤ} {n : ℕ}
    (h : CarriesSets sps pps (titleSdp ++ (videoHead payloadType timeBase ++
      formatText (hexSix n) (setText sps) (setText pps)))) : sps.length ≤ 72 ∧ pps.length ≤ 72 := by
  obtain ⟨a, b, hparam, ha, hb, hsps, hpps⟩ := h.fields
  rw [formatParameter_sets, Option.some.injEq] at hparam
  obtain ⟨rfl, rfl⟩ := fields_inj (comma_notMem_setText sps) ha hparam
  exact ⟨decodeBase64_setText.mp hsps, decodeBase64_setText.mp hpps⟩

/-- **The parameter sets are read back** exactly if neither is longer than 72 bytes. -/
theorem carriesSets_iff (sps pps : Bytes) (payloadType timeBase : Int32) :
    (∃ sdp, h264SdpCreate sps sps.length pps pps.length payloadType.toInt timeBase.toInt =
      .ok sdp ∧ CarriesSets sps pps sdp) ↔ sps.length ≤ 72 ∧ pps.length ≤ 72 := by
  obtain ⟨id, hid⟩ := profileLevelId_isOk sps
  have hlength := length_text_le payloadType timeBase id.toNat_lt sps pps
  rw [h264SdpCreate_eq hid pps payloadType timeBase]
  simp only [Except.ok.injEq, exists_eq_left']
  constructor
  · exact lengths_of_carriesSets
  · rintro ⟨hsps, hpps⟩
    exact {
      fields := ⟨setText sps, setText pps, formatParameter_sets _ _ _ _ _, comma_notMem_setText sps,
        comma_notMem_setText pps, decodeBase64_setText.mpr hsps, decodeBase64_setText.mpr hpps⟩
      str_sps := fun text => length_of_avBase64Encode
      str_pps := fun text => length_of_avBase64Encode
      video_sdp := ⟨_, rfl, by omega⟩ }

/-- An SPS of 73 bytes is missing in the description. -/
theorem not_carriesSets : ¬ ∀ (sps pps : Bytes) (payloadType timeBase : Int32), ∃ sdp,
    h264SdpCreate sps sps.length pps pps.length payloadType.toInt timeBase.toInt = .ok sdp ∧
      CarriesSets sps pps sdp := by
  intro h
  obtain ⟨sdp, hsdp, hcarries⟩ := h (List.replicate 73 0x67) [] 96 90000
  obtain ⟨id, hid⟩ := profileLevelId_isOk (List.replicate 73 0x67)
  rw [h264SdpCreate_eq hid [] 96 90000, Except.ok.injEq] at hsdp
  rw [← hsdp] at hcarries
  have hlength := (lengths_of_carriesSets hcarries).1
  rw [List.length_replicate] at hlength
  norm_num at hlength

/-! ## The profile -/

/-- The two digits of a byte. -/
def hexByte (b : Byte) : Bytes := [hexDigit (b.toNat / 16), hexDigit (b.toNat % 16)]

/-- **The profile of a description**: the digits of the three bytes behind the header of the
SPS. -/
def CarriesProfile (b₁ b₂ b₃ : Byte) (sdp : Bytes) : Prop :=
  formatParameter (ofString "profile-level-id=") sdp = some (hexByte b₁ ++ hexByte b₂ ++ hexByte b₃)

theorem formatParameter_profile (payloadType timeBase : ℤ) (n : ℕ) (strSps strPps : Bytes) :
    formatParameter (ofString "profile-level-id=") (titleSdp ++
      (videoHead payloadType timeBase ++ formatText (hexSix n) strSps strPps)) =
        some (hexSix n) := by
  have hhead := passes_videoHead (ofString "profile-level-id=") rfl rfl (by decide)
    (by decide +kernel) payloadType timeBase
  have hvalue : ∀ ch ∈ hexSix n, ch ≠ ascii ';' ∧ ch ≠ LF := by
    intro ch hch
    obtain ⟨d, hd, rfl⟩ := mem_hexSix hch
    interval_cases d <;> decide
  have hfind := formatParameter_eq hhead hvalue (.inl rfl) (ofString " packetization-mode=1; " ++
    (ofString "sprop-parameter-sets=" ++ (strSps ++ ofString "," ++ strPps ++ ofString "\n")))
  rw [← hfind, formatText]
  simp only [List.append_assoc]
  rfl

/-- `%06X` writes six digits exactly for the numbers of 24 bits. -/
theorem length_hexSix_eq_six {n : ℕ} : (hexSix n).length = 6 ↔ n < 2 ^ 24 := by
  have hdigits : (Nat.digits 16 n).length ≤ 6 ↔ n < 16 ^ 6 :=
    Nat.digits_length_le_iff (by norm_num) n
  simp only [hexSix, List.length_append, List.length_replicate, List.length_map,
    List.length_reverse]
  omega

/-- The last `k` hexadecimal digits of a number. -/
def hexDigits : ℕ → ℕ → Bytes
  | 0, _ => []
  | k + 1, n => hexDigits k (n / 16) ++ [hexDigit (n % 16)]

/-- A number is filled up with zeros to its width. -/
theorem hexDigits_eq {k n : ℕ} (h : n < 16 ^ k) :
    List.replicate (k - (Nat.digits 16 n).length) (ascii '0') ++
      (Nat.digits 16 n).reverse.map hexDigit = hexDigits k n := by
  -- Induction on the width; the last digit is split off.
  induction k generalizing n with
  | zero =>
    obtain rfl : n = 0 := by simpa using h
    rfl
  | succ k ih =>
    rcases Nat.eq_zero_or_pos n with rfl | hpos
    · have hzero := ih (n := 0) (Nat.pow_pos (by norm_num))
      simp only [Nat.digits_zero, List.length_nil, List.reverse_nil, List.map_nil, List.append_nil,
        Nat.sub_zero] at hzero ⊢
      rw [List.replicate_succ', hzero]
      rfl
    · have hdiv := ih (n := n / 16) (by rw [pow_succ] at h; omega)
      rw [Nat.digits_def' (by norm_num) hpos, List.length_cons, Nat.add_sub_add_right,
        List.reverse_cons, List.map_append, ← List.append_assoc, hdiv]
      rfl

theorem hexSix_eq {n : ℕ} (h : n < 2 ^ 24) : hexSix n = hexDigits 6 n := by
  have hpow : 2 ^ 24 = 16 ^ 6 := by norm_num
  have hdigits := hexDigits_eq (hpow ▸ h)
  simpa only [hexSix, List.length_map, List.length_reverse] using hdigits

/-- The digits of three bytes one behind another. -/
theorem hexDigits_bytes (b₁ b₂ b₃ : Byte) :
    hexDigits 6 (b₁.toNat * 2 ^ 16 + b₂.toNat * 2 ^ 8 + b₃.toNat) =
      hexByte b₁ ++ hexByte b₂ ++ hexByte b₃ := by
  have h₁ := b₁.toNat_lt
  have h₂ := b₂.toNat_lt
  have h₃ := b₃.toNat_lt
  simp only [hexDigits, hexByte, List.nil_append, List.cons_append, List.cons.injEq, and_true]
  refine ⟨?_, ?_, ?_, ?_, ?_, ?_⟩
  all_goals
    congr 1
    omega

/-- The sign of a `char` fills the bits in front of it. -/
theorem toNat_charBits (b : Byte) :
    (charBits b).toNat = if b < 0x80 then b.toNat else 2 ^ 32 - 2 ^ 8 + b.toNat := by
  have hb := b.toNat_lt
  have hbits : charBits b = UInt32.ofBitVec (b.toBitVec.signExtend 32) := rfl
  rw [hbits, UInt32.toNat, BitVec.toNat_signExtend]
  simp [BitVec.msb_eq_decide, UInt8.lt_iff_toNat_lt]
  split <;> split <;> omega

theorem toNat_charBits_low {b : Byte} (h : b < 0x80) : (charBits b).toNat = b.toNat := by
  rw [toNat_charBits, if_pos h]

/-- The bits in front of a byte with the sign bit stay set when the byte is shifted. -/
theorem le_charBits_high {b : Byte} (h : ¬ b < 0x80) {k : ℕ} (hk : k ≤ 16) :
    2 ^ 24 ≤ (charBits b).toNat * 2 ^ k % 2 ^ 32 := by
  have hb := b.toNat_lt
  rw [toNat_charBits, if_neg h]
  interval_cases k <;> omega

/-- The profile of three bytes without a sign. -/
theorem toNat_profile {b₁ b₂ b₃ : Byte} (h₁ : b₁ < 0x80) (h₂ : b₂ < 0x80) (h₃ : b₃ < 0x80) :
    (charBits b₁ <<< 16 ||| charBits b₂ <<< 8 ||| charBits b₃).toNat =
      b₁.toNat * 2 ^ 16 + b₂.toNat * 2 ^ 8 + b₃.toNat := by
  have hlt₁ := b₁.toNat_lt
  have hlt₂ := b₂.toNat_lt
  have hlt₃ := b₃.toNat_lt
  have hhigh : (charBits b₁ <<< 16).toNat = b₁.toNat <<< 16 := by
    rw [UInt32.toNat_shiftLeft, toNat_charBits_low h₁]
    simp [Nat.shiftLeft_eq]
    omega
  have hmiddle : (charBits b₂ <<< 8).toNat = b₂.toNat <<< 8 := by
    rw [UInt32.toNat_shiftLeft, toNat_charBits_low h₂]
    simp [Nat.shiftLeft_eq]
    omega
  have hsum : b₁.toNat <<< 16 ||| b₂.toNat <<< 8 = (b₁.toNat * 256 + b₂.toNat) <<< 8 := by
    rw [← Nat.shiftLeft_add_eq_or_of_lt (by simp [Nat.shiftLeft_eq]; omega)]
    simp only [Nat.shiftLeft_eq]
    omega
  rw [UInt32.toNat_or, UInt32.toNat_or, hhigh, hmiddle, toNat_charBits_low h₃, hsum,
    ← Nat.shiftLeft_add_eq_or_of_lt (by omega), Nat.shiftLeft_eq]
  omega

/-- The profile of three bytes, one of which has a sign. -/
theorem le_toNat_profile {b₁ b₂ b₃ : Byte} (h : ¬ (b₁ < 0x80 ∧ b₂ < 0x80 ∧ b₃ < 0x80)) :
    2 ^ 24 ≤ (charBits b₁ <<< 16 ||| charBits b₂ <<< 8 ||| charBits b₃).toNat := by
  have hhigh : (charBits b₁ <<< 16).toNat = (charBits b₁).toNat * 2 ^ 16 % 2 ^ 32 := by
    simp [UInt32.toNat_shiftLeft, Nat.shiftLeft_eq]
  have hmiddle : (charBits b₂ <<< 8).toNat = (charBits b₂).toNat * 2 ^ 8 % 2 ^ 32 := by
    simp [UInt32.toNat_shiftLeft, Nat.shiftLeft_eq]
  rw [UInt32.toNat_or, UInt32.toNat_or, hhigh, hmiddle]
  by_cases h₃ : b₃ < 0x80
  · by_cases h₂ : b₂ < 0x80
    · have h₁ : ¬ b₁ < 0x80 := fun h₁ => h ⟨h₁, h₂, h₃⟩
      exact ((le_charBits_high h₁ (by norm_num)).trans Nat.left_le_or).trans Nat.left_le_or
    · exact ((le_charBits_high h₂ (by norm_num)).trans Nat.right_le_or).trans Nat.left_le_or
  · have hlow := le_charBits_high h₃ (Nat.zero_le 16)
    rw [pow_zero, mul_one, Nat.mod_eq_of_lt (charBits b₃).toNat_lt] at hlow
    exact hlow.trans Nat.right_le_or

theorem profileLevelId_cons (b₀ b₁ b₂ b₃ : Byte) (rest : Bytes) :
    profileLevelId (b₀ :: b₁ :: b₂ :: b₃ :: rest) ↑(b₀ :: b₁ :: b₂ :: b₃ :: rest).length =
      .ok (charBits b₁ <<< 16 ||| charBits b₂ <<< 8 ||| charBits b₃) := by
  rw [profileLevelId, if_pos (by simp only [List.length_cons]; omega)]
  have hchar : ∀ i ≤ 3, charAt (b₀ :: b₁ :: b₂ :: b₃ :: rest) i =
      .ok ((b₀ :: b₁ :: b₂ :: b₃ :: rest).getD i NUL) := by
    intro i hi
    exact if_pos (by simp only [List.length_cons]; omega)
  rw [hchar 1 (by norm_num), hchar 2 (by norm_num), hchar 3 (by norm_num)]
  rfl

/-- **The profile is right** exactly if none of its bytes has the sign bit. -/
theorem carriesProfile_iff (b₀ b₁ b₂ b₃ : Byte) (rest pps : Bytes) (payloadType timeBase : Int32) :
    (∃ sdp, h264SdpCreate (b₀ :: b₁ :: b₂ :: b₃ :: rest) ↑(b₀ :: b₁ :: b₂ :: b₃ :: rest).length
        pps pps.length payloadType.toInt timeBase.toInt = .ok sdp ∧ CarriesProfile b₁ b₂ b₃ sdp) ↔
      b₁ < 0x80 ∧ b₂ < 0x80 ∧ b₃ < 0x80 := by
  have hsdp := h264SdpCreate_eq (profileLevelId_cons b₀ b₁ b₂ b₃ rest) pps payloadType
    timeBase
  rw [hsdp]
  simp only [Except.ok.injEq, exists_eq_left', CarriesProfile, formatParameter_profile,
    Option.some.injEq]
  constructor
  · intro heq
    by_contra hno
    have hlt := length_hexSix_eq_six.mp (congrArg List.length heq)
    exact absurd (le_toNat_profile hno) (by omega)
  · rintro ⟨h₁, h₂, h₃⟩
    have hlt₁ := UInt8.lt_iff_toNat_lt.mp h₁
    have hlt₂ := b₂.toNat_lt
    have hlt₃ := b₃.toNat_lt
    simp at hlt₁
    rw [toNat_profile h₁ h₂ h₃, hexSix_eq (by omega), hexDigits_bytes]

/-- The constraints of the profile Constrained Baseline have the sign bit. -/
theorem not_carriesProfile : ¬ ∀ (b₀ b₁ b₂ b₃ : Byte) (rest pps : Bytes)
    (payloadType timeBase : Int32), ∃ sdp, h264SdpCreate (b₀ :: b₁ :: b₂ :: b₃ :: rest)
      ↑(b₀ :: b₁ :: b₂ :: b₃ :: rest).length pps pps.length payloadType.toInt timeBase.toInt =
        .ok sdp ∧ CarriesProfile b₁ b₂ b₃ sdp := by
  intro h
  obtain ⟨sdp, hsdp, hcarries⟩ := h 0x67 0x42 0xc0 0x1e [] [] 96 90000
  rw [h264SdpCreate_eq (profileLevelId_cons 0x67 0x42 0xc0 0x1e []) [] 96 90000,
    Except.ok.injEq] at hsdp
  rw [← hsdp, CarriesProfile, formatParameter_profile, Option.some.injEq] at hcarries
  have hlt := length_hexSix_eq_six.mp (congrArg List.length hcarries)
  have hsign : ¬ ((0x42 : Byte) < 0x80 ∧ (0xc0 : Byte) < 0x80 ∧ (0x1e : Byte) < 0x80) := by decide
  exact absurd (le_toNat_profile hsign) (by omega)

end CppServerStudio
