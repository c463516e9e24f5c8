import CppServerStudio.Rtsp.H264
import CppServerStudio.Rtsp.MediaStream

/-!
# The session description of a stream

`RtspMediaStream::h264_sdp_create` writes the parameter sets of a stream in base64. A C string in
memory ends in a NUL, so that much of it may be read.

## Main definitions

* `avBase64Encode`: base64, into a text of a given size
* `h264SdpCreate`: the description

## Main results

* `h264SdpCreate_isOk`: no byte outside of the parameter sets is read if their lengths are right
-/

namespace CppServerStudio

open Scanning

/-! ## Base64 -/

/-- The digits of base64. -/
def b64 : Bytes := ofString "ABCDEFGHIJKLMNOPQRSTUVWXYZabcdefghijklmnopqrstuvwxyz0123456789+/"

/-- `AV_BASE64_SIZE`: the size of a text for this many bytes, with its NUL. -/
def avBase64Size (n : ℕ) : ℕ := (n + 2) / 3 * 4 + 1

/-- The inner loop of `av_base64_encode_l`: the digits that are complete, or all of them behind the
last byte; and `i_shift` after it. -/
def base64Digits (last : Bool) (iBits : UInt32) (iShift : ℤ) : Bytes × ℤ :=
  let digit := b64.getD (((iBits <<< 6) >>> UInt32.ofNat iShift.toNat) &&& 0x3f).toNat NUL
  if 6 < iShift - 6 ∨ last ∧ 0 < iShift - 6 then
    let (digits, shift) := base64Digits last iBits (iShift - 6)
    (digit :: digits, shift)
  else ([digit], iShift - 6)
termination_by iShift.toNat
decreasing_by omega

/-- The outer loop of `av_base64_encode_l`. -/
def base64Loop : Bytes → UInt32 → ℤ → Bytes
  | [], _, _ => []
  | b :: bs, iBits, iShift =>
    let iBits := (iBits <<< 8) + b.toUInt32
    let (digits, iShift) := base64Digits bs.isEmpty iBits (iShift + 8)
    digits ++ base64Loop bs iBits iShift

/-- The digits of some bytes, filled up with `=`. -/
def base64 (bs : Bytes) : Bytes :=
  let digits := base64Loop bs 0 0
  digits ++ List.replicate ((4 - digits.length % 4) % 4) (ascii '=')

/-- The first `n` bytes of a string, which ends in a NUL. -/
def readChars (data : Bytes) (n : ℕ) : Except NalFault Bytes :=
  if n ≤ data.length + 1 then .ok ((data ++ [NUL]).take n) else .error .overread

/-- **`av_base64_encode`**, unless the text is too small. -/
def avBase64Encode (outSize : ℕ) (data : Bytes) (inSize : ℤ) : Except NalFault (Option Bytes) :=
  -- a negative size is a large `size_t`
  if inSize < 0 ∨ (2 ^ 32 - 1) / 4 ≤ inSize ∨ outSize < avBase64Size inSize.toNat then .ok none
  else do
    let bytes ← readChars data inSize.toNat
    .ok (some (base64 bytes))

/-! ## The description -/

/-- `%06X`. -/
def hexSix (n : ℕ) : Bytes :=
  let digits := (Nat.digits 16 n).reverse.map hexDigit
  List.replicate (6 - digits.length) (ascii '0') ++ digits

/-- A `char`, which has a sign, as an `unsigned`. -/
def charBits (b : Byte) : UInt32 := b.toInt8.toInt32.toUInt32

/-- `profile_level_id`: the three bytes behind the header byte of an SPS. -/
def profileLevelId (sps : Bytes) (spsLen : ℤ) : Except NalFault UInt32 :=
  if 4 ≤ spsLen then do
    let id := charBits (← charAt sps 1) <<< 16
    let id := id ||| (charBits (← charAt sps 2) <<< 8)
    .ok (id ||| charBits (← charAt sps 3))
  else .ok 0

/-- **`h264_sdp_create`**. A set that does not fit in the 100 bytes of `str_sps` or `str_pps` leaves
them empty. -/
def h264SdpCreate (sps : Bytes) (spsLen : ℤ) (pps : Bytes) (ppsLen : ℤ)
    (payloadType timeBase : ℤ) : Except NalFault Bytes := do
  let profileLevelId ← profileLevelId sps spsLen
  let strSps ← avBase64Encode 100 sps spsLen
  let strPps ← avBase64Encode 100 pps ppsLen
  let h264StapA := 1
  let videoSdp :=
    ofString "m=video " ++ decimalInt 0 ++ ofString " RTP/AVP " ++ decimalInt payloadType ++
    ofString "\na=rtpmap:" ++ decimalInt payloadType ++ ofString " H264/" ++ decimalInt timeBase ++
    ofString "\na=fmtp:" ++ decimalInt payloadType ++ ofString " profile-level-id=" ++
    hexSix profileLevelId.toNat ++ ofString "; packetization-mode=" ++ decimalInt h264StapA ++
    ofString "; sprop-parameter-sets=" ++ strSps.getD [] ++ ofString "," ++ strPps.getD [] ++
    ofString "\n"
  let titleSdp :=
    ofString "v=0\r\n" ++ ofString "o=- 0 0 IN IP4 0.0.0.0\r\n" ++
    ofString "s=Streamed by RtspServer Study\r\n" ++ ofString "c=IN IP4 0.0.0.0\r\n" ++
    ofString "t=0 0\r\n" ++ ofString "a=range:npt=now-\r\n"
  -- `video_sdp` has 1024 bytes, with the NUL
  .ok (titleSdp ++ videoSdp.take 1023)

theorem readChars_length (data : Bytes) : readChars data data.length = .ok data := by
  rw [readChars, if_pos (Nat.le_succ _), List.take_left]

theorem avBase64Encode_isOk (outSize : ℕ) (data : Bytes) :
    ∃ text, avBase64Encode outSize data data.length = .ok text := by
  rw [avBase64Encode, Int.toNat_natCast, readChars_length]
  split_ifs
  · exact ⟨_, rfl⟩
  · exact ⟨_, rfl⟩

theorem profileLevelId_isOk (sps : Bytes) : ∃ id, profileLevelId sps sps.length = .ok id := by
  rw [profileLevelId]
  split_ifs with hlen
  · have hchar : ∀ i ≤ 3, charAt sps i = .ok (sps.getD i NUL) := fun i hi => if_pos (by omega)
    rw [hchar 1 (by omega), hchar 2 (by omega), hchar 3 (by omega)]
    exact ⟨_, rfl⟩
  · exact ⟨_, rfl⟩

/-- **Nothing outside of the parameter sets is read** if their lengths are right. -/
theorem h264SdpCreate_isOk (sps pps : Bytes) (payloadType timeBase : ℤ) :
    ∃ sdp, h264SdpCreate sps sps.length pps pps.length payloadType timeBase = .ok sdp := by
  obtain ⟨id, hid⟩ := profileLevelId_isOk sps
  obtain ⟨strSps, hsps⟩ := avBase64Encode_isOk 100 sps
  obtain ⟨strPps, hpps⟩ := avBase64Encode_isOk 100 pps
  rw [h264SdpCreate, hid, ok_bind, hsps, ok_bind, hpps, ok_bind]
  exact ⟨_, rfl⟩

end CppServerStudio
