import CppServerStudio.Rtsp.RtpStream

/-!
# The accessors of an RTP packet

The accessors find the parts of a packet from its header: contributing sources, an extension, the
payload, and padding whose last byte is the number of its bytes. `RtpPacket::getPayloadSize` passes
the number of readable bytes, with the four bytes of the interleaved framing, where
`RtpHeader::getPayloadSize` takes the size of the packet without them.

## Main definitions

* `RtpContent`, `RtpContent.bytes`: what an RTP packet holds, and its bytes
* `RtpPacket.getPaddingSize`, `RtpPacket.getPayloadSize`: the accessors of the sizes
* `RtpContent.Stored`: a buffer holds the packet behind its interleaved framing

## Main results

* `RtpContent.Stored.getPayload`: the payload is found in every packet
* `RtpContent.Stored.accessors_iff`: the packets whose payload size is right
-/

namespace CppServerStudio

open Scanning

/-! ## Packets -/

/-- The extension of a header: its first two bytes, and its words. -/
structure RtpExtension where
  reserved : UInt16
  words : List UInt32
  length_lt : words.length < 2 ^ 16

/-- Padding: a last byte that counts it, and what is in front of that byte. -/
structure RtpPadding where
  fill : Bytes
  length_lt : fill.length < 255

/-- **What an RTP packet holds.** -/
structure RtpContent where
  version : ℕ
  mark : Bool
  pt : Byte
  seq : UInt16
  timestamp : UInt32
  ssrc : UInt32
  csrcs : List UInt32
  ext : Option RtpExtension
  payload : Bytes
  padding : Option RtpPadding
  length_csrcs : csrcs.length ≤ 15

def RtpExtension.bytes (e : RtpExtension) : Bytes :=
  be16 e.reserved ++ be16 (UInt16.ofNat e.words.length) ++ e.words.flatMap be32

/-- The number of bytes that the last byte of the padding states. -/
def RtpPadding.count (p : RtpPadding) : ℕ := p.fill.length + 1

def RtpPadding.bytes (p : RtpPadding) : Bytes := p.fill ++ [UInt8.ofNat p.count]

namespace RtpContent

/-- The fixed header. -/
def header (c : RtpContent) : RtpHeader where
  version := c.version
  padding := c.padding.isSome
  ext := c.ext.isSome
  csrc := c.csrcs.length
  mark := c.mark
  pt := c.pt
  seq := c.seq
  timestamp := c.timestamp
  ssrc := c.ssrc

/-- The bytes behind the fixed header, up to the payload. -/
def optional (c : RtpContent) : Bytes :=
  c.csrcs.flatMap be32 ++ (c.ext.map RtpExtension.bytes).getD []

def paddingBytes (c : RtpContent) : Bytes := (c.padding.map RtpPadding.bytes).getD []

/-- **The bytes of a packet.** -/
def bytes (c : RtpContent) : Bytes :=
  c.header.bytes ++ (c.optional ++ (c.payload ++ c.paddingBytes))

/-- The packet is what a buffer holds behind four bytes of framing. -/
structure Stored (c : RtpContent) (p : RtpPacket) : Prop where
  valid : p.data.Valid
  readable : ∃ framing : Bytes, framing.length = rtpTcpHeaderSize ∧
    p.data.readable = framing ++ c.bytes

end RtpContent

/-! ## The accessors of sizes -/

namespace RtpPacket

/-- The padding flag of the header. -/
def hasPadding (p : RtpPacket) : Bool := (p.byteAt rtpTcpHeaderSize).toNat / 32 % 2 = 1

/-- `getPaddingSize`: the last byte of `rtpSize` bytes from the header on, which is read wherever it
lies. -/
def getPaddingSize (p : RtpPacket) (rtpSize : ℕ) : Except RtpFault ℕ :=
  if p.hasPadding then
    let last := p.data.readIndex + rtpTcpHeaderSize + rtpSize - 1
    if 0 ≤ last ∧ last < p.data.buffer.length then .ok (p.data.buffer.getD last.toNat 0).toNat
    else .error .overread
  else .ok 0

/-- `RtpHeader::getPayloadSize`, in the arithmetic of `size_t`. -/
def getPayloadSizeOf (p : RtpPacket) (rtpSize : ℕ) : Except RtpFault ℕ := do
  let invalidSize := p.getPayloadOffset + (← p.getPaddingSize rtpSize)
  .ok (sizeSub (sizeSub rtpSize invalidSize) rtpHeaderSize)

/-- **`RtpPacket::getPayloadSize`**. -/
def getPayloadSize (p : RtpPacket) : Except RtpFault ℕ :=
  p.getPayloadSizeOf p.data.readablebytes.toNat

end RtpPacket

/-! ## The parts of a stored packet -/

theorem length_flatMap_be32 (words : List UInt32) :
    (words.flatMap be32).length = words.length * 4 := by
  induction words with
  | nil => rfl
  | cons word words ih =>
    rw [List.flatMap_cons, List.length_append, ih, length_be32, List.length_cons]
    omega

theorem length_extension_bytes (e : RtpExtension) : e.bytes.length = 4 + e.words.length * 4 := by
  rw [RtpExtension.bytes, List.length_append, List.length_append, length_flatMap_be32]
  rfl

namespace RtpContent.Stored

variable {c : RtpContent} {p : RtpPacket}

/-- A byte behind the fixed header. -/
theorem byteAt_optional (h : c.Stored p) {i : ℕ} (hi : i < c.optional.length) :
    p.byteAt (rtpTcpHeaderSize + rtpHeaderSize + i) = c.optional.getD i 0 := by
  obtain ⟨framing, hlen, hread⟩ := h.readable
  have hfront : (framing ++ c.header.bytes).length = rtpTcpHeaderSize + rtpHeaderSize := by
    rw [List.length_append, hlen, RtpHeader.length_bytes]
    rfl
  have hsplit : p.data.readable =
      (framing ++ c.header.bytes) ++ (c.optional ++ (c.payload ++ c.paddingBytes)) := by
    rw [hread, bytes, List.append_assoc]
  have hin : rtpTcpHeaderSize + rtpHeaderSize + i < p.data.readable.length := by
    rw [hsplit, List.length_append, hfront, List.length_append]
    omega
  rw [RtpPacket.byteAt_eq h.valid hin, hsplit, ← hfront,
    List.getD_append_right _ _ _ _ (Nat.le_add_right _ _), Nat.add_sub_cancel_left,
    List.getD_append _ _ _ _ hi]

/-- The first byte of the header. -/
theorem flags (h : c.Stored p) : (p.byteAt rtpTcpHeaderSize).toNat =
    c.version % 4 * 64 + c.padding.isSome.toNat * 32 + c.ext.isSome.toNat * 16 +
      c.csrcs.length := by
  obtain ⟨framing, hlen, hread⟩ := h.readable
  have hbyte := RtpPacket.byteAt_header h.valid hread hlen (i := 0) (by omega)
  have hcsrcs := c.length_csrcs
  rw [Nat.add_zero] at hbyte
  rw [hbyte]
  have hlow : c.csrcs.length % 16 = c.csrcs.length := Nat.mod_eq_of_lt (by omega)
  have hversion : c.version % 4 < 4 := Nat.mod_lt _ (by omega)
  have hpadding : c.padding.isSome.toNat ≤ 1 := Bool.toNat_le _
  have hext : c.ext.isSome.toNat ≤ 1 := Bool.toNat_le _
  simp only [RtpHeader.bytes, header, List.cons_append, List.getD_cons_zero, hlow]
  exact UInt8.toNat_ofNat_of_lt' (show _ < 256 by omega)

theorem getCsrcSize (h : c.Stored p) : p.getCsrcSize = (c.csrcs.flatMap be32).length := by
  have hcsrcs := c.length_csrcs
  rw [RtpPacket.getCsrcSize, h.flags, length_flatMap_be32]
  omega

theorem hasExt (h : c.Stored p) : p.hasExt = c.ext.isSome := by
  have hcsrcs := c.length_csrcs
  rw [RtpPacket.hasExt, h.flags]
  cases c.ext <;> simp <;> omega

theorem hasPadding (h : c.Stored p) : p.hasPadding = c.padding.isSome := by
  have hcsrcs := c.length_csrcs
  have hext : c.ext.isSome.toNat ≤ 1 := Bool.toNat_le _
  rw [RtpPacket.hasPadding, h.flags]
  cases c.padding <;> simp <;> omega

/-- The size of an extension, without its first four bytes. -/
theorem getExtSize (h : c.Stored p) {e : RtpExtension} (hext : c.ext = some e) :
    4 + p.getExtSize = e.bytes.length := by
  have hsome : p.hasExt = true := by rw [h.hasExt, hext]; rfl
  have hoptional : c.optional = c.csrcs.flatMap be32 ++
      (be16 e.reserved ++ be16 (UInt16.ofNat e.words.length) ++ e.words.flatMap be32) := by
    rw [optional, hext]
    rfl
  have hbyte : ∀ i < 4, p.byteAt (rtpTcpHeaderSize + rtpHeaderSize + p.getCsrcSize + i) =
      (be16 e.reserved ++ be16 (UInt16.ofNat e.words.length)).getD i 0 := by
    intro i hi
    have hlen : (be16 e.reserved ++ be16 (UInt16.ofNat e.words.length)).length = 4 := rfl
    rw [h.getCsrcSize, Nat.add_assoc, h.byteAt_optional, hoptional,
      List.getD_append_right _ _ _ _ (Nat.le_add_right _ _), Nat.add_sub_cancel_left,
      List.getD_append _ _ _ _ (by omega)]
    rw [hoptional, List.length_append, List.length_append, hlen]
    omega
  -- the two bytes of the length, in network order
  have hwords := congrArg UInt16.toNat (ntohs_be16 (UInt16.ofNat e.words.length))
  rw [ntohs, UInt16.toNat_ofNat_of_lt' e.length_lt, UInt16.toNat_ofNat'] at hwords
  rw [RtpPacket.getExtSize, if_pos hsome, length_extension_bytes]
  dsimp only
  rw [hbyte 2 (by omega), hbyte 3 (by omega)]
  have hlow := ((be16 (UInt16.ofNat e.words.length)).getD 0 0).toNat_lt
  have hhigh := ((be16 (UInt16.ofNat e.words.length)).getD 1 0).toNat_lt
  rw [Nat.mod_eq_of_lt (by omega)] at hwords
  change 4 + (((be16 (UInt16.ofNat e.words.length)).getD 0 0).toNat * 256 +
    ((be16 (UInt16.ofNat e.words.length)).getD 1 0).toNat) * 4 = _
  rw [hwords]

/-- The parts in front of the payload. -/
theorem getPayloadOffset (h : c.Stored p) : p.getPayloadOffset = c.optional.length := by
  rw [RtpPacket.getPayloadOffset, h.getCsrcSize, h.hasExt, optional, List.length_append]
  cases hext : c.ext with
  | none => rfl
  | some e =>
    rw [Option.isSome_some, if_pos rfl, h.getExtSize hext]
    rfl

/-- **The payload is found.** -/
theorem getPayload (h : c.Stored p) :
    p.getPayload = rtpTcpHeaderSize + (c.header.bytes ++ c.optional).length := by
  rw [RtpPacket.getPayload, h.getPayloadOffset, List.length_append, RtpHeader.length_bytes,
    rtpHeaderSize, Nat.add_assoc]

/-- The readable bytes are the packet and its framing. -/
theorem readablebytes (h : c.Stored p) : p.data.readablebytes.toNat = 16 + c.optional.length +
    c.payload.length + c.paddingBytes.length := by
  obtain ⟨framing, hlen, hread⟩ := h.readable
  have hlength := congrArg List.length hread
  rw [bytes, List.length_append, List.length_append, List.length_append, List.length_append, hlen,
    RtpHeader.length_bytes, rtpTcpHeaderSize] at hlength
  rw [← h.valid.length_readable, Int.toNat_natCast, hlength]
  omega

/-- Without padding, the size is that of the payload and of the framing. -/
theorem getPayloadSize_of_none (h : c.Stored p) (hnone : c.padding = none) :
    p.getPayloadSize = .ok (c.payload.length + 4) := by
  have hflag : p.hasPadding = false := by rw [h.hasPadding, hnone]; rfl
  have hbytes : c.paddingBytes = [] := by rw [paddingBytes, hnone]; rfl
  have hsize := h.readablebytes
  rw [hbytes, List.length_nil] at hsize
  have hrest : sizeSub (16 + c.optional.length + c.payload.length + 0) (c.optional.length + 0) =
      16 + c.payload.length := by
    rw [sizeSub_of_le (by omega)]
    omega
  have hfour : sizeSub (16 + c.payload.length) rtpHeaderSize = c.payload.length + 4 := by
    rw [rtpHeaderSize, sizeSub_of_le (by omega)]
    omega
  rw [RtpPacket.getPayloadSize, RtpPacket.getPayloadSizeOf, RtpPacket.getPaddingSize, hflag,
    if_neg Bool.false_ne_true, h.getPayloadOffset, hsize, ok_bind]
  dsimp only
  rw [hrest, hfour]

/-- With padding, the byte that is taken for its count is the fourth one behind the packet. -/
theorem getPaddingSize (h : c.Stored p) {pad : RtpPadding} (hpad : c.padding = some pad) :
    p.getPaddingSize p.data.readablebytes.toNat =
      match p.data.buffer[(p.data.writeIndex + 3).toNat]? with
      | some b => .ok b.toNat
      | none => .error .overread := by
  have hflag : p.hasPadding = true := by rw [h.hasPadding, hpad]; rfl
  have hlow := h.valid.read_nonneg
  have horder := h.valid.read_le_write
  have hlast : p.data.readIndex + (rtpTcpHeaderSize : ℤ) + (p.data.readablebytes.toNat : ℤ) - 1 =
      p.data.writeIndex + 3 := by
    rw [rtpTcpHeaderSize, Buffer.readablebytes]
    omega
  rw [RtpPacket.getPaddingSize, if_pos hflag, hlast]
  by_cases hin : (p.data.writeIndex + 3).toNat < p.data.buffer.length
  · rw [if_pos ⟨by omega, by omega⟩, List.getElem?_eq_getElem hin, List.getD_eq_getElem _ _ hin]
  · rw [if_neg (by omega), List.getElem?_eq_none (by omega)]

end RtpContent.Stored

/-- **The accessors slice the payload** of a packet: they give its position and its size. -/
structure RtpContent.Sliced (c : RtpContent) (p : RtpPacket) : Prop where
  getPayload : p.getPayload = rtpTcpHeaderSize + (c.header.bytes ++ c.optional).length
  getPayloadSize : p.getPayloadSize = .ok c.payload.length

/-- **The packets whose accessors are right** have padding, and the fourth byte behind them, which
is taken for the count of the padding, is that count and four more. -/
theorem RtpContent.Stored.accessors_iff {c : RtpContent} {p : RtpPacket} (h : c.Stored p) :
    c.Sliced p ↔ ∃ pad b, c.padding = some pad ∧
      p.data.buffer[(p.data.writeIndex + 3).toNat]? = some b ∧ b.toNat = pad.count + 4 := by
  cases hpad : c.padding with
  | none =>
    constructor
    · rintro ⟨-, hsize⟩
      have hfour := Except.ok.inj ((h.getPayloadSize_of_none hpad).symm.trans hsize)
      omega
    · rintro ⟨pad, b, hsome, -⟩
      cases hsome
  | some pad =>
    have hbytes : c.paddingBytes.length = pad.count := by
      rw [RtpContent.paddingBytes, hpad]
      exact List.length_append
    have hcount : pad.count ≤ 255 := pad.length_lt
    have hsize := h.readablebytes
    rw [hbytes] at hsize
    have hrun : p.getPayloadSize = p.getPaddingSize p.data.readablebytes.toNat >>= fun n =>
        .ok (sizeSub (sizeSub p.data.readablebytes.toNat (p.getPayloadOffset + n))
          rtpHeaderSize) := rfl
    rw [h.getPaddingSize hpad, h.getPayloadOffset, hsize] at hrun
    constructor
    · rintro ⟨-, hright⟩
      rw [hright] at hrun
      cases hbyte : p.data.buffer[(p.data.writeIndex + 3).toNat]? with
      | none =>
        rw [hbyte] at hrun
        cases hrun
      | some b =>
        rw [hbyte] at hrun
        have hlt := b.toNat_lt
        have heq := Except.ok.inj hrun
        refine ⟨pad, b, rfl, rfl, ?_⟩
        -- a byte is too small for a difference to wrap around to the size
        unfold sizeSub rtpHeaderSize at heq
        split_ifs at heq <;> omega
    · rintro ⟨pad', b, hsome, hbyte, hfour⟩
      obtain rfl := Option.some.inj hsome
      refine ⟨h.getPayload, hrun.trans ?_⟩
      have hrest : sizeSub (16 + c.optional.length + c.payload.length + pad.count)
          (c.optional.length + b.toNat) = 12 + c.payload.length := by
        rw [sizeSub_of_le (by omega)]
        omega
      have hsize : sizeSub (12 + c.payload.length) rtpHeaderSize = c.payload.length := by
        rw [rtpHeaderSize, sizeSub_of_le (by omega)]
        omega
      rw [hbyte]
      dsimp only
      rw [ok_bind, hrest, hsize]

/-- A packet with two bytes of padding, and a 6 behind it. -/
def paddedContent : RtpContent where
  version := 2
  mark := false
  pt := 96
  seq := 7
  timestamp := 0
  ssrc := 1
  csrcs := [3]
  ext := none
  payload := [1, 2, 3]
  padding := some ⟨[0], by decide⟩
  length_csrcs := by decide

def paddedPacket : RtpPacket where
  data :=
    { buffer := List.replicate 8 NUL ++ [ascii '$', 0, 0, 21] ++ paddedContent.bytes ++ [0, 0, 0, 6]
      readIndex := 8
      writeIndex := 33 }

theorem accessors_paddedPacket : paddedContent.Sliced paddedPacket := by
  have hvalid : paddedPacket.data.Valid := ⟨by decide, by decide, by decide, by decide⟩
  have hstored : paddedContent.Stored paddedPacket :=
    ⟨hvalid, [ascii '$', 0, 0, 21], rfl, by decide⟩
  exact hstored.accessors_iff.mpr ⟨⟨[0], by decide⟩, 6, rfl, by decide, rfl⟩

/-- What `makeRtp` puts into a packet. -/
def H264RtpEncoder.content (e : H264RtpEncoder) (call : MakeRtpCall) : RtpContent where
  version := rtpVersion
  mark := call.mark
  pt := e.pt
  seq := e.seq
  timestamp := call.stamp
  ssrc := e.ssrc
  csrcs := []
  ext := none
  payload := call.payload
  padding := none
  length_csrcs := Nat.zero_le _

/-- **The packets of `makeRtp`** are given a size that counts the framing, too. -/
theorem H264RtpEncoder.getPayloadSize_makeRtp (e : H264RtpEncoder) {call : MakeRtpCall}
    (hfits : call.Fits) : ∃ e' rtp, e.makeRtp call.data call.len call.mark call.stamp =
      .ok (e', rtp) ∧ (e.content call).Stored rtp ∧ rtp.getPayloadSize = .ok (call.len + 4) := by
  obtain ⟨rtp, hmake, hvalid, hread⟩ := e.makeRtp_readable hfits
  have hstored : (e.content call).Stored rtp := by
    refine ⟨hvalid, ascii '$' :: e.interleaved :: be16 (UInt16.ofNat (call.len + rtpHeaderSize)),
      rfl, hread.trans ?_⟩
    have hbytes : (e.content call).bytes =
        (e.header call.mark call.stamp).bytes ++ (call.payload ++ []) := rfl
    rw [front, List.append_assoc, hbytes, List.append_nil]
  refine ⟨_, rtp, hmake, hstored, ?_⟩
  rw [hstored.getPayloadSize_of_none rfl, content, MakeRtpCall.length_payload hfits]

/-- A packet of `makeRtp` for ten bytes. -/
theorem not_accessors_ten : ¬ ∀ (c : RtpContent) (p : RtpPacket), c.Stored p → c.Sliced p := by
  intro h
  have hfits : (⟨none, 10, true, 0⟩ : MakeRtpCall).Fits := by simp [MakeRtpCall.Fits]
  obtain ⟨e', rtp, -, hstored, hsize⟩ :=
    ({ ssrc := 1, interleaved := 0 } : H264RtpEncoder).getPayloadSize_makeRtp hfits
  have hten := Except.ok.inj (hsize.symm.trans (h _ rtp hstored).getPayloadSize)
  have hlength := MakeRtpCall.length_payload hfits
  rw [H264RtpEncoder.content, hlength] at hten
  omega

end CppServerStudio
