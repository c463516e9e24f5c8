import CppServerStudio.NetWork.ByteQueue

/-!
# RTP packets

A packet is a buffer that holds the four bytes of the interleaved framing, the RTP header and the
payload. Its code writes through pointers into the vector of the buffer, which are offsets from
`Peek()` here; a write outside the vector is a fault.

## Main definitions

* `RtpHeader`, `RtpHeader.bytes`: the fixed header and its bytes
* `RtpPacket.poke`: a write at an offset from `Peek()`
* `RtpPacket.getSeq`, `RtpPacket.getStamp`, `RtpPacket.getSSRC`: the fields of the header
* `RtpPacket.getPayload`: where the payload begins
* `RtpPacket.payload`, `RtpPacket.mark`: what the receiver of a packet reads

## Main results

* `RtpPacket.poke_spec`: writing the next bytes of a packet that is filled from the front
-/

namespace CppServerStudio

open Blocks Scanning

/-- How packing can fail: a read outside its input, or a failure of a packet's buffer. A loop that
uses up its fuel has not ended. -/
inductive RtpFault
  | overread
  | buffer (e : BufferFault)
  | outOfFuel
  deriving DecidableEq

def rtpHeaderSize : ℕ := 12
def rtpTcpHeaderSize : ℕ := 4
def rtpVersion : ℕ := 2

/-- The fixed RTP header. Its bit-fields keep the low bits of what is assigned to them. -/
structure RtpHeader where
  version : ℕ
  padding : Bool
  ext : Bool
  csrc : ℕ
  mark : Bool
  pt : Byte
  seq : UInt16
  timestamp : UInt32
  ssrc : UInt32

/-- The bytes of a header. -/
def RtpHeader.bytes (h : RtpHeader) : Bytes :=
  [UInt8.ofNat (h.version % 4 * 64 + h.padding.toNat * 32 + h.ext.toNat * 16 + h.csrc % 16),
    UInt8.ofNat (h.mark.toNat * 128 + h.pt.toNat % 128)] ++
    be16 h.seq ++ be32 h.timestamp ++ be32 h.ssrc

@[simp] theorem RtpHeader.length_bytes (h : RtpHeader) : h.bytes.length = 12 := rfl

/-- A packet, by its buffer. -/
structure RtpPacket where
  data : Buffer

namespace RtpPacket

/-- A write at an offset from `Peek()`. -/
def poke (p : RtpPacket) (offset : ℕ) (bytes : Bytes) : Except RtpFault RtpPacket := do
  let data ← (p.data.store (p.data.readIndex + offset) bytes).mapError .buffer
  .ok ⟨data⟩

/-- The byte of the vector at an offset from `Peek()`. -/
def byteAt (p : RtpPacket) (offset : ℕ) : Byte :=
  p.data.buffer.getD (p.data.readIndex + offset).toNat 0

/-- `getSeq`, behind two bytes of the header. -/
def getSeq (p : RtpPacket) : UInt16 :=
  ntohs (p.byteAt (rtpTcpHeaderSize + 2)) (p.byteAt (rtpTcpHeaderSize + 3))

/-- `getStamp`. -/
def getStamp (p : RtpPacket) : UInt32 :=
  ntohl (p.byteAt (rtpTcpHeaderSize + 4)) (p.byteAt (rtpTcpHeaderSize + 5))
    (p.byteAt (rtpTcpHeaderSize + 6)) (p.byteAt (rtpTcpHeaderSize + 7))

/-- `getSSRC`. -/
def getSSRC (p : RtpPacket) : UInt32 :=
  ntohl (p.byteAt (rtpTcpHeaderSize + 8)) (p.byteAt (rtpTcpHeaderSize + 9))
    (p.byteAt (rtpTcpHeaderSize + 10)) (p.byteAt (rtpTcpHeaderSize + 11))

/-- `getCsrcSize`: four bytes for each contributing source. -/
def getCsrcSize (p : RtpPacket) : ℕ := (p.byteAt rtpTcpHeaderSize).toNat % 16 * 4

/-- The extension flag of the header. -/
def hasExt (p : RtpPacket) : Bool := (p.byteAt rtpTcpHeaderSize).toNat / 16 % 2 = 1

/-- `getExtSize`: the length of the extension, which is counted in words. -/
def getExtSize (p : RtpPacket) : ℕ :=
  if p.hasExt then
    let ext := rtpTcpHeaderSize + rtpHeaderSize + p.getCsrcSize
    ((p.byteAt (ext + 2)).toNat * 256 + (p.byteAt (ext + 3)).toNat) * 4
  else 0

def getPayloadOffset (p : RtpPacket) : ℕ :=
  p.getCsrcSize + if p.hasExt then 4 + p.getExtSize else 0

/-- **`getPayload`**, as an offset from `Peek()`. -/
def getPayload (p : RtpPacket) : ℕ := rtpTcpHeaderSize + rtpHeaderSize + p.getPayloadOffset

/-- The payload of a packet without contributing sources, extension and padding, as it is
transmitted. -/
def payload (p : RtpPacket) : Bytes := p.data.readable.drop (rtpTcpHeaderSize + rtpHeaderSize)

/-- The marker bit of a packet, as it is transmitted. -/
def mark (p : RtpPacket) : Bool := 128 ≤ p.data.readable.getD 5 0

/-! ## Filling a packet from the front -/

variable {p : RtpPacket}

/-- A write succeeds only inside the vector, and keeps its size and the read index. -/
theorem of_poke {offset : ℕ} {bytes : Bytes} {p' : RtpPacket} (h : p.poke offset bytes = .ok p') :
    p'.data.readIndex = p.data.readIndex ∧ p'.data.buffer.length = p.data.buffer.length ∧
    p.data.readIndex + offset + bytes.length ≤ p.data.buffer.length := by
  rw [poke, Buffer.store] at h
  split_ifs at h with hfit
  · simp only [Except.mapError, ok_bind, Except.ok.injEq] at h
    subst h
    exact ⟨rfl, length_overwrite (by omega), hfit.2⟩
  · simp [Except.mapError] at h

/-- **Writing the next bytes** of a packet that is filled up to `front` and has `k` bytes left. -/
theorem poke_spec {front : Bytes} {k : ℕ} (hp : p.data.Valid)
    (hread : p.data.readable = front ++ List.replicate k NUL) (bytes : Bytes)
    (hk : bytes.length ≤ k) :
    ∃ p', p.poke front.length bytes = .ok p' ∧ p'.data.Valid ∧
      p'.data.readable = front ++ bytes ++ List.replicate (k - bytes.length) NUL := by
  obtain ⟨b⟩ := p
  simp only at hp hread
  obtain ⟨buf, r, w, rfl, hrw, hw, hbuf⟩ := hp.exists_nat
  rw [Buffer.readable_nat] at hread
  have hlen := congrArg List.length hread
  simp only [List.extract_eq_take_drop, List.length_take, List.length_drop, List.length_append,
    List.length_replicate] at hlen
  have hfit : r + front.length + bytes.length ≤ buf.length := by omega
  have hsum : (r : ℤ) + front.length = (r + front.length : ℕ) := by push_cast; rfl
  refine ⟨⟨⟨overwrite buf (r + front.length) bytes, r, w⟩⟩, ?_, ?_, ?_⟩
  · rw [poke, Buffer.store, if_pos (by simp only; omega)]
    simp only [hsum, Int.toNat_natCast, Except.mapError, ok_bind]
  · exact Buffer.valid_nat hrw (by rwa [length_overwrite hfit]) (by rwa [length_overwrite hfit])
  · rw [Buffer.readable_nat, extract_overwrite_within hw (by omega), hread,
      overwrite_append_replicate]

/-- The bytes of the vector at the offsets of the readable bytes. -/
theorem byteAt_eq (hp : p.data.Valid) {i : ℕ} (hi : i < p.data.readable.length) :
    p.byteAt i = p.data.readable.getD i 0 := by
  obtain ⟨b⟩ := p
  simp only at hp hi
  obtain ⟨buf, r, w, rfl, hrw, hw, hbuf⟩ := hp.exists_nat
  rw [Buffer.readable_nat] at hi
  have hsum : ((r : ℤ) + i).toNat = r + i := by omega
  rw [byteAt, Buffer.readable_nat, List.getD_eq_getElem?_getD, List.getD_eq_getElem?_getD]
  simp only [hsum, List.extract_eq_take_drop, List.length_take, List.length_drop] at hi ⊢
  rw [List.getElem?_take_of_lt (by omega), List.getElem?_drop]

/-- A header without contributing sources and extension puts the payload right behind it. -/
theorem getPayload_eq (hp : p.data.Valid) (hlen : 4 < p.data.readable.length)
    (hhead : p.data.readable.getD 4 0 = 128) : p.getPayload = 16 := by
  have hbyte : p.byteAt rtpTcpHeaderSize = 128 := (byteAt_eq hp hlen).trans hhead
  have hcsrc : p.getCsrcSize = 0 := by rw [getCsrcSize, hbyte]; rfl
  have hext : p.hasExt = false := by rw [hasExt, hbyte]; rfl
  simp [getPayload, getPayloadOffset, hcsrc, hext, rtpTcpHeaderSize, rtpHeaderSize]

theorem le_getPayload (p : RtpPacket) : 16 ≤ p.getPayload := by
  simp [getPayload, rtpTcpHeaderSize, rtpHeaderSize]

end RtpPacket

end CppServerStudio
