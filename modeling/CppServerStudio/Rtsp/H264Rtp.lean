import CppServerStudio.Rtsp.RtpPacket

/-!
# The H.264 packetizer

`H264RtpEncoder::packRtp` sends a NAL unit in one STAP-A packet, or in a series of FU-A packets
when it is too long for one. A `size_t` is a natural number: the sums of sizes in memory do not
reach `2 ^ 64`, and a difference below zero wraps around.

## Main definitions

* `H264RtpEncoder.makeRtp`: a packet with its headers, and room for a payload
* `H264RtpEncoder.packRtpStapA`, `H264RtpEncoder.packRtpFu`: the two kinds of packets
* `H264RtpEncoder.packRtp`: the packets sent for a NAL unit
-/

namespace CppServerStudio

open Scanning

/-- A difference of two `size_t`, which wraps around below zero. -/
def sizeSub (a b : ℕ) : ℕ := if b ≤ a then a - b else a + 2 ^ 64 - b

theorem sizeSub_of_le {a b : ℕ} (h : b ≤ a) : sizeSub a b = a - b := if_pos h

/-- What the packetizer uses of an encoder. -/
structure H264RtpEncoder where
  pt : Byte := 96
  interleaved : Byte
  seq : UInt16 := 0
  ssrc : UInt32
  mtuSize : ℕ := 1400

/-- `memcpy` from `data + offset`: `n` bytes of a NAL unit. -/
def readNal (data : Bytes) (offset n : ℕ) : Except RtpFault Bytes :=
  if offset + n ≤ data.length then .ok (data.extract offset (offset + n)) else .error .overread

namespace H264RtpEncoder

/-- The header of the next packet. -/
def header (e : H264RtpEncoder) (mark : Bool) (stamp : UInt32) : RtpHeader where
  version := rtpVersion
  padding := false
  ext := false
  csrc := 0
  mark := mark
  pt := e.pt
  seq := e.seq
  timestamp := stamp
  ssrc := e.ssrc

/-- **`makeRtp`**: the length of the packet is kept in 16 bits. -/
def makeRtp (e : H264RtpEncoder) (data : Option Bytes) (len : ℕ) (mark : Bool) (stamp : UInt32) :
    Except RtpFault (H264RtpEncoder × RtpPacket) := do
  let playloadLen := UInt16.ofNat (len + rtpHeaderSize)
  let pack ← (Buffer.new.append
    (List.replicate (rtpTcpHeaderSize + playloadLen.toNat) NUL)).mapError .buffer
  let rtp : RtpPacket := ⟨pack⟩
  let rtp ← rtp.poke 0 (ascii '$' :: e.interleaved :: be16 playloadLen)
  let rtp ← rtp.poke rtpTcpHeaderSize (e.header mark stamp).bytes
  let e := { e with seq := e.seq + 1 }
  match data with
  | none => .ok (e, rtp)
  | some data => do
    let rtp ← rtp.poke (rtpHeaderSize + rtpTcpHeaderSize) (← readNal data 0 len)
    .ok (e, rtp)

/-- One STAP-A packet: an indicator, the 16-bit size of the unit, and the unit. -/
def packRtpStapA (e : H264RtpEncoder) (data : Bytes) (pts : UInt32) (isMark : Bool) :
    Except RtpFault (H264RtpEncoder × List RtpPacket) := do
  let len := data.length
  let (e, rtp) ← e.makeRtp none (len + 3) isMark pts
  let playload := rtp.getPayload
  match data[0]? with
  | none => .error .overread
  | some h => do
    let rtp ← rtp.poke playload (((h &&& 0xE0) ||| 24) :: be16 (UInt16.ofNat len))
    let rtp ← rtp.poke (playload + 3) (← readNal data 0 len)
    .ok (e, [rtp])

/-- The loop of `packRtpFu`, for at most `fuel` turns. The start bit of the FU header is `0x80`,
its end bit `0x40`. -/
def packRtpFuLoop (data : Bytes) (pts : UInt32) (isMark : Bool) (fuFlag0 : Byte) :
    ℕ → H264RtpEncoder → Byte → ℕ → ℕ → Except RtpFault (H264RtpEncoder × List RtpPacket)
  | 0, _, _, _, _ => .error .outOfFuel
  | fuel + 1, e, fuFlag1, offset, packetSize =>
    if ¬ fuFlag1 &&& 0x40 = 0 then .ok (e, [])
    else do
      let (fuFlag1, packetSize) :=
        if fuFlag1 &&& 0x80 = 0 ∧ data.length ≤ offset + packetSize then
          (fuFlag1 ||| 0x40, sizeSub data.length offset)
        else (fuFlag1, packetSize)
      let (e, rtp) ← e.makeRtp none (packetSize + 2) (¬ fuFlag1 &&& 0x40 = 0 ∧ isMark) pts
      let playload := rtp.getPayload
      let rtp ← rtp.poke playload [fuFlag0, fuFlag1]
      let rtp ← rtp.poke (playload + 2) (← readNal data offset packetSize)
      let (e, rtps) ← packRtpFuLoop data pts isMark fuFlag0 fuel e (fuFlag1 &&& 0x7F)
        (offset + packetSize) packetSize
      .ok (e, rtp :: rtps)

/-- A series of FU-A packets. The header byte of the unit is not sent with its fragments. -/
def packRtpFu (fuel : ℕ) (e : H264RtpEncoder) (data : Bytes) (pts : UInt32) (isMark : Bool) :
    Except RtpFault (H264RtpEncoder × List RtpPacket) :=
  let packetSize := sizeSub (sizeSub e.mtuSize rtpHeaderSize) 2
  match data[0]? with
  | none => .error .overread
  | some h =>
    packRtpFuLoop data pts isMark ((h &&& 0xE0) ||| 28) fuel e ((h &&& 0x1F) ||| 0x80) 1 packetSize

/-- **`packRtp`**: the encoder after it, and the packets passed to `send_cb_`. -/
def packRtp (fuel : ℕ) (e : H264RtpEncoder) (data : Bytes) (pts : UInt32) (isMark : Bool) :
    Except RtpFault (H264RtpEncoder × List RtpPacket) :=
  if data.length + 3 ≤ sizeSub e.mtuSize rtpHeaderSize then e.packRtpStapA data pts isMark
  else packRtpFu fuel e data pts isMark

end H264RtpEncoder

end CppServerStudio
