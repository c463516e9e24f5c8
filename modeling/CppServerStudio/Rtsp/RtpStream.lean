import CppServerStudio.Rtsp.Packetization

/-!
# A stream of RTP packets

The packets of an encoder are numbered from zero, modulo `2 ^ 16`. Each carries its own length in
the interleaved framing, and what its accessors read is what was written.

## Main definitions

* `MakeRtpCall`, `H264RtpEncoder.makeRtps`: consecutive calls of `makeRtp`
* `StreamPacket`: the packet with a number in a stream

## Main results

* `makeRtp_streamPacket`: one call makes the next packet
* `makeRtps_streamPacket`: all packets of a run
-/

namespace CppServerStudio

open Scanning

/-- The arguments of a call of `makeRtp`. -/
structure MakeRtpCall where
  data : Option Bytes
  len : ℕ
  mark : Bool
  stamp : UInt32

namespace MakeRtpCall

/-- The payload area of the packet: the data, or room for it. -/
def payload (call : MakeRtpCall) : Bytes :=
  match call.data with
  | none => List.replicate call.len NUL
  | some data => data.take call.len

/-- The length fits the 16 bits of the framing, and a `memcpy` from the data stays inside it. -/
def Fits (call : MakeRtpCall) : Prop :=
  call.len ≤ 65523 ∧ ∀ data ∈ call.data, call.len ≤ data.length

theorem length_payload {call : MakeRtpCall} (h : call.Fits) : call.payload.length = call.len := by
  unfold payload
  cases hdata : call.data with
  | none => exact List.length_replicate
  | some data => exact List.length_take_of_le (h.2 data hdata)

end MakeRtpCall

namespace H264RtpEncoder

/-- The constructor. -/
def create (ssrc : UInt32) (interleaved pt : Byte) (mtuSize : ℕ) : H264RtpEncoder :=
  { pt := pt, interleaved := interleaved, ssrc := ssrc, mtuSize := mtuSize }

/-- Consecutive calls of `makeRtp`, with the packets they return. -/
def makeRtps : H264RtpEncoder → List MakeRtpCall →
    Except RtpFault (H264RtpEncoder × List RtpPacket)
  | e, [] => .ok (e, [])
  | e, call :: calls => do
    let (e, rtp) ← e.makeRtp call.data call.len call.mark call.stamp
    let (e, rtps) ← e.makeRtps calls
    .ok (e, rtp :: rtps)

end H264RtpEncoder

/-- **The packet with the number `seq`** of an encoder: the interleaved framing with the number of
bytes that follow it, the RTP header and the payload, and what the accessors read of them. -/
structure StreamPacket (e : H264RtpEncoder) (seq : ℕ) (call : MakeRtpCall) (rtp : RtpPacket) :
    Prop where
  framing : ∃ (size : UInt16) (header : RtpHeader),
    rtp.data.readable =
      ascii '$' :: e.interleaved :: be16 size ++ (header.bytes ++ call.payload) ∧
    size.toNat = (header.bytes ++ call.payload).length ∧
    header = ⟨2, false, false, 0, call.mark, e.pt, UInt16.ofNat seq, call.stamp, e.ssrc⟩
  length_payload : call.payload.length = call.len
  /-- The bits of the version, the padding, the extension and the number of sources. -/
  flags : rtp.data.readable.getD 4 0 = 0b10000000
  getSeq : rtp.getSeq.toNat = seq % 2 ^ 16
  getStamp : rtp.getStamp = call.stamp
  getSSRC : rtp.getSSRC = e.ssrc
  getPayload : rtp.getPayload = rtpHeaderSize + rtpTcpHeaderSize ∧
    rtp.data.readable.drop rtp.getPayload = call.payload

namespace RtpPacket

variable {p : RtpPacket} {lead payload : Bytes} {h : RtpHeader}

/-- A byte of the header, through the pointer of `getHeader`. -/
theorem byteAt_header (hp : p.data.Valid)
    (hread : p.data.readable = lead ++ (h.bytes ++ payload)) (hlead : lead.length = 4) {i : ℕ}
    (hi : i < 12) : p.byteAt (rtpTcpHeaderSize + i) = h.bytes.getD i 0 := by
  have hlen : rtpTcpHeaderSize + i < p.data.readable.length := by
    simp only [hread, List.length_append, hlead, RtpHeader.length_bytes, rtpTcpHeaderSize]
    omega
  rw [byteAt_eq hp hlen, hread, rtpTcpHeaderSize, ← hlead,
    List.getD_append_right _ _ _ _ (by omega), Nat.add_sub_cancel_left, List.getD_append]
  rwa [RtpHeader.length_bytes]

/-- **The accessors read what the header holds.** -/
theorem accessors_eq (hp : p.data.Valid)
    (hread : p.data.readable = lead ++ (h.bytes ++ payload)) (hlead : lead.length = 4) :
    p.getSeq = h.seq ∧ p.getStamp = h.timestamp ∧ p.getSSRC = h.ssrc := by
  have hbyte : ∀ {i : ℕ}, i < 12 → p.byteAt (rtpTcpHeaderSize + i) = h.bytes.getD i 0 :=
    fun hi => byteAt_header hp hread hlead hi
  refine ⟨?_, ?_, ?_⟩
  · rw [getSeq, hbyte (by omega), hbyte (by omega)]
    exact ntohs_be16 h.seq
  · rw [getStamp, hbyte (by omega), hbyte (by omega), hbyte (by omega), hbyte (by omega)]
    exact ntohl_be32 h.timestamp
  · rw [getSSRC, hbyte (by omega), hbyte (by omega), hbyte (by omega), hbyte (by omega)]
    exact ntohl_be32 h.ssrc

end RtpPacket

namespace H264RtpEncoder

variable {e : H264RtpEncoder} {call : MakeRtpCall}

/-- The bytes of the packet that a call makes. -/
theorem makeRtp_readable (e : H264RtpEncoder) (hfits : call.Fits) :
    ∃ rtp, e.makeRtp call.data call.len call.mark call.stamp =
        .ok ({ e with seq := e.seq + 1 }, rtp) ∧
      rtp.data.Valid ∧
      rtp.data.readable = e.front call.len call.mark call.stamp ++ call.payload := by
  have hlen : call.len + 12 < 2 ^ 16 := by
    have := hfits.1
    omega
  obtain ⟨rtp, hmake, hvalid, hread⟩ := makeRtp_ok e call.mark call.stamp hlen
  unfold MakeRtpCall.payload
  cases hdata : call.data with
  | none => exact ⟨rtp, hmake, hvalid, hread⟩
  | some data =>
    -- the packet without data, whose payload is then written
    have hle : call.len ≤ data.length := hfits.2 data hdata
    have htake : (data.take call.len).length = call.len := List.length_take_of_le hle
    obtain ⟨rtp', hpoke, hvalid', hread'⟩ := RtpPacket.poke_spec hvalid hread
      (data.take call.len) htake.le
    refine ⟨rtp', ?_, hvalid', ?_⟩
    · simp only [makeRtp, bind_eq_ok] at hmake ⊢
      obtain ⟨pack, hpack, rtp₁, h₁, rtp₂, h₂, hlast⟩ := hmake
      obtain ⟨-, rfl⟩ := Prod.mk.inj (Except.ok.inj hlast)
      refine ⟨pack, hpack, rtp₁, h₁, rtp₂, h₂, data.take call.len, ?_, rtp', ?_, rfl⟩
      · rw [readNal, if_pos (by omega), Nat.zero_add, List.extract_eq_take_drop, List.drop_zero,
          Nat.sub_zero]
      · rwa [length_front] at hpoke
    · rw [hread', htake, Nat.sub_self, List.replicate_zero, List.append_nil]

/-- **One call of `makeRtp`** makes the packet with the number of the encoder. -/
theorem makeRtp_streamPacket {seq : ℕ} (hseq : e.seq = UInt16.ofNat seq) (hfits : call.Fits) :
    ∃ rtp, e.makeRtp call.data call.len call.mark call.stamp =
        .ok ({ e with seq := e.seq + 1 }, rtp) ∧ StreamPacket e seq call rtp := by
  obtain ⟨rtp, hmake, hvalid, hread⟩ := e.makeRtp_readable hfits
  have hlen := MakeRtpCall.length_payload hfits
  have hfits' := hfits.1
  rw [front, List.append_assoc] at hread
  obtain ⟨hseq', hstamp, hssrc⟩ := RtpPacket.accessors_eq hvalid hread rfl
  have hflags : rtp.data.readable.getD 4 0 = 128 := by
    rw [hread]
    simp [be16, RtpHeader.bytes, header, rtpVersion]
  have hpayload : rtp.getPayload = 16 := by
    refine RtpPacket.getPayload_eq hvalid ?_ hflags
    rw [hread]
    simp
    omega
  -- the length in the framing is that of the header and the payload
  refine ⟨rtp, hmake, ⟨_, _, hread, ?_, ?_⟩, hlen, hflags, ?_, hstamp, hssrc, hpayload, ?_⟩
  · have hlt : call.len + 12 < 2 ^ 16 := by omega
    rw [List.length_append, RtpHeader.length_bytes, hlen, rtpHeaderSize,
      UInt16.toNat_ofNat_of_lt' hlt, Nat.add_comm]
  · rw [header, hseq]
    rfl
  · rw [hseq']
    change e.seq.toNat = _
    rw [hseq]
    rfl
  · rw [hpayload, hread]
    rfl

/-- The packets of a run that begins with the number `seq`. -/
theorem makeRtps_of_seq (calls : List MakeRtpCall) (hfits : ∀ call ∈ calls, call.Fits) {seq : ℕ}
    (hseq : e.seq = UInt16.ofNat seq) :
    ∃ e' rtps, e.makeRtps calls = .ok (e', rtps) ∧ rtps.length = calls.length ∧
      ∀ k call rtp, calls[k]? = some call → rtps[k]? = some rtp →
        StreamPacket e (seq + k) call rtp := by
  -- Induction on the calls: the encoder counts one further with each of them.
  induction calls generalizing e seq with
  | nil => exact ⟨e, [], rfl, rfl, by simp⟩
  | cons call calls ih =>
    obtain ⟨rtp, hmake, hpacket⟩ := makeRtp_streamPacket hseq (hfits call (by simp))
    have hnext : e.seq + 1 = UInt16.ofNat (seq + 1) := by rw [hseq, UInt16.ofNat_add]; rfl
    obtain ⟨e', rtps, hmakes, hlen, hpackets⟩ :=
      ih (e := { e with seq := e.seq + 1 }) (fun c hc => hfits c (List.mem_cons_of_mem _ hc)) hnext
    refine ⟨e', rtp :: rtps, ?_, by simp [hlen], ?_⟩
    · rw [makeRtps, hmake, ok_bind]
      simp only [hmakes, ok_bind]
    · rintro (_ | k) call' rtp' hcall hrtp
      · obtain rfl := Option.some.inj hcall
        obtain rfl := Option.some.inj hrtp
        exact hpacket
      · have hk := hpackets k call' rtp' hcall hrtp
        rw [Nat.add_right_comm, Nat.add_assoc] at hk
        exact ⟨hk.framing, hk.length_payload, hk.flags, hk.getSeq, hk.getStamp, hk.getSSRC,
          hk.getPayload⟩

/-- **The packets of an encoder**: for every run of calls of `makeRtp` whose lengths fit the
framing, past the wrap of the counter too, the `k`-th packet is the one with the number `k`. -/
theorem makeRtps_streamPacket (ssrc : UInt32) (interleaved pt : Byte) (mtuSize : ℕ)
    (calls : List MakeRtpCall) (hfits : ∀ call ∈ calls, call.Fits) :
    ∃ e rtps, (create ssrc interleaved pt mtuSize).makeRtps calls = .ok (e, rtps) ∧
      rtps.length = calls.length ∧
      ∀ k call rtp, calls[k]? = some call → rtps[k]? = some rtp →
        StreamPacket (create ssrc interleaved pt mtuSize) k call rtp := by
  have hseq : (create ssrc interleaved pt mtuSize).seq = UInt16.ofNat 0 := rfl
  obtain ⟨e, rtps, hmakes, hlen, hpackets⟩ := makeRtps_of_seq calls hfits hseq
  refine ⟨e, rtps, hmakes, hlen, fun k call rtp hcall hrtp => ?_⟩
  simpa using hpackets k call rtp hcall hrtp

/-- A call that leaves the payload to be written, and one with two bytes of data. -/
theorem makeRtps_streamPacket_two :
    ∃ e first second, (create 7 2 96 1400).makeRtps
        [⟨none, 3, false, 5⟩, ⟨some [1, 2], 2, true, 9⟩] = .ok (e, [first, second]) ∧
      StreamPacket (create 7 2 96 1400) 0 ⟨none, 3, false, 5⟩ first ∧
      StreamPacket (create 7 2 96 1400) 1 ⟨some [1, 2], 2, true, 9⟩ second := by
  obtain ⟨e, rtps, hmakes, hlen, hpackets⟩ := makeRtps_streamPacket 7 2 96 1400
    [⟨none, 3, false, 5⟩, ⟨some [1, 2], 2, true, 9⟩] (by simp [MakeRtpCall.Fits])
  obtain ⟨first, second, rfl⟩ := List.length_eq_two.mp hlen
  exact ⟨e, first, second, hmakes, hpackets 0 _ _ rfl rfl, hpackets 1 _ _ rfl rfl⟩

end H264RtpEncoder

end CppServerStudio
