import Mathlib.Data.List.GetD
import CppServerStudio.Rtsp.Depacketizer
import CppServerStudio.Rtsp.H264Rtp

/-!
# Packing is lossless

The packets of `packRtp` carry the payloads that depacketizing turns back into the unit, as long
as the first fragment of a series does not ask for more bytes than the unit has behind its header
byte, and the length of each packet fits 16 bits.

## Main definitions

* `RtpPacket.view`: the payload of a packet and its marker bit
* `Lossless`: the packets of a unit give it back, within the packet size and well marked
* `Packable`: the units and sizes that the packetizer handles

## Main results

* `makeRtp_fill`: a packet filled with a payload
* `packRtpStapA_ok`, `packRtpFu_ok`: the packets of a unit
* `packRtp_lossless_iff`: packing is lossless exactly for the packable units
-/

namespace CppServerStudio

open Fragments Scanning

/-- The payload of a packet and its marker bit. -/
def RtpPacket.view (rtp : RtpPacket) : Bytes × Bool := (rtp.payload, rtp.mark)

namespace H264RtpEncoder

variable {e : H264RtpEncoder} {mark : Bool} {stamp : UInt32}

/-- The bytes in front of the payload of a packet with a payload of `len` bytes. -/
def front (e : H264RtpEncoder) (len : ℕ) (mark : Bool) (stamp : UInt32) : Bytes :=
  ascii '$' :: e.interleaved :: be16 (UInt16.ofNat (len + rtpHeaderSize)) ++
    (e.header mark stamp).bytes

@[simp] theorem length_front (len : ℕ) : (e.front len mark stamp).length = 16 := by
  simp [front]

theorem front_getD_four (len : ℕ) : (e.front len mark stamp).getD 4 0 = 128 := by
  simp [front, be16, RtpHeader.bytes, header, rtpVersion]

/-- The marker bit is the high bit of its byte. -/
theorem mark_front (len : ℕ) :
    decide (128 ≤ (e.front len mark stamp).getD 5 0) = mark := by
  have hbyte : (e.front len mark stamp).getD 5 0 =
      UInt8.ofNat (mark.toNat * 128 + e.pt.toNat % 128) := by
    simp [front, be16, RtpHeader.bytes, header, rtpVersion]
  have hlt : mark.toNat * 128 + e.pt.toNat % 128 < 256 := by cases mark <;> simp <;> omega
  rw [hbyte, Bool.eq_iff_iff, decide_eq_true_eq, UInt8.le_iff_toNat_le,
    UInt8.toNat_ofNat_of_lt' hlt]
  cases mark <;> simp
  omega

/-- A packet with room for a payload. -/
theorem makeRtp_ok (e : H264RtpEncoder) (mark : Bool) (stamp : UInt32) {len : ℕ}
    (hlen : len + 12 < 2 ^ 16) :
    ∃ rtp, e.makeRtp none len mark stamp = .ok ({ e with seq := e.seq + 1 }, rtp) ∧
      rtp.data.Valid ∧
      rtp.data.readable = e.front len mark stamp ++ List.replicate len NUL := by
  have hsize : (UInt16.ofNat (len + rtpHeaderSize)).toNat = len + 12 :=
    UInt16.toNat_ofNat_of_lt' (by simpa [rtpHeaderSize] using hlen)
  obtain ⟨pack, happend, hvalid, hread⟩ :=
    Buffer.valid_new.append (List.replicate (4 + (len + 12)) NUL)
  rw [Buffer.readable_new] at hread
  -- the framing is written, and then the header behind it
  obtain ⟨rtp₁, hpoke₁, hvalid₁, hread₁⟩ := RtpPacket.poke_spec (p := ⟨pack⟩) hvalid hread
    (ascii '$' :: e.interleaved :: be16 (UInt16.ofNat (len + rtpHeaderSize))) (by simp)
  rw [List.nil_append] at hread₁
  obtain ⟨rtp₂, hpoke₂, hvalid₂, hread₂⟩ := RtpPacket.poke_spec hvalid₁ hread₁
    (e.header mark stamp).bytes (by simp)
  refine ⟨rtp₂, ?_, hvalid₂, ?_⟩
  · rw [makeRtp, hsize, rtpTcpHeaderSize, happend]
    simp only [List.length_nil] at hpoke₁
    simp only [List.length_cons, length_be16] at hpoke₂
    simp only [Except.mapError, ok_bind, hpoke₁, hpoke₂]
  · simp only [List.length_cons, length_be16, RtpHeader.length_bytes] at hread₂
    rw [hread₂, front, show 4 + (len + 12) - (2 + 1 + 1) - 12 = len by omega]

/-- **A packet filled with a payload**, whose bytes are written in two parts. -/
theorem makeRtp_fill (e : H264RtpEncoder) (mark : Bool) (stamp : UInt32) (head body : Bytes)
    {len : ℕ} (hsum : len = head.length + body.length)
    (hlen : len + 12 < 2 ^ 16) :
    ∃ rtp rtp₁ rtp₂, e.makeRtp none len mark stamp = .ok ({ e with seq := e.seq + 1 }, rtp) ∧
      rtp.poke rtp.getPayload head = .ok rtp₁ ∧
      rtp₁.poke (rtp.getPayload + head.length) body = .ok rtp₂ ∧
      rtp₂.view = (head ++ body, mark) := by
  obtain ⟨rtp, hmake, hvalid, hread⟩ := makeRtp_ok e mark stamp hlen
  -- the headers stay as they are when the payload is written
  have hfront : ∀ (i : ℕ) (rest : Bytes), i < 16 →
      (e.front len mark stamp ++ rest).getD i 0 = (e.front len mark stamp).getD i 0 := by
    intro i rest hi
    rw [List.getD_append _ _ _ _ (by simpa using hi)]
  have hpayload : rtp.getPayload = 16 := by
    refine RtpPacket.getPayload_eq hvalid (by rw [hread]; simp; omega) ?_
    rw [hread, hfront 4 _ (by omega), front_getD_four]
  obtain ⟨rtp₁, hpoke₁, hvalid₁, hread₁⟩ := RtpPacket.poke_spec hvalid hread head (by omega)
  obtain ⟨rtp₂, hpoke₂, hvalid₂, hread₂⟩ := RtpPacket.poke_spec hvalid₁ hread₁ body (by omega)
  rw [length_front] at hpoke₁
  rw [List.length_append, length_front] at hpoke₂
  refine ⟨rtp, rtp₁, rtp₂, hmake, by rw [hpayload, hpoke₁], by rw [hpayload, hpoke₂], ?_⟩
  have hnone : len - head.length - body.length = 0 := by omega
  rw [hnone, List.replicate_zero, List.append_nil, List.append_assoc] at hread₂
  rw [RtpPacket.view, RtpPacket.payload, RtpPacket.mark, hread₂, hfront 5 _ (by omega)]
  apply Prod.ext
  · exact List.drop_left' rfl
  · exact mark_front len

/-- What is written behind the headers of a packet fits the vector of its buffer. -/
theorem le_of_fill {len k : ℕ} {e' : H264RtpEncoder} {rtp rtp₁ rtp₂ : RtpPacket}
    {head body : Bytes} (hmake : e.makeRtp none len mark stamp = .ok (e', rtp))
    (h₁ : rtp.poke rtp.getPayload head = .ok rtp₁)
    (h₂ : rtp₁.poke (rtp.getPayload + k) body = .ok rtp₂) : k + body.length ≤ 65523 := by
  rw [makeRtp] at hmake
  simp only [bind_eq_ok, Except.ok.injEq, Prod.mk.injEq] at hmake
  obtain ⟨pack, hpack, rtp₃, h₃, rtp₄, h₄, -, rfl⟩ := hmake
  -- the packet lies at the start of a buffer that has grown for it at most
  have happend : Buffer.new.append (List.replicate
      (rtpTcpHeaderSize + (UInt16.ofNat (len + rtpHeaderSize)).toNat) NUL) = .ok pack := by
    revert hpack
    cases Buffer.new.append _ <;> simp [Except.mapError]
  have hindex : pack.readIndex = 8 := by
    rcases Buffer.readIndex_of_append happend with h | h <;> rw [h] <;> rfl
  have hsize : pack.buffer.length ≤ 65547 := by
    have hlt := (UInt16.ofNat (len + rtpHeaderSize)).toNat_lt
    have hnew : (Buffer.new.buffer.length : ℤ) = 1024 := by
      rw [Buffer.new, List.length_replicate]
      rfl
    have hwrite : Buffer.new.writeIndex = 8 := rfl
    rcases Buffer.length_of_append happend with h | h
    · omega
    · rw [List.length_replicate, rtpTcpHeaderSize, hwrite] at h
      omega
  obtain ⟨hr₃, hl₃, -⟩ := RtpPacket.of_poke h₃
  obtain ⟨hr₄, hl₄, -⟩ := RtpPacket.of_poke h₄
  obtain ⟨hr₁, hl₁, -⟩ := RtpPacket.of_poke h₁
  obtain ⟨-, -, hfit⟩ := RtpPacket.of_poke h₂
  have hpayload := rtp₄.le_getPayload
  simp only at hr₃ hl₃
  rw [hr₁, hr₄, hr₃, hl₁, hl₄, hl₃, hindex] at hfit
  push_cast at hfit
  omega

/-! ## The packets of a unit -/

theorem readNal_ok {data : Bytes} {offset n : ℕ} (h : offset + n ≤ data.length) :
    readNal data offset n = .ok (data.extract offset (offset + n)) := if_pos h

variable {data : Bytes} {pts : UInt32} {isMark : Bool}

/-- A unit in one STAP-A packet. -/
theorem packRtpStapA_ok (e : H264RtpEncoder) (pts : UInt32) (isMark : Bool) (h : Byte)
    (body : Bytes)
    (hlen : (h :: body).length + 15 < 2 ^ 16) :
    ∃ e' rtps, e.packRtpStapA (h :: body) pts isMark = .ok (e', rtps) ∧
      rtps.map RtpPacket.view = [(stapA h (h :: body), isMark)] := by
  obtain ⟨rtp, rtp₁, rtp₂, hmake, h₁, h₂, hview⟩ := makeRtp_fill e isMark pts
    (((h &&& 0xE0) ||| 24) :: be16 (UInt16.ofNat (h :: body).length)) (h :: body)
    (show (h :: body).length + 3 = _ by simp; omega) (by omega)
  have hread : readNal (h :: body) 0 (h :: body).length = .ok (h :: body) := by
    rw [readNal_ok (by omega), Nat.zero_add, List.extract_eq_take_drop, List.drop_zero,
      Nat.sub_zero, List.take_length]
  refine ⟨{ e with seq := e.seq + 1 }, [rtp₂], ?_, by rw [List.map_singleton, hview]; rfl⟩
  rw [packRtpStapA, hmake]
  simp only [List.length_cons, length_be16] at h₁ h₂ hread ⊢
  simp only [ok_bind, List.getElem?_cons_zero, h₁, hread, h₂]

/-- A turn of the loop that neither begins at its end bit nor sets it. -/
theorem packRtpFuLoop_turn (data : Bytes) (pts : UInt32) (isMark : Bool) {flag : Byte}
    {offset packetSize : ℕ} (hend : endBit flag = false)
    (hmore : startBit flag = true ∨ offset + packetSize < data.length)
    (hsize : packetSize + 14 < 2 ^ 16) (hfit : offset + packetSize ≤ data.length) (h : Byte)
    (fuel : ℕ) (e : H264RtpEncoder) :
    ∃ rtp : RtpPacket, rtp.view =
        (fuIndicator h :: flag :: data.extract offset (offset + packetSize), false) ∧
      packRtpFuLoop data pts isMark (fuIndicator h) (fuel + 1) e flag offset packetSize =
        packRtpFuLoop data pts isMark (fuIndicator h) fuel { e with seq := e.seq + 1 }
          (flag &&& 0x7F) (offset + packetSize) packetSize >>= fun r =>
        .ok (r.1, rtp :: r.2) := by
  have hend' : flag &&& 0x40 = 0 := by simpa [endBit] using hend
  -- the end bit is not set in this turn
  have hcond : ¬ (flag &&& 0x80 = 0 ∧ data.length ≤ offset + packetSize) := by
    rintro ⟨hstart, hle⟩
    rcases hmore with hs | hlt
    · simp [startBit, hstart] at hs
    · omega
  have hbody : (data.extract offset (offset + packetSize)).length = packetSize := by
    simp only [List.extract_eq_take_drop, List.length_take, List.length_drop]
    omega
  obtain ⟨rtp, rtp₁, rtp₂, hmake, h₁, h₂, hview⟩ := makeRtp_fill e false pts
    [fuIndicator h, flag] (data.extract offset (offset + packetSize))
    (show packetSize + 2 = _ by simp only [List.length_cons, List.length_nil, hbody]; omega)
    (by omega)
  refine ⟨rtp₂, hview, ?_⟩
  rw [packRtpFuLoop]
  simp only [hend', not_true_eq_false, if_false, if_neg hcond, false_and, decide_false, hmake,
    ok_bind, h₁, readNal_ok hfit]
  simp only [List.length_cons, List.length_nil, Nat.zero_add, Nat.reduceAdd] at h₂
  simp only [h₂, ok_bind]

/-- The last turn of the loop, and the test that ends it. -/
theorem packRtpFuLoop_last (pts : UInt32) (isMark : Bool) {offset packetSize : ℕ}
    (hoff : offset ≤ data.length)
    (hlast : data.length ≤ offset + packetSize) (hsize : packetSize + 14 < 2 ^ 16) (h : Byte)
    (e : H264RtpEncoder) :
    ∃ e' rtp, packRtpFuLoop data pts isMark (fuIndicator h) 2 e (h &&& 0x1F) offset packetSize =
        .ok (e', [rtp]) ∧
      rtp.view = (fuIndicator h :: ((h &&& 0x1F) ||| 0x40) :: data.drop offset, isMark) := by
  -- The turn sets the end bit, so the test before the next one ends the loop.
  obtain ⟨hs, he, -⟩ := middle_bits h
  obtain ⟨-, he', hmask⟩ := last_bits h
  have hstart : h &&& 0x1F &&& 0x80 = 0 := by simpa [startBit] using hs
  have hend : h &&& 0x1F &&& 0x40 = 0 := by simpa [endBit] using he
  have hend' : ¬ ((h &&& 0x1F) ||| 0x40) &&& 0x40 = 0 := by simpa [endBit] using he'
  have hbody : data.extract offset (offset + (data.length - offset)) = data.drop offset := by
    rw [List.extract_eq_take_drop, Nat.add_sub_cancel_left, List.take_of_length_le (by simp)]
  obtain ⟨rtp, rtp₁, rtp₂, hmake, h₁, h₂, hview⟩ := makeRtp_fill e isMark pts
    [fuIndicator h, (h &&& 0x1F) ||| 0x40] (data.drop offset)
    (show data.length - offset + 2 = _ by
      simp only [List.length_cons, List.length_nil, List.length_drop]
      omega) (by omega)
  refine ⟨{ e with seq := e.seq + 1 }, rtp₂, ?_, hview⟩
  rw [packRtpFuLoop]
  simp only [hend, not_true_eq_false, if_false, hstart, hlast, and_self, if_true,
    sizeSub_of_le hoff, hend', not_false_eq_true, true_and, Bool.decide_eq_true, hmake, ok_bind,
    h₁, readNal_ok (show offset + (data.length - offset) ≤ data.length by omega), hbody]
  simp only [List.length_cons, List.length_nil, Nat.zero_add, Nat.reduceAdd] at h₂
  simp only [h₂, ok_bind, packRtpFuLoop, hmask, hend', not_false_eq_true, if_true]

/-- **The packets behind the first one** carry the fragments of the rest of the unit. -/
theorem packRtpFuLoop_tail (data : Bytes) (pts : UInt32) (isMark : Bool) {n : ℕ}
    (hsize : n + 15 < 2 ^ 16) (h : Byte) (rest : Bytes) (e : H264RtpEncoder) (offset : ℕ)
    (hoff : offset ≤ data.length)
    (hrest : data.drop offset = rest) :
    ∃ fuel e' rtps, packRtpFuLoop data pts isMark (fuIndicator h) fuel e (h &&& 0x1F) offset
        (n + 1) = .ok (e', rtps) ∧
      rtps.map RtpPacket.view = fuTail h isMark (fragments n rest) := by
  -- Induction on the fragments of what is left: each turn takes the next one.
  induction rest using fragments_induction (n := n) generalizing e offset with
  | hlast rest hle =>
    have hlen := congrArg List.length hrest
    rw [List.length_drop] at hlen
    obtain ⟨e', rtp, hrun, hview⟩ := packRtpFuLoop_last pts isMark hoff
      (show data.length ≤ offset + (n + 1) by omega) (by omega) h e
    refine ⟨2, e', [rtp], hrun, ?_⟩
    rw [fragments_of_le hle, List.map_singleton, hview, hrest, fuTail]
  | hmore rest hlt ih =>
    have hlen := congrArg List.length hrest
    rw [List.length_drop] at hlen
    obtain ⟨hs, he, hmask⟩ := middle_bits h
    obtain ⟨fuel, e', rtps, hrun, hviews⟩ := ih { e with seq := e.seq + 1 }
      (offset + (n + 1)) (by omega) (by rw [← hrest, List.drop_drop])
    obtain ⟨rtp, hview, hturn⟩ := packRtpFuLoop_turn data pts isMark he
      (Or.inr (show offset + (n + 1) < data.length by omega)) (by omega) (by omega) h fuel e
    refine ⟨fuel + 1, e', rtp :: rtps, by rw [hturn, hmask, hrun, ok_bind], ?_⟩
    have hfrag : data.extract offset (offset + (n + 1)) = rest.take (n + 1) := by
      rw [List.extract_eq_take_drop, hrest, Nat.add_sub_cancel_left]
    have hnonempty : fragments n (rest.drop (n + 1)) ≠ [] := fragments_ne_nil
    obtain ⟨f, fs, hfs⟩ := List.exists_cons_of_ne_nil hnonempty
    rw [List.map_cons, hview, hviews, fragments_of_lt hlt, hfrag, hfs, fuTail_cons_cons]

/-- A unit in a series of FU-A packets, when its first fragment is full. -/
theorem packRtpFu_ok (e : H264RtpEncoder) (pts : UInt32) (isMark : Bool) (h : Byte) (body : Bytes)
    {n : ℕ} (hmtu : e.mtuSize = n + 15) (hsize : e.mtuSize < 2 ^ 16)
    (hfirst : n + 1 ≤ body.length) :
    ∃ fuel e' rtps, packRtpFu fuel e (h :: body) pts isMark = .ok (e', rtps) ∧
      rtps.map RtpPacket.view =
        fuA h isMark (body.take (n + 1)) (fragments n (body.drop (n + 1))) := by
  -- the first turn sends the start bit, and `packRtpFuLoop_tail` is the rest of the loop
  have hpacket : sizeSub (sizeSub e.mtuSize rtpHeaderSize) 2 = n + 1 := by
    have hheader : sizeSub e.mtuSize 12 = n + 3 := by
      rw [sizeSub_of_le (by omega), hmtu]
      omega
    rw [rtpHeaderSize, hheader, sizeSub_of_le (by omega)]
    omega
  obtain ⟨hs, he, hmask⟩ := first_bits h
  obtain ⟨fuel, e', rtps, hrun, hviews⟩ := packRtpFuLoop_tail (n := n) (h :: body) pts isMark
    (by omega) h (body.drop (n + 1)) { e with seq := e.seq + 1 } (1 + (n + 1))
    (by simp only [List.length_cons]; omega)
    (by rw [Nat.add_comm 1, List.drop_succ_cons])
  obtain ⟨rtp, hview, hturn⟩ := packRtpFuLoop_turn (h :: body) pts isMark he (Or.inl hs)
    (by omega) (show 1 + (n + 1) ≤ (h :: body).length by simp only [List.length_cons]; omega) h
    fuel e
  have hfrag : (h :: body).extract 1 (1 + (n + 1)) = body.take (n + 1) := by
    rw [List.extract_eq_take_drop, Nat.add_sub_cancel_left, List.drop_succ_cons, List.drop_zero]
  refine ⟨fuel + 1, e', rtp :: rtps, ?_, by rw [List.map_cons, hview, hviews, hfrag, fuA]⟩
  rw [packRtpFu, hpacket]
  simp only [List.getElem?_cons_zero]
  rw [← fuIndicator, hturn, hmask, hrun, ok_bind]

/-- A series that is sent reads its first fragment inside the unit, and fits its packets. -/
theorem of_packRtpFu {fuel : ℕ} {e e' : H264RtpEncoder} {rtps : List RtpPacket}
    (hmtu : 14 ≤ e.mtuSize) (hrun : packRtpFu fuel e data pts isMark = .ok (e', rtps)) :
    e.mtuSize < data.length + 14 ∧ e.mtuSize ≤ 65535 := by
  have hheader : sizeSub e.mtuSize 12 = e.mtuSize - 12 := sizeSub_of_le (by omega)
  rw [packRtpFu, rtpHeaderSize, hheader, sizeSub_of_le (by omega)] at hrun
  cases hdata : data[0]? with
  | none => simp [hdata] at hrun
  | some h =>
    obtain ⟨hs, he, -⟩ := first_bits h
    -- the first turn goes through the branch with a start bit and without an end bit
    have hend : ((h &&& 0x1F) ||| 0x80) &&& 0x40 = 0 := by simpa [endBit] using he
    have hstart : ¬ ((h &&& 0x1F) ||| 0x80) &&& 0x80 = 0 := by simpa [startBit] using hs
    cases fuel with
    | zero => simp [hdata, packRtpFuLoop] at hrun
    | succ fuel =>
      simp only [hdata, packRtpFuLoop, hend, not_true_eq_false, if_false, hstart, false_and,
        bind_eq_ok, Except.ok.injEq, Prod.mk.injEq] at hrun
      -- the bytes that the turn reads are inside the unit, and its packet has room for them
      obtain ⟨⟨e₁, rtp⟩, hmake, rtp₁, h₁, bytes, hread, rtp₂, h₂, -⟩ := hrun
      rw [readNal] at hread
      split_ifs at hread with hfit
      obtain rfl := Except.ok.inj hread
      have hle := le_of_fill hmake h₁ h₂
      rw [List.extract_eq_take_drop, List.length_take, List.length_drop] at hle
      omega

end H264RtpEncoder

/-! ## Lossless packing -/

/-- **Lossless packing** of a unit: depacketizing the payloads gives the unit and nothing else, the
payloads leave room for the RTP header in a packet, and the packets are well marked. -/
structure Lossless (mtuSize : ℕ) (nal : Bytes) (isMark : Bool) (rtps : List RtpPacket) : Prop where
  depacketized : depacketize none (rtps.map RtpPacket.payload) = some [nal]
  size_le : ∀ rtp ∈ rtps, rtp.payload.length + rtpHeaderSize ≤ mtuSize
  wellMarked : WellMarked isMark (rtps.map RtpPacket.view)

/-- **Packable units**: one that fits a packet fits the 16-bit length of a packet, and one that
does not has more bytes than its first fragment asks for, in packets that fit that length. -/
structure Packable (mtuSize len : ℕ) : Prop where
  single : len + 15 ≤ mtuSize → len ≤ 65520
  series : mtuSize < len + 15 → mtuSize ≠ len + 14 ∧ mtuSize ≤ 65535

theorem lossless_of_views {mtuSize : ℕ} {nal : Bytes} {isMark : Bool} {rtps : List RtpPacket}
    {views : List (Bytes × Bool)} (hviews : rtps.map RtpPacket.view = views)
    (hdepack : depacketize none (views.map Prod.fst) = some [nal])
    (hsize : ∀ v ∈ views, v.1.length + rtpHeaderSize ≤ mtuSize)
    (hmarked : WellMarked isMark views) : Lossless mtuSize nal isMark rtps := by
  subst hviews
  refine ⟨?_, fun rtp hrtp => hsize _ (List.mem_map_of_mem hrtp), hmarked⟩
  rwa [List.map_map] at hdepack

/-- Packable units are packed without loss. -/
theorem lossless_of_packable (e : H264RtpEncoder) (h : Byte) (body : Bytes) (pts : UInt32)
    (isMark : Bool) (hmtu : 16 ≤ e.mtuSize) (hp : Packable e.mtuSize (h :: body).length) :
    ∃ fuel e' rtps, e.packRtp fuel (h :: body) pts isMark = .ok (e', rtps) ∧
      Lossless e.mtuSize (h :: body) isMark rtps := by
  have hsub : sizeSub e.mtuSize rtpHeaderSize = e.mtuSize - 12 := by
    rw [rtpHeaderSize]
    exact sizeSub_of_le (by omega)
  by_cases hfit : (h :: body).length + 15 ≤ e.mtuSize
  -- the unit fits one packet
  · have hlen := hp.single hfit
    obtain ⟨e', rtps, hrun, hviews⟩ := e.packRtpStapA_ok pts isMark h body
      (by omega)
    refine ⟨0, e', rtps, ?_, lossless_of_views hviews ?_ ?_ (wellMarked_stapA h _ isMark)⟩
    · rw [H264RtpEncoder.packRtp, hsub, if_pos (by omega), hrun]
    · exact depacketize_stapA h (by omega)
    · intro v hv
      rw [List.mem_singleton] at hv
      simp only [hv, stapA, List.length_append, List.length_cons, length_be16, rtpHeaderSize]
        at hfit ⊢
      omega
  -- the unit goes into a series, whose first fragment lies in it
  · obtain ⟨hne, hle⟩ := hp.series (by omega)
    obtain ⟨n, hn⟩ : ∃ n, e.mtuSize = n + 15 := ⟨e.mtuSize - 15, by omega⟩
    rw [List.length_cons] at hfit hne
    obtain ⟨fuel, e', rtps, hrun, hviews⟩ := e.packRtpFu_ok pts isMark h body
      hn (by omega) (by omega)
    refine ⟨fuel, e', rtps, ?_, lossless_of_views hviews ?_ ?_
      (wellMarked_fuA h isMark _ fragments_ne_nil)⟩
    · rw [H264RtpEncoder.packRtp, hsub, if_neg (by simp only [List.length_cons]; omega), hrun]
    · rw [depacketize_fuA h isMark _ fragments_ne_nil, flatten_fragments, List.cons_append,
        List.take_append_drop]
    · intro v hv
      rw [fuA, List.mem_cons] at hv
      have hlen : v.1.length ≤ n + 1 + 2 := by
        rcases hv with rfl | hv
        · simp only [List.length_cons, List.length_take]
          omega
        · exact length_of_mem_fuTail h isMark (fun f hf => length_le_of_mem_fragments hf) hv
      rw [rtpHeaderSize]
      omega

/-- Only packable units are packed to the end. -/
theorem packable_of_packRtp {fuel : ℕ} {e e' : H264RtpEncoder} {nal : Bytes} {pts : UInt32}
    {isMark : Bool} {rtps : List RtpPacket} (hmtu : 16 ≤ e.mtuSize)
    (hrun : e.packRtp fuel nal pts isMark = .ok (e', rtps)) : Packable e.mtuSize nal.length := by
  rw [H264RtpEncoder.packRtp, rtpHeaderSize, sizeSub_of_le (by omega)] at hrun
  split_ifs at hrun with hfit
  · refine ⟨fun _ => ?_, fun hlt => by omega⟩
    simp only [H264RtpEncoder.packRtpStapA, bind_eq_ok] at hrun
    obtain ⟨⟨e₁, rtp⟩, hmake, hrun⟩ := hrun
    cases hdata : nal[0]? with
    | none => simp [hdata] at hrun
    | some h =>
      simp only [hdata, bind_eq_ok] at hrun
      obtain ⟨rtp₁, h₁, bytes, hread, rtp₂, h₂, -⟩ := hrun
      rw [readNal, if_pos (by omega)] at hread
      obtain rfl := Except.ok.inj hread
      have hle := H264RtpEncoder.le_of_fill hmake h₁ h₂
      rw [List.extract_eq_take_drop, List.length_take, List.length_drop] at hle
      omega
  · have hbounds := H264RtpEncoder.of_packRtpFu (by omega) hrun
    exact ⟨fun hle => by omega, fun _ => ⟨by omega, hbounds.2⟩⟩

/-- **Packing is lossless exactly for the packable units**: it ends without a fault, and its
packets give back the unit, if and only if the first fragment of a series does not ask for one byte
more than the unit has, and the length of every packet fits 16 bits. -/
theorem packRtp_lossless_iff (e : H264RtpEncoder) (nal : Bytes) (pts : UInt32) (isMark : Bool)
    (hnal : 1 ≤ nal.length) (hmtu : 16 ≤ e.mtuSize) :
    (∃ fuel e' rtps, e.packRtp fuel nal pts isMark = .ok (e', rtps) ∧
      Lossless e.mtuSize nal isMark rtps) ↔ Packable e.mtuSize nal.length := by
  constructor
  · rintro ⟨fuel, e', rtps, hrun, -⟩
    exact packable_of_packRtp hmtu hrun
  · intro hp
    obtain ⟨h, body, rfl⟩ := List.exists_cons_of_ne_nil (List.ne_nil_of_length_pos hnal)
    exact lossless_of_packable e h body pts isMark hmtu hp

/-- A unit of ten bytes in packets of twenty. -/
theorem packRtp_lossless_ten :
    ∃ fuel e' rtps, H264RtpEncoder.packRtp fuel
        { interleaved := 0, ssrc := 1, mtuSize := 20 } (List.replicate 10 0x65) 0 true =
          .ok (e', rtps) ∧ Lossless 20 (List.replicate 10 0x65) true rtps :=
  (packRtp_lossless_iff { interleaved := 0, ssrc := 1, mtuSize := 20 } (List.replicate 10 0x65) 0
    true (by decide) (by decide)).mpr ⟨by decide, by decide⟩

/-- A unit of 1386 bytes in packets of the default size: the first fragment asks for 1386 bytes
behind the header byte. -/
theorem not_packRtp_lossless_1386 :
    ¬ ∀ (e : H264RtpEncoder) (nal : Bytes) (pts : UInt32) (isMark : Bool), 1 ≤ nal.length →
      16 ≤ e.mtuSize → ∃ fuel e' rtps, e.packRtp fuel nal pts isMark = .ok (e', rtps) ∧
        Lossless e.mtuSize nal isMark rtps := by
  intro h
  obtain ⟨fuel, e', rtps, hrun, -⟩ := h { interleaved := 0, ssrc := 1 } (List.replicate 1386 0x65)
    0 true (by rw [List.length_replicate]; decide) (by decide)
  rw [H264RtpEncoder.packRtp, List.length_replicate, if_neg (by decide)] at hrun
  have hbounds := H264RtpEncoder.of_packRtpFu (by decide) hrun
  rw [List.length_replicate] at hbounds
  exact absurd hbounds.1 (by decide)

end CppServerStudio
