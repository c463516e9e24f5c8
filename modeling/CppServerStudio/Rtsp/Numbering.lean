import CppServerStudio.Rtsp.ConfigFrames

/-!
# The numbers of the packets that are sent

Each packet that `packRtp` sends comes from one call of `makeRtp`, which takes its number from the
encoder and counts on; the payload is written behind the number. This holds whenever the calls
return, for any units and any packet size.

## Main definitions

* `H264RtpEncoder.Counts`: packets with consecutive numbers, the encoder one further behind them

## Main results

* `PackRtpCall.counts_sendAll`: the packets of any calls of `packRtp`
-/

namespace CppServerStudio

open Blocks Scanning

namespace RtpPacket

variable {p p' : RtpPacket} {offset i : ℕ} {bytes : Bytes}

/-- A byte that was just written. -/
theorem byteAt_poke (h : p.poke offset bytes = .ok p') (hi : i < bytes.length) :
    p'.byteAt (offset + i) = bytes.getD i 0 := by
  rw [poke, Buffer.store] at h
  split_ifs at h with hfit
  · simp only [Except.mapError, ok_bind, Except.ok.injEq] at h
    subst h
    obtain ⟨hlow, hhigh⟩ := hfit
    have hpos : (p.data.readIndex + (offset + i : ℕ)).toNat =
        (p.data.readIndex + offset).toNat + i := by
      push_cast
      omega
    rw [byteAt, hpos, overwrite, List.append_assoc, List.getD_append_right _ _ _ _ (by simp)]
    rw [List.length_take, min_eq_left (by omega), Nat.add_sub_cancel_left,
      List.getD_append _ _ _ _ hi]
  · simp [Except.mapError] at h

/-- A byte in front of what was written. -/
theorem byteAt_poke_of_lt (h : p.poke offset bytes = .ok p') (hread : 0 ≤ p.data.readIndex)
    (hi : i < offset) : p'.byteAt i = p.byteAt i := by
  rw [poke, Buffer.store] at h
  split_ifs at h with hfit
  · simp only [Except.mapError, ok_bind, Except.ok.injEq] at h
    subst h
    obtain ⟨hlow, hhigh⟩ := hfit
    have hlt : (p.data.readIndex + i).toNat < (p.data.readIndex + offset).toNat := by omega
    have hlen : (p.data.readIndex + i).toNat <
        (p.data.buffer.take (p.data.readIndex + offset).toNat).length := by
      rw [List.length_take]
      omega
    simp only [byteAt, overwrite, List.append_assoc]
    rw [List.getD_append _ _ _ _ hlen, List.getD_eq_getElem?_getD, List.getD_eq_getElem?_getD,
      List.getElem?_take_of_lt hlt]
  · simp [Except.mapError] at h

/-- The payload is written behind the sequence number. -/
theorem getSeq_poke (h : p.poke offset bytes = .ok p') (hread : 0 ≤ p.data.readIndex)
    (hoffset : 16 ≤ offset) : p'.getSeq = p.getSeq := by
  have hlow : rtpTcpHeaderSize + 3 < offset := by
    rw [rtpTcpHeaderSize]
    omega
  rw [getSeq, getSeq, byteAt_poke_of_lt h hread hlow, byteAt_poke_of_lt h hread (by omega)]

end RtpPacket

namespace H264RtpEncoder

/-- **Packets with consecutive numbers**, from the next number of an encoder on, which is one
further behind each of them. -/
structure Counts (e e' : H264RtpEncoder) (rtps : List RtpPacket) : Prop where
  seq : e'.seq = e.seq + UInt16.ofNat rtps.length
  getSeq : ∀ k rtp, rtps[k]? = some rtp → rtp.getSeq = e.seq + UInt16.ofNat k

variable {e e₁ e₂ : H264RtpEncoder} {rtp : RtpPacket} {rtps rtps' : List RtpPacket}

theorem Counts.nil (e : H264RtpEncoder) : Counts e e [] where
  seq := (UInt16.add_zero _).symm
  getSeq := by simp

theorem Counts.singleton (hnext : e₁.seq = e.seq + 1) (hseq : rtp.getSeq = e.seq) :
    Counts e e₁ [rtp] where
  seq := hnext
  getSeq := by
    rintro (_ | k) rtp' h
    · obtain rfl := Option.some.inj h
      rw [hseq]
      exact (UInt16.add_zero _).symm
    · simp at h

theorem Counts.append (h : Counts e e₁ rtps) (h' : Counts e₁ e₂ rtps') :
    Counts e e₂ (rtps ++ rtps') where
  seq := by rw [h'.seq, h.seq, List.length_append, UInt16.ofNat_add, UInt16.add_assoc]
  getSeq := by
    intro k rtp hk
    by_cases hlt : k < rtps.length
    · rw [List.getElem?_append_left hlt] at hk
      exact h.getSeq k rtp hk
    · rw [List.getElem?_append_right (by omega)] at hk
      have hsum : UInt16.ofNat rtps.length + UInt16.ofNat (k - rtps.length) = UInt16.ofNat k := by
        rw [← UInt16.ofNat_add, Nat.add_sub_cancel' (by omega)]
      rw [h'.getSeq _ rtp hk, h.seq, UInt16.add_assoc, hsum]

variable {data : Bytes} {pts : UInt32} {isMark : Bool} {fuel len offset packetSize : ℕ}

/-- `makeRtp` numbers its packet. -/
theorem makeRtp_getSeq (h : e.makeRtp none len isMark pts = .ok (e₁, rtp)) :
    e₁.seq = e.seq + 1 ∧ rtp.getSeq = e.seq ∧ 0 ≤ rtp.data.readIndex := by
  rw [makeRtp] at h
  obtain ⟨pack, -, h⟩ := bind_eq_ok.mp h
  obtain ⟨rtp₁, h₁, h⟩ := bind_eq_ok.mp h
  obtain ⟨rtp₂, h₂, h⟩ := bind_eq_ok.mp h
  cases h
  have hread : 0 ≤ rtp.data.readIndex := by
    -- the framing was stored inside the vector
    obtain ⟨hr₂, -, -⟩ := RtpPacket.of_poke h₂
    obtain ⟨hr₁, -, -⟩ := RtpPacket.of_poke h₁
    rw [RtpPacket.poke, Buffer.store] at h₁
    split_ifs at h₁ with hfit
    · rw [hr₂, hr₁]
      simpa using hfit.1
    · simp [Except.mapError] at h₁
  refine ⟨rfl, ?_, hread⟩
  have hbyte : ∀ i < 12, rtp.byteAt (rtpTcpHeaderSize + i) =
      (e.header isMark pts).bytes.getD i 0 := fun i hi => RtpPacket.byteAt_poke h₂ hi
  rw [RtpPacket.getSeq, hbyte 2 (by omega), hbyte 3 (by omega)]
  exact ntohs_be16 e.seq

/-- A packet whose payload is written in two parts keeps its number. -/
theorem counts_fill {rtp₁ rtp₂ : RtpPacket} {head body : Bytes} {k : ℕ}
    (hmake : e.makeRtp none len isMark pts = .ok (e₁, rtp))
    (h₁ : rtp.poke rtp.getPayload head = .ok rtp₁)
    (h₂ : rtp₁.poke (rtp.getPayload + k) body = .ok rtp₂) : Counts e e₁ [rtp₂] := by
  obtain ⟨hnext, hseq, hread⟩ := makeRtp_getSeq hmake
  have hpayload := rtp.le_getPayload
  obtain ⟨hr₁, -, -⟩ := RtpPacket.of_poke h₁
  refine .singleton hnext ?_
  rw [RtpPacket.getSeq_poke h₂ (by rwa [hr₁]) (by omega),
    RtpPacket.getSeq_poke h₁ hread hpayload, hseq]

theorem counts_packRtpStapA (h : e.packRtpStapA data pts isMark = .ok (e₁, rtps)) :
    Counts e e₁ rtps := by
  rw [packRtpStapA] at h
  obtain ⟨⟨e₂, rtp⟩, hmake, h⟩ := bind_eq_ok.mp h
  cases hdata : data[0]? with
  | none => simp [hdata] at h
  | some b =>
    simp only [hdata, bind_eq_ok] at h
    obtain ⟨rtp₁, h₁, bytes, -, rtp₂, h₂, hr⟩ := h
    cases hr
    exact counts_fill hmake h₁ h₂

theorem counts_packRtpFuLoop {fuFlag0 fuFlag1 : Byte}
    (h : packRtpFuLoop data pts isMark fuFlag0 fuel e fuFlag1 offset packetSize = .ok (e₁, rtps)) :
    Counts e e₁ rtps := by
  -- Induction on the turns.
  induction fuel generalizing e fuFlag1 offset packetSize rtps with
  | zero => cases h
  | succ fuel ih =>
    rw [packRtpFuLoop] at h
    by_cases hend : ¬ fuFlag1 &&& 0x40 = 0
    · rw [if_pos hend] at h
      cases h
      exact .nil _
    · rw [if_neg hend] at h
      -- the flags and the size of the packet of this turn
      generalize (if fuFlag1 &&& 0x80 = 0 ∧ data.length ≤ offset + packetSize then
        (fuFlag1 ||| 0x40, sizeSub data.length offset) else (fuFlag1, packetSize)) = turn at h
      obtain ⟨flag, size⟩ := turn
      dsimp only at h
      obtain ⟨⟨e₂, rtp⟩, hmake, h⟩ := bind_eq_ok.mp h
      obtain ⟨rtp₁, h₁, h⟩ := bind_eq_ok.mp h
      obtain ⟨bytes, -, h⟩ := bind_eq_ok.mp h
      obtain ⟨rtp₂, h₂, h⟩ := bind_eq_ok.mp h
      obtain ⟨⟨e₃, rtps'⟩, hrest, h⟩ := bind_eq_ok.mp h
      cases h
      exact (counts_fill hmake h₁ h₂).append (ih hrest)

/-- **The packets of a unit.** -/
theorem counts_packRtp (h : e.packRtp fuel data pts isMark = .ok (e₁, rtps)) :
    Counts e e₁ rtps := by
  rw [packRtp] at h
  split_ifs at h with hfit
  · exact counts_packRtpStapA h
  · rw [packRtpFu] at h
    cases hdata : data[0]? with
    | none => simp [hdata] at h
    | some b =>
      simp only [hdata] at h
      exact counts_packRtpFuLoop h

end H264RtpEncoder

/-- **The packets of any calls** of `packRtp`, one after the other. -/
theorem PackRtpCall.counts_sendAll {fuel : ℕ} {e e' : H264RtpEncoder} {calls : List PackRtpCall}
    {rtps : List RtpPacket} (h : sendAll fuel e calls = .ok (e', rtps)) : e.Counts e' rtps := by
  induction calls generalizing e rtps with
  | nil =>
    cases h
    exact .nil _
  | cons call calls ih =>
    rw [sendAll] at h
    obtain ⟨⟨e₁, first⟩, hsend, h⟩ := bind_eq_ok.mp h
    obtain ⟨⟨e₂, later⟩, hrest, h⟩ := bind_eq_ok.mp h
    cases h
    rw [PackRtpCall.send] at hsend
    split_ifs at hsend with hlen
    exact (H264RtpEncoder.counts_packRtp hsend).append (ih hrest)

end CppServerStudio
