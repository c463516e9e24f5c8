import CppServerStudio.Http.SelfDelimiting
import CppServerStudio.Library.Messages
import CppServerStudio.Rtsp.Numbering

/-!
# Packets on the connection of a session

A session sends its responses and the packets of its stream on one connection. A packet begins with
`$`, its channel and its length; a response begins with another byte, and ends with its headers
unless these have a `Content-Length`.

## Main definitions

* `RtspItem`, `readItem`: what a client reads, a response or a packet
* `RtpPacket.Framed`: the interleaved header of a packet tells its length
* `H264RtpEncoder.Keeps`: what is kept by the encoder and holds of each of its packets

## Main results

* `RtpPacket.Framed.reads`: a packet is read, whatever follows it
* `H264RtpEncoder.Keeps.sendAll`: the packets of any calls of `packRtp`
* `H264RtpEncoder.keeps_framed`: all of them are framed
-/

namespace CppServerStudio

open Blocks Scanning Delimiters

/-! ## The client -/

/-- What a client reads. -/
inductive RtspItem
  | response (status : Bytes) (fields : List (Bytes × Bytes)) (body : Bytes)
  | packet (channel : Byte) (data : Bytes)

/-- **A response**: the lines up to the first blank one, and as many bytes behind it as a
`Content-Length` says. -/
def readRtspResponse : Reader Byte RtspItem := fun s => do
  let (head, rest) ← cutAt [CR, LF, CR, LF] s
  match splitAll [CR, LF] head.length head with
  | [] => none
  | status :: lines => do
    let fields ← lines.mapM readField
    let n := match fields.find? fun kv => kv.1 = contentLength with
      | some (_, length) => digitsValue 0 length
      | none => 0
    if n ≤ rest.length then some (.response status fields (rest.take n), rest.drop n) else none

/-- **An item**: a packet behind a `$`, and a response otherwise. -/
def readItem : Reader Byte RtspItem
  | b :: s =>
    if b = ascii '$' then
      match s with
      | channel :: high :: low :: rest =>
        let n := high.toNat * 256 + low.toNat
        if n ≤ rest.length then some (.packet channel (rest.take n), rest.drop n) else none
      | _ => none
    else readRtspResponse (b :: s)
  | [] => none

/-! ## One packet -/

namespace RtpPacket

variable {p p' : RtpPacket} {channel : Byte} {offset : ℕ} {bytes : Bytes}

/-- **The interleaved header**: the channel, and the length of what is behind it. -/
structure Framed (channel : Byte) (p : RtpPacket) : Prop where
  valid : p.data.Valid
  dollar : p.byteAt 0 = ascii '$'
  channel : p.byteAt 1 = channel
  length : p.data.readable.length = 4 + ((p.byteAt 2).toNat * 256 + (p.byteAt 3).toNat)

/-- A write keeps how many bytes are readable. -/
theorem length_readable_poke (hp : p.data.Valid) (h : p.poke offset bytes = .ok p') :
    p'.data.Valid ∧ p'.data.readable.length = p.data.readable.length := by
  obtain ⟨hread, hsize, hfit⟩ := of_poke h
  have hwrite : p'.data.writeIndex = p.data.writeIndex := by
    rw [poke, Buffer.store] at h
    split_ifs at h
    · simp only [Except.mapError, ok_bind, Except.ok.injEq] at h
      rw [← h]
    · simp [Except.mapError] at h
  refine ⟨⟨?_, ?_, ?_, ?_⟩, ?_⟩
  · rw [hread]
    exact hp.read_nonneg
  · rw [hread, hwrite]
    exact hp.read_le_write
  · rw [hwrite, hsize]
    exact hp.write_le_size
  · rw [hsize]
    exact hp.prepend_le_size
  · simp only [Buffer.readable, List.extract_eq_take_drop, List.length_take, List.length_drop,
      hread, hwrite, hsize]

/-- A write behind the header keeps it. -/
theorem Framed.poke (h : p.Framed channel) (hpoke : p.poke offset bytes = .ok p')
    (hoffset : 4 ≤ offset) : p'.Framed channel := by
  obtain ⟨hvalid, hlength⟩ := length_readable_poke h.valid hpoke
  have hbyte : ∀ i < 4, p'.byteAt i = p.byteAt i := fun i hi =>
    byteAt_poke_of_lt hpoke h.valid.read_nonneg (by omega)
  refine ⟨hvalid, ?_, ?_, ?_⟩
  · rw [hbyte 0 (by omega)]
    exact h.dollar
  · rw [hbyte 1 (by omega)]
    exact h.channel
  · rw [hlength, hbyte 2 (by omega), hbyte 3 (by omega)]
    exact h.length

/-- What is sent of a packet. -/
def sent (p : RtpPacket) : Bytes := p.data.readable

/-- What a client gets of a packet: its channel, and the packet behind the interleaved header. -/
def item (p : RtpPacket) : RtspItem := .packet (p.byteAt 1) (p.data.readable.drop rtpTcpHeaderSize)

/-- **A packet is read**, whatever stands behind it. -/
theorem Framed.reads (h : p.Framed channel) : Reader.Reads readItem p.sent p.item := by
  have hlength := h.length
  -- the four bytes of the header, and the packet behind them
  obtain ⟨b₀, b₁, b₂, b₃, data, hdata⟩ : ∃ b₀ b₁ b₂ b₃ data,
      p.data.readable = b₀ :: b₁ :: b₂ :: b₃ :: data := by
    match hr : p.data.readable, hlength with
    | b₀ :: b₁ :: b₂ :: b₃ :: data, _ => exact ⟨b₀, b₁, b₂, b₃, data, rfl⟩
    | [], hlength | [_], hlength | [_, _], hlength | [_, _, _], hlength => simp at hlength; omega
  have hbyte : ∀ i < 4, p.byteAt i = (b₀ :: b₁ :: b₂ :: b₃ :: data).getD i 0 := by
    intro i hi
    rw [byteAt_eq h.valid (by omega), hdata]
  have h₀ : b₀ = ascii '$' := (hbyte 0 (by omega)).symm.trans h.dollar
  have h₁ : p.byteAt 1 = b₁ := hbyte 1 (by omega)
  have hn : data.length = b₂.toNat * 256 + b₃.toNat := by
    rw [hdata, hbyte 2 (by omega), hbyte 3 (by omega)] at hlength
    simp at hlength
    omega
  refine ⟨?_, fun rest => ?_⟩
  · rw [sent, hdata]
    exact List.cons_ne_nil _ _
  · have hle : b₂.toNat * 256 + b₃.toNat ≤ (data ++ rest).length := by
      rw [List.length_append]
      omega
    rw [sent, item, hdata, h₁, h₀]
    rw [← hn] at hle
    simp only [List.cons_append, readItem, if_true, ← hn, if_pos hle, List.take_left,
      List.drop_left, rtpTcpHeaderSize, List.drop_succ_cons, List.drop_zero]

end RtpPacket

/-! ## The packets of an encoder -/

namespace H264RtpEncoder

/-- **What `packRtp` does to its packets**: it makes them with `makeRtp`, and writes behind their
headers. -/
structure Keeps (I : H264RtpEncoder → Prop) (Q : RtpPacket → Prop) : Prop where
  make : ∀ {e e₁ : H264RtpEncoder} {len : ℕ} {isMark : Bool} {pts : UInt32} {rtp : RtpPacket}, I e →
    e.makeRtp none len isMark pts = .ok (e₁, rtp) → I e₁ ∧ Q rtp
  poke : ∀ {p p' : RtpPacket} {offset : ℕ} {bytes : Bytes}, Q p → p.poke offset bytes = .ok p' →
    rtpTcpHeaderSize + rtpHeaderSize ≤ offset → Q p'

variable {I : H264RtpEncoder → Prop} {Q : RtpPacket → Prop} {e e₁ : H264RtpEncoder}
  {rtps : List RtpPacket} {data : Bytes} {pts : UInt32} {isMark : Bool}
  {fuel offset packetSize : ℕ}

/-- A packet whose payload is written in two parts. -/
theorem Keeps.fill (h : Keeps I Q) (he : I e) {rtp rtp₁ rtp₂ : RtpPacket} {head body : Bytes}
    {len k : ℕ} (hmake : e.makeRtp none len isMark pts = .ok (e₁, rtp))
    (h₁ : rtp.poke rtp.getPayload head = .ok rtp₁)
    (h₂ : rtp₁.poke (rtp.getPayload + k) body = .ok rtp₂) : I e₁ ∧ Q rtp₂ := by
  obtain ⟨he₁, hrtp⟩ := h.make he hmake
  have hpayload : rtpTcpHeaderSize + rtpHeaderSize ≤ rtp.getPayload := rtp.le_getPayload
  exact ⟨he₁, h.poke (h.poke hrtp h₁ hpayload) h₂ (hpayload.trans (Nat.le_add_right _ _))⟩

theorem Keeps.packRtpStapA (h : Keeps I Q) (he : I e)
    (hpack : e.packRtpStapA data pts isMark = .ok (e₁, rtps)) : I e₁ ∧ ∀ rtp ∈ rtps, Q rtp := by
  rw [H264RtpEncoder.packRtpStapA] at hpack
  obtain ⟨⟨e₂, rtp⟩, hmake, hpack⟩ := bind_eq_ok.mp hpack
  cases hdata : data[0]? with
  | none => simp [hdata] at hpack
  | some b =>
    simp only [hdata, bind_eq_ok] at hpack
    obtain ⟨rtp₁, h₁, bytes, -, rtp₂, h₂, hr⟩ := hpack
    cases hr
    rw [List.forall_mem_singleton]
    exact h.fill he hmake h₁ h₂

theorem Keeps.packRtpFuLoop (h : Keeps I Q) {fuFlag0 fuFlag1 : Byte} (he : I e)
    (hpack : packRtpFuLoop data pts isMark fuFlag0 fuel e fuFlag1 offset packetSize =
      .ok (e₁, rtps)) : I e₁ ∧ ∀ rtp ∈ rtps, Q rtp := by
  -- Induction on the turns.
  induction fuel generalizing e fuFlag1 offset packetSize rtps with
  | zero => cases hpack
  | succ fuel ih =>
    rw [H264RtpEncoder.packRtpFuLoop] at hpack
    by_cases hend : ¬ fuFlag1 &&& 0x40 = 0
    · rw [if_pos hend] at hpack
      cases hpack
      exact ⟨he, by simp⟩
    · rw [if_neg hend] at hpack
      -- the flags and the size of the packet of this turn
      generalize (if fuFlag1 &&& 0x80 = 0 ∧ data.length ≤ offset + packetSize then
        (fuFlag1 ||| 0x40, sizeSub data.length offset) else (fuFlag1, packetSize)) = turn at hpack
      obtain ⟨flag, size⟩ := turn
      dsimp only at hpack
      obtain ⟨⟨e₂, rtp⟩, hmake, hpack⟩ := bind_eq_ok.mp hpack
      obtain ⟨rtp₁, h₁, hpack⟩ := bind_eq_ok.mp hpack
      obtain ⟨bytes, -, hpack⟩ := bind_eq_ok.mp hpack
      obtain ⟨rtp₂, h₂, hpack⟩ := bind_eq_ok.mp hpack
      obtain ⟨⟨e₃, rtps'⟩, hrest, hpack⟩ := bind_eq_ok.mp hpack
      cases hpack
      obtain ⟨he₂, hrtp⟩ := h.fill he hmake h₁ h₂
      obtain ⟨he₁, hrtps⟩ := ih he₂ hrest
      exact ⟨he₁, List.forall_mem_cons.mpr ⟨hrtp, hrtps⟩⟩

/-- **The packets of a unit.** -/
theorem Keeps.packRtp (h : Keeps I Q) (he : I e)
    (hpack : e.packRtp fuel data pts isMark = .ok (e₁, rtps)) : I e₁ ∧ ∀ rtp ∈ rtps, Q rtp := by
  rw [H264RtpEncoder.packRtp] at hpack
  split_ifs at hpack with hfit
  · exact h.packRtpStapA he hpack
  · rw [packRtpFu] at hpack
    cases hdata : data[0]? with
    | none => simp [hdata] at hpack
    | some b =>
      simp only [hdata] at hpack
      exact h.packRtpFuLoop he hpack

/-- **The packets of any calls** of `packRtp`. -/
theorem Keeps.sendAll (h : Keeps I Q) {calls : List PackRtpCall} (he : I e)
    (hsend : PackRtpCall.sendAll fuel e calls = .ok (e₁, rtps)) : I e₁ ∧ ∀ rtp ∈ rtps, Q rtp := by
  induction calls generalizing e rtps with
  | nil =>
    cases hsend
    exact ⟨he, by simp⟩
  | cons call calls ih =>
    rw [PackRtpCall.sendAll] at hsend
    obtain ⟨⟨e₂, first⟩, hfirst, hsend⟩ := bind_eq_ok.mp hsend
    obtain ⟨⟨e₃, later⟩, hlater, hsend⟩ := bind_eq_ok.mp hsend
    cases hsend
    rw [PackRtpCall.send] at hfirst
    split_ifs at hfirst with hlen
    obtain ⟨he₂, hrtps⟩ := h.packRtp he hfirst
    obtain ⟨he₁, hrtps'⟩ := ih he₂ hlater
    exact ⟨he₁, List.forall_mem_append.mpr ⟨hrtps, hrtps'⟩⟩

/-- `makeRtp` writes the length that it makes room for, even when this does not fit in 16 bits. -/
theorem makeRtp_framed {rtp : RtpPacket} {len : ℕ}
    (h : e.makeRtp none len isMark pts = .ok (e₁, rtp)) :
    e₁.interleaved = e.interleaved ∧ rtp.Framed e.interleaved := by
  obtain ⟨n, hn⟩ : ∃ n, n = UInt16.ofNat (len + rtpHeaderSize) := ⟨_, rfl⟩
  rw [makeRtp, ← hn] at h
  obtain ⟨pack, hpack, h⟩ := bind_eq_ok.mp h
  obtain ⟨rtp₁, h₁, h⟩ := bind_eq_ok.mp h
  obtain ⟨rtp₂, h₂, h⟩ := bind_eq_ok.mp h
  cases h
  refine ⟨rfl, .poke ?_ h₂ le_rfl⟩
  -- the buffer holds the four bytes of the framing, and as many behind them as these say
  obtain ⟨pack', happend, hvalid, hread⟩ :=
    Buffer.valid_new.append (List.replicate (rtpTcpHeaderSize + n.toNat) NUL)
  rw [happend] at hpack
  obtain rfl : pack' = pack := Except.ok.inj hpack
  obtain ⟨hvalid₁, hlength⟩ := RtpPacket.length_readable_poke hvalid h₁
  have hbyte : ∀ i < 4, rtp₁.byteAt i = (ascii '$' :: e.interleaved :: be16 n).getD i 0 := by
    intro i hi
    have hpoke := RtpPacket.byteAt_poke h₁ (i := i) (by simpa using hi)
    rwa [Nat.zero_add] at hpoke
  refine ⟨hvalid₁, hbyte 0 (by omega), hbyte 1 (by omega), ?_⟩
  rw [hlength, hread, Buffer.readable_new, hbyte 2 (by omega), hbyte 3 (by omega)]
  have hsum := n.toNat_lt
  simp [be16, rtpTcpHeaderSize]
  omega

/-- The packets on a channel. -/
theorem keeps_framed (channel : Byte) :
    Keeps (fun e => e.interleaved = channel) (RtpPacket.Framed channel) where
  make := by
    intro e e₁ len isMark pts rtp he hmake
    obtain ⟨he₁, hrtp⟩ := makeRtp_framed hmake
    exact ⟨he₁.trans he, he ▸ hrtp⟩
  poke h hpoke hoffset := h.poke hpoke (le_trans (by decide) hoffset)

end H264RtpEncoder

end CppServerStudio
