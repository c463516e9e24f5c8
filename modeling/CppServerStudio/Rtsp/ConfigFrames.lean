import CppServerStudio.Rtsp.EncoderPipeline
import CppServerStudio.Rtsp.Packetization

/-!
# The parameter sets in front of a key frame

`H264RtpEncoder::insertConfigFrame` packs the stored SPS with its length, and the stored PPS with
the length of the SPS, too. It is called for a key frame once the next frame is there, and by then
the stored sets may be newer than the key frame.

## Main definitions

* `PackRtpCall.send`: a call of `packRtp` for a unit in memory
* `ConfigIntact`: the packets of `insertConfigFrame` carry the stored sets
* `KeyFrameAt`: a key frame among the units given to the encoder, up to the next frame
* `SentInForce`, `KeyFrameAt.Unchanged`: the sets in front of the key frame are those given before
  it; no other ones are given before the next frame

## Main results

* `configIntact_iff`: the sets that are carried whole
* `sentInForce_iff`: the key frames that are sent with the sets in force
-/

namespace CppServerStudio

open Scanning

/-! ## Calls of `packRtp` -/

namespace PackRtpCall

/-- **`packRtp`** for `len` bytes from the pointer on. A unit in memory ends in a NUL, behind which
nothing may be read. -/
def send (fuel : ℕ) (e : H264RtpEncoder) (call : PackRtpCall) :
    Except RtpFault (H264RtpEncoder × List RtpPacket) :=
  if call.len ≤ call.data.length + 1 then
    e.packRtp fuel ((call.data ++ [NUL]).take call.len) call.pts call.isMark
  else .error .overread

/-- Calls one after the other. -/
def sendAll (fuel : ℕ) : H264RtpEncoder → List PackRtpCall →
    Except RtpFault (H264RtpEncoder × List RtpPacket)
  | e, [] => .ok (e, [])
  | e, call :: calls => do
    let (e, rtps) ← call.send fuel e
    let (e, later) ← sendAll fuel e calls
    .ok (e, rtps ++ later)

end PackRtpCall

/-- The units that `get_annexb_nalu` gives. -/
structure H264Nalu.Filled (nalu : H264Nalu) : Prop where
  len : nalu.len = nalu.buffer.length
  nalUnitType : nalu.nalUnitType = nalu.buffer.getD 0 NUL &&& 0x1F

/-- **The stored sets are sent whole**: the packets of `insertConfigFrame` are those of an SPS and a
PPS, with the bytes of the stored units, and none but these bytes are read. -/
def ConfigIntact (e : H264RtpEncoder) (u : EncoderUnits) (sps pps : H264Nalu) (pts : UInt32) :
    Prop :=
  (∃ fuel e' rtps, PackRtpCall.sendAll fuel e (u.insertConfigFrame pts) = .ok (e', rtps) ∧
    depacketize none (rtps.map RtpPacket.payload) = some [sps.buffer, pps.buffer]) ∧
  ∀ call ∈ u.insertConfigFrame pts, call.len ≤ call.data.length

/-! ## Fuel and packet size -/

namespace H264RtpEncoder

variable {e e' : H264RtpEncoder} {data : Bytes} {pts : UInt32} {isMark : Bool} {fuel : ℕ}
  {r : H264RtpEncoder × List RtpPacket}

theorem makeRtp_mtuSize {len : ℕ} {rtp : RtpPacket}
    (h : e.makeRtp none len isMark pts = .ok (e', rtp)) :
    e'.mtuSize = e.mtuSize := by
  rw [makeRtp] at h
  obtain ⟨pack, -, h⟩ := bind_eq_ok.mp h
  obtain ⟨rtp₁, -, h⟩ := bind_eq_ok.mp h
  obtain ⟨rtp₂, -, h⟩ := bind_eq_ok.mp h
  cases h
  rfl

/-- A series that ends does so with more fuel, too, and keeps the packet size. -/
theorem packRtpFuLoop_succ {fuFlag0 fuFlag1 : Byte} {offset packetSize : ℕ}
    (h : packRtpFuLoop data pts isMark fuFlag0 fuel e fuFlag1 offset packetSize = .ok r) :
    packRtpFuLoop data pts isMark fuFlag0 (fuel + 1) e fuFlag1 offset packetSize = .ok r ∧
      r.1.mtuSize = e.mtuSize := by
  induction fuel generalizing e fuFlag1 offset packetSize r with
  | zero => cases h
  | succ fuel ih =>
    rw [packRtpFuLoop] at h ⊢
    by_cases hend : ¬ fuFlag1 &&& 0x40 = 0
    · rw [if_pos hend] at h ⊢
      cases h
      exact ⟨rfl, rfl⟩
    · rw [if_neg hend] at h ⊢
      -- the flags and the size of the packet of this turn
      generalize (if fuFlag1 &&& 0x80 = 0 ∧ data.length ≤ offset + packetSize then
        (fuFlag1 ||| 0x40, sizeSub data.length offset) else (fuFlag1, packetSize)) = turn at h ⊢
      obtain ⟨flag, size⟩ := turn
      dsimp only at h ⊢
      obtain ⟨⟨e₁, rtp⟩, hmake, h⟩ := bind_eq_ok.mp h
      obtain ⟨rtp₁, h₁, h⟩ := bind_eq_ok.mp h
      obtain ⟨bytes, hread, h⟩ := bind_eq_ok.mp h
      obtain ⟨rtp₂, h₂, h⟩ := bind_eq_ok.mp h
      obtain ⟨⟨e₂, rtps⟩, hrest, h⟩ := bind_eq_ok.mp h
      obtain ⟨hmore, hsize⟩ := ih hrest
      rw [hmake, ok_bind, h₁, ok_bind, hread, ok_bind, h₂, ok_bind, hmore]
      refine ⟨h, ?_⟩
      cases h
      exact hsize.trans (makeRtp_mtuSize hmake)

theorem packRtp_succ (h : e.packRtp fuel data pts isMark = .ok r) :
    e.packRtp (fuel + 1) data pts isMark = .ok r ∧ r.1.mtuSize = e.mtuSize := by
  rw [packRtp] at h ⊢
  split_ifs at h ⊢ with hfit
  · refine ⟨h, ?_⟩
    rw [packRtpStapA] at h
    obtain ⟨⟨e₁, rtp⟩, hmake, h⟩ := bind_eq_ok.mp h
    cases hdata : data[0]? with
    | none => simp [hdata] at h
    | some b =>
      simp only [hdata, bind_eq_ok] at h
      obtain ⟨rtp₁, -, bytes, -, rtp₂, -, hr⟩ := h
      cases hr
      exact makeRtp_mtuSize hmake
  · rw [packRtpFu] at h ⊢
    cases hdata : data[0]? with
    | none => simp [hdata] at h
    | some b =>
      simp only [hdata] at h ⊢
      exact packRtpFuLoop_succ h

theorem packRtp_of_le {fuel' : ℕ} (h : e.packRtp fuel data pts isMark = .ok r)
    (hle : fuel ≤ fuel') : e.packRtp fuel' data pts isMark = .ok r := by
  induction hle with
  | refl => exact h
  | step _ ih => exact (packRtp_succ ih).1

/-- A unit that is packed to the end is packed without loss. -/
theorem lossless_packRtp {rtps : List RtpPacket} (hmtu : 16 ≤ e.mtuSize) (hdata : data ≠ [])
    (h : e.packRtp fuel data pts isMark = .ok (e', rtps)) :
    Lossless e.mtuSize data isMark rtps := by
  obtain ⟨b, body, rfl⟩ := List.exists_cons_of_ne_nil hdata
  obtain ⟨fuel', e₁, rtps', hrun, hlossless⟩ :=
    lossless_of_packable e b body pts isMark hmtu (packable_of_packRtp hmtu h)
  -- both amounts of fuel give the same packets
  have hone := packRtp_of_le h (le_max_left fuel fuel')
  have htwo := packRtp_of_le hrun (le_max_right fuel fuel')
  obtain ⟨-, rfl⟩ := Prod.mk.inj (Except.ok.inj (hone.symm.trans htwo))
  exact hlossless

end H264RtpEncoder

/-- Complete units come first. -/
theorem depacketize_append {unit : Option Bytes} {payloads units : List Bytes}
    (h : depacketize unit payloads = some units) (later : List Bytes) :
    depacketize unit (payloads ++ later) = (depacketize none later).map (units ++ ·) := by
  induction payloads generalizing unit units with
  | nil =>
    cases unit with
    | none =>
      rw [depacketize, Option.some.injEq] at h
      simp [← h]
    | some front => cases h
  | cons payload payloads ih =>
    have hcons : ∀ ps, depacketize unit (payload :: ps) =
        (receive unit payload).bind fun r => (depacketize r.2 ps).map (r.1 ++ ·) := by
      intro ps
      cases unit <;> rw [depacketize] <;>
        simp [Option.map_eq_bind]
    rw [hcons, Option.bind_eq_some_iff] at h
    obtain ⟨⟨first, unit'⟩, hr, h⟩ := h
    obtain ⟨others, hothers, rfl⟩ := Option.map_eq_some_iff.mp h
    rw [List.cons_append, hcons, hr, Option.bind_some, ih hothers, Option.map_map]
    simp [Function.comp_def]

/-! ## The stored sets -/

section

variable {e e' : H264RtpEncoder} {fuel : ℕ} {rtps : List RtpPacket} {call : PackRtpCall}
  {sps pps : H264Nalu} {pts : UInt32} {nalus : List H264Nalu}

/-- A call that is carried out gives back the bytes that it was asked for. -/
theorem PackRtpCall.depacketize_send (hmtu : 16 ≤ e.mtuSize) (hlen : 1 ≤ call.len)
    (h : call.send fuel e = .ok (e', rtps)) :
    depacketize none (rtps.map RtpPacket.payload) =
        some [(call.data ++ [NUL]).take call.len] ∧
      call.len ≤ call.data.length + 1 ∧ Packable e.mtuSize call.len ∧
      e'.mtuSize = e.mtuSize := by
  rw [send] at h
  split_ifs at h with hle
  have htake : ((call.data ++ [NUL]).take call.len).length = call.len := by
    rw [List.length_take, List.length_append, List.length_singleton]
    omega
  have hne : (call.data ++ [NUL]).take call.len ≠ [] :=
    List.ne_nil_of_length_pos (by rw [htake]; exact hlen)
  have hpackable := packable_of_packRtp hmtu h
  rw [htake] at hpackable
  exact ⟨(H264RtpEncoder.lossless_packRtp hmtu hne h).depacketized, hle, hpackable,
    (H264RtpEncoder.packRtp_succ h).2⟩

/-- A call for bytes in memory is carried out if these can be packed. -/
theorem PackRtpCall.send_of_packable (hmtu : 16 ≤ e.mtuSize) (hlen : 1 ≤ call.len)
    (hle : call.len ≤ call.data.length + 1) (hpackable : Packable e.mtuSize call.len) :
    ∃ fuel e' rtps, ∀ fuel' ≥ fuel, call.send fuel' e = .ok (e', rtps) := by
  have htake : ((call.data ++ [NUL]).take call.len).length = call.len := by
    rw [List.length_take, List.length_append, List.length_singleton]
    omega
  obtain ⟨b, body, hdata⟩ := List.exists_cons_of_ne_nil
    (List.ne_nil_of_length_pos (by rw [htake]; exact hlen))
  rw [hdata] at htake
  obtain ⟨fuel, e', rtps, hrun, -⟩ :=
    lossless_of_packable e b body call.pts call.isMark hmtu (htake ▸ hpackable)
  refine ⟨fuel, e', rtps, fun fuel' hfuel => ?_⟩
  rw [send, if_pos (by omega), hdata]
  exact H264RtpEncoder.packRtp_of_le hrun hfuel

/-- A parameter set has a header byte. -/
theorem H264Nalu.Filled.len_pos {nalu : H264Nalu} (h : nalu.Filled) (htype : nalu.nalUnitType ≠ 0) :
    1 ≤ nalu.len := by
  rw [h.len]
  by_contra hzero
  have hnil := List.length_eq_zero_iff.mp (Nat.lt_one_iff.mp (not_le.mp hzero))
  refine htype ?_
  rw [h.nalUnitType, hnil]
  decide

/-- Two calls that are carried out give back the bytes that they were asked for, in order. -/
theorem PackRtpCall.depacketize_sendAll_pair {first second : PackRtpCall} (hmtu : 16 ≤ e.mtuSize)
    (hfirst : 1 ≤ first.len) (hsecond : 1 ≤ second.len)
    (h : sendAll fuel e [first, second] = .ok (e', rtps)) :
    depacketize none (rtps.map RtpPacket.payload) =
        some [(first.data ++ [NUL]).take first.len, (second.data ++ [NUL]).take second.len] ∧
      second.len ≤ second.data.length + 1 ∧ Packable e.mtuSize first.len := by
  rw [sendAll] at h
  obtain ⟨⟨e₁, rtps₁⟩, hone, h⟩ := bind_eq_ok.mp h
  obtain ⟨⟨e₂, later⟩, hlater, h⟩ := bind_eq_ok.mp h
  cases h
  rw [sendAll] at hlater
  obtain ⟨⟨e₃, rtps₂⟩, htwo, hlater⟩ := bind_eq_ok.mp hlater
  cases hlater
  obtain ⟨hunits, -, hpackable, hsize⟩ := depacketize_send hmtu hfirst hone
  obtain ⟨hunits', hle, -⟩ := depacketize_send (hsize ▸ hmtu) hsecond htwo
  refine ⟨?_, hle, hpackable⟩
  rw [List.append_nil, List.map_append, depacketize_append hunits, hunits']
  rfl

/-- Two calls for bytes of their units are carried out if these can be packed. -/
theorem PackRtpCall.sendAll_pair_of_packable {first second : PackRtpCall} (hmtu : 16 ≤ e.mtuSize)
    (hfirst : 1 ≤ first.len) (hsecond : 1 ≤ second.len) (hle : first.len ≤ first.data.length)
    (hle' : second.len ≤ second.data.length) (hpackable : Packable e.mtuSize first.len)
    (hpackable' : Packable e.mtuSize second.len) :
    ∃ fuel e' rtps, sendAll fuel e [first, second] = .ok (e', rtps) := by
  obtain ⟨fuel₁, e₁, rtps₁, hone⟩ := send_of_packable hmtu hfirst (Nat.le_succ_of_le hle) hpackable
  obtain ⟨-, -, -, hsize⟩ := depacketize_send hmtu hfirst (hone fuel₁ le_rfl)
  -- the packet size is the same for the second call
  rw [← hsize] at hmtu hpackable'
  obtain ⟨fuel₂, e₂, rtps₂, htwo⟩ :=
    send_of_packable hmtu hsecond (Nat.le_succ_of_le hle') hpackable'
  refine ⟨max fuel₁ fuel₂, e₂, rtps₁ ++ (rtps₂ ++ []), ?_⟩
  rw [sendAll, hone _ (le_max_left _ _), ok_bind]
  dsimp only
  rw [sendAll, htwo _ (le_max_right _ _), ok_bind]
  rfl

open EncoderUnits in
/-- The sets that are kept have their bytes, and the SPS has a header byte. -/
theorem len_of_inputFrames (hfilled : ∀ nalu ∈ nalus, nalu.Filled)
    (hsps : (inputFrames {} nalus).1.sps = some sps)
    (hpps : (inputFrames {} nalus).1.pps = some pps) :
    sps.len = sps.buffer.length ∧ pps.len = pps.buffer.length ∧ 1 ≤ sps.len := by
  rw [inputFrames_units] at hsps hpps
  obtain ⟨hmem, htype⟩ := List.mem_filter.mp (List.mem_of_getLast? hsps)
  obtain ⟨hmem', -⟩ := List.mem_filter.mp (List.mem_of_getLast? hpps)
  have hsps : sps.nalUnitType = nalSps := of_decide_eq_true htype
  refine ⟨(hfilled sps hmem).len, (hfilled pps hmem').len, (hfilled sps hmem).len_pos ?_⟩
  rw [hsps]
  decide

open EncoderUnits in
/-- **The stored sets are sent whole exactly if they have the same length**, and it is one that can
be packed. -/
theorem configIntact_iff (e : H264RtpEncoder) (hmtu : 16 ≤ e.mtuSize)
    (hfilled : ∀ nalu ∈ nalus, nalu.Filled) (hsps : (inputFrames {} nalus).1.sps = some sps)
    (hpps : (inputFrames {} nalus).1.pps = some pps) (pts : UInt32) :
    ConfigIntact e (inputFrames {} nalus).1 sps pps pts ↔
      sps.len = pps.len ∧ Packable e.mtuSize sps.len := by
  have hcalls : (inputFrames {} nalus).1.insertConfigFrame pts =
      [⟨sps.buffer, sps.len, pts, false, true⟩, ⟨pps.buffer, sps.len, pts, false, false⟩] := by
    rw [insertConfigFrame, hsps, hpps]
  obtain ⟨hspsLen, hppsLen, hpos⟩ := len_of_inputFrames hfilled hsps hpps
  rw [ConfigIntact, hcalls, List.forall_mem_cons, List.forall_mem_singleton]
  constructor
  · rintro ⟨⟨fuel, e', rtps, hrun, hdepack⟩, -⟩
    obtain ⟨hunits, hle, hpackable⟩ :=
      PackRtpCall.depacketize_sendAll_pair hmtu hpos hpos hrun
    rw [hunits] at hdepack
    -- what the second call sends are the bytes of the PPS
    obtain ⟨-, hbytes⟩ : (sps.buffer ++ [NUL]).take sps.len = sps.buffer ∧
        (pps.buffer ++ [NUL]).take sps.len = pps.buffer := by simpa using hdepack
    have hlen := congrArg List.length hbytes
    rw [List.length_take, List.length_append, List.length_singleton] at hlen
    dsimp only at hle
    exact ⟨by omega, hpackable⟩
  · rintro ⟨hlen, hpackable⟩
    have hinside : sps.len ≤ sps.buffer.length ∧ sps.len ≤ pps.buffer.length := by omega
    refine ⟨?_, hinside⟩
    obtain ⟨fuel, e', rtps, hrun⟩ := @PackRtpCall.sendAll_pair_of_packable e
      ⟨sps.buffer, sps.len, pts, false, true⟩ ⟨pps.buffer, sps.len, pts, false, false⟩
      hmtu hpos hpos hinside.1 hinside.2 hpackable hpackable
    obtain ⟨hunits, -⟩ := PackRtpCall.depacketize_sendAll_pair hmtu hpos hpos hrun
    refine ⟨fuel, e', rtps, hrun, ?_⟩
    have hsps : (sps.buffer ++ [NUL]).take sps.len = sps.buffer := by rw [hspsLen, List.take_left]
    have hpps : (pps.buffer ++ [NUL]).take sps.len = pps.buffer := by
      rw [hlen, hppsLen, List.take_left]
    rw [hunits, hsps, hpps]

theorem H264Nalu.filled_fill (nalu : H264Nalu) (unit : Bytes) : (nalu.fill unit).Filled :=
  ⟨rfl, rfl⟩

/-- Two sets of the same length. -/
def shortSets : List H264Nalu :=
  [({} : H264Nalu).fill [0x67, 0x42], ({} : H264Nalu).fill [0x68, 0xCE]]

theorem configIntact_shortSets :
    ConfigIntact { interleaved := 0, ssrc := 1 } (EncoderUnits.inputFrames {} shortSets).1
      (({} : H264Nalu).fill [0x67, 0x42]) (({} : H264Nalu).fill [0x68, 0xCE]) 0 :=
  (configIntact_iff { interleaved := 0, ssrc := 1 } (by decide)
    (List.forall_mem_cons.mpr ⟨H264Nalu.filled_fill _ _,
      List.forall_mem_singleton.mpr (H264Nalu.filled_fill _ _)⟩)
    rfl rfl 0).mpr ⟨rfl, by decide, by decide⟩

/-- A PPS that is shorter than the SPS is read past its end. -/
theorem not_configIntact_longSps :
    ¬ ∀ (e : H264RtpEncoder) (nalus : List H264Nalu) (sps pps : H264Nalu) (pts : UInt32),
      16 ≤ e.mtuSize → (∀ nalu ∈ nalus, nalu.Filled) →
      (EncoderUnits.inputFrames {} nalus).1.sps = some sps →
      (EncoderUnits.inputFrames {} nalus).1.pps = some pps →
      ConfigIntact e (EncoderUnits.inputFrames {} nalus).1 sps pps pts := by
  intro h
  have hintact := h { interleaved := 0, ssrc := 1 }
    [({} : H264Nalu).fill [0x67, 0x42, 0, 0x1E], ({} : H264Nalu).fill [0x68, 0xCE]] _ _ 0
    (by decide)
    (List.forall_mem_cons.mpr ⟨H264Nalu.filled_fill _ _,
      List.forall_mem_singleton.mpr (H264Nalu.filled_fill _ _)⟩) rfl rfl
  have hinside := hintact.2 ⟨[0x68, 0xCE], 4, 0, false, false⟩ (by decide)
  exact absurd hinside (by decide)

end

/-! ## The sets in force -/

/-- **A key frame among the units**: those in front of it, those behind it that are no frames, and
the next frame. -/
structure KeyFrameAt (nalus pre : List H264Nalu) (key : H264Nalu) (mid : List H264Nalu)
    (next : H264Nalu) : Prop where
  given : pre ++ key :: mid ++ [next] <+: nalus
  keyFrame : key.keyFrame = true
  noFrame : ∀ nalu ∈ mid, nalu.isFrame = false
  nextFrame : next.isFrame = true

/-- Each key frame comes behind an SPS and a PPS. -/
def SetsFirst (nalus : List H264Nalu) : Prop :=
  ∀ i key, nalus[i]? = some key → key.keyFrame = true →
    (∃ nalu ∈ nalus.take i, nalu.isSps = true) ∧ ∃ nalu ∈ nalus.take i, nalu.isPps = true

/-- The last unit of a kind. -/
def lastOf (p : H264Nalu → Bool) (nalus : List H264Nalu) : Option H264Nalu :=
  (nalus.filter p).getLast?

/-- What the encoder passes to `packRtp` when the next frame is given to it. -/
def sentWith (pre : List H264Nalu) (key : H264Nalu) (mid : List H264Nalu) (next : H264Nalu) :
    List PackRtpCall :=
  ((EncoderUnits.inputFrames {} (pre ++ key :: mid)).1.inputFrame next).2

/-- **The sets in force**: directly in front of each key frame, the last SPS and the last PPS that
were given before it are sent. -/
def SentInForce (nalus : List H264Nalu) : Prop :=
  ∀ pre key mid next, KeyFrameAt nalus pre key mid next → ∃ sps pps,
    lastOf H264Nalu.isSps pre = some sps ∧ lastOf H264Nalu.isPps pre = some pps ∧
    (sentWith pre key mid next).map PackRtpCall.data = [sps.buffer, pps.buffer, key.buffer]

/-- The last unit of a kind behind the key frame, if there is one, is the one before it. -/
def Unchanged (p : H264Nalu → Bool) (pre mid : List H264Nalu) : Prop :=
  ∀ old nalu, lastOf p pre = some old → lastOf p mid = some nalu → nalu.buffer = old.buffer

section

variable {nalus pre mid : List H264Nalu} {key next : H264Nalu} {p : H264Nalu → Bool}

theorem lastOf_append (p : H264Nalu → Bool) (pre mid : List H264Nalu) :
    lastOf p (pre ++ mid) = (lastOf p mid).or (lastOf p pre) := by
  rw [lastOf, List.filter_append, List.getLast?_append]
  rfl

theorem lastOf_cons_of_not (hkey : p key = false) (mid : List H264Nalu) :
    lastOf p (key :: mid) = lastOf p mid := by
  rw [lastOf, List.filter_cons_of_neg (by simp [hkey])]
  rfl

theorem lastOf_of_forall (h : ∀ nalu ∈ mid, p nalu = false) : lastOf p mid = none := by
  rw [lastOf, List.filter_eq_nil_iff.mpr (by simpa using h)]
  rfl

/-- A key frame is a frame, and no parameter set. -/
theorem H264Nalu.kinds_of_keyFrame (h : key.keyFrame = true) :
    key.isFrame = true ∧ key.isSps = false ∧ key.isPps = false := by
  rw [keyFrame, Bool.and_eq_true, decide_eq_true_eq] at h
  have htype := h.1
  simp [isFrame, isSps, isPps, dropAble, htype, nalIdr, nalSps, nalPps, nalSei, nalAud]

theorem lastOf_of_last (hkey : p key = true) (hmid : ∀ nalu ∈ mid, p nalu = false) :
    lastOf p (pre ++ key :: mid) = some key := by
  rw [← List.singleton_append, lastOf_append, lastOf_append, lastOf_of_forall hmid,
    Option.none_or, lastOf, List.filter_singleton, hkey]
  rfl

/-- **What is sent with the next frame**: the last sets that were given before that, and the key
frame. -/
theorem KeyFrameAt.map_data (h : KeyFrameAt nalus pre key mid next) {sps pps : H264Nalu}
    (hsps : lastOf H264Nalu.isSps (pre ++ key :: mid) = some sps)
    (hpps : lastOf H264Nalu.isPps (pre ++ key :: mid) = some pps) :
    (sentWith pre key mid next).map PackRtpCall.data = [sps.buffer, pps.buffer, key.buffer] := by
  have hunits : (EncoderUnits.inputFrames {} (pre ++ key :: mid)).1 = ⟨sps, pps, key⟩ := by
    rw [EncoderUnits.inputFrames_units, EncoderUnits.mk.injEq]
    exact ⟨hsps, hpps,
      lastOf_of_last (H264Nalu.kinds_of_keyFrame h.keyFrame).1 h.noFrame⟩
  rw [sentWith, hunits, EncoderUnits.inputFrame_eq]
  simp [EncoderUnits.inputFrameL, h.keyFrame, h.nextFrame, EncoderUnits.insertConfigFrame]

/-- The stored set, from the sets before the key frame and behind it. -/
theorem lastOf_keyFrame (hkey : p key = false) {old : H264Nalu} (hold : lastOf p pre = some old) :
    lastOf p (pre ++ key :: mid) = some ((lastOf p mid).getD old) := by
  rw [lastOf_append, lastOf_cons_of_not hkey, hold]
  cases lastOf p mid <;> rfl

/-- The stored set has the bytes of the one before the key frame exactly if that is unchanged. -/
theorem unchanged_iff {old : H264Nalu} (hold : lastOf p pre = some old) :
    Unchanged p pre mid ↔ ((lastOf p mid).getD old).buffer = old.buffer := by
  rw [Unchanged, hold]
  cases lastOf p mid <;> simp

/-- **The key frames are sent with the sets in force exactly if no other sets are given between a
key frame and the next frame.** -/
theorem sentInForce_iff (hsets : SetsFirst nalus) :
    SentInForce nalus ↔ ∀ pre key mid next, KeyFrameAt nalus pre key mid next →
      Unchanged H264Nalu.isSps pre mid ∧ Unchanged H264Nalu.isPps pre mid := by
  refine forall_congr' fun pre => forall_congr' fun key => forall_congr' fun mid =>
    forall_congr' fun next => imp_congr_right fun h => ?_
  obtain ⟨-, hnotSps, hnotPps⟩ := H264Nalu.kinds_of_keyFrame h.keyFrame
  obtain ⟨rest, hrest⟩ := h.given
  obtain ⟨hsps, hpps⟩ := hsets pre.length key (by simp [← hrest]) h.keyFrame
  rw [show nalus.take pre.length = pre by simp [← hrest]] at hsps hpps
  obtain ⟨sps, hsps⟩ := (exists_getLast?_filter _).mp hsps
  obtain ⟨pps, hpps⟩ := (exists_getLast?_filter _).mp hpps
  change lastOf H264Nalu.isSps pre = some sps at hsps
  change lastOf H264Nalu.isPps pre = some pps at hpps
  have hsent := h.map_data (lastOf_keyFrame hnotSps hsps) (lastOf_keyFrame hnotPps hpps)
  rw [unchanged_iff hsps, unchanged_iff hpps, hsent, hsps, hpps]
  simp

/-- An SPS, a PPS, a key frame, another PPS, and the next frame. -/
def newPps : List H264Nalu :=
  [({} : H264Nalu).fill [0x67, 0x42], ({} : H264Nalu).fill [0x68, 0xCE],
    ({} : H264Nalu).fill [0x65, 0x88], ({} : H264Nalu).fill [0x68, 0xEE],
    ({} : H264Nalu).fill [0x41, 0x9A]]

theorem setsFirst_newPps : SetsFirst newPps := by
  intro i key hget hkey
  rcases i with _ | _ | _ | _ | _ | i
  · cases hget
    exact absurd hkey (by decide)
  · cases hget
    exact absurd hkey (by decide)
  · exact ⟨by decide, by decide⟩
  · cases hget
    exact absurd hkey (by decide)
  · cases hget
    exact absurd hkey (by decide)
  · cases hget

theorem sentInForce_newPps :
    SentInForce newPps ↔ ∀ pre key mid next, KeyFrameAt newPps pre key mid next →
      Unchanged H264Nalu.isSps pre mid ∧ Unchanged H264Nalu.isPps pre mid :=
  sentInForce_iff setsFirst_newPps

/-- The PPS behind the key frame is sent in front of it. -/
theorem not_sentInForce_newPps : ¬ ∀ nalus, SetsFirst nalus → SentInForce nalus := by
  intro h
  have hat : KeyFrameAt newPps (newPps.take 2) (({} : H264Nalu).fill [0x65, 0x88])
      [({} : H264Nalu).fill [0x68, 0xEE]] (({} : H264Nalu).fill [0x41, 0x9A]) :=
    ⟨List.prefix_rfl, by decide, by decide, by decide⟩
  obtain ⟨sps, pps, hsps, hpps, hsent⟩ := h newPps setsFirst_newPps _ _ _ _ hat
  obtain rfl : ({} : H264Nalu).fill [0x68, 0xCE] = pps := Option.some.inj hpps
  have hdata : (sentWith (newPps.take 2) (({} : H264Nalu).fill [0x65, 0x88])
      [({} : H264Nalu).fill [0x68, 0xEE]] (({} : H264Nalu).fill [0x41, 0x9A])).map
        PackRtpCall.data = [[0x67, 0x42], [0x68, 0xEE], [0x65, 0x88]] := by decide
  have hsecond : ([0x68, 0xEE] : Bytes) = [0x68, 0xCE] :=
    Option.some.inj (congrArg (fun data => data[1]?) (hdata.symm.trans hsent))
  exact absurd hsecond (by decide)

end

end CppServerStudio
