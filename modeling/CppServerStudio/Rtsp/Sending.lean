import CppServerStudio.Rtsp.ConfigFrames

/-!
# Calls of the packetizer

A call of `packRtp` comes to its end exactly if the bytes that it is asked for are there, and can be
packed. Calls one after the other give back what they were asked for.

## Main definitions

* `PackRtpCall.Sendable`: a call that can be carried out
* `PackRtpCall.asked`: the bytes that a call is asked for

## Main results

* `PackRtpCall.sendAll_ok_iff`: the calls that come to their end
* `PackRtpCall.depacketize_sendAll`: what their packets give back
-/

namespace CppServerStudio

open Scanning

theorem ne_nil_of_packRtp {fuel : ℕ} {e : H264RtpEncoder} {data : Bytes} {pts : UInt32}
    {isMark : Bool} {r : H264RtpEncoder × List RtpPacket}
    (h : e.packRtp fuel data pts isMark = .ok r) : data ≠ [] := by
  rintro rfl
  rw [H264RtpEncoder.packRtp] at h
  split_ifs at h
  · rw [H264RtpEncoder.packRtpStapA] at h
    obtain ⟨_, -, h⟩ := bind_eq_ok.mp h
    cases h
  · cases h

namespace PackRtpCall

/-- The bytes that a call of `packRtp` is asked for. -/
def asked (call : PackRtpCall) : Bytes := (call.data ++ [NUL]).take call.len

/-- A call for a whole unit. -/
theorem asked_whole (bytes : Bytes) (pts : UInt32) (isMark gopPos : Bool) :
    (⟨bytes, bytes.length, pts, isMark, gopPos⟩ : PackRtpCall).asked = bytes := List.take_left

/-- **A call that can be carried out**: it is for bytes of its unit, or the NUL behind them, and as
many as can be packed. -/
structure Sendable (mtuSize : ℕ) (call : PackRtpCall) : Prop where
  pos : 1 ≤ call.len
  inside : call.len ≤ call.data.length + 1
  packable : Packable mtuSize call.len

variable {fuel fuel' : ℕ} {e e' : H264RtpEncoder} {call : PackRtpCall}
  {calls later : List PackRtpCall} {rtps : List RtpPacket} {r : H264RtpEncoder × List RtpPacket}

/-! ## One call -/

theorem send_of_le (h : call.send fuel e = .ok r) (hle : fuel ≤ fuel') :
    call.send fuel' e = .ok r := by
  rw [send] at h ⊢
  split_ifs at h ⊢ with hinside
  exact H264RtpEncoder.packRtp_of_le h hle

theorem pos_of_send (h : call.send fuel e = .ok r) : 1 ≤ call.len := by
  rw [send] at h
  split_ifs at h
  have hne := ne_nil_of_packRtp h
  by_contra hzero
  rw [Nat.lt_one_iff.mp (not_le.mp hzero), List.take_zero] at hne
  exact hne rfl

/-- A call that came to its end. -/
theorem sendable_of_send (hmtu : 16 ≤ e.mtuSize) (h : call.send fuel e = .ok (e', rtps)) :
    call.Sendable e.mtuSize ∧ e'.mtuSize = e.mtuSize := by
  obtain ⟨-, hinside, hpackable, hsize⟩ := depacketize_send hmtu (pos_of_send h) h
  exact ⟨⟨pos_of_send h, hinside, hpackable⟩, hsize⟩

/-! ## Calls one after the other -/

theorem sendAll_append (fuel : ℕ) (e : H264RtpEncoder) (calls later : List PackRtpCall) :
    sendAll fuel e (calls ++ later) = (do
      let (e, rtps) ← sendAll fuel e calls
      let (e, rtps') ← sendAll fuel e later
      .ok (e, rtps ++ rtps')) := by
  induction calls generalizing e with
  | nil =>
    rw [List.nil_append, sendAll, ok_bind]
    dsimp only
    cases sendAll fuel e later <;> rfl
  | cons call calls ih =>
    rw [List.cons_append, sendAll, sendAll]
    cases call.send fuel e with
    | error fault => rfl
    | ok first =>
      simp only [ok_bind, ih]
      cases sendAll fuel first.1 calls with
      | error fault => rfl
      | ok r =>
        simp only [ok_bind]
        cases sendAll fuel r.1 later with
        | error fault => rfl
        | ok r' => simp only [ok_bind, List.append_assoc]

theorem sendAll_of_le (h : sendAll fuel e calls = .ok r) (hle : fuel ≤ fuel') :
    sendAll fuel' e calls = .ok r := by
  induction calls generalizing e r with
  | nil => exact h
  | cons call calls ih =>
    rw [sendAll] at h ⊢
    obtain ⟨⟨e₁, first⟩, hsend, h⟩ := bind_eq_ok.mp h
    obtain ⟨⟨e₂, others⟩, hrest, h⟩ := bind_eq_ok.mp h
    rw [send_of_le hsend hle, ok_bind]
    dsimp only
    rw [ih hrest, ok_bind]
    exact h

/-- Calls that came to their end. -/
theorem sendable_of_sendAll (hmtu : 16 ≤ e.mtuSize) (h : sendAll fuel e calls = .ok (e', rtps)) :
    (∀ call ∈ calls, call.Sendable e.mtuSize) ∧ e'.mtuSize = e.mtuSize := by
  induction calls generalizing e rtps with
  | nil =>
    cases h
    exact ⟨fun call hcall => absurd hcall List.not_mem_nil, rfl⟩
  | cons call calls ih =>
    rw [sendAll] at h
    obtain ⟨⟨e₁, first⟩, hsend, h⟩ := bind_eq_ok.mp h
    obtain ⟨⟨e₂, others⟩, hrest, h⟩ := bind_eq_ok.mp h
    cases h
    obtain ⟨hcall, hsize⟩ := sendable_of_send hmtu hsend
    obtain ⟨hcalls, hsize'⟩ := ih (hsize ▸ hmtu) hrest
    rw [hsize] at hcalls
    exact ⟨List.forall_mem_cons.mpr ⟨hcall, hcalls⟩, hsize'.trans hsize⟩

/-- Calls that can be carried out come to their end. -/
theorem sendAll_of_sendable (hmtu : 16 ≤ e.mtuSize)
    (h : ∀ call ∈ calls, call.Sendable e.mtuSize) :
    ∃ fuel e' rtps, sendAll fuel e calls = .ok (e', rtps) := by
  induction calls generalizing e with
  | nil => exact ⟨0, e, [], rfl⟩
  | cons call calls ih =>
    rw [List.forall_mem_cons] at h
    obtain ⟨hcall, hcalls⟩ := h
    obtain ⟨fuel₁, e₁, rtps₁, hone⟩ :=
      send_of_packable hmtu hcall.pos hcall.inside hcall.packable
    obtain ⟨-, hsize⟩ := sendable_of_send hmtu (hone fuel₁ le_rfl)
    -- the packet size is the same for the other calls
    rw [← hsize] at hmtu hcalls
    obtain ⟨fuel₂, e₂, rtps₂, hothers⟩ := ih hmtu hcalls
    refine ⟨max fuel₁ fuel₂, e₂, rtps₁ ++ rtps₂, ?_⟩
    rw [sendAll, hone _ (le_max_left _ _), ok_bind]
    dsimp only
    rw [sendAll_of_le hothers (le_max_right _ _), ok_bind]

/-- **The calls that come to their end** are those that can be carried out. -/
theorem sendAll_ok_iff (hmtu : 16 ≤ e.mtuSize) :
    (∃ fuel e' rtps, sendAll fuel e calls = .ok (e', rtps)) ↔
      ∀ call ∈ calls, call.Sendable e.mtuSize := by
  refine ⟨?_, sendAll_of_sendable hmtu⟩
  rintro ⟨fuel, e', rtps, h⟩
  exact (sendable_of_sendAll hmtu h).1

/-- **Calls that are carried out give back what they were asked for.** -/
theorem depacketize_sendAll (hmtu : 16 ≤ e.mtuSize) (h : sendAll fuel e calls = .ok (e', rtps)) :
    depacketize none (rtps.map RtpPacket.payload) = some (calls.map asked) := by
  induction calls generalizing e rtps with
  | nil =>
    cases h
    rfl
  | cons call calls ih =>
    rw [sendAll] at h
    obtain ⟨⟨e₁, first⟩, hfirst, h⟩ := bind_eq_ok.mp h
    obtain ⟨⟨e₂, others⟩, hothers, h⟩ := bind_eq_ok.mp h
    cases h
    obtain ⟨hunit, -, -, hsize⟩ := depacketize_send hmtu (pos_of_send hfirst) hfirst
    rw [List.map_append, depacketize_append hunit, ih (hsize ▸ hmtu) hothers]
    rfl

end PackRtpCall

end CppServerStudio
