import CppServerStudio.Rtsp.FileScan
import CppServerStudio.Rtsp.Numbering
import CppServerStudio.Rtsp.ReadFrame
import CppServerStudio.Rtsp.SessionSafety
import Mathlib.Data.List.DropRight

/-!
# Sessions that play a stream

The handlers of a session and the timer of its stream share the track: `readFrame` moves its time
stamp on, and the encoder that it feeds counts the packets. What a run has sent and read since the
last `DESCRIBE` is what the track and the encoder have counted.

## Main definitions

* `Player`, `playerSystem`: a session with the stream that it plays, and its runs
* `packets`, `pictures`: what is sent, and what is read
* `Player.Counted`: the counts of the encoder and of the track

## Main results

* `playerSystem_refines`: the runs of a session that plays are runs of a session
* `Player.Counted.step`: one event keeps the counts
* `counted_later`: what follows an event goes on with them
-/

namespace CppServerStudio

open Scanning

/-! ## Sessions that play -/

/-- **A session with what its stream keeps**: where the file is read, and the units of the
encoder. The time stamp is in the track, the next sequence number in the encoder. -/
structure Player where
  session : RtspSession := {}
  reader : NalReader := .start []
  units : EncoderUnits := {}

/-- What happens to a session, with what comes of it: the actions of the handler of a request, or
the units that the timer of the stream has read and the packets sent for them. -/
inductive PlayerEvent
  | request (req : HttpRequest) (env : RequestEnv) (acts : List SessionAction)
  | frames (nowTime : ℤ) (nalus : List H264Nalu) (rtps : List RtpPacket)

/-- **One event**. The timer of a stream reads frames once a `PLAY` has set the callback. -/
inductive Player.Step (fresh : H264Nalu) : Player → PlayerEvent → Player → Prop
  | describe {p req env acts s} (file : Bytes) (fuel : ℕ)
      (hdescribe : req.method = ofString "DESCRIBE")
      (hload : RtspMediaStream.loadEs fresh fuel file 96 90000 = .ok env.file)
      (hreq : p.session.onWholeRtspPacket req env = .ok (s, acts)) :
      Step fresh p (.request req env acts) ⟨s, .start file, {}⟩
  | other {p req env acts s} (hother : req.method ≠ ofString "DESCRIBE")
      (hreq : p.session.onWholeRtspPacket req env = .ok (s, acts)) :
      Step fresh p (.request req env acts) { p with session := s }
  | frames {p stream e s nowTime nalus calls e' rtps} (fuel : ℕ)
      (hstream : p.session.stream = some stream) (hsending : stream.sending = true)
      (hencoder : stream.encoder = some e)
      (hread : EsReader.Returns fresh nowTime ⟨p.reader, stream.mediaTrack.timeStamp, p.units⟩ s
        nalus calls)
      (hsend : PackRtpCall.sendAll fuel e calls = .ok (e', rtps)) :
      Step fresh p (.frames nowTime nalus rtps)
        ⟨{ p.session with stream := some (stream.streamed s.timeStamp e'.seq) }, s.reader, s.units⟩

/-- Sessions from their start. -/
def playerSystem (fresh : H264Nalu) : LTS Player PlayerEvent where
  init p := p = {}
  step := Player.Step fresh

/-- **Refinement**: what happens to a session that plays may happen to a session. -/
theorem playerSystem_refines {fresh : H264Nalu} {events : List PlayerEvent} {p : Player}
    (h : (playerSystem fresh).Run events p) : ∃ events', sessionSystem.Run events' p.session := by
  induction h with
  | nil h =>
    subst h
    exact ⟨[], .nil rfl⟩
  | snoc hrun hstep ih =>
    obtain ⟨events', ih⟩ := ih
    cases hstep with
    | @describe req env acts t file fuel hdescribe hload hreq =>
      refine ⟨events' ++ [.request req env], ih.snoc ?_⟩
      exact ⟨acts, hreq⟩
    | @other req env acts t hother hreq =>
      refine ⟨events' ++ [.request req env], ih.snoc ?_⟩
      exact ⟨acts, hreq⟩
    | @frames stream e t nowTime nalus calls e' rtps fuel hstream hsending hencoder hread hsend =>
      refine ⟨events' ++ [.frames t.timeStamp e'.seq], ih.snoc ⟨[], ?_⟩⟩
      rw [RtspSession.handle, hstream]
      rfl

namespace PlayerEvent

def isDescribe : PlayerEvent → Bool
  | request req _ _ => req.method = ofString "DESCRIBE"
  | frames .. => false

/-- The packets that are sent. -/
def rtps : PlayerEvent → List RtpPacket
  | request .. => []
  | frames _ _ rtps => rtps

/-- The units that are read. -/
def nalus : PlayerEvent → List H264Nalu
  | request .. => []
  | frames _ nalus _ => nalus

end PlayerEvent

/-- The packets that are sent in these events. -/
def packets (events : List PlayerEvent) : List RtpPacket := events.flatMap PlayerEvent.rtps

/-- The pictures that are read in these events, by their first units. -/
def pictures (events : List PlayerEvent) : List H264Nalu :=
  (events.flatMap PlayerEvent.nalus).filter H264Nalu.decodeAble

/-- The events behind the last `DESCRIBE`. -/
def sinceDescribe (events : List PlayerEvent) : List PlayerEvent :=
  events.rtakeWhile fun e => !e.isDescribe

/-- The events up to the next `DESCRIBE`. -/
def untilDescribe (events : List PlayerEvent) : List PlayerEvent :=
  events.takeWhile fun e => !e.isDescribe

/-! ## What is counted since the last `DESCRIBE` -/

/-- The handlers of the other requests keep the stream, but for its callback. -/
theorem RtspSession.stream_of_onWholeRtspPacket {s s' : RtspSession} {req : HttpRequest}
    {env : RequestEnv} {acts : List SessionAction}
    (hdescribe : req.method ≠ ofString "DESCRIBE")
    (h : s.onWholeRtspPacket req env = .ok (s', acts)) :
    s'.stream = s.stream ∨
      ∃ stream, s.stream = some stream ∧ s'.stream = some { stream with sending := true } := by
  -- Only `PLAY` for the session touches the stream: it sets the callback of the encoder.
  by_cases hsetup : req.method = ofString "SETUP"
  · rw [onWholeRtspPacket_setup hsetup] at h
    cases hs : (s.prepare req).stream with
    | none =>
      rw [handleSetup_error hs] at h
      cases h
    | some stream =>
      obtain ⟨t, acts', hrun, hstream, -⟩ := handleSetup_ok req env hs
      obtain ⟨rfl, -⟩ := Prod.mk.inj (Except.ok.inj (hrun.symm.trans h))
      exact .inl (hstream.trans stream_prepare)
  · by_cases hplay : req.method = ofString "PLAY"
    · rw [onWholeRtspPacket_play hplay] at h
      cases hs : (s.prepare req).stream with
      | none =>
        rw [handlePlay_error hs] at h
        cases h
      | some stream =>
        rw [stream_prepare] at hs
        by_cases hsession : req.getRequestValue (ofString "Session") = (s.prepare req).sessionid
        · cases hencoder : stream.encoder.isSome with
          | false =>
            rw [handlePlay_null (stream_prepare.trans hs) hsession hencoder] at h
            cases h
          | true =>
            obtain ⟨t, acts', hrun, hstream, -⟩ :=
              handlePlay_ready env (stream_prepare.trans hs) hsession hencoder
            obtain ⟨rfl, -⟩ := Prod.mk.inj (Except.ok.inj (hrun.symm.trans h))
            exact .inr ⟨stream, hs, hstream⟩
        · obtain ⟨acts', hrun, -⟩ := handlePlay_other env (stream_prepare.trans hs) hsession
          obtain ⟨rfl, -⟩ := Prod.mk.inj (Except.ok.inj (hrun.symm.trans h))
          exact .inl stream_prepare
    · obtain ⟨acts', hrun, -⟩ := onWholeRtspPacket_other s env hsetup hplay hdescribe
      obtain ⟨rfl, -⟩ := Prod.mk.inj (Except.ok.inj (hrun.symm.trans h))
      exact .inl stream_prepare

/-- `DESCRIBE` begins with a track whose number is 1, and an encoder whose number is 0. -/
theorem RtspSession.handleDescribe_track (s : RtspSession) (env : RequestEnv) :
    ∃ stream, (s.handleDescribe env).1.stream = some stream ∧ stream.mediaTrack.seq = 1 ∧
      stream.mediaTrack.samplerate = 90000 ∧ stream.mediaTrack.timeStamp = 0 ∧
      ∀ e, stream.encoder = some e → e.seq = 0 := by
  unfold handleDescribe
  cases env.file with
  | failed => exact ⟨_, rfl, rfl, rfl, rfl, by simp⟩
  | loaded sdp =>
    refine ⟨_, rfl, rfl, rfl, rfl, ?_⟩
    intro e he
    obtain rfl := Option.some.inj he
    rfl

namespace EsReader

variable {fresh : H264Nalu} {nowTime : ℤ} {s t : EsReader} {nalu : H264Nalu}
  {nalus nalus₀ : List H264Nalu} {calls : List PackRtpCall}

/-- A turn stamps its unit with the time of the track, which a picture moves on. -/
theorem turn_stamp (h : s.turn fresh = .ok (t, nalu, calls)) :
    nalu.pts = s.timeStamp * 90 ∧
      t.timeStamp = if nalu.decodeAble then s.timeStamp + 40 else s.timeStamp := by
  rw [turn] at h
  obtain ⟨⟨nalu', reader⟩, -, h⟩ := bind_eq_ok.mp h
  cases h
  exact ⟨rfl, rfl⟩

/-- **The clock of the pictures**: each has the time of its number, and the track that of the next
one. -/
structure Clocked (timeStamp : UInt32) (pics : List H264Nalu) : Prop where
  timeStamp : timeStamp = UInt32.ofNat (40 * pics.length)
  pts : ∀ k nalu, pics[k]? = some nalu → nalu.pts = UInt32.ofNat (3600 * k)

theorem clocked_nil : Clocked 0 [] where
  timeStamp := rfl
  pts := by simp

/-- The time of the next picture. -/
theorem Clocked.next {timeStamp : UInt32} {pics : List H264Nalu} (h : Clocked timeStamp pics) :
    timeStamp * 90 = UInt32.ofNat (3600 * pics.length) := by
  have hproduct : (90 : UInt32) = UInt32.ofNat 90 := rfl
  rw [h.timeStamp, hproduct, ← UInt32.ofNat_mul, Nat.mul_right_comm]

theorem Clocked.turn {pics : List H264Nalu} (h : Clocked s.timeStamp pics)
    (hturn : s.turn fresh = .ok (t, nalu, calls)) :
    Clocked t.timeStamp (pics ++ [nalu].filter H264Nalu.decodeAble) := by
  obtain ⟨hpts, htime⟩ := turn_stamp hturn
  by_cases hpicture : nalu.decodeAble = true
  · rw [if_pos hpicture] at htime
    rw [List.filter_singleton, hpicture, cond_true]
    constructor
    · rw [htime, h.timeStamp, List.length_append, List.length_singleton, Nat.mul_add,
        UInt32.ofNat_add]
      rfl
    · intro k nalu' hk
      rcases Nat.lt_or_ge k pics.length with hlt | hge
      · rw [List.getElem?_append_left hlt] at hk
        exact h.pts k nalu' hk
      · -- the picture that was just read
        rw [List.getElem?_append_right hge, List.getElem?_singleton] at hk
        split_ifs at hk with hzero
        obtain rfl := Option.some.inj hk
        rw [hpts, h.next, show k = pics.length by omega]
  · rw [if_neg hpicture] at htime
    rw [List.filter_singleton, Bool.not_eq_true _ |>.mp hpicture, cond_false, List.append_nil,
      htime]
    exact h

/-- **A call keeps the clock of the pictures.** -/
theorem Clocked.returns (h : Clocked s.timeStamp (nalus₀.filter H264Nalu.decodeAble))
    (hread : Returns fresh nowTime s t nalus calls) :
    Clocked t.timeStamp ((nalus₀ ++ nalus).filter H264Nalu.decodeAble) := by
  refine (@readFrame_invariant _ _ _ _ _ _
    (fun s nalus _ => Clocked s.timeStamp (nalus.filter H264Nalu.decodeAble)) ?_ hread
    nalus₀ [] h).1
  intro s nalus calls t nalu calls' hs hlate hturn
  rw [List.filter_append]
  exact hs.turn hturn

end EsReader

theorem packets_append (events events' : List PlayerEvent) :
    packets (events ++ events') = packets events ++ packets events' := List.flatMap_append

theorem pictures_append (events events' : List PlayerEvent) :
    pictures (events ++ events') = pictures events ++ pictures events' := by
  rw [pictures, List.flatMap_append, List.filter_append]
  rfl

theorem sinceDescribe_snoc_of_describe {events : List PlayerEvent} {e : PlayerEvent}
    (h : e.isDescribe = true) : sinceDescribe (events ++ [e]) = [] :=
  List.rtakeWhile_concat_neg _ _ _ (by rw [h]; exact Bool.false_ne_true)

theorem sinceDescribe_snoc {events : List PlayerEvent} {e : PlayerEvent}
    (h : e.isDescribe = false) : sinceDescribe (events ++ [e]) = sinceDescribe events ++ [e] :=
  List.rtakeWhile_concat_pos _ _ _ (by rw [h]; rfl)

/-- **What a session has counted**: the packets by the encoder of its stream, and the pictures by
the time of its track. The number of the track is not counted. -/
structure Player.Counted (p : Player) (events : List PlayerEvent) : Prop where
  getSeq : ∀ k rtp, (packets events)[k]? = some rtp → rtp.getSeq = UInt16.ofNat k
  pts : ∀ k nalu, (pictures events)[k]? = some nalu → nalu.pts = UInt32.ofNat (3600 * k)
  track : ∀ stream, p.session.stream = some stream →
    stream.mediaTrack.seq = 1 ∧ stream.mediaTrack.samplerate = 90000 ∧
      EsReader.Clocked stream.mediaTrack.timeStamp (pictures events)
  encoder : ∀ stream e, p.session.stream = some stream → stream.encoder = some e →
    e.seq = UInt16.ofNat (packets events).length

namespace Player.Counted

variable {fresh : H264Nalu} {p q : Player} {events : List PlayerEvent} {e : PlayerEvent}

/-- Requests that keep the stream, but for its callback. -/
theorem request {req : HttpRequest} {env : RequestEnv} {acts : List SessionAction}
    (h : p.Counted events)
    (hstream : q.session.stream = p.session.stream ∨ ∃ stream, p.session.stream = some stream ∧
      q.session.stream = some { stream with sending := true }) :
    q.Counted (events ++ [.request req env acts]) := by
  have hpackets : packets (events ++ [.request req env acts]) = packets events := by
    rw [packets_append]
    exact List.append_nil _
  have hpictures : pictures (events ++ [.request req env acts]) = pictures events := by
    rw [pictures_append]
    exact List.append_nil _
  constructor
  · rw [hpackets]
    exact h.getSeq
  · rw [hpictures]
    exact h.pts
  · rw [hpictures]
    intro stream hs
    rcases hstream with hkeep | ⟨old, hold, hnew⟩
    · exact h.track stream (hkeep ▸ hs)
    · obtain rfl := Option.some.inj (hs.symm.trans hnew)
      exact h.track old hold
  · rw [hpackets]
    intro stream e hs he
    rcases hstream with hkeep | ⟨old, hold, hnew⟩
    · exact h.encoder stream e (hkeep ▸ hs) he
    · obtain rfl := Option.some.inj (hs.symm.trans hnew)
      exact h.encoder old e hold he

/-- The timer reads units and sends packets. -/
theorem frames {stream : RtspMediaStream} {enc enc' : H264RtpEncoder} {s : EsReader} {nowTime : ℤ}
    {nalus : List H264Nalu} {calls : List PackRtpCall} {rtps : List RtpPacket} {fuel : ℕ}
    (h : p.Counted events) (hstream : p.session.stream = some stream)
    (hsending : stream.sending = true) (hencoder : stream.encoder = some enc)
    (hread : EsReader.Returns fresh nowTime ⟨p.reader, stream.mediaTrack.timeStamp, p.units⟩ s
      nalus calls)
    (hsend : PackRtpCall.sendAll fuel enc calls = .ok (enc', rtps)) :
    Counted ⟨{ p.session with stream := some (stream.streamed s.timeStamp enc'.seq) }, s.reader,
      s.units⟩ (events ++ [.frames nowTime nalus rtps]) := by
  obtain ⟨hseq, hrate, hclock⟩ := h.track stream hstream
  have hcounts := PackRtpCall.counts_sendAll hsend
  -- The encoder goes on at the number of packets sent so far, the clock at the pictures read.
  have henc := h.encoder stream enc hstream hencoder
  have hpackets : packets (events ++ [.frames nowTime nalus rtps]) = packets events ++ rtps := by
    rw [packets_append]
    simp [packets, PlayerEvent.rtps]
  have hclock' : EsReader.Clocked s.timeStamp
      (pictures (events ++ [.frames nowTime nalus rtps])) := by
    have hnalus : (events ++ [PlayerEvent.frames nowTime nalus rtps]).flatMap PlayerEvent.nalus =
        events.flatMap PlayerEvent.nalus ++ nalus := by simp [PlayerEvent.nalus]
    rw [pictures, hnalus]
    exact hclock.returns hread
  have hstreamed : ∀ timeStamp seq, stream.streamed timeStamp seq = { stream with
      mediaTrack := { stream.mediaTrack with timeStamp := timeStamp }
      encoder := stream.encoder.map fun e => { e with seq := seq } } := fun _ _ => if_pos hsending
  constructor
  · rw [hpackets]
    intro k rtp hk
    by_cases hlt : k < (packets events).length
    · rw [List.getElem?_append_left hlt] at hk
      exact h.getSeq k rtp hk
    · rw [List.getElem?_append_right (by omega)] at hk
      rw [hcounts.getSeq _ rtp hk, henc, ← UInt16.ofNat_add, Nat.add_sub_cancel' (by omega)]
  · exact hclock'.pts
  · intro stream' hs
    obtain rfl := Option.some.inj hs
    rw [hstreamed]
    exact ⟨hseq, hrate, hclock'⟩
  · intro stream' e hs he
    obtain rfl := Option.some.inj hs
    rw [hstreamed, hencoder] at he
    obtain rfl := Option.some.inj he
    rw [hpackets, List.length_append, UInt16.ofNat_add, ← henc]
    exact hcounts.seq

/-- **One event keeps the counts**; `DESCRIBE` begins them anew. -/
theorem step (h : p.Counted (sinceDescribe events)) (hstep : p.Step fresh e q) :
    q.Counted (sinceDescribe (events ++ [e])) := by
  cases hstep with
  | @describe req env acts s file fuel hdescribe hload hreq =>
    have hevent : (PlayerEvent.request req env acts).isDescribe = true := decide_eq_true hdescribe
    rw [sinceDescribe_snoc_of_describe hevent]
    rw [RtspSession.onWholeRtspPacket_describe hdescribe, Except.ok.injEq] at hreq
    obtain rfl : ((p.session.prepare req).handleDescribe env).1 = s := congrArg Prod.fst hreq
    obtain ⟨stream, hstream, hseq, hrate, htime, hencoder⟩ :=
      (p.session.prepare req).handleDescribe_track env
    -- nothing is sent yet, and the track and the encoder are new
    refine ⟨by simp [packets], by simp [pictures], ?_, ?_⟩
    · intro stream' hs
      obtain rfl := Option.some.inj (hstream.symm.trans hs)
      refine ⟨hseq, hrate, ?_⟩
      rw [htime]
      exact EsReader.clocked_nil
    · intro stream' e hs he
      obtain rfl := Option.some.inj (hstream.symm.trans hs)
      exact hencoder e he
  | @other req env acts s hother hreq =>
    have hevent : (PlayerEvent.request req env acts).isDescribe = false := decide_eq_false hother
    rw [sinceDescribe_snoc hevent]
    exact h.request (RtspSession.stream_of_onWholeRtspPacket hother hreq)
  | frames fuel hstream hsending hencoder hread hsend =>
    rw [sinceDescribe_snoc rfl]
    exact h.frames hstream hsending hencoder hread hsend

/-- **Runs keep the counts.** -/
theorem of_run (h : (playerSystem fresh).Run events p) : p.Counted (sinceDescribe events) := by
  refine h.history (I := fun events p => p.Counted (sinceDescribe events)) ?_ ?_
  · rintro p rfl
    refine ⟨by simp [packets, sinceDescribe], by simp [pictures, sinceDescribe], ?_, ?_⟩
    · intro stream hs
      cases hs
    · intro stream e hs
      cases hs
  · intro events p e q hp hstep
    exact hp.step hstep

end Player.Counted

theorem sinceDescribe_append {events later : List PlayerEvent}
    (h : ∀ e ∈ later, e.isDescribe = false) :
    sinceDescribe (events ++ later) = sinceDescribe events ++ later := by
  induction later using List.reverseRecOn with
  | nil => rw [List.append_nil, List.append_nil]
  | append_singleton later e ih =>
    rw [← List.append_assoc, sinceDescribe_snoc (h e (by simp)),
      ih fun e he => h e (List.mem_append_left _ he), List.append_assoc]

theorem isDescribe_of_mem_untilDescribe {later : List PlayerEvent} {e : PlayerEvent}
    (h : e ∈ untilDescribe later) : e.isDescribe = false := by
  have hnot := List.mem_takeWhile_imp h
  rwa [Bool.not_eq_true'] at hnot

/-- **What follows an event** of the same stream goes on with the counts. -/
theorem counted_later {fresh : H264Nalu} {before later : List PlayerEvent} {e : PlayerEvent}
    {p q r : Player} (hrun : (playerSystem fresh).Run before p)
    (hstep : (playerSystem fresh).step p e q) (hsteps : (playerSystem fresh).Steps q later r)
    (he : e.isDescribe = false) :
    ∃ r' : Player, r'.Counted (sinceDescribe before ++ ([e] ++ untilDescribe later)) := by
  have hsplit : untilDescribe later ++ later.dropWhile (fun e => !e.isDescribe) = later :=
    List.takeWhile_append_dropWhile
  rw [← hsplit] at hsteps
  obtain ⟨r', hsteps⟩ := hsteps.of_append
  have hcounted := Player.Counted.of_run ((hrun.snoc hstep).append hsteps)
  rw [List.append_assoc, sinceDescribe_append] at hcounted
  · exact ⟨r', hcounted⟩
  · intro e' he'
    rcases List.mem_append.mp he' with he' | he'
    · rw [List.mem_singleton.mp he']
      exact he
    · exact isDescribe_of_mem_untilDescribe he'

/-! ## Sessions that are served -/

/-- A response with the code of success. -/
def OkResponse (acts : List SessionAction) : Prop :=
  ∃ rest, SessionAction.send (ofString "RTSP/1.0 200 OK" ++ rest) ∈ acts

variable {fresh : H264Nalu} {p : Player} {req : HttpRequest} {env : RequestEnv}

/-- The session `id` has a stream that is read from here on. -/
structure Player.Ready (p : Player) (s : EsReader) (id : Bytes) : Prop where
  reader : p.reader = s.reader
  units : p.units = s.units
  sessionid : p.session.sessionid = id
  stream : ∃ stream e, p.session.stream = some stream ∧ stream.mediaTrack.timeStamp = s.timeStamp ∧
    stream.encoder = some e ∧ e.mtuSize = 1400

/-- The callback of the stream is set. -/
def Player.Sending (p : Player) : Prop :=
  ∀ stream, p.session.stream = some stream → stream.sending = true

theorem okResponse_getRtspResponse (s : RtspSession) (date : Bytes) (headers : StringMap)
    (acts : List SessionAction) :
    OkResponse (.send (s.getRtspResponse date (ofString "200 OK") headers) :: acts) := by
  have hstatus : ofString "RTSP/1.0 200 OK" =
      ofString "RTSP/1.0" ++ ofString " " ++ ofString "200 OK" := rfl
  unfold OkResponse RtspSession.getRtspResponse
  rw [hstatus]
  simp only [List.append_assoc]
  exact ⟨_, List.mem_cons_self ..⟩

/-- `DESCRIBE` for a file that is loaded. -/
theorem Player.exists_describe (p : Player) {file sdp : Bytes} {fuel : ℕ}
    (hdescribe : req.method = ofString "DESCRIBE") (hfile : env.file = .loaded sdp)
    (hload : RtspMediaStream.loadEs fresh fuel file 96 90000 = .ok (.loaded sdp)) :
    ∃ acts q, (playerSystem fresh).step p (.request req env acts) q ∧
      q.Ready ⟨.start file, 0, {}⟩ env.sessionid := by
  refine ⟨((p.session.prepare req).handleDescribe env).2,
    ⟨((p.session.prepare req).handleDescribe env).1, .start file, {}⟩,
    .describe file fuel hdescribe (hload.trans (congrArg Except.ok hfile.symm))
      (RtspSession.onWholeRtspPacket_describe hdescribe), rfl, rfl, ?_, ?_⟩
  · unfold RtspSession.handleDescribe
    rw [hfile]
    rfl
  · unfold RtspSession.handleDescribe
    rw [hfile]
    exact ⟨_, _, rfl, rfl, rfl, rfl⟩

namespace Player.Ready

variable {s t : EsReader} {id : Bytes} {nowTime : ℤ} {nalus : List H264Nalu} {call : PackRtpCall}
  {calls : List PackRtpCall}

/-- `PLAY` for the session is answered with success. -/
theorem exists_play (h : p.Ready s id) (env : RequestEnv) (hplay : req.method = ofString "PLAY")
    (hid : req.getRequestValue (ofString "Session") = id) :
    ∃ acts q, (playerSystem fresh).step p (.request req env acts) q ∧ OkResponse acts ∧
      q.Ready s id ∧ q.Sending := by
  obtain ⟨stream, e, hstream, htime, hencoder, hmtu⟩ := h.stream
  have hother : req.method ≠ ofString "DESCRIBE" := by
    rw [hplay]
    decide
  have hid' : req.getRequestValue (ofString "Session") = (p.session.prepare req).sessionid :=
    hid.trans (h.sessionid.symm.trans RtspSession.sessionid_prepare.symm)
  -- the session's own id: the handler sets the callback and answers
  obtain ⟨headers, hrun⟩ : ∃ headers, p.session.onWholeRtspPacket req env = .ok
      ({ p.session.prepare req with stream := some { stream with sending := true } },
        [.send ((p.session.prepare req).getRtspResponse env.date (ofString "200 OK") headers),
          .runEvery 500]) := by
    rw [RtspSession.onWholeRtspPacket_play hplay, RtspSession.handlePlay,
      RtspSession.stream_prepare, hstream]
    simp only [hid', ne_eq, not_true_eq_false, if_false, RtspMediaStream.setEncoderSendCB,
      hencoder, ok_bind]
    exact ⟨_, rfl⟩
  refine ⟨_, _, .other hother hrun, okResponse_getRtspResponse _ _ _ _,
    ⟨h.reader, h.units, RtspSession.sessionid_prepare.trans h.sessionid,
      { stream with sending := true }, e, rfl, htime, hencoder, hmtu⟩, ?_⟩
  intro stream' hs
  obtain rfl := Option.some.inj hs
  rfl

/-- The timer sends the packets for what is read, if that can be packed. -/
theorem exists_frames (h : p.Ready s id) (hsending : p.Sending)
    (hread : EsReader.Returns fresh nowTime s t nalus calls)
    (hsendable : ∀ call ∈ calls, call.Sendable 1400) :
    ∃ fuel e e' rtps q, e.mtuSize = 1400 ∧
      PackRtpCall.sendAll fuel e calls = .ok (e', rtps) ∧
      (playerSystem fresh).step p (.frames nowTime nalus rtps) q ∧ q.Ready t id ∧ q.Sending := by
  obtain ⟨stream, e, hstream, htime, hencoder, hmtu⟩ := h.stream
  obtain ⟨fuel, e', rtps, hsend⟩ := PackRtpCall.sendAll_of_sendable
    (show 16 ≤ e.mtuSize by rw [hmtu]; decide) (by rwa [hmtu])
  have hread' : EsReader.Returns fresh nowTime
      ⟨p.reader, stream.mediaTrack.timeStamp, p.units⟩ t nalus calls := by
    rw [h.reader, h.units, htime]
    exact hread
  have hstreamed : ∀ timeStamp seq, stream.streamed timeStamp seq = { stream with
      mediaTrack := { stream.mediaTrack with timeStamp := timeStamp }
      encoder := stream.encoder.map fun e => { e with seq := seq } } :=
    fun _ _ => if_pos (hsending stream hstream)
  refine ⟨fuel, e, e', rtps, _, hmtu, hsend, .frames fuel hstream (hsending stream hstream)
    hencoder hread' hsend, ⟨rfl, rfl, h.sessionid, stream.streamed t.timeStamp e'.seq,
      { e with seq := e'.seq }, rfl, ?_, ?_, hmtu⟩, ?_⟩
  · rw [hstreamed]
  · rw [hstreamed, hencoder]
    rfl
  · intro stream' hs
    obtain rfl := Option.some.inj hs
    rw [hstreamed]
    exact hsending stream hstream

/-- The timer sends one packet for a short unit. -/
theorem exists_frames_short (h : p.Ready s id) (hsending : p.Sending)
    (hread : EsReader.Returns fresh nowTime s t nalus [call]) {b : Byte} {body : Bytes}
    (hdata : call.data = b :: body) (hlen : call.len = call.data.length)
    (hshort : call.data.length ≤ 1000) :
    ∃ rtp q, (playerSystem fresh).step p (.frames nowTime nalus [rtp]) q ∧ q.Ready t id ∧
      q.Sending := by
  have hpos : 1 ≤ call.len := by
    rw [hlen, hdata]
    exact Nat.succ_pos _
  obtain ⟨fuel, e, e', rtps, q, hmtu, hsend, hstep, hready, hsends⟩ :=
    h.exists_frames hsending hread (by
      rw [List.forall_mem_singleton]
      exact ⟨hpos, by omega, by omega, by omega⟩)
  -- the one call of the reader packs the unit whole
  obtain ⟨e₁, rtps₁, hpack, hviews⟩ := e.packRtpStapA_ok call.pts call.isMark b body (by
    rw [← hdata]
    omega)
  have hpack' : e.packRtp fuel (b :: body) call.pts call.isMark = .ok (e₁, rtps₁) := by
    rw [H264RtpEncoder.packRtp, hmtu, if_pos, hpack]
    rw [← hdata]
    exact le_trans (Nat.add_le_add_right hshort 3) (by decide)
  rw [PackRtpCall.sendAll, PackRtpCall.send, if_pos (by omega), hlen, List.take_left, hdata,
    hpack', ok_bind] at hsend
  cases hsend
  have hone := congrArg List.length hviews
  rw [List.length_map] at hone
  obtain ⟨rtp, rfl⟩ := List.length_eq_one_iff.mp hone
  exact ⟨rtp, q, hstep, hready, hsends⟩

end Player.Ready

end CppServerStudio
