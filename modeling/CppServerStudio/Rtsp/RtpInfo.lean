import CppServerStudio.Rtsp.Pacing
import CppServerStudio.Rtsp.Player
import CppServerStudio.Util.Decimal

/-!
# The numbers that a response to `PLAY` announces

`RTP-Info` names the sequence number and the time of what follows. `handlePlay` takes both from the
track. Its time stamp is moved on by `readFrame`; its sequence number stays what `handleDescribe`
made it, while the encoder counts its packets from zero on its own.

## Main definitions

* `RtpInfo`, `RtspSession.Announces`: the numbers in a response to `PLAY`
* `InfoRight`: they are those of the next packet and of the next picture

## Main results

* `announced_of_play`: what is announced, and what follows
* `rtpInfo_right_iff`: the announcements that are right
-/

namespace CppServerStudio

open Scanning

/-! ## What is announced -/

/-- The numbers in a `RTP-Info`. -/
structure RtpInfo where
  seq : ℕ
  rtptime : ℤ

def RtpInfo.text (info : RtpInfo) (url : Bytes) : Bytes :=
  ofString "url=" ++ url ++ ofString ";seq=" ++ decimal info.seq ++ ofString ";rtptime=" ++
    decimalInt info.rtptime

/-- The lines of a response to `PLAY` in front of `RTP-Info`. -/
def RtspSession.playHead (s : RtspSession) (date : Bytes) : Bytes :=
  ofString "RTSP/1.0 200 OK\r\n" ++
    HttpResponse.headerLine (ofString "CSeq", decimalInt s.cseq) ++
    HttpResponse.headerLine (ofString "Date", date)

/-- **The announcement of a response**: its `RTP-Info` holds these numbers. -/
def RtspSession.Announces (s : RtspSession) (date : Bytes) (acts : List SessionAction)
    (info : RtpInfo) : Prop :=
  ∃ rest acts', acts = .send (s.playHead date ++
    HttpResponse.headerLine (ofString "RTP-Info", info.text s.contentBase) ++ rest) :: acts'

/-- **A right announcement**: the numbers are the sequence number of the next packet and, modulo
`2 ^ 32`, the time of the next picture. -/
def InfoRight (s : RtspSession) (date : Bytes) (acts : List SessionAction) (rtp : RtpPacket)
    (later : List PlayerEvent) : Prop :=
  ∃ info, s.Announces date acts info ∧ info.seq = rtp.getSeq.toNat ∧
    ∀ nalu, (pictures (untilDescribe later)).head? = some nalu →
      info.rtptime ≡ nalu.pts.toNat [ZMOD 2 ^ 32]

/-! ## The response to `PLAY` -/

theorem RtpInfo.seq_inj {info info' : RtpInfo} {url rest rest' : Bytes}
    (h : info.text url ++ rest = info'.text url ++ rest') : info.seq = info'.seq := by
  simp only [RtpInfo.text, List.append_assoc] at h
  have htail := List.append_cancel_left (List.append_cancel_left (List.append_cancel_left h))
  have hsemicolon : ofString ";rtptime=" = ascii ';' :: ofString "rtptime=" := rfl
  rw [hsemicolon, List.cons_append, List.cons_append] at htail
  exact decimal_cons_inj (by decide) (by decide) htail

namespace RtspSession

variable {s s' : RtspSession} {req : HttpRequest} {env : RequestEnv} {acts : List SessionAction}
  {date : Bytes} {stream : RtspMediaStream}

/-- A response announces one sequence number. -/
theorem Announces.seq_eq {info info' : RtpInfo} (h : s.Announces date acts info)
    (h' : s.Announces date acts info') : info.seq = info'.seq := by
  obtain ⟨rest, acts', hacts⟩ := h
  obtain ⟨rest', acts'', hacts'⟩ := h'
  have hmsg := SessionAction.send.inj (List.cons.inj (hacts.symm.trans hacts')).1
  simp only [HttpResponse.headerLine, List.append_assoc] at hmsg
  have htail := List.append_cancel_left (List.append_cancel_left (List.append_cancel_left hmsg))
  exact RtpInfo.seq_inj htail

/-- What the track of a stream announces. -/
def trackInfo (track : Track) : RtpInfo where
  seq := track.seq.toNat
  rtptime := (track.timeStamp * UInt32.ofInt (track.samplerate.tdiv 1000)).toBitVec.toInt

theorem rtpInfo_eq (s : RtspSession) (track : Track) :
    s.rtpInfo track = (trackInfo track).text s.contentBase := by
  have hseq : ofString ";seq=" = ofString ";" ++ ofString "seq=" := rfl
  have htime : ofString ";rtptime=" = ofString ";" ++ ofString "rtptime=" := rfl
  have hcomma : ofString "," = [ascii ','] := rfl
  rw [rtpInfo, RtpInfo.text, trackInfo, hcomma, List.dropLast_concat, hseq, htime]
  simp only [List.append_assoc]

/-- The order of the keys is that of the alphabet. -/
theorem toList_playHeaders (info range cseq date : Bytes) :
    (emplaceAll (emplaceAll (emplaceAll ∅
      [(ofString "RTP-Info", info), (ofString "Range", range)]) [(ofString "CSeq", cseq)])
      [(ofString "Server", ofString "RtspServer Study"), (ofString "Date", date)]).toList =
    [(ofString "CSeq", cseq), (ofString "Date", date), (ofString "RTP-Info", info),
      (ofString "Range", range), (ofString "Server", ofString "RtspServer Study")] := rfl

theorem toList_playHeaders_session (info range cseq date id : Bytes) :
    (emplaceAll (emplaceAll (emplaceAll (emplaceAll ∅
      [(ofString "RTP-Info", info), (ofString "Range", range)]) [(ofString "CSeq", cseq)])
      [(ofString "Session", id)])
      [(ofString "Server", ofString "RtspServer Study"), (ofString "Date", date)]).toList =
    [(ofString "CSeq", cseq), (ofString "Date", date), (ofString "RTP-Info", info),
      (ofString "Range", range), (ofString "Server", ofString "RtspServer Study"),
      (ofString "Session", id)] := rfl

/-- **The lines of the response**: two of them are in front of `RTP-Info`. -/
theorem announces_getRtspResponse (info : RtpInfo) (range date : Bytes)
    (acts : List SessionAction) :
    s.Announces date (.send (s.getRtspResponse date (ofString "200 OK") (emplaceAll ∅
      [(ofString "RTP-Info", info.text s.contentBase), (ofString "Range", range)])) :: acts)
      info := by
  have hstatus : ofString "RTSP/1.0 200 OK\r\n" =
      ofString "RTSP/1.0" ++ ofString " " ++ ofString "200 OK" ++ ofString "\r\n" := rfl
  rw [Announces, playHead, getRtspResponse, hstatus]
  rw [if_neg (not_not_intro rfl)]
  split
  · rw [toList_playHeaders_session]
    simp only [List.flatMap_cons, List.append_assoc, List.append_nil, List.cons.injEq,
      SessionAction.send.injEq, List.append_cancel_left_eq]
    exact ⟨_, _, rfl, rfl⟩
  · rw [toList_playHeaders]
    simp only [List.flatMap_cons, List.append_assoc, List.append_nil, List.cons.injEq,
      SessionAction.send.injEq, List.append_cancel_left_eq]
    exact ⟨_, _, rfl, rfl⟩

/-- **`PLAY` answered with success** announces what the track holds, and starts the sending. -/
theorem handlePlay_announces (h : s.handlePlay req env = .ok (s', acts)) (hok : OkResponse acts) :
    ∃ stream, s.stream = some stream ∧ s'.stream = some { stream with sending := true } ∧
      s'.Announces env.date acts (trackInfo stream.mediaTrack) := by
  cases hs : s.stream with
  | none =>
    rw [handlePlay_error hs] at h
    cases h
  | some stream =>
    by_cases hsession : req.getRequestValue (ofString "Session") = s.sessionid
    · unfold handlePlay at h
      simp only [hs, hsession, ne_eq, not_true_eq_false, if_false] at h
      obtain ⟨stream', hset, h⟩ := bind_eq_ok.mp h
      rw [RtspMediaStream.setEncoderSendCB] at hset
      cases hencoder : stream.encoder with
      | none => simp [hencoder] at hset
      | some e =>
        simp only [hencoder, Except.ok.injEq] at hset
        subst hset
        cases h
        refine ⟨stream, rfl, by rw [hencoder], ?_⟩
        rw [rtpInfo_eq]
        exact announces_getRtspResponse (trackInfo stream.mediaTrack) _ env.date _
    · -- the response for another session has the code 454
      obtain ⟨acts', hplay, rest, hacts⟩ := handlePlay_other env hs hsession
      rw [hplay] at h
      cases h
      obtain ⟨rest', hmem⟩ := hok
      rw [hacts, List.mem_singleton, SessionAction.send.injEq] at hmem
      have hdigit := congrArg (fun msg : Bytes => msg[9]?) hmem
      simp [ofString] at hdigit

end RtspSession

/-! ## The announcements that are right -/

/-- The time that a track announces, printed as an `int`. -/
theorem trackInfo_rtptime {track : Track} {pics : List H264Nalu} (hrate : track.samplerate = 90000)
    (h : EsReader.Clocked track.timeStamp pics) :
    (RtspSession.trackInfo track).rtptime ≡
      (UInt32.ofNat (3600 * pics.length)).toNat [ZMOD 2 ^ 32] := by
  have hninety : UInt32.ofInt ((90000 : ℤ).tdiv 1000) = 90 := rfl
  have hmod : (2 : ℤ) ^ 32 = ((2 ^ 32 : ℕ) : ℤ) := by norm_num
  rw [RtspSession.trackInfo, hrate, hninety, h.next, BitVec.toInt_eq_toNat_bmod, Int.ModEq, hmod,
    Int.bmod_emod]
  rfl

variable {fresh : H264Nalu} {before later : List PlayerEvent} {p q r : Player} {req : HttpRequest}
  {env : RequestEnv} {acts : List SessionAction} {rtp : RtpPacket}

/-- **The numbers of a response to `PLAY`**: it announces 1 always; the next packet has the number
of packets so far, and the time that is announced is that of the next picture. -/
theorem announced_of_play (hrun : (playerSystem fresh).Run before p)
    (hplay : req.method = ofString "PLAY")
    (hstep : (playerSystem fresh).step p (.request req env acts) q) (hok : OkResponse acts)
    (hsteps : (playerSystem fresh).Steps q later r)
    (hnext : (packets (untilDescribe later)).head? = some rtp) :
    (∃ info, q.session.Announces env.date acts info ∧ info.seq = 1 ∧
      ∀ nalu, (pictures (untilDescribe later)).head? = some nalu →
        info.rtptime ≡ nalu.pts.toNat [ZMOD 2 ^ 32]) ∧
    rtp.getSeq.toNat = (packets (sinceDescribe before)).length % 2 ^ 16 := by
  have hother : req.method ≠ ofString "DESCRIBE" := by
    rw [hplay]
    decide
  have hevent : (PlayerEvent.request req env acts).isDescribe = false := decide_eq_false hother
  have hcounted := Player.Counted.of_run hrun
  obtain ⟨r', hlater⟩ := counted_later hrun hstep hsteps hevent
  cases hstep with
  | describe file fuel hdescribe hload hreq => exact absurd hdescribe hother
  | @other req env acts s hother hreq =>
    rw [RtspSession.onWholeRtspPacket_play hplay] at hreq
    obtain ⟨stream, hs, -, hannounces⟩ := RtspSession.handlePlay_announces hreq hok
    rw [RtspSession.stream_prepare] at hs
    obtain ⟨hseq, hrate, hclock⟩ := hcounted.track stream hs
    refine ⟨⟨_, hannounces, ?_, ?_⟩, ?_⟩
    · rw [RtspSession.trackInfo, hseq]
      rfl
    · intro nalu hnalu
      -- the next picture is the one behind those that were counted
      have hpts := hlater.pts (pictures (sinceDescribe before)).length nalu (by
        rw [pictures_append, pictures_append, List.getElem?_append_right le_rfl, Nat.sub_self,
          ← List.head?_eq_getElem?]
        exact hnalu)
      rw [hpts]
      exact trackInfo_rtptime hrate hclock
    · have hgetSeq := hlater.getSeq (packets (sinceDescribe before)).length rtp (by
        rw [packets_append, packets_append, List.getElem?_append_right le_rfl, Nat.sub_self,
          ← List.head?_eq_getElem?]
        exact hnext)
      rw [hgetSeq, UInt16.toNat_ofNat']

/-- **The announcements that are right**: in every run, `RTP-Info` names the next packet exactly if
the number of packets that were sent since the last `DESCRIBE` is 1, modulo `2 ^ 16`. The time that
it names is right always. -/
theorem rtpInfo_right_iff (hrun : (playerSystem fresh).Run before p)
    (hplay : req.method = ofString "PLAY")
    (hstep : (playerSystem fresh).step p (.request req env acts) q) (hok : OkResponse acts)
    (hsteps : (playerSystem fresh).Steps q later r)
    (hnext : (packets (untilDescribe later)).head? = some rtp) :
    InfoRight q.session env.date acts rtp later ↔
      (packets (sinceDescribe before)).length % 2 ^ 16 = 1 := by
  obtain ⟨⟨info, hannounces, hseq, htime⟩, hgetSeq⟩ :=
    announced_of_play hrun hplay hstep hok hsteps hnext
  rw [← hgetSeq]
  constructor
  · rintro ⟨info', hannounces', hseq', -⟩
    rw [← hseq', hannounces'.seq_eq hannounces, hseq]
  · intro hone
    exact ⟨info, hannounces, hseq.trans hone.symm, htime⟩

/-! ## A file of one picture -/

def deltaSps : NalUnit := ⟨[0x67, 0x64], by decide, by decide, by decide, by decide⟩
def deltaPps : NalUnit := ⟨[0x68, 0xEE], by decide, by decide, by decide, by decide⟩

/-- A slice that is not of a key frame. -/
def deltaSlice : NalUnit := ⟨[0x41, 0x9A], by decide, by decide, by decide, by decide⟩

/-- An SPS, a PPS and a picture that is no key frame. -/
def deltaStream : EsStream where
  frames := [(true, deltaSps), (true, deltaPps), (true, deltaSlice)]
  fits := by
    simp only [List.forall_mem_cons, NalUnit.Fits]
    decide
  nonempty := List.cons_ne_nil _ _

theorem hasParameterSets_deltaStream : HasParameterSets (annexB deltaStream.frames) where
  begins := ⟨true, by decide⟩
  sps := ⟨1, 0x67, by decide⟩
  pps := ⟨7, 0x68, by decide⟩
  fits := not_overruns_of_length_lt (by decide)

/-- A unit that is not a frame is kept on the side. -/
theorem EncoderUnits.inputFrame_of_not_isFrame (u : EncoderUnits) {nalu : H264Nalu}
    (h : nalu.isFrame = false) :
    (u.inputFrame nalu).1.lastNalu = u.lastNalu ∧ (u.inputFrame nalu).2 = [] := by
  rw [inputFrame_eq, h]
  exact ⟨rfl, rfl⟩

namespace EsReader

variable {nowTime : ℤ} {s : EsReader}

theorem late_congr {t : EsReader} (h : t.timeStamp = s.timeStamp) :
    t.late nowTime = s.late nowTime := by
  unfold late
  rw [h]

/-- **One pass over the file**, from a time that is late: the picture of the last pass is sent. -/
theorem exists_pass (h : At deltaStream s 0) (hlate : s.late nowTime = true) :
    ∃ t nalus calls, At deltaStream t 0 ∧ t.timeStamp = s.timeStamp + 40 ∧
      t.units.lastNalu = some (s.stamp {} deltaSlice) ∧
      (s.units.lastNalu = none → calls = []) ∧
      (∀ last : EsReader, s.units.lastNalu = some (last.stamp {} deltaSlice) →
        ∃ call : PackRtpCall, calls = [call] ∧ call.data = deltaSlice.bytes ∧ call.len = 2) ∧
      ∀ s' nalus' calls', Returns {} nowTime t s' nalus' calls' →
        Returns {} nowTime s s' (nalus ++ nalus') (calls ++ calls') := by
  have hsps : deltaStream.frames[0]? = some (true, deltaSps) := rfl
  have hpps : deltaStream.frames[1]? = some (true, deltaPps) := rfl
  have hslice : deltaStream.frames[2]? = some (true, deltaSlice) := rfl
  have hlength : deltaStream.frames.length = 3 := rfl
  obtain ⟨t₁, hturn₁, hat₁, htime₁, hunits₁⟩ := @At.turn {} _ _ _ _ h hsps
  rw [hlength] at hat₁
  obtain ⟨t₂, hturn₂, hat₂, htime₂, hunits₂⟩ := @At.turn {} _ _ _ _ hat₁ hpps
  rw [hlength] at hat₂
  obtain ⟨t₃, hturn₃, hat₃, htime₃, hunits₃⟩ := @At.turn {} _ _ _ _ hat₂ hslice
  rw [hlength] at hat₃
  -- the parameter sets move nothing on
  rw [if_neg (by decide)] at htime₁ htime₂
  rw [if_pos (by decide)] at htime₃
  have hlate₁ : t₁.late nowTime = true := (late_congr htime₁).trans hlate
  have hlate₂ : t₂.late nowTime = true := (late_congr htime₂).trans hlate₁
  obtain ⟨hlast₁, hcalls₁⟩ := s.units.inputFrame_of_not_isFrame
    (show (s.stamp {} deltaSps).isFrame = false from rfl)
  obtain ⟨hlast₂, hcalls₂⟩ := t₁.units.inputFrame_of_not_isFrame
    (show (t₁.stamp {} deltaPps).isFrame = false from rfl)
  have hframe : (t₂.stamp {} deltaSlice).isFrame = true := rfl
  have hlast : t₂.units.lastNalu = s.units.lastNalu := by
    rw [hunits₂, hlast₂, hunits₁, hlast₁]
  have hstamp : t₂.stamp {} deltaSlice = s.stamp {} deltaSlice := by
    rw [stamp, stamp, htime₂, htime₁]
  refine ⟨t₃, [s.stamp {} deltaSps, t₁.stamp {} deltaPps, t₂.stamp {} deltaSlice],
    (t₂.units.inputFrame (t₂.stamp {} deltaSlice)).2, hat₃, ?_, ?_, ?_, ?_, ?_⟩
  · rw [htime₃, htime₂, htime₁]
  · rw [hunits₃, EncoderUnits.inputFrame_eq, hframe, if_pos rfl, hstamp]
  · intro hnone
    rw [EncoderUnits.inputFrame_eq, hframe, if_pos rfl, hlast, hnone]
    rfl
  · intro last hsome
    rw [EncoderUnits.inputFrame_eq, hframe, if_pos rfl, hlast, hsome]
    exact ⟨_, rfl, rfl, rfl⟩
  · intro s' nalus' calls' hrest
    have hreturns := Returns.of_turn hlate hturn₁
      (.of_turn hlate₁ hturn₂ (.of_turn hlate₂ hturn₃ hrest))
    rw [hcalls₁, hcalls₂] at hreturns
    exact hreturns

/-- Two passes at the start: one picture is sent. -/
theorem exists_returns_start : ∃ t nalus call,
    Returns {} 120000 (start (annexB deltaStream.frames)) t nalus [call] ∧ At deltaStream t 0 ∧
      t.timeStamp = 80 ∧ (∃ last : EsReader, t.units.lastNalu = some (last.stamp {} deltaSlice)) ∧
      call.data = deltaSlice.bytes ∧ call.len = 2 := by
  obtain ⟨t₁, nalus₁, calls₁, hat₁, htime₁, hlast₁, hnone, -, hpass₁⟩ :=
    exists_pass (at_start deltaStream)
      (show late 120000 (start (annexB deltaStream.frames)) = true by decide)
  have hlate : t₁.late 120000 = true := by
    rw [late, htime₁]
    decide
  obtain ⟨t₂, nalus₂, calls₂, hat₂, htime₂, hlast₂, -, hsome, hpass₂⟩ := exists_pass hat₁ hlate
  obtain ⟨call, rfl, hdata, hlen⟩ := hsome _ hlast₁
  have hcaught : t₂.late 120000 = false := by
    rw [late, htime₂, htime₁]
    decide
  have hreturns := hpass₁ _ _ _ (hpass₂ _ _ _ (.of_not_late hcaught))
  rw [hnone rfl] at hreturns
  refine ⟨t₂, _, call, hreturns, hat₂, ?_, ⟨t₁, hlast₂⟩, hdata, hlen⟩
  rw [htime₂, htime₁]
  rfl

/-- One pass more: the next picture is sent. -/
theorem exists_returns_next (hat : At deltaStream s 0) (htime : s.timeStamp = 80)
    (hlast : ∃ last : EsReader, s.units.lastNalu = some (last.stamp {} deltaSlice)) :
    ∃ t nalus call, Returns {} 160000 s t nalus [call] ∧ call.data = deltaSlice.bytes ∧
      call.len = 2 := by
  have hlate : s.late 160000 = true := by
    rw [late, htime]
    decide
  obtain ⟨t, nalus, calls, -, htime', -, -, hsome, hpass⟩ := exists_pass hat hlate
  obtain ⟨last, hlast⟩ := hlast
  obtain ⟨call, rfl, hdata, hlen⟩ := hsome last hlast
  have hcaught : t.late 160000 = false := by
    rw [late, htime', htime]
    decide
  exact ⟨t, _, call, hpass _ _ _ (.of_not_late hcaught), hdata, hlen⟩

end EsReader

/-- A file with parameter sets is loaded. -/
theorem exists_loadEs {stream : Bytes} (fresh : H264Nalu) (hsets : HasParameterSets stream) :
    ∃ fuel sdp, RtspMediaStream.loadEs fresh fuel stream 96 90000 = .ok (.loaded sdp) := by
  obtain ⟨fuel, m', ok, hrun, -⟩ := (scanReports_of_hasParameterSets
    ⟨[], ⟨96, 90000, 0, 0, 0, 0, 0⟩, [], none, false⟩ fresh 96 90000 hsets).result
  rw [RtspMediaStream.createFromFile] at hrun
  obtain ⟨outcome, hload, -⟩ := bind_eq_ok.mp hrun
  cases outcome with
  | loaded sdp => exact ⟨fuel, sdp, hload⟩
  | failed =>
    -- only a file without bytes is not loaded
    have hne : stream ≠ [] := by
      rintro rfl
      obtain ⟨q, b, hq, -⟩ := hsets.sps
      rw [List.length_nil] at hq
      omega
    rw [RtspMediaStream.loadEs, if_neg hne] at hload
    obtain ⟨s, -, hload⟩ := bind_eq_ok.mp hload
    obtain ⟨sdp, -, hload⟩ := bind_eq_ok.mp hload
    cases hload

/-- Requests of the session `A`. -/
def describeA : HttpRequest := { method := ofString "DESCRIBE" }
def playA : HttpRequest :=
  { method := ofString "PLAY",
    headers := (∅ : StringMap).insert (ofString "Session") (ofString "A") }

/-- A session that plays the file: one packet has been sent. -/
theorem exists_played : ∃ (p q r : Player) (env : RequestEnv) (acts acts' : List SessionAction)
    (nalus : List H264Nalu) (rtp : RtpPacket) (s : EsReader),
    (playerSystem {}).Run [.request describeA env acts] p ∧
    (playerSystem {}).step p (.request playA env acts') q ∧ OkResponse acts' ∧
    (playerSystem {}).step q (.frames 120000 nalus [rtp]) r ∧
    r.Ready s (ofString "A") ∧ r.Sending ∧ EsReader.At deltaStream s 0 ∧ s.timeStamp = 80 ∧
    ∃ last : EsReader, s.units.lastNalu = some (last.stamp {} deltaSlice) := by
  obtain ⟨fuel, sdp, hload⟩ := exists_loadEs {} hasParameterSets_deltaStream
  obtain ⟨acts, p, hdescribe, hready⟩ := Player.exists_describe {}
    (show describeA.method = _ from rfl)
    (show (⟨.loaded sdp, 0, ofString "A", []⟩ : RequestEnv).file = _ from rfl) hload
  have hrun : (playerSystem {}).Run [.request describeA _ acts] p :=
    LTS.Run.snoc (.nil (M := playerSystem {}) rfl) hdescribe
  obtain ⟨acts', q, hplay, hok, hready', hsending⟩ := hready.exists_play
    ⟨.loaded sdp, 0, ofString "A", []⟩ (show playA.method = _ from rfl) rfl
  obtain ⟨t, nalus, call, hreturns, hat, htime, hlast, hdata, hlen⟩ :=
    EsReader.exists_returns_start
  obtain ⟨rtp, r, hframes, hready'', hsending'⟩ :=
    hready'.exists_frames_short hsending hreturns hdata
      (hlen.trans (congrArg List.length hdata).symm) (by rw [hdata]; decide)
  exact ⟨p, q, r, _, acts, acts', nalus, rtp, t, hrun, hplay, hok, hframes,
    hready'', hsending', hat, htime, hlast⟩

/-- A second `PLAY` behind the first packet is answered with the number of the next one. -/
theorem rtpInfo_right_second : ∃ (before later : List PlayerEvent) (q : Player) (env : RequestEnv)
    (acts : List SessionAction) (rtp : RtpPacket),
    (packets (sinceDescribe before)).length = 1 ∧
    InfoRight q.session env.date acts rtp later := by
  obtain ⟨p, q, r, env, acts, acts', nalus, rtp, s, hrun, hplay, hok, hframes, hready, hsending,
    hat, htime, hlast⟩ := exists_played
  obtain ⟨acts'', q', hplay', hok', hready', hsending'⟩ := hready.exists_play env
    (show playA.method = _ from rfl) rfl
  obtain ⟨t, nalus', call, hreturns, hdata, hlen⟩ := EsReader.exists_returns_next hat htime hlast
  obtain ⟨rtp', r', hframes', -, -⟩ := hready'.exists_frames_short hsending' hreturns hdata
    (hlen.trans (congrArg List.length hdata).symm) (by rw [hdata]; decide)
  have hone : (packets (sinceDescribe ([.request describeA env acts] ++
      [.request playA env acts'] ++ [.frames 120000 nalus [rtp]]))).length = 1 := rfl
  exact ⟨_, [.frames 160000 nalus' [rtp']], q', env, acts'', rtp', hone,
    (rtpInfo_right_iff ((hrun.snoc hplay).snoc hframes) rfl hplay' hok' (.single hframes') rfl).mpr
      (by rw [hone]; rfl)⟩

/-- The first response announces 1, and the first packet has the number 0. -/
theorem not_rtpInfo_right : ¬ ∀ (fresh : H264Nalu) (before later : List PlayerEvent)
    (p q r : Player) (req : HttpRequest) (env : RequestEnv) (acts : List SessionAction)
    (rtp : RtpPacket), (playerSystem fresh).Run before p → req.method = ofString "PLAY" →
    (playerSystem fresh).step p (.request req env acts) q → OkResponse acts →
    (playerSystem fresh).Steps q later r → (packets (untilDescribe later)).head? = some rtp →
    InfoRight q.session env.date acts rtp later := by
  intro h
  obtain ⟨p, q, r, env, acts, acts', nalus, rtp, -, hrun, hplay, hok, hframes, -⟩ := exists_played
  obtain ⟨info, hannounces, hseq, -⟩ := h {} _ [.frames 120000 nalus [rtp]] p q r playA env acts'
    rtp hrun rfl hplay hok (.single hframes) rfl
  have hnext : (packets (untilDescribe [.frames 120000 nalus [rtp]])).head? = some rtp := rfl
  obtain ⟨⟨info', hannounces', hone, -⟩, hzero⟩ :=
    announced_of_play hrun rfl hplay hok (.single hframes) hnext
  have hlength : (packets (sinceDescribe [.request describeA env acts])).length = 0 := rfl
  rw [hlength, ← hseq, hannounces.seq_eq hannounces', hone] at hzero
  cases hzero

end CppServerStudio
