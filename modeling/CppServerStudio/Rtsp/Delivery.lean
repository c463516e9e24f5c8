import CppServerStudio.Rtsp.Conversation
import CppServerStudio.Rtsp.Pictures

/-!
# What a client gets of a file

From the file to the client: `get_annexb_nalu` cuts the units off, `readFrame` gives them to the
encoder by the clock, `packRtp` packs what the encoder releases, and the packets stand among the
responses of the session. The client reads the packets, and depacketizes them.

## Main definitions

* `released`, `delivered`: what the units of a file come to, when the encoder has got them
* `EsStream.front`: the units that are read first, from the last one to the first again
* `RtspItem.payload`: what a client depacketizes

## Main results

* `filter_delivered`: every frame but the last one is delivered, whole and in order
* `EsReader.Streamed.delivered`: the calls of `packRtp` for the units of a well-formed file
* `Player.Follows.step`: a session sends what its reader has released
* `playerSystem_delivers`: from the file to the units that the client gets
-/

namespace CppServerStudio

open Scanning EncoderUnits

/-! ## What a file comes to -/

/-- The last unit of a kind. -/
def lastUnit (p : H264Nalu → Bool) (units : List NalUnit) : Option NalUnit :=
  (units.filter fun unit => p (({} : H264Nalu).fill unit.bytes)).getLast?

/-- The parameter sets in front of a key frame. The PPS is cut to the length of the SPS, or goes on
with the NUL behind it. -/
def configSets (units : List NalUnit) : List Bytes :=
  match lastUnit H264Nalu.isSps units, lastUnit H264Nalu.isPps units with
  | some sps, some pps => [sps.bytes, (pps.bytes ++ [NUL]).take sps.bytes.length]
  | _, _ => []

/-- **What a further frame releases** behind these units: the last frame among them, and the
parameter sets if it is a key frame. -/
def released (units : List NalUnit) : List Bytes :=
  match lastUnit H264Nalu.isFrame units with
  | some frame =>
    (if (({} : H264Nalu).fill frame.bytes).keyFrame then configSets units else []) ++ [frame.bytes]
  | none => []

/-- **What these units come to.** -/
def delivered (units : List NalUnit) : List Bytes :=
  (List.range units.length).flatMap fun j =>
    match units[j]? with
    | some unit => if unit.isFrame then released (units.take j) else []
    | none => []

variable {units : List NalUnit} {unit : NalUnit}

theorem delivered_snoc (units : List NalUnit) (unit : NalUnit) :
    delivered (units ++ [unit]) =
      delivered units ++ if unit.isFrame then released units else [] := by
  have hold : ∀ j ∈ List.range units.length,
      (match (units ++ [unit])[j]? with
        | some u => if u.isFrame then released ((units ++ [unit]).take j) else []
        | none => []) =
      (match units[j]? with
        | some u => if u.isFrame then released (units.take j) else []
        | none => []) := by
    intro j hj
    have hlt := List.mem_range.mp hj
    rw [List.getElem?_append_left hlt, List.take_append_of_le_length hlt.le]
  rw [delivered, List.length_append, List.length_singleton, List.range_succ, List.flatMap_append,
    List.flatMap_congr hold, List.flatMap_singleton, List.getElem?_concat_length, List.take_left]
  rfl

/-- A delivered unit is a frame: no parameter set, SEI or AUD. -/
def isFrameUnit (bytes : Bytes) : Bool := (({} : H264Nalu).fill bytes).isFrame

theorem lastUnit_eq_some {p : H264Nalu → Bool} (h : lastUnit p units = some unit) :
    unit ∈ units ∧ p (({} : H264Nalu).fill unit.bytes) = true :=
  List.mem_filter.mp (List.mem_of_getLast? h)

/-- No parameter set is a frame, however the PPS is cut. -/
theorem filter_configSets (units : List NalUnit) :
    (configSets units).filter isFrameUnit = [] := by
  rw [configSets]
  cases hsps : lastUnit H264Nalu.isSps units with
  | none => rfl
  | some sps =>
    cases hpps : lastUnit H264Nalu.isPps units with
    | none => rfl
    | some pps =>
      have hsps' : isFrameUnit sps.bytes = false := by
        rw [isFrameUnit, H264Nalu.isFrame, (lastUnit_eq_some hsps).2]
        rfl
      -- the header byte of the PPS is still there
      have hhead : ((pps.bytes ++ [NUL]).take sps.bytes.length).getD 0 NUL =
          pps.bytes.getD 0 NUL := by
        obtain ⟨b, bytes, hbytes⟩ := List.exists_cons_of_ne_nil pps.ne_nil
        obtain ⟨n, hn⟩ := Nat.exists_eq_succ_of_ne_zero sps.length_pos.ne'
        rw [hbytes, hn]
        rfl
      have hpps' : isFrameUnit ((pps.bytes ++ [NUL]).take sps.bytes.length) = false := by
        have htype := (lastUnit_eq_some hpps).2
        rw [H264Nalu.isPps, H264Nalu.fill] at htype
        rw [isFrameUnit, H264Nalu.isFrame, H264Nalu.isPps, H264Nalu.fill, hhead, htype]
        simp
      simp [hsps', hpps']

theorem filter_released (units : List NalUnit) :
    (released units).filter isFrameUnit = ((lastUnit H264Nalu.isFrame units).map
      NalUnit.bytes).toList := by
  rw [released]
  cases hframe : lastUnit H264Nalu.isFrame units with
  | none => rfl
  | some frame =>
    have hframe' : isFrameUnit frame.bytes = true := (lastUnit_eq_some hframe).2
    dsimp only
    rw [List.filter_append, List.filter_singleton, hframe']
    split_ifs
    · rw [filter_configSets]
      rfl
    · rfl

/-- **Every frame but the last one is delivered**, whole and in order; the last one is held back. -/
theorem filter_delivered (units : List NalUnit) :
    (delivered units).filter isFrameUnit =
      ((units.filter NalUnit.isFrame).map NalUnit.bytes).dropLast := by
  -- Induction on the units, from the last one: a frame releases the one before it.
  induction units using List.reverseRecOn with
  | nil => rfl
  | append_singleton units unit ih =>
    rw [delivered_snoc, List.filter_append, ih, List.filter_append, List.filter_singleton]
    cases hframe : unit.isFrame with
    | false => simp
    | true =>
      -- the frame in front is released now, and this one is held back
      have hlast : lastUnit H264Nalu.isFrame units = (units.filter NalUnit.isFrame).getLast? := rfl
      rw [if_pos rfl, filter_released, hlast, cond_true, List.map_append, List.map_singleton,
        List.dropLast_concat]
      generalize units.filter NalUnit.isFrame = frames
      induction frames using List.reverseRecOn <;> simp

/-! ## From the file to the packets -/

namespace EsStream

/-- The units that are read first. -/
def front (stream : EsStream) (n : ℕ) : List NalUnit := (List.range n).map stream.unitAt

theorem front_succ (stream : EsStream) (n : ℕ) :
    stream.front (n + 1) = stream.front n ++ [stream.unitAt n] := by
  rw [front, List.range_succ, List.map_append]
  rfl

end EsStream

namespace EsReader

variable {fresh : H264Nalu} {stream : EsStream} {s : EsReader}
  {steps : List (H264Nalu × List PackRtpCall)}

/-- The last unit of a kind that the encoder has got is the last one of the file. -/
theorem Traced.lastOf_eq (h : Traced stream fresh s steps) (p : H264Nalu → Bool)
    (hp : ∀ i, p (stampAt stream fresh i) = p (({} : H264Nalu).fill (stream.unitAt i).bytes)) :
    ∃ i : Option ℕ, lastOf p (steps.map Prod.fst) = i.map (stampAt stream fresh) ∧
      lastUnit p (stream.front steps.length) = i.map stream.unitAt := by
  refine ⟨((List.range steps.length).filter fun i => p (stampAt stream fresh i)).getLast?, ?_, ?_⟩
  · rw [lastOf, h.map_fst, List.filter_map, List.getLast?_map]
    rfl
  · rw [lastUnit, EsStream.front, List.filter_map, List.getLast?_map]
    simp only [hp]
    rfl

/-- **A frame makes the encoder send** what it releases. -/
theorem Traced.asked_inputFrame (h : Traced stream fresh s steps) (nalu : H264Nalu)
    (hframe : nalu.isFrame = true) :
    (((inputFrames {} (steps.map Prod.fst)).1.inputFrame nalu).2).map PackRtpCall.asked =
      released (stream.front steps.length) := by
  obtain ⟨i, hlast, hframe'⟩ := h.lastOf_eq H264Nalu.isFrame fun _ => rfl
  obtain ⟨i₁, hsps, hsps'⟩ := h.lastOf_eq H264Nalu.isSps fun _ => rfl
  obtain ⟨i₂, hpps, hpps'⟩ := h.lastOf_eq H264Nalu.isPps fun _ => rfl
  rw [lastOf] at hlast hsps hpps
  rw [inputFrames_units, hlast, hsps, hpps, inputFrame_eq, released, configSets, hframe', hsps',
    hpps']
  simp only [hframe, if_true]
  cases i with
  | none => rfl
  | some i =>
    dsimp only [Option.map_some, Option.elim_some]
    have hkey : (stampAt stream fresh i).keyFrame =
        (({} : H264Nalu).fill (stream.unitAt i).bytes).keyFrame := rfl
    rw [inputFrameL, List.map_append, ← hkey, List.map_singleton]
    congr 1
    · cases (stampAt stream fresh i).keyFrame with
      | false => rfl
      | true =>
        cases i₁ with
        | none => rfl
        | some i₁ =>
          cases i₂ with
          | none => rfl
          | some i₂ =>
            exact congrArg (· :: _) (PackRtpCall.asked_whole (stream.unitAt i₁).bytes _ _ _)
    · exact congrArg (fun unit => [unit]) (PackRtpCall.asked_whole (stream.unitAt i).bytes _ _ _)

/-- **The calls of `packRtp`** for the units of a well-formed file are asked for what these come
to. -/
theorem Streamed.delivered (h : Streamed fresh (annexB stream.frames) s steps) :
    (steps.flatMap Prod.snd).map PackRtpCall.asked = delivered (stream.front steps.length) := by
  generalize hbytes : annexB stream.frames = bytes at h
  induction h with
  | nil => rfl
  | @snoc s steps nowTime t nalu calls hsteps _ hturn ih =>
    subst hbytes
    have htrace := hsteps.traced
    obtain ⟨t', calls', hturn', ht⟩ := htrace.turn
    obtain ⟨rfl, hentry⟩ := Prod.mk.inj (Except.ok.inj (hturn'.symm.trans hturn))
    obtain ⟨rfl, rfl⟩ := Prod.mk.inj hentry
    -- the calls of this turn are those for the unit behind the ones read before
    obtain ⟨-, hcalls⟩ := ht.entries steps.length _ _ (List.getElem?_concat_length)
    rw [List.map_append, List.take_left' (List.length_map _)] at hcalls
    rw [List.flatMap_append, List.flatMap_singleton, List.map_append, ih, List.length_append,
      List.length_singleton, EsStream.front_succ, delivered_snoc]
    congr 1
    by_cases hframe : (stream.unitAt steps.length).isFrame = true
    · rw [if_pos hframe]
      dsimp only
      rw [hcalls]
      exact htrace.asked_inputFrame _ hframe
    · have hnone : (stampAt stream fresh steps.length).isFrame = false :=
        Bool.eq_false_iff.mpr hframe
      rw [if_neg hframe]
      dsimp only
      rw [hcalls, inputFrame_eq, hnone]
      rfl

end EsReader

/-! ## From the packets to the client -/

/-- **A session that follows a file**: these are the turns that its reader has made since
`DESCRIBE`, and the packets give back what the encoder was asked for in them. -/
structure Player.Follows (fresh : H264Nalu) (file : Bytes) (p : Player) (events : List PlayerEvent)
    (stream : RtspMediaStream) (steps : List (H264Nalu × List PackRtpCall)) : Prop where
  holds : p.session.stream = some stream
  mtuSize : ∀ e, stream.encoder = some e → e.mtuSize = 1400
  turns : EsReader.Streamed fresh file ⟨p.reader, stream.mediaTrack.timeStamp, p.units⟩ steps
  nalus : events.flatMap PlayerEvent.nalus = steps.map Prod.fst
  units : depacketize none ((packets events).map RtpPacket.payload) =
    some ((steps.flatMap Prod.snd).map PackRtpCall.asked)

theorem RtspSession.handleDescribe_mtuSize (s : RtspSession) (env : RequestEnv)
    {stream : RtspMediaStream} {e : H264RtpEncoder}
    (hs : (s.handleDescribe env).1.stream = some stream) (he : stream.encoder = some e) :
    e.mtuSize = 1400 := by
  unfold handleDescribe at hs
  cases hfile : env.file with
  | failed =>
    simp only [hfile] at hs
    cases hs
    cases he
  | loaded sdp =>
    simp only [hfile] at hs
    cases hs
    cases he
    rfl

namespace Player

variable {fresh : H264Nalu} {file : Bytes} {p q : Player} {events : List PlayerEvent}
  {e : PlayerEvent} {stream : RtspMediaStream} {steps : List (H264Nalu × List PackRtpCall)}

/-- `DESCRIBE` begins with the file. -/
theorem follows_describe {req : HttpRequest} {env : RequestEnv} {acts : List SessionAction}
    (hstep : p.Step fresh (.request req env acts) q) (hdescribe : req.method = ofString "DESCRIBE")
    (hfile : q.reader = .start file) : ∃ stream, q.Follows fresh file [] stream [] := by
  cases hstep with
  | @describe _ _ _ s file' fuel _ hload hreq =>
    obtain rfl : file' = file := congrArg NalReader.stream hfile
    rw [RtspSession.onWholeRtspPacket_describe hdescribe, Except.ok.injEq] at hreq
    obtain rfl : ((p.session.prepare req).handleDescribe env).1 = s := congrArg Prod.fst hreq
    obtain ⟨stream, hstream, -, -, htime, -⟩ :=
      (p.session.prepare req).handleDescribe_track env
    refine ⟨stream, hstream, fun e he => ?_, ?_, rfl, rfl⟩
    · exact RtspSession.handleDescribe_mtuSize _ env hstream he
    · rw [htime]
      exact .nil
  | other hother hreq => exact absurd hdescribe hother

/-- **One event** of the same stream. -/
theorem Follows.step (h : p.Follows fresh file events stream steps) (hstep : p.Step fresh e q)
    (he : e.isDescribe = false) :
    ∃ stream' steps', q.Follows fresh file (events ++ [e]) stream' steps' := by
  cases hstep with
  | describe file' fuel hdescribe hload hreq =>
    rw [PlayerEvent.isDescribe, decide_eq_false_iff_not] at he
    exact absurd hdescribe he
  | @other req env acts s hother hreq =>
    have hnalus : (events ++ [PlayerEvent.request req env acts]).flatMap PlayerEvent.nalus =
        steps.map Prod.fst := by
      rw [List.flatMap_append, h.nalus]
      exact List.append_nil _
    have hpackets : packets (events ++ [.request req env acts]) = packets events := by
      rw [packets_append]
      exact List.append_nil _
    -- the stream stays, but for its callback
    rcases RtspSession.stream_of_onWholeRtspPacket hother hreq with hkeep | ⟨old, hold, hnew⟩
    · exact ⟨stream, steps, hkeep.trans h.holds, h.mtuSize, h.turns, hnalus, hpackets ▸ h.units⟩
    · obtain rfl := Option.some.inj (h.holds.symm.trans hold)
      exact ⟨_, steps, hnew, h.mtuSize, h.turns, hnalus, hpackets ▸ h.units⟩
  | @frames s' enc s nowTime nalus calls enc' rtps fuel hstream hsending hencoder hread hsend =>
    obtain rfl := Option.some.inj (h.holds.symm.trans hstream)
    obtain ⟨steps', hturns, hnalus, hcalls⟩ := h.turns.returns hread
    have hmtu := h.mtuSize enc hencoder
    have hunits := PackRtpCall.depacketize_sendAll (by rw [hmtu]; decide) hsend
    have hstreamed : stream.streamed s.timeStamp enc'.seq = { stream with
        mediaTrack := { stream.mediaTrack with timeStamp := s.timeStamp }
        encoder := stream.encoder.map fun e => { e with seq := enc'.seq } } := if_pos hsending
    refine ⟨_, steps ++ steps', rfl, ?_, ?_, ?_, ?_⟩
    · rw [hstreamed, hencoder]
      rintro e ⟨⟩
      exact hmtu
    · rw [hstreamed]
      exact hturns
    · rw [List.flatMap_append, h.nalus, List.map_append, hnalus]
      exact congrArg _ (List.append_nil _)
    · have hpackets : packets (events ++ [.frames nowTime nalus rtps]) =
          packets events ++ rtps := by
        rw [packets_append]
        simp [packets, PlayerEvent.rtps]
      rw [hpackets, List.map_append, depacketize_append h.units, hunits, List.flatMap_append,
        hcalls, List.map_append]
      rfl

end Player

/-! ## From the file to the client -/

/-- What a client depacketizes: a packet behind its RTP header. -/
def RtspItem.payload : RtspItem → Option Bytes
  | .response .. => none
  | .packet _ data => some (data.drop rtpHeaderSize)

/-- The payloads that the client reads are those of the packets. -/
theorem payloads_of_received {events : List PlayerEvent} {itemss : List (List RtspItem)}
    (h : List.Forall₂ PlayerEvent.Received events itemss) :
    itemss.flatten.filterMap RtspItem.payload = (packets events).map RtpPacket.payload := by
  induction h with
  | nil => rfl
  | @cons e items events itemss hitems _ ih =>
    have hhead : items.filterMap RtspItem.payload = e.rtps.map RtpPacket.payload := by
      cases hitems with
      | response | silent => rfl
      | @packets nowTime nalus rtps =>
        rw [List.filterMap_map, ← List.filterMap_eq_map]
        refine List.filterMap_congr fun rtp _ => ?_
        simp [RtspItem.payload, RtpPacket.payload, List.drop_drop]
    rw [List.flatten_cons, List.filterMap_append, hhead, ih, packets, packets, List.flatMap_cons,
      List.map_append]

variable {fresh : H264Nalu} {before later : List PlayerEvent} {p q r : Player} {req : HttpRequest}
  {env : RequestEnv} {acts : List SessionAction}

/-- **From the file to the client**: in every run, the client that reads what is sent behind the
response to `DESCRIBE`, and depacketizes the packets among it, gets what the units of the file come
to that were read by then. So it gets each frame but the last one, whole and in order. -/
theorem playerSystem_delivers (stream : EsStream) (hrun : (playerSystem fresh).Run before p)
    (hdescribe : req.method = ofString "DESCRIBE")
    (hstep : (playerSystem fresh).step p (.request req env acts) q)
    (hfile : q.reader = .start (annexB stream.frames))
    (hsteps : (playerSystem fresh).Steps q later r) (hlater : ∀ e ∈ later, e.isDescribe = false)
    (hclean : ∀ e ∈ before ++ .request req env acts :: later, e.Clean) :
    ∃ n items, (later.flatMap PlayerEvent.nalus).map H264Nalu.buffer =
        (stream.front n).map NalUnit.bytes ∧
      Reader.readAll readItem (sentOn later).flatten.length (sentOn later).flatten = some items ∧
      depacketize none (items.filterMap RtspItem.payload) = some (delivered (stream.front n)) ∧
      (delivered (stream.front n)).filter isFrameUnit =
        (((stream.front n).filter NalUnit.isFrame).map NalUnit.bytes).dropLast := by
  rw [List.forall_mem_append, List.forall_mem_cons] at hclean
  obtain ⟨hbefore, hreq, hrest⟩ := hclean
  obtain ⟨-, itemss, hreceived, hreads⟩ :=
    heard_of_steps ((heard_of_run hrun hbefore).step hstep hreq).1 hsteps hrest
  obtain ⟨s, hs⟩ := Player.follows_describe hstep hdescribe hfile
  obtain ⟨s', steps, hfollows⟩ : ∃ s' steps,
      r.Follows fresh (annexB stream.frames) later s' steps := by
    refine hsteps.history (I := fun events r => (∀ e ∈ events, e.isDescribe = false) →
      ∃ s' steps, r.Follows fresh (annexB stream.frames) events s' steps)
      (fun _ => ⟨s, [], hs⟩) ?_ hlater
    intro events r e r' hr hstep hnot
    rw [List.forall_mem_append, List.forall_mem_singleton] at hnot
    obtain ⟨s', steps, hfollows⟩ := hr hnot.1
    exact hfollows.step hstep hnot.2
  refine ⟨steps.length, itemss.flatten, ?_, Reader.readAll_flatten hreads, ?_,
    filter_delivered _⟩
  · rw [hfollows.nalus, hfollows.turns.traced.map_fst, EsStream.front, List.map_map, List.map_map]
    rfl
  · rw [payloads_of_received hreceived, hfollows.units, hfollows.turns.delivered]

theorem playable_onePicture : EsStream.onePicture.Playable := by
  have htwo : Packable 1400 2 := ⟨by omega, by omega⟩
  refine EsStream.playable_of_frames ?_ (by decide)
  simp only [EsStream.onePicture, List.forall_mem_cons, List.not_mem_nil, false_implies,
    implies_true, and_true]
  exact ⟨htwo, htwo, htwo⟩

theorem hasParameterSets_onePicture : HasParameterSets (annexB EsStream.onePicture.frames) where
  begins := ⟨true, by decide⟩
  sps := ⟨1, 0x67, by decide⟩
  pps := ⟨7, 0x68, by decide⟩
  fits := not_overruns_of_length_lt (by decide)

/-- By this time the file has been read twice. -/
theorem EsReader.readFrame_onePicture :
    ((readFrame {} 120000 10 (start (annexB EsStream.onePicture.frames))).map
      fun r => r.2.1.map H264Nalu.buffer) =
    .ok ((EsStream.onePicture.front 6).map NalUnit.bytes) := by decide

theorem EsReader.exists_returns_onePicture : ∃ t nalus calls,
    Returns {} 120000 (start (annexB EsStream.onePicture.frames)) t nalus calls ∧
    nalus.map H264Nalu.buffer = (EsStream.onePicture.front 6).map NalUnit.bytes ∧
    ∀ call ∈ calls, call.Sendable 1400 := by
  have hread := readFrame_onePicture
  cases hcall : readFrame {} 120000 10 (start (annexB EsStream.onePicture.frames)) with
  | error fault =>
    rw [hcall] at hread
    cases hread
  | ok r =>
    obtain ⟨t, nalus, calls⟩ := r
    rw [hcall] at hread
    have hreturns : Returns {} 120000 (start (annexB EsStream.onePicture.frames)) t nalus calls :=
      ⟨10, hcall⟩
    obtain ⟨steps, hsteps, -, rfl⟩ := Streamed.nil.returns hreturns
    exact ⟨t, nalus, _, hreturns, Except.ok.inj hread,
      hsteps.traced.sendable playable_onePicture⟩

/-- The client of a session that plays a key frame: it gets the parameter sets and the key frame. -/
theorem playerSystem_delivers_played : ∃ (env : RequestEnv) (acts : List SessionAction)
    (nalus : List H264Nalu) (rtps : List RtpPacket) (items : List RtspItem),
    Reader.readAll readItem (sentOn [.request playA env acts, .frames 120000 nalus
      rtps]).flatten.length (sentOn [.request playA env acts, .frames 120000 nalus
        rtps]).flatten = some items ∧
    depacketize none (items.filterMap RtspItem.payload) =
      some [[0x67, 0x42], [0x68, 0xCE], [0x65, 0x88]] := by
  obtain ⟨fuel, sdp, hload⟩ := exists_loadEs {} hasParameterSets_onePicture
  obtain ⟨acts, p, hdescribe, hready⟩ := Player.exists_describe {}
    (show describeA.method = _ from rfl)
    (show (⟨.loaded sdp, 0, ofString "A", []⟩ : RequestEnv).file = _ from rfl) hload
  obtain ⟨acts', q, hplay, -, hready', hsending⟩ := hready.exists_play
    ⟨.loaded sdp, 0, ofString "A", []⟩ (show playA.method = _ from rfl) rfl
  obtain ⟨t, nalus, calls, hreturns, hnalus, hsendable⟩ := EsReader.exists_returns_onePicture
  obtain ⟨-, -, -, rtps, r, -, -, hframes, -⟩ :=
    hready'.exists_frames hsending hreturns hsendable
  have hclean : ∀ e ∈ ([] ++ [.request describeA ⟨.loaded sdp, 0, ofString "A", []⟩ acts,
      .request playA ⟨.loaded sdp, 0, ofString "A", []⟩ acts', .frames 120000 nalus rtps] :
        List PlayerEvent), e.Clean := by
    have hA : CR ∉ ofString "A" := by decide
    simp only [List.nil_append, List.forall_mem_cons, List.not_mem_nil, false_implies,
      implies_true, and_true]
    exact ⟨⟨by decide, hA, by simp⟩, ⟨by decide, hA, by simp⟩, trivial⟩
  obtain ⟨n, items, hread, hitems, hunits, -⟩ := playerSystem_delivers EsStream.onePicture
    (.nil (M := playerSystem {}) rfl) rfl hdescribe hready.reader
    ((LTS.Steps.single hplay).snoc hframes)
    (by simp [PlayerEvent.isDescribe, playA]; decide) hclean
  -- the units that were read are the first six
  obtain rfl : n = 6 := by
    have hlength := congrArg List.length hread
    simp [PlayerEvent.nalus, hnalus, EsStream.front] at hlength
    exact hlength.symm
  exact ⟨_, _, nalus, rtps, items, hitems, hunits.trans (congrArg some (by decide))⟩

end CppServerStudio
