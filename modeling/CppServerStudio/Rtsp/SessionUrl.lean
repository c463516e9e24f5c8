import CppServerStudio.Rtsp.Responses

/-!
# The url of a session

A session parses one url: that of the first request that is not `GET` and has one. A `DESCRIBE`
opens the stream of this url, and answers this url as its `Content-Base`, whatever its own url is.

## Main definitions

* `sessionUrl`: the url a session keeps
* `RtspSession.ServesUrl`: a `DESCRIBE` is served as a new session serves it for a url

## Main results

* `namedBy_of_run`: the fields of a session are those of the url it keeps
* `describe_serves_sessionUrl`: every `DESCRIBE` is served for the url of its session
-/

namespace CppServerStudio

open Scanning

/-- The url a session keeps, after one more event. -/
def named (url : Bytes) : SessionEvent → Bytes
  | .request req _ => if url = [] ∧ req.method ≠ ofString "GET" then req.url else url
  | .frames _ _ => url

/-- **The url of a session**: that of the first request that is not `GET` and has one. -/
def sessionUrl (events : List SessionEvent) : Bytes := events.foldl named []

theorem sessionUrl_snoc (events : List SessionEvent) (e : SessionEvent) :
    sessionUrl (events ++ [e]) = named (sessionUrl events) e := by
  simp [sessionUrl]

namespace RtspSession

variable {s s' : RtspSession} {req : HttpRequest} {env : RequestEnv} {acts : List SessionAction}
  {url : Bytes}

/-- The stream of a url, as a new session parses it. -/
def streamOf (url : Bytes) : Bytes := (({} : RtspSession).parse url).streamid

@[simp] theorem contentBase_parse (url : Bytes) : (s.parse url).contentBase = s.contentBase := by
  unfold parse
  cases find (ofString "://") url <;> simp only <;> split <;> (try rfl) <;> split <;> rfl

/-- Where `parse` stops early, the stream stays what it was; else the url alone decides. -/
theorem streamid_parse (h : s.streamid = []) (url : Bytes) :
    (s.parse url).streamid = streamOf url := by
  unfold streamOf parse
  cases find (ofString "://") url <;> simp only <;> split <;> (try exact h) <;> split <;>
    (try exact h) <;> rfl

/-! ## The url that is kept -/

/-- The fields of the session are those of the url. -/
structure NamedBy (s : RtspSession) (url : Bytes) : Prop where
  contentBase_eq : s.contentBase = url
  streamid_eq : s.streamid = streamOf url

theorem namedBy_init : ({} : RtspSession).NamedBy [] := ⟨rfl, rfl⟩

/-- **The first url is kept**: a session that has one does not parse another. -/
theorem NamedBy.prepare (h : s.NamedBy url) (req : HttpRequest) (env : RequestEnv) :
    (s.prepare req).NamedBy (named url (.request req env)) := by
  unfold RtspSession.prepare named
  simp only [h.contentBase_eq]
  split
  · rename_i hfirst
    have hstreamid : s.streamid = [] := by rw [h.streamid_eq, hfirst.1]; rfl
    refine ⟨contentBase_parse _, ?_⟩
    change (parse _ req.url).streamid = _
    rw [streamid_parse]
    exact hstreamid
  · exact ⟨rfl, h.streamid_eq⟩

/-- Two sessions with the same url. -/
theorem NamedBy.congr (h : s.NamedBy url) (hbase : s'.contentBase = s.contentBase)
    (hstream : s'.streamid = s.streamid) : s'.NamedBy url :=
  ⟨hbase.trans h.contentBase_eq, hstream.trans h.streamid_eq⟩

theorem NamedBy.handleDescribe (h : s.NamedBy url) (env : RequestEnv) :
    (s.handleDescribe env).1.NamedBy url := by
  unfold RtspSession.handleDescribe
  cases env.file with
  | failed => exact h.congr rfl rfl
  | loaded sdp => exact h.congr rfl rfl

theorem NamedBy.handleSetup (h : s.NamedBy url)
    (hrun : s.handleSetup req env = .ok (s', acts)) : s'.NamedBy url := by
  unfold RtspSession.handleSetup at hrun
  cases hs : s.stream with
  | none => rw [hs] at hrun; cases hrun
  | some stream =>
    rw [hs] at hrun
    simp only at hrun
    -- the transport of the session may change, and nothing else does
    split at hrun <;> obtain ⟨rfl, -⟩ := Prod.mk.inj (Except.ok.inj hrun) <;> split <;>
      exact h.congr rfl rfl

theorem NamedBy.handlePlay (h : s.NamedBy url)
    (hrun : s.handlePlay req env = .ok (s', acts)) : s'.NamedBy url := by
  cases hs : s.stream with
  | none => rw [handlePlay_error hs] at hrun; cases hrun
  | some stream =>
    unfold RtspSession.handlePlay at hrun
    rw [hs] at hrun
    simp only at hrun
    split at hrun
    · obtain ⟨rfl, -⟩ := Prod.mk.inj (Except.ok.inj hrun)
      exact h
    · obtain ⟨m, -, hrun⟩ := bind_eq_ok.mp hrun
      obtain ⟨rfl, -⟩ := Prod.mk.inj (Except.ok.inj hrun)
      exact h.congr rfl rfl

/-- The handlers keep the url. -/
theorem NamedBy.onWholeRtspPacket (h : s.NamedBy url)
    (hrun : s.onWholeRtspPacket req env = .ok (s', acts)) :
    s'.NamedBy (named url (.request req env)) := by
  have hprep := h.prepare req env
  by_cases hdescribe : req.method = ofString "DESCRIBE"
  · rw [onWholeRtspPacket_describe hdescribe, Except.ok.injEq] at hrun
    obtain rfl : ((s.prepare req).handleDescribe env).1 = s' := congrArg Prod.fst hrun
    exact hprep.handleDescribe env
  · by_cases hsetup : req.method = ofString "SETUP"
    · rw [onWholeRtspPacket_setup hsetup] at hrun
      exact hprep.handleSetup hrun
    · by_cases hplay : req.method = ofString "PLAY"
      · rw [onWholeRtspPacket_play hplay] at hrun
        exact hprep.handlePlay hrun
      · obtain ⟨acts', hother, -⟩ := onWholeRtspPacket_other s env hsetup hplay hdescribe
        obtain ⟨rfl, -⟩ := Prod.mk.inj (Except.ok.inj (hother.symm.trans hrun))
        exact hprep

/-- **One event keeps the fields those of the url.** -/
theorem NamedBy.handle (h : s.NamedBy url) {e : SessionEvent} (hrun : s.handle e = .ok (s', acts)) :
    s'.NamedBy (named url e) := by
  cases e with
  | request req env => exact h.onWholeRtspPacket hrun
  | frames timeStamp seq =>
    rw [RtspSession.handle, Except.ok.injEq, Prod.mk.injEq] at hrun
    obtain ⟨rfl, -⟩ := hrun
    exact ⟨h.contentBase_eq, h.streamid_eq⟩

/-- Along a run the fields are those of the url of the session. -/
theorem namedBy_of_run {events : List SessionEvent} (hrun : sessionSystem.Run events s) :
    s.NamedBy (sessionUrl events) := by
  refine hrun.history (I := fun events s => s.NamedBy (sessionUrl events)) ?_ ?_
  · rintro s rfl
    exact namedBy_init
  · rintro events s e t hnamed ⟨acts, hstep⟩
    rw [sessionUrl_snoc]
    exact hnamed.handle hstep

/-! ## Describing a stream -/

/-- **The `Content-Base` of an answer**: it is the second header of a response with success. -/
def AnswersContentBase (base : Bytes) (acts : List SessionAction) : Prop :=
  ∃ cseq rest, acts = [.send (ofString "RTSP/1.0 200 OK\r\n" ++
    HttpResponse.headerLine (ofString "CSeq", decimalInt cseq) ++
    HttpResponse.headerLine (ofString "Content-Base", base) ++ rest)]

/-- **A `DESCRIBE` is served for a url**: the stream it opens is the one that a new session opens
for a request with this url, and the `Content-Base` is this url with a slash behind it. -/
def ServesUrl (s : RtspSession) (req : HttpRequest) (env : RequestEnv) (url : Bytes) : Prop :=
  ∃ s' acts stream, s.onWholeRtspPacket req env = .ok (s', acts) ∧ s'.stream = some stream ∧
    (∃ new newActs newStream,
      ({} : RtspSession).onWholeRtspPacket { req with url := url } env = .ok (new, newActs) ∧
        new.stream = some newStream ∧ stream.url = newStream.url) ∧
    (env.file.isLoaded → AnswersContentBase (url ++ ofString "/") acts)

theorem handleDescribe_url : ∃ stream, (s.handleDescribe env).1.stream = some stream ∧
    stream.url = s.streamid := by
  unfold handleDescribe
  cases env.file with
  | failed => exact ⟨_, rfl, rfl⟩
  | loaded sdp => exact ⟨_, rfl, rfl⟩

/-- The headers that the handler gives to a description. -/
def describeHeaders (base : Bytes) : StringMap :=
  emplaceAll ∅ (keyValues [ofString "Content-Base", base,
    ofString "x-Accept-Retransmit", ofString "our-retransmit",
    ofString "x-Accept-Dynamic-Rate", ofString "1"])

/-- In the order of the keys only `CSeq` comes before `Content-Base`. -/
theorem toList_describeHeaders (s : RtspSession) (base date sdp : Bytes) : ∃ rest,
    (s.allHeaders date (describeHeaders base) sdp).toList =
      (ofString "CSeq", decimalInt s.cseq) :: (ofString "Content-Base", base) :: rest := by
  have hkeys : ∀ k ∈ describeHeaders base, k ∈ [ofString "Content-Base",
      ofString "x-Accept-Retransmit", ofString "x-Accept-Dynamic-Rate"] := by
    intro k hk
    exact (mem_emplaceAll hk).resolve_left Std.ExtTreeMap.not_mem_empty
  have hbefore : BeforeAll (ofString "CSeq") (describeHeaders base) :=
    beforeAll_emplaceAll (keys_lt [ofString "Content-Base", ofString "x-Accept-Retransmit",
      ofString "x-Accept-Dynamic-Rate"] (by decide))
  have hstarts := s.starts_allHeaders hbefore date sdp
  have hvalue : (describeHeaders base)[ofString "Content-Base"]? = some base := rfl
  refine hstarts.exists_toList_second (s.getElem?_allHeaders date sdp hvalue) (by decide) ?_
  intro k hk
  rcases mem_allHeaders hk with hk | rfl | hk
  · have hlt : ∀ k ∈ [ofString "Content-Base", ofString "x-Accept-Retransmit",
        ofString "x-Accept-Dynamic-Rate"], k = ofString "Content-Base" ∨
          compare (ofString "Content-Base") k = .lt := by decide
    exact .inr (hlt k (hkeys k hk))
  · exact .inl rfl
  · have hlt : ∀ k ∈ [ofString "Session", ofString "Server", ofString "Date",
        ofString "Content-Length", ofString "Content-Type"],
          compare (ofString "Content-Base") k = .lt := by decide
    exact .inr (.inr (hlt k hk))

/-- The lines of a description with success. -/
theorem answersContentBase_getRtspResponse (s : RtspSession) (base date sdp : Bytes) :
    AnswersContentBase base
      [.send (s.getRtspResponse date (ofString "200 OK") (describeHeaders base) sdp)] := by
  obtain ⟨rest, hrest⟩ := s.toList_describeHeaders base date sdp
  have hstatus : ofString "RTSP/1.0 200 OK\r\n" =
      ofString "RTSP/1.0" ++ ofString " " ++ ofString "200 OK" ++ ofString "\r\n" := rfl
  refine ⟨s.cseq, rest.flatMap HttpResponse.headerLine ++ (ofString "\r\n" ++ sdp), ?_⟩
  rw [getRtspResponse_eq, hrest, hstatus]
  simp only [List.flatMap_cons, List.append_assoc]

theorem handleDescribe_contentBase (hloaded : env.file.isLoaded) :
    AnswersContentBase (s.contentBase ++ ofString "/") (s.handleDescribe env).2 := by
  unfold handleDescribe
  cases hfile : env.file with
  | failed => rw [hfile] at hloaded; cases hloaded
  | loaded sdp => exact answersContentBase_getRtspResponse _ _ env.date sdp

/-- The stream that a `DESCRIBE` opens is the one that the session has parsed. -/
theorem url_of_describe (hm : req.method = ofString "DESCRIBE")
    (hrun : s.onWholeRtspPacket req env = .ok (s', acts)) :
    ∃ stream, s'.stream = some stream ∧ stream.url = (s.prepare req).streamid := by
  rw [onWholeRtspPacket_describe hm, Except.ok.injEq] at hrun
  have hfst : ((s.prepare req).handleDescribe env).1 = s' := congrArg Prod.fst hrun
  rw [← hfst]
  exact handleDescribe_url

/-- A new session parses the url of a `DESCRIBE`. -/
theorem namedBy_describe (hm : req.method = ofString "DESCRIBE") (url : Bytes)
    (env : RequestEnv) : (({} : RtspSession).prepare { req with url := url }).NamedBy url := by
  have hnew := namedBy_init.prepare { req with url := url } env
  have hurl : named [] (.request { req with url := url } env) = url := by
    rw [named, hm]
    exact if_pos ⟨rfl, by decide⟩
  rwa [hurl] at hnew

/-- A session serves a `DESCRIBE` for the url that it keeps from then on. -/
theorem NamedBy.servesUrl (hm : req.method = ofString "DESCRIBE")
    (hnamed : (s.prepare req).NamedBy url) (env : RequestEnv) : s.ServesUrl req env url := by
  have hnewMethod : { req with url := url }.method = ofString "DESCRIBE" := hm
  have hrun : s.onWholeRtspPacket req env = _ := onWholeRtspPacket_describe hm
  have hnewRun : ({} : RtspSession).onWholeRtspPacket { req with url := url } env = _ :=
    onWholeRtspPacket_describe hnewMethod
  obtain ⟨stream, hstream, heq⟩ := url_of_describe hm hrun
  obtain ⟨newStream, hnewStream, hnewEq⟩ := url_of_describe hnewMethod hnewRun
  refine ⟨_, _, stream, hrun, hstream, ⟨_, _, newStream, hnewRun, hnewStream, ?_⟩,
    fun hloaded => ?_⟩
  · rw [heq, hnewEq, hnamed.streamid_eq, (namedBy_describe hm url env).streamid_eq]
  · rw [← hnamed.contentBase_eq]
    exact handleDescribe_contentBase hloaded

/-- The url a `DESCRIBE` is served for names the stream that the session has parsed. -/
theorem streamid_of_servesUrl (hm : req.method = ofString "DESCRIBE")
    (h : s.ServesUrl req env url) : (s.prepare req).streamid = streamOf url := by
  obtain ⟨s', acts, stream, hrun, hstream, ⟨new, newActs, newStream, hnew, hnewStream, heq⟩, -⟩ := h
  have hnewMethod : { req with url := url }.method = ofString "DESCRIBE" := hm
  obtain ⟨m, hm', hurl⟩ := url_of_describe hm hrun
  obtain ⟨n, hn, hnewUrl⟩ := url_of_describe hnewMethod hnew
  obtain rfl : stream = m := Option.some.inj (hstream.symm.trans hm')
  obtain rfl : newStream = n := Option.some.inj (hnewStream.symm.trans hn)
  rw [← hurl, heq, hnewUrl, (namedBy_describe hm url env).streamid_eq]

/-- **Every `DESCRIBE` is served for the url of its session**: the first one that a request named,
which is its own only if no other came first. -/
theorem describe_serves_sessionUrl {events : List SessionEvent}
    (hrun : sessionSystem.Run events s) (hm : req.method = ofString "DESCRIBE") (env : RequestEnv) :
    s.ServesUrl req env (sessionUrl (events ++ [.request req env])) := by
  apply NamedBy.servesUrl hm
  rw [sessionUrl_snoc]
  exact (namedBy_of_run hrun).prepare req env

/-- A request for the options of the server. -/
def optionsStar : HttpRequest := { method := ofString "OPTIONS", url := ofString "*" }

/-- A request for a stream. -/
def describeCam : HttpRequest :=
  { method := ofString "DESCRIBE", url := ofString "rtsp://h:1/live/cam" }

theorem run_optionsStar (env : RequestEnv) :
    sessionSystem.Run [.request optionsStar env] (({} : RtspSession).prepare optionsStar) :=
  .snoc (.nil rfl) ⟨_, rfl⟩

/-- Behind `OPTIONS *` a stream is described for the url `*`. -/
theorem describe_serves_sessionUrl_options :
    (({} : RtspSession).prepare optionsStar).ServesUrl describeCam ⟨.failed, 0, [], []⟩
      (sessionUrl ([.request optionsStar ⟨.failed, 0, [], []⟩] ++
        [.request describeCam ⟨.failed, 0, [], []⟩])) :=
  describe_serves_sessionUrl (run_optionsStar _) rfl _

/-- Behind `OPTIONS *` a `DESCRIBE` does not open the stream that its own url names. -/
theorem not_describe_serves_own : ¬ ∀ (events : List SessionEvent) (s : RtspSession)
    (req : HttpRequest) (env : RequestEnv), sessionSystem.Run events s →
      req.method = ofString "DESCRIBE" → s.ServesUrl req env req.url := by
  intro h
  have hserves := h _ _ describeCam ⟨.failed, 0, [], []⟩ (run_optionsStar ⟨.failed, 0, [], []⟩) rfl
  have hstream := streamid_of_servesUrl rfl hserves
  revert hstream
  decide

end RtspSession

end CppServerStudio
