import CppServerStudio.Rtsp.Interleaved
import CppServerStudio.Rtsp.Responses
import CppServerStudio.Rtsp.RtpInfo

/-!
# Responses and packets on one connection

The handlers of a session and the timer of its stream send on one connection, in the order in which
its loop runs them. A client that reads responses and packets gets each of them as it was sent, as
long as no text that goes into a response has a CR.

## Main definitions

* `PlainFields`, `RtspSession.PlainResponse`: the texts of a response stand in a line each
* `RtspSession.Clean`, `PlayerEvent.Clean`: no text that goes into a response has a CR
* `PlayerEvent.messages`, `PlayerEvent.Received`: what is sent for an event, and what is read

## Main results

* `RtspSession.reads_getRtspResponse`: a response is read, whatever follows it
* `RtspSession.onWholeRtspPacket_sends`: a request is answered with one such response
* `playerSystem_interleaved`: the client gets every response and every packet, in order
-/

namespace CppServerStudio

open Scanning Delimiters

/-! ## One response -/

/-- Fields that stand in a line each. -/
def PlainFields (fields : List (Bytes × Bytes)) : Prop :=
  ∀ kv ∈ fields, CR ∉ kv.1 ∧ CR ∉ kv.2 ∧ ascii ':' ∉ kv.1

/-- The value of a key is the one that it had, or else the first one that it is given. -/
theorem getElem?_emplaceAll_eq (m : StringMap) (entries : List (Bytes × Bytes)) (key : Bytes) :
    (emplaceAll m entries)[key]? =
      m[key]?.or ((entries.find? fun kv => kv.1 = key).map Prod.snd) := by
  induction entries generalizing m with
  | nil => simp [emplaceAll]
  | cons kv entries ih =>
    obtain ⟨k, v⟩ := kv
    have hcons : emplaceAll m ((k, v) :: entries) = emplaceAll (m.insertIfNew k v) entries := rfl
    rw [hcons, ih, Std.ExtTreeMap.getElem?_insertIfNew]
    by_cases hk : k = key
    · subst hk
      rw [List.find?_cons_of_pos (by simp)]
      cases hm : m[k]? with
      | none =>
        have hnot : k ∉ m := by
          rw [Std.ExtTreeMap.mem_iff_isSome_getElem?, hm]
          exact Bool.false_ne_true
        simp [hnot, Std.ReflCmp.compare_self]
      | some w =>
        have hmem : k ∈ m := by
          rw [Std.ExtTreeMap.mem_iff_isSome_getElem?, hm]
          rfl
        simp [hmem]
    · have hne : compare k key ≠ .eq := fun h => hk (Std.LawfulEqCmp.compare_eq_iff_eq.mp h)
      rw [List.find?_cons_of_neg (by simpa using hk)]
      simp [hne]

/-- The entry of a key in the list of a map. -/
theorem find?_toList (m : StringMap) (key : Bytes) :
    m.toList.find? (fun kv => kv.1 = key) = m[key]?.map fun v => (key, v) := by
  cases hfind : m.toList.find? fun kv => kv.1 = key with
  | some kv =>
    obtain ⟨k, v⟩ := kv
    obtain rfl : k = key := by simpa using List.find?_some hfind
    have hmem := List.mem_of_find?_eq_some hfind
    rw [Std.ExtTreeMap.mem_toList_iff_getElem?_eq_some] at hmem
    rw [hmem]
    rfl
  | none =>
    rw [List.find?_eq_none] at hfind
    cases hget : m[key]? with
    | none => rfl
    | some v =>
      have hmem := Std.ExtTreeMap.mem_toList_iff_getElem?_eq_some.mpr hget
      exact absurd (decide_eq_true rfl) (hfind (key, v) hmem)

theorem PlainFields.emplaceAll {m : StringMap} {entries : List (Bytes × Bytes)}
    (hm : PlainFields m.toList) (hentries : PlainFields entries) :
    PlainFields (emplaceAll m entries).toList := by
  rintro ⟨k, v⟩ hkv
  rw [Std.ExtTreeMap.mem_toList_iff_getElem?_eq_some, getElem?_emplaceAll_eq,
    Option.or_eq_some_iff] at hkv
  rcases hkv with hkv | ⟨-, hkv⟩
  · exact hm _ (Std.ExtTreeMap.mem_toList_iff_getElem?_eq_some.mpr hkv)
  · obtain ⟨⟨k', v'⟩, hfind, rfl⟩ := Option.map_eq_some_iff.mp hkv
    obtain rfl : k' = k := by simpa using List.find?_some hfind
    exact hentries _ (List.mem_of_find?_eq_some hfind)

/-- The lines of a response, as the client joins them. -/
def responseHead (status : Bytes) (fields : List (Bytes × Bytes)) : Bytes :=
  status ++ (fields.map HttpResponse.fieldText).flatMap ([CR, LF] ++ ·)

/-- **The client on a response** whose headers tell the length of its body, which is none if they
do not. -/
theorem readRtspResponse_responseHead {status body : Bytes} {fields : List (Bytes × Bytes)}
    (hstatus : CR ∉ status) (hfields : PlainFields fields)
    (hlength : fields.find? (fun kv => kv.1 = contentLength) =
      if body = [] then none else some (contentLength, decimal body.length)) (rest : Bytes) :
    readRtspResponse (responseHead status fields ++ ([CR, LF, CR, LF] ++ (body ++ rest))) =
      some (.response status fields body, rest) := by
  have hlines : ∀ line ∈ fields.map HttpResponse.fieldText, line ≠ [] ∧ CR ∉ line := by
    rw [List.forall_mem_map]
    intro kv hkv
    obtain ⟨hkey, hvalue, -⟩ := hfields kv hkv
    exact ⟨HttpResponse.fieldText_ne_nil kv,
      HttpResponse.notMem_append hkey (HttpResponse.notMem_append (by decide) hvalue)⟩
  have hcut : cutAt [CR, LF, CR, LF]
      (responseHead status fields ++ ([CR, LF, CR, LF] ++ (body ++ rest))) =
        some (responseHead status fields, body ++ rest) :=
    @cutAt_double _ _ CR [LF] status (fields.map HttpResponse.fieldText) (by decide) hstatus
      hlines (body ++ rest)
  have hlen : (fields.map HttpResponse.fieldText).length ≤ (responseHead status fields).length := by
    have hle := HttpResponse.length_le_flatMap CR [LF] (fields.map HttpResponse.fieldText)
    rw [responseHead, List.length_append]
    exact hle.trans (Nat.le_add_left _ _)
  have hsplit : splitAll [CR, LF] (responseHead status fields).length
      (responseHead status fields) = status :: fields.map HttpResponse.fieldText :=
    splitAll_texts hstatus (fun line h => (hlines line h).2) hlen
  have hread := HttpResponse.mapM_readField fun kv hkv => (hfields kv hkv).2.2
  rw [readRtspResponse, hcut]
  by_cases hbody : body = []
  · rw [if_pos hbody] at hlength
    simp [hsplit, hread, hlength, hbody]
  · rw [if_neg hbody] at hlength
    simp [hsplit, hread, hlength, digitsValue_decimal]

/-- What does not begin with `$` is a response. -/
theorem readItem_of_ne {b : Byte} (h : b ≠ ascii '$') (s : Bytes) :
    readItem (b :: s) = readRtspResponse (b :: s) := by
  unfold readItem
  simp only [if_neg h]

namespace RtspSession

/-- **What a handler puts into a response**: a code and headers in a line each, of which none is the
length of the body or the number of the request. -/
structure PlainResponse (s : RtspSession) (date code : Bytes) (headers : StringMap) : Prop where
  sessionid : CR ∉ s.sessionid
  date : CR ∉ date
  code : CR ∉ code
  fields : PlainFields headers.toList
  length : headers[contentLength]? = none
  cseq : headers[ofString "CSeq"]? = none

variable {s : RtspSession} {date code sdp : Bytes} {headers : StringMap}

theorem PlainResponse.plain (h : s.PlainResponse date code headers) (sdp : Bytes) :
    PlainFields (s.allHeaders date headers sdp).toList := by
  have hcseq : PlainFields [(ofString "CSeq", decimalInt s.cseq)] := by
    have hkey : CR ∉ ofString "CSeq" ∧ ascii ':' ∉ ofString "CSeq" := by decide
    rw [PlainFields, List.forall_mem_singleton]
    exact ⟨hkey.1, CR_notMem_decimalInt _, hkey.2⟩
  refine (h.fields.emplaceAll hcseq).emplaceAll ?_
  -- the keys are those of the source, and each value is a word, a number or one of the texts given
  have hkeys : ∀ k ∈ [ofString "Session", ofString "Server", ofString "Date",
      ofString "Content-Length", ofString "Content-Type"], CR ∉ k ∧ ascii ':' ∉ k := by decide
  intro kv hkv
  obtain ⟨hkey, hcolon⟩ := hkeys kv.1 (s.commonHeaders_keys date sdp _ (List.mem_map_of_mem hkv))
  refine ⟨hkey, ?_, hcolon⟩
  rw [commonHeaders, List.mem_append, List.mem_append] at hkv
  rcases hkv with (hkv | hkv) | hkv
  · split at hkv
    · rw [List.mem_singleton.mp hkv]
      exact h.sessionid
    · simp at hkv
  · rcases List.mem_cons.mp hkv with rfl | hkv
    · exact by decide
    · rw [List.mem_singleton.mp hkv]
      exact h.date
  · split at hkv
    · rcases List.mem_cons.mp hkv with rfl | hkv
      · exact HttpResponse.notMem_decimal (by decide) _
      · rw [List.mem_singleton.mp hkv]
        exact by decide
    · simp at hkv

/-- The length of the body stands among the headers exactly if there is a body. -/
theorem PlainResponse.find?_length (h : s.PlainResponse date code headers) (sdp : Bytes) :
    (s.allHeaders date headers sdp).toList.find? (fun kv => kv.1 = contentLength) =
      if sdp = [] then none else some (contentLength, decimal sdp.length) := by
  have hcseq : ofString "CSeq" ≠ contentLength := by decide
  have hsession : ofString "Session" ≠ contentLength := by decide
  have hserver : ofString "Server" ≠ contentLength := by decide
  have hdate : ofString "Date" ≠ contentLength := by decide
  have hlength : ofString "Content-Length" = contentLength := rfl
  rw [find?_toList, allHeaders, getElem?_emplaceAll_eq, getElem?_emplaceAll_eq, h.length,
    commonHeaders]
  by_cases hid : s.sessionid = [] <;> by_cases hsdp : sdp = [] <;>
    simp [hid, hsdp, hcseq, hsession, hserver, hdate, hlength]

/-- The lines of a response of a session. -/
theorem getRtspResponse_lines (s : RtspSession) (date code : Bytes) (headers : StringMap)
    (sdp : Bytes) : s.getRtspResponse date code headers sdp =
      responseHead (ofString "RTSP/1.0" ++ ofString " " ++ code)
        (s.allHeaders date headers sdp).toList ++ ([CR, LF, CR, LF] ++ sdp) := by
  have hheaders : (s.allHeaders date headers sdp).toList.flatMap HttpResponse.headerLine =
      ((s.allHeaders date headers sdp).toList.map HttpResponse.fieldText).flatMap
        (· ++ [CR, LF]) := by
    rw [List.flatMap_map]
    exact List.flatMap_congr fun kv _ => HttpResponse.headerLine_eq kv
  have hcrlf : ofString "\r\n" = [CR, LF] := rfl
  have hfour : ([CR, LF, CR, LF] : Bytes) = [CR, LF] ++ [CR, LF] := rfl
  rw [getRtspResponse_eq, hheaders, hcrlf, HttpResponse.flatMap_append_comm, ← responseHead, hfour]
  simp only [List.append_assoc]

/-- **A response is read**, whatever stands behind it. -/
theorem reads_getRtspResponse (h : s.PlainResponse date code headers) (sdp : Bytes) :
    Reader.Reads readItem (s.getRtspResponse date code headers sdp)
      (.response (ofString "RTSP/1.0" ++ ofString " " ++ code)
        (s.allHeaders date headers sdp).toList sdp) := by
  have hstatus : CR ∉ ofString "RTSP/1.0" ++ ofString " " ++ code :=
    HttpResponse.notMem_append (HttpResponse.notMem_append (by decide) (by decide)) h.code
  rw [getRtspResponse_lines]
  refine ⟨by simp, fun rest => ?_⟩
  have hread := readRtspResponse_responseHead hstatus (h.plain sdp) (h.find?_length sdp) rest
  -- the first byte is the `R` of the version
  obtain ⟨text, htext⟩ : ∃ text, responseHead (ofString "RTSP/1.0" ++ ofString " " ++ code)
      (s.allHeaders date headers sdp).toList ++ ([CR, LF, CR, LF] ++ (sdp ++ rest)) =
        ascii 'R' :: text := ⟨_, rfl⟩
  rw [List.append_assoc, List.append_assoc [CR, LF, CR, LF], htext]
  rw [htext] at hread
  rw [readItem_of_ne (by decide), hread]

/-- A response carries the number of its request. -/
theorem PlainResponse.cseq_mem (h : s.PlainResponse date code headers) (sdp : Bytes) :
    (ofString "CSeq", decimalInt s.cseq) ∈ (s.allHeaders date headers sdp).toList := by
  rw [Std.ExtTreeMap.mem_toList_iff_getElem?_eq_some]
  apply getElem?_emplaceAll
  rw [getElem?_emplaceAll_eq, h.cseq]
  simp

/-! ## What the handlers send -/

variable {s' : RtspSession} {req : HttpRequest} {env : RequestEnv} {acts : List SessionAction}

/-- **No text that goes into a response has a CR**, and the stream is sent on channel 0. -/
structure Clean (s : RtspSession) : Prop where
  contentBase : CR ∉ s.contentBase
  sessionid : CR ∉ s.sessionid
  channel : ∀ stream e, s.stream = some stream → stream.encoder = some e → e.interleaved = 0

/-- What a request brings into the responses: its url, and what comes from outside. -/
structure CleanRequest (req : HttpRequest) (env : RequestEnv) : Prop where
  url : CR ∉ req.url
  sessionid : CR ∉ env.sessionid
  date : CR ∉ env.date

/-- The body of a response: the description of a stream that is loaded. -/
def describedSdp (req : HttpRequest) (env : RequestEnv) : Bytes :=
  if req.method = ofString "DESCRIBE" then
    match env.file with
    | .failed => []
    | .loaded sdp => sdp
  else []

/-- **One response is sent**, with the number `cseq` and the body `sdp`. -/
def SendsOne (cseq : ℤ) (date sdp : Bytes) (acts : List SessionAction) : Prop :=
  ∃ (t : RtspSession) (code : Bytes) (headers : StringMap), t.PlainResponse date code headers ∧
    t.cseq = cseq ∧ acts.filterMap SessionAction.sent = [t.getRtspResponse date code headers sdp]

/-- **A response of a handler**, with the headers that it gives. -/
theorem sendsOne {t : RtspSession} {cseq : ℤ} (hcseq : t.cseq = cseq)
    {entries : List (Bytes × Bytes)} (keys values : List Bytes)
    (hk : entries.map Prod.fst = keys) (hv : entries.map Prod.snd = values)
    (hkeys : ∀ k ∈ keys, (CR ∉ k ∧ ascii ':' ∉ k) ∧ k ≠ contentLength ∧ k ≠ ofString "CSeq")
    (hvalues : ∀ v ∈ values, CR ∉ v) (hid : CR ∉ t.sessionid) (hdate : CR ∉ date)
    (hcode : CR ∉ code) {later : List SessionAction}
    (hlater : later.filterMap SessionAction.sent = []) :
    SendsOne cseq date sdp (.send (t.getRtspResponse date code (emplaceAll ∅ entries) sdp) ::
      later) := by
  subst hk hv
  rw [List.forall_mem_map] at hkeys hvalues
  refine ⟨t, code, emplaceAll ∅ entries, ⟨hid, hdate, hcode, ?_, ?_, ?_⟩, hcseq, ?_⟩
  · refine PlainFields.emplaceAll (by simp [PlainFields]) fun kv hkv => ?_
    exact ⟨(hkeys kv hkv).1.1, hvalues kv hkv, (hkeys kv hkv).1.2⟩
  · rw [getElem?_emplaceAll_eq, List.find?_eq_none.mpr fun kv hkv => by simp [(hkeys kv hkv).2.1]]
    simp
  · rw [getElem?_emplaceAll_eq, List.find?_eq_none.mpr fun kv hkv => by simp [(hkeys kv hkv).2.2]]
    simp
  · have hsent : SessionAction.sent (.send (t.getRtspResponse date code (emplaceAll ∅ entries)
        sdp)) = some (t.getRtspResponse date code (emplaceAll ∅ entries) sdp) := rfl
    rw [List.filterMap_cons_some hsent, hlater]

theorem Clean.prepare (h : s.Clean) (hurl : CR ∉ req.url) : (s.prepare req).Clean := by
  refine ⟨?_, by rw [sessionid_prepare]; exact h.sessionid, by rw [stream_prepare]; exact h.channel⟩
  have hparse : ∀ (t : RtspSession) (url : Bytes), (t.parse url).contentBase = t.contentBase := by
    intro t url
    unfold parse
    cases find (ofString "://") url <;> simp only <;> split <;> (try rfl) <;> split <;> rfl
  unfold RtspSession.prepare
  simp only
  split
  · rw [hparse]
    exact hurl
  · exact h.contentBase

theorem handleOptions_sends (h : s.Clean) (hdate : CR ∉ env.date) :
    SendsOne s.cseq env.date [] (s.handleOptions env).2 :=
  sendsOne rfl [ofString "Public"]
    [ofString "OPTIONS, DESCRIBE, SETUP, TEARDOWN, PLAY, PAUSE, ANNOUNCE, RECORD"] rfl rfl
    (by decide) (by decide) h.sessionid hdate (by decide) rfl

theorem handleDescribe_sends (h : s.Clean) (hid : CR ∉ env.sessionid) (hdate : CR ∉ env.date) :
    (s.handleDescribe env).1.Clean ∧
      SendsOne s.cseq env.date (match env.file with | .failed => [] | .loaded sdp => sdp)
        (s.handleDescribe env).2 := by
  unfold handleDescribe
  cases env.file with
  | failed =>
    simp only [RtspMediaStream.createFromEs, Bool.false_eq_true, not_false_eq_true, if_true,
      getRtspResponseOf]
    refine ⟨⟨h.contentBase, hid, ?_⟩, ?_⟩
    · rintro stream e hs he
      obtain rfl := Option.some.inj hs
      cases he
    · refine sendsOne ?_ [ofString "Connection"] [ofString "Close"] rfl rfl (by decide)
        (by decide) hid hdate (by decide) rfl
      rfl
  | loaded sdp =>
    simp only [RtspMediaStream.createFromEs, not_true_eq_false, if_false, getRtspResponseOf]
    refine ⟨⟨h.contentBase, hid, ?_⟩, ?_⟩
    · rintro stream e hs he
      obtain rfl := Option.some.inj hs
      obtain rfl := Option.some.inj he
      rfl
    · refine sendsOne ?_ [ofString "Content-Base", ofString "x-Accept-Retransmit",
        ofString "x-Accept-Dynamic-Rate"] [s.contentBase ++ ofString "/",
        ofString "our-retransmit", ofString "1"] rfl rfl (by decide) ?_ hid hdate (by decide) rfl
      · rfl
      rw [List.forall_mem_cons]
      exact ⟨HttpResponse.notMem_append h.contentBase (by decide), by decide⟩

/-- The texts that `handleSetup` and `handlePlay` write. -/
theorem CR_notMem_getSSRC (t : Track) : CR ∉ t.getSSRC := by
  have hdigit : ∀ n < 16, hexDigit n ≠ CR := by decide
  rw [Track.getSSRC, List.mem_flatMap]
  rintro ⟨b, -, hb⟩
  have hlt := b.toNat_lt
  rcases List.mem_cons.mp hb with hb | hb
  · exact hdigit _ (by omega) hb.symm
  · exact hdigit _ (Nat.mod_lt _ (by decide)) (List.mem_singleton.mp hb).symm

theorem CR_notMem_secondsOfMillis (n : ℕ) : CR ∉ secondsOfMillis n := by
  have hdigit : ∀ k < 10, CR ≠ UInt8.ofNat (48 + k) := by decide
  have hlt : ∀ k : ℕ, k % 10 < 10 := fun k => Nat.mod_lt _ (by decide)
  rw [secondsOfMillis]
  refine HttpResponse.notMem_append (HttpResponse.notMem_append
    (HttpResponse.notMem_decimal (by decide) _) ?_) (by decide)
  simp only [List.mem_cons, List.not_mem_nil, or_false, not_or]
  exact ⟨by decide, hdigit _ (hlt _), hdigit _ (hlt _), hdigit _ (hlt _)⟩

theorem CR_notMem_rtpInfo (h : CR ∉ s.contentBase) (t : Track) : CR ∉ s.rtpInfo t := by
  have hdecimal : CR ∉ decimal t.seq.toNat := HttpResponse.notMem_decimal (by decide) _
  have htexts : CR ∉ ofString "url=" ∧ CR ∉ ofString ";" ∧ CR ∉ ofString "seq=" ∧
      CR ∉ ofString "rtptime=" ∧ CR ∉ ofString "," := by decide
  intro hmem
  have hmem' := List.mem_of_mem_dropLast hmem
  simp only [List.mem_append, h, hdecimal, htexts, CR_notMem_decimalInt, or_self] at hmem'

theorem handleSetup_sends (h : s.Clean) (hdate : CR ∉ env.date)
    (hrun : s.handleSetup req env = .ok (s', acts)) :
    s'.Clean ∧ (acts = [] ∨ SendsOne s.cseq env.date [] acts) := by
  cases hs : s.stream with
  | none =>
    rw [handleSetup_error hs] at hrun
    cases hrun
  | some stream =>
    obtain ⟨u, hu⟩ : ∃ u, u = if s.rtpType = .invalid then { s with
        rtpType := requestedRtpType (req.getRequestValue (ofString "Transport")) } else s :=
      ⟨_, rfl⟩
    -- the transport is no text of a response
    have hclean : u.Clean := by
      rw [hu]
      split
      · exact ⟨h.contentBase, h.sessionid, h.channel⟩
      · exact h
    have hcseq : u.cseq = s.cseq := by
      rw [hu]
      split <;> rfl
    unfold handleSetup at hrun
    simp only [← hu] at hrun
    simp only [hs] at hrun
    rcases hu' : u.rtpType with _ | _ | _ | _ <;> rw [hu'] at hrun
    case tcp =>
      obtain ⟨rfl, rfl⟩ := Prod.mk.inj (Except.ok.inj hrun)
      refine ⟨hclean, .inr ?_⟩
      rw [getRtspResponseOf]
      refine sendsOne hcseq [ofString "Transport", ofString "x-Transport-Options",
        ofString "x-Dynamic-Rate"] [_, ofString "late-tolerance=1.400000", ofString "1"] rfl rfl
        (by decide) ?_ hclean.sessionid hdate (by decide) rfl
      rw [List.forall_mem_cons]
      refine ⟨?_, by decide⟩
      have hdecimal : ∀ n, CR ∉ decimal n := fun n => HttpResponse.notMem_decimal (by decide) n
      have htexts : CR ∉ ofString "RTP/AVP/TCP;unicast;" ∧ CR ∉ ofString "interleaved=" ∧
          CR ∉ ofString "-" ∧ CR ∉ ofString ";" ∧ CR ∉ ofString "ssrc=" := by decide
      simp only [List.mem_append, hdecimal, htexts, CR_notMem_getSSRC, or_self, not_false_iff]
    all_goals
      obtain ⟨rfl, rfl⟩ := Prod.mk.inj (Except.ok.inj hrun)
      exact ⟨hclean, .inl rfl⟩

theorem handlePlay_sends (h : s.Clean) (hdate : CR ∉ env.date)
    (hrun : s.handlePlay req env = .ok (s', acts)) :
    s'.Clean ∧ SendsOne s.cseq env.date [] acts := by
  cases hs : s.stream with
  | none =>
    rw [handlePlay_error hs] at hrun
    cases hrun
  | some stream =>
    unfold handlePlay at hrun
    simp only [hs] at hrun
    split at hrun
    · obtain ⟨rfl, rfl⟩ := Prod.mk.inj (Except.ok.inj hrun)
      refine ⟨h, ?_⟩
      rw [getRtspResponseOf]
      exact sendsOne rfl [ofString "Connection"] [ofString "Close"] rfl rfl (by decide)
        (by decide) h.sessionid hdate (by decide) rfl
    · obtain ⟨stream', hstream', hrun⟩ := bind_eq_ok.mp hrun
      obtain ⟨rfl, rfl⟩ := Prod.mk.inj (Except.ok.inj hrun)
      refine ⟨⟨h.contentBase, h.sessionid, ?_⟩, ?_⟩
      · -- the callback is set, and the encoder is kept
        rintro t e ht he
        obtain rfl := Option.some.inj ht
        rw [RtspMediaStream.setEncoderSendCB] at hstream'
        cases henc : stream.encoder with
        | none => simp [henc] at hstream'
        | some enc =>
          simp only [henc, Except.ok.injEq] at hstream'
          rw [← hstream'] at he
          exact h.channel stream e hs (henc.trans he)
      · refine sendsOne rfl [ofString "RTP-Info", ofString "Range"] [_, _] rfl rfl (by decide) ?_
          h.sessionid hdate (by decide) rfl
        rw [List.forall_mem_cons, List.forall_mem_singleton]
        exact ⟨CR_notMem_rtpInfo h.contentBase _,
          HttpResponse.notMem_append (by decide) (CR_notMem_secondsOfMillis _)⟩

/-- **What is sent for a request**: one response, or nothing for a `SETUP`. -/
theorem onWholeRtspPacket_sends (h : s.Clean) (hreq : CleanRequest req env)
    (hrun : s.onWholeRtspPacket req env = .ok (s', acts)) :
    s'.Clean ∧ ((acts = [] ∧ req.method = ofString "SETUP") ∨
      SendsOne (atoi (req.getRequestValue (ofString "CSeq"))) env.date (describedSdp req env)
        acts) := by
  have hclean := h.prepare hreq.url
  have hcseq : (s.prepare req).cseq = atoi (req.getRequestValue (ofString "CSeq")) := cseq_prepare
  rw [← hcseq]
  -- only `DESCRIBE` has a body to send
  have hbody : req.method ≠ ofString "DESCRIBE" → describedSdp req env = [] := fun hm => if_neg hm
  by_cases hdescribe : req.method = ofString "DESCRIBE"
  · rw [onWholeRtspPacket_describe hdescribe] at hrun
    obtain ⟨hs', hsends⟩ := handleDescribe_sends hclean hreq.sessionid hreq.date
    rw [Except.ok.inj hrun] at hs' hsends
    rw [describedSdp, if_pos hdescribe]
    exact ⟨hs', .inr hsends⟩
  · rw [hbody hdescribe]
    by_cases hsetup : req.method = ofString "SETUP"
    · rw [onWholeRtspPacket_setup hsetup] at hrun
      obtain ⟨hs', hnil | hsends⟩ := handleSetup_sends hclean hreq.date hrun
      · exact ⟨hs', .inl ⟨hnil, hsetup⟩⟩
      · exact ⟨hs', .inr hsends⟩
    · by_cases hplay : req.method = ofString "PLAY"
      · rw [onWholeRtspPacket_play hplay] at hrun
        obtain ⟨hs', hsends⟩ := handlePlay_sends hclean hreq.date hrun
        exact ⟨hs', .inr hsends⟩
      · unfold onWholeRtspPacket at hrun
        simp only [if_neg hdescribe, if_neg hsetup, if_neg hplay] at hrun
        split at hrun
        · obtain ⟨rfl, rfl⟩ := Prod.mk.inj (Except.ok.inj hrun)
          exact ⟨hclean, .inr (handleOptions_sends hclean hreq.date)⟩
        · obtain ⟨rfl, rfl⟩ := Prod.mk.inj (Except.ok.inj hrun)
          have hnone : (∅ : StringMap) = emplaceAll ∅ [] := rfl
          rw [hnone]
          exact ⟨hclean, .inr (sendsOne rfl [] [] rfl rfl (by simp) (by simp) hclean.sessionid
            hreq.date (by decide) rfl)⟩

end RtspSession

/-! ## Runs -/

namespace PlayerEvent

/-- What is sent on the connection. -/
def messages : PlayerEvent → List Bytes
  | request _ _ acts => acts.filterMap SessionAction.sent
  | frames _ _ rtps => rtps.map RtpPacket.sent

/-- No text that goes into a header has a CR. -/
def Clean : PlayerEvent → Prop
  | request req env _ => RtspSession.CleanRequest req env
  | frames .. => True

/-- **What the client gets of an event**: one response, with the number of the request and the
description of the stream that was asked for, or the packets. A `SETUP` may get nothing. -/
inductive Received : PlayerEvent → List RtspItem → Prop
  | response {req env acts} (status : Bytes) (fields : List (Bytes × Bytes))
      (hcseq : (ofString "CSeq", decimalInt (atoi (req.getRequestValue (ofString "CSeq")))) ∈
        fields) :
      Received (request req env acts)
        [.response status fields (RtspSession.describedSdp req env)]
  | silent {req env acts} (hsetup : req.method = ofString "SETUP") :
      Received (request req env acts) []
  | packets {nowTime nalus rtps} :
      Received (frames nowTime nalus rtps)
        (rtps.map fun p => .packet 0 (p.data.readable.drop rtpTcpHeaderSize))

end PlayerEvent

/-- What is sent in these events. -/
def sentOn (events : List PlayerEvent) : List Bytes := events.flatMap PlayerEvent.messages

variable {fresh : H264Nalu} {p q : Player} {e : PlayerEvent} {events : List PlayerEvent}

/-- **One event** sends messages that the client reads. -/
theorem Player.Step.received (hstep : p.Step fresh e q) (hp : p.session.Clean) (he : e.Clean) :
    q.session.Clean ∧ ∃ items, e.Received items ∧
      List.Forall₂ (Reader.Reads readItem) e.messages items := by
  have hrequest : ∀ {req env acts s}, RtspSession.CleanRequest req env →
      p.session.onWholeRtspPacket req env = .ok (s, acts) →
      s.Clean ∧ ∃ items, PlayerEvent.Received (.request req env acts) items ∧
        List.Forall₂ (Reader.Reads readItem) (acts.filterMap SessionAction.sent) items := by
    intro req env acts s he hreq
    obtain ⟨hs, ⟨rfl, hsetup⟩ | ⟨t, code, headers, hplain, hcseq, hsent⟩⟩ :=
      RtspSession.onWholeRtspPacket_sends hp he hreq
    · exact ⟨hs, [], .silent hsetup, .nil⟩
    · have hmem := hplain.cseq_mem (RtspSession.describedSdp req env)
      rw [hcseq] at hmem
      rw [hsent]
      exact ⟨hs, _, .response _ _ hmem, .cons (RtspSession.reads_getRtspResponse hplain _) .nil⟩
  cases hstep with
  | describe file fuel hdescribe hload hreq => exact hrequest he hreq
  | other hother hreq => exact hrequest he hreq
  | @frames stream enc s nowTime nalus calls enc' rtps fuel hstream hsending hencoder hread hsend =>
    obtain ⟨henc, hframed⟩ := (H264RtpEncoder.keeps_framed 0).sendAll
      (hp.channel stream enc hstream hencoder) hsend
    refine ⟨⟨hp.contentBase, hp.sessionid, ?_⟩, _, .packets, ?_⟩
    · rintro t e ht he
      obtain rfl := Option.some.inj ht
      rw [RtspMediaStream.streamed, if_pos hsending, hencoder] at he
      obtain rfl := Option.some.inj he
      exact hp.channel stream enc hstream hencoder
    · rw [PlayerEvent.messages, List.forall₂_map_left_iff, List.forall₂_map_right_iff,
        List.forall₂_same]
      intro rtp hrtp
      have hreads := (hframed rtp hrtp).reads
      rwa [RtpPacket.item, (hframed rtp hrtp).channel] at hreads

/-- **What was sent in these events is read** by the client, item by item. -/
def Player.Heard (p : Player) (events : List PlayerEvent) : Prop :=
  p.session.Clean ∧ ∃ itemss, List.Forall₂ PlayerEvent.Received events itemss ∧
    List.Forall₂ (Reader.Reads readItem) (sentOn events) itemss.flatten

theorem Player.heard_nil (hp : p.session.Clean) : p.Heard [] := ⟨hp, [], .nil, .nil⟩

theorem Player.Heard.step (h : p.Heard events) (hstep : p.Step fresh e q) (he : e.Clean) :
    q.Heard (events ++ [e]) := by
  obtain ⟨hp, itemss, hreceived, hreads⟩ := h
  obtain ⟨hq, items, hitems, hmessages⟩ := hstep.received hp he
  refine ⟨hq, itemss ++ [items], List.rel_append hreceived (.cons hitems .nil), ?_⟩
  rw [sentOn, List.flatMap_append, List.flatMap_singleton, List.flatten_append,
    List.flatten_singleton]
  exact List.rel_append hreads hmessages

/-- **Runs** send messages that the client reads. -/
theorem heard_of_run (hrun : (playerSystem fresh).Run events p) (hclean : ∀ e ∈ events, e.Clean) :
    p.Heard events := by
  refine hrun.history (I := fun events p => (∀ e ∈ events, e.Clean) → p.Heard events) ?_ ?_ hclean
  · rintro p rfl -
    refine Player.heard_nil ⟨by simp, by simp, ?_⟩
    rintro stream e hs
    cases hs
  · intro events p e q hp hstep hclean
    rw [List.forall_mem_append, List.forall_mem_singleton] at hclean
    exact (hp hclean.1).step hstep hclean.2

/-- What follows a state does so, too. -/
theorem heard_of_steps (hp : p.session.Clean) (hsteps : (playerSystem fresh).Steps p events q)
    (hclean : ∀ e ∈ events, e.Clean) : q.Heard events := by
  refine hsteps.history (I := fun events q => (∀ e ∈ events, e.Clean) → q.Heard events)
    (fun _ => Player.heard_nil hp) ?_ hclean
  intro events q e r hq hstep hclean
  rw [List.forall_mem_append, List.forall_mem_singleton] at hclean
  exact (hq hclean.1).step hstep hclean.2

/-- **The connection of a session that plays**: whatever the order of its requests and of the turns
of its timer, the client reads what each of them sent, in order, with nothing in between. -/
theorem playerSystem_interleaved (hrun : (playerSystem fresh).Run events p)
    (hclean : ∀ e ∈ events, e.Clean) :
    ∃ itemss, List.Forall₂ PlayerEvent.Received events itemss ∧
      Reader.readAll readItem (sentOn events).flatten.length (sentOn events).flatten =
        some itemss.flatten := by
  obtain ⟨-, itemss, hreceived, hreads⟩ := heard_of_run hrun hclean
  exact ⟨itemss, hreceived, Reader.readAll_flatten hreads⟩

/-- A session that plays a file: two responses and one packet. -/
theorem playerSystem_interleaved_played : ∃ (req req' : HttpRequest) (env : RequestEnv)
    (acts acts' : List SessionAction) (nalus : List H264Nalu) (rtp : RtpPacket)
    (itemss : List (List RtspItem)),
    List.Forall₂ PlayerEvent.Received
      [.request req env acts, .request req' env acts', .frames 120000 nalus [rtp]] itemss ∧
    Reader.readAll readItem (sentOn [.request req env acts, .request req' env acts',
      .frames 120000 nalus [rtp]]).flatten.length (sentOn [.request req env acts,
        .request req' env acts', .frames 120000 nalus [rtp]]).flatten = some itemss.flatten := by
  obtain ⟨fuel, sdp, hload⟩ := exists_loadEs {} hasParameterSets_deltaStream
  obtain ⟨acts, p, hdescribe, hready⟩ := Player.exists_describe {}
    (show describeA.method = _ from rfl)
    (show (⟨.loaded sdp, 0, ofString "A", []⟩ : RequestEnv).file = _ from rfl) hload
  have hrun : (playerSystem {}).Run [.request describeA ⟨.loaded sdp, 0, ofString "A", []⟩ acts]
      p := LTS.Run.snoc (.nil (M := playerSystem {}) rfl) hdescribe
  obtain ⟨acts', q, hplay, -, hready', hsending⟩ := hready.exists_play
    ⟨.loaded sdp, 0, ofString "A", []⟩ (show playA.method = _ from rfl) rfl
  obtain ⟨t, nalus, call, hreturns, -, -, -, hdata, hlen⟩ := EsReader.exists_returns_start
  obtain ⟨rtp, r, hframes, -, -⟩ := hready'.exists_frames_short hsending hreturns hdata
    (hlen.trans (congrArg List.length hdata).symm) (by rw [hdata]; decide)
  have hclean : ∀ e ∈ ([.request describeA ⟨.loaded sdp, 0, ofString "A", []⟩ acts,
      .request playA ⟨.loaded sdp, 0, ofString "A", []⟩ acts', .frames 120000 nalus [rtp]] :
        List PlayerEvent), e.Clean := by
    have hA : CR ∉ ofString "A" := by decide
    simp only [List.forall_mem_cons, List.not_mem_nil, false_implies, implies_true, and_true]
    exact ⟨⟨by decide, hA, by simp⟩, ⟨by decide, hA, by simp⟩, trivial⟩
  obtain ⟨itemss, hreceived, hread⟩ :=
    playerSystem_interleaved ((hrun.snoc hplay).snoc hframes) hclean
  exact ⟨_, _, _, _, _, _, _, itemss, hreceived, hread⟩

end CppServerStudio
