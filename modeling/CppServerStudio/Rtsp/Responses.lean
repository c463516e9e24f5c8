import CppServerStudio.Rtsp.Loading
import CppServerStudio.Util.Decimal

/-!
# The responses of a session

A client finds the response to a request by its `CSeq` header. The headers of a response stand in
the order of their keys, so that `CSeq` comes first. Every handler sends one response, but for
`handleSetup`: it sends none if the first `SETUP` of the session did not ask for TCP. A `DESCRIBE`
whose file is never loaded is not answered, either.

## Main definitions

* `responseHeader`: the value of a header, as a client reads it
* `Replies`: a request gets exactly one response, with its `CSeq`
* `EveryRequestReplies`: each call returns, and answers its request
* `firstSetup`: the first `SETUP` of a session

## Main results

* `RtspSession.responseHeader_getRtspResponse`: the `CSeq` of a response
* `everyRequest_replies_iff`: which runs answer every request once
-/

namespace CppServerStudio

open Scanning

/-! ## Reading a response -/

/-- The text up to the first CR LF, and the text behind it. -/
def cutLine : Bytes → Bytes × Bytes
  | [] => ([], [])
  | [b] => ([b], [])
  | b :: c :: text =>
    if b = CR ∧ c = LF then ([], text)
    else (b :: (cutLine (c :: text)).1, (cutLine (c :: text)).2)

/-- The value of the header `key` among at most `fuel` lines, which end with an empty one. -/
def headerValue (key : Bytes) : ℕ → Bytes → Option Bytes
  | 0, _ => none
  | fuel + 1, text =>
    let line := (cutLine text).1
    if line = [] then none
    else if (key ++ ofString ": ").isPrefixOf line then
      some (line.drop (key ++ ofString ": ").length)
    else headerValue key fuel (cutLine text).2

/-- The value of the header `key` behind the status line of a response. -/
def responseHeader (key msg : Bytes) : Option Bytes :=
  headerValue key msg.length (cutLine msg).2

theorem cutLine_append {line : Bytes} (h : CR ∉ line) (text : Bytes) :
    cutLine (line ++ (ofString "\r\n" ++ text)) = (line, text) := by
  induction line with
  | nil => exact if_pos ⟨rfl, rfl⟩
  | cons b line ih =>
    rw [List.mem_cons, not_or] at h
    obtain ⟨c, rest, hc⟩ : ∃ c rest, line ++ (ofString "\r\n" ++ text) = c :: rest := by
      cases line with
      | nil => exact ⟨_, _, rfl⟩
      | cons c line => exact ⟨_, _, rfl⟩
    rw [List.cons_append, hc, cutLine, if_neg (fun hb => h.1 hb.1.symm), ← hc, ih h.2]

/-- The first header is found. -/
theorem headerValue_first {key value : Bytes} (hkey : CR ∉ key) (hvalue : CR ∉ value) (fuel : ℕ)
    (text : Bytes) :
    headerValue key (fuel + 1) (HttpResponse.headerLine (key, value) ++ text) = some value := by
  have hline : CR ∉ key ++ ofString ": " ++ value := by
    simp only [List.mem_append, not_or]
    exact ⟨⟨hkey, by decide⟩, hvalue⟩
  have hcut : cutLine (HttpResponse.headerLine (key, value) ++ text) =
      (key ++ ofString ": " ++ value, text) := by
    rw [HttpResponse.headerLine, List.append_assoc, cutLine_append hline]
  have hne : key ++ ofString ": " ++ value ≠ [] := by simp [ofString]
  have hprefix : (key ++ ofString ": ").isPrefixOf (key ++ ofString ": " ++ value) = true :=
    List.isPrefixOf_iff_prefix.mpr (List.prefix_append _ _)
  rw [headerValue, hcut]
  dsimp only
  rw [if_neg hne, if_pos hprefix, List.drop_left]

theorem responseHeader_first {status value : Bytes} (key : Bytes) (hstatus : CR ∉ status)
    (hkey : CR ∉ key)
    (hvalue : CR ∉ value) (text : Bytes) : responseHeader key (status ++ (ofString "\r\n" ++
      (HttpResponse.headerLine (key, value) ++ text))) = some value := by
  rw [responseHeader, cutLine_append hstatus]
  obtain ⟨fuel, hfuel⟩ : ∃ fuel, (status ++ (ofString "\r\n" ++
      (HttpResponse.headerLine (key, value) ++ text))).length = fuel + 1 :=
    ⟨(status ++ (ofString "\r\n" ++ (HttpResponse.headerLine (key, value) ++ text))).length - 1, by
      have hcrlf : (ofString "\r\n").length = 2 := rfl
      simp only [List.length_append, hcrlf]
      omega⟩
  rw [hfuel]
  exact headerValue_first hkey hvalue fuel text

/-! ## The order of the headers -/

theorem emplaceAll_append (m : StringMap) (xs ys : List (Bytes × Bytes)) :
    emplaceAll m (xs ++ ys) = emplaceAll (emplaceAll m xs) ys := List.foldl_append

theorem mem_emplaceAll {key : Bytes} {m : StringMap} {entries : List (Bytes × Bytes)}
    (h : key ∈ emplaceAll m entries) : key ∈ m ∨ key ∈ entries.map Prod.fst := by
  induction entries generalizing m with
  | nil => exact .inl h
  | cons e entries ih =>
    rcases ih h with h | h
    · rcases Std.ExtTreeMap.mem_insertIfNew.mp h with heq | h
      · rw [Std.LawfulEqCmp.compare_eq_iff_eq] at heq
        exact .inr (heq ▸ List.mem_cons_self)
      · exact .inl h
    · exact .inr (List.mem_cons_of_mem _ h)

/-- `emplace` keeps the value that a key has. -/
theorem getElem?_emplaceAll {key value : Bytes} {m : StringMap} (h : m[key]? = some value)
    (entries : List (Bytes × Bytes)) : (emplaceAll m entries)[key]? = some value := by
  induction entries generalizing m with
  | nil => exact h
  | cons e entries ih =>
    apply ih
    rw [Std.ExtTreeMap.getElem?_insertIfNew]
    split
    · rename_i hnew
      -- a key that is there is not new
      obtain ⟨heq, hnot⟩ := hnew
      rw [Std.LawfulEqCmp.compare_eq_iff_eq] at heq
      subst heq
      exact absurd (Std.ExtTreeMap.mem_iff_isSome_getElem?.mpr (by rw [h]; rfl)) hnot
    · exact h

/-- The key comes before those of `m`. -/
def BeforeAll (key : Bytes) (m : StringMap) : Prop := ∀ k ∈ m, compare key k = .lt

theorem BeforeAll.notMem {key : Bytes} {m : StringMap} (h : BeforeAll key m) : key ∉ m := by
  intro hmem
  have hlt := h key hmem
  have hself : compare key key = .eq := Std.ReflCmp.compare_self
  rw [hself] at hlt
  cases hlt

theorem beforeAll_emplaceAll {key : Bytes} {entries : List (Bytes × Bytes)}
    (h : ∀ k ∈ entries.map Prod.fst, compare key k = .lt) :
    BeforeAll key (emplaceAll ∅ entries) := by
  intro k hk
  rcases mem_emplaceAll hk with hk | hk
  · exact absurd hk Std.ExtTreeMap.not_mem_empty
  · exact h k hk

/-- The key has the value, and comes before the other keys. -/
structure Starts (key value : Bytes) (m : StringMap) : Prop where
  value_eq : m[key]? = some value
  leads : ∀ k ∈ m, k = key ∨ compare key k = .lt

namespace Starts

variable {key value : Bytes} {m : StringMap}

theorem append (h : Starts key value m) (entries : List (Bytes × Bytes))
    (he : ∀ k ∈ entries.map Prod.fst, compare key k = .lt) :
    Starts key value (emplaceAll m entries) := by
  refine ⟨getElem?_emplaceAll h.value_eq entries, fun k hk => ?_⟩
  rcases mem_emplaceAll hk with hk | hk
  · exact h.leads k hk
  · exact .inr (he k hk)

/-- A key that comes before those of `m` is put in front of them. -/
theorem of_beforeAll (h : BeforeAll key m) : Starts key value (emplaceAll m [(key, value)]) := by
  refine ⟨?_, fun k hk => ?_⟩
  · change (m.insertIfNew key value)[key]? = some value
    rw [Std.ExtTreeMap.getElem?_insertIfNew, if_pos ⟨Std.ReflCmp.compare_self, h.notMem⟩]
  · rcases mem_emplaceAll hk with hk | hk
    · exact .inr (h k hk)
    · exact .inl (List.mem_singleton.mp hk)

/-- The first entry is the one of the key. -/
theorem exists_toList (h : Starts key value m) : ∃ rest, m.toList = (key, value) :: rest := by
  have hmem := Std.ExtTreeMap.mem_toList_iff_getElem?_eq_some.mpr h.value_eq
  have hord := Std.ExtTreeMap.ordered_keys_toList (t := m)
  revert hmem hord
  rcases hlist : m.toList with _ | ⟨e, rest⟩
  · intro hmem
    cases hmem
  · intro hmem hord
    rcases List.mem_cons.mp hmem with rfl | hmem
    · exact ⟨rest, rfl⟩
    · -- a smaller key would come before it
      have hlt := List.rel_of_pairwise_cons hord hmem
      have he : e.1 ∈ m := by
        have hget := Std.ExtTreeMap.mem_toList_iff_getElem?_eq_some.mp
          (show (e.1, e.2) ∈ m.toList by rw [hlist]; exact List.mem_cons_self)
        exact Std.ExtTreeMap.mem_iff_isSome_getElem?.mpr (by rw [hget]; rfl)
      rcases h.leads e.1 he with heq | hgt
      · have hself : compare key key = .eq := Std.ReflCmp.compare_self
        rw [heq, hself] at hlt
        cases hlt
      · have hswap := Std.OrientedCmp.gt_of_lt hlt
        rw [hgt] at hswap
        cases hswap

/-- The second entry is the one of a key that only the first comes before. -/
theorem exists_toList_second (h : Starts key value m) {key' value' : Bytes}
    (h' : m[key']? = some value') (hne : key ≠ key')
    (hord : ∀ k ∈ m, k = key ∨ k = key' ∨ compare key' k = .lt) :
    ∃ rest, m.toList = (key, value) :: (key', value') :: rest := by
  obtain ⟨tail, htail⟩ := h.exists_toList
  have hmem := Std.ExtTreeMap.mem_toList_iff_getElem?_eq_some.mpr h'
  have hsorted := Std.ExtTreeMap.ordered_keys_toList (t := m)
  rw [htail] at hmem hsorted
  rcases List.mem_cons.mp hmem with heq | hmem
  · exact absurd (congrArg Prod.fst heq).symm hne
  · cases tail with
    | nil => cases hmem
    | cons e rest =>
      rcases List.mem_cons.mp hmem with rfl | hmem
      · exact ⟨rest, htail⟩
      · -- the key of `e` would come between the two
        have hafter := List.rel_of_pairwise_cons (List.Pairwise.of_cons hsorted) hmem
        have hbefore := List.rel_of_pairwise_cons hsorted List.mem_cons_self
        have he : e.1 ∈ m := by
          have hlist : (e.1, e.2) ∈ m.toList := by
            rw [htail]
            exact List.mem_cons_of_mem _ List.mem_cons_self
          have hget := Std.ExtTreeMap.mem_toList_iff_getElem?_eq_some.mp hlist
          exact Std.ExtTreeMap.mem_iff_isSome_getElem?.mpr (by rw [hget]; rfl)
        have hself : ∀ k : Bytes, compare k k = .eq := fun k => Std.ReflCmp.compare_self
        rcases hord e.1 he with heq | heq | hlt
        · rw [heq, hself] at hbefore
          cases hbefore
        · rw [heq, hself] at hafter
          cases hafter
        · have hswap := Std.OrientedCmp.gt_of_lt hafter
          rw [hlt] at hswap
          cases hswap

end Starts

namespace RtspSession

variable {s s' : RtspSession} {req : HttpRequest} {env : RequestEnv} {acts : List SessionAction}

/-- A check of the keys of entries. -/
theorem keys_lt (keys : List Bytes) (h : ∀ k ∈ keys, compare (ofString "CSeq") k = .lt)
    {entries : List (Bytes × Bytes)} (hkeys : entries.map Prod.fst = keys := by rfl) :
    ∀ k ∈ entries.map Prod.fst, compare (ofString "CSeq") k = .lt := hkeys ▸ h

/-- The headers that every response has, behind its `CSeq`. -/
def commonHeaders (s : RtspSession) (date sdp : Bytes) : List (Bytes × Bytes) :=
  (if s.sessionid ≠ [] then [(ofString "Session", s.sessionid)] else []) ++
    [(ofString "Server", ofString "RtspServer Study"), (ofString "Date", date)] ++
    if sdp ≠ [] then [(ofString "Content-Length", decimal sdp.length),
      (ofString "Content-Type", ofString "application/sdp")] else []

/-- The headers of a response: those of its handler, and those that every response has. -/
def allHeaders (s : RtspSession) (date : Bytes) (headers : StringMap) (sdp : Bytes) : StringMap :=
  emplaceAll (emplaceAll headers [(ofString "CSeq", decimalInt s.cseq)]) (s.commonHeaders date sdp)

theorem getRtspResponse_eq (s : RtspSession) (date code : Bytes) (headers : StringMap)
    (sdp : Bytes) : s.getRtspResponse date code headers sdp =
      ofString "RTSP/1.0" ++ ofString " " ++ code ++ ofString "\r\n" ++
        (s.allHeaders date headers sdp).toList.flatMap HttpResponse.headerLine ++
        ofString "\r\n" ++ sdp := by
  rw [allHeaders, commonHeaders, emplaceAll_append, emplaceAll_append, getRtspResponse]
  split <;> split <;> rfl

theorem commonHeaders_keys (s : RtspSession) (date sdp : Bytes) :
    ∀ k ∈ (s.commonHeaders date sdp).map Prod.fst, k ∈ [ofString "Session", ofString "Server",
      ofString "Date", ofString "Content-Length", ofString "Content-Type"] := by
  intro k hk
  unfold commonHeaders at hk
  split at hk <;> split at hk <;> simp at hk ⊢ <;> tauto

/-- A header of the handler keeps its value. -/
theorem getElem?_allHeaders (s : RtspSession) (date sdp : Bytes) {key value : Bytes}
    {headers : StringMap} (h : headers[key]? = some value) :
    (s.allHeaders date headers sdp)[key]? = some value :=
  getElem?_emplaceAll (getElem?_emplaceAll h _) _

theorem mem_allHeaders {date sdp key : Bytes} {headers : StringMap}
    (h : key ∈ s.allHeaders date headers sdp) : key ∈ headers ∨ key = ofString "CSeq" ∨
      key ∈ [ofString "Session", ofString "Server", ofString "Date", ofString "Content-Length",
        ofString "Content-Type"] := by
  rcases mem_emplaceAll h with h | h
  · rcases mem_emplaceAll h with h | h
    · exact .inl h
    · exact .inr (.inl (List.mem_singleton.mp h))
  · exact .inr (.inr (commonHeaders_keys s date sdp key h))

/-- No other key of a response is before `CSeq` in the order of the map. -/
theorem starts_allHeaders (s : RtspSession) {headers : StringMap}
    (hheaders : BeforeAll (ofString "CSeq") headers) (date sdp : Bytes) :
    Starts (ofString "CSeq") (decimalInt s.cseq) (s.allHeaders date headers sdp) := by
  have hkeys : ∀ k ∈ [ofString "Session", ofString "Server", ofString "Date",
      ofString "Content-Length", ofString "Content-Type"], compare (ofString "CSeq") k = .lt := by
    decide
  exact (Starts.of_beforeAll hheaders).append _
    fun k hk => hkeys k (commonHeaders_keys s date sdp k hk)

/-- **The `CSeq` of a response** is that of the session. -/
theorem responseHeader_getRtspResponse {headers : StringMap}
    (hheaders : BeforeAll (ofString "CSeq") headers) (date : Bytes) {code : Bytes}
    (hcode : CR ∉ code) (sdp : Bytes) :
    responseHeader (ofString "CSeq") (s.getRtspResponse date code headers sdp) =
      some (decimalInt s.cseq) := by
  obtain ⟨rest, hlist⟩ := (s.starts_allHeaders hheaders date sdp).exists_toList
  -- the line before it ends at the first CR
  have hstatus : CR ∉ ofString "RTSP/1.0" ++ ofString " " ++ code := by
    simp only [List.mem_append, not_or]
    exact ⟨⟨by decide, by decide⟩, hcode⟩
  have hfirst := responseHeader_first (ofString "CSeq") hstatus (by decide)
    (CR_notMem_decimalInt s.cseq)
    (rest.flatMap HttpResponse.headerLine ++ (ofString "\r\n" ++ sdp))
  rw [getRtspResponse_eq, hlist, List.flatMap_cons]
  simpa only [List.append_assoc] using hfirst

end RtspSession

/-! ## One request -/

/-- The messages that a handler sends. -/
def SessionAction.sent : SessionAction → Option Bytes
  | send msg => some msg
  | runEvery _ => none

/-- Exactly one message is sent, a response with the `CSeq` given. -/
def RespondsWith (cseq : Bytes) (acts : List SessionAction) : Prop :=
  ∃ msg, acts.filterMap SessionAction.sent = [msg] ∧
    responseHeader (ofString "CSeq") msg = some cseq

/-- **A request is answered once**, with its `CSeq`. -/
def Replies (req : HttpRequest) (acts : List SessionAction) : Prop :=
  RespondsWith (req.getRequestValue (ofString "CSeq")) acts

namespace RtspSession

variable {s s' : RtspSession} {req : HttpRequest} {env : RequestEnv} {acts : List SessionAction}

theorem respondsWith_send {n : ℤ} (hcseq : s.cseq = n) {headers : StringMap}
    (hheaders : BeforeAll (ofString "CSeq") headers) (date : Bytes) {code : Bytes}
    (hcode : CR ∉ code)
    (sdp : Bytes) :
    RespondsWith (decimalInt n) [.send (s.getRtspResponse date code headers sdp)] :=
  ⟨_, rfl, hcseq ▸ responseHeader_getRtspResponse hheaders date hcode sdp⟩

/-- The overload for keys and values in turn. -/
theorem respondsWith_sendOf {n : ℤ} (hcseq : s.cseq = n) {header : List Bytes} (keys : List Bytes)
    (hkeys : (keyValues header).map Prod.fst = keys)
    (h : ∀ k ∈ keys, compare (ofString "CSeq") k = .lt) (date : Bytes) {code : Bytes}
    (hcode : CR ∉ code) (sdp : Bytes) :
    RespondsWith (decimalInt n) [.send (s.getRtspResponseOf date code header sdp)] :=
  respondsWith_send hcseq (beforeAll_emplaceAll (hkeys ▸ h)) date hcode sdp

@[simp] theorem cseq_parse (url : Bytes) : (s.parse url).cseq = s.cseq := by
  unfold parse
  cases find (ofString "://") url <;> simp only <;> split <;> (try rfl) <;> split <;> rfl

@[simp] theorem rtpType_parse (url : Bytes) : (s.parse url).rtpType = s.rtpType := by
  unfold parse
  cases find (ofString "://") url <;> simp only <;> split <;> (try rfl) <;> split <;> rfl

@[simp] theorem cseq_prepare :
    (s.prepare req).cseq = atoi (req.getRequestValue (ofString "CSeq")) := by
  unfold prepare
  simp only
  split <;> simp

@[simp] theorem rtpType_prepare : (s.prepare req).rtpType = s.rtpType := by
  unfold prepare
  simp only
  split <;> simp

theorem handleOptions_responds : RespondsWith (decimalInt s.cseq) (s.handleOptions env).2 :=
  respondsWith_sendOf rfl [ofString "Public"] rfl (by decide) env.date (by decide) []

theorem handleDescribe_responds :
    RespondsWith (decimalInt s.cseq) (s.handleDescribe env).2 ∧
      (s.handleDescribe env).1.rtpType = s.rtpType := by
  unfold handleDescribe
  cases env.file with
  | failed =>
    simp only [RtspMediaStream.createFromEs, Bool.false_eq_true, not_false_eq_true, if_true,
      and_true]
    refine respondsWith_sendOf ?_ [ofString "Connection"] rfl (by decide) env.date (by decide) []
    rfl
  | loaded sdp =>
    simp only [RtspMediaStream.createFromEs, not_true_eq_false, if_false, and_true]
    refine respondsWith_sendOf ?_ [ofString "Content-Base", ofString "x-Accept-Retransmit",
      ofString "x-Accept-Dynamic-Rate"] rfl (by decide) env.date (by decide) sdp
    rfl

/-- The transport that a `SETUP` meets: that of the session, or the one it asks for. -/
def setupRtpType (s : RtspSession) (req : HttpRequest) : RtpType :=
  if s.rtpType = .invalid then requestedRtpType (req.getRequestValue (ofString "Transport"))
  else s.rtpType

/-- **`handleSetup`** answers for TCP, and sends nothing otherwise. -/
theorem handleSetup_responds (h : s.handleSetup req env = .ok (s', acts)) :
    s'.rtpType = s.setupRtpType req ∧
      ((s.setupRtpType req = .tcp ∧ RespondsWith (decimalInt s.cseq) acts) ∨
        (s.setupRtpType req ≠ .tcp ∧ acts = [])) := by
  cases hs : s.stream with
  | none =>
    rw [handleSetup_error hs] at h
    cases h
  | some stream =>
    -- the first `SETUP` chooses the transport, and a later one keeps it
    obtain ⟨u, hu⟩ : ∃ u, u = if s.rtpType = .invalid then { s with
        rtpType := requestedRtpType (req.getRequestValue (ofString "Transport")) } else s :=
      ⟨_, rfl⟩
    have htype : u.rtpType = s.setupRtpType req := by
      rw [hu, setupRtpType]
      split <;> rfl
    have hcseq : u.cseq = s.cseq := by
      rw [hu]
      split <;> rfl
    unfold handleSetup at h
    simp only [← hu] at h
    simp only [hs] at h
    rw [← htype, ← hcseq]
    rcases hu' : u.rtpType with _ | _ | _ | _ <;> rw [hu'] at h
    case tcp =>
      obtain ⟨rfl, rfl⟩ := Prod.mk.inj (Except.ok.inj h)
      refine ⟨hu', .inl ⟨rfl, ?_⟩⟩
      exact respondsWith_sendOf rfl [ofString "Transport", ofString "x-Transport-Options",
        ofString "x-Dynamic-Rate"] rfl (by decide) env.date (by decide) []
    all_goals
      obtain ⟨rfl, rfl⟩ := Prod.mk.inj (Except.ok.inj h)
      exact ⟨hu', .inr ⟨by simp, rfl⟩⟩

/-- **`handlePlay`**, if it does not dereference null, answers. -/
theorem handlePlay_responds (h : s.handlePlay req env = .ok (s', acts)) :
    s'.rtpType = s.rtpType ∧ RespondsWith (decimalInt s.cseq) acts := by
  cases hs : s.stream with
  | none =>
    rw [handlePlay_error hs] at h
    cases h
  | some stream =>
    unfold handlePlay at h
    simp only [hs] at h
    split at h
    · obtain ⟨rfl, rfl⟩ := Prod.mk.inj (Except.ok.inj h)
      refine ⟨rfl, ?_⟩
      exact respondsWith_sendOf rfl [ofString "Connection"] rfl (by decide) env.date (by decide) []
    · obtain ⟨stream', -, h⟩ := bind_eq_ok.mp h
      obtain ⟨rfl, rfl⟩ := Prod.mk.inj (Except.ok.inj h)
      refine ⟨rfl, _, rfl, ?_⟩
      exact responseHeader_getRtspResponse (beforeAll_emplaceAll
        (keys_lt [ofString "RTP-Info", ofString "Range"] (by decide))) env.date (by decide) []

/-- **One request**: it is answered once, unless it is a `SETUP` in a session without TCP, which is
not answered. -/
theorem onWholeRtspPacket_responds (h : s.onWholeRtspPacket req env = .ok (s', acts)) :
    (req.method ≠ ofString "SETUP" ∧ s'.rtpType = s.rtpType ∧
      RespondsWith (decimalInt (atoi (req.getRequestValue (ofString "CSeq")))) acts) ∨
    (req.method = ofString "SETUP" ∧ s'.rtpType = s.setupRtpType req ∧
      ((s.setupRtpType req = .tcp ∧
          RespondsWith (decimalInt (atoi (req.getRequestValue (ofString "CSeq")))) acts) ∨
        (s.setupRtpType req ≠ .tcp ∧ acts = []))) := by
  have hcseq : (s.prepare req).cseq = atoi (req.getRequestValue (ofString "CSeq")) := cseq_prepare
  have hsetup : (s.prepare req).setupRtpType req = s.setupRtpType req := by
    rw [setupRtpType, setupRtpType, rtpType_prepare]
  rw [← hcseq]
  unfold onWholeRtspPacket at h
  dsimp only at h
  by_cases hm : req.method = ofString "SETUP"
  -- the handlers are looked up by the method
  · have hother : req.method ≠ ofString "OPTIONS" ∧ req.method ≠ ofString "DESCRIBE" := by
      rw [hm]
      decide
    rw [if_neg hother.1, if_neg hother.2, if_pos hm] at h
    obtain ⟨htype, hresp⟩ := handleSetup_responds h
    rw [hsetup] at htype hresp
    exact .inr ⟨hm, htype, hresp⟩
  · left
    refine ⟨hm, ?_⟩
    split at h
    · obtain ⟨rfl, rfl⟩ := Prod.mk.inj (Except.ok.inj h)
      exact ⟨rtpType_prepare, handleOptions_responds⟩
    · split at h
      · have hpair := Except.ok.inj h
        obtain ⟨hresp, htype⟩ := @handleDescribe_responds (s.prepare req) env
        rw [hpair] at hresp htype
        exact ⟨htype.trans rtpType_prepare, hresp⟩
      · split at h
        · obtain ⟨htype, hresp⟩ := handlePlay_responds h
          exact ⟨htype.trans rtpType_prepare, hresp⟩
        · obtain ⟨rfl, rfl⟩ := Prod.mk.inj (Except.ok.inj h)
          refine ⟨rtpType_prepare, ?_⟩
          refine respondsWith_send rfl (fun k hk => ?_) env.date (by decide) []
          exact absurd hk Std.ExtTreeMap.not_mem_empty

end RtspSession

/-! ## Runs -/

/-- A request to set up. -/
def FileEvent.setup : FileEvent → Option HttpRequest
  | request req _ => if req.method = ofString "SETUP" then some req else none
  | frames _ _ => none

/-- The first `SETUP`. -/
def firstSetup (events : List FileEvent) : Option HttpRequest :=
  events.findSome? FileEvent.setup

/-- The transport that a request asks for. -/
def HttpRequest.rtpType (req : HttpRequest) : RtpType :=
  RtspSession.requestedRtpType (req.getRequestValue (ofString "Transport"))

theorem requestedRtpType_ne_invalid (transport : Bytes) :
    RtspSession.requestedRtpType transport ≠ .invalid := by
  unfold RtspSession.requestedRtpType
  split
  · nofun
  · split <;> nofun

theorem requestedRtpType_eq_tcp {transport : Bytes} :
    RtspSession.requestedRtpType transport = .tcp ↔ (find (ofString "TCP") transport).isSome := by
  unfold RtspSession.requestedRtpType
  split
  · rename_i h
    exact ⟨fun _ => h, fun _ => rfl⟩
  · rename_i h
    refine ⟨fun hf => ?_, fun hf => absurd hf h⟩
    split at hf <;> cases hf

/-- **The transport of a session** is that of the first `SETUP`. -/
theorem rtpType_of_run {events : List FileEvent} {s : RtspSession}
    (hr : fileSystem.Run events s) :
    s.rtpType = ((firstSetup events).map HttpRequest.rtpType).getD .invalid := by
  refine hr.history
    (I := fun events s => s.rtpType = ((firstSetup events).map HttpRequest.rtpType).getD .invalid)
    ?_ ?_
  · rintro s rfl
    rfl
  · intro events s e t ih hstep
    -- Only an event behind which there is no other `SETUP` can change the first one.
    have hfirst : firstSetup (events ++ [e]) = (firstSetup events).or e.setup := by
      rw [firstSetup, List.findSome?_append]
      congr 1
      cases h : e.setup <;> simp [h]
    rw [hfirst]
    cases e with
    | frames timeStamp seq =>
      obtain ⟨rfl, -⟩ := Prod.mk.inj (Except.ok.inj
        (show s.handle (.frames timeStamp seq) = .ok (t, []) from hstep))
      rw [FileEvent.setup, Option.or_none]
      exact ih
    | request req env =>
      obtain ⟨acts, outcome, -, hcall⟩ := hstep
      rcases RtspSession.onWholeRtspPacket_responds hcall with ⟨hm, htype, -⟩ | ⟨hm, htype, -⟩
      · rw [FileEvent.setup, if_neg hm, Option.or_none, htype]
        exact ih
      · rw [FileEvent.setup, if_pos hm, htype, RtspSession.setupRtpType]
        cases hf : firstSetup events with
        | none =>
          rw [hf] at ih
          exact if_pos ih
        | some first =>
          rw [hf] at ih
          change s.rtpType = first.rtpType at ih
          rw [if_neg (ih ▸ requestedRtpType_ne_invalid _)]
          exact ih

/-- The first `SETUP`, among the events before it and behind it. -/
theorem exists_of_firstSetup {events : List FileEvent} {req : HttpRequest}
    (h : firstSetup events = some req) : ∃ before env later,
      events = before ++ .request req env :: later ∧ req.method = ofString "SETUP" ∧
      firstSetup before = none := by
  obtain ⟨before, e, later, rfl, hsome, hbefore⟩ := List.findSome?_eq_some_iff.mp h
  have hnone : firstSetup before = none := List.findSome?_eq_none_iff.mpr hbefore
  cases e with
  | frames timeStamp seq => cases hsome
  | request req' env =>
    rw [FileEvent.setup] at hsome
    split_ifs at hsome with hm
    obtain rfl := Option.some.inj hsome
    exact ⟨before, env, later, rfl, hm, hnone⟩

theorem firstSetup_of_setup {req : HttpRequest} (hm : req.method = ofString "SETUP")
    (before : List FileEvent) (env : FileEnv) (later : List FileEvent) :
    firstSetup (before ++ .request req env :: later) = some ((firstSetup before).getD req) := by
  rw [firstSetup, List.findSome?_append, List.findSome?_cons, FileEvent.setup, if_pos hm,
    ← firstSetup]
  cases firstSetup before <;> rfl

/-- The transport that a `SETUP` meets in a run is that of the first one, which may be itself. -/
theorem setupRtpType_of_run {before : List FileEvent} {s : RtspSession}
    (hr : fileSystem.Run before s) (req : HttpRequest) :
    s.setupRtpType req = ((firstSetup before).getD req).rtpType := by
  have htype := rtpType_of_run hr
  rw [RtspSession.setupRtpType]
  cases hfirst : firstSetup before with
  | none =>
    rw [hfirst] at htype
    exact if_pos htype
  | some first =>
    rw [hfirst] at htype
    change s.rtpType = first.rtpType at htype
    rw [if_neg (htype ▸ requestedRtpType_ne_invalid _), htype]
    rfl

/-- **A request in a run** is answered, unless it is a `SETUP` and the first one does not ask for
TCP. -/
theorem responds_of_run {before : List FileEvent} {s s' : RtspSession} {req : HttpRequest}
    {env : FileEnv} {acts : List SessionAction} (hr : fileSystem.Run before s)
    (hserves : s.Serves req env s' acts) :
    (RespondsWith (decimalInt (atoi (req.getRequestValue (ofString "CSeq")))) acts ∧
      (req.method = ofString "SETUP" → ((firstSetup before).getD req).rtpType = .tcp)) ∨
    (acts = [] ∧ req.method = ofString "SETUP" ∧
      ((firstSetup before).getD req).rtpType ≠ .tcp) := by
  obtain ⟨outcome, -, hcall⟩ := hserves
  rw [← setupRtpType_of_run hr]
  rcases RtspSession.onWholeRtspPacket_responds hcall with
    ⟨hm, -, hresp⟩ | ⟨hm, -, ⟨htcp, hresp⟩ | ⟨hne, hnil⟩⟩
  · exact .inl ⟨hresp, fun hsetup => absurd hsetup hm⟩
  · exact .inl ⟨hresp, fun _ => htcp⟩
  · exact .inr ⟨hnil, hm, hne⟩

/-- **Each request is answered once**: in every state that the events before it lead to, the call
returns, and has sent one response. -/
def EveryRequestReplies (events : List FileEvent) : Prop :=
  ∀ before req env later, events = before ++ .request req env :: later →
    ∀ s, fileSystem.Run before s → ∃ s' acts, s.Serves req env s' acts ∧ Replies req acts

theorem EveryRequestReplies.of_append {before later : List FileEvent}
    (h : EveryRequestReplies (before ++ later)) : EveryRequestReplies before :=
  fun first req env rest hsplit => h first req env (rest ++ later) (by rw [hsplit]; simp)

/-- Calls that return make a run. -/
theorem EveryRequestReplies.exists_run {events : List FileEvent} (h : EveryRequestReplies events) :
    ∃ s, fileSystem.Run events s := by
  -- Induction on the events, from the last one.
  induction events using List.reverseRecOn with
  | nil => exact ⟨_, .nil (M := fileSystem) rfl⟩
  | append_singleton events e ih =>
    obtain ⟨s, hrun⟩ := ih h.of_append
    cases e with
    | request req env =>
      obtain ⟨s', acts, hserves, -⟩ := h events req env [] rfl s hrun
      exact ⟨s', hrun.snoc ⟨acts, hserves⟩⟩
    | frames timeStamp seq =>
      exact ⟨_, hrun.snoc (show s.handle (.frames timeStamp seq) = .ok (_, []) from rfl)⟩

/-- What is said of a request that was answered. -/
theorem EveryRequestReplies.request {before later : List FileEvent} {req : HttpRequest}
    {env : FileEnv} (h : EveryRequestReplies (before ++ .request req env :: later)) :
    (∃ n : ℤ, -2 ^ 31 ≤ n ∧ n < 2 ^ 31 ∧ req.getRequestValue (ofString "CSeq") = decimalInt n) ∧
    (req.method = ofString "SETUP" → ((firstSetup before).getD req).rtpType = .tcp) ∧
    (req.method = ofString "DESCRIBE" →
      ∃ outcome, RtspMediaStream.Loads env.fresh env.file outcome) := by
  obtain ⟨s, hrun⟩ := h.of_append.exists_run
  obtain ⟨s', acts, hserves, msg, hsent, hcseq⟩ := h before req env later rfl s hrun
  rcases responds_of_run hrun hserves with ⟨⟨msg', hsent', hcseq'⟩, htcp⟩ | ⟨rfl, -⟩
  · -- the response carries the number that was read
    obtain rfl := List.singleton_inj.mp (hsent'.symm.trans hsent)
    obtain ⟨hlow, hhigh⟩ := atoi_range (req.getRequestValue (ofString "CSeq"))
    obtain ⟨outcome, hload, -⟩ := hserves
    exact ⟨⟨_, hlow, hhigh, Option.some.inj (hcseq.symm.trans hcseq')⟩, htcp,
      fun hm => ⟨outcome, hload hm⟩⟩
  · cases hsent

/-- **The runs that answer every request once**, of those that do not crash: the first `SETUP` asks
for TCP, the `CSeq` of each request is an `int` as `std::to_string` writes it, and each file that a
`DESCRIBE` loads is empty or begins with a start code. -/
theorem everyRequest_replies_iff {events : List FileEvent} (hcrash : NoCrash events) :
    EveryRequestReplies events ↔
      (∀ req, firstSetup events = some req →
        (find (ofString "TCP") (req.getRequestValue (ofString "Transport"))).isSome) ∧
      (∀ req env, .request req env ∈ events → ∃ n : ℤ, -2 ^ 31 ≤ n ∧ n < 2 ^ 31 ∧
        req.getRequestValue (ofString "CSeq") = decimalInt n) ∧
      ∀ req env, .request req env ∈ events → req.method = ofString "DESCRIBE" →
        env.file = [] ∨ Begins env.file := by
  constructor
  · intro h
    refine ⟨fun req hfirst => ?_, fun req env hmem => ?_, fun req env hmem hm => ?_⟩
    · obtain ⟨before, env, later, rfl, hm, hnone⟩ := exists_of_firstSetup hfirst
      have htcp := h.request.2.1 hm
      rw [hnone] at htcp
      exact requestedRtpType_eq_tcp.mp htcp
    · obtain ⟨before, later, rfl⟩ := List.append_of_mem hmem
      exact h.request.1
    · obtain ⟨before, later, rfl⟩ := List.append_of_mem hmem
      obtain ⟨outcome, hload⟩ := h.request.2.2 hm
      exact (RtspMediaStream.loads_iff hload.not_crashes).mp ⟨outcome, hload⟩
  · rintro ⟨htcp, hcseq, hfile⟩ before req env later rfl s hrun
    have hmem : FileEvent.request req env ∈ before ++ .request req env :: later := by simp
    obtain ⟨s', acts, hserves⟩ := RtspSession.exists_serves
      (hcrash before req env later rfl s hrun) (hfile req env hmem)
    refine ⟨s', acts, hserves, ?_⟩
    obtain ⟨n, hlow, hhigh, hn⟩ := hcseq req env hmem
    have hecho : decimalInt (atoi (req.getRequestValue (ofString "CSeq"))) =
        req.getRequestValue (ofString "CSeq") := by
      rw [hn, atoi_decimalInt hlow hhigh]
    rcases responds_of_run hrun hserves with ⟨hresp, -⟩ | ⟨-, hm, hne⟩
    · rwa [hecho] at hresp
    · -- the first `SETUP` asks for TCP
      have hfirst := htcp _ (firstSetup_of_setup hm before env later)
      exact absurd (requestedRtpType_eq_tcp.mpr hfirst) hne

/-! ## A file with parameter sets -/

def twoSetsEnv : FileEnv := ⟨twoSets, {}, 0, [], []⟩

theorem loads_twoSets : ∃ outcome, RtspMediaStream.Loads {} twoSets outcome := by
  obtain ⟨fuel, m', ok, hrun, -⟩ := (scanReports_of_hasParameterSets
    ⟨[], ⟨96, 90000, 0, 0, 0, 0, 0⟩, [], none, false⟩ {} 96 90000 hasParameterSets_twoSets).result
  rw [RtspMediaStream.createFromFile] at hrun
  obtain ⟨outcome, hload, -⟩ := bind_eq_ok.mp hrun
  exact ⟨outcome, fuel, hload⟩

/-- A `DESCRIBE`, an `OPTIONS` request with the `CSeq` 7, and a `SETUP` that asks for UDP. -/
def describeFirst : HttpRequest :=
  { method := ofString "DESCRIBE",
    headers := (∅ : StringMap).insert (ofString "CSeq") (ofString "1") }
def optionsSeven : HttpRequest :=
  { method := ofString "OPTIONS",
    headers := (∅ : StringMap).insert (ofString "CSeq") (ofString "7") }
def setupSecond : HttpRequest :=
  { method := ofString "SETUP",
    headers := ((∅ : StringMap).insert (ofString "CSeq") (ofString "2")).insert
      (ofString "Transport") (ofString "RTP/AVP;unicast;client_port=5000-5001") }

/-- A `DESCRIBE` of the file does not crash. -/
theorem not_crashes_describeFirst (s : RtspSession) : ¬ s.Crashes describeFirst twoSetsEnv := by
  obtain ⟨outcome, hload⟩ := loads_twoSets
  rintro (⟨-, hcrash⟩ | ⟨outcome', fault, hcall⟩)
  · exact hload.not_crashes hcrash
  · rw [RtspSession.onWholeRtspPacket_describe rfl] at hcall
    cases hcall

/-- Two requests, of which the first one is the `DESCRIBE`, do not crash if the second one never
does behind it. -/
theorem noCrash_describeFirst {req : HttpRequest} (h : ∀ s : RtspSession,
    fileSystem.Run [.request describeFirst twoSetsEnv] s → ¬ s.Crashes req twoSetsEnv) :
    NoCrash [.request describeFirst twoSetsEnv, .request req twoSetsEnv] := by
  intro before req' env later hsplit s hrun
  match before, later, hsplit with
  | [], _, hsplit =>
    obtain ⟨heq, -⟩ := List.cons.inj hsplit
    obtain ⟨rfl, rfl⟩ := FileEvent.request.inj heq
    exact not_crashes_describeFirst s
  | [_], _, hsplit =>
    obtain ⟨rfl, hrest⟩ := List.cons.inj hsplit
    obtain ⟨rfl, rfl⟩ := FileEvent.request.inj (List.cons.inj hrest).1
    exact h s hrun
  | _ :: _ :: before, _, hsplit =>
    have hlength := congrArg List.length hsplit
    simp only [List.length_cons, List.length_append, List.length_nil] at hlength
    omega

/-- The file is loaded and described, and the next request is answered, too. -/
theorem everyRequest_replies_options :
    EveryRequestReplies [.request describeFirst twoSetsEnv, .request optionsSeven twoSetsEnv] := by
  have hoptions : ∀ s : RtspSession, ¬ s.Crashes optionsSeven twoSetsEnv := by
    rintro s (⟨hm, -⟩ | ⟨outcome, fault, hcall⟩)
    · exact absurd hm (by decide)
    · cases hcall
  refine (everyRequest_replies_iff (noCrash_describeFirst fun s _ => hoptions s)).mpr
    ⟨by rintro req ⟨⟩, fun req env hmem => ?_, fun req env hmem _ => ?_⟩
  · rcases List.mem_cons.mp hmem with h | h
    · obtain ⟨rfl, -⟩ := FileEvent.request.inj h
      exact ⟨1, by norm_num, by norm_num, rfl⟩
    · obtain ⟨rfl, -⟩ := FileEvent.request.inj (List.mem_singleton.mp h)
      exact ⟨7, by norm_num, by norm_num, rfl⟩
  · have henv : env = twoSetsEnv := by
      rcases List.mem_cons.mp hmem with h | h
      · exact (FileEvent.request.inj h).2
      · exact (FileEvent.request.inj (List.mem_singleton.mp h)).2
    rw [henv]
    exact .inr hasParameterSets_twoSets.begins

/-- The `SETUP` is not answered. -/
theorem not_everyRequest_replies_setup :
    ¬ ∀ events, NoCrash events → EveryRequestReplies events := by
  intro h
  have hreplies := h [.request describeFirst twoSetsEnv, .request setupSecond twoSetsEnv]
    (noCrash_describeFirst fun s hrun => ?_)
  · -- `setupSecond` asks for UDP
    obtain ⟨-, htcp, -⟩ := @EveryRequestReplies.request
      [.request describeFirst twoSetsEnv] [] setupSecond twoSetsEnv hreplies
    exact absurd (htcp rfl) (by decide)
  · -- behind a `DESCRIBE` there is a stream
    obtain ⟨s₀, -, hstep⟩ := @LTS.Run.of_snoc _ _ _ [] _ _ hrun
    obtain ⟨acts, outcome, -, hcall⟩ := hstep
    rw [RtspSession.onWholeRtspPacket_describe rfl, Except.ok.injEq] at hcall
    obtain ⟨stream, hstream, -⟩ :=
      @RtspSession.handleDescribe_spec (s₀.prepare describeFirst) (twoSetsEnv.loaded outcome)
    rw [congrArg Prod.fst hcall] at hstream
    rintro (⟨hm, -⟩ | ⟨outcome', fault, hcall'⟩)
    · exact absurd hm (by decide)
    · obtain ⟨t, acts', hsetup, -⟩ := RtspSession.handleSetup_ok setupSecond
        (twoSetsEnv.loaded outcome') (RtspSession.stream_prepare.trans hstream)
      rw [RtspSession.onWholeRtspPacket_setup rfl, hsetup] at hcall'
      cases hcall'

end CppServerStudio
