import CppServerStudio.Http.Acceptance

/-!
# Requests on a kept-alive connection

`ResetContextStatus` resets the parse state and leaves the request object as it is. Parameters and
headers of earlier requests therefore stay in it, and so does a body that a later request does not
overwrite.

## Main definitions

* `serveRequests`: the requests of consecutive messages on one context
* `Isolated`: the same requests as those of the messages on fresh contexts
* `ReadMessage`, `ReadMessage.Follows`: an accepted message by its tokens, and when it hides what
  the message in front of it has left

## Main results

* `finishHead_applyAll_eq_iff`: when a request object does not show in the next request
* `isolated_iff`: messages are isolated exactly when each hides what the one in front of it left
-/

namespace CppServerStudio

open Scanning

/-- The request of a message on a fresh context. -/
def parseAlone (msg : Bytes) : Except RangeError HttpRequest := do
  let (ctx, _) ← HttpContext.paraseRequest {} msg
  .ok ctx.request

/-- The requests of consecutive messages on one context, which is reset after each. -/
def serveRequests : HttpContext → List Bytes → Except RangeError (List HttpRequest)
  | _, [] => .ok []
  | ctx, msg :: msgs => do
    let (ctx, _) ← ctx.paraseRequest msg
    let rs ← serveRequests ctx.resetContextStatus msgs
    .ok (ctx.request :: rs)

/-- **Request isolation**: one context gives the requests that fresh contexts give. -/
def Isolated (msgs : List Bytes) : Prop := serveRequests {} msgs = msgs.mapM parseAlone

/-- An accepted message: a derived head, and the bytes behind its blank line. -/
structure ReadMessage where
  head : Bytes
  setters : List Setter
  rest : Bytes
  reads : Reads .crLf head setters

/-! ## The names that setters set -/

/-- The parameter names among the setters. -/
def paramNames (fs : List Setter) : List Bytes :=
  fs.filterMap fun | .param k _ => some k | _ => none

/-- The header names among the setters. -/
def headerNames (fs : List Setter) : List Bytes :=
  fs.filterMap fun | .header k _ => some k | _ => none

namespace ReadMessage

def bytes (t : ReadMessage) : Bytes := t.head ++ [CR, LF] ++ t.rest

/-- The header that the parser looks up tells it to take no body. -/
def dropsBody (t : ReadMessage) : Bool := (HttpRequest.applyAll {} t.setters).dropsBody

/-- The request of the message on a fresh context. -/
def request (t : ReadMessage) : HttpRequest := (HttpRequest.applyAll {} t.setters).finishHead t.rest

/-- **A message that hides what the one in front of it has left**: it sets all parameter and header
names of the earlier message, and it takes a body unless the earlier one has none. -/
structure Follows (t t' : ReadMessage) : Prop where
  params : paramNames t.setters ⊆ paramNames t'.setters
  headers : headerNames t.setters ⊆ headerNames t'.setters
  body : t'.dropsBody → t.dropsBody ∨ t.rest = []

end ReadMessage

theorem HttpRequest.applyAll_body (r : HttpRequest) (fs : List Setter) :
    (r.applyAll fs).body = r.body := by
  induction fs generalizing r with
  | nil => rfl
  | cons f fs ih =>
    rw [applyAll_cons, ih]
    cases f <;> rfl

/-- The body that the parser takes: everything behind the blank line, or nothing. -/
theorem body_finishHead (fs : List Setter) (rest : Bytes) :
    ((HttpRequest.applyAll {} fs).finishHead rest).body =
      if (HttpRequest.applyAll {} fs).dropsBody then [] else rest := by
  rw [HttpRequest.finishHead]
  split_ifs
  · exact HttpRequest.applyAll_body {} fs
  · rfl

theorem HttpRequest.method_finishHead (r : HttpRequest) (rest : Bytes) :
    (r.finishHead rest).method = r.method := by
  rw [finishHead]
  split_ifs <;> rfl

/-- The end of a call leaves the parameters as they are. -/
theorem HttpRequest.requestParams_finishHead (r : HttpRequest) (rest : Bytes) :
    (r.finishHead rest).requestParams = r.requestParams := by
  rw [finishHead]
  split_ifs <;> rfl

/-- The end of a call leaves the headers as they are. -/
theorem HttpRequest.headers_finishHead (r : HttpRequest) (rest : Bytes) :
    (r.finishHead rest).headers = r.headers := by
  rw [finishHead]
  split_ifs <;> rfl

/-- The setters of a head set all the other fields but the body. -/
theorem Reads.applyAll_fields {st : HttpRequestParaseState} {p : Bytes} {fs : List Setter}
    (h : Reads st p fs) (r r' : HttpRequest) :
    (r.applyAll fs).method = (r'.applyAll fs).method ∧
    (st ≠ .inUrl → (r.applyAll fs).url = (r'.applyAll fs).url) ∧
    (st = .beforeVersion ∨ st = .crLf → (r.applyAll fs).protocol = (r'.applyAll fs).protocol) ∧
    (st = .crLf → (r.applyAll fs).version = (r'.applyAll fs).version) := by
  induction h with
  | method => exact ⟨rfl, by simp, by simp, by simp⟩
  | query _ _ ih | url _ _ _ ih => simpa [Setter.apply, HttpRequest.setUrl] using ih.1
  | param _ _ _ ih | lastParam _ _ _ _ ih =>
    simpa [Setter.apply, HttpRequest.setRequestParams] using ⟨ih.1, ih.2.1 (by simp)⟩
  | protocol _ _ _ ih =>
    simpa [Setter.apply, HttpRequest.setProtocol] using ⟨ih.1, ih.2.1 (by simp)⟩
  | version _ _ ih =>
    simpa [Setter.apply, HttpRequest.setVersion] using
      ⟨ih.1, ih.2.1 (by simp), ih.2.2.1 (by simp)⟩
  | header _ _ _ _ ih => simpa [Setter.apply, HttpRequest.addHeader] using ih

/-! ## The maps that setters fill -/

/-- Inserting pairs hides a map exactly when they set all of its keys. -/
theorem insertMany_eq_iff (m : StringMap) (kvs : List (Bytes × Bytes)) :
    m.insertMany kvs = (∅ : StringMap).insertMany kvs ↔ ∀ key ∈ m, key ∈ kvs.map Prod.fst := by
  constructor
  · intro h key hkey
    have hmem : key ∈ m.insertMany kvs := Std.ExtTreeMap.mem_insertMany_list.mpr (Or.inl hkey)
    rw [h, Std.ExtTreeMap.mem_insertMany_list] at hmem
    rcases hmem with hmem | hmem
    · exact absurd hmem Std.ExtTreeMap.not_mem_empty
    · exact List.contains_iff_mem.mp hmem
  · intro h
    apply Std.ExtTreeMap.ext_getElem?
    intro key
    rw [Std.ExtTreeMap.getElem?_insertMany_list, Std.ExtTreeMap.getElem?_insertMany_list]
    by_cases hkey : key ∈ m
    · -- some pair sets the key, and the last such pair decides on both sides
      obtain ⟨kv, hkv, rfl⟩ := List.mem_map.mp (h key hkey)
      cases hlast : kvs.findSomeRev? fun x => if compare x.1 kv.1 = .eq then some x.2 else none with
      | some v => rfl
      | none =>
        rw [List.findSomeRev?_eq_findSome?_reverse, List.findSome?_eq_none_iff] at hlast
        have hnone := hlast kv (List.mem_reverse.mpr hkv)
        simp at hnone
    · rw [Std.ExtTreeMap.getElem?_eq_none hkey, Std.ExtTreeMap.getElem?_empty]

/-- The parameters among the setters. -/
def paramPairs (fs : List Setter) : List (Bytes × Bytes) :=
  fs.filterMap fun | .param k v => some (k, v) | _ => none

/-- The headers among the setters. -/
def headerPairs (fs : List Setter) : List (Bytes × Bytes) :=
  fs.filterMap fun | .header k v => some (k, v) | _ => none

theorem map_fst_paramPairs (fs : List Setter) : (paramPairs fs).map Prod.fst = paramNames fs := by
  rw [paramPairs, paramNames, List.map_filterMap]
  congr 1
  funext f
  cases f <;> rfl

theorem map_fst_headerPairs (fs : List Setter) :
    (headerPairs fs).map Prod.fst = headerNames fs := by
  rw [headerPairs, headerNames, List.map_filterMap]
  congr 1
  funext f
  cases f <;> rfl

/-- The setters insert their parameters. -/
theorem HttpRequest.requestParams_applyAll (r : HttpRequest) (fs : List Setter) :
    (r.applyAll fs).requestParams = r.requestParams.insertMany (paramPairs fs) := by
  induction fs generalizing r with
  | nil => exact Std.ExtTreeMap.insertMany_nil.symm
  | cons f fs ih =>
    rw [applyAll_cons, ih]
    cases f with
    | param k v => exact Std.ExtTreeMap.insertMany_cons.symm
    | _ => rfl

/-- The setters insert their headers. -/
theorem HttpRequest.headers_applyAll (r : HttpRequest) (fs : List Setter) :
    (r.applyAll fs).headers = r.headers.insertMany (headerPairs fs) := by
  induction fs generalizing r with
  | nil => exact Std.ExtTreeMap.insertMany_nil.symm
  | cons f fs ih =>
    rw [applyAll_cons, ih]
    cases f with
    | header k v => exact Std.ExtTreeMap.insertMany_cons.symm
    | _ => rfl

/-- Old parameters do not show exactly when their names are set again. -/
theorem applyAll_params_eq_iff (r : HttpRequest) (fs : List Setter) :
    (r.applyAll fs).requestParams = (HttpRequest.applyAll {} fs).requestParams ↔
      ∀ key ∈ r.requestParams, key ∈ paramNames fs := by
  rw [r.requestParams_applyAll, HttpRequest.requestParams_applyAll, ← map_fst_paramPairs]
  exact insertMany_eq_iff _ _

/-- Old headers do not show exactly when their names are set again. -/
theorem applyAll_headers_eq_iff (r : HttpRequest) (fs : List Setter) :
    (r.applyAll fs).headers = (HttpRequest.applyAll {} fs).headers ↔
      ∀ key ∈ r.headers, key ∈ headerNames fs := by
  rw [r.headers_applyAll, HttpRequest.headers_applyAll, ← map_fst_headerPairs]
  exact insertMany_eq_iff _ _

/-- The request of a message has the parameters that its setters name. -/
theorem ReadMessage.mem_requestParams (t : ReadMessage) (key : Bytes) :
    key ∈ t.request.requestParams ↔ key ∈ paramNames t.setters := by
  rw [request, HttpRequest.requestParams_finishHead, HttpRequest.requestParams_applyAll,
    Std.ExtTreeMap.mem_insertMany_list, map_fst_paramPairs, List.contains_iff_mem]
  exact or_iff_right Std.ExtTreeMap.not_mem_empty

/-- The request of a message has the headers that its setters name. -/
theorem ReadMessage.mem_headers (t : ReadMessage) (key : Bytes) :
    key ∈ t.request.headers ↔ key ∈ headerNames t.setters := by
  rw [request, HttpRequest.headers_finishHead, HttpRequest.headers_applyAll,
    Std.ExtTreeMap.mem_insertMany_list, map_fst_headerPairs, List.contains_iff_mem]
  exact or_iff_right Std.ExtTreeMap.not_mem_empty

theorem dropsBody_congr {r r' : HttpRequest} (h : r.headers = r'.headers) :
    r.dropsBody = r'.dropsBody := by
  obtain ⟨⟩ := r
  obtain ⟨⟩ := r'
  obtain rfl := h
  rfl

/-! ## What shows in the next request -/

/-- **When a request object does not show in the next request**: the next message sets all of its
parameter and header names, and takes a body unless it has none. -/
theorem finishHead_applyAll_eq_iff (r : HttpRequest) (t : ReadMessage) :
    (r.applyAll t.setters).finishHead t.rest = t.request ↔
      (∀ key ∈ r.requestParams, key ∈ paramNames t.setters) ∧
      (∀ key ∈ r.headers, key ∈ headerNames t.setters) ∧ (t.dropsBody → r.body = []) := by
  rw [← applyAll_params_eq_iff, ← applyAll_headers_eq_iff, ReadMessage.request,
    ReadMessage.dropsBody]
  obtain ⟨hm, hu, hp, hv⟩ := t.reads.applyAll_fields r {}
  have hbody := HttpRequest.applyAll_body r t.setters
  have hbody' := HttpRequest.applyAll_body {} t.setters
  constructor
  · intro h
    have hparams := congrArg HttpRequest.requestParams h
    have hheaders := congrArg HttpRequest.headers h
    rw [HttpRequest.requestParams_finishHead, HttpRequest.requestParams_finishHead] at hparams
    rw [HttpRequest.headers_finishHead, HttpRequest.headers_finishHead] at hheaders
    refine ⟨hparams, hheaders, fun hdrop => ?_⟩
    -- neither side takes a body, so an old one shows
    have h' := congrArg HttpRequest.body h
    rwa [HttpRequest.finishHead, HttpRequest.finishHead, dropsBody_congr hheaders, if_pos hdrop,
      if_pos hdrop, hbody, hbody'] at h'
  · rintro ⟨hparams, hheaders, hdrop⟩
    rw [HttpRequest.finishHead, HttpRequest.finishHead, dropsBody_congr hheaders]
    split_ifs with hd
    · exact HttpRequest.ext hm (hv rfl) hparams (hu (by simp)) (hp (by simp)) hheaders
        (by rw [hbody, hbody', hdrop hd])
    · exact HttpRequest.ext hm (hv rfl) hparams (hu (by simp)) (hp (by simp)) hheaders rfl

/-- The requests of one message and of the next show nothing of each other exactly when the next
message hides what the first leaves. -/
theorem finishHead_applyAll_request_iff (t t' : ReadMessage) :
    (t.request.applyAll t'.setters).finishHead t'.rest = t'.request ↔ t.Follows t' := by
  have hbody : t.request.body = [] ↔ t.dropsBody ∨ t.rest = [] := by
    rw [ReadMessage.request, ReadMessage.dropsBody, HttpRequest.finishHead]
    split_ifs with hd
    · simp [HttpRequest.applyAll_body, hd]
    · simp [HttpRequest.setBody, hd]
  rw [finishHead_applyAll_eq_iff]
  simp only [t.mem_requestParams, t.mem_headers, hbody]
  constructor
  · rintro ⟨hparams, hheaders, hbody⟩
    exact ⟨hparams, hheaders, hbody⟩
  · rintro ⟨hparams, hheaders, hbody⟩
    exact ⟨hparams, hheaders, hbody⟩

/-! ## Runs on one context -/

theorem paraseRequest_bytes (r : HttpRequest) (t : ReadMessage) :
    HttpContext.paraseRequest ⟨r, .start⟩ t.bytes =
      .ok (⟨(r.applyAll t.setters).finishHead t.rest, .complete⟩, true) :=
  paraseRequest_head t.reads r t.rest

theorem parseAlone_bytes (t : ReadMessage) : parseAlone t.bytes = .ok t.request := by
  rw [parseAlone, show ({} : HttpContext) = ⟨{}, .start⟩ from rfl, paraseRequest_bytes, ok_bind]
  rfl

theorem mapM_parseAlone (ts : List ReadMessage) :
    (ts.map ReadMessage.bytes).mapM parseAlone = .ok (ts.map ReadMessage.request) := by
  induction ts with
  | nil => rfl
  | cons t ts ih => simp only [List.map_cons, List.mapM_cons, parseAlone_bytes, ih, ok_bind]; rfl

/-- A run on one context. -/
theorem serveRequests_bytes (r : HttpRequest) (t : ReadMessage) (ts : List ReadMessage) :
    serveRequests ⟨r, .start⟩ ((t :: ts).map ReadMessage.bytes) =
      serveRequests ⟨(r.applyAll t.setters).finishHead t.rest, .start⟩
        (ts.map ReadMessage.bytes) >>= fun rs =>
      .ok ((r.applyAll t.setters).finishHead t.rest :: rs) := by
  rw [List.map_cons, serveRequests, paraseRequest_bytes, ok_bind]
  rfl

theorem serveRequests_eq_iff (r : HttpRequest) (ts : List ReadMessage) :
    serveRequests ⟨r, .start⟩ (ts.map ReadMessage.bytes) = .ok (ts.map ReadMessage.request) ↔
      (∀ t ∈ ts.head?, (r.applyAll t.setters).finishHead t.rest = t.request) ∧
      ts.IsChain ReadMessage.Follows := by
  induction ts generalizing r with
  | nil => simp [serveRequests]
  | cons t ts ih =>
    rw [serveRequests_bytes, List.map_cons, List.head?_cons, bind_eq_ok]
    constructor
    · rintro ⟨rs, hrs, h⟩
      obtain ⟨ht, rfl⟩ := List.cons.inj (Except.ok.inj h)
      rw [ht, ih] at hrs
      refine ⟨by simpa using ht, List.isChain_cons.mpr ⟨fun t' ht' => ?_, hrs.2⟩⟩
      exact (finishHead_applyAll_request_iff t t').mp (hrs.1 t' ht')
    · rintro ⟨ht, hchain⟩
      obtain ⟨hnext, hchain⟩ := List.isChain_cons.mp hchain
      have ht' := ht t (by simp)
      rw [ht']
      refine ⟨_, (ih t.request).mpr ⟨fun t' h => ?_, hchain⟩, rfl⟩
      exact (finishHead_applyAll_request_iff t t').mpr (hnext t' h)

/-- Messages that fresh contexts accept are those with a derived head. -/
theorem exists_readMessage {msgs : List Bytes}
    (h : ∀ msg ∈ msgs, ∃ ctx, HttpContext.paraseRequest {} msg = .ok (ctx, true)) :
    ∃ ts : List ReadMessage, ts.map ReadMessage.bytes = msgs := by
  induction msgs with
  | nil => exact ⟨[], rfl⟩
  | cons msg msgs ih =>
    obtain ⟨ctx, hctx⟩ := h msg (by simp)
    obtain ⟨p, fs, rest, rfl, hp⟩ := exists_head_of_complete rfl hctx
    obtain ⟨ts, rfl⟩ := ih fun m hm => h m (by simp [hm])
    exact ⟨⟨p, fs, rest, hp⟩ :: ts, rfl⟩

/-- **Messages are isolated exactly when each hides what the one in front of it has left**: it sets
all parameter and header names of the earlier message, and takes a body unless the earlier one has
none. -/
theorem isolated_iff {msgs : List Bytes}
    (h : ∀ msg ∈ msgs, ∃ ctx, HttpContext.paraseRequest {} msg = .ok (ctx, true)) :
    (∃ ts : List ReadMessage, ts.map ReadMessage.bytes = msgs) ∧
    ∀ ts : List ReadMessage, ts.map ReadMessage.bytes = msgs →
      (Isolated msgs ↔ ts.IsChain ReadMessage.Follows) := by
  refine ⟨exists_readMessage h, ?_⟩
  rintro ts rfl
  have hiff := serveRequests_eq_iff {} ts
  rw [Isolated, mapM_parseAlone, show ({} : HttpContext) = ⟨{}, .start⟩ from rfl, hiff]
  exact and_iff_right fun t _ => rfl

theorem exists_accept (msg : Bytes)
    (h : (HttpContext.paraseRequest {} msg).map Prod.snd = .ok true) :
    ∃ ctx, HttpContext.paraseRequest {} msg = .ok (ctx, true) := by
  cases hr : HttpContext.paraseRequest {} msg with
  | error e => simp [hr, Except.map] at h
  | ok r =>
    simp only [hr, Except.map, Except.ok.injEq] at h
    exact ⟨r.1, by rw [← h]⟩

/-- Twice the same message: nothing of the first shows in the second. -/
theorem isolated_repeated :
    Isolated [ofString "GET / HTTP/1.1\r\nX: 1\r\n\r\n",
      ofString "GET / HTTP/1.1\r\nX: 1\r\n\r\n"] := by
  have hacc := exists_accept (ofString "GET / HTTP/1.1\r\nX: 1\r\n\r\n") (by decide)
  obtain ⟨ctx, hctx⟩ := hacc
  obtain ⟨p, fs, rest, ht, hp⟩ := exists_head_of_complete rfl hctx
  refine ((isolated_iff (by simpa using ⟨ctx, hctx⟩)).2
    [⟨p, fs, rest, hp⟩, ⟨p, fs, rest, hp⟩] (by simp [ReadMessage.bytes, ht])).mpr ?_
  simp only [List.isChain_cons_cons, List.isChain_singleton, and_true]
  exact ⟨List.Subset.refl _, List.Subset.refl _, Or.inl⟩

/-- A header of a first message shows in the request of a second one. -/
theorem not_isolated_header :
    ¬ ∀ msgs : List Bytes,
      (∀ msg ∈ msgs, ∃ ctx, HttpContext.paraseRequest {} msg = .ok (ctx, true)) →
      Isolated msgs := by
  intro h
  have hacc := exists_accept (ofString "GET / HTTP/1.1\r\nX: 1\r\n\r\n") (by decide)
  have hacc' := exists_accept (ofString "GET / HTTP/1.1\r\n\r\n") (by decide)
  have hiso := h [ofString "GET / HTTP/1.1\r\nX: 1\r\n\r\n", ofString "GET / HTTP/1.1\r\n\r\n"]
    (by simpa using ⟨hacc, hacc'⟩)
  revert hiso
  unfold Isolated
  decide

end CppServerStudio
