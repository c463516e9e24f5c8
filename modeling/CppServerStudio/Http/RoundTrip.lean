import CppServerStudio.Http.Acceptance

/-!
# Canonical requests

A canonical request is a record of tokens that carries the restrictions on their characters.
Its serialization is read back by one call on a fresh context.

## Main definitions

* `CanonicalRequest`: the tokens of a request, with well-formed texts
* `CanonicalRequest.serialize`: the message of a canonical request
* `CanonicalRequest.toHttpRequest`: the request object of a canonical request

## Main results

* `getElem?_lastValues`: a map of pairs keeps the last value of each key
* `CanonicalRequest.paraseRequest_serialize`: parsing inverts serializing
-/

namespace CppServerStudio

open Scanning

/-- The restrictions on a parameter of a canonical request. -/
structure ParamText (key value : Bytes) : Prop where
  key_ne : key ≠ []
  key_chars : ∀ ch ∈ key, ch ≠ ascii '=' ∧ ¬ isBlank ch ∧ ch ≠ CR ∧ ch ≠ LF
  value_ne : value ≠ []
  value_chars : ∀ ch ∈ value, ch ≠ ascii '&' ∧ ¬ isBlank ch ∧ ch ≠ CR ∧ ch ≠ LF

/-- The restrictions on a header of a canonical request. -/
structure HeaderText (key value : Bytes) : Prop where
  key_ne : key ≠ []
  key_chars : ∀ ch ∈ key, ch ≠ ascii ':' ∧ ch ≠ CR ∧ ch ≠ LF
  key_head : ∀ ch ∈ key.head?, ¬ isBlank ch
  key_ne_contentLenght : key ≠ contentLenght
  value_chars : ∀ ch ∈ value, ch ≠ CR

/-- **A canonical request**: the tokens of a message, with well-formed texts. -/
structure CanonicalRequest where
  method : Bytes
  url : Bytes
  params : List (Bytes × Bytes)
  protocol : Bytes
  versionDigit : Byte
  versionRest : Bytes
  headers : List (Bytes × Bytes)
  body : Bytes
  method_ne : method ≠ []
  method_upper : ∀ ch ∈ method, isUpper ch
  url_chars : ∀ ch ∈ url, IsUrlChar ch
  params_text : ∀ kv ∈ params, ParamText kv.1 kv.2
  protocol_ne : protocol ≠ []
  protocol_chars : ∀ ch ∈ protocol, ch ≠ ascii '/' ∧ ¬ isBlank ch
  version_digit : isDigit versionDigit
  version_chars : ∀ ch ∈ versionRest, isDigit ch ∨ ch = ascii '.'
  headers_text : ∀ kv ∈ headers, HeaderText kv.1 kv.2

/-- The map that inserting the pairs in order leaves. -/
def lastValues (kvs : List (Bytes × Bytes)) : StringMap :=
  kvs.foldl (fun m kv => m.insert kv.1 kv.2) ∅

/-- A map of pairs keeps the last value of each key. -/
theorem getElem?_lastValues (kvs : List (Bytes × Bytes)) (key : Bytes) :
    (lastValues kvs)[key]? = (kvs.reverse.find? fun kv => kv.1 = key).map Prod.snd := by
  induction kvs using List.reverseRecOn with
  | nil => simp [lastValues]
  | append_singleton kvs kv ih =>
    rw [lastValues, List.foldl_append, ← lastValues, List.foldl_cons, List.foldl_nil,
      Std.ExtTreeMap.getElem?_insert, ih, List.reverse_append, List.reverse_singleton,
      List.singleton_append, List.find?_cons]
    by_cases h : kv.1 = key <;> simp [h]

/-- Lists that correspond have their last elements with a property at the same place. -/
theorem find?_reverse_cases {α β : Type*} {R : α → β → Prop} {p : α → Bool} {q : β → Bool}
    {xs : List α} {ys : List β} (h : List.Forall₂ R xs ys) (hpq : ∀ x y, R x y → p x = q y) :
    (xs.reverse.find? p = none ∧ ys.reverse.find? q = none) ∨
      ∃ x y, xs.reverse.find? p = some x ∧ ys.reverse.find? q = some y ∧ R x y := by
  have hrev := List.forall₂_reverse_iff.mpr h
  generalize xs.reverse = xs' at hrev ⊢
  generalize ys.reverse = ys' at hrev ⊢
  induction hrev with
  | nil => exact Or.inl ⟨rfl, rfl⟩
  | @cons x y xs' ys' hxy _ ih =>
    cases hp : p x with
    | true =>
      have hq : q y = true := (hpq x y hxy).symm.trans hp
      exact Or.inr ⟨x, y, List.find?_cons_of_pos hp, List.find?_cons_of_pos hq, hxy⟩
    | false =>
      have hq : q y = false := (hpq x y hxy).symm.trans hp
      simpa [List.find?_cons, hp, hq] using ih

/-- The value of a key is that of one of the pairs. -/
theorem mem_of_getElem?_lastValues {kvs : List (Bytes × Bytes)} {key value : Bytes}
    (h : (lastValues kvs)[key]? = some value) : (key, value) ∈ kvs := by
  rw [getElem?_lastValues] at h
  obtain ⟨kv, hfind, rfl⟩ := Option.map_eq_some_iff.mp h
  have hkey : kv.1 = key := by simpa using List.find?_some hfind
  subst hkey
  exact List.mem_reverse.mp (List.mem_of_find?_eq_some hfind)

theorem getElem?_lastValues_eq_none {kvs : List (Bytes × Bytes)} {key : Bytes} :
    (lastValues kvs)[key]? = none ↔ ∀ kv ∈ kvs, kv.1 ≠ key := by
  rw [getElem?_lastValues, Option.map_eq_none_iff, List.find?_eq_none]
  simp only [List.mem_reverse, decide_eq_true_eq, ne_eq]

theorem contains_lastValues {kvs : List (Bytes × Bytes)} {key : Bytes}
    (h : ∀ kv ∈ kvs, kv.1 ≠ key) : (lastValues kvs).contains key = false := by
  rw [Std.ExtTreeMap.contains_eq_isSome_getElem?, getElem?_lastValues_eq_none.mpr h]
  rfl

namespace CanonicalRequest

def version (q : CanonicalRequest) : Bytes := q.versionDigit :: q.versionRest

/-- `k=v` for a parameter. -/
def paramText (kv : Bytes × Bytes) : Bytes := kv.1 ++ ascii '=' :: kv.2

/-- The parameters, separated by `&`, behind a `?` if there are any. -/
def query (params : List (Bytes × Bytes)) : Bytes :=
  if params = [] then [] else ascii '?' :: [ascii '&'].intercalate (params.map paramText)

/-- The line of a header, with the CR and LF behind it. -/
def headerLine (kv : Bytes × Bytes) : Bytes := kv.1 ++ ascii ':' :: SP :: kv.2 ++ [CR, LF]

/-- A header line with the text `kv.2` behind its colon. -/
def rawLine (kv : Bytes × Bytes) : Bytes := kv.1 ++ ascii ':' :: kv.2 ++ [CR, LF]

/-- The request line and the header lines. -/
def head (q : CanonicalRequest) : Bytes :=
  q.method ++ [SP] ++ q.url ++ query q.params ++ [SP] ++ q.protocol ++ [ascii '/'] ++ q.version ++
    [CR, LF] ++ q.headers.flatMap headerLine

/-- The head of a canonical request with other parameters. -/
def headWith (q : CanonicalRequest) (params : List (Bytes × Bytes)) : Bytes :=
  q.method ++ [SP] ++ q.url ++ query params ++ [SP] ++ q.protocol ++ [ascii '/'] ++ q.version ++
    [CR, LF] ++ q.headers.flatMap headerLine

/-- **The message of a canonical request**. -/
def serialize (q : CanonicalRequest) : Bytes := q.head ++ [CR, LF] ++ q.body

/-- The request object with the tokens of a canonical request. -/
def toHttpRequest (q : CanonicalRequest) : HttpRequest where
  method := q.method
  version := q.version
  requestParams := lastValues q.params
  url := q.url
  protocol := q.protocol
  headers := lastValues q.headers
  body := q.body

/-! ## Canonical texts are derived -/

/-- The setters that a canonical request calls. -/
def setters (q : CanonicalRequest) : List Setter :=
  .method q.method :: .url q.url :: q.params.map (fun kv => .param kv.1 kv.2) ++
    .protocol q.protocol :: .version q.version :: q.headers.map fun kv => .header kv.1 kv.2

/-- The setters of a canonical request with other parameters. -/
def settersWith (q : CanonicalRequest) (params : List (Bytes × Bytes)) : List Setter :=
  .method q.method :: .url q.url :: params.map (fun kv => .param kv.1 kv.2) ++
    .protocol q.protocol :: .version q.version :: q.headers.map fun kv => .header kv.1 kv.2

theorem keyText_of_chars {key : Bytes} (hne : key ≠ [])
    (h : ∀ ch ∈ key, ch ≠ ascii '=' ∧ ¬ isBlank ch ∧ ch ≠ CR ∧ ch ≠ LF) : KeyText key := by
  obtain ⟨x, xs, rfl⟩ := List.exists_cons_of_ne_nil hne
  obtain ⟨⟨-, hblank, hcr, hlf⟩, hxs⟩ := List.forall_mem_cons.mp h
  constructor
  · rintro (hx | hx | hx)
    · exact hblank hx
    · exact hcr hx
    · exact hlf hx
  · exact fun ch hch => ⟨(hxs ch hch).1, (hxs ch hch).2.1⟩

theorem valueText_of_chars {value : Bytes} (hne : value ≠ [])
    (h : ∀ ch ∈ value, ch ≠ ascii '&' ∧ ¬ isBlank ch ∧ ch ≠ CR ∧ ch ≠ LF) : ValueText value := by
  obtain ⟨x, xs, rfl⟩ := List.exists_cons_of_ne_nil hne
  obtain ⟨⟨-, hblank, hcr, hlf⟩, hxs⟩ := List.forall_mem_cons.mp h
  constructor
  · rintro (hx | hx | hx)
    · exact hblank hx
    · exact hlf hx
    · exact hcr hx
  · exact fun ch hch => ⟨(hxs ch hch).1, (hxs ch hch).2.1⟩

theorem texts_of_paramText {key value : Bytes} (h : ParamText key value) :
    KeyText key ∧ ValueText value :=
  ⟨keyText_of_chars h.key_ne h.key_chars, valueText_of_chars h.value_ne h.value_chars⟩

theorem headerKeyText_of_headerText {key value : Bytes} (h : HeaderText key value) :
    HeaderKeyText key := by
  obtain ⟨x, xs, rfl⟩ := List.exists_cons_of_ne_nil h.key_ne
  exact ⟨⟨(h.key_chars x (by simp)).2.1, h.key_head x (by simp)⟩,
    fun ch hch => (h.key_chars ch (by simp [hch])).1⟩

/-- Parameters, each with the `&` behind it. -/
theorem reads_pairs {params : List (Bytes × Bytes)}
    (hparams : ∀ kv ∈ params, KeyText kv.1 ∧ ValueText kv.2) {p : Bytes} {fs : List Setter}
    (h : Reads .beforeUrlParamKey p fs) :
    Reads .beforeUrlParamKey (p ++ (params.map paramText).flatMap (· ++ [ascii '&']))
      (fs ++ params.map fun kv => .param kv.1 kv.2) := by
  induction params generalizing p fs with
  | nil => simpa using h
  | cons kv params ih =>
    obtain ⟨hkey, hvalue⟩ := hparams kv (by simp)
    have h' := ih (fun kv hkv => hparams kv (by simp [hkv])) (.param h hkey hvalue)
    simpa [paramText] using h'

/-- Texts with a separator between them have it behind each but the last. -/
theorem intercalate_concat (sep : Byte) (ts : List Bytes) (t : Bytes) :
    [sep].intercalate (ts ++ [t]) = ts.flatMap (· ++ [sep]) ++ t := by
  induction ts with
  | nil => simp
  | cons t' ts ih =>
    rw [List.cons_append, List.intercalate_cons_of_ne_nil (by simp), ih]
    simp

/-- A non-empty list of parameters, up to the blank behind it. -/
theorem reads_params {params : List (Bytes × Bytes)} (hne : params ≠ [])
    (hparams : ∀ kv ∈ params, KeyText kv.1 ∧ ValueText kv.2) {p : Bytes} {fs : List Setter}
    {b : Byte} (hb : isBlank b) (h : Reads .beforeUrlParamKey p fs) :
    Reads .beforeProtocol (p ++ [ascii '&'].intercalate (params.map paramText) ++ [b])
      (fs ++ params.map fun kv => .param kv.1 kv.2) := by
  obtain ⟨params, kv, rfl⟩ := (List.eq_nil_or_concat params).resolve_left hne
  rw [List.concat_eq_append] at hparams ⊢
  obtain ⟨hpairs, hlast⟩ := List.forall_mem_append.mp hparams
  obtain ⟨hkey, hvalue⟩ := List.forall_mem_singleton.mp hlast
  have hread := (reads_pairs hpairs h).lastParam hkey hvalue hb
  rw [List.map_append, List.map_singleton, intercalate_concat]
  simpa [paramText] using hread

/-- The url and the parameters, up to the blank behind them. -/
theorem reads_target {url : Bytes} {params : List (Bytes × Bytes)}
    (hurl : ∀ ch ∈ url, IsUrlChar ch) (hparams : ∀ kv ∈ params, KeyText kv.1 ∧ ValueText kv.2)
    {p : Bytes} {fs : List Setter} {b : Byte} (hb : isBlank b) (h : Reads .inUrl p fs) :
    Reads .beforeProtocol (p ++ url ++ query params ++ [b])
      (fs ++ .url url :: params.map fun kv => .param kv.1 kv.2) := by
  by_cases hne : params = []
  · subst hne
    simpa [query] using Reads.url h hurl hb
  · have h' := reads_params hne hparams hb (.query h hurl)
    simpa [query, hne] using h'

/-- Header lines with any non-empty texts behind their colons. -/
theorem reads_lines {lines : List (Bytes × Bytes)}
    (hlines : ∀ kv ∈ lines, HeaderKeyText kv.1 ∧ kv.2 ≠ [] ∧ ∀ ch ∈ kv.2, ch ≠ CR) {p : Bytes}
    {fs : List Setter} (h : Reads .crLf p fs) :
    Reads .crLf (p ++ lines.flatMap rawLine)
      (fs ++ lines.map fun kv => .header kv.1 kv.2.tail) := by
  induction lines generalizing p fs with
  | nil => simpa using h
  | cons kv lines ih =>
    obtain ⟨hkey, hne, hraw⟩ := hlines kv (by simp)
    have hline := Reads.header h hkey hne hraw
    simpa [rawLine] using ih (fun kv hkv => hlines kv (by simp [hkv])) hline

/-- The header lines. -/
theorem reads_headers {headers : List (Bytes × Bytes)}
    (hheaders : ∀ kv ∈ headers, HeaderText kv.1 kv.2) {p : Bytes} {fs : List Setter}
    (h : Reads .crLf p fs) :
    Reads .crLf (p ++ headers.flatMap headerLine)
      (fs ++ headers.map fun kv => .header kv.1 kv.2) := by
  have hlines : ∀ kv ∈ headers.map fun kv => (kv.1, SP :: kv.2),
      HeaderKeyText kv.1 ∧ kv.2 ≠ [] ∧ ∀ ch ∈ kv.2, ch ≠ CR := by
    rintro _ hmem
    obtain ⟨kv, hkv, rfl⟩ := List.mem_map.mp hmem
    have htext := hheaders kv hkv
    refine ⟨headerKeyText_of_headerText htext, by simp, ?_⟩
    exact List.forall_mem_cons.mpr ⟨by decide, htext.value_chars⟩
  have hread := reads_lines hlines h
  rw [List.flatMap_map, List.map_map] at hread
  exact hread

/-- The head of a canonical request with any parameters that are read is derived, and calls its
setters. -/
theorem reads_headWith (q : CanonicalRequest) {params : List (Bytes × Bytes)}
    (hparams : ∀ kv ∈ params, KeyText kv.1 ∧ ValueText kv.2) :
    Reads .crLf (q.headWith params) (q.settersWith params) := by
  obtain ⟨x, xs, hx⟩ := List.exists_cons_of_ne_nil q.protocol_ne
  have hprotocol : ProtocolText q.protocol := by
    have hchars := q.protocol_chars
    rw [hx] at hchars ⊢
    exact ⟨(hchars x (by simp)).2, fun ch hch => (hchars ch (by simp [hch])).1⟩
  have hmethod : Reads .inUrl ([] ++ q.method ++ [SP]) [.method ([] ++ q.method)] :=
    .method (by simp) q.method_ne q.method_upper (by decide)
  have htarget := reads_target q.url_chars hparams (b := SP) (by decide) hmethod
  have hversion := Reads.version (.protocol htarget (s := []) (by simp) hprotocol)
    (VersionText.intro q.version_digit q.version_chars)
  have hhead := reads_headers q.headers_text hversion
  simpa [headWith, settersWith, version] using hhead

/-- The head of a canonical request is derived, and calls its setters. -/
theorem reads_head (q : CanonicalRequest) : Reads .crLf q.head q.setters :=
  q.reads_headWith fun kv hkv => texts_of_paramText (q.params_text kv hkv)

/-! ## The setters fill the record -/

theorem applyAll_params (params : List (Bytes × Bytes)) (r : HttpRequest) :
    r.applyAll (params.map fun kv => .param kv.1 kv.2) = { r with
      requestParams := params.foldl (fun m kv => m.insert kv.1 kv.2) r.requestParams } := by
  induction params generalizing r with
  | nil => rfl
  | cons kv params ih => exact ih (r.setRequestParams kv.1 kv.2)

theorem applyAll_headers (headers : List (Bytes × Bytes)) (r : HttpRequest) :
    r.applyAll (headers.map fun kv => .header kv.1 kv.2) = { r with
      headers := headers.foldl (fun m kv => m.insert kv.1 kv.2) r.headers } := by
  induction headers generalizing r with
  | nil => rfl
  | cons kv headers ih => exact ih (r.addHeader kv.1 kv.2)

/-- The setters of a canonical request give all of its record but the body. -/
theorem applyAll_settersWith (q : CanonicalRequest) (params : List (Bytes × Bytes)) :
    HttpRequest.applyAll {} (q.settersWith params) =
      { q.toHttpRequest with requestParams := lastValues params, body := [] } := by
  simp only [settersWith, HttpRequest.applyAll_append, HttpRequest.applyAll_cons, applyAll_params,
    applyAll_headers]
  rfl

theorem applyAll_setters (q : CanonicalRequest) :
    HttpRequest.applyAll {} q.setters = { q.toHttpRequest with body := [] } :=
  q.applyAll_settersWith q.params

theorem dropsBody_setters (q : CanonicalRequest) :
    (HttpRequest.applyAll {} q.setters).dropsBody = false := by
  have h := contains_lastValues fun kv hkv => (q.headers_text kv hkv).key_ne_contentLenght
  rw [applyAll_setters, HttpRequest.dropsBody]
  simp [toHttpRequest, h]

/-- A fresh parser that takes the size of the message as it is gives the record back. -/
theorem serialize_accepted (q : CanonicalRequest) :
    HttpContext.paraseRequest {} q.serialize = .ok (⟨q.toHttpRequest, .complete⟩, true) := by
  have h := paraseRequest_head q.reads_head {} q.body
  rwa [HttpRequest.finishHead, dropsBody_setters, applyAll_setters] at h

/-- **Parsing inverts serializing**: one call on the message of a canonical request whose size fits
an `int` returns `true` and gives its record, with the last value of a repeated key in the maps. -/
theorem paraseRequest_serialize (q : CanonicalRequest) (hsize : q.serialize.length < 2 ^ 31) :
    HttpContext.paraseRequestString {} q.serialize = .ok (⟨q.toHttpRequest, .complete⟩, true) ∧
    (∀ key, q.toHttpRequest.requestParams[key]? =
      (q.params.reverse.find? fun kv => kv.1 = key).map Prod.snd) ∧
    ∀ key, q.toHttpRequest.headers[key]? =
      (q.headers.reverse.find? fun kv => kv.1 = key).map Prod.snd := by
  refine ⟨?_, getElem?_lastValues q.params, getElem?_lastValues q.headers⟩
  rw [HttpContext.paraseRequestString_of_lt _ hsize]
  exact q.serialize_accepted

/-- The tokens of `GET / HTTP/1.1`. -/
def getSlash : CanonicalRequest where
  method := ofString "GET"
  url := ofString "/"
  params := []
  protocol := ofString "HTTP"
  versionDigit := ascii '1'
  versionRest := ofString ".1"
  headers := []
  body := []
  method_ne := by decide
  method_upper := forall_mem_of_all (by decide)
  url_chars := by
    unfold IsUrlChar
    exact forall_mem_of_all (by decide)
  params_text := by simp
  protocol_ne := by decide
  protocol_chars := forall_mem_of_all (by decide)
  version_digit := by decide
  version_chars := forall_mem_of_all (by decide)
  headers_text := by simp

example : getSlash.serialize = ofString "GET / HTTP/1.1\r\n\r\n" := by decide

theorem paraseRequest_serialize_getSlash :
    HttpContext.paraseRequestString {} (ofString "GET / HTTP/1.1\r\n\r\n") =
      .ok (⟨getSlash.toHttpRequest, .complete⟩, true) :=
  (paraseRequest_serialize getSlash (by decide)).1

/-- The same request with a body of `2 ^ 31` bytes. -/
def largeBody : CanonicalRequest := { getSlash with body := List.replicate (2 ^ 31) (ascii 'a') }

/-- The size of the message is cast to a negative `int`, and the call returns `false`. -/
theorem not_paraseRequest_serialize_large :
    ¬ ∀ q : CanonicalRequest,
      HttpContext.paraseRequestString {} q.serialize =
        .ok (⟨q.toHttpRequest, .complete⟩, true) ∧
      (∀ key, q.toHttpRequest.requestParams[key]? =
        (q.params.reverse.find? fun kv => kv.1 = key).map Prod.snd) ∧
      ∀ key, q.toHttpRequest.headers[key]? =
        (q.headers.reverse.find? fun kv => kv.1 = key).map Prod.snd := by
  intro h
  have hlength : largeBody.serialize.length = 18 + 2 ^ 31 := by
    have hhead : (getSlash.head ++ [CR, LF]).length = 18 := by decide
    change (getSlash.head ++ [CR, LF] ++ List.replicate (2 ^ 31) (ascii 'a')).length = _
    rw [List.length_append, hhead, List.length_replicate]
  have hfalse := @HttpContext.paraseRequestString_of_ge {} largeBody.serialize
    (by rw [hlength]; norm_num) (by rw [hlength]; norm_num)
  rw [(h largeBody).1] at hfalse
  exact absurd (Prod.mk.inj (Except.ok.inj hfalse)).2 (by decide)

end CanonicalRequest

end CppServerStudio
