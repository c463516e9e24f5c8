import CppServerStudio.Http.Isolation
import CppServerStudio.Http.RoundTrip

/-!
# Optional whitespace

The parser skips whitespace in front of the method, in front of the protocol and behind the colon
of a header, but it moves the start of a token only at the end of the token before. What it skips
is therefore part of the method and of the protocol, and a header value loses one byte, whatever
that byte is.

## Main definitions

* `SpacedRequest`: the tokens of a request, with the whitespace between them
* `SpacedRequest.Respaced q q'`: `q'` is `q` with other whitespace
* `SpacedRequest.SameShown q q'`: the whitespace that the tokens show is the same

## Main results

* `exists_spacedRequest`: every accepted message is the text of such a request
* `respaced_iff`: a change of whitespace keeps the parsed request exactly when it keeps the
  whitespace that the tokens show
-/

namespace CppServerStudio

open Scanning CanonicalRequest

/-- A header line: the blanks behind its colon, and a value that begins behind them. -/
structure HeaderLine where
  key : Bytes
  blanks : Bytes
  value : Bytes
  key_text : HeaderKeyText key
  blanks_blank : ∀ ch ∈ blanks, isBlank ch
  value_chars : ∀ ch ∈ value, ch ≠ CR
  value_head : ∀ ch ∈ value.head?, ¬ isBlank ch

namespace HeaderLine

/-- The text behind the colon. -/
def raw (l : HeaderLine) : Bytes := l.blanks ++ l.value

/-- The same line, up to the blanks behind the colon. -/
def SameText (l l' : HeaderLine) : Prop := l'.key = l.key ∧ l'.value = l.value

theorem raw_ne_CR (l : HeaderLine) : ∀ ch ∈ l.raw, ch ≠ CR := by
  intro ch hch
  rcases List.mem_append.mp hch with h | h
  · rintro rfl
    exact absurd (l.blanks_blank CR h) (by decide)
  · exact l.value_chars ch h

/-- The last line with a key. -/
def lastWith (key : Bytes) (ls : List HeaderLine) : Option HeaderLine :=
  ls.reverse.find? (·.key = key)

/-- **The value that the parser cuts out shows the blanks**, all but the first byte behind the
colon. -/
theorem tail_raw_eq_iff {l l' : HeaderLine} (hv : l'.value = l.value) (hl : l.raw ≠ [])
    (hl' : l'.raw ≠ []) : l'.raw.tail = l.raw.tail ↔
      (l'.blanks = [] ↔ l.blanks = []) ∧ l'.blanks.tail = l.blanks.tail := by
  -- without blanks the value itself loses its first byte, and is shorter than behind any blanks
  have hshort : ∀ {v t : Bytes}, v ≠ [] → v.tail ≠ t ++ v := by
    intro v t hne h
    have hlen := congrArg List.length h
    have hpos := List.length_pos_iff.mpr hne
    rw [List.length_tail, List.length_append] at hlen
    omega
  rw [raw] at hl hl'
  rw [raw, raw]
  rw [hv] at hl' ⊢
  generalize l'.blanks = b' at hl' ⊢
  generalize l.blanks = b at hl ⊢
  rcases b' with _ | ⟨x', t'⟩ <;> rcases b with _ | ⟨x, t⟩
  · simp
  · simpa using hshort (by simpa using hl')
  · simpa using (hshort (by simpa using hl)).symm
  · simp

end HeaderLine

/-- **A request with the whitespace between its tokens**: `lead` in front of the method, `extra`
between the blank that ends the target and the protocol, and the blanks of the header lines. -/
structure SpacedRequest where
  lead : Bytes
  method : Bytes
  methodEnd : Byte
  url : Bytes
  params : List (Bytes × Bytes)
  targetEnd : Byte
  extra : Bytes
  protocol : Bytes
  version : Bytes
  headers : List HeaderLine
  body : Bytes
  lead_chars : ∀ ch ∈ lead, IsLead ch
  method_ne : method ≠ []
  method_upper : ∀ ch ∈ method, isUpper ch
  methodEnd_blank : isBlank methodEnd
  url_chars : ∀ ch ∈ url, IsUrlChar ch
  params_text : ∀ kv ∈ params, KeyText kv.1 ∧ ValueText kv.2
  targetEnd_blank : isBlank targetEnd
  extra_blank : ∀ ch ∈ extra, isBlank ch
  protocol_text : ProtocolText protocol
  version_text : VersionText version

namespace SpacedRequest

def requestLine (q : SpacedRequest) : Bytes :=
  q.lead ++ q.method ++ [q.methodEnd] ++ q.url ++ query q.params ++ [q.targetEnd] ++
    (q.extra ++ q.protocol) ++ [ascii '/'] ++ q.version ++ [CR, LF]

/-- The keys of the header lines, with the texts behind their colons. -/
def lines (q : SpacedRequest) : List (Bytes × Bytes) := q.headers.map fun l => (l.key, l.raw)

/-- The message of a request with its whitespace. -/
def bytes (q : SpacedRequest) : Bytes :=
  q.requestLine ++ q.lines.flatMap rawLine ++ [CR, LF] ++ q.body

/-- **The same request with other whitespace** in front of the method, in front of the protocol and
behind the colons. -/
structure Respaced (q q' : SpacedRequest) : Prop where
  method : q'.method = q.method
  methodEnd : q'.methodEnd = q.methodEnd
  url : q'.url = q.url
  params : q'.params = q.params
  protocol : q'.protocol = q.protocol
  version : q'.version = q.version
  headers : List.Forall₂ HeaderLine.SameText q.headers q'.headers
  body : q'.body = q.body

/-- **The whitespace that the tokens show is the same**: what is in front of the method and of the
protocol, and of each header line that no later one with its key replaces whether it has blanks
and which ones behind the first. A header line that has nothing behind its colon is not read. -/
structure SameShown (q q' : SpacedRequest) : Prop where
  lead : q'.lead = q.lead
  extra : q'.extra = q.extra
  filled : ∀ l ∈ q'.headers, l.blanks ≠ [] ∨ l.value ≠ []
  blanks : ∀ key, ∀ l ∈ HeaderLine.lastWith key q.headers,
    ∀ l' ∈ HeaderLine.lastWith key q'.headers,
      (l'.blanks = [] ↔ l.blanks = []) ∧ l'.blanks.tail = l.blanks.tail

/-! ## What the parser reads -/

/-- The setters of the request line. -/
def lineSetters (q : SpacedRequest) : List Setter :=
  .method (q.lead ++ q.method) :: .url q.url :: q.params.map (fun kv => .param kv.1 kv.2) ++
    [.protocol (q.extra ++ q.protocol), .version q.version]

theorem reads_requestLine (q : SpacedRequest) : Reads .crLf q.requestLine q.lineSetters := by
  have hmethod := Reads.method q.lead_chars q.method_ne q.method_upper q.methodEnd_blank
  have htarget := reads_target q.url_chars q.params_text q.targetEnd_blank hmethod
  have hversion := (htarget.protocol q.extra_blank q.protocol_text).version q.version_text
  simpa [requestLine, lineSetters] using hversion

/-- Every header line has a byte behind its colon. -/
def Filled (q : SpacedRequest) : Prop := ∀ l ∈ q.headers, l.raw ≠ []

theorem filled_iff (q : SpacedRequest) :
    q.Filled ↔ ∀ l ∈ q.headers, l.blanks ≠ [] ∨ l.value ≠ [] := by
  simp only [Filled, HeaderLine.raw, ne_eq, List.append_eq_nil_iff, not_and_or]

/-- The request that the parser takes the head for. -/
def readHead (q : SpacedRequest) : HttpRequest where
  method := q.lead ++ q.method
  version := q.version
  requestParams := lastValues q.params
  url := q.url
  protocol := q.extra ++ q.protocol
  headers := lastValues (q.headers.map fun l => (l.key, l.raw.tail))

theorem applyAll_setters (q : SpacedRequest) :
    HttpRequest.applyAll {} (q.lineSetters ++ q.lines.map fun kv => .header kv.1 kv.2.tail) =
      q.readHead := by
  have hlines : (q.lines.map fun kv => Setter.header kv.1 kv.2.tail) =
      (q.headers.map fun l => (l.key, l.raw.tail)).map fun kv => .header kv.1 kv.2 := by
    rw [lines, List.map_map, List.map_map]
    rfl
  simp only [lineSetters, hlines, HttpRequest.applyAll_append, HttpRequest.applyAll_cons,
    HttpRequest.applyAll_nil, applyAll_params, applyAll_headers]
  rfl

theorem paraseRequest_of_filled {q : SpacedRequest} (h : q.Filled) :
    HttpContext.paraseRequest {} q.bytes =
      .ok (⟨q.readHead.finishHead q.body, .complete⟩, true) := by
  have hlines : ∀ kv ∈ q.lines, HeaderKeyText kv.1 ∧ kv.2 ≠ [] ∧ ∀ ch ∈ kv.2, ch ≠ CR := by
    intro kv hkv
    obtain ⟨l, hl, rfl⟩ := List.mem_map.mp hkv
    exact ⟨l.key_text, h l hl, l.raw_ne_CR⟩
  have hread := paraseRequest_head (reads_lines hlines q.reads_requestLine) {} q.body
  rwa [applyAll_setters] at hread

end SpacedRequest

/-- A header line with nothing behind its colon makes the call throw: the value is cut out from two
bytes behind the colon, and the CR is there already. -/
theorem paraseRequest_emptyLine {p key : Bytes} {fs : List Setter} (h : Reads .crLf p fs)
    (hkey : HeaderKeyText key) (r : HttpRequest) (rest : Bytes) (res : HttpContext × Bool) :
    HttpContext.paraseRequest ⟨r, .start⟩ (p ++ rawLine (key, []) ++ rest) ≠ .ok res := by
  intro hok
  set msg := p ++ rawLine (key, []) ++ rest with hmsg
  obtain ⟨k, hp⟩ := h.run r msg ⟨rawLine (key, []) ++ rest, by simp [hmsg]⟩
  have hline : Takes msg (key ++ [ascii ':']) ⟨.crLf, r.applyAll fs, p.length, p.length, k⟩
      ⟨.headerValue, r.applyAll fs, p.length, p.length + key.length + 1, p.length + key.length⟩ :=
    takes_header hkey (by simp)
  have hloop := (hp.trans hline) (CR :: LF :: (rest ++ [NUL]))
  have hsplit : p ++ (key ++ [ascii ':']) ++ CR :: LF :: (rest ++ [NUL]) = msg ++ [NUL] := by
    simp [hmsg, rawLine]
  rw [hsplit, paraseLoop, scan_cons rfl] at hloop
  -- the range of the value ends in front of its start
  have herr : ∀ c, paraseStep msg CR ⟨.headerValue, r.applyAll fs, p.length,
      p.length + key.length + 1, p.length + key.length⟩ ≠ .ok c := by
    intro c hc
    have hle := paraseStep_headerValue_CR hc
    omega
  simp only [HttpContext.paraseRequest, bind_eq_ok] at hok
  obtain ⟨c, hc, -⟩ := hok
  rw [show (⟨r, .start⟩ : HttpContext).cursor = ⟨.start, r, 0, 0, 0⟩ from rfl, paraseLoop,
    hloop, bind_eq_ok] at hc
  obtain ⟨c', hc', -⟩ := hc
  exact herr c' hc'

theorem SpacedRequest.filled_of_ok {q : SpacedRequest} {res : HttpContext × Bool}
    (h : HttpContext.paraseRequest {} q.bytes = .ok res) : q.Filled := by
  by_contra hnot
  simp only [Filled, not_forall, not_not] at hnot
  obtain ⟨l, hl, hraw⟩ := hnot
  -- the first line with nothing behind its colon
  cases hfind : q.headers.find? (·.raw = []) with
  | none => exact absurd hraw (by simpa using List.find?_eq_none.mp hfind l hl)
  | some l =>
    obtain ⟨hraw, pre, post, hsplit, hpre⟩ := List.find?_eq_some_iff_append.mp hfind
    have hlines : ∀ kv ∈ pre.map fun l => (l.key, l.raw),
        HeaderKeyText kv.1 ∧ kv.2 ≠ [] ∧ ∀ ch ∈ kv.2, ch ≠ CR := by
      intro kv hkv
      obtain ⟨l, hl, rfl⟩ := List.mem_map.mp hkv
      exact ⟨l.key_text, by simpa using hpre l hl, l.raw_ne_CR⟩
    have hread := reads_lines hlines q.reads_requestLine
    have hempty : l.raw = [] := by simpa using hraw
    have hbytes : q.bytes = q.requestLine ++ (pre.map fun l => (l.key, l.raw)).flatMap rawLine ++
        rawLine (l.key, []) ++
        ((post.map fun l => (l.key, l.raw)).flatMap rawLine ++ [CR, LF] ++ q.body) := by
      simp [bytes, lines, hsplit, hempty]
    rw [hbytes] at h
    exact paraseRequest_emptyLine hread l.key_text {} _ res h

/-! ## Accepted messages are such requests -/

theorem Reads.exists_params {p : Bytes} {fs : List Setter} (h : Reads .beforeUrlParamKey p fs) :
    ∃ (p₀ : Bytes) (fs₀ : List Setter) (url : Bytes) (params : List (Bytes × Bytes)),
      Reads .inUrl p₀ fs₀ ∧ (∀ ch ∈ url, IsUrlChar ch) ∧
      (∀ kv ∈ params, KeyText kv.1 ∧ ValueText kv.2) ∧
      p = p₀ ++ url ++ ascii '?' :: (params.map paramText).flatMap (· ++ [ascii '&']) := by
  generalize hst : HttpRequestParaseState.beforeUrlParamKey = st at h
  induction h with
  | @query p u fs h hu => exact ⟨p, fs, u, [], h, hu, by simp, by simp⟩
  | @param p k v fs h hk hv ih =>
    obtain ⟨p₀, fs₀, url, params, hp₀, hurl, hparams, rfl⟩ := ih rfl
    refine ⟨p₀, fs₀, url, params ++ [(k, v)], hp₀, hurl, ?_, by simp [paramText]⟩
    exact List.forall_mem_append.mpr ⟨hparams, List.forall_mem_singleton.mpr ⟨hk, hv⟩⟩
  | _ => cases hst

theorem Reads.exists_target {p : Bytes} {fs : List Setter} (h : Reads .beforeProtocol p fs) :
    ∃ (p₀ : Bytes) (fs₀ : List Setter) (url : Bytes) (params : List (Bytes × Bytes)) (b : Byte),
      Reads .inUrl p₀ fs₀ ∧ (∀ ch ∈ url, IsUrlChar ch) ∧
      (∀ kv ∈ params, KeyText kv.1 ∧ ValueText kv.2) ∧ isBlank b ∧
      p = p₀ ++ url ++ CanonicalRequest.query params ++ [b] := by
  cases h with
  | @url p u fs b h hu hb =>
    exact ⟨p, fs, u, [], b, h, hu, by simp, hb, by simp [CanonicalRequest.query]⟩
  | @lastParam p k v fs b h hk hv hb =>
    obtain ⟨p₀, fs₀, url, params, hp₀, hurl, hparams, rfl⟩ := h.exists_params
    refine ⟨p₀, fs₀, url, params ++ [(k, v)], b, hp₀, hurl, ?_, hb, ?_⟩
    · exact List.forall_mem_append.mpr ⟨hparams, List.forall_mem_singleton.mpr ⟨hk, hv⟩⟩
    · rw [CanonicalRequest.query, if_neg (by simp), List.map_append, List.map_singleton,
        intercalate_concat]
      simp [paramText]

theorem Reads.exists_lines {p : Bytes} {fs : List Setter} (h : Reads .crLf p fs) :
    ∃ (p₀ v : Bytes) (fs₀ : List Setter) (headers : List HeaderLine), Reads .beforeVersion p₀ fs₀ ∧
      VersionText v ∧
      p = p₀ ++ v ++ [CR, LF] ++ (headers.map fun l => (l.key, l.raw)).flatMap rawLine := by
  generalize hst : HttpRequestParaseState.crLf = st at h
  induction h with
  | @version p v fs h hv => exact ⟨p, v, fs, [], h, hv, by simp⟩
  | @header p k raw fs h hk hne hraw ih =>
    obtain ⟨p₀, v, fs₀, headers, hp₀, hv, rfl⟩ := ih rfl
    let l : HeaderLine := {
      key := k
      blanks := raw.takeWhile isBlank
      value := raw.dropWhile isBlank
      key_text := hk
      blanks_blank := List.all_eq_true.mp List.all_takeWhile
      value_chars := fun ch hch => hraw ch ((List.dropWhile_sublist isBlank).subset hch)
      value_head := fun ch hch => by
        have h := List.head?_dropWhile_not isBlank raw
        rw [Option.mem_def.mp hch] at h
        simpa using h }
    refine ⟨p₀, v, fs₀, headers ++ [l], hp₀, hv, ?_⟩
    have hl : l.raw = raw := List.takeWhile_append_dropWhile
    simp [rawLine, hl, l]
  | _ => cases hst

/-- **Every accepted message is the text of a request with its whitespace.** -/
theorem exists_spacedRequest {msg : Bytes} {ctx : HttpContext}
    (h : HttpContext.paraseRequest {} msg = .ok (ctx, true)) :
    ∃ q : SpacedRequest, q.bytes = msg := by
  obtain ⟨p, fs, rest, rfl, hp⟩ := exists_head_of_complete rfl h
  obtain ⟨p₁, v, fs₁, headers, hp₁, hv, rfl⟩ := hp.exists_lines
  cases hp₁ with
  | @protocol p₂ s t fs₂ hp₂ hs ht =>
    obtain ⟨p₃, fs₃, url, params, b, hp₃, hurl, hparams, hb, rfl⟩ := hp₂.exists_target
    cases hp₃ with
    | @method lead m b' hlead hne hm hb' =>
      refine ⟨⟨lead, m, b', url, params, b, s, t, v, headers, rest, hlead, hne, hm, hb', hurl,
        hparams, hb, hs, ht, hv⟩, ?_⟩
      simp [SpacedRequest.bytes, SpacedRequest.requestLine, SpacedRequest.lines]

/-! ## Changes of whitespace -/

theorem HttpRequest.protocol_finishHead (r : HttpRequest) (rest : Bytes) :
    (r.finishHead rest).protocol = r.protocol := by
  rw [finishHead]
  split_ifs <;> rfl

/-- The last line with a key gives the value of a header. -/
theorem getElem?_lines (ls : List HeaderLine) (key : Bytes) :
    (lastValues (ls.map fun l => (l.key, l.raw.tail)))[key]? =
      (HeaderLine.lastWith key ls).map (·.raw.tail) := by
  rw [getElem?_lastValues, HeaderLine.lastWith, ← List.map_reverse, List.find?_map,
    Option.map_map]
  rfl

/-- Lines that correspond have their last lines with a key at the same place. -/
theorem HeaderLine.lastWith_cases {ls ls' : List HeaderLine} (h : List.Forall₂ SameText ls ls')
    (key : Bytes) : (lastWith key ls = none ∧ lastWith key ls' = none) ∨
      ∃ l l', lastWith key ls = some l ∧ lastWith key ls' = some l' ∧ l.SameText l' :=
  find?_reverse_cases h fun l l' hl => by rw [hl.1]

theorem HeaderLine.mem_of_mem_lastWith {key : Bytes} {ls : List HeaderLine} {l : HeaderLine}
    (h : l ∈ lastWith key ls) : l ∈ ls :=
  List.mem_reverse.mp (List.mem_of_find?_eq_some h)

namespace SpacedRequest

variable {q q' : SpacedRequest}

/-- The headers show the blanks of the last line with each key. -/
theorem Respaced.headers_eq_iff (h : q.Respaced q') (hq : q.Filled) (hq' : q'.Filled) :
    q'.readHead.headers = q.readHead.headers ↔
      ∀ key, ∀ l ∈ HeaderLine.lastWith key q.headers,
        ∀ l' ∈ HeaderLine.lastWith key q'.headers,
          (l'.blanks = [] ↔ l.blanks = []) ∧ l'.blanks.tail = l.blanks.tail := by
  have hext : q'.readHead.headers = q.readHead.headers ↔
      ∀ key, (HeaderLine.lastWith key q'.headers).map (·.raw.tail) =
        (HeaderLine.lastWith key q.headers).map (·.raw.tail) := by
    simp only [readHead, ← getElem?_lines]
    exact ⟨fun heq key => by rw [heq], fun hkey => Std.ExtTreeMap.ext_getElem? hkey⟩
  rw [hext]
  apply forall_congr'
  intro key
  rcases HeaderLine.lastWith_cases h.headers key with ⟨hl, hl'⟩ | ⟨l, l', hl, hl', -, hv⟩
  · simp [hl, hl']
  · have htail := HeaderLine.tail_raw_eq_iff hv (hq l (HeaderLine.mem_of_mem_lastWith hl))
      (hq' l' (HeaderLine.mem_of_mem_lastWith hl'))
    simpa [hl, hl'] using htail

theorem Respaced.finishHead_eq_iff (h : q.Respaced q') :
    q'.readHead.finishHead q'.body = q.readHead.finishHead q.body ↔
      q'.lead = q.lead ∧ q'.extra = q.extra ∧ q'.readHead.headers = q.readHead.headers := by
  constructor
  · intro heq
    refine ⟨?_, ?_, ?_⟩
    · have hm := congrArg HttpRequest.method heq
      rw [HttpRequest.method_finishHead, HttpRequest.method_finishHead, readHead, readHead,
        h.method] at hm
      exact List.append_cancel_right hm
    · have hp := congrArg HttpRequest.protocol heq
      rw [HttpRequest.protocol_finishHead, HttpRequest.protocol_finishHead, readHead, readHead,
        h.protocol] at hp
      exact List.append_cancel_right hp
    · have hh := congrArg HttpRequest.headers heq
      rwa [HttpRequest.headers_finishHead, HttpRequest.headers_finishHead] at hh
  · rintro ⟨hlead, hextra, hheaders⟩
    have hread : q'.readHead = q.readHead := by
      apply HttpRequest.ext
      case headers => exact hheaders
      all_goals simp only [readHead, hlead, hextra, h.method, h.url, h.params, h.protocol,
        h.version]
    rw [hread, h.body]

/-- The call on a respaced message gives the same request exactly when the tokens show the same
whitespace. -/
theorem Respaced.paraseRequest_iff (h : q.Respaced q') (hq : q.Filled) :
    HttpContext.paraseRequest {} q'.bytes =
      .ok (⟨q.readHead.finishHead q.body, .complete⟩, true) ↔ q.SameShown q' := by
  constructor
  · intro hok
    have hq' := filled_of_ok hok
    rw [paraseRequest_of_filled hq'] at hok
    simp only [Except.ok.injEq, Prod.mk.injEq, HttpContext.mk.injEq, and_true] at hok
    obtain ⟨hlead, hextra, hheaders⟩ := h.finishHead_eq_iff.mp hok
    exact ⟨hlead, hextra, q'.filled_iff.mp hq', (h.headers_eq_iff hq hq').mp hheaders⟩
  · intro hshown
    have hq' := q'.filled_iff.mpr hshown.filled
    have hheaders := (h.headers_eq_iff hq hq').mpr hshown.blanks
    rw [paraseRequest_of_filled hq',
      h.finishHead_eq_iff.mpr ⟨hshown.lead, hshown.extra, hheaders⟩]

end SpacedRequest

/-- The line `X:1`, with `n` blanks behind the colon. -/
def HeaderLine.xLine (n : ℕ) : HeaderLine where
  key := ofString "X"
  blanks := List.replicate n SP
  value := ofString "1"
  key_text := ⟨by decide, by simp⟩
  blanks_blank := fun ch hch => by
    rw [List.eq_of_mem_replicate hch]
    rfl
  value_chars := forall_mem_of_all (by decide)
  value_head := by simp [ofString, isBlank, SP, TAB]

/-- The tokens of `GET / HTTP/1.1` behind the whitespace `lead`, with header lines. -/
def SpacedRequest.getSlash (lead : Bytes) (hlead : ∀ ch ∈ lead, IsLead ch)
    (headers : List HeaderLine) : SpacedRequest where
  lead := lead
  method := CanonicalRequest.getSlash.method
  methodEnd := SP
  url := CanonicalRequest.getSlash.url
  params := []
  targetEnd := SP
  extra := []
  protocol := ofString "HTTP"
  version := CanonicalRequest.getSlash.version
  headers := headers
  body := []
  lead_chars := hlead
  method_ne := CanonicalRequest.getSlash.method_ne
  method_upper := CanonicalRequest.getSlash.method_upper
  methodEnd_blank := rfl
  url_chars := CanonicalRequest.getSlash.url_chars
  params_text := by simp
  targetEnd_blank := rfl
  extra_blank := by simp
  protocol_text := .intro (by decide) (forall_mem_of_all (by decide))
  version_text := .intro CanonicalRequest.getSlash.version_digit
    CanonicalRequest.getSlash.version_chars

/-- **When a change of whitespace keeps the parsed request**: for every accepted message, exactly
when it leaves what is in front of the method and of the protocol as it is, leaves no colon directly
before a CR, and keeps the blanks that the last header with each key shows. -/
theorem respaced_iff {msg : Bytes} {ctx : HttpContext}
    (h : HttpContext.paraseRequest {} msg = .ok (ctx, true)) :
    (∃ q : SpacedRequest, q.bytes = msg) ∧
    ∀ q q' : SpacedRequest, q.bytes = msg → q.Respaced q' →
      (HttpContext.paraseRequest {} q'.bytes = .ok (ctx, true) ↔ q.SameShown q') := by
  refine ⟨exists_spacedRequest h, ?_⟩
  rintro q q' rfl hres
  have hq := SpacedRequest.filled_of_ok h
  rw [SpacedRequest.paraseRequest_of_filled hq] at h
  rw [← hres.paraseRequest_iff hq, h]

/-- The blanks of a header line that a later one replaces do not matter. -/
theorem respaced_replaced_line : ∃ ctx,
    HttpContext.paraseRequest {}
      (SpacedRequest.getSlash [] (by simp) [.xLine 2, .xLine 1]).bytes = .ok (ctx, true) ∧
    HttpContext.paraseRequest {}
      (SpacedRequest.getSlash [] (by simp) [.xLine 0, .xLine 1]).bytes = .ok (ctx, true) := by
  have hline : ∀ n, (HeaderLine.xLine n).raw ≠ [] := by
    intro n h
    cases (List.append_eq_nil_iff.mp h).2
  have hq : (SpacedRequest.getSlash [] (by simp) [.xLine 2, .xLine 1]).Filled := by
    intro l hl
    rcases List.mem_pair.mp hl with rfl | rfl <;> exact hline _
  have hok := SpacedRequest.paraseRequest_of_filled hq
  have hres : (SpacedRequest.getSlash [] (by simp) [.xLine 2, .xLine 1]).Respaced
      (SpacedRequest.getSlash [] (by simp) [.xLine 0, .xLine 1]) :=
    ⟨rfl, rfl, rfl, rfl, rfl, rfl, .cons ⟨rfl, rfl⟩ (.cons ⟨rfl, rfl⟩ .nil), rfl⟩
  refine ⟨_, hok, ((respaced_iff hok).2 _ _ rfl hres).mpr ⟨rfl, rfl, ?_, ?_⟩⟩
  · intro l hl
    rcases List.mem_pair.mp hl with rfl | rfl <;> exact Or.inr (List.cons_ne_nil _ _)
  · intro key l hl l' hl'
    -- both last lines are the second ones
    have hlast : ∀ n, HeaderLine.lastWith key [.xLine n, .xLine 1] =
        HeaderLine.lastWith key [.xLine 1] := by
      intro n
      by_cases hk : ofString "X" = key <;> simp [HeaderLine.lastWith, HeaderLine.xLine, hk]
    simp only [SpacedRequest.getSlash, hlast, Option.mem_def] at hl hl'
    obtain rfl : l = l' := Option.some.inj (hl.symm.trans hl')
    exact ⟨Iff.rfl, rfl⟩

/-- An empty line in front of a request becomes part of its method. -/
theorem not_respaced :
    ¬ ∀ (q q' : SpacedRequest) (ctx : HttpContext),
      HttpContext.paraseRequest {} q.bytes = .ok (ctx, true) → q.Respaced q' →
      HttpContext.paraseRequest {} q'.bytes = .ok (ctx, true) := by
  intro h
  let q := SpacedRequest.getSlash [] (by simp) []
  let q' := SpacedRequest.getSlash [CR, LF] (by simp [IsLead]) []
  have hq : q.Filled := fun l hl => by cases hl
  have hres : q.Respaced q' := ⟨rfl, rfl, rfl, rfl, rfl, rfl, .nil, rfl⟩
  have hok := h q q' _ (SpacedRequest.paraseRequest_of_filled hq) hres
  have hshown := (hres.paraseRequest_iff hq).mp hok
  cases hshown.lead

end CppServerStudio
