import CppServerStudio.Http.Whitespace

/-!
# Line breaks in parsed fields

A field is echoed into the head of a response, so a CR or LF in it starts a line there. Each state
of the parser stops at bytes of its own, and several of them take a CR or LF for a byte of their
token.

## Main definitions

* `HttpRequest.LineFree`: no parsed field has a CR or LF
* `SpacedRequest.LineFree`: the text of a request has no CR or LF where the parser takes one for a
  byte of a token

## Main results

* `SpacedRequest.lineFree_readHead_iff`: the fields that are read from a text
* `lineFree_iff`: the accepted messages whose fields are free of line breaks
-/

namespace CppServerStudio

open Scanning CanonicalRequest

/-- No byte of a text is a CR or LF. -/
def NoLineBreak (s : Bytes) : Prop := ∀ ch ∈ s, ch ≠ CR ∧ ch ≠ LF

instance (s : Bytes) : Decidable (NoLineBreak s) :=
  decidable_of_iff (s.all fun ch => ch ≠ CR ∧ ch ≠ LF) <| by
    simp only [NoLineBreak, List.all_eq_true, decide_eq_true_eq]

/-- **No parsed field of a request has a line break.** -/
structure HttpRequest.LineFree (r : HttpRequest) : Prop where
  method : NoLineBreak r.method
  url : NoLineBreak r.url
  params : ∀ key value, r.requestParams[key]? = some value → NoLineBreak key ∧ NoLineBreak value
  protocol : NoLineBreak r.protocol
  version : NoLineBreak r.version
  headers : ∀ key value, r.headers[key]? = some value → NoLineBreak key ∧ NoLineBreak value

/-- **The text of a request has no line break inside a token**: none in front of the method, in the
url and in the protocol, none behind the first byte of a parameter key or value, none in a header
key, and no LF behind the first byte that follows the colon of a header. Parameters and headers
that a later one with their key replaces do not count. -/
structure SpacedRequest.LineFree (q : SpacedRequest) : Prop where
  lead : NoLineBreak q.lead
  url : NoLineBreak q.url
  params : ∀ key value : Bytes, (lastValues q.params)[key]? = some value →
    NoLineBreak key.tail ∧ NoLineBreak value.tail
  protocol : NoLineBreak q.protocol
  headers : ∀ key, ∀ l ∈ HeaderLine.lastWith key q.headers, NoLineBreak key ∧ LF ∉ l.raw.tail

/-! ## The line breaks that tokens take -/

theorem noLineBreak_append {s t : Bytes} :
    NoLineBreak (s ++ t) ↔ NoLineBreak s ∧ NoLineBreak t := by
  simp only [NoLineBreak, List.forall_mem_append]

theorem noLineBreak_cons {x : Byte} {s : Bytes} :
    NoLineBreak (x :: s) ↔ (x ≠ CR ∧ x ≠ LF) ∧ NoLineBreak s := List.forall_mem_cons

theorem noLineBreak_of_isUpper {m : Bytes} (hm : ∀ ch ∈ m, isUpper ch) : NoLineBreak m := by
  intro ch hch
  have h := not_isLead_of_isUpper (hm ch hch)
  exact ⟨fun hcr => h (Or.inl hcr), fun hlf => h (Or.inr (Or.inl hlf))⟩

theorem noLineBreak_of_isBlank {s : Bytes} (hs : ∀ ch ∈ s, isBlank ch) : NoLineBreak s := by
  intro ch hch
  have hb := hs ch hch
  constructor
  · rintro rfl
    cases hb
  · rintro rfl
    cases hb

/-- The parser compares the first byte of a parameter key with CR and LF, and no other. -/
theorem KeyText.noLineBreak_iff {key : Bytes} (h : KeyText key) :
    NoLineBreak key ↔ NoLineBreak key.tail := by
  obtain ⟨hx, -⟩ := h
  rw [noLineBreak_cons, List.tail_cons]
  exact and_iff_right ⟨fun hcr => hx (Or.inr (Or.inl hcr)), fun hlf => hx (Or.inr (Or.inr hlf))⟩

theorem ValueText.noLineBreak_iff {value : Bytes} (h : ValueText value) :
    NoLineBreak value ↔ NoLineBreak value.tail := by
  obtain ⟨hx, -⟩ := h
  rw [noLineBreak_cons, List.tail_cons]
  exact and_iff_right ⟨fun hcr => hx (Or.inr (Or.inr hcr)), fun hlf => hx (Or.inr (Or.inl hlf))⟩

theorem VersionText.noLineBreak {v : Bytes} (h : VersionText v) : NoLineBreak v := by
  obtain ⟨hx, hxs⟩ := h
  have hdigit : ∀ ch : Byte, isDigit ch ∨ ch = ascii '.' → ch ≠ CR ∧ ch ≠ LF := by
    rintro ch hch
    constructor <;> rintro rfl <;> revert hch <;> decide
  rw [noLineBreak_cons]
  exact ⟨hdigit _ (Or.inl hx), fun ch hch => hdigit ch (hxs ch hch)⟩

/-- A header value ends at its CR, so only an LF can be in it. -/
theorem HeaderLine.noLineBreak_iff (l : HeaderLine) :
    NoLineBreak l.raw.tail ↔ LF ∉ l.raw.tail := by
  constructor
  · exact fun h hlf => (h LF hlf).2 rfl
  · intro h ch hch
    refine ⟨l.raw_ne_CR ch (List.mem_of_mem_tail hch), ?_⟩
    rintro rfl
    exact h hch

namespace SpacedRequest

variable (q : SpacedRequest)

theorem noLineBreak_method : NoLineBreak q.readHead.method ↔ NoLineBreak q.lead := by
  rw [readHead, noLineBreak_append]
  exact and_iff_left (noLineBreak_of_isUpper q.method_upper)

theorem noLineBreak_protocol : NoLineBreak q.readHead.protocol ↔ NoLineBreak q.protocol := by
  rw [readHead, noLineBreak_append]
  exact and_iff_right (noLineBreak_of_isBlank q.extra_blank)

theorem noLineBreak_params {key value : Bytes} (h : (lastValues q.params)[key]? = some value) :
    NoLineBreak key ∧ NoLineBreak value ↔ NoLineBreak key.tail ∧ NoLineBreak value.tail := by
  obtain ⟨hkey, hvalue⟩ := q.params_text _ (mem_of_getElem?_lastValues h)
  rw [hkey.noLineBreak_iff, hvalue.noLineBreak_iff]

theorem noLineBreak_headers :
    (∀ key value, q.readHead.headers[key]? = some value → NoLineBreak key ∧ NoLineBreak value) ↔
      ∀ key, ∀ l ∈ HeaderLine.lastWith key q.headers, NoLineBreak key ∧ LF ∉ l.raw.tail := by
  apply forall_congr'
  intro key
  simp only [readHead, getElem?_lines, Option.map_eq_some_iff, Option.mem_def]
  constructor
  · intro h l hl
    rw [← l.noLineBreak_iff]
    exact h _ ⟨l, hl, rfl⟩
  · rintro h _ ⟨l, hl, rfl⟩
    rw [l.noLineBreak_iff]
    exact h l hl

/-- **The fields that are read are free of line breaks** exactly when the text is, inside its
tokens. -/
theorem lineFree_readHead_iff : q.readHead.LineFree ↔ q.LineFree := by
  constructor
  · intro h
    constructor
    · exact q.noLineBreak_method.mp h.method
    · exact h.url
    · exact fun key value hv => (q.noLineBreak_params hv).mp (h.params key value hv)
    · exact q.noLineBreak_protocol.mp h.protocol
    · exact q.noLineBreak_headers.mp h.headers
  · intro h
    constructor
    · exact q.noLineBreak_method.mpr h.lead
    · exact h.url
    · exact fun key value hv => (q.noLineBreak_params hv).mpr (h.params key value hv)
    · exact q.noLineBreak_protocol.mpr h.protocol
    · exact q.version_text.noLineBreak
    · exact q.noLineBreak_headers.mpr h.headers

end SpacedRequest

/-- The end of a call sets the body, which is no field of the head. -/
theorem HttpRequest.lineFree_finishHead (r : HttpRequest) (rest : Bytes) :
    (r.finishHead rest).LineFree ↔ r.LineFree := by
  rw [finishHead]
  split_ifs
  · rfl
  · constructor <;> rintro ⟨hm, hu, hps, hp, hv, hh⟩ <;> exact ⟨hm, hu, hps, hp, hv, hh⟩

/-- **When an accepted message gives fields without line breaks**: exactly when its text has none
inside a token. -/
theorem lineFree_iff {msg : Bytes} {ctx : HttpContext}
    (h : HttpContext.paraseRequest {} msg = .ok (ctx, true)) :
    (∃ q : SpacedRequest, q.bytes = msg) ∧
    ∀ q : SpacedRequest, q.bytes = msg → (ctx.request.LineFree ↔ q.LineFree) := by
  refine ⟨exists_spacedRequest h, ?_⟩
  rintro q rfl
  have hread := SpacedRequest.paraseRequest_of_filled (SpacedRequest.filled_of_ok h)
  rw [h, Except.ok.injEq, Prod.mk.injEq] at hread
  rw [hread.1, HttpRequest.lineFree_finishHead, q.lineFree_readHead_iff]

/-- A request with one header, `X: 1`. -/
theorem lineFree_getSlash : ∃ ctx,
    HttpContext.paraseRequest {} (SpacedRequest.getSlash [] (by simp) [.xLine 1]).bytes =
      .ok (ctx, true) ∧ ctx.request.LineFree := by
  have hq : (SpacedRequest.getSlash [] (by simp) [.xLine 1]).Filled := by
    intro l hl
    rw [List.mem_singleton.mp hl]
    exact List.cons_ne_nil _ _
  have hok := SpacedRequest.paraseRequest_of_filled hq
  refine ⟨_, hok, ((lineFree_iff hok).2 _ rfl).mpr ⟨by decide, by decide, ?_, by decide, ?_⟩⟩
  · intro key value h
    cases mem_of_getElem?_lastValues h
  · intro key l hl
    have hkey : l.key = key := by simpa using List.find?_some hl
    rw [List.mem_singleton.mp (HeaderLine.mem_of_mem_lastWith hl)] at hkey ⊢
    rw [← hkey]
    decide

/-- A url ends at a blank or a `?` and at nothing else, so it can hold a line of its own. -/
theorem not_lineFree :
    ¬ ∀ (msg : Bytes) (ctx : HttpContext),
      HttpContext.paraseRequest {} msg = .ok (ctx, true) → ctx.request.LineFree := by
  intro h
  obtain ⟨ctx, hctx⟩ := exists_accept (ofString "GET /a\r\nX:1 RTSP/1.0\r\n\r\n") (by decide)
  have hurl : (HttpContext.paraseRequest {} (ofString "GET /a\r\nX:1 RTSP/1.0\r\n\r\n")).map
      (·.1.request.url) = .ok (ofString "/a\r\nX:1") := by decide
  rw [hctx] at hurl
  replace hurl : ctx.request.url = ofString "/a\r\nX:1" := Except.ok.inj hurl
  have hfree := (h _ ctx hctx).url
  rw [hurl] at hfree
  exact (hfree CR (by decide)).1 rfl

end CppServerStudio
