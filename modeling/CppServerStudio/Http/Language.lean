import CppServerStudio.Http.Isolation
import CppServerStudio.Library.Languages

/-!
# The accepted language of the parser

The language of request heads, as a product of token languages. A call on a fresh parser accepts a
message exactly when a prefix of it is a head, unless a header line has its colon directly before
the CR.

## Main definitions

* `requestLanguage`: the heads of requests, with their blank line
* `EmptyHeaderValue s`: a header line of `s` has its colon directly before the CR

## Main results

* `Reads.mem_prefixLanguage`, `exists_reads`: derived texts, and the words of the language
* `accepts_iff_request`: the accepted language
-/

open scoped Computability

namespace CppServerStudio

open Scanning Language

/-! ## The tokens -/

def leadLanguage : Language Byte := (oneOf IsLead)∗

def methodLanguage : Language Byte := oneOf (fun ch => isUpper ch) * (oneOf fun ch => isUpper ch)∗

def blankLanguage : Language Byte := oneOf fun ch => isBlank ch

def urlLanguage : Language Byte := (oneOf IsUrlChar)∗

/-- A key begins with no blank, CR or LF, and goes on without `=` or blanks. -/
def keyLanguage : Language Byte :=
  oneOf (fun ch => ¬ (isBlank ch ∨ ch = CR ∨ ch = LF)) *
    (oneOf fun ch => ch ≠ ascii '=' ∧ ¬ isBlank ch)∗

/-- A value begins with no blank, CR or LF, and goes on without `&` or blanks. -/
def valueLanguage : Language Byte :=
  oneOf (fun ch => ¬ (isBlank ch ∨ ch = LF ∨ ch = CR)) *
    (oneOf fun ch => ch ≠ ascii '&' ∧ ¬ isBlank ch)∗

def pairLanguage : Language Byte := keyLanguage * word [ascii '='] * valueLanguage

/-- A `?`, and one or more pairs with `&` between them. -/
def queryLanguage : Language Byte :=
  word [ascii '?'] * (pairLanguage * word [ascii '&'])∗ * pairLanguage

/-- A protocol is one byte that is no blank, and then bytes other than `/`. -/
def protocolLanguage : Language Byte :=
  oneOf (fun ch => ¬ isBlank ch) * (oneOf fun ch => ch ≠ ascii '/')∗

def versionLanguage : Language Byte :=
  oneOf (fun ch => isDigit ch) * (oneOf fun ch => isDigit ch ∨ ch = ascii '.')∗

def headerKeyLanguage : Language Byte :=
  oneOf (fun ch => ch ≠ CR ∧ ¬ isBlank ch) * (oneOf fun ch => ch ≠ ascii ':')∗

def headerLineLanguage : Language Byte :=
  headerKeyLanguage * word [ascii ':'] * (oneOf fun ch => ch ≠ CR)∗ * word [CR, LF]

/-- The request line, which ends with CR and LF. -/
def requestLineLanguage : Language Byte :=
  leadLanguage * methodLanguage * blankLanguage * urlLanguage * (1 + queryLanguage) *
    blankLanguage * (oneOf fun ch => isBlank ch)∗ * protocolLanguage * word [ascii '/'] *
    versionLanguage * word [CR, LF]

/-- **The heads of requests**: a request line, header lines, and the blank line. -/
def requestLanguage : Language Byte :=
  requestLineLanguage * headerLineLanguage∗ * word [CR, LF]

/-- A header line of `s`, behind its request line and other header lines, has its colon directly
before the CR. -/
def EmptyHeaderValue (s : Bytes) : Prop :=
  ∃ p ∈ requestLineLanguage * headerLineLanguage∗, ∃ k ∈ headerKeyLanguage,
    p ++ k ++ [ascii ':', CR] <+: s

/-! ## Derived texts are words -/

/-- The words that bring the parser to the start of a token. -/
def prefixLanguage : HttpRequestParaseState → Language Byte
  | .inUrl => leadLanguage * methodLanguage * blankLanguage
  | .beforeUrlParamKey => leadLanguage * methodLanguage * blankLanguage * urlLanguage *
      (word [ascii '?'] * (pairLanguage * word [ascii '&'])∗)
  | .beforeProtocol => leadLanguage * methodLanguage * blankLanguage * urlLanguage *
      (1 + queryLanguage) * blankLanguage
  | .beforeVersion => leadLanguage * methodLanguage * blankLanguage * urlLanguage *
      (1 + queryLanguage) * blankLanguage * (oneOf fun ch => isBlank ch)∗ * protocolLanguage *
      word [ascii '/']
  | .crLf => requestLineLanguage * headerLineLanguage∗
  | _ => 0

theorem mem_keyLanguage {k : Bytes} : k ∈ keyLanguage ↔ KeyText k := by
  rw [keyLanguage, mem_oneOf_mul_kstar]
  constructor
  · rintro ⟨x, xs, rfl, hx, hxs⟩
    exact ⟨hx, hxs⟩
  · rintro ⟨hx, hxs⟩
    exact ⟨_, _, rfl, hx, hxs⟩

theorem mem_valueLanguage {v : Bytes} : v ∈ valueLanguage ↔ ValueText v := by
  rw [valueLanguage, mem_oneOf_mul_kstar]
  constructor
  · rintro ⟨x, xs, rfl, hx, hxs⟩
    exact ⟨hx, hxs⟩
  · rintro ⟨hx, hxs⟩
    exact ⟨_, _, rfl, hx, hxs⟩

theorem mem_protocolLanguage {t : Bytes} : t ∈ protocolLanguage ↔ ProtocolText t := by
  rw [protocolLanguage, mem_oneOf_mul_kstar]
  constructor
  · rintro ⟨x, xs, rfl, hx, hxs⟩
    exact ⟨hx, hxs⟩
  · rintro ⟨hx, hxs⟩
    exact ⟨_, _, rfl, hx, hxs⟩

theorem mem_versionLanguage {v : Bytes} : v ∈ versionLanguage ↔ VersionText v := by
  rw [versionLanguage, mem_oneOf_mul_kstar]
  constructor
  · rintro ⟨x, xs, rfl, hx, hxs⟩
    exact ⟨hx, hxs⟩
  · rintro ⟨hx, hxs⟩
    exact ⟨_, _, rfl, hx, hxs⟩

theorem mem_headerKeyLanguage {k : Bytes} : k ∈ headerKeyLanguage ↔ HeaderKeyText k := by
  rw [headerKeyLanguage, mem_oneOf_mul_kstar]
  constructor
  · rintro ⟨x, xs, rfl, hx, hxs⟩
    exact ⟨hx, hxs⟩
  · rintro ⟨hx, hxs⟩
    exact ⟨_, _, rfl, hx, hxs⟩

theorem singleton_mem_blankLanguage {b : Byte} (hb : isBlank b) : [b] ∈ blankLanguage :=
  ⟨b, hb, rfl⟩

theorem mem_pairLanguage {k v : Bytes} (hk : KeyText k) (hv : ValueText v) :
    k ++ ascii '=' :: v ∈ pairLanguage := by
  have h := append_mem_mul (append_mem_mul (mem_keyLanguage.mpr hk) (self_mem_word [ascii '=']))
    (mem_valueLanguage.mpr hv)
  rwa [List.append_assoc, List.singleton_append] at h

/-- **The texts that the parser reads are words.** -/
theorem Reads.mem_prefixLanguage {st : HttpRequestParaseState} {p : Bytes} {fs : List Setter}
    (h : Reads st p fs) : p ∈ prefixLanguage st := by
  -- Induction on the derivation: a rule appends the word of a token and the byte behind it.
  induction h with
  | @method lead m b hlead hne hm hb =>
    obtain ⟨x, xs, rfl⟩ := List.exists_cons_of_ne_nil hne
    have hm' : x :: xs ∈ methodLanguage := mem_oneOf_mul_kstar.mpr
      ⟨x, xs, rfl, hm x (by simp), fun y hy => hm y (by simp [hy])⟩
    exact append_mem_mul (append_mem_mul (mem_kstar_oneOf.mpr hlead) hm')
      (singleton_mem_blankLanguage hb)
  | @query p u fs h hu ih =>
    have hmark := append_mem_mul (self_mem_word [ascii '?'])
      (nil_mem_kstar (pairLanguage * word [ascii '&']))
    exact append_mem_mul (append_mem_mul ih (mem_kstar_oneOf.mpr hu)) hmark
  | @url p u fs b h hu hb ih =>
    have hu' := append_mem_mul ih (mem_kstar_oneOf.mpr hu)
    have hnone := append_mem_mul hu' ((mem_add 1 queryLanguage []).mpr (Or.inl nil_mem_one))
    rw [List.append_nil] at hnone
    exact append_mem_mul hnone (singleton_mem_blankLanguage hb)
  | @param p k v fs h hk hv ih =>
    obtain ⟨a, ha, q, hq, rfl⟩ := mem_mul.mp ih
    have hpair := append_mem_mul (mem_pairLanguage hk hv)
      (self_mem_word [ascii '&'])
    have h := append_mem_mul ha (append_mem_mul_kstar hq hpair)
    simpa only [List.append_assoc, prefixLanguage] using h
  | @lastParam p k v fs b h hk hv hb ih =>
    obtain ⟨a, ha, q, hq, rfl⟩ := mem_mul.mp ih
    have hquery : q ++ (k ++ ascii '=' :: v) ∈ queryLanguage :=
      append_mem_mul hq (mem_pairLanguage hk hv)
    have h := append_mem_mul (append_mem_mul ha ((mem_add 1 queryLanguage _).mpr (Or.inr hquery)))
      (singleton_mem_blankLanguage hb)
    simpa only [List.append_assoc, prefixLanguage] using h
  | @protocol p s t fs h hs ht ih =>
    have hprotocol := append_mem_mul (append_mem_mul ih (mem_kstar_oneOf.mpr hs))
      (mem_protocolLanguage.mpr ht)
    have h := append_mem_mul hprotocol (self_mem_word [ascii '/'])
    rwa [List.append_assoc p] at h
  | @version p v fs h hv ih =>
    have hline : p ++ v ++ [CR, LF] ∈ requestLineLanguage :=
      append_mem_mul (append_mem_mul ih (mem_versionLanguage.mpr hv)) (self_mem_word [CR, LF])
    have h := append_mem_mul hline (nil_mem_kstar headerLineLanguage)
    rwa [List.append_nil] at h
  | @header p k raw fs h hk hne hraw ih =>
    have hcolon := append_mem_mul (mem_headerKeyLanguage.mpr hk) (self_mem_word [ascii ':'])
    have hline : k ++ [ascii ':'] ++ raw ++ [CR, LF] ∈ headerLineLanguage :=
      append_mem_mul (append_mem_mul hcolon (mem_kstar_oneOf.mpr hraw)) (self_mem_word [CR, LF])
    have h := append_mem_mul_kstar ih hline
    simpa only [List.append_assoc, List.singleton_append, prefixLanguage] using h

/-! ## Words are derived texts -/

/-- The words in front of a url. -/
theorem exists_reads_inUrl {p : Bytes} (h : p ∈ leadLanguage * methodLanguage * blankLanguage) :
    ∃ fs, Reads .inUrl p fs := by
  obtain ⟨_, ⟨lead, hlead, m, hm, rfl⟩, _, ⟨b, hb, rfl⟩, rfl⟩ := h
  obtain ⟨x, xs, rfl, hx, hxs⟩ := mem_oneOf_mul_kstar.mp hm
  refine ⟨_, .method (mem_kstar_oneOf.mp hlead) (by simp) ?_ hb⟩
  simpa using ⟨hx, hxs⟩

theorem exists_of_mem_pairLanguage {w : Bytes} (h : w ∈ pairLanguage) :
    ∃ k v, w = k ++ ascii '=' :: v ∧ KeyText k ∧ ValueText v := by
  obtain ⟨_, ⟨k, hk, _, rfl, rfl⟩, v, hv, rfl⟩ := h
  refine ⟨k, v, ?_, mem_keyLanguage.mp hk, mem_valueLanguage.mp hv⟩
  simp

/-- The pairs of a query, each with the `&` behind it. -/
theorem exists_reads_pairs {p u q : Bytes} {fs : List Setter} (hp : Reads .inUrl p fs)
    (hu : ∀ ch ∈ u, IsUrlChar ch)
    (hq : q ∈ word [ascii '?'] * (pairLanguage * word [ascii '&'])∗) :
    ∃ fs', Reads .beforeUrlParamKey (p ++ u ++ q) fs' := by
  apply mul_kstar_induction (R := fun q => ∃ fs', Reads .beforeUrlParamKey (p ++ u ++ q) fs') _ _ hq
  · rintro _ rfl
    exact ⟨_, .query hp hu⟩
  · rintro q _ - ⟨fs', hq⟩ ⟨w, hw, _, rfl, rfl⟩
    obtain ⟨k, v, rfl, hk, hv⟩ := exists_of_mem_pairLanguage hw
    have h := hq.param hk hv
    simp only [List.append_assoc] at h ⊢
    exact ⟨_, h⟩

/-- The words in front of a protocol. -/
theorem exists_reads_beforeProtocol {p : Bytes} (h : p ∈ prefixLanguage .beforeProtocol) :
    ∃ fs, Reads .beforeProtocol p fs := by
  obtain ⟨_, ⟨_, ⟨p, hp, u, hu, rfl⟩, q, hq, rfl⟩, _, ⟨b, hb, rfl⟩, rfl⟩ := h
  obtain ⟨fs, hp⟩ := exists_reads_inUrl hp
  have hu' := mem_kstar_oneOf.mp hu
  rcases (mem_add _ _ _).mp hq with hnil | hquery
  · obtain rfl := (mem_one q).mp hnil
    simp only [List.append_nil]
    exact ⟨_, hp.url hu' hb⟩
  · obtain ⟨pairs, hpairs, w, hw, rfl⟩ := hquery
    obtain ⟨k, v, rfl, hk, hv⟩ := exists_of_mem_pairLanguage hw
    obtain ⟨fs', hread⟩ := exists_reads_pairs hp hu' hpairs
    have h := hread.lastParam hk hv hb
    simp only [List.append_assoc] at h ⊢
    exact ⟨_, h⟩

/-- A request line. -/
theorem exists_reads_requestLine {p : Bytes} (h : p ∈ requestLineLanguage) :
    ∃ fs, Reads .crLf p fs := by
  obtain ⟨_, ⟨_, ⟨_, ⟨_, ⟨p, hp, s, hs, rfl⟩, t, ht, rfl⟩, _, rfl, rfl⟩, v, hv, rfl⟩,
    _, rfl, rfl⟩ := h
  obtain ⟨fs, hp⟩ := exists_reads_beforeProtocol hp
  have hprotocol := hp.protocol (mem_kstar_oneOf.mp hs) (mem_protocolLanguage.mp ht)
  have h := hprotocol.version (mem_versionLanguage.mp hv)
  simp only [List.append_assoc] at h ⊢
  exact ⟨_, h⟩

/-- **Words in front of the blank line are derived texts**, in a message whose header values are
not empty. -/
theorem exists_reads {s p : Bytes} (hs : ¬ EmptyHeaderValue s)
    (hp : p ∈ requestLineLanguage * headerLineLanguage∗) (hpre : p <+: s) :
    ∃ fs, Reads .crLf p fs := by
  revert hpre
  apply mul_kstar_induction (R := fun p => p <+: s → ∃ fs, Reads .crLf p fs) _ _ hp
  · intro p hp _
    exact exists_reads_requestLine hp
  · rintro p _ hp ih ⟨_, ⟨_, ⟨k, hk, _, rfl, rfl⟩, raw, hraw, rfl⟩, _, rfl, rfl⟩ hpre
    obtain ⟨fs, hread⟩ := ih ((List.prefix_append _ _).trans hpre)
    -- the colon of an empty value would be directly before the CR
    have hne : raw ≠ [] := by
      rintro rfl
      apply hs
      refine ⟨p, hp, k, hk, ?_⟩
      apply List.IsPrefix.trans _ hpre
      simp
    have h := hread.header (mem_headerKeyLanguage.mp hk) hne (mem_kstar_oneOf.mp hraw)
    simp only [List.append_assoc, List.singleton_append] at h ⊢
    exact ⟨_, h⟩

/-- **The accepted language**: one call on a fresh parser returns `true` exactly when a prefix of
the message is the head of a request, for a message whose header values are not empty and whose
size fits an `int`. -/
theorem accepts_iff_request {s : Bytes} (hs : ¬ EmptyHeaderValue s) (hsize : s.length < 2 ^ 31) :
    (∃ ctx, HttpContext.paraseRequestString {} s = .ok (ctx, true)) ↔
      ∃ q ∈ requestLanguage, q <+: s := by
  rw [HttpContext.paraseRequestString_of_lt _ hsize]
  constructor
  · rintro ⟨ctx, hparse⟩
    obtain ⟨p, fs, rest, rfl, hp, -⟩ := paraseRequest_accepts_iff.mp hparse
    refine ⟨p ++ [CR, LF], ?_, List.prefix_append _ _⟩
    exact append_mem_mul hp.mem_prefixLanguage (self_mem_word [CR, LF])
  · rintro ⟨_, ⟨p, hp, _, rfl, rfl⟩, rest, rfl⟩
    have hpre : p <+: p ++ [CR, LF] ++ rest := by simp
    obtain ⟨fs, hread⟩ := exists_reads hs hp hpre
    exact ⟨_, paraseRequest_accepts_iff.mpr ⟨p, fs, rest, rfl, hread, rfl⟩⟩

/-- A header value is empty only where a CR stands behind a colon. -/
theorem not_emptyHeaderValue {s : Bytes} (h : ¬ [ascii ':', CR] <:+: s) : ¬ EmptyHeaderValue s := by
  rintro ⟨p, -, k, -, hpre⟩
  exact h ((List.suffix_append (p ++ k) [ascii ':', CR]).isInfix.trans hpre.isInfix)

/-- A head with a header, and a byte behind it. -/
theorem accepts_iff_request_host : ∃ q ∈ requestLanguage,
    q <+: ofString "GET /a?k=v HTTP/1.1\r\nHost: x\r\n\r\nb" := by
  have hs : ¬ EmptyHeaderValue (ofString "GET /a?k=v HTTP/1.1\r\nHost: x\r\n\r\nb") :=
    not_emptyHeaderValue (by decide)
  obtain ⟨ctx, hctx⟩ :=
    exists_accept (ofString "GET /a?k=v HTTP/1.1\r\nHost: x\r\n\r\nb") (by decide)
  exact (accepts_iff_request hs (by decide)).mp
    ⟨ctx, (HttpContext.paraseRequestString_of_lt {} (by decide)).trans hctx⟩

/-- The head of a request and a body that makes a message of more than `2 ^ 31` bytes. -/
def largeMessage : Bytes :=
  ofString "GET / HTTP/1.1\r\n\r\n" ++ List.replicate (2 ^ 31) (ascii 'a')

/-- The size of the message is cast to a negative `int`, and the call returns `false`. -/
theorem not_accepts_iff_request_large :
    ¬ ∀ s : Bytes, ¬ EmptyHeaderValue s →
      ((∃ ctx, HttpContext.paraseRequestString {} s = .ok (ctx, true)) ↔
        ∃ q ∈ requestLanguage, q <+: s) := by
  intro h
  have hlength : largeMessage.length = 18 + 2 ^ 31 := by
    have hhead : (ofString "GET / HTTP/1.1\r\n\r\n").length = 18 := by decide
    rw [largeMessage, List.length_append, hhead, List.length_replicate]
  -- no byte of the message is a colon
  have hs : ¬ EmptyHeaderValue largeMessage := by
    refine not_emptyHeaderValue fun hinfix => ?_
    have hcolon : ascii ':' ∈ largeMessage := hinfix.subset List.mem_cons_self
    rcases List.mem_append.mp hcolon with hmem | hmem
    · revert hmem
      decide
    · exact absurd (List.eq_of_mem_replicate hmem) (by decide)
  -- its front is the head of a request
  have hhead : ∃ q ∈ requestLanguage, q <+: largeMessage := by
    obtain ⟨ctx, hctx⟩ := exists_accept (ofString "GET / HTTP/1.1\r\n\r\n") (by decide)
    obtain ⟨p, fs, rest, hsplit, hp⟩ := exists_head_of_complete rfl hctx
    refine ⟨p ++ [CR, LF], append_mem_mul hp.mem_prefixLanguage (self_mem_word [CR, LF]), ?_⟩
    rw [largeMessage, hsplit, List.append_assoc]
    exact List.prefix_append _ _
  obtain ⟨ctx, hctx⟩ := (h largeMessage hs).mpr hhead
  have hfalse := @HttpContext.paraseRequestString_of_ge {} largeMessage
    (by rw [hlength]; norm_num) (by rw [hlength]; norm_num)
  rw [hctx] at hfalse
  exact absurd (Prod.mk.inj (Except.ok.inj hfalse)).2 (by decide)

end CppServerStudio
