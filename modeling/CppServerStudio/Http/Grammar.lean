import CppServerStudio.Http.CursorSafety

/-!
# The grammar of request heads

The texts that bring a fresh parser to the start of a token, with the setters it has called by
then. `Reads` says this without cursors, one rule for each token; the parser follows every
derivation, from any request it starts on and whatever stands behind the text.

## Main definitions

* `Setter`, `HttpRequest.applyAll`: the setters of a request, and their effect in order
* `Reads st p fs`: the text `p` brings the parser to the state `st` after the setters `fs`
* `finishHead`: the end of a call after the blank line

## Main results

* `Reads.run`: the loop follows a derivation
* `paraseRequest_head`: one call on a head and what stands behind it
-/

namespace CppServerStudio

open Scanning

/-- A setter of the request, with its arguments. -/
inductive Setter
  | method (m : Bytes)
  | url (u : Bytes)
  | param (key value : Bytes)
  | protocol (p : Bytes)
  | version (v : Bytes)
  | header (key value : Bytes)

def Setter.apply (r : HttpRequest) : Setter → HttpRequest
  | .method m => r.setMethod m
  | .url u => r.setUrl u
  | .param k v => r.setRequestParams k v
  | .protocol p => r.setProtocol p
  | .version v => r.setVersion v
  | .header k v => r.addHeader k v

/-- The effect of the setters `fs`, in order. -/
def HttpRequest.applyAll (r : HttpRequest) (fs : List Setter) : HttpRequest :=
  fs.foldl Setter.apply r

@[simp] theorem HttpRequest.applyAll_nil (r : HttpRequest) : r.applyAll [] = r := rfl

@[simp] theorem HttpRequest.applyAll_cons (r : HttpRequest) (f : Setter) (fs : List Setter) :
    r.applyAll (f :: fs) = (f.apply r).applyAll fs := rfl

@[simp] theorem HttpRequest.applyAll_append (r : HttpRequest) (fs gs : List Setter) :
    r.applyAll (fs ++ gs) = (r.applyAll fs).applyAll gs := List.foldl_append

/-! ## The tokens -/

/-- The bytes skipped in front of the method. -/
def IsLead (ch : Byte) : Prop := ch = CR ∨ ch = LF ∨ isBlank ch

/-- A character of a url. -/
def IsUrlChar (ch : Byte) : Prop := ch ≠ ascii '?' ∧ ¬ isBlank ch

/-- The text of a parameter key. Its first byte may be `=`. -/
inductive KeyText : Bytes → Prop
  | intro {x xs} (hx : ¬ (isBlank x ∨ x = CR ∨ x = LF))
      (hxs : ∀ ch ∈ xs, ch ≠ ascii '=' ∧ ¬ isBlank ch) : KeyText (x :: xs)

/-- The text of a parameter value. Its first byte may be `&`. -/
inductive ValueText : Bytes → Prop
  | intro {x xs} (hx : ¬ (isBlank x ∨ x = LF ∨ x = CR))
      (hxs : ∀ ch ∈ xs, ch ≠ ascii '&' ∧ ¬ isBlank ch) : ValueText (x :: xs)

/-- The text of a protocol. Its first byte may be `/`. -/
inductive ProtocolText : Bytes → Prop
  | intro {x xs} (hx : ¬ isBlank x) (hxs : ∀ ch ∈ xs, ch ≠ ascii '/') : ProtocolText (x :: xs)

inductive VersionText : Bytes → Prop
  | intro {x xs} (hx : isDigit x) (hxs : ∀ ch ∈ xs, isDigit ch ∨ ch = ascii '.') :
      VersionText (x :: xs)

/-- The text of a header key. Its first byte may be `:`. -/
inductive HeaderKeyText : Bytes → Prop
  | intro {x xs} (hx : x ≠ CR ∧ ¬ isBlank x) (hxs : ∀ ch ∈ xs, ch ≠ ascii ':') :
      HeaderKeyText (x :: xs)

/-- **The texts the parser reads**: `p` brings a fresh parser to the start of a token, in the state
`st`, and `fs` are the setters it has called. The method includes the bytes skipped in front of
it, the protocol the blanks in front of it, and a header value begins two bytes behind the
colon. -/
inductive Reads : HttpRequestParaseState → Bytes → List Setter → Prop
  | method {lead m : Bytes} {b : Byte} (hlead : ∀ ch ∈ lead, IsLead ch) (hne : m ≠ [])
      (hm : ∀ ch ∈ m, isUpper ch) (hb : isBlank b) :
      Reads .inUrl (lead ++ m ++ [b]) [.method (lead ++ m)]
  | query {p u : Bytes} {fs : List Setter} (h : Reads .inUrl p fs) (hu : ∀ ch ∈ u, IsUrlChar ch) :
      Reads .beforeUrlParamKey (p ++ u ++ [ascii '?']) (fs ++ [.url u])
  | url {p u : Bytes} {fs : List Setter} {b : Byte} (h : Reads .inUrl p fs)
      (hu : ∀ ch ∈ u, IsUrlChar ch) (hb : isBlank b) :
      Reads .beforeProtocol (p ++ u ++ [b]) (fs ++ [.url u])
  | param {p k v : Bytes} {fs : List Setter} (h : Reads .beforeUrlParamKey p fs)
      (hk : KeyText k) (hv : ValueText v) :
      Reads .beforeUrlParamKey (p ++ k ++ ascii '=' :: v ++ [ascii '&']) (fs ++ [.param k v])
  | lastParam {p k v : Bytes} {fs : List Setter} {b : Byte} (h : Reads .beforeUrlParamKey p fs)
      (hk : KeyText k) (hv : ValueText v) (hb : isBlank b) :
      Reads .beforeProtocol (p ++ k ++ ascii '=' :: v ++ [b]) (fs ++ [.param k v])
  | protocol {p s t : Bytes} {fs : List Setter} (h : Reads .beforeProtocol p fs)
      (hs : ∀ ch ∈ s, isBlank ch) (ht : ProtocolText t) :
      Reads .beforeVersion (p ++ (s ++ t) ++ [ascii '/']) (fs ++ [.protocol (s ++ t)])
  | version {p v : Bytes} {fs : List Setter} (h : Reads .beforeVersion p fs)
      (hv : VersionText v) :
      Reads .crLf (p ++ v ++ [CR, LF]) (fs ++ [.version v])
  | header {p k raw : Bytes} {fs : List Setter} (h : Reads .crLf p fs) (hk : HeaderKeyText k)
      (hne : raw ≠ []) (hraw : ∀ ch ∈ raw, ch ≠ CR) :
      Reads .crLf (p ++ k ++ ascii ':' :: raw ++ [CR, LF]) (fs ++ [.header k raw.tail])

/-! ## Spans and single turns of the loop -/

theorem not_isUpper_of_isBlank {b : Byte} (hb : isBlank b) : isUpper b = false := by
  simp only [isBlank, Bool.or_eq_true, beq_iff_eq] at hb
  rcases hb with rfl | rfl <;> decide

theorem not_isLead_of_isUpper {b : Byte} (hb : isUpper b) : ¬ IsLead b := by
  rintro (rfl | rfl | hl)
  · exact absurd hb (by decide)
  · exact absurd hb (by decide)
  · rw [not_isUpper_of_isBlank hl] at hb
    cases hb

section Takes

variable {msg : Bytes} {st st' : HttpRequestParaseState} {r r' : HttpRequest} {s s' n k k' : ℕ}

/-- The loop consumes `w` and goes from the cursors `c` to the cursors `c'`. -/
def Takes (msg w : Bytes) (c c' : ParseCursor) : Prop :=
  ∀ rest, paraseLoop msg (w ++ rest) c = paraseLoop msg rest c'

theorem Takes.trans {w v : Bytes} {c c' c'' : ParseCursor} (h : Takes msg w c c')
    (h' : Takes msg v c' c'') : Takes msg (w ++ v) c c'' := fun rest => by
  rw [List.append_assoc, h, h']

/-- One turn of the loop on a byte that the `switch` accepts. -/
theorem Takes.turn {ch : Byte} (hd : ParseCursor.done ⟨st, r, s, n, k⟩ = false)
    (h : paraseSwitch msg ch ⟨st, r, s, n, k⟩ = .ok ⟨st', r', s', n, k'⟩) :
    Takes msg [ch] ⟨st, r, s, n, k⟩ ⟨st', r', s', n + 1, k'⟩ := fun rest => by
  rw [List.singleton_append, paraseLoop, scan_cons_ok hd (t := ⟨st', r', s', n + 1, k'⟩)]
  rw [paraseStep, h, ok_bind]

/-- The loop crosses the bytes that leave the `switch` where it is. -/
theorem Takes.span {w : Bytes} (hd : ParseCursor.done ⟨st, r, s, n, k⟩ = false)
    (hstay : ∀ ch ∈ w, ∀ n, paraseSwitch msg ch ⟨st, r, s, n, k⟩ = .ok ⟨st, r, s, n, k⟩) :
    Takes msg w ⟨st, r, s, n, k⟩ ⟨st, r, s, n + w.length, k⟩ := fun rest => by
  have hstep : ∀ (v : Bytes) (ch : Byte),
      (∀ n, paraseSwitch msg ch ⟨st, r, s, n, k⟩ = .ok ⟨st, r, s, n, k⟩) →
      paraseStep msg ch ⟨st, r, s, n + v.length, k⟩ =
        .ok ⟨st, r, s, n + (v ++ [ch]).length, k⟩ := by
    intro v ch hch
    simp [paraseStep, hch, Nat.add_assoc]
  have hstop : ∀ v : Bytes, ParseCursor.done ⟨st, r, s, n + v.length, k⟩ = false := fun _ => hd
  have h :=
    scan_span (f := fun v : Bytes => (⟨st, r, s, n + v.length, k⟩ : ParseCursor)) hstop hstep
      hstay [] rest
  simpa [paraseLoop] using h

/-- A token whose first byte enters the state that its other bytes leave where it is. -/
theorem Takes.token {x : Byte} {xs : Bytes} (hd : ParseCursor.done ⟨st, r, s, n, k⟩ = false)
    (hd' : ParseCursor.done ⟨st', r, s, n, k⟩ = false)
    (hx : paraseSwitch msg x ⟨st, r, s, n, k⟩ = .ok ⟨st', r, s, n, k⟩)
    (hxs : ∀ ch ∈ xs, ∀ n, paraseSwitch msg ch ⟨st', r, s, n, k⟩ = .ok ⟨st', r, s, n, k⟩) :
    Takes msg (x :: xs) ⟨st, r, s, n, k⟩ ⟨st', r, s, n + (x :: xs).length, k⟩ := by
  have h := (Takes.turn hd hx).trans (Takes.span (n := n + 1) hd' hxs)
  rwa [List.length_cons, Nat.add_comm xs.length 1, ← Nat.add_assoc]

/-! The spans of the single tokens. -/

theorem takes_method {m : Bytes} (hne : m ≠ []) (hm : ∀ ch ∈ m, isUpper ch) :
    Takes msg m ⟨.start, r, s, n, k⟩ ⟨.method, r, s, n + m.length, k⟩ := by
  obtain ⟨x, xs, rfl⟩ := List.exists_cons_of_ne_nil hne
  have hx := not_isLead_of_isUpper (hm x (by simp))
  simp only [IsLead] at hx
  refine Takes.token rfl rfl ?_ fun ch hch n => ?_
  · simp only [paraseSwitch, if_neg hx, hm x (by simp), if_true]
  · simp [paraseSwitch, hm ch (by simp [hch])]

theorem takes_lead {lead : Bytes} (hlead : ∀ ch ∈ lead, IsLead ch) :
    Takes msg lead ⟨.start, r, s, n, k⟩ ⟨.start, r, s, n + lead.length, k⟩ :=
  Takes.span rfl fun ch hch n => by
    have hl := hlead ch hch
    simp only [IsLead] at hl
    simp [paraseSwitch, hl]

theorem takes_url {u : Bytes} (hu : ∀ ch ∈ u, IsUrlChar ch) :
    Takes msg u ⟨.inUrl, r, s, n, k⟩ ⟨.inUrl, r, s, n + u.length, k⟩ :=
  Takes.span rfl fun ch hch n => by simp [paraseSwitch, (hu ch hch).1, (hu ch hch).2]

theorem takes_key {key : Bytes} (h : KeyText key) :
    Takes msg key ⟨.beforeUrlParamKey, r, s, n, k⟩ ⟨.urlParamKey, r, s, n + key.length, k⟩ := by
  obtain ⟨hx, hxs⟩ := h
  refine Takes.token rfl rfl ?_ fun ch hch n => ?_
  · simp only [paraseSwitch, if_neg hx]
  · simp [paraseSwitch, (hxs ch hch).1, (hxs ch hch).2]

theorem takes_value {v : Bytes} (h : ValueText v) :
    Takes msg v ⟨.beforeUrlParamValue, r, s, n, k⟩ ⟨.urlParamValue, r, s, n + v.length, k⟩ := by
  obtain ⟨hx, hxs⟩ := h
  refine Takes.token rfl rfl ?_ fun ch hch n => ?_
  · simp only [paraseSwitch, if_neg hx]
  · simp [paraseSwitch, (hxs ch hch).1, (hxs ch hch).2]

/-- A parameter up to the byte behind its value: `colon` is at its `=`. -/
theorem takes_param {key v : Bytes} (hk : KeyText key) (hv : ValueText v) :
    Takes msg (key ++ ascii '=' :: v) ⟨.beforeUrlParamKey, r, s, n, k⟩
      ⟨.urlParamValue, r, s, n + key.length + 1 + v.length, n + key.length⟩ := by
  have hcolon : Takes msg [ascii '='] ⟨.urlParamKey, r, s, n + key.length, k⟩
      ⟨.beforeUrlParamValue, r, s, n + key.length + 1, n + key.length⟩ :=
    Takes.turn rfl (by simp [paraseSwitch])
  exact (takes_key hk).trans (hcolon.trans (takes_value hv))

theorem takes_protocol {b t : Bytes} (hb : ∀ ch ∈ b, isBlank ch) (ht : ProtocolText t) :
    Takes msg (b ++ t) ⟨.beforeProtocol, r, s, n, k⟩
      ⟨.protocol, r, s, n + (b ++ t).length, k⟩ := by
  obtain ⟨hx, hxs⟩ := ht
  have h₁ : Takes msg b ⟨.beforeProtocol, r, s, n, k⟩ ⟨.beforeProtocol, r, s, n + b.length, k⟩ :=
    Takes.span rfl fun ch hch n => by simp [paraseSwitch, hb ch hch]
  rw [List.length_append, ← Nat.add_assoc]
  refine h₁.trans (Takes.token rfl rfl ?_ fun ch hch n => ?_)
  · simp [paraseSwitch, hx]
  · simp [paraseSwitch, hxs ch hch]

theorem takes_version {v : Bytes} (h : VersionText v) :
    Takes msg v ⟨.beforeVersion, r, s, n, k⟩ ⟨.version, r, s, n + v.length, k⟩ := by
  obtain ⟨hx, hxs⟩ := h
  refine Takes.token rfl rfl ?_ fun ch hch n => ?_
  · simp [paraseSwitch, hx]
  · have hcr : ch ≠ CR := by
      rintro rfl
      rcases hxs CR hch with h | h <;> revert h <;> decide
    simp [paraseSwitch, hcr, hxs ch hch]

theorem takes_headerKey {key : Bytes} (h : HeaderKeyText key) :
    Takes msg key ⟨.crLf, r, s, n, k⟩ ⟨.headerKey, r, s, n + key.length, k⟩ := by
  obtain ⟨hx, hxs⟩ := h
  refine Takes.token rfl rfl ?_ fun ch hch n => ?_
  · simp [paraseSwitch, hx.1, hx.2]
  · simp [paraseSwitch, hxs ch hch]

/-- A header line up to its CR: `colon` is at its `:`. -/
theorem takes_header {key raw : Bytes} (hk : HeaderKeyText key) (hraw : ∀ ch ∈ raw, ch ≠ CR) :
    Takes msg (key ++ ascii ':' :: raw) ⟨.crLf, r, s, n, k⟩
      ⟨.headerValue, r, s, n + key.length + 1 + raw.length, n + key.length⟩ := by
  have hcolon : Takes msg [ascii ':'] ⟨.headerKey, r, s, n + key.length, k⟩
      ⟨.headerValue, r, s, n + key.length + 1, n + key.length⟩ :=
    Takes.turn rfl (by simp [paraseSwitch])
  refine (takes_headerKey hk).trans (hcolon.trans (Takes.span rfl fun ch hch n => ?_))
  simp [paraseSwitch, hraw ch hch]

/-! The bytes that end a token, given the ranges they cut out. -/

theorem takes_methodEnd {b : Byte} {m : Bytes} (hb : isBlank b)
    (hcut : stdString msg s n = .ok m) :
    Takes msg [b] ⟨.method, r, s, n, k⟩ ⟨.inUrl, r.setMethod m, n + 1, n + 1, k⟩ :=
  Takes.turn rfl (by simp [paraseSwitch, not_isUpper_of_isBlank hb, hb, hcut])

theorem takes_query {u : Bytes} (hcut : stdString msg s n = .ok u) :
    Takes msg [ascii '?'] ⟨.inUrl, r, s, n, k⟩ ⟨.beforeUrlParamKey, r.setUrl u, n + 1, n + 1, k⟩ :=
  Takes.turn rfl (by simp [paraseSwitch, hcut])

theorem takes_urlEnd {b : Byte} {u : Bytes} (hb : isBlank b) (hcut : stdString msg s n = .ok u) :
    Takes msg [b] ⟨.inUrl, r, s, n, k⟩ ⟨.beforeProtocol, r.setUrl u, n + 1, n + 1, k⟩ := by
  have hq : b ≠ ascii '?' := by rintro rfl; revert hb; decide
  exact Takes.turn rfl (by simp [paraseSwitch, hq, hb, hcut])

theorem takes_paramEnd {key v : Bytes} (hkey : stdString msg s k = .ok key)
    (hv : stdString msg (k + 1) n = .ok v) :
    Takes msg [ascii '&'] ⟨.urlParamValue, r, s, n, k⟩
      ⟨.beforeUrlParamKey, r.setRequestParams key v, n + 1, n + 1, k⟩ :=
  Takes.turn rfl (by simp [paraseSwitch, hkey, hv])

theorem takes_lastParamEnd {b : Byte} {key v : Bytes} (hb : isBlank b)
    (hkey : stdString msg s k = .ok key) (hv : stdString msg (k + 1) n = .ok v) :
    Takes msg [b] ⟨.urlParamValue, r, s, n, k⟩
      ⟨.beforeProtocol, r.setRequestParams key v, n + 1, n + 1, k⟩ := by
  have hq : b ≠ ascii '&' := by rintro rfl; revert hb; decide
  exact Takes.turn rfl (by simp [paraseSwitch, hq, hb, hkey, hv])

theorem takes_protocolEnd {t : Bytes} (hcut : stdString msg s n = .ok t) :
    Takes msg [ascii '/'] ⟨.protocol, r, s, n, k⟩
      ⟨.beforeVersion, r.setProtocol t, n + 1, n + 1, k⟩ :=
  Takes.turn rfl (by simp [paraseSwitch, hcut])

theorem takes_versionEnd {v : Bytes} (hcut : stdString msg s n = .ok v) :
    Takes msg [CR] ⟨.version, r, s, n, k⟩ ⟨.whenCr, r.setVersion v, n + 1, n + 1, k⟩ :=
  Takes.turn rfl (by simp [paraseSwitch, hcut])

theorem takes_headerEnd {key v : Bytes} (hkey : stdString msg s k = .ok key)
    (hv : stdString msg (k + 2) n = .ok v) :
    Takes msg [CR] ⟨.headerValue, r, s, n, k⟩ ⟨.whenCr, r.addHeader key v, n + 1, n + 1, k⟩ :=
  Takes.turn rfl (by simp [paraseSwitch, isBlank_CR, hkey, hv])

/-- The LF behind the CR that has cut off the last token of a line. -/
theorem takes_lf : Takes msg [LF] ⟨.whenCr, r, s, n, k⟩ ⟨.crLf, r, n + 1, n + 1, k⟩ :=
  Takes.turn rfl (by simp [paraseSwitch])

end Takes

/-- A token in the middle of a message is cut out by the offsets of its ends. -/
theorem stdString_token {m p t q : Bytes} (h : m = p ++ t ++ q) {i j : ℕ}
    (hi : i = p.length) (hj : j = p.length + t.length) : stdString m i j = .ok t := by
  subst h hi hj
  rw [stdString_ok _ (by omega) (by simp)]
  simp

/-! ## One token -/

section Tokens

variable {r : HttpRequest} {k : ℕ} {p q : Bytes}

theorem takes_methodToken {lead m : Bytes} {b : Byte} (hlead : ∀ ch ∈ lead, IsLead ch)
    (hne : m ≠ []) (hm : ∀ ch ∈ m, isUpper ch) (hb : isBlank b) :
    Takes (lead ++ m ++ [b] ++ q) (lead ++ m ++ [b]) ⟨.start, r, 0, 0, k⟩
      ⟨.inUrl, r.setMethod (lead ++ m), (lead ++ m ++ [b]).length, (lead ++ m ++ [b]).length,
        k⟩ := by
  have hcut := stdString_token (m := lead ++ m ++ [b] ++ q) (p := []) (t := lead ++ m)
    (q := [b] ++ q) (by simp) rfl (j := 0 + lead.length + m.length) (by simp)
  convert ((takes_lead hlead).trans (takes_method hne hm)).trans (takes_methodEnd hb hcut)
    using 2 <;> simp <;> omega

theorem takes_queryToken {u : Bytes} (hu : ∀ ch ∈ u, IsUrlChar ch) :
    Takes (p ++ (u ++ [ascii '?']) ++ q) (u ++ [ascii '?']) ⟨.inUrl, r, p.length, p.length, k⟩
      ⟨.beforeUrlParamKey, r.setUrl u, (p ++ (u ++ [ascii '?'])).length,
        (p ++ (u ++ [ascii '?'])).length, k⟩ := by
  have hcut := stdString_token (m := p ++ (u ++ [ascii '?']) ++ q) (p := p) (t := u)
    (q := [ascii '?'] ++ q) (by simp) rfl rfl
  convert (takes_url hu).trans (takes_query hcut) using 2 <;> simp <;> omega

theorem takes_urlToken {u : Bytes} {b : Byte} (hu : ∀ ch ∈ u, IsUrlChar ch) (hb : isBlank b) :
    Takes (p ++ (u ++ [b]) ++ q) (u ++ [b]) ⟨.inUrl, r, p.length, p.length, k⟩
      ⟨.beforeProtocol, r.setUrl u, (p ++ (u ++ [b])).length, (p ++ (u ++ [b])).length, k⟩ := by
  have hcut := stdString_token (m := p ++ (u ++ [b]) ++ q) (p := p) (t := u)
    (q := [b] ++ q) (by simp) rfl rfl
  convert (takes_url hu).trans (takes_urlEnd hb hcut) using 2 <;> simp <;> omega

/-- The two texts that are cut out of a parameter, whatever ends its value. -/
theorem stdString_param (p key v q : Bytes) (b : Byte) :
    stdString (p ++ (key ++ ascii '=' :: v ++ [b]) ++ q) p.length (p.length + key.length) =
        .ok key ∧
      stdString (p ++ (key ++ ascii '=' :: v ++ [b]) ++ q) (p.length + key.length + 1)
        (p.length + key.length + 1 + v.length) = .ok v :=
  ⟨stdString_token (p := p) (q := ascii '=' :: v ++ [b] ++ q) (by simp) rfl rfl,
    stdString_token (p := p ++ key ++ [ascii '=']) (q := [b] ++ q) (by simp)
      (by simp [Nat.add_assoc]) (by simp [Nat.add_assoc])⟩

theorem takes_paramToken {key v : Bytes} (hk : KeyText key) (hv : ValueText v) :
    Takes (p ++ (key ++ ascii '=' :: v ++ [ascii '&']) ++ q) (key ++ ascii '=' :: v ++ [ascii '&'])
      ⟨.beforeUrlParamKey, r, p.length, p.length, k⟩
      ⟨.beforeUrlParamKey, r.setRequestParams key v,
        (p ++ (key ++ ascii '=' :: v ++ [ascii '&'])).length,
        (p ++ (key ++ ascii '=' :: v ++ [ascii '&'])).length, p.length + key.length⟩ := by
  obtain ⟨hkey, hval⟩ := stdString_param p key v q (ascii '&')
  convert (takes_param hk hv).trans (takes_paramEnd hkey hval) using 2 <;> simp <;> omega

theorem takes_lastParamToken {key v : Bytes} {b : Byte} (hk : KeyText key) (hv : ValueText v)
    (hb : isBlank b) :
    Takes (p ++ (key ++ ascii '=' :: v ++ [b]) ++ q) (key ++ ascii '=' :: v ++ [b])
      ⟨.beforeUrlParamKey, r, p.length, p.length, k⟩
      ⟨.beforeProtocol, r.setRequestParams key v, (p ++ (key ++ ascii '=' :: v ++ [b])).length,
        (p ++ (key ++ ascii '=' :: v ++ [b])).length, p.length + key.length⟩ := by
  obtain ⟨hkey, hval⟩ := stdString_param p key v q b
  convert (takes_param hk hv).trans (takes_lastParamEnd hb hkey hval) using 2 <;> simp <;> omega

theorem takes_protocolToken {b t : Bytes} (hb : ∀ ch ∈ b, isBlank ch) (ht : ProtocolText t) :
    Takes (p ++ (b ++ t ++ [ascii '/']) ++ q) (b ++ t ++ [ascii '/'])
      ⟨.beforeProtocol, r, p.length, p.length, k⟩
      ⟨.beforeVersion, r.setProtocol (b ++ t), (p ++ (b ++ t ++ [ascii '/'])).length,
        (p ++ (b ++ t ++ [ascii '/'])).length, k⟩ := by
  have hcut := stdString_token (m := p ++ (b ++ t ++ [ascii '/']) ++ q) (p := p) (t := b ++ t)
    (q := [ascii '/'] ++ q) (by simp) rfl rfl
  convert (takes_protocol hb ht).trans (takes_protocolEnd hcut) using 2 <;> simp <;> omega

theorem takes_versionToken {v : Bytes} (hv : VersionText v) :
    Takes (p ++ (v ++ [CR, LF]) ++ q) (v ++ [CR, LF]) ⟨.beforeVersion, r, p.length, p.length, k⟩
      ⟨.crLf, r.setVersion v, (p ++ (v ++ [CR, LF])).length, (p ++ (v ++ [CR, LF])).length,
        k⟩ := by
  have hcut := stdString_token (m := p ++ (v ++ [CR, LF]) ++ q) (p := p) (t := v)
    (q := [CR, LF] ++ q) (by simp) rfl rfl
  convert (takes_version hv).trans ((takes_versionEnd hcut).trans takes_lf) using 2 <;>
    simp <;> omega

/-- The value begins two bytes behind the colon. -/
theorem takes_headerToken {key raw : Bytes} (hk : HeaderKeyText key) (hne : raw ≠ [])
    (hraw : ∀ ch ∈ raw, ch ≠ CR) :
    Takes (p ++ (key ++ ascii ':' :: raw ++ [CR, LF]) ++ q) (key ++ ascii ':' :: raw ++ [CR, LF])
      ⟨.crLf, r, p.length, p.length, k⟩
      ⟨.crLf, r.addHeader key raw.tail, (p ++ (key ++ ascii ':' :: raw ++ [CR, LF])).length,
        (p ++ (key ++ ascii ':' :: raw ++ [CR, LF])).length, p.length + key.length⟩ := by
  obtain ⟨x, raw, rfl⟩ := List.exists_cons_of_ne_nil hne
  have hkey := stdString_token (m := p ++ (key ++ ascii ':' :: x :: raw ++ [CR, LF]) ++ q)
    (p := p) (t := key) (q := ascii ':' :: x :: raw ++ [CR, LF] ++ q) (by simp) rfl rfl
  have hval := stdString_token (m := p ++ (key ++ ascii ':' :: x :: raw ++ [CR, LF]) ++ q)
    (p := p ++ key ++ [ascii ':', x]) (t := raw) (q := [CR, LF] ++ q) (by simp)
    (i := p.length + key.length + 2) (j := p.length + key.length + 1 + (x :: raw).length)
    (by simp [Nat.add_assoc]) (by simp; omega)
  convert (takes_header hk hraw).trans ((takes_headerEnd hkey hval).trans takes_lf) using 2 <;>
    simp <;> omega

end Tokens

/-! ## A derivation -/

/-- On a message that begins with `p`, a fresh call arrives at the start of the token behind `p`, in
the state `st` and with the setters `fs` called. -/
def Arrives (r : HttpRequest) (st : HttpRequestParaseState) (p : Bytes) (fs : List Setter) : Prop :=
  ∀ msg : Bytes, p <+: msg → ∃ k, Takes msg p ⟨.start, r, 0, 0, 0⟩
    ⟨st, r.applyAll fs, p.length, p.length, k⟩

/-- A call goes on by a token, which ends in one setter. -/
theorem Arrives.token {r : HttpRequest} {st st' : HttpRequestParaseState} {p w : Bytes}
    {fs : List Setter} {f : Setter} (h : Arrives r st p fs)
    (hw : ∀ q k, ∃ k', Takes (p ++ w ++ q) w ⟨st, r.applyAll fs, p.length, p.length, k⟩
      ⟨st', f.apply (r.applyAll fs), (p ++ w).length, (p ++ w).length, k'⟩) :
    Arrives r st' (p ++ w) (fs ++ [f]) := by
  rintro msg ⟨q, rfl⟩
  obtain ⟨k, hp⟩ := h (p ++ w ++ q) (by simp)
  obtain ⟨k', htoken⟩ := hw q k
  refine ⟨k', ?_⟩
  rw [HttpRequest.applyAll_append]
  exact hp.trans htoken

/-- **The loop follows a derivation**: on a message that begins with `p`, a fresh call arrives at
the start of the token behind `p`, in the state `st` and with the setters `fs` called. -/
theorem Reads.run {st : HttpRequestParaseState} {p : Bytes} {fs : List Setter}
    (h : Reads st p fs) (r : HttpRequest) :
    ∀ msg : Bytes, p <+: msg → ∃ k, Takes msg p ⟨.start, r, 0, 0, 0⟩
      ⟨st, r.applyAll fs, p.length, p.length, k⟩ := by
  -- Induction on the derivation: a rule is a token, which the loop crosses, and the byte behind it.
  change Arrives r st p fs
  induction h with
  | method hlead hne hm hb =>
    rintro msg ⟨q, rfl⟩
    exact ⟨0, takes_methodToken hlead hne hm hb⟩
  | query h hu ih =>
    rw [List.append_assoc]
    exact ih.token fun q k => ⟨k, takes_queryToken hu⟩
  | url h hu hb ih =>
    rw [List.append_assoc]
    exact ih.token fun q k => ⟨k, takes_urlToken hu hb⟩
  | @param p _ _ _ h hk hv ih =>
    rw [List.append_assoc p, List.append_assoc p]
    exact ih.token fun q k => ⟨_, takes_paramToken hk hv⟩
  | @lastParam p _ _ _ _ h hk hv hb ih =>
    rw [List.append_assoc p, List.append_assoc p]
    exact ih.token fun q k => ⟨_, takes_lastParamToken hk hv hb⟩
  | protocol h hs ht ih =>
    rw [List.append_assoc]
    exact ih.token fun q k => ⟨k, takes_protocolToken hs ht⟩
  | version h hv ih =>
    rw [List.append_assoc]
    exact ih.token fun q k => ⟨k, takes_versionToken hv⟩
  | @header p _ _ _ h hk hne hraw ih =>
    rw [List.append_assoc p, List.append_assoc p]
    exact ih.token fun q k => ⟨_, takes_headerToken hk hne hraw⟩

/-! ## The end of the head -/

/-- The parser takes no body behind a head with the header it looks up, when its value is not
positive. -/
def HttpRequest.dropsBody (r : HttpRequest) : Bool :=
  r.headers.contains contentLenght && atoi (r.getHeader contentLenght) ≤ 0

/-- The request at the end of a call, from its head `r` and the bytes `rest` behind it. -/
def HttpRequest.finishHead (r : HttpRequest) (rest : Bytes) : HttpRequest :=
  if r.dropsBody then r else r.setBody rest

/-- The LF of the blank line ends the call, with the rest of the message as body or without one. -/
theorem paraseLoop_blankLine (p rest : Bytes) (r : HttpRequest) (s k : ℕ) :
    ∃ c, paraseLoop (p ++ [CR, LF] ++ rest) (LF :: rest ++ [NUL])
      ⟨.crLfCr, r, s, p.length + 1, k⟩ = .ok c ∧ c.state = .complete ∧
      c.request = r.finishHead rest := by
  have hlt : p.length + 1 < (p ++ [CR, LF] ++ rest).length := by
    simp only [List.length_append, List.length_cons, List.length_nil]; omega
  by_cases hdrop : r.dropsBody
  -- the LF ends the call
  · have hd := hdrop
    simp only [HttpRequest.dropsBody, Bool.and_eq_true, decide_eq_true_eq] at hd
    have hturn : paraseSwitch (p ++ [CR, LF] ++ rest) LF ⟨.crLfCr, r, s, p.length + 1, k⟩ =
        .ok ⟨.complete, r, p.length + 2, p.length + 1, k⟩ := by
      simp [paraseSwitch, hd.1, hd.2]
    have hloop := Takes.turn (n := p.length + 1) rfl hturn (rest ++ [NUL])
    refine ⟨_, hloop.trans (scan_of_stop rfl _), rfl, ?_⟩
    simp [HttpRequest.finishHead, hdrop]
  · have hturn : paraseSwitch (p ++ [CR, LF] ++ rest) LF ⟨.crLfCr, r, s, p.length + 1, k⟩ =
        .ok ⟨.body, r, p.length + 2, p.length + 1, k⟩ := by
      simp only [HttpRequest.dropsBody, Bool.and_eq_true, decide_eq_true_eq, not_and,
        Int.not_le] at hdrop
      by_cases hc : r.headers.contains contentLenght
      · have hpos := hdrop hc
        simp [paraseSwitch, hc, hpos]
      · simp only [paraseSwitch, if_true, if_neg hc, if_pos hlt]
    -- the next turn takes the whole rest, whatever its byte is
    have hcut : stdString (p ++ [CR, LF] ++ rest) (p.length + 2)
        (p.length + 2 + ((p ++ [CR, LF] ++ rest).length - (p.length + 2))) = .ok rest :=
      stdString_token (p := p ++ [CR, LF]) (q := []) (by simp) (by simp) (by simp; omega)
    have hbody : ∀ x, paraseSwitch (p ++ [CR, LF] ++ rest) x
        ⟨.body, r, p.length + 2, p.length + 2, k⟩ =
        .ok ⟨.complete, r.setBody rest, p.length + 2, p.length + 2, k⟩ := by
      intro x
      rw [paraseSwitch, hcut, ok_bind]
    obtain ⟨x, xs, hx⟩ := List.exists_cons_of_ne_nil (l := rest ++ [NUL]) (by simp)
    have hloop := ((Takes.turn (n := p.length + 1) rfl hturn).trans
      (Takes.turn (n := p.length + 2) rfl (hbody x))) xs
    rw [show [LF] ++ [x] ++ xs = LF :: rest ++ [NUL] by simp [hx]] at hloop
    refine ⟨_, hloop.trans (scan_of_stop rfl _), rfl, ?_⟩
    simp [HttpRequest.finishHead, hdrop]

/-- **One call on a head** and the bytes behind it completes the request, from any request that
the context held before. -/
theorem paraseRequest_head {p : Bytes} {fs : List Setter} (h : Reads .crLf p fs)
    (r : HttpRequest) (rest : Bytes) :
    HttpContext.paraseRequest ⟨r, .start⟩ (p ++ [CR, LF] ++ rest) =
      .ok (⟨(r.applyAll fs).finishHead rest, .complete⟩, true) := by
  obtain ⟨k, hp⟩ := h.run r (p ++ [CR, LF] ++ rest) ⟨[CR, LF] ++ rest, by simp⟩
  have hcr : Takes (p ++ [CR, LF] ++ rest) [CR]
      ⟨.crLf, r.applyAll fs, p.length, p.length, k⟩
      ⟨.crLfCr, r.applyAll fs, p.length, p.length + 1, k⟩ :=
    Takes.turn rfl (by simp [paraseSwitch])
  obtain ⟨c, hc, hst, hreq⟩ := paraseLoop_blankLine p rest (r.applyAll fs) p.length k
  have hloop := (hp.trans hcr) (LF :: rest ++ [NUL])
  rw [hc, show p ++ [CR] ++ (LF :: rest ++ [NUL]) = p ++ [CR, LF] ++ rest ++ [NUL] by simp] at hloop
  simp only [HttpContext.paraseRequest, HttpContext.cursor, hloop, ok_bind, hst, hreq,
    decide_true]

end CppServerStudio
