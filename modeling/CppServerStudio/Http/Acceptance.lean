import CppServerStudio.Http.Grammar

/-!
# What the parser accepts

The reverse of following a derivation: wherever a call that began with a fresh state stands, the
bytes it has consumed are a derived text and part of a token, so that an accepted message is a
head, the blank line and the bytes behind it.

## Main definitions

* `Inside w c`: the cursors `c` of a fresh call that has consumed the bytes `w`

## Main results

* `Inside.step`: one turn of the loop
* `paraseRequest_accepts_iff`: the accepted messages, and the request each of them gives
* `Reads.head_unique`: a message has at most one head
-/

namespace CppServerStudio

open Scanning

/-- The bytes `w` that a fresh call consumes to be in a state, as derived texts and a part of a
token. The colon of a header is the only cursor that a later turn compares. -/
def InsideText (w : Bytes) (colon : ℕ) : HttpRequestParaseState → Prop
  | .kInvalid => True
  | .start => ∀ ch ∈ w, IsLead ch
  | .method => ∃ lead m, w = lead ++ m ∧ (∀ ch ∈ lead, IsLead ch) ∧ m ≠ [] ∧ ∀ ch ∈ m, isUpper ch
  | .inUrl => ∃ p u fs, w = p ++ u ∧ Reads .inUrl p fs ∧ ∀ ch ∈ u, IsUrlChar ch
  | .beforeUrlParamKey => ∃ fs, Reads .beforeUrlParamKey w fs
  | .urlParamKey => ∃ p k fs, w = p ++ k ∧ Reads .beforeUrlParamKey p fs ∧ KeyText k
  | .beforeUrlParamValue => ∃ p k fs, w = p ++ k ++ [ascii '='] ∧
      Reads .beforeUrlParamKey p fs ∧ KeyText k
  | .urlParamValue => ∃ p k v fs, w = p ++ k ++ ascii '=' :: v ∧
      Reads .beforeUrlParamKey p fs ∧ KeyText k ∧ ValueText v
  | .beforeProtocol => ∃ p s fs, w = p ++ s ∧ Reads .beforeProtocol p fs ∧ ∀ ch ∈ s, isBlank ch
  | .protocol => ∃ p s t fs, w = p ++ (s ++ t) ∧ Reads .beforeProtocol p fs ∧
      (∀ ch ∈ s, isBlank ch) ∧ ProtocolText t
  | .beforeVersion => ∃ fs, Reads .beforeVersion w fs
  | .version => ∃ p v fs, w = p ++ v ∧ Reads .beforeVersion p fs ∧ VersionText v
  | .whenCr => ∃ fs, Reads .crLf (w ++ [LF]) fs
  | .crLf => ∃ fs, Reads .crLf w fs
  | .headerKey => ∃ p k fs, w = p ++ k ∧ Reads .crLf p fs ∧ HeaderKeyText k
  | .headerValue => ∃ p k raw fs, w = p ++ k ++ ascii ':' :: raw ∧ Reads .crLf p fs ∧
      HeaderKeyText k ∧ (∀ ch ∈ raw, ch ≠ CR) ∧ colon = p.length + k.length
  | .crLfCr => ∃ p fs, w = p ++ [CR] ∧ Reads .crLf p fs
  | .body => ∃ p fs, w = p ++ [CR, LF] ∧ Reads .crLf p fs
  | .complete => ∃ p rest fs, w = p ++ [CR, LF] ++ rest ∧ Reads .crLf p fs
  | _ => False

/-- The cursors `c` of a call that began with a fresh state and has consumed the bytes `w`. -/
structure Inside (w : Bytes) (c : ParseCursor) : Prop where
  endPos_eq : c.endPos = w.length
  text : InsideText w c.colon c.state

theorem KeyText.snoc {k : Bytes} {ch : Byte} (h : KeyText k)
    (hch : ch ≠ ascii '=' ∧ ¬ isBlank ch) : KeyText (k ++ [ch]) := by
  obtain ⟨hx, hxs⟩ := h
  exact ⟨hx, by simpa [or_imp, forall_and, hch] using hxs⟩

theorem ValueText.snoc {v : Bytes} {ch : Byte} (h : ValueText v)
    (hch : ch ≠ ascii '&' ∧ ¬ isBlank ch) : ValueText (v ++ [ch]) := by
  obtain ⟨hx, hxs⟩ := h
  exact ⟨hx, by simpa [or_imp, forall_and, hch] using hxs⟩

theorem ProtocolText.snoc {t : Bytes} {ch : Byte} (h : ProtocolText t) (hch : ch ≠ ascii '/') :
    ProtocolText (t ++ [ch]) := by
  obtain ⟨hx, hxs⟩ := h
  exact ⟨hx, by simpa [or_imp, forall_and, hch] using hxs⟩

theorem VersionText.snoc {v : Bytes} {ch : Byte} (h : VersionText v)
    (hch : isDigit ch ∨ ch = ascii '.') : VersionText (v ++ [ch]) := by
  obtain ⟨hx, hxs⟩ := h
  refine ⟨hx, fun b hb => ?_⟩
  rcases List.mem_append.mp hb with hb | hb
  · exact hxs b hb
  · rw [List.mem_singleton.mp hb]
    exact hch

theorem HeaderKeyText.snoc {k : Bytes} {ch : Byte} (h : HeaderKeyText k) (hch : ch ≠ ascii ':') :
    HeaderKeyText (k ++ [ch]) := by
  obtain ⟨hx, hxs⟩ := h
  exact ⟨hx, by simpa [or_imp, forall_and, hch] using hxs⟩

/-! ## The states of the `switch` -/

section States

variable {w : Bytes} {k k' : ℕ} (ch : Byte)

theorem InsideText.step_start (h : InsideText w k .start) :
    InsideText (w ++ [ch]) k' (nextState .start ch) := by
  simp only [nextState]
  split_ifs with h₁ h₂
  · intro b hb
    rcases List.mem_append.mp hb with hb | hb
    · exact h b hb
    · rw [List.mem_singleton.mp hb]
      exact h₁
  · exact ⟨w, [ch], rfl, h, by simp, by simpa using h₂⟩
  · trivial

theorem InsideText.step_method (h : InsideText w k .method) :
    InsideText (w ++ [ch]) k' (nextState .method ch) := by
  obtain ⟨lead, m, rfl, hlead, hne, hm⟩ := h
  simp only [nextState]
  split_ifs with h₁ h₂
  · refine ⟨lead, m ++ [ch], by simp, hlead, by simp, ?_⟩
    simpa [or_imp, forall_and, h₁] using hm
  · exact ⟨_, [], _, by simp, .method hlead hne hm h₂, by simp⟩
  · trivial

theorem InsideText.step_inUrl (h : InsideText w k .inUrl) :
    InsideText (w ++ [ch]) k' (nextState .inUrl ch) := by
  obtain ⟨p, u, fs, rfl, hp, hu⟩ := h
  simp only [nextState]
  split_ifs with h₁ h₂
  · subst h₁
    exact ⟨_, .query hp hu⟩
  · exact ⟨_, [], _, by simp, .url hp hu h₂, by simp⟩
  · refine ⟨p, u ++ [ch], fs, by simp, hp, ?_⟩
    simpa [or_imp, forall_and, IsUrlChar, h₁, h₂] using hu

theorem InsideText.step_beforeUrlParamKey (h : InsideText w k .beforeUrlParamKey) :
    InsideText (w ++ [ch]) k' (nextState .beforeUrlParamKey ch) := by
  obtain ⟨fs, hp⟩ := h
  simp only [nextState]
  split_ifs with h₁
  · trivial
  · exact ⟨w, [ch], fs, rfl, hp, h₁, by simp⟩

theorem InsideText.step_urlParamKey (h : InsideText w k .urlParamKey) :
    InsideText (w ++ [ch]) k' (nextState .urlParamKey ch) := by
  obtain ⟨p, key, fs, rfl, hp, hkey⟩ := h
  simp only [nextState]
  split_ifs with h₁ h₂
  · exact ⟨p, key, fs, by rw [h₁], hp, hkey⟩
  · trivial
  · exact ⟨p, key ++ [ch], fs, by simp, hp, hkey.snoc ⟨h₁, h₂⟩⟩

theorem InsideText.step_beforeUrlParamValue (h : InsideText w k .beforeUrlParamValue) :
    InsideText (w ++ [ch]) k' (nextState .beforeUrlParamValue ch) := by
  obtain ⟨p, key, fs, rfl, hp, hkey⟩ := h
  simp only [nextState]
  split_ifs with h₁
  · trivial
  · exact ⟨p, key, [ch], fs, by simp, hp, hkey, h₁, by simp⟩

theorem InsideText.step_urlParamValue (h : InsideText w k .urlParamValue) :
    InsideText (w ++ [ch]) k' (nextState .urlParamValue ch) := by
  obtain ⟨p, key, v, fs, rfl, hp, hkey, hv⟩ := h
  simp only [nextState]
  split_ifs with h₁ h₂
  · subst h₁
    exact ⟨_, .param hp hkey hv⟩
  · exact ⟨_, [], _, by simp, .lastParam hp hkey hv h₂, by simp⟩
  · exact ⟨p, key, v ++ [ch], fs, by simp, hp, hkey, hv.snoc ⟨h₁, h₂⟩⟩

theorem InsideText.step_beforeProtocol (h : InsideText w k .beforeProtocol) :
    InsideText (w ++ [ch]) k' (nextState .beforeProtocol ch) := by
  obtain ⟨p, b, fs, rfl, hp, hb⟩ := h
  simp only [nextState]
  split_ifs with h₁
  · refine ⟨p, b ++ [ch], fs, by simp, hp, ?_⟩
    simpa [or_imp, forall_and, h₁] using hb
  · exact ⟨p, b, [ch], fs, by simp, hp, hb, by simpa using h₁, by simp⟩

theorem InsideText.step_protocol (h : InsideText w k .protocol) :
    InsideText (w ++ [ch]) k' (nextState .protocol ch) := by
  obtain ⟨p, b, t, fs, rfl, hp, hb, ht⟩ := h
  simp only [nextState]
  split_ifs with h₁
  · subst h₁
    exact ⟨_, .protocol hp hb ht⟩
  · exact ⟨p, b, t ++ [ch], fs, by simp, hp, hb, ht.snoc h₁⟩

theorem InsideText.step_beforeVersion (h : InsideText w k .beforeVersion) :
    InsideText (w ++ [ch]) k' (nextState .beforeVersion ch) := by
  obtain ⟨fs, hp⟩ := h
  simp only [nextState]
  split_ifs with h₁
  · exact ⟨w, [ch], fs, rfl, hp, h₁, by simp⟩
  · trivial

theorem InsideText.step_version (h : InsideText w k .version) :
    InsideText (w ++ [ch]) k' (nextState .version ch) := by
  obtain ⟨p, v, fs, rfl, hp, hv⟩ := h
  simp only [nextState]
  split_ifs with h₁ h₂
  · exact ⟨fs ++ [.version v], by simpa [h₁] using Reads.version hp hv⟩
  · exact ⟨p, v ++ [ch], fs, by simp, hp, hv.snoc h₂⟩
  · trivial

theorem InsideText.step_whenCr (h : InsideText w k .whenCr) :
    InsideText (w ++ [ch]) k' (nextState .whenCr ch) := by
  obtain ⟨fs, hp⟩ := h
  simp only [nextState]
  split_ifs with h₁
  · exact ⟨fs, h₁ ▸ hp⟩
  · trivial

theorem InsideText.step_crLf (h : InsideText w k .crLf) :
    InsideText (w ++ [ch]) k' (nextState .crLf ch) := by
  obtain ⟨fs, hp⟩ := h
  simp only [nextState]
  split_ifs with h₁ h₂
  · exact ⟨w, fs, by rw [h₁], hp⟩
  · trivial
  · exact ⟨w, [ch], fs, rfl, hp, ⟨h₁, h₂⟩, by simp⟩

theorem InsideText.step_crLfCr (h : InsideText w k .crLfCr) :
    InsideText (w ++ [ch]) k' (nextState .crLfCr ch) := by
  obtain ⟨p, fs, rfl, hp⟩ := h
  simp only [nextState]
  split_ifs with h₁
  · exact ⟨p, fs, by simp [h₁], hp⟩
  · trivial

theorem InsideText.step_body (h : InsideText w k .body) :
    InsideText (w ++ [ch]) k' (nextState .body ch) := by
  obtain ⟨p, fs, rfl, hp⟩ := h
  exact ⟨p, [ch], fs, rfl, hp⟩

/-- The colon is found, or the key goes on. -/
theorem InsideText.step_headerKey (h : InsideText w k .headerKey)
    (hk : ch = ascii ':' → k' = w.length) :
    InsideText (w ++ [ch]) k' (nextState .headerKey ch) := by
  obtain ⟨p, key, fs, rfl, hp, hkey⟩ := h
  simp only [nextState]
  split_ifs with h₁
  · exact ⟨p, key, [], fs, by simp [h₁], hp, hkey, by simp, by simp [hk h₁]⟩
  · exact ⟨p, key ++ [ch], fs, by simp, hp, hkey.snoc h₁⟩

/-- A header value ends two bytes behind its colon or later. -/
theorem InsideText.step_headerValue (h : InsideText w k .headerValue)
    (hend : ch = CR → k + 2 ≤ w.length) :
    InsideText (w ++ [ch]) k (nextState .headerValue ch) := by
  obtain ⟨p, key, raw, fs, rfl, hp, hkey, hraw, rfl⟩ := h
  by_cases hcr : ch = CR
  -- the value ends, and its first byte is the one that the parser drops
  · have hlen := hend hcr
    have hne : raw ≠ [] := by
      rintro rfl
      simp only [List.length_append, List.length_cons, List.length_nil] at hlen
      omega
    refine (show nextState .headerValue ch = .whenCr by simp [nextState, hcr, isBlank_CR]) ▸ ?_
    exact ⟨fs ++ [.header key raw.tail], by simpa [hcr] using Reads.header hp hkey hne hraw⟩
  · rw [nextState_eq_headerValue.mpr (Or.inr ⟨rfl, hcr⟩)]
    refine ⟨p, key, raw ++ [ch], fs, by simp, hp, hkey, ?_, rfl⟩
    simpa [or_imp, forall_and, hcr] using hraw

end States

/-- The transitions of the `switch` keep the consumed bytes of the form their state has, provided
that a header value ends two bytes behind its colon or later. -/
theorem InsideText.step {w : Bytes} {k k' : ℕ} {st : HttpRequestParaseState}
    (h : InsideText w k st) (ch : Byte)
    (hk : k' = if st = .headerKey ∧ ch = ascii ':' then w.length else k)
    (hend : st = .headerValue → ch = CR → k + 2 ≤ w.length) :
    InsideText (w ++ [ch]) k' (nextState st ch) := by
  cases st with
  | start => exact h.step_start ch
  | method => exact h.step_method ch
  | inUrl => exact h.step_inUrl ch
  | beforeUrlParamKey => exact h.step_beforeUrlParamKey ch
  | urlParamKey => exact h.step_urlParamKey ch
  | beforeUrlParamValue => exact h.step_beforeUrlParamValue ch
  | urlParamValue => exact h.step_urlParamValue ch
  | beforeProtocol => exact h.step_beforeProtocol ch
  | protocol => exact h.step_protocol ch
  | beforeVersion => exact h.step_beforeVersion ch
  | version => exact h.step_version ch
  | headerKey => exact h.step_headerKey ch fun hch => hk.trans (if_pos ⟨rfl, hch⟩)
  | headerValue =>
    obtain rfl : k' = k := hk.trans (if_neg (by simp))
    exact h.step_headerValue ch (hend rfl)
  | whenCr => exact h.step_whenCr ch
  | crLf => exact h.step_crLf ch
  | crLfCr => exact h.step_crLfCr ch
  | body => exact h.step_body ch
  | kInvalid | complete => trivial
  | _ => exact h.elim

/-- The value of a header is cut out from two bytes behind its colon. -/
theorem paraseStep_headerValue_CR {msg : Bytes} {r : HttpRequest} {s n k : ℕ} {c' : ParseCursor}
    (h : paraseStep msg CR ⟨.headerValue, r, s, n, k⟩ = .ok c') : k + 2 ≤ n := by
  by_contra hlt
  rw [paraseStep, paraseSwitch] at h
  simp only [isBlank_CR, stdString_error (Nat.lt_of_not_le hlt), if_true] at h
  cases hk : stdString msg s k <;> simp [hk] at h

theorem Inside.step {msg w : Bytes} {ch : Byte} {c c' : ParseCursor} (h : Inside w c)
    (hs : paraseStep msg ch c = .ok c') : Inside (w ++ [ch]) c' := by
  obtain ⟨he, hst, -, hk⟩ := paraseStep_cursors hs
  obtain ⟨hend, htext⟩ := h
  refine ⟨by simp [he, hend], ?_⟩
  rcases hst with hst | ⟨hst, hst'⟩
  · rw [hst]
    by_cases hp : c.state = .urlParamKey ∧ ch = ascii '='
    · -- the colon that `=` moves is not the colon of a header
      have hnext : nextState c.state ch = .beforeUrlParamValue := by simp [hp, nextState]
      have h' := htext.step ch rfl (by simp [hp.1])
      rw [hnext] at h' ⊢
      exact h'
    · refine htext.step ch (by rw [hk, hend]; simp [hp]) fun hv hcr => ?_
      obtain ⟨st, r, s, n, k⟩ := c
      obtain rfl : st = .headerValue := hv
      subst hcr
      rw [← hend]
      exact paraseStep_headerValue_CR hs
  · rw [hst] at htext
    -- the LF of the blank line that ends the call
    obtain ⟨p, fs, rfl, hp⟩ := htext
    have hlf : ch = LF := by
      by_contra hne
      obtain ⟨st, r, s, n, k⟩ := c
      obtain rfl : st = .crLfCr := hst
      simp [paraseStep, paraseSwitch, hne] at hs
      simp [← hs] at hst'
    rw [hst']
    exact ⟨p, [], fs, by simp [hlf], hp⟩

/-- **An accepted message is a head, the blank line and the rest.** -/
theorem exists_head_of_complete {ctx ctx' : HttpContext} {msg : Bytes} (hst : ctx.state = .start)
    (h : ctx.paraseRequest msg = .ok (ctx', true)) :
    ∃ p fs rest, msg = p ++ [CR, LF] ++ rest ∧ Reads .crLf p fs := by
  simp only [HttpContext.paraseRequest, bind_eq_ok, Except.ok.injEq, Prod.mk.injEq,
    decide_eq_true_eq] at h
  obtain ⟨c, hc, -, hcomp⟩ := h
  have h0 : Inside [] ctx.cursor := ⟨rfl, by simp [HttpContext.cursor, hst, InsideText]⟩
  obtain ⟨w, tail, hsplit, hw, -⟩ := scan_invariant (I := Inside)
    (fun w ch c c' hI _ hs => hI.step hs) h0 hc
  have htext := hw.text
  rw [hcomp, List.nil_append] at htext
  obtain ⟨p, rest, fs, rfl, hp⟩ := htext
  -- the NUL is behind the blank line, so the blank line is part of the message
  rcases List.eq_nil_or_concat (rest ++ tail) with hnil | ⟨body, x, hx⟩
  · exfalso
    rw [List.append_assoc _ rest, hnil] at hsplit
    have hlast := congrArg List.getLast? hsplit
    simp at hlast
    revert hlast
    decide
  · rw [List.append_assoc _ rest, hx, List.concat_eq_append, ← List.append_assoc] at hsplit
    obtain ⟨rfl, -⟩ := List.append_inj' hsplit rfl
    exact ⟨p, fs, body, rfl, hp⟩

/-- **The accepted messages** of a context in its start state, with the request each of them
gives. -/
theorem paraseRequest_accepts_iff {r : HttpRequest} {ctx' : HttpContext} {msg : Bytes} :
    HttpContext.paraseRequest ⟨r, .start⟩ msg = .ok (ctx', true) ↔
      ∃ p fs rest, msg = p ++ [CR, LF] ++ rest ∧ Reads .crLf p fs ∧
        ctx' = ⟨(r.applyAll fs).finishHead rest, .complete⟩ := by
  constructor
  · intro h
    obtain ⟨p, fs, rest, rfl, hp⟩ := exists_head_of_complete rfl h
    rw [paraseRequest_head hp] at h
    exact ⟨p, fs, rest, rfl, hp, by simpa using h.symm⟩
  · rintro ⟨p, fs, rest, rfl, hp, rfl⟩
    exact paraseRequest_head hp r rest

/-- The CR of the blank line leads away from the header lines for the rest of a call. -/
theorem paraseLoop_crLf_ne {msg xs : Bytes} {r : HttpRequest} {s n k : ℕ} {c : ParseCursor}
    (h : paraseLoop msg (CR :: xs) ⟨.crLf, r, s, n, k⟩ = .ok c) : c.state ≠ .crLf := by
  have hcr : Takes msg [CR] ⟨.crLf, r, s, n, k⟩ ⟨.crLfCr, r, s, n + 1, k⟩ :=
    Takes.turn rfl (by simp [paraseSwitch])
  have hstep : ∀ (w : Bytes) (ch : Byte) (c c' : ParseCursor), c.state = .crLfCr ∨
      c.state = .body ∨ c.state = .complete ∨ c.state = .kInvalid → c.done = false →
      paraseStep msg ch c = .ok c' → c'.state = .crLfCr ∨ c'.state = .body ∨
      c'.state = .complete ∨ c'.state = .kInvalid := by
    intro w ch c c' hc _ hs
    obtain ⟨-, hst, -, -⟩ := paraseStep_cursors hs
    rcases hst with hst | ⟨-, hst⟩
    · rcases hc with hc | hc | hc | hc
      · by_cases hlf : ch = LF <;> simp [hst, hc, nextState, hlf]
      all_goals simp [hst, hc, nextState]
    · simp [hst]
  obtain ⟨w, rest, -, hI, -⟩ := scan_invariant (v := []) hstep (Or.inl rfl)
    ((hcr xs).symm.trans h)
  intro he
  simp [he] at hI

/-- A head does not go on behind the blank line of another. -/
theorem Reads.not_append_CR {p xs : Bytes} {fs fs' : List Setter} (hp : Reads .crLf p fs)
    (hp' : Reads .crLf (p ++ CR :: xs) fs') : False := by
  obtain ⟨k, hrun⟩ := hp.run {} (p ++ CR :: xs) (List.prefix_append _ _)
  obtain ⟨k', hrun'⟩ := hp'.run {} _ (List.prefix_refl _)
  have h' := hrun' []
  rw [List.append_nil, hrun] at h'
  exact paraseLoop_crLf_ne h' rfl

/-- **A message has at most one head.** -/
theorem Reads.head_unique {p p' rest rest' : Bytes} {fs fs' : List Setter}
    (hp : Reads .crLf p fs) (hp' : Reads .crLf p' fs')
    (h : p ++ [CR, LF] ++ rest = p' ++ [CR, LF] ++ rest') : p = p' ∧ rest = rest' := by
  simp only [List.append_assoc, List.cons_append, List.nil_append] at h
  rcases List.append_eq_append_iff.mp h with ⟨t, rfl, ht⟩ | ⟨t, rfl, ht⟩
  · cases t with
    | nil => simpa using ht
    | cons x xs =>
      obtain rfl : CR = x := (List.cons.inj ht).1
      exact (hp.not_append_CR hp').elim
  · cases t with
    | nil => simpa [eq_comm] using ht
    | cons x xs =>
      obtain rfl : CR = x := (List.cons.inj ht).1
      exact (hp'.not_append_CR hp).elim

/-- The setters that a head calls are determined, up to their effect on a request. -/
theorem Reads.applyAll_unique {p : Bytes} {fs fs' : List Setter} (hp : Reads .crLf p fs)
    (hp' : Reads .crLf p fs') (r : HttpRequest) : r.applyAll fs = r.applyAll fs' := by
  obtain ⟨k, hrun⟩ := hp.run r _ (List.prefix_refl _)
  obtain ⟨k', hrun'⟩ := hp'.run r _ (List.prefix_refl _)
  have h := (hrun []).symm.trans (hrun' [])
  exact congrArg ParseCursor.request (Except.ok.inj h)

end CppServerStudio
