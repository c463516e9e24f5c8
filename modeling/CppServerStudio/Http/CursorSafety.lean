import CppServerStudio.Http.Context

/-!
# Where the parser's ranges are well formed

Every token is cut out of the message by `std::string(first, last)` on two of the three cursors.
Within one call the cursors stay ordered, with two exceptions: the fixed offset behind the colon
of a header, and the cursors of a value that an earlier call began.

## Main definitions

* `nextState`: the transitions of the `switch`, without its cursors
* `ColonBeforeCr st s`: a header line read from `st` along `s` has its colon directly before a CR
* `Hazard st s`: a call in the state `st` on the message `s` builds an ill-formed range
* `HazardFree ctx msgs`: no call of a run meets a hazard

## Main results

* `paraseLoop_isOk_iff`: the loop succeeds exactly when no hazard lies ahead
* `serveAll_isOk_iff`: a run of calls succeeds exactly when it is free of hazards
-/

namespace CppServerStudio

open Scanning HttpRequestParaseState

/-- The state the `switch` moves to on a byte. -/
def nextState (st : HttpRequestParaseState) (ch : Byte) : HttpRequestParaseState :=
  match st with
  | .start => if ch = CR ∨ ch = LF ∨ isBlank ch then .start
      else if isUpper ch then .method else .kInvalid
  | .method => if isUpper ch then .method else if isBlank ch then .inUrl else .kInvalid
  | .beforeUrl => if ch = ascii '/' then .inUrl else if isBlank ch then .beforeUrl else .kInvalid
  | .inUrl => if ch = ascii '?' then .beforeUrlParamKey
      else if isBlank ch then .beforeProtocol else .inUrl
  | .beforeUrlParamKey => if isBlank ch ∨ ch = CR ∨ ch = LF then .kInvalid else .urlParamKey
  | .urlParamKey => if ch = ascii '=' then .beforeUrlParamValue
      else if isBlank ch then .kInvalid else .urlParamKey
  | .beforeUrlParamValue => if isBlank ch ∨ ch = LF ∨ ch = CR then .kInvalid else .urlParamValue
  | .urlParamValue => if ch = ascii '&' then .beforeUrlParamKey
      else if isBlank ch then .beforeProtocol else .urlParamValue
  | .beforeProtocol => if isBlank ch then .beforeProtocol else .protocol
  | .protocol => if ch = ascii '/' then .beforeVersion else .protocol
  | .beforeVersion => if isDigit ch then .version else .kInvalid
  | .version => if ch = CR then .whenCr
      else if isDigit ch ∨ ch = ascii '.' then .version else .kInvalid
  | .headerKey => if ch = ascii ':' then .headerValue else .headerKey
  | .headerValue => if isBlank ch then .headerValue else if ch = CR then .whenCr else .headerValue
  | .whenCr => if ch = LF then .crLf else .kInvalid
  | .crLf => if ch = CR then .crLfCr else if isBlank ch then .kInvalid else .headerKey
  | .crLfCr => if ch = LF then .body else .kInvalid
  | .body => .complete
  | _ => .kInvalid

/-- A header line read from the state `st` along `s` has its colon directly before a CR. -/
def ColonBeforeCr : HttpRequestParaseState → Bytes → Prop
  | _, [] => False
  | st, ch :: rest =>
    (st = .headerKey ∧ ch = ascii ':' ∧ rest.head? = some CR) ∨ ColonBeforeCr (nextState st ch) rest

/-- **The hazards of one call** in the state `st` on the message `s`: it begins inside a header
value that ends at one of its first two bytes, or inside a parameter value that ends at its first
byte, or it reads a header line whose colon is directly before the CR. -/
def Hazard (st : HttpRequestParaseState) (s : Bytes) : Prop :=
  (st = .headerValue ∧ (s[0]? = some CR ∨ s[1]? = some CR)) ∨
  (st = .urlParamValue ∧ ∃ ch, s[0]? = some ch ∧ (ch = ascii '&' ∨ isBlank ch)) ∨
  ColonBeforeCr st s

/-- No call of the run is in a state, and on a message, that meets a hazard. -/
def HazardFree : HttpContext → List Bytes → Prop
  | _, [] => True
  | ctx, msg :: msgs =>
    ¬ Hazard ctx.state msg ∧ ∀ ctx', ctx.serve msg = .ok ctx' → HazardFree ctx' msgs

/-! ## One turn of the loop -/

theorem stdString_ok (msg : Bytes) {first last : ℕ} (h : first ≤ last) (hl : last ≤ msg.length) :
    stdString msg first last = .ok (msg.extract first last) := by
  simp [stdString, h, hl]

theorem stdString_error {msg : Bytes} {first last : ℕ} (h : last < first) :
    stdString msg first last = .error ⟨first, last, msg.length⟩ := by
  have h' : ¬ first ≤ last := by omega
  simp [stdString, h']

/-- The order of the cursors before a turn of the loop. -/
structure Ordered (c : ParseCursor) : Prop where
  start_le : c.start ≤ c.endPos
  start_le_colon : c.state = .beforeUrlParamValue ∨ c.state = .urlParamValue ∨
    c.state = .headerValue → c.start ≤ c.colon
  colon_le : c.colon ≤ c.endPos

/-- The hazards that the unread bytes `rest` hold for the cursors `c`. -/
def HazardAhead (c : ParseCursor) (rest : Bytes) : Prop :=
  (c.state = .headerValue ∧ ∃ i, rest[i]? = some CR ∧ c.endPos + i < c.colon + 2) ∨
  (c.state = .urlParamValue ∧ c.endPos ≤ c.colon ∧
    ∃ ch, rest[0]? = some ch ∧ (ch = ascii '&' ∨ isBlank ch)) ∨
  ColonBeforeCr c.state rest

theorem not_colonBeforeCr (st : HttpRequestParaseState)
    (h : st = .kInvalid ∨ st = .complete ∨ st = .body) (s : Bytes) : ¬ ColonBeforeCr st s := by
  induction s generalizing st with
  | nil => exact id
  | cons ch rest ih =>
    rcases h with rfl | rfl | rfl <;>
      simpa [ColonBeforeCr, nextState] using ih _ (by simp)

/-- What a successful turn does to the state and the cursors: only a token's last byte moves
`start`, and only `=` and `:` move `colon`. -/
theorem paraseStep_cursors {msg : Bytes} {ch : Byte} {c c' : ParseCursor}
    (h : paraseStep msg ch c = .ok c') :
    c'.endPos = c.endPos + 1 ∧
    (c'.state = nextState c.state ch ∨ c.state = .crLfCr ∧ c'.state = .complete) ∧
    (c'.start = c.start ∨ c'.start = c.endPos + 1 ∧ c'.state ≠ .beforeUrlParamValue ∧
      c'.state ≠ .urlParamValue ∧ c'.state ≠ .headerValue) ∧
    c'.colon = if c.state = .urlParamKey ∧ ch = ascii '=' ∨ c.state = .headerKey ∧ ch = ascii ':'
      then c.endPos else c.colon := by
  obtain ⟨c₁, h₁, h₂⟩ := bind_eq_ok.mp h
  obtain rfl := Except.ok.inj h₂
  simp only
  clear h h₂
  revert h₁
  fun_cases paraseSwitch msg ch c <;> intro h <;>
    simp only [bind_eq_ok, Except.ok.injEq] at h <;> grind [nextState]

/-- A turn on ordered cursors fails exactly at the end of a value whose text is too close to its
colon. -/
theorem paraseStep_error_iff {msg : Bytes} {ch : Byte} {c : ParseCursor} (hc : Ordered c)
    (hl : c.endPos ≤ msg.length) :
    (∃ e, paraseStep msg ch c = .error e) ↔
      (c.state = .headerValue ∧ ch = CR ∧ c.endPos < c.colon + 2) ∨
      (c.state = .urlParamValue ∧ (ch = ascii '&' ∨ isBlank ch) ∧ c.endPos ≤ c.colon) := by
  obtain ⟨st, r, s, e, k⟩ := c
  obtain ⟨h1, h2, h3⟩ := hc
  simp only at h1 h2 h3 hl
  have hse := stdString_ok msg h1 hl
  have hb : s ≤ s + (msg.length - e) ∧ s + (msg.length - e) ≤ msg.length := by omega
  have hbody := stdString_ok msg hb.1 hb.2
  cases st
  case headerValue =>
    -- the value is cut out from two bytes behind its colon
    have hk := stdString_ok msg (h2 (by simp)) (h3.trans hl)
    by_cases hcr : ch = CR
    · subst hcr
      rcases Nat.lt_or_ge e (k + 2) with hlt | hge
      · simp [paraseStep, paraseSwitch, isBlank_CR, hk, stdString_error hlt, hlt]
      · simp [paraseStep, paraseSwitch, isBlank_CR, hk, stdString_ok msg hge hl, hge]
    · by_cases hbl : isBlank ch <;> simp [paraseStep, paraseSwitch, hcr, hbl]
  case urlParamValue =>
    -- the value is cut out from the byte behind its `=`
    have hk := stdString_ok msg (h2 (by simp)) (h3.trans hl)
    by_cases hend : ch = ascii '&' ∨ isBlank ch
    · rcases Nat.lt_or_ge e (k + 1) with hlt | hge
      · have hle : e ≤ k := by omega
        rcases hend with hch | hch <;>
          simp [paraseStep, paraseSwitch, hch, hk, stdString_error hlt, hle]
      · have hle : ¬ e ≤ k := by omega
        rcases hend with hch | hch <;>
          simp [paraseStep, paraseSwitch, hch, hk, stdString_ok msg hge hl, hle]
        split_ifs <;> simp
    · rw [not_or] at hend
      simp [paraseStep, paraseSwitch, hend]
  -- in the other states the cursors of each token are in order
  all_goals
    simp only [paraseStep, paraseSwitch]
    (try split_ifs) <;> simp [hse, hbody]

theorem nextState_eq_beforeUrlParamValue {st : HttpRequestParaseState} {ch : Byte} :
    nextState st ch = .beforeUrlParamValue ↔ st = .urlParamKey ∧ ch = ascii '=' := by
  cases st <;> grind [nextState]

theorem nextState_eq_urlParamValue {st : HttpRequestParaseState} {ch : Byte} :
    nextState st ch = .urlParamValue ↔
      st = .beforeUrlParamValue ∧ ¬ (isBlank ch ∨ ch = LF ∨ ch = CR) ∨
      st = .urlParamValue ∧ ¬ (ch = ascii '&' ∨ isBlank ch) := by
  cases st <;> grind [nextState]

theorem nextState_eq_headerValue {st : HttpRequestParaseState} {ch : Byte} :
    nextState st ch = .headerValue ↔
      st = .headerKey ∧ ch = ascii ':' ∨ st = .headerValue ∧ ch ≠ CR := by
  cases st <;> grind [nextState, isBlank_CR]

/-- A successful turn keeps the cursors ordered. -/
theorem Ordered.step {msg : Bytes} {ch : Byte} {c c' : ParseCursor} (hc : Ordered c)
    (h : paraseStep msg ch c = .ok c') : Ordered c' := by
  obtain ⟨he, hst, hs, hk⟩ := paraseStep_cursors h
  obtain ⟨h1, h2, h3⟩ := hc
  have hkle : c'.colon ≤ c'.endPos := by rw [hk]; split_ifs <;> omega
  refine ⟨by rcases hs with hs | hs <;> omega, fun hv => ?_, hkle⟩
  have hs' : c'.start = c.start := by grind
  -- a colon set by this turn is at `end`; otherwise the value was already being read
  by_cases hcol : c.state = .urlParamKey ∧ ch = ascii '=' ∨ c.state = .headerKey ∧ ch = ascii ':'
  · rw [hs', hk, if_pos hcol]
    exact h1
  · rw [hs', hk, if_neg hcol]
    grind [nextState_eq_beforeUrlParamValue, nextState_eq_urlParamValue, nextState_eq_headerValue]

/-- Before the CR of a header value, the hazard is a CR among the bytes too close to the colon. -/
theorem hazardAhead_headerValue {c : ParseCursor} (h : c.state = .headerValue) (rest : Bytes) :
    HazardAhead c rest ↔ (∃ i, rest[i]? = some CR ∧ c.endPos + i < c.colon + 2) ∨
      ColonBeforeCr .headerValue rest := by
  simp [HazardAhead, h]

theorem hazardAhead_urlParamValue {c : ParseCursor} (h : c.state = .urlParamValue)
    (rest : Bytes) :
    HazardAhead c rest ↔ (c.endPos ≤ c.colon ∧
      ∃ ch, rest[0]? = some ch ∧ (ch = ascii '&' ∨ isBlank ch)) ∨
      ColonBeforeCr .urlParamValue rest := by
  simp [HazardAhead, h]

theorem hazardAhead_of_other {c : ParseCursor} (hv : c.state ≠ .headerValue)
    (hu : c.state ≠ .urlParamValue) (rest : Bytes) :
    HazardAhead c rest ↔ ColonBeforeCr c.state rest := by
  simp [HazardAhead, hv, hu]

theorem colonBeforeCr_cons_of_ne {st : HttpRequestParaseState} (h : st ≠ .headerKey) (ch : Byte)
    (rest : Bytes) : ColonBeforeCr st (ch :: rest) ↔ ColonBeforeCr (nextState st ch) rest := by
  simp [ColonBeforeCr, h]

/-- A successful turn meets no hazard: those ahead of it are those ahead after it. -/
theorem hazardAhead_step {msg : Bytes} {ch : Byte} {c c' : ParseCursor} (hc : Ordered c)
    (hl : c.endPos ≤ msg.length) (h : paraseStep msg ch c = .ok c') (rest : Bytes) :
    HazardAhead c' rest ↔ HazardAhead c (ch :: rest) := by
  obtain ⟨he, hst, -, hk⟩ := paraseStep_cursors h
  have hok : ¬ _ := mt (paraseStep_error_iff hc hl).mpr (by rw [h]; simp)
  have hle := hc.colon_le
  rcases hst with hst | ⟨hst, hst'⟩
  · by_cases hkey : c.state = .headerKey
    · by_cases hch : ch = ascii ':'
      · -- the colon is set: only a CR right behind it is too close
        have hv : c'.state = .headerValue := by simp [hst, hkey, hch, nextState]
        have hcol : c'.colon = c.endPos := by simp [hk, hkey, hch]
        rw [hazardAhead_headerValue hv, hazardAhead_of_other (by simp [hkey]) (by simp [hkey]),
          hkey, ColonBeforeCr, hch, show nextState .headerKey (ascii ':') = .headerValue from rfl]
        simp only [he, hcol, true_and, List.head?_eq_getElem?]
        refine or_congr_left ⟨fun ⟨i, hi, hlt⟩ => ?_, fun hi => ⟨0, hi, by omega⟩⟩
        obtain rfl : i = 0 := by omega
        exact hi
      -- the key goes on
      · have hv : c'.state = .headerKey := by simp [hst, hkey, hch, nextState]
        rw [hazardAhead_of_other (by simp [hv]) (by simp [hv]),
          hazardAhead_of_other (by simp [hkey]) (by simp [hkey]), ColonBeforeCr, hst]
        simp [hch]
    · by_cases hval : c.state = .headerValue
      · have hcol : c'.colon = c.colon := by simp [hk, hval]
        rw [hazardAhead_headerValue hval, colonBeforeCr_cons_of_ne (by simp)]
        by_cases hch : ch = CR
        · -- the value ended here, so no later CR can be too close
          have hv : c'.state = .whenCr := by simp [hst, hval, hch, nextState, isBlank_CR]
          rw [hazardAhead_of_other (by simp [hv]) (by simp [hv]), hst, hval]
          refine ⟨Or.inr, fun hz => hz.resolve_left fun ⟨i, hi, hlt⟩ => ?_⟩
          refine hok (Or.inl ⟨hval, hch, ?_⟩)
          omega
        · have hn : nextState .headerValue ch = .headerValue :=
            nextState_eq_headerValue.mpr (Or.inr ⟨rfl, hch⟩)
          have hv : c'.state = .headerValue := by rw [hst, hval, hn]
          rw [hazardAhead_headerValue hv, hcol, he, hn]
          refine or_congr_left ⟨fun ⟨i, hi, hlt⟩ => ⟨i + 1, by simpa using hi, by omega⟩, ?_⟩
          rintro ⟨i, hi, hlt⟩
          cases i with
          | zero => exact absurd (by simpa using hi) hch
          | succ i => exact ⟨i, by simpa using hi, by omega⟩
      -- no header value is read, before or behind the byte
      · have hv : c'.state ≠ .headerValue := by
          rw [hst, Ne, nextState_eq_headerValue]
          simp [hkey, hval]
        have hcons : HazardAhead c (ch :: rest) ↔ ColonBeforeCr c'.state rest := by
          rw [hst, ← colonBeforeCr_cons_of_ne hkey]
          by_cases hu : c.state = .urlParamValue
          · rw [hazardAhead_urlParamValue hu, hu]
            refine or_iff_right fun ⟨hle', b, hb, hend⟩ => hok (Or.inr ⟨hu, ?_, hle'⟩)
            obtain rfl : ch = b := by simpa using hb
            exact hend
          · exact hazardAhead_of_other hval hu _
        rw [hcons]
        by_cases hu' : c'.state = .urlParamValue
        · have hcol : c'.colon = c.colon := by
            rw [hk, if_neg]
            grind [nextState_eq_urlParamValue]
          rw [hazardAhead_urlParamValue hu', hu']
          exact or_iff_right fun ⟨hle', _⟩ => by omega
        · exact hazardAhead_of_other hv hu' rest
  -- the call ends
  · have hcons := not_colonBeforeCr (nextState .crLfCr ch)
      (by simp only [nextState]; split_ifs <;> simp) rest
    have hc' := not_colonBeforeCr .complete (by simp) rest
    simp [HazardAhead, ColonBeforeCr, hst, hst', hcons, hc']

/-! ## The loop and the runs of calls -/

/-- **The loop succeeds exactly when no hazard lies ahead.** -/
theorem paraseLoop_isOk_iff (msg : Bytes) (rest : List Byte) :
    ∀ {c : ParseCursor}, Ordered c → c.endPos + rest.length ≤ msg.length + 1 →
      ((∃ c', paraseLoop msg rest c = .ok c') ↔ ¬ HazardAhead c rest) := by
  induction rest with
  | nil =>
    intro c _ _
    simp [paraseLoop, HazardAhead, ColonBeforeCr]
  | cons ch rest ih =>
    intro c hc hl
    rw [List.length_cons] at hl
    by_cases hd : c.done
    -- a loop that is left meets no hazard any more
    · have hst : c.state = .kInvalid ∨ c.state = .complete ∨ c.state = .body := by
        simp only [ParseCursor.done, Bool.or_eq_true, decide_eq_true_eq] at hd
        tauto
      have hv : c.state ≠ .headerValue ∧ c.state ≠ .urlParamValue := by
        rcases hst with h | h | h <;> simp [h]
      rw [hazardAhead_of_other hv.1 hv.2]
      simp [paraseLoop, scan_of_stop hd, not_colonBeforeCr _ hst]
    · rw [Bool.not_eq_true] at hd
      have hle : c.endPos ≤ msg.length := by omega
      cases hs : paraseStep msg ch c with
      | error e =>
        have herr := (paraseStep_error_iff hc hle).mp ⟨e, hs⟩
        have hz : HazardAhead c (ch :: rest) := by
          rcases herr with ⟨hv, hch, hlt⟩ | ⟨hu, hend, hle'⟩
          · exact Or.inl ⟨hv, 0, by simp [hch], by omega⟩
          · exact Or.inr (Or.inl ⟨hu, hle', ch, by simp, hend⟩)
        simp [paraseLoop, scan_cons hd, hs, hz]
      | ok c' =>
        rw [paraseLoop, scan_cons_ok hd hs, ← hazardAhead_step hc hle hs rest]
        exact ih (hc.step hs) (by rw [(paraseStep_cursors hs).1]; omega)

/-- The terminating NUL is no byte that a hazard needs. -/
theorem getElem?_append_NUL {msg : Bytes} {b : Byte} (hb : b ≠ NUL) (i : ℕ) :
    (msg ++ [NUL])[i]? = some b ↔ msg[i]? = some b := by
  rw [List.getElem?_append]
  split_ifs with hi
  · rfl
  · have hm : msg[i]? = none := List.getElem?_eq_none (by omega)
    rw [hm]
    cases h : i - msg.length <;> simp [Ne.symm hb]

theorem colonBeforeCr_append_NUL (st : HttpRequestParaseState) (s : Bytes) :
    ColonBeforeCr st (s ++ [NUL]) ↔ ColonBeforeCr st s := by
  induction s generalizing st with
  | nil => simp [ColonBeforeCr]
  | cons ch rest ih =>
    rw [List.cons_append, ColonBeforeCr, ColonBeforeCr, ih, List.head?_eq_getElem?,
      List.head?_eq_getElem?, getElem?_append_NUL (by decide)]

theorem hazardAhead_cursor_iff (ctx : HttpContext) (msg : Bytes) :
    HazardAhead ctx.cursor (msg ++ [NUL]) ↔ Hazard ctx.state msg := by
  have hcr : CR ≠ NUL := by decide
  have hval : (∃ i, (msg ++ [NUL])[i]? = some CR ∧ 0 + i < 0 + 2) ↔
      msg[0]? = some CR ∨ msg[1]? = some CR := by
    constructor
    · rintro ⟨i, hi, hlt⟩
      rw [getElem?_append_NUL hcr] at hi
      obtain rfl | rfl : i = 0 ∨ i = 1 := by omega
      · exact Or.inl hi
      · exact Or.inr hi
    · rintro (h | h)
      · exact ⟨0, (getElem?_append_NUL hcr 0).mpr h, by omega⟩
      · exact ⟨1, (getElem?_append_NUL hcr 1).mpr h, by omega⟩
  have hend : (∃ ch, (msg ++ [NUL])[0]? = some ch ∧ (ch = ascii '&' ∨ isBlank ch)) ↔
      ∃ ch, msg[0]? = some ch ∧ (ch = ascii '&' ∨ isBlank ch) := by
    refine exists_congr fun ch => and_congr_left fun hch => getElem?_append_NUL ?_ 0
    rintro rfl
    revert hch
    decide
  simp only [HazardAhead, Hazard, HttpContext.cursor, hval, hend, colonBeforeCr_append_NUL,
    le_refl, true_and]

/-- A call succeeds exactly when its state and message meet no hazard. -/
theorem paraseRequest_isOk_iff (ctx : HttpContext) (msg : Bytes) :
    (∃ r, ctx.paraseRequest msg = .ok r) ↔ ¬ Hazard ctx.state msg := by
  have hc : Ordered ctx.cursor := ⟨le_rfl, fun _ => le_rfl, le_rfl⟩
  have hloop := paraseLoop_isOk_iff msg (msg ++ [NUL]) hc (by simp [HttpContext.cursor])
  rw [← hazardAhead_cursor_iff, ← hloop]
  simp only [HttpContext.paraseRequest, bind_eq_ok, Except.ok.injEq]
  exact ⟨fun ⟨_, c, hc, _⟩ => ⟨c, hc⟩, fun ⟨c, hc⟩ => ⟨_, c, hc, rfl⟩⟩

theorem serve_isOk_iff (ctx : HttpContext) (msg : Bytes) :
    (∃ ctx', ctx.serve msg = .ok ctx') ↔ ¬ Hazard ctx.state msg := by
  rw [← paraseRequest_isOk_iff]
  simp only [HttpContext.serve, bind_eq_ok, Except.ok.injEq]
  exact ⟨fun ⟨_, r, hr, _⟩ => ⟨r, hr⟩, fun ⟨r, hr⟩ => ⟨_, r, hr, rfl⟩⟩

/-- **The parser's ranges are well formed along a run of calls exactly when no call meets a
hazard**: from any context, every range that the calls on `msgs` build lies in its message, and
none throws, if and only if the run is free of hazards. -/
theorem serveAll_isOk_iff (ctx : HttpContext) (msgs : List Bytes) :
    (∃ ctx', ctx.serveAll msgs = .ok ctx') ↔ HazardFree ctx msgs := by
  induction msgs generalizing ctx with
  | nil => simp [HttpContext.serveAll, HazardFree]
  | cons msg msgs ih =>
    rw [HazardFree, ← serve_isOk_iff]
    simp only [HttpContext.serveAll, bind_eq_ok]
    constructor
    · rintro ⟨ctx'', ctx', hs, hrun⟩
      refine ⟨⟨ctx', hs⟩, fun ctx₁ h₁ => ?_⟩
      obtain rfl : ctx' = ctx₁ := Except.ok.inj (hs.symm.trans h₁)
      exact (ih ctx').mp ⟨ctx'', hrun⟩
    · rintro ⟨⟨ctx', hs⟩, hrun⟩
      obtain ⟨ctx'', h⟩ := (ih ctx').mpr (hrun ctx' hs)
      exact ⟨ctx'', ctx', hs, h⟩

/-- A header with an empty value and no blank behind its colon makes the call throw. -/
theorem serveAll_empty_header_value :
    ¬ ∀ msgs : List Bytes, ∃ ctx', HttpContext.serveAll {} msgs = .ok ctx' := by
  intro h
  obtain ⟨ctx', h⟩ := h [ofString "GET / HTTP/1.1\r\nAccept:\r\n\r\n"]
  have herr : HttpContext.serveAll {} [ofString "GET / HTTP/1.1\r\nAccept:\r\n\r\n"] =
      .error ⟨24, 23, 27⟩ := by decide
  rw [herr] at h
  cases h

end CppServerStudio
