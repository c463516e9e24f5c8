import CppServerStudio.Http.EndOfStream
import CppServerStudio.Http.RoundTrip
import CppServerStudio.Library.Runs

/-!
# Messages behind a rejected message

The RTSP server keeps a connection whose parser has rejected a message. `OnMessage` resets the
parser only behind a complete request, so the next message finds it where the rejected one has left
it.

## Main definitions

* `rtspMessages`: the messages of one connection, each with what the parser returns for it
* `RtspServer.Dispatches c msg`: the message is parsed from its first byte and dispatched

## Main results

* `paraseRequest_of_false`: where a rejected message leaves the parser
* `rtspMessages_between`: the parser between two messages, along every run
* `dispatches_next_iff`: the next message is dispatched exactly when the last one was accepted
* `rtspMessages_silent`: nothing is dispatched once the parser has given up
-/

namespace CppServerStudio

open Scanning

/-- The messages of one connection, each with the value that the parser returns for it. -/
def rtspMessages : LTS ServerConnection (Bytes × Bool) where
  init c := c = {}
  step c x c' := (∃ ctx, c.context.paraseRequest x.1 = .ok (ctx, x.2)) ∧
    ∃ done, c.receive RtspServer.onMessage x.1 = .ok (c', done)

/-- **Dispatch of a message**: the handler dispatches the request that the parser gives from its
start state, on top of what earlier messages have left in the request. -/
def RtspServer.Dispatches (c : ServerConnection) (msg : Bytes) : Prop :=
  ∃ ctx c', c.context.resetContextStatus.paraseRequest msg = .ok (ctx, true) ∧
    c.receive RtspServer.onMessage msg = .ok (c', [.request ctx.request])

/-! ## Where a call leaves the parser -/

/-- A parser that is not at a method, and will not be at one before it is reset. -/
def PastMethod (st : HttpRequestParaseState) : Prop := st ≠ .start ∧ st ≠ .method

instance (st : HttpRequestParaseState) : Decidable (PastMethod st) :=
  inferInstanceAs (Decidable (_ ∧ _))

theorem PastMethod.nextState {st : HttpRequestParaseState} (h : PastMethod st) (ch : Byte) :
    PastMethod (nextState st ch) := by
  fun_cases CppServerStudio.nextState st ch <;> simp_all [PastMethod]

/-- The NUL behind a message ends the start state and a method. -/
theorem pastMethod_nextState_NUL (st : HttpRequestParaseState) :
    PastMethod (nextState st NUL) := by
  by_cases h : PastMethod st
  · exact h.nextState NUL
  · rw [PastMethod, not_and_or, not_not, not_not] at h
    rcases h with rfl | rfl <;> decide

/-- A turn behind the method leaves the method of the request as it is. -/
theorem PastMethod.step {msg : Bytes} {ch : Byte} {c c' : ParseCursor} (h : PastMethod c.state)
    (hs : paraseStep msg ch c = .ok c') :
    PastMethod c'.state ∧ c'.request.method = c.request.method := by
  constructor
  · obtain ⟨-, hst | ⟨-, hst⟩, -⟩ := paraseStep_cursors hs
    · rw [hst]
      exact h.nextState ch
    · rw [hst]
      decide
  · obtain ⟨c₁, h₁, h₂⟩ := bind_eq_ok.mp hs
    obtain rfl := Except.ok.inj h₂
    simp only
    clear hs h₂
    revert h₁
    fun_cases paraseSwitch msg ch c <;> intro h <;>
      simp only [bind_eq_ok, Except.ok.injEq] at h <;>
      grind [PastMethod, HttpRequest.setUrl, HttpRequest.setRequestParams,
        HttpRequest.setProtocol, HttpRequest.setVersion, HttpRequest.addHeader,
        HttpRequest.setBody]

variable {ctx ctx' : HttpContext} {msg : Bytes} {ok : Bool}

/-- A call behind the method leaves the method of the request as it is. -/
theorem paraseRequest_method (h : PastMethod ctx.state)
    (hrun : ctx.paraseRequest msg = .ok (ctx', ok)) :
    ctx'.request.method = ctx.request.method := by
  obtain ⟨c, hloop, hc⟩ := bind_eq_ok.mp hrun
  obtain ⟨rfl, -⟩ := Prod.mk.inj (Except.ok.inj hc)
  obtain ⟨w, rest, -, ⟨-, hmethod⟩, -⟩ := scan_invariant (v := [])
    (I := fun _ c => PastMethod c.state ∧ c.request.method = ctx.request.method)
    (fun w ch c c' hI _ hs => ⟨(hI.1.step hs).1, (hI.1.step hs).2.trans hI.2⟩) ⟨h, rfl⟩ hloop
  exact hmethod

/-- **A call never leaves the parser at a method**, or in front of one. -/
theorem paraseRequest_pastMethod (hrun : ctx.paraseRequest msg = .ok (ctx', ok)) :
    PastMethod ctx'.state := by
  obtain ⟨c, hloop, hc⟩ := bind_eq_ok.mp hrun
  obtain ⟨rfl, -⟩ := Prod.mk.inj (Except.ok.inj hc)
  -- the NUL has been read, unless the loop has stopped in front of it
  have hstep : ∀ (w : Bytes) (ch : Byte) (c c' : ParseCursor),
      (∀ v, w = v ++ [NUL] → PastMethod c.state) → c.done = false →
      paraseStep msg ch c = .ok c' → ∀ v, w ++ [ch] = v ++ [NUL] → PastMethod c'.state := by
    intro w ch c c' _ _ hs v hv
    obtain ⟨-, hch⟩ := List.append_inj' hv rfl
    obtain rfl := List.singleton_inj.mp hch
    obtain ⟨-, hst | ⟨-, hst⟩, -⟩ := paraseStep_cursors hs
    · rw [hst]
      exact pastMethod_nextState_NUL c.state
    · rw [hst]
      decide
  obtain ⟨w, rest, hw, hI, hend⟩ := scan_invariant (v := []) hstep (by simp) hloop
  rcases hend with rfl | hdone
  · exact hI msg (by simpa using hw.symm)
  · simp only [ParseCursor.done, Bool.or_eq_true, decide_eq_true_eq] at hdone
    rcases hdone with hst | hst <;> simp [PastMethod, hst]

/-- A parser that has given up rejects every message. -/
theorem paraseRequest_kInvalid (r : HttpRequest) (msg : Bytes) :
    HttpContext.paraseRequest ⟨r, .kInvalid⟩ msg = .ok (⟨r, .kInvalid⟩, false) := by
  rw [HttpContext.paraseRequest, paraseLoop, scan_of_stop rfl, ok_bind]
  rfl

/-! ## One message -/

section Messages

variable {c c' : ServerConnection} {history : List (Bytes × Bool)}

/-- A connection between two readiness events: connected, and with nothing left to read. -/
structure Drained (c : ServerConnection) : Prop where
  connected : c.state = .connected
  valid : c.readBuf.Valid
  readable : c.readBuf.readable = []

theorem drained_new : Drained {} := ⟨rfl, Buffer.valid_new, Buffer.readable_new⟩

/-- A message is parsed on the state that the last one has left, and the parser is reset behind a
complete request only. -/
theorem Drained.receive (h : Drained c) (hne : msg ≠ [])
    (hparse : c.context.paraseRequest msg = .ok (ctx, ok)) :
    ∃ c', c.receive RtspServer.onMessage msg =
        .ok (c', if ok then [.request ctx.request] else []) ∧ Drained c' ∧
      c'.context = if ok then ctx.resetContextStatus else ctx := by
  obtain ⟨readBuf, happend, hvalid, hread⟩ := h.valid.append msg
  rw [h.readable, List.nil_append] at hread
  have hcomplete := getCompleteRequest_of_paraseRequest hparse
  have hrun := ServerConnection.parse_eq (c := { c with readBuf := readBuf }) hvalid
    (by rwa [hread]) (by rwa [hread])
  have hempty := hvalid.retrieveAll
  rw [ServerConnection.receive, happend, Except.mapError, ok_bind, RtspServer.onMessage,
    if_pos h.connected, hrun, ok_bind]
  cases ok with
  -- only here the state of the parser goes back to the start
  | true =>
    refine ⟨ServerConnection.resetContextStatus
      { c with readBuf := readBuf.retrieveAll, context := ctx }, ?_, ?_, rfl⟩
    · simp only [hcomplete, if_true]
    · exact ⟨h.connected, hempty.1, hempty.2⟩
  | false =>
    refine ⟨{ c with readBuf := readBuf.retrieveAll, context := ctx }, ?_, ?_, rfl⟩
    · simp [hcomplete]
    · exact ⟨h.connected, hempty.1, hempty.2⟩

/-- The handler takes no empty message. -/
theorem Drained.ne_nil (h : Drained c) {r : ServerConnection × List ServerAction}
    (hrun : c.receive RtspServer.onMessage msg = .ok r) : msg ≠ [] := by
  rintro rfl
  obtain ⟨readBuf, happend, hvalid, hread⟩ := h.valid.append []
  have hlen := hvalid.length_readable
  rw [hread, h.readable, List.append_nil, List.length_nil] at hlen
  rw [ServerConnection.receive, happend, Except.mapError, ok_bind, RtspServer.onMessage,
    if_pos h.connected, ServerConnection.parse, Buffer.retrieveAllAsString,
    if_pos (by simp only; omega)] at hrun
  cases hrun

/-- A throw of the parser leaves the handler. -/
theorem Drained.exists_parse (h : Drained c) {r : ServerConnection × List ServerAction}
    (hrun : c.receive RtspServer.onMessage msg = .ok r) :
    ∃ ctx ok, c.context.paraseRequest msg = .ok (ctx, ok) := by
  have hne := h.ne_nil hrun
  obtain ⟨readBuf, happend, hvalid, hread⟩ := h.valid.append msg
  rw [h.readable, List.nil_append] at hread
  have hdrain := hvalid.retrieveAllAsString (by rwa [hread])
  rw [hread] at hdrain
  rw [ServerConnection.receive, happend, Except.mapError, ok_bind, RtspServer.onMessage,
    if_pos h.connected, ServerConnection.parse, hdrain] at hrun
  cases hparse : c.context.paraseRequest msg with
  | ok r => exact ⟨r.1, r.2, rfl⟩
  | error e =>
    simp only [Except.mapError, ok_bind, hparse, error_bind] at hrun
    cases hrun

/-! ## Runs -/

/-- The parser of a connection that has handled the messages of `history`. -/
structure Between (history : List (Bytes × Bool)) (c : ServerConnection) : Prop where
  drained : Drained c
  afresh : (∀ x ∈ history.getLast?, x.2 = true) → c.context.state = .start
  past : ∀ x ∈ history.getLast?, x.2 = false → PastMethod c.context.state

theorem Between.step {x : Bytes × Bool} (h : Between history c) (hs : rtspMessages.step c x c') :
    Between (history ++ [x]) c' := by
  obtain ⟨msg, ok⟩ := x
  obtain ⟨⟨ctx, hparse⟩, done, hrun⟩ := hs
  obtain ⟨c₁, hrun₁, hdrained, hctx⟩ := h.drained.receive (h.drained.ne_nil hrun) hparse
  obtain ⟨rfl, rfl⟩ := Prod.mk.inj (Except.ok.inj (hrun₁.symm.trans hrun))
  refine ⟨hdrained, fun hlast => ?_, fun x hx hfalse => ?_⟩
  · have hok : ok = true := hlast (msg, ok) (by simp)
    rw [hctx, if_pos hok]
    rfl
  · obtain rfl : (msg, ok) = x := by simpa using hx
    simp only at hfalse
    subst hfalse
    rw [hctx, if_neg (by simp)]
    exact paraseRequest_pastMethod hparse

/-- **The parser between two messages.** It is in its start state behind a message that it has
accepted, and past a method behind one that it has rejected. -/
theorem rtspMessages_between (hr : rtspMessages.Run history c) : Between history c := by
  apply hr.history
  · rintro _ rfl
    exact ⟨drained_new, fun _ => rfl, by simp⟩
  · intro history c x c' hI hs
    exact hI.step hs

/-- A message that a fresh parser accepts is dispatched by a parser in its start state. -/
theorem Drained.dispatches (h : Drained c) (hstart : c.context.state = .start)
    (hparse : HttpContext.paraseRequest {} msg = .ok (ctx, true)) :
    RtspServer.Dispatches c msg := by
  have hctx : c.context = ⟨c.context.request, .start⟩ := by rw [← hstart]
  obtain ⟨p, fs, rest, rfl, hp⟩ := exists_head_of_complete rfl hparse
  have hrun := paraseRequest_head hp c.context.request rest
  have hrun' := hrun
  rw [← hctx] at hrun'
  obtain ⟨c', hreceive, -⟩ := h.receive (by simp) hrun'
  exact ⟨_, c', hrun, hreceive⟩

/-- What is dispatched behind a rejected message has the method of an earlier one. -/
theorem Drained.not_dispatches (h : Drained c) (hpast : PastMethod c.context.state)
    (q : CanonicalRequest) (hmethod : q.method ≠ c.context.request.method) :
    ¬ RtspServer.Dispatches c q.serialize := by
  rintro ⟨ctx, c', hparse, hrun⟩
  -- the method that the parser reads from its start state
  have hhead := paraseRequest_head q.reads_head c.context.request q.body
  obtain ⟨rfl, -⟩ := Prod.mk.inj (Except.ok.inj (hhead.symm.trans hparse))
  have hread : ((c.context.request.applyAll q.setters).finishHead q.body).method = q.method := by
    rw [HttpRequest.method_finishHead, (q.reads_head.applyAll_fields _ {}).1, q.applyAll_setters]
    rfl
  -- the method of the request that is dispatched
  obtain ⟨ctx₁, ok, hparse₁⟩ := h.exists_parse hrun
  obtain ⟨c₁, hrun₁, -⟩ := h.receive (h.ne_nil hrun) hparse₁
  have hdone := (Prod.mk.inj (Except.ok.inj (hrun₁.symm.trans hrun))).2
  cases ok with
  | false => cases hdone
  | true =>
    obtain ⟨hrequest, -⟩ := List.cons.inj hdone
    have hkept := paraseRequest_method hpast hparse₁
    rw [ServerAction.request.inj hrequest, hread] at hkept
    exact hmethod hkept

/-- `PUT / HTTP/1.1`. -/
def putSlash : CanonicalRequest where
  __ := CanonicalRequest.getSlash
  method := ofString "PUT"
  method_ne := by decide
  method_upper := forall_mem_of_all (by decide)

/-- Behind a rejected message, some request is not dispatched. -/
theorem Between.exists_not_dispatches (h : Between history c) {x : Bytes × Bool}
    (hx : x ∈ history.getLast?) (hrejected : x.2 = false) :
    ∃ q : CanonicalRequest, ¬ RtspServer.Dispatches c q.serialize := by
  have hpast := h.past x hx hrejected
  -- one of two methods is not the one in the request
  by_cases hget : c.context.request.method = ofString "GET"
  · refine ⟨putSlash, h.drained.not_dispatches hpast putSlash ?_⟩
    rw [hget]
    decide
  · exact ⟨.getSlash, h.drained.not_dispatches hpast .getSlash (Ne.symm hget)⟩

/-- **The next message is dispatched exactly when the last one was accepted**, or when it is the
first. Behind a rejected message some message that a fresh parser accepts is not. -/
theorem dispatches_next_iff (hr : rtspMessages.Run history c) :
    (∀ msg ctx, HttpContext.paraseRequest {} msg = .ok (ctx, true) →
      RtspServer.Dispatches c msg) ↔ ∀ x ∈ history.getLast?, x.2 = true := by
  have hbetween := rtspMessages_between hr
  constructor
  · intro h x hx
    by_contra hok
    obtain ⟨q, hq⟩ := hbetween.exists_not_dispatches hx (by simpa using hok)
    exact hq (h _ _ q.serialize_accepted)
  · intro hlast msg ctx hparse
    exact hbetween.drained.dispatches (hbetween.afresh hlast) hparse

/-- Behind a rejected message that is no part of a request, the parser rejects all others. -/
theorem rtspMessages_silent (h : c.context.state = .kInvalid) (hdrained : Drained c)
    (hs : rtspMessages.Steps c history c') :
    c'.context.state = .kInvalid ∧ ∀ x ∈ history, x.2 = false := by
  suffices hinv : Drained c' ∧ c'.context.state = .kInvalid ∧ ∀ x ∈ history, x.2 = false from hinv.2
  apply hs.history (I := fun xs t => Drained t ∧ t.context.state = .kInvalid ∧
    ∀ x ∈ xs, x.2 = false)
  · exact ⟨hdrained, h, by simp⟩
  · rintro xs t ⟨msg, ok⟩ u ⟨hdr, hst, hxs⟩ ⟨⟨ctx, hparse⟩, done, hrun⟩
    have hkept := paraseRequest_kInvalid t.context.request msg
    rw [show (⟨t.context.request, .kInvalid⟩ : HttpContext) = t.context by rw [← hst]] at hkept
    obtain ⟨rfl, rfl⟩ := Prod.mk.inj (Except.ok.inj (hkept.symm.trans hparse))
    obtain ⟨u', hrun', hdr', hctx⟩ := hdr.receive (hdr.ne_nil hrun) hparse
    obtain ⟨rfl, -⟩ := Prod.mk.inj (Except.ok.inj (hrun'.symm.trans hrun))
    refine ⟨hdr', by simpa [hctx] using hst, ?_⟩
    simpa [or_imp, forall_and] using hxs

end Messages

/-- An interleaved RTCP frame, which begins with a dollar sign. -/
def rtcpFrame : Bytes := ascii '$' :: ofString "frame"

theorem rtspMessages_rtcpFrame : ∃ c, rtspMessages.Run [(rtcpFrame, false)] c := by
  have hparse : (HttpContext.paraseRequest {} rtcpFrame).map Prod.snd = .ok false := by decide
  cases hrun : HttpContext.paraseRequest {} rtcpFrame with
  | error e => simp [hrun, Except.map] at hparse
  | ok r =>
    obtain ⟨ctx, ok⟩ := r
    simp only [hrun, Except.map, Except.ok.injEq] at hparse
    subst hparse
    obtain ⟨c', hreceive, -⟩ := drained_new.receive (by decide) hrun
    have hinit : rtspMessages.Run [] {} := .nil rfl
    exact ⟨c', hinit.snoc ⟨⟨ctx, hrun⟩, _, hreceive⟩⟩

/-- Behind an interleaved frame some request is not dispatched. -/
theorem dispatches_next_rtcpFrame :
    ∃ c, rtspMessages.Run [(rtcpFrame, false)] c ∧
      ¬ ∀ msg ctx, HttpContext.paraseRequest {} msg = .ok (ctx, true) →
        RtspServer.Dispatches c msg := by
  obtain ⟨c, hr⟩ := rtspMessages_rtcpFrame
  refine ⟨c, hr, fun h => ?_⟩
  have hlast := (dispatches_next_iff hr).mp h (rtcpFrame, false) rfl
  cases hlast

/-- After an interleaved frame from the player, its next request is dropped. -/
theorem not_forall_dispatches :
    ¬ ∀ (history : List (Bytes × Bool)) (c : ServerConnection), rtspMessages.Run history c →
      ∀ msg ctx, HttpContext.paraseRequest {} msg = .ok (ctx, true) →
        RtspServer.Dispatches c msg := by
  intro h
  obtain ⟨c, hr⟩ := rtspMessages_rtcpFrame
  obtain ⟨q, hq⟩ := (rtspMessages_between hr).exists_not_dispatches
    (x := (rtcpFrame, false)) rfl rfl
  exact hq (h _ _ hr _ _ q.serialize_accepted)

end CppServerStudio
