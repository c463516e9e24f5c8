import CppServerStudio.Http.Isolation
import CppServerStudio.Rtsp.Server

/-!
# Bytes in front of the end of the stream

`ReadNonBlocking` reads until the socket has nothing left, and calls `HandleClose` when `read`
returns `0`. The message handler runs behind it, on a connection that is then disconnected.

## Main definitions

* `ReadResult`: what `read` answers
* `ServerConnection.handleMessage`: one readiness event
* `ServedBeforeEnd`: the end of the stream takes no request away from the bytes in front of it

## Main results

* `handleMessage_again`, `handleMessage_endOfStream`: an event that ends in `EAGAIN`, and one that
  ends in the end of the stream
* `not_servedBeforeEnd`: no request is served in the event that ends the stream
-/

namespace CppServerStudio

open Scanning

/-- The answer of `read`: the bytes it has copied, `EINTR`, `EAGAIN` or `EWOULDBLOCK`, the end of
the stream, or another error. -/
inductive ReadResult
  | data (bytes : Bytes)
  | interrupted
  | again
  | endOfStream
  | failed
  deriving DecidableEq

namespace ReadResult

/-- The bytes of an answer. -/
def bytes : ReadResult → Bytes
  | data bytes => bytes
  | _ => []

/-- The loop reads on behind this answer. -/
def continues : ReadResult → Bool
  | data _ | interrupted => true
  | _ => false

end ReadResult

/-- The handlers that the servers register for messages. -/
inductive MessageHandler
  | http (callback : HttpRequest → HttpResponse → HttpResponse)
  | rtsp

def MessageHandler.onMessage : MessageHandler → ServerConnection →
    Except ServerFault (ServerConnection × List ServerAction)
  | http callback => HttpServer.onMessage callback
  | rtsp => RtspServer.onMessage

namespace ServerConnection

/-- **`HandleClose`**. -/
def handleClose (c : ServerConnection) : ServerConnection × List ServerAction :=
  if c.state ≠ .disconected then ({ c with state := .disconected }, [.close]) else (c, [])

/-- **`ReadNonBlocking`**, on the answers of its calls of `read`. -/
def readNonBlocking : ServerConnection → List ReadResult →
    Except ServerFault (ServerConnection × List ServerAction)
  | c, [] => .ok (c, [])
  | c, .data bytes :: results => do
    let readBuf ← (c.readBuf.append bytes).mapError .buffer
    { c with readBuf := readBuf }.readNonBlocking results
  | c, .interrupted :: results => c.readNonBlocking results
  | c, .again :: _ => .ok (c, [])
  | c, .endOfStream :: _ => .ok c.handleClose
  | c, .failed :: _ => .ok c.handleClose

/-- **`HandleMessage`**, the callback of a readiness event. -/
def handleMessage (handler : MessageHandler) (c : ServerConnection) (results : List ReadResult) :
    Except ServerFault (ServerConnection × List ServerAction) := do
  let (c, closed) ← c.readNonBlocking results
  let (c, done) ← handler.onMessage c
  .ok (c, closed ++ done)

/-- Consecutive readiness events. -/
def handleMessages (handler : MessageHandler) : ServerConnection → List (List ReadResult) →
    Except ServerFault (ServerConnection × List ServerAction)
  | c, [] => .ok (c, [])
  | c, results :: events => do
    let (c, done) ← c.handleMessage handler results
    let (c, later) ← c.handleMessages handler events
    .ok (c, done ++ later)

/-- The requests dispatched in consecutive readiness events. -/
def dispatched (handler : MessageHandler) (c : ServerConnection) (events : List (List ReadResult)) :
    Except ServerFault (List HttpRequest) := do
  let (_, done) ← c.handleMessages handler events
  .ok (done.filterMap ServerAction.request?)

end ServerConnection

/-- **Service in front of the end of the stream**: an event that reads `results` and then the end of
the stream dispatches what it does when the end of the stream comes in an event of its own. -/
def ServedBeforeEnd (handler : MessageHandler) (c : ServerConnection)
    (results : List ReadResult) : Prop :=
  c.dispatched handler [results ++ [.endOfStream]] =
    c.dispatched handler [results ++ [.again], [.endOfStream]]

/-! ## What an event reads -/

section Events

variable {c d : ServerConnection} {results : List ReadResult} {handler : MessageHandler}

namespace ServerConnection

theorem state_handleClose (c : ServerConnection) : c.handleClose.1.state = .disconected := by
  rw [handleClose]
  split_ifs with h
  · rfl
  · exact not_not.mp h

theorem readBuf_handleClose (c : ServerConnection) : c.handleClose.1.readBuf = c.readBuf := by
  rw [handleClose]
  split_ifs <;> rfl

/-- A close dispatches nothing. -/
theorem requests_handleClose (c : ServerConnection) :
    c.handleClose.2.filterMap ServerAction.request? = [] := by
  rw [handleClose]
  split_ifs <;> rfl

end ServerConnection

/-- The loop appends the bytes it reads to the read buffer, and goes on. -/
theorem readNonBlocking_append (hvalid : c.readBuf.Valid)
    (hres : ∀ x ∈ results, x.continues) (last : List ReadResult) :
    ∃ readBuf, readBuf.Valid ∧
      readBuf.readable = c.readBuf.readable ++ results.flatMap ReadResult.bytes ∧
      c.readNonBlocking (results ++ last) =
        { c with readBuf := readBuf }.readNonBlocking last := by
  -- Induction on the answers of `read`, which grow the read buffer.
  induction results generalizing c with
  | nil => exact ⟨c.readBuf, hvalid, by simp, rfl⟩
  | cons x results ih =>
    have hrest : ∀ y ∈ results, y.continues := fun y hy => hres y (List.mem_cons_of_mem _ hy)
    cases x with
    | data bytes =>
      obtain ⟨readBuf₁, happend, hvalid₁, hread₁⟩ := hvalid.append bytes
      obtain ⟨readBuf, hvalid₂, hread₂, hrun⟩ :=
        ih (c := { c with readBuf := readBuf₁ }) hvalid₁ hrest
      refine ⟨readBuf, hvalid₂, ?_, ?_⟩
      · simp only [hread₂, hread₁, List.flatMap_cons, ReadResult.bytes, List.append_assoc]
      · rw [List.cons_append, ServerConnection.readNonBlocking, happend]
        exact hrun
    | interrupted =>
      obtain ⟨readBuf, hvalid₂, hread₂, hrun⟩ := ih hvalid hrest
      exact ⟨readBuf, hvalid₂, hread₂, hrun⟩
    -- the other answers end the loop
    | again => exact absurd (hres .again (by simp)) (by simp [ReadResult.continues])
    | endOfStream => exact absurd (hres .endOfStream (by simp)) (by simp [ReadResult.continues])
    | failed => exact absurd (hres .failed (by simp)) (by simp [ReadResult.continues])

/-- The handlers do nothing on a connection that is not connected. -/
theorem MessageHandler.onMessage_of_ne (handler : MessageHandler) (h : c.state ≠ .connected) :
    handler.onMessage c = .ok (c, []) := by
  cases handler with
  | http callback => exact if_neg h
  | rtsp => exact if_neg h

/-- A message that completes the request of a connected connection is dispatched once. -/
theorem MessageHandler.onMessage_of_complete (handler : MessageHandler)
    (hconn : c.state = .connected) (hvalid : c.readBuf.Valid) (hne : c.readBuf.readable ≠ [])
    {ctx : HttpContext} (hparse : c.context.paraseRequest c.readBuf.readable = .ok (ctx, true)) :
    ∃ c' done, handler.onMessage c = .ok (c', done) ∧
      done.filterMap ServerAction.request? = [ctx.request] := by
  have hcomplete := getCompleteRequest_of_paraseRequest hparse
  have hrun := ServerConnection.parse_eq hvalid hne hparse
  cases handler with
  -- the HTTP server also sends the response, and may close the connection
  | http callback =>
    have hspec := HttpServer.onRequest_spec callback
      { c with readBuf := c.readBuf.retrieveAll, context := ctx } ctx.request
    refine ⟨(HttpServer.onRequest callback
      { c with readBuf := c.readBuf.retrieveAll, context := ctx } ctx.request).1.resetContextStatus,
      .request ctx.request :: (HttpServer.onRequest callback
        { c with readBuf := c.readBuf.retrieveAll, context := ctx } ctx.request).2, ?_, ?_⟩
    · rw [MessageHandler.onMessage, HttpServer.onMessage, if_pos hconn, hrun, ok_bind]
      simp only [if_true, hcomplete, List.nil_append]
    -- the response and a close dispatch nothing
    · have hnone := List.filterMap_eq_nil_iff.mpr fun a ha => (hspec.2 a ha).2
      exact congrArg (ctx.request :: ·) hnone
  | rtsp =>
    refine ⟨ServerConnection.resetContextStatus
      { c with readBuf := c.readBuf.retrieveAll, context := ctx }, [.request ctx.request], ?_, rfl⟩
    rw [MessageHandler.onMessage, RtspServer.onMessage, if_pos hconn, hrun, ok_bind]
    simp only [if_true, hcomplete]

/-- Where the loop closes the connection, the handler does nothing. -/
theorem handleMessage_of_close (handler : MessageHandler)
    (hrun : c.readNonBlocking results = .ok d.handleClose) :
    c.handleMessage handler results = .ok d.handleClose := by
  have hdone := handler.onMessage_of_ne (c := d.handleClose.1) (by simp [d.state_handleClose])
  rw [ServerConnection.handleMessage, hrun, ok_bind]
  simp only [hdone, ok_bind, List.append_nil]

/-- **An event that ends in the end of the stream** closes the connection, and the handler does
nothing with what it has read. -/
theorem handleMessage_endOfStream (handler : MessageHandler) (hvalid : c.readBuf.Valid)
    (hres : ∀ x ∈ results, x.continues) :
    ∃ d, c.handleMessage handler (results ++ [.endOfStream]) =
      .ok (ServerConnection.handleClose d) := by
  obtain ⟨readBuf, -, -, hread⟩ := readNonBlocking_append hvalid hres [.endOfStream]
  exact ⟨{ c with readBuf := readBuf }, handleMessage_of_close handler hread⟩

/-- **An event that ends in `EAGAIN`** dispatches the request that it completes. -/
theorem handleMessage_again (handler : MessageHandler) (hconn : c.state = .connected)
    (hvalid : c.readBuf.Valid) (hres : ∀ x ∈ results, x.continues)
    (hne : c.readBuf.readable ++ results.flatMap ReadResult.bytes ≠ []) {ctx : HttpContext}
    (hparse : c.context.paraseRequest (c.readBuf.readable ++ results.flatMap ReadResult.bytes) =
      .ok (ctx, true)) :
    ∃ c' done, c.handleMessage handler (results ++ [.again]) = .ok (c', done) ∧
      done.filterMap ServerAction.request? = [ctx.request] := by
  obtain ⟨readBuf, hvalid', hreadable, hread⟩ := readNonBlocking_append hvalid hres [.again]
  rw [← hreadable] at hne hparse
  obtain ⟨c', done, hrun, hdone⟩ :=
    handler.onMessage_of_complete (c := { c with readBuf := readBuf }) hconn hvalid' hne hparse
  refine ⟨c', done, ?_, hdone⟩
  rw [ServerConnection.handleMessage, hread]
  simp only [ServerConnection.readNonBlocking, ok_bind, hrun, List.nil_append]

/-- Nothing is dispatched in the event that ends the stream. -/
theorem dispatched_endOfStream (handler : MessageHandler) (hvalid : c.readBuf.Valid)
    (hres : ∀ x ∈ results, x.continues) :
    c.dispatched handler [results ++ [.endOfStream]] = .ok [] := by
  obtain ⟨d, hrun⟩ := handleMessage_endOfStream handler hvalid hres
  simp only [ServerConnection.dispatched, ServerConnection.handleMessages, hrun, ok_bind,
    List.append_nil, d.requests_handleClose]

/-- A request is dispatched in front of the event that ends the stream. -/
theorem dispatched_again_endOfStream (handler : MessageHandler) (hconn : c.state = .connected)
    (hvalid : c.readBuf.Valid) (hres : ∀ x ∈ results, x.continues)
    (hne : c.readBuf.readable ++ results.flatMap ReadResult.bytes ≠ []) {ctx : HttpContext}
    (hparse : c.context.paraseRequest (c.readBuf.readable ++ results.flatMap ReadResult.bytes) =
      .ok (ctx, true)) :
    c.dispatched handler [results ++ [.again], [.endOfStream]] = .ok [ctx.request] := by
  obtain ⟨c', done, hrun, hdone⟩ := handleMessage_again handler hconn hvalid hres hne hparse
  have hclose : c'.handleMessage handler [.endOfStream] = .ok c'.handleClose :=
    handleMessage_of_close handler rfl
  simp only [ServerConnection.dispatched, ServerConnection.handleMessages, hrun, hclose, ok_bind,
    List.append_nil, List.filterMap_append, hdone, c'.requests_handleClose]

/-- **No request is served in the event that ends the stream.** It is dispatched when the end of the
stream comes in an event of its own. -/
theorem not_servedBeforeEnd (handler : MessageHandler) (hconn : c.state = .connected)
    (hvalid : c.readBuf.Valid) (hres : ∀ x ∈ results, x.continues)
    (hne : c.readBuf.readable ++ results.flatMap ReadResult.bytes ≠ []) {ctx : HttpContext}
    (hparse : c.context.paraseRequest (c.readBuf.readable ++ results.flatMap ReadResult.bytes) =
      .ok (ctx, true)) :
    c.dispatched handler [results ++ [.endOfStream]] = .ok [] ∧
    c.dispatched handler [results ++ [.again], [.endOfStream]] = .ok [ctx.request] ∧
    ¬ ServedBeforeEnd handler c results := by
  have hnow := dispatched_endOfStream handler hvalid hres
  have hlater := dispatched_again_endOfStream handler hconn hvalid hres hne hparse
  refine ⟨hnow, hlater, ?_⟩
  rw [ServedBeforeEnd, hnow, hlater]
  simp

end Events

/-- `OPTIONS * RTSP/1.0`, read in two parts. -/
def optionsReads : List ReadResult :=
  [.data (ofString "OPTIONS * RT"), .interrupted, .data (ofString "SP/1.0\r\n\r\n")]

theorem readable_optionsReads : ({} : ServerConnection).readBuf.readable ++
    optionsReads.flatMap ReadResult.bytes = ofString "OPTIONS * RTSP/1.0\r\n\r\n" := by
  rw [show ({} : ServerConnection).readBuf.readable = [] from Buffer.readable_new]
  decide

theorem not_servedBeforeEnd_options :
    ∃ r, ServerConnection.dispatched .rtsp {} [optionsReads ++ [.endOfStream]] = .ok [] ∧
      ServerConnection.dispatched .rtsp {} [optionsReads ++ [.again], [.endOfStream]] =
        .ok [r] := by
  obtain ⟨ctx, hparse⟩ := exists_accept (ofString "OPTIONS * RTSP/1.0\r\n\r\n") (by decide)
  rw [← readable_optionsReads] at hparse
  obtain ⟨hnow, hlater, -⟩ := not_servedBeforeEnd .rtsp rfl Buffer.valid_new (by decide)
    (by rw [readable_optionsReads]; decide) hparse
  exact ⟨ctx.request, hnow, hlater⟩

/-- A new connection reads a whole request, and then the end of the stream. -/
theorem not_forall_servedBeforeEnd :
    ¬ ∀ (handler : MessageHandler) (results : List ReadResult) (ctx : HttpContext),
      (∀ x ∈ results, x.continues) →
      HttpContext.paraseRequest {} (results.flatMap ReadResult.bytes) = .ok (ctx, true) →
      ServedBeforeEnd handler {} results := by
  intro h
  obtain ⟨ctx, hparse⟩ := exists_accept (ofString "OPTIONS * RTSP/1.0\r\n\r\n") (by decide)
  have htext := readable_optionsReads
  rw [show ({} : ServerConnection).readBuf.readable = [] from Buffer.readable_new,
    List.nil_append] at htext
  have hserved := h .rtsp optionsReads ctx (by decide) (by rw [htext]; exact hparse)
  rw [← readable_optionsReads] at hparse
  have hlater := dispatched_again_endOfStream .rtsp rfl Buffer.valid_new (by decide)
    (by rw [readable_optionsReads]; decide) hparse
  rw [ServedBeforeEnd, dispatched_endOfStream .rtsp Buffer.valid_new (by decide), hlater] at hserved
  cases hserved

end CppServerStudio
