import CppServerStudio.Http.Context
import CppServerStudio.Http.Response
import CppServerStudio.NetWork.TcpConnection

/-!
# The HTTP server's message handler

`HttpServer::onMessage` takes all readable bytes out of the read buffer and parses them in one
call. The response callback of the application is a parameter, and the sends of the handler
succeed.

## Main definitions

* `ServerConnection`: what the handlers of both servers use of a connection
* `ServerAction`: what a handler does, in order
* `HttpServer.onMessage`: the handler
* `ServerConnection.receive`: the bytes of a readiness event, handled by a server
* `Holding c msg`: a connection whose read buffer holds a first message

## Main results

* `ServerConnection.parse_eq`: a handler parses the whole read buffer and leaves it empty
* `HttpServer.onMessage_of_true`, `HttpServer.onMessage_of_false`: what the handler does on a
  message that the parser completes, and on one that it does not
-/

namespace CppServerStudio

open Scanning

/-- The failures that end a server: a throw of the parser, or a failure of the read buffer. -/
inductive ServerFault
  | range (e : RangeError)
  | buffer (e : BufferFault)
  deriving DecidableEq

/-- The state, the read buffer and the parser of a connection. -/
structure ServerConnection where
  state : ConnectionState := .connected
  readBuf : Buffer := Buffer.new
  context : HttpContext := {}

/-- What a handler does. -/
inductive ServerAction
  /-- `HTTP/1.1 400 Bad Request` is sent. -/
  | badRequest
  /-- A complete request is dispatched. -/
  | request (r : HttpRequest)
  /-- The response to a request is sent. -/
  | response (message : Bytes)
  /-- `HandleClose` is called. -/
  | close

namespace ServerAction

/-- The bytes an action passes to `Send`. -/
def sent : ServerAction → Bytes
  | badRequest => ofString "HTTP/1.1 400 Bad Request\r\n\r\n"
  | response message => message
  | _ => []

def isBadRequest : ServerAction → Bool
  | badRequest => true
  | _ => false

/-- The request that an action dispatches. -/
def request? : ServerAction → Option HttpRequest
  | request r => some r
  | _ => none

end ServerAction

namespace ServerConnection

/-- `RetrieveAllAsString` on the read buffer, and one call of the parser on it. -/
def parse (c : ServerConnection) : Except ServerFault (ServerConnection × Bool) := do
  -- what the parser has not used of `msg` is gone
  let (readBuf, msg) ← c.readBuf.retrieveAllAsString.mapError .buffer
  let (context, ok) ← (c.context.paraseRequest msg).mapError .range
  .ok ({ c with readBuf := readBuf, context := context }, ok)

def resetContextStatus (c : ServerConnection) : ServerConnection :=
  { c with context := c.context.resetContextStatus }

end ServerConnection

namespace HttpServer

/-- The response to a request, which the application's callback fills, is sent. -/
def onRequest (callback : HttpRequest → HttpResponse → HttpResponse) (c : ServerConnection)
    (request : HttpRequest) : ServerConnection × List ServerAction :=
  let connectionState := request.getHeader (ofString "Connection")
  let close : Bool := connectionState = ofString "Close" ∨
    request.version = ofString "1.0" ∧ connectionState ≠ ofString "keep-alive"
  let response := callback request { closeConnection := close }
  if response.closeConnection then
    ({ c with state := .disconected }, [.response response.message, .close])
  else (c, [.response response.message])

/-- **`HttpServer::onMessage`**. A call of the parser that leaves the request incomplete is
answered like an invalid one. -/
def onMessage (callback : HttpRequest → HttpResponse → HttpResponse) (c : ServerConnection) :
    Except ServerFault (ServerConnection × List ServerAction) :=
  if c.state = .connected then do
    let (c, ok) ← c.parse
    -- `false` also comes for a request of which a part is still to come
    let (c, rejected) :=
      if ok then (c, []) else ({ c with state := .disconected }, [.badRequest, .close])
    if c.context.getCompleteRequest then
      let request := c.context.request
      let (c, answered) := onRequest callback c request
      .ok (c.resetContextStatus, rejected ++ .request request :: answered)
    else .ok (c, rejected)
  else .ok (c, [])

end HttpServer

namespace ServerConnection

/-- A readiness event reads `chunk` into the read buffer and calls the handler. -/
def receive
    (onMessage : ServerConnection → Except ServerFault (ServerConnection × List ServerAction))
    (c : ServerConnection) (chunk : Bytes) :
    Except ServerFault (ServerConnection × List ServerAction) := do
  let readBuf ← (c.readBuf.append chunk).mapError .buffer
  onMessage { c with readBuf := readBuf }

/-- Consecutive readiness events. -/
def receiveAll
    (onMessage : ServerConnection → Except ServerFault (ServerConnection × List ServerAction)) :
    ServerConnection → List Bytes → Except ServerFault (ServerConnection × List ServerAction)
  | c, [] => .ok (c, [])
  | c, chunk :: chunks => do
    let (c, done) ← c.receive onMessage chunk
    let (c, later) ← c.receiveAll onMessage chunks
    .ok (c, done ++ later)

end ServerConnection

/-! ## What a handler parses -/

/-- A connected connection with a fresh parser, whose read buffer holds the bytes `msg`. -/
structure Holding (c : ServerConnection) (msg : Bytes) : Prop where
  connected : c.state = .connected
  fresh : c.context = {}
  valid : c.readBuf.Valid
  readable : c.readBuf.readable = msg

theorem exists_holding (msg : Bytes) : ∃ c, Holding c msg := by
  obtain ⟨readBuf, -, hvalid, hread⟩ := Buffer.valid_new.append msg
  rw [Buffer.readable_new, List.nil_append] at hread
  exact ⟨{ readBuf := readBuf }, rfl, rfl, hvalid, hread⟩

/-- **A handler parses the whole read buffer**, and leaves none of it. -/
theorem ServerConnection.parse_eq {c : ServerConnection} (hvalid : c.readBuf.Valid)
    (hne : c.readBuf.readable ≠ []) {ctx : HttpContext} {ok : Bool}
    (hparse : c.context.paraseRequest c.readBuf.readable = .ok (ctx, ok)) :
    c.parse = .ok ({ c with readBuf := c.readBuf.retrieveAll, context := ctx }, ok) := by
  rw [ServerConnection.parse, hvalid.retrieveAllAsString hne]
  simp only [Except.mapError, ok_bind, hparse]

theorem Holding.parse {c : ServerConnection} {msg : Bytes} (h : Holding c msg) (hne : msg ≠ [])
    {ctx : HttpContext} {ok : Bool} (hparse : HttpContext.paraseRequest {} msg = .ok (ctx, ok)) :
    c.parse = .ok ({ c with readBuf := c.readBuf.retrieveAll, context := ctx }, ok) := by
  apply ServerConnection.parse_eq h.valid
  · rwa [h.readable]
  · rwa [h.fresh, h.readable]

/-- A call of the parser returns whether the request is complete. -/
theorem getCompleteRequest_of_paraseRequest {ctx ctx' : HttpContext} {msg : Bytes} {ok : Bool}
    (h : ctx.paraseRequest msg = .ok (ctx', ok)) : ctx'.getCompleteRequest = ok := by
  obtain ⟨cur, -, hcur⟩ := bind_eq_ok.mp h
  obtain ⟨rfl, rfl⟩ := Prod.mk.inj (Except.ok.inj hcur)
  rfl

namespace HttpServer

variable {callback : HttpRequest → HttpResponse → HttpResponse} {c : ServerConnection}
  {msg : Bytes} {ctx : HttpContext}

theorem onRequest_spec (callback : HttpRequest → HttpResponse → HttpResponse)
    (c : ServerConnection) (r : HttpRequest) :
    (onRequest callback c r).1.readBuf = c.readBuf ∧
    ∀ a ∈ (onRequest callback c r).2, a.isBadRequest = false ∧ a.request? = none := by
  simp only [onRequest]
  split_ifs <;> simp [ServerAction.isBadRequest, ServerAction.request?]

/-- A message that the parser completes is dispatched once, and nothing is rejected. -/
theorem onMessage_of_true (callback : HttpRequest → HttpResponse → HttpResponse)
    (h : Holding c msg) (hne : msg ≠ [])
    (hparse : HttpContext.paraseRequest {} msg = .ok (ctx, true)) :
    ∃ c' answered, onMessage callback c = .ok (c', .request ctx.request :: answered) ∧
      c'.readBuf = c.readBuf.retrieveAll ∧
      ∀ a ∈ answered, a.isBadRequest = false ∧ a.request? = none := by
  have hcomplete := getCompleteRequest_of_paraseRequest hparse
  have hspec := onRequest_spec callback
    { c with readBuf := c.readBuf.retrieveAll, context := ctx } ctx.request
  refine ⟨ServerConnection.resetContextStatus (onRequest callback _ ctx.request).1, _, ?_,
    hspec.1, hspec.2⟩
  rw [onMessage, if_pos h.connected, h.parse hne hparse, ok_bind]
  simp only [if_true, hcomplete, List.nil_append]

/-- A message that the parser does not complete is answered with `400` and a close. -/
theorem onMessage_of_false (h : Holding c msg) (hne : msg ≠ [])
    (hparse : HttpContext.paraseRequest {} msg = .ok (ctx, false)) :
    onMessage callback c =
      .ok ({ state := .disconected, readBuf := c.readBuf.retrieveAll, context := ctx },
        [.badRequest, .close]) := by
  have hcomplete := getCompleteRequest_of_paraseRequest hparse
  rw [onMessage, if_pos h.connected, h.parse hne hparse, ok_bind]
  simp [hcomplete]

end HttpServer

/-- The first chunk that a new connection receives is what its read buffer holds. -/
theorem exists_receive_eq
    (onMessage : ServerConnection → Except ServerFault (ServerConnection × List ServerAction))
    (chunk : Bytes) :
    ∃ c, Holding c chunk ∧ ServerConnection.receive onMessage {} chunk = onMessage c := by
  obtain ⟨readBuf, happend, hvalid, hread⟩ := Buffer.valid_new.append chunk
  rw [Buffer.readable_new, List.nil_append] at hread
  refine ⟨{ readBuf := readBuf }, ⟨rfl, rfl, hvalid, hread⟩, ?_⟩
  simp only [ServerConnection.receive, happend, Except.mapError, ok_bind]

end CppServerStudio
