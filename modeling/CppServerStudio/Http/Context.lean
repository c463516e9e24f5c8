import CppServerStudio.Library.Scanning
import CppServerStudio.Http.Request

/-!
# The incremental request parser

`HttpContext` keeps the parse state and the request between calls. One call of `ParaseRequest`
walks its message with three cursors, `start`, `end` and `colon`, which are locals of the call; it
reads the bytes at the indices `0` to `size`, the last being the NUL behind a `std::string`.

The messages of the servers are the readable parts of a `Buffer`, whose indices keep them below
`2 ^ 31` bytes: `paraseRequest` takes the size of such a message as it is. `paraseRequestString`
casts it to an `int`, as the overload for a `std::string` does.

## Main definitions

* `stdString`: `std::string(first, last)` on a message, failing on an ill-formed range
* `ParseCursor`, `paraseStep`: the members and locals of the loop, and one turn of its `switch`
* `HttpContext.paraseRequest`: one call
* `HttpContext.paraseRequestString`: one call on a string of any size
* `HttpContext.serve`, `HttpContext.serveAll`: calls with the reset the servers make after a
  complete request
-/

namespace CppServerStudio

open Scanning

inductive HttpRequestParaseState
  | kInvalid | kInvalidMethod | kInvalidUrl | kInvalidVersion | kInvalidHeader
  | start | method
  | beforeUrl | inUrl
  | beforeUrlParamKey | urlParamKey | beforeUrlParamValue | urlParamValue
  | beforeProtocol | protocol
  | beforeVersion | versionSplit | version
  | header | headerKey
  | headerBeforeColon | headerAfterColon | headerValue
  | whenCr | crLf | crLfCr
  | body | complete
  deriving DecidableEq, Repr

/-- A range `[first, last)` outside a message of `size` bytes, or with its ends exchanged: building
a `std::string` from it throws `std::length_error` or reads outside the message. -/
structure RangeError where
  first : ℕ
  last : ℕ
  size : ℕ
  deriving DecidableEq, Repr

/-- `std::string(first, last)` for two pointers into `msg`. -/
def stdString (msg : Bytes) (first last : ℕ) : Except RangeError Bytes :=
  if first ≤ last ∧ last ≤ msg.length then .ok (msg.extract first last)
  else .error ⟨first, last, msg.length⟩

/-- The members a call updates and the cursors it keeps, as offsets from `begin`. -/
structure ParseCursor where
  state : HttpRequestParaseState
  request : HttpRequest
  start : ℕ
  endPos : ℕ
  colon : ℕ

/-- The loop ends at `kINVALID` and at `COMPLETE`. -/
def ParseCursor.done (c : ParseCursor) : Bool := c.state = .kInvalid || c.state = .complete

/-- The header name the parser looks up, as the source spells it. -/
def contentLenght : Bytes := ofString "Content-Lenght"

/-- The `switch` of the loop on the byte `ch`, before `end++`. -/
def paraseSwitch (msg : Bytes) (ch : Byte) (c : ParseCursor) : Except RangeError ParseCursor :=
  match c.state with
  | .start =>
    if ch = CR ∨ ch = LF ∨ isBlank ch then .ok c
    else if isUpper ch then .ok { c with state := .method }
    else .ok { c with state := .kInvalid }
  | .method =>
    if isUpper ch then .ok c
    else if isBlank ch then do
      let m ← stdString msg c.start c.endPos
      .ok { c with request := c.request.setMethod m, state := .inUrl, start := c.endPos + 1 }
    else .ok { c with state := .kInvalid }
  | .beforeUrl =>
    if ch = ascii '/' then .ok { c with state := .inUrl }
    else if isBlank ch then .ok c
    else .ok { c with state := .kInvalid }
  | .inUrl =>
    if ch = ascii '?' then do
      let u ← stdString msg c.start c.endPos
      .ok { c with request := c.request.setUrl u, start := c.endPos + 1,
                   state := .beforeUrlParamKey }
    else if isBlank ch then do
      let u ← stdString msg c.start c.endPos
      .ok { c with request := c.request.setUrl u, start := c.endPos + 1,
                   state := .beforeProtocol }
    else .ok c
  | .beforeUrlParamKey =>
    if isBlank ch ∨ ch = CR ∨ ch = LF then .ok { c with state := .kInvalid }
    else .ok { c with state := .urlParamKey }
  | .urlParamKey =>
    if ch = ascii '=' then .ok { c with colon := c.endPos, state := .beforeUrlParamValue }
    else if isBlank ch then .ok { c with state := .kInvalid }
    else .ok c
  | .beforeUrlParamValue =>
    if isBlank ch ∨ ch = LF ∨ ch = CR then .ok { c with state := .kInvalid }
    else .ok { c with state := .urlParamValue }
  | .urlParamValue =>
    if ch = ascii '&' then do
      let k ← stdString msg c.start c.colon
      let v ← stdString msg (c.colon + 1) c.endPos
      .ok { c with state := .beforeUrlParamKey, request := c.request.setRequestParams k v,
                   start := c.endPos + 1 }
    else if isBlank ch then do
      let k ← stdString msg c.start c.colon
      let v ← stdString msg (c.colon + 1) c.endPos
      .ok { c with request := c.request.setRequestParams k v, start := c.endPos + 1,
                   state := .beforeProtocol }
    else .ok c
  | .beforeProtocol =>
    if isBlank ch then .ok c else .ok { c with state := .protocol }
  | .protocol =>
    if ch = ascii '/' then do
      let p ← stdString msg c.start c.endPos
      .ok { c with request := c.request.setProtocol p, start := c.endPos + 1,
                   state := .beforeVersion }
    else .ok c
  | .beforeVersion =>
    if isDigit ch then .ok { c with state := .version } else .ok { c with state := .kInvalid }
  | .version =>
    if ch = CR then do
      let v ← stdString msg c.start c.endPos
      .ok { c with request := c.request.setVersion v, start := c.endPos + 1, state := .whenCr }
    else if isDigit ch ∨ ch = ascii '.' then .ok c
    else .ok { c with state := .kInvalid }
  | .headerKey =>
    if ch = ascii ':' then .ok { c with colon := c.endPos, state := .headerValue } else .ok c
  | .headerValue =>
    if isBlank ch then .ok c
    else if ch = CR then do
      -- the value is taken from two bytes behind the colon, whatever stands there
      let k ← stdString msg c.start c.colon
      let v ← stdString msg (c.colon + 2) c.endPos
      .ok { c with request := c.request.addHeader k v, start := c.endPos + 1, state := .whenCr }
    else .ok c
  | .whenCr =>
    if ch = LF then .ok { c with start := c.endPos + 1, state := .crLf }
    else .ok { c with state := .kInvalid }
  | .crLf =>
    if ch = CR then .ok { c with state := .crLfCr }
    else if isBlank ch then .ok { c with state := .kInvalid }
    else .ok { c with state := .headerKey }
  | .crLfCr =>
    if ch = LF then
      if c.request.headers.contains contentLenght then
        if atoi (c.request.getHeader contentLenght) > 0 then
          .ok { c with state := .body, start := c.endPos + 1 }
        else .ok { c with state := .complete, start := c.endPos + 1 }
      else if c.endPos < msg.length then .ok { c with state := .body, start := c.endPos + 1 }
      else .ok { c with state := .complete, start := c.endPos + 1 }
    else .ok { c with state := .kInvalid }
  | .body => do
    let b ← stdString msg c.start (c.start + (msg.length - c.endPos))
    .ok { c with request := c.request.setBody b, state := .complete }
  | _ => .ok { c with state := .kInvalid }

/-- One turn of the loop: the `switch`, then `end++`. -/
def paraseStep (msg : Bytes) (ch : Byte) (c : ParseCursor) : Except RangeError ParseCursor := do
  let c ← paraseSwitch msg ch c
  .ok { c with endPos := c.endPos + 1 }

/-- The loop of a call on `msg`, over the bytes that are left and the terminating NUL. -/
def paraseLoop (msg : Bytes) : List Byte → ParseCursor → Except RangeError ParseCursor :=
  scan ParseCursor.done (paraseStep msg)

/-- The parser of one connection: the request and the state kept between calls. -/
structure HttpContext where
  request : HttpRequest := {}
  state : HttpRequestParaseState := .start
  deriving DecidableEq

namespace HttpContext

def getCompleteRequest (ctx : HttpContext) : Bool := ctx.state = .complete

def resetContextStatus (ctx : HttpContext) : HttpContext := { ctx with state := .start }

/-- The cursors at the start of a call. -/
def cursor (ctx : HttpContext) : ParseCursor := ⟨ctx.state, ctx.request, 0, 0, 0⟩

/-- **`ParaseRequest`** on a `std::string` whose size is an `int`: the context after the call and
what it returns. A call that fails has thrown out of the loop, and nothing in the servers catches
it. -/
def paraseRequest (ctx : HttpContext) (msg : Bytes) : Except RangeError (HttpContext × Bool) := do
  let c ← paraseLoop msg (msg ++ [NUL]) ctx.cursor
  .ok (⟨c.request, c.state⟩, c.state = .complete)

/-- **`ParaseRequest(const char*, int)`** on the bytes from `begin` on. The loop tests
`end - begin <= size`, so it does not run on a negative size, and reads one byte behind the
others. -/
def paraseRequestSized (ctx : HttpContext) (begin : Bytes) (size : ℤ) :
    Except RangeError (HttpContext × Bool) :=
  if size < 0 then .ok (ctx, ctx.state = .complete)
  else do
    let c ← paraseLoop (begin.take size.toNat) (begin.take (size.toNat + 1)) ctx.cursor
    .ok (⟨c.request, c.state⟩, c.state = .complete)

/-- **`ParaseRequest(const std::string&)`**, which casts the size to an `int`. -/
def paraseRequestString (ctx : HttpContext) (msg : Bytes) :
    Except RangeError (HttpContext × Bool) :=
  ctx.paraseRequestSized (msg ++ [NUL]) (intOfSize msg.length)

theorem paraseRequestString_of_lt (ctx : HttpContext) {msg : Bytes} (h : msg.length < 2 ^ 31) :
    ctx.paraseRequestString msg = ctx.paraseRequest msg := by
  have hall : (msg ++ [NUL]).take (msg.length + 1) = msg ++ [NUL] :=
    List.take_of_length_le (by simp)
  rw [paraseRequestString, paraseRequestSized, intOfSize_of_lt h, if_neg (by omega),
    Int.toNat_natCast, List.take_left, hall]
  rfl

/-- From `2 ^ 31` bytes on the size is negative, and the parser reads nothing. -/
theorem paraseRequestString_of_ge (ctx : HttpContext) {msg : Bytes} (h : 2 ^ 31 ≤ msg.length)
    (h' : msg.length < 2 ^ 32) :
    ctx.paraseRequestString msg = .ok (ctx, ctx.state = .complete) := by
  rw [paraseRequestString, paraseRequestSized, if_pos (intOfSize_neg h h')]

/-- A call followed by `ResetContextStatus` when the request is complete, as both servers make
it. -/
def serve (ctx : HttpContext) (msg : Bytes) : Except RangeError HttpContext := do
  let (ctx, _) ← ctx.paraseRequest msg
  .ok (if ctx.getCompleteRequest then ctx.resetContextStatus else ctx)

/-- The messages of one connection, served in order. -/
def serveAll : HttpContext → List Bytes → Except RangeError HttpContext
  | ctx, [] => .ok ctx
  | ctx, msg :: msgs => do
    let ctx ← ctx.serve msg
    ctx.serveAll msgs

end HttpContext

end CppServerStudio
