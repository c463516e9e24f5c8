import CppServerStudio.Http.Server

/-!
# The RTSP server's message handler

`RtspServer::OnMessage` shares the parser with the HTTP server. It only logs what the parser does
not complete.

## Main definitions

* `RtspServer.onMessage`: the handler, which dispatches requests to the session of the connection

## Main results

* `RtspServer.onMessage_of_parse`: what the handler does on a first message
-/

namespace CppServerStudio

open Scanning

/-- **`RtspServer::OnMessage`**. -/
def RtspServer.onMessage (c : ServerConnection) :
    Except ServerFault (ServerConnection × List ServerAction) :=
  if c.state = .connected then do
    let (c, _) ← c.parse
    if c.context.getCompleteRequest then
      .ok (c.resetContextStatus, [.request c.context.request])
    else .ok (c, [])
  else .ok (c, [])

/-- The handler dispatches a message that the parser completes, and drops any other one. -/
theorem RtspServer.onMessage_of_parse {c : ServerConnection} {msg : Bytes} (h : Holding c msg)
    (hne : msg ≠ []) {ctx : HttpContext} {ok : Bool}
    (hparse : HttpContext.paraseRequest {} msg = .ok (ctx, ok)) :
    ∃ c', RtspServer.onMessage c = .ok (c', if ok then [.request ctx.request] else []) ∧
      c'.readBuf = c.readBuf.retrieveAll := by
  have hcomplete := getCompleteRequest_of_paraseRequest hparse
  rw [RtspServer.onMessage, if_pos h.connected, h.parse hne hparse, ok_bind]
  cases ok
  · refine ⟨{ c with readBuf := c.readBuf.retrieveAll, context := ctx }, ?_, rfl⟩
    simp [hcomplete]
  · refine ⟨ServerConnection.resetContextStatus
      { c with readBuf := c.readBuf.retrieveAll, context := ctx }, ?_, rfl⟩
    simp only [hcomplete, if_true]

end CppServerStudio
