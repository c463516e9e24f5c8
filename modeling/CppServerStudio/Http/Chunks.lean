import CppServerStudio.Http.Isolation
import CppServerStudio.Http.RoundTrip
import CppServerStudio.Rtsp.Server

/-!
# Messages in chunks

A message may arrive in several readiness events. The parse state survives between the calls of
the parser, but the start of the token being read does not, the NUL behind each chunk is read as a
byte of the message, and the HTTP server answers `400` to every call that does not complete the
request.

## Main definitions

* `WholeMessage`, `Chunking`: a message without bytes that the parser ignores, and its chunks
* `ChunkIndependent`: the chunks are served like the message

## Main results

* `chunkIndependent_iff`: chunks are served like the message exactly when there is only one
-/

namespace CppServerStudio

open Scanning

/-- An accepted message with no bytes behind a head that takes no body. -/
structure WholeMessage extends ReadMessage where
  whole : toReadMessage.dropsBody → rest = []

/-- A cut of a message into non-empty chunks. -/
structure Chunking (msg : Bytes) where
  chunks : List Bytes
  ne_nil : ∀ chunk ∈ chunks, chunk ≠ []
  flatten_eq : chunks.flatten = msg

/-- Consecutive calls of the parser, with what they return. -/
def HttpContext.feed : HttpContext → List Bytes → Except RangeError (HttpContext × List Bool)
  | ctx, [] => .ok (ctx, [])
  | ctx, chunk :: chunks => do
    let (ctx, ok) ← ctx.paraseRequest chunk
    let (ctx, oks) ← ctx.feed chunks
    .ok (ctx, ok :: oks)

/-- **Chunk independence**: fed in order, the chunks complete the request of the message; the HTTP
server rejects none of them, and the RTSP server dispatches that request exactly once. -/
structure ChunkIndependent (callback : HttpRequest → HttpResponse → HttpResponse)
    (request : HttpRequest) (chunks : List Bytes) : Prop where
  parsed : ∃ oks, HttpContext.feed {} chunks = .ok (⟨request, .complete⟩, oks)
  accepted : ∃ c actions,
    ServerConnection.receiveAll (HttpServer.onMessage callback) {} chunks = .ok (c, actions) ∧
      ∀ a ∈ actions, a.isBadRequest = false
  dispatched : ∃ c actions,
    ServerConnection.receiveAll RtspServer.onMessage {} chunks = .ok (c, actions) ∧
      actions.filterMap ServerAction.request? = [request]

/-- A complete request is left as it is until the reset. -/
theorem feed_complete (r : HttpRequest) (chunks : List Bytes) :
    HttpContext.feed ⟨r, .complete⟩ chunks =
      .ok (⟨r, .complete⟩, chunks.map fun _ => true) := by
  induction chunks with
  | nil => rfl
  | cons chunk chunks ih =>
    have hrun : HttpContext.paraseRequest ⟨r, .complete⟩ chunk = .ok (⟨r, .complete⟩, true) := by
      rw [HttpContext.paraseRequest, paraseLoop, scan_of_stop rfl, ok_bind]
      rfl
    rw [HttpContext.feed, hrun, ok_bind]
    simp only [ih, ok_bind, List.map_cons]

/-- A message in one chunk. -/
theorem chunkIndependent_single (callback : HttpRequest → HttpResponse → HttpResponse)
    (t : ReadMessage) : ChunkIndependent callback t.request [t.bytes] := by
  have hparse : HttpContext.paraseRequest {} t.bytes = .ok (⟨t.request, .complete⟩, true) :=
    paraseRequest_bytes {} t
  have hne : t.bytes ≠ [] := by simp [ReadMessage.bytes]
  refine ⟨⟨[true], by simp [HttpContext.feed, hparse]⟩, ?_, ?_⟩
  · obtain ⟨c, hc, hrecv⟩ := exists_receive_eq (HttpServer.onMessage callback) t.bytes
    obtain ⟨c', answered, hrun, -, hanswered⟩ :=
      HttpServer.onMessage_of_true callback hc hne hparse
    refine ⟨c', .request t.request :: answered, ?_, ?_⟩
    · simp [ServerConnection.receiveAll, hrecv, hrun]
    · intro a ha
      rcases List.mem_cons.mp ha with rfl | ha
      · rfl
      · exact (hanswered a ha).1
  · obtain ⟨c, hc, hrecv⟩ := exists_receive_eq RtspServer.onMessage t.bytes
    obtain ⟨c', hrun, -⟩ := RtspServer.onMessage_of_parse hc hne hparse
    refine ⟨c', [.request t.request], ?_, rfl⟩
    simp [ServerConnection.receiveAll, hrecv, hrun]

/-- The HTTP server rejects a first chunk that does not complete the request. -/
theorem not_accepted_of_incomplete {callback : HttpRequest → HttpResponse → HttpResponse}
    {chunk : Bytes} {chunks : List Bytes} (hne : chunk ≠ []) {ctx : HttpContext}
    (hparse : HttpContext.paraseRequest {} chunk = .ok (ctx, false)) :
    ¬ ∃ c actions, ServerConnection.receiveAll (HttpServer.onMessage callback) {}
      (chunk :: chunks) = .ok (c, actions) ∧ ∀ a ∈ actions, a.isBadRequest = false := by
  rintro ⟨c, actions, hrun, hnone⟩
  obtain ⟨c₀, hc₀, hrecv⟩ := exists_receive_eq (HttpServer.onMessage callback) chunk
  rw [ServerConnection.receiveAll, hrecv, HttpServer.onMessage_of_false hc₀ hne hparse,
    ok_bind] at hrun
  simp only [bind_eq_ok, Except.ok.injEq, Prod.mk.injEq] at hrun
  obtain ⟨⟨c₁, later⟩, -, -, rfl⟩ := hrun
  simpa [ServerAction.isBadRequest] using hnone .badRequest (by simp)

/-- A first chunk that completes a request does not complete that of a longer message. -/
theorem feed_ne_of_complete (t : WholeMessage) {chunk : Bytes} {chunks : List Bytes}
    (hflat : chunk ++ chunks.flatten = t.bytes) (hne : chunks.flatten ≠ []) {ctx : HttpContext}
    (hparse : HttpContext.paraseRequest {} chunk = .ok (ctx, true)) {oks : List Bool} :
    HttpContext.feed {} (chunk :: chunks) ≠ .ok (⟨t.request, .complete⟩, oks) := by
  obtain ⟨p, fs, rest, rfl, hp⟩ := exists_head_of_complete rfl hparse
  rw [paraseRequest_head hp] at hparse
  intro hfeed
  rw [HttpContext.feed, paraseRequest_head hp, ok_bind] at hfeed
  simp only [feed_complete, ok_bind, Except.ok.injEq, Prod.mk.injEq, HttpContext.mk.injEq,
    and_true] at hfeed
  have hbody := congrArg HttpRequest.body hfeed.1
  rw [List.append_assoc] at hflat
  obtain ⟨rfl, hrest⟩ := hp.head_unique t.reads hflat
  rw [ReadMessage.request, body_finishHead, body_finishHead, hp.applyAll_unique t.reads] at hbody
  split_ifs at hbody with hdrop
  · -- the parser ignores what is behind this head, so the message ends there
    have hnil := t.whole hdrop
    rw [← hrest, List.append_eq_nil_iff] at hnil
    exact hne hnil.2
  · rw [← hrest, List.self_eq_append_right] at hbody
    exact hne hbody

/-- **Chunks are served like the message exactly when there is only one.** -/
theorem chunkIndependent_iff (callback : HttpRequest → HttpResponse → HttpResponse)
    (t : WholeMessage) (q : Chunking t.bytes) :
    ChunkIndependent callback t.request q.chunks ↔ q.chunks = [t.bytes] := by
  obtain ⟨chunks, hchunks, hflat⟩ := q
  simp only
  constructor
  · intro h
    rcases chunks with _ | ⟨chunk, _ | ⟨chunk', chunks⟩⟩
    · simp [ReadMessage.bytes] at hflat
    · rw [← hflat]
      simp
    -- the first of several chunks is an accepted message, or is not answered alone
    · exfalso
      have hne : (chunk' :: chunks).flatten ≠ [] := by simp [hchunks chunk' (by simp)]
      obtain ⟨oks, hfeed⟩ := h.parsed
      cases hparse : HttpContext.paraseRequest {} chunk with
      | error e =>
        rw [HttpContext.feed, hparse] at hfeed
        cases hfeed
      | ok r =>
        obtain ⟨ctx, ok⟩ := r
        cases ok with
        | true => exact feed_ne_of_complete t hflat hne hparse hfeed
        | false => exact not_accepted_of_incomplete (hchunks chunk (by simp)) hparse h.accepted
  · rintro rfl
    exact chunkIndependent_single callback t.toReadMessage

/-- `GET / HTTP/1.1` cut inside its method. -/
theorem not_chunkIndependent_get :
    ¬ ∀ callback (t : WholeMessage) (q : Chunking t.bytes),
      ChunkIndependent callback t.request q.chunks := by
  intro h
  let t : WholeMessage :=
    { head := CanonicalRequest.getSlash.head
      setters := CanonicalRequest.getSlash.setters
      rest := []
      reads := CanonicalRequest.getSlash.reads_head
      whole := fun _ => rfl }
  have hcut : [ofString "GE", ofString "T / HTTP/1.1\r\n\r\n"].flatten = t.bytes := by decide
  obtain ⟨oks, hfeed⟩ := (h (fun _ r => r) t ⟨_, by decide, hcut⟩).parsed
  have hstate : (HttpContext.feed {} [ofString "GE", ofString "T / HTTP/1.1\r\n\r\n"]).map
      (fun r => r.1.state) = .ok .kInvalid := by decide
  simp only at hfeed
  rw [hfeed] at hstate
  simp [Except.map] at hstate

end CppServerStudio
