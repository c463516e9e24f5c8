import CppServerStudio.Http.RoundTrip
import CppServerStudio.Http.Isolation
import CppServerStudio.Rtsp.Server

/-!
# The body of a message

A message with a `Content-Length` of `n` ends `n` bytes behind its blank line. The parser looks up
another name, takes as body whatever stands behind the blank line in the buffer, and the servers
have drained the buffer by then.

## Main definitions

* `SizedHead`: a derived head with a `Content-Length` header
* `Framed q rest`: the bytes behind the head `q` are framed as its header says

## Main results

* `framed_iff`: the bytes behind a head are framed exactly when they are as many as its header says
-/

namespace CppServerStudio

open Scanning

def contentLength : Bytes := ofString "Content-Length"

/-- A derived head that carries the header `Content-Length: n`. -/
structure SizedHead where
  head : Bytes
  setters : List Setter
  reads : Reads .crLf head setters
  length : ℕ
  header : (HttpRequest.applyAll {} setters).headers[contentLength]? = some (decimal length)

/-- The bytes that a handler leaves in the read buffer of a connection. -/
def Leaves
    (onMessage : ServerConnection → Except ServerFault (ServerConnection × List ServerAction))
    (c : ServerConnection) (left : Bytes) : Prop :=
  ∃ c' actions, onMessage c = .ok (c', actions) ∧ c'.readBuf.readable = left

/-- **Framing of a body**: the head with the bytes `rest` behind its blank line is a complete
request exactly when these are at least as many as the header says; its body is as many of them as
the header says, and the handlers of both servers keep the others in the read buffer. -/
def Framed (q : SizedHead) (rest : Bytes) : Prop :=
  ∃ ctx ok, HttpContext.paraseRequest {} (q.head ++ [CR, LF] ++ rest) = .ok (ctx, ok) ∧
    (ok = true ↔ q.length ≤ rest.length) ∧
    (q.length ≤ rest.length → ctx.request.body = rest.take q.length ∧
      ∀ c, Holding c (q.head ++ [CR, LF] ++ rest) →
        (∀ callback, Leaves (HttpServer.onMessage callback) c (rest.drop q.length)) ∧
        Leaves RtspServer.onMessage c (rest.drop q.length))

/-- Both handlers leave the read buffer empty. -/
theorem leaves_iff {c : ServerConnection} {msg : Bytes} (h : Holding c msg) (hne : msg ≠ [])
    {ctx : HttpContext} (hparse : HttpContext.paraseRequest {} msg = .ok (ctx, true))
    (left : Bytes) :
    ((∀ callback, Leaves (HttpServer.onMessage callback) c left) ∧
      Leaves RtspServer.onMessage c left) ↔ left = [] := by
  have hempty : c.readBuf.retrieveAll.readable = [] := h.valid.retrieveAll.2
  obtain ⟨c', hrun, hbuf⟩ := RtspServer.onMessage_of_parse h hne hparse
  constructor
  · rintro ⟨-, c₁, actions, hrun₁, rfl⟩
    rw [hrun, Except.ok.injEq, Prod.mk.injEq] at hrun₁
    rw [← hrun₁.1, hbuf, hempty]
  · rintro rfl
    refine ⟨fun callback => ?_, c', _, hrun, by rw [hbuf, hempty]⟩
    obtain ⟨c₁, answered, hrun₁, hbuf₁, -⟩ :=
      HttpServer.onMessage_of_true callback h hne hparse
    exact ⟨c₁, _, hrun₁, by rw [hbuf₁, hempty]⟩

/-- **The bytes behind a head are framed exactly when they are as many as its header says**, unless
the header that the parser looks up makes it take no body although there is one. -/
theorem framed_iff (q : SizedHead) (rest : Bytes) :
    Framed q rest ↔
      rest.length = q.length ∧
      ((HttpRequest.applyAll {} q.setters).dropsBody → q.length = 0) := by
  have hparse := paraseRequest_head q.reads {} rest
  have hne : q.head ++ [CR, LF] ++ rest ≠ [] := by simp
  have hbody := body_finishHead q.setters rest
  constructor
  · rintro ⟨ctx, ok, hrun, hcomplete, hrest⟩
    obtain ⟨rfl, rfl⟩ := Prod.mk.inj (Except.ok.inj (hparse.symm.trans hrun))
    -- the whole rest is the body, so it has as many bytes as the header says
    have hle := hcomplete.mp rfl
    obtain ⟨htake, hleft⟩ := hrest hle
    obtain ⟨c, hc⟩ := exists_holding (q.head ++ [CR, LF] ++ rest)
    have hnone := (leaves_iff hc hne hparse _).mp (hleft c hc)
    have hlen : rest.length ≤ q.length := List.drop_eq_nil_iff.mp hnone
    refine ⟨by omega, fun hdrop => ?_⟩
    rw [hbody, if_pos hdrop] at htake
    have hzero := congrArg List.length htake
    rw [List.length_nil, List.length_take] at hzero
    omega
  · rintro ⟨hlen, hdrop⟩
    refine ⟨_, true, hparse, by simp [hlen], fun hle => ⟨?_, fun c hc => ?_⟩⟩
    · rw [hbody]
      split_ifs with hd
      · rw [hdrop hd, List.take_zero]
      · rw [← hlen, List.take_length]
    · rw [leaves_iff hc hne hparse, ← hlen, List.drop_length]

theorem headerText_contentLength : HeaderText contentLength (decimal 5) where
  key_ne := by decide
  key_chars := forall_mem_of_all (by decide)
  key_head := by
    rintro ch ⟨⟩
    decide
  key_ne_contentLenght := by decide
  value_chars := forall_mem_of_all (by decide)

/-- The tokens of `POST / HTTP/1.1` with a `Content-Length` of five. -/
def postFive : CanonicalRequest where
  __ := CanonicalRequest.getSlash
  method := ofString "POST"
  headers := [(contentLength, decimal 5)]
  method_ne := by decide
  method_upper := forall_mem_of_all (by decide)
  headers_text := List.forall_mem_singleton.mpr headerText_contentLength

/-- Two of the five bytes of a body make a complete request. -/
theorem not_framed_short_body : ¬ ∀ (q : SizedHead) (rest : Bytes), Framed q rest := by
  intro h
  have hheader : (HttpRequest.applyAll {} postFive.setters).headers[contentLength]? =
      some (decimal 5) := by
    rw [postFive.applyAll_setters]
    decide
  obtain ⟨ctx, ok, hrun, hcomplete, -⟩ :=
    h ⟨postFive.head, postFive.setters, postFive.reads_head, 5, hheader⟩ (ofString "hi")
  obtain ⟨-, rfl⟩ := Prod.mk.inj
    (Except.ok.inj ((paraseRequest_head postFive.reads_head {} _).symm.trans hrun))
  have hle : 5 ≤ (ofString "hi").length := hcomplete.mp rfl
  revert hle
  decide

end CppServerStudio
