import CppServerStudio.Http.EndOfStream
import CppServerStudio.NetWork.Epoller

/-!
# Readiness events

A channel calls the read callback of its connection for `EPOLLIN`, `EPOLLPRI` and `EPOLLRDHUP`.
`HandleMessage` reads until the socket has nothing left, and then runs the message handler, which
takes everything out of the read buffer. `RetrieveAllAsString` asserts that there is something.

## Main definitions

* `CallsRead`: the events for which the read callback is called
* `ReadyEvent`, `readSystem`: a connection of a server, under events
* `NeverTrips`: no event of a sequence trips the assertion
* `Brings`: the answers of `read` bring bytes, or close the connection

## Main results

* `BetweenEvents.handleMessage`: what an event does on a connected connection
* `neverTrips_iff`: the sequences of events that do not trip the assertion
-/

namespace CppServerStudio

open Scanning

def EPOLLRDHUP : BitVec 32 := 0x2000

/-- `ready_events_ & (EPOLLIN | EPOLLPRI | EPOLLRDHUP)`; `ready_events_` is a `short`. -/
def CallsRead (events : BitVec 32) : Prop :=
  narrow events &&& (EPOLLIN ||| EPOLLPRI ||| EPOLLRDHUP) ≠ 0

instance (events : BitVec 32) : Decidable (CallsRead events) :=
  inferInstanceAs (Decidable (_ ≠ _))

/-- An event on a connection: what the poller reports, with the answers of `read` if it is called;
or a call of `HandleClose` by a timer, or for an error of `send`. -/
inductive ReadyEvent
  | ready (events : BitVec 32) (results : List ReadResult)
  | closed
  deriving DecidableEq

/-- The answers of the calls of `read` in one event: bytes and `EINTR`, any number of times, and
then another answer. -/
def CompleteReads (results : List ReadResult) : Prop :=
  ∃ pre last, results = pre ++ [last] ∧ (∀ x ∈ pre, x.continues = true) ∧ last.continues = false ∧
    ∀ bytes, .data bytes ∈ pre → bytes ≠ []

/-- The answers are those of one event. -/
def ReadyEvent.Complete : ReadyEvent → Prop
  | ready _ results => CompleteReads results
  | closed => True

/-- **`Channel::HandleEventWithGuard`**, for its read callback. -/
def ServerConnection.handleEvent (handler : MessageHandler) (c : ServerConnection) :
    ReadyEvent → Except ServerFault (ServerConnection × List ServerAction)
  | .ready events results =>
    if CallsRead events then c.handleMessage handler results else .ok (c, [])
  | .closed => .ok c.handleClose

/-- **A connection of a server** under events. -/
def readSystem (handler : MessageHandler) : LTS ServerConnection ReadyEvent where
  init c := c = {}
  step c e c' := e.Complete ∧ ∃ done, c.handleEvent handler e = .ok (c', done)

/-- **No event trips the assertion**. -/
def NeverTrips (handler : MessageHandler) (es : List ReadyEvent) : Prop :=
  ∀ pre e post c, es = pre ++ e :: post → (readSystem handler).Run pre c →
    c.handleEvent handler e ≠ .error (.buffer .assertFailed)

/-- The answers of `read` bring bytes, or close the connection. -/
def Brings (results : List ReadResult) : Prop :=
  (∃ bytes, .data bytes ∈ results) ∨ .again ∉ results

/-- No event is handled by a connected connection without bytes, and without a close. -/
def AlwaysBrings (handler : MessageHandler) (es : List ReadyEvent) : Prop :=
  ∀ pre events results post c, es = pre ++ .ready events results :: post →
    (readSystem handler).Run pre c → c.state = .connected → CallsRead events → Brings results

variable {c : ServerConnection} {handler : MessageHandler} {results : List ReadResult}
  {es : List ReadyEvent}

/-! ## The handlers -/

namespace MessageHandler

/-- On a connected connection with an empty read buffer a handler trips the assertion. -/
theorem onMessage_of_empty (handler : MessageHandler) (hconn : c.state = .connected)
    (hempty : c.readBuf.readablebytes = 0) :
    handler.onMessage c = .error (.buffer .assertFailed) := by
  have hparse : c.parse = .error (.buffer .assertFailed) := by
    rw [ServerConnection.parse, Buffer.retrieveAllAsString, if_pos (by omega)]
    rfl
  cases handler with
  | http callback =>
    rw [onMessage, HttpServer.onMessage, if_pos hconn, hparse, error_bind]
  | rtsp =>
    rw [onMessage, RtspServer.onMessage, if_pos hconn, hparse, error_bind]

/-- Otherwise it empties the read buffer, unless the parser throws. -/
theorem onMessage_of_nonempty (handler : MessageHandler) (hconn : c.state = .connected)
    (hvalid : c.readBuf.Valid) (hne : c.readBuf.readable ≠ []) :
    (∃ e, handler.onMessage c = .error (.range e)) ∨
    ∃ c' done, handler.onMessage c = .ok (c', done) ∧ c'.readBuf = c.readBuf.retrieveAll := by
  cases hrun : c.context.paraseRequest c.readBuf.readable with
  | error e =>
    have hparse : c.parse = .error (.range e) := by
      rw [ServerConnection.parse, hvalid.retrieveAllAsString hne]
      simp only [Except.mapError, ok_bind, hrun, error_bind]
    refine .inl ⟨e, ?_⟩
    cases handler with
    | http callback =>
      rw [onMessage, HttpServer.onMessage, if_pos hconn, hparse, error_bind]
    | rtsp =>
      rw [onMessage, RtspServer.onMessage, if_pos hconn, hparse, error_bind]
  | ok result =>
    obtain ⟨ctx, ok⟩ := result
    have hparse := ServerConnection.parse_eq hvalid hne hrun
    right
    cases handler with
    | http callback =>
      rw [onMessage, HttpServer.onMessage, if_pos hconn, hparse, ok_bind]
      -- the request is dispatched if it is complete, whether it was rejected or not
      simp only
      split_ifs
      · exact ⟨_, _, rfl, (HttpServer.onRequest_spec callback _ _).1⟩
      · exact ⟨_, _, rfl, rfl⟩
      · exact ⟨_, _, rfl, (HttpServer.onRequest_spec callback _ _).1⟩
      · exact ⟨_, _, rfl, rfl⟩
    | rtsp =>
      rw [onMessage, RtspServer.onMessage, if_pos hconn, hparse, ok_bind]
      simp only
      split_ifs
      · exact ⟨_, _, rfl, rfl⟩
      · exact ⟨_, _, rfl, rfl⟩

end MessageHandler

/-! ## One event -/

/-- **Between events** the read buffer of a connected connection is empty. -/
structure BetweenEvents (c : ServerConnection) : Prop where
  valid : c.readBuf.Valid
  empty : c.state = .connected → c.readBuf.readable = []

/-- The last answer of `read` ends the loop, or closes the connection too. -/
theorem readNonBlocking_last (c : ServerConnection) {last : ReadResult}
    (hlast : last.continues = false) :
    (last = .again ∧ c.readNonBlocking [last] = .ok (c, [])) ∨
    (last ≠ .again ∧ c.readNonBlocking [last] = .ok c.handleClose) := by
  cases last with
  | data bytes => cases hlast
  | interrupted => cases hlast
  | again => exact .inl ⟨rfl, rfl⟩
  | endOfStream => exact .inr ⟨by simp, rfl⟩
  | failed => exact .inr ⟨by simp, rfl⟩

/-- A closed connection is between events. -/
theorem betweenEvents_handleClose {d : ServerConnection} (hvalid : d.readBuf.Valid) :
    BetweenEvents d.handleClose.1 where
  valid := d.readBuf_handleClose ▸ hvalid
  empty hconn := by
    rw [d.state_handleClose] at hconn
    cases hconn

/-- The bytes that one event reads are none exactly if it reads no data. -/
theorem CompleteReads.flatMap_bytes {pre : List ReadResult}
    (hdata : ∀ bytes, .data bytes ∈ pre → bytes ≠ []) :
    pre.flatMap ReadResult.bytes ≠ [] ↔ ∃ bytes, .data bytes ∈ pre := by
  rw [Ne, List.flatMap_eq_nil_iff]
  constructor
  · intro h
    simp only [not_forall] at h
    obtain ⟨x, hx, hbytes⟩ := h
    cases x with
    | data bytes => exact ⟨bytes, hx⟩
    | interrupted | again | endOfStream | failed => exact absurd rfl hbytes
  · rintro ⟨bytes, hmem⟩ h
    exact hdata bytes hmem (h _ hmem)

/-- **One event on a connected connection** trips the assertion if it brings nothing; otherwise the
parser may throw, and if it does not, the read buffer is empty again, or the connection closed. -/
theorem BetweenEvents.handleMessage (h : BetweenEvents c) (hconn : c.state = .connected)
    (hres : CompleteReads results) :
    (¬ Brings results ∧ c.handleMessage handler results = .error (.buffer .assertFailed)) ∨
    (Brings results ∧ ((∃ e, c.handleMessage handler results = .error (.range e)) ∨
      ∃ c' done, c.handleMessage handler results = .ok (c', done) ∧ BetweenEvents c')) := by
  obtain ⟨pre, last, rfl, hpre, hlast, hdata⟩ := hres
  obtain ⟨readBuf, hvalid, hread, hrun⟩ := readNonBlocking_append h.valid hpre [last]
  rw [h.empty hconn, List.nil_append] at hread
  have hbytes := CompleteReads.flatMap_bytes hdata
  rcases readNonBlocking_last { c with readBuf := readBuf } hlast with ⟨rfl, hend⟩ | ⟨hne, hend⟩
  · -- the socket has nothing left
    rw [ServerConnection.handleMessage, hrun, hend, ok_bind]
    simp only [List.nil_append]
    have hbrings : Brings (pre ++ [.again]) ↔ readBuf.readable ≠ [] := by
      rw [hread, hbytes, Brings]
      simp
    by_cases hempty : readBuf.readable = []
    · have hlen := hvalid.length_readable
      rw [hempty, List.length_nil] at hlen
      have htrip := handler.onMessage_of_empty (c := { c with readBuf := readBuf }) hconn hlen.symm
      refine .inl ⟨fun hb => hbrings.mp hb hempty, ?_⟩
      rw [htrip, error_bind]
    · refine .inr ⟨hbrings.mpr hempty, ?_⟩
      rcases handler.onMessage_of_nonempty (c := { c with readBuf := readBuf }) hconn hvalid hempty
        with ⟨e, hthrow⟩ | ⟨c', done, hdone, hbuf⟩
      · exact .inl ⟨e, by rw [hthrow, error_bind]⟩
      · refine .inr ⟨c', done, by rw [hdone, ok_bind], ?_, fun _ => ?_⟩
        · exact hbuf ▸ hvalid.retrieveAll.1
        · exact hbuf ▸ hvalid.retrieveAll.2
  · have hbrings : Brings (pre ++ [last]) := by
      refine .inr fun hmem => ?_
      rcases List.mem_append.mp hmem with hmem | hmem
      · cases hpre _ hmem
      · exact hne (List.mem_singleton.mp hmem).symm
    refine .inr ⟨hbrings, .inr ⟨_, _, handleMessage_of_close handler (hrun.trans hend), ?_⟩⟩
    exact betweenEvents_handleClose hvalid

/-- On another connection an event does nothing but read. -/
theorem BetweenEvents.handleMessage_of_ne (h : BetweenEvents c) (hne : c.state ≠ .connected)
    (hres : CompleteReads results) :
    ∃ c' done, c.handleMessage handler results = .ok (c', done) ∧ BetweenEvents c' := by
  obtain ⟨pre, last, rfl, hpre, hlast, -⟩ := hres
  obtain ⟨readBuf, hvalid, -, hrun⟩ := readNonBlocking_append h.valid hpre [last]
  rcases readNonBlocking_last { c with readBuf := readBuf } hlast with ⟨-, hend⟩ | ⟨-, hend⟩
  · have hdone := handler.onMessage_of_ne (c := { c with readBuf := readBuf }) hne
    refine ⟨{ c with readBuf := readBuf }, [], ?_, hvalid, fun hconn => absurd hconn hne⟩
    rw [ServerConnection.handleMessage, hrun, hend, ok_bind]
    simp only [hdone, ok_bind, List.append_nil]
  · exact ⟨_, _, handleMessage_of_close handler (hrun.trans hend),
      betweenEvents_handleClose hvalid⟩

/-! ## Runs of events -/

/-- Between the events of a run the read buffer of a connected connection is empty. -/
theorem readSystem_betweenEvents (h : (readSystem handler).Run es c) : BetweenEvents c := by
  refine h.invariant (I := BetweenEvents) ?_ ?_
  · rintro _ rfl
    exact ⟨Buffer.valid_new, fun _ => Buffer.readable_new⟩
  · rintro c e c' hbetween ⟨hcomplete, done, hrun⟩
    -- an event calls the handler for the flags that `HandleEvent` tests, or nothing
    cases e with
    | ready events results =>
      rw [ServerConnection.handleEvent] at hrun
      split_ifs at hrun with hcalls
      · by_cases hconn : c.state = .connected
        · rcases hbetween.handleMessage hconn hcomplete with
            ⟨-, htrip⟩ | ⟨-, ⟨e, hthrow⟩ | ⟨d, done', hok, hd⟩⟩
          · cases htrip.symm.trans hrun
          · cases hthrow.symm.trans hrun
          · cases hok.symm.trans hrun
            exact hd
        · obtain ⟨d, done', hok, hd⟩ :=
            hbetween.handleMessage_of_ne hconn hcomplete
          cases hok.symm.trans hrun
          exact hd
      · cases hrun
        exact hbetween
    | closed =>
      obtain rfl : c.handleClose.1 = c' := congrArg Prod.fst (Except.ok.inj hrun)
      exact betweenEvents_handleClose hbetween.valid

/-- **The events that do not trip the assertion** are those that always bring bytes, or a close, to
a connected connection. -/
theorem neverTrips_iff (handler : MessageHandler) (es : List ReadyEvent)
    (hes : ∀ e ∈ es, e.Complete) : NeverTrips handler es ↔ AlwaysBrings handler es := by
  constructor
  -- the read buffer is empty, so only the bytes of the event itself can fill it
  · intro h pre events results post c heq hrun hconn hcalls
    have hcomplete : CompleteReads results := hes (.ready events results) (by simp [heq])
    have hnot := h pre (.ready events results) post c heq hrun
    rw [ServerConnection.handleEvent, if_pos hcalls] at hnot
    rcases (readSystem_betweenEvents hrun).handleMessage hconn hcomplete with
      ⟨-, htrip⟩ | ⟨hbrings, -⟩
    · exact absurd htrip hnot
    · exact hbrings
  · intro h pre e post c heq hrun hfail
    have hbetween := readSystem_betweenEvents hrun
    cases e with
    | ready events results =>
      have hcomplete : CompleteReads results := hes (.ready events results) (by simp [heq])
      rw [ServerConnection.handleEvent] at hfail
      split_ifs at hfail with hcalls
      by_cases hconn : c.state = .connected
      · have hbrings := h pre events results post c heq hrun hconn hcalls
        rcases hbetween.handleMessage hconn hcomplete with
          ⟨hnot, -⟩ | ⟨-, ⟨e, hthrow⟩ | ⟨d, done, hok, -⟩⟩
        · exact hnot hbrings
        · cases hthrow.symm.trans hfail
        · cases hok.symm.trans hfail
      · obtain ⟨d, done, hok, -⟩ :=
          hbetween.handleMessage_of_ne hconn hcomplete
        cases hok.symm.trans hfail
    | closed => cases hfail

/-- A request, and an event that reads nothing but the end of the stream. -/
theorem neverTrips_endOfStream : NeverTrips .rtsp
    [.ready EPOLLIN [.data (ofString "OPTIONS * RTSP/1.0\r\n\r\n"), .again],
      .ready EPOLLIN [.interrupted, .endOfStream]] := by
  refine (neverTrips_iff .rtsp _ ?_).mpr ?_
  · simp only [List.forall_mem_cons]
    refine ⟨⟨[_], .again, rfl, by decide, rfl, ?_⟩, ⟨[.interrupted], .endOfStream, rfl, by decide,
      rfl, by simp⟩, by simp⟩
    intro bytes hmem
    obtain rfl := ReadResult.data.inj (List.mem_singleton.mp hmem)
    decide
  · intro pre events results post c heq _ _ _
    have hmem : ReadyEvent.ready events results ∈ pre ++ .ready events results :: post := by simp
    rw [← heq, List.mem_cons, List.mem_singleton] at hmem
    rcases hmem with hmem | hmem <;> obtain ⟨-, rfl⟩ := ReadyEvent.ready.inj hmem
    · exact .inl ⟨_, List.mem_cons_self⟩
    · exact .inr (by simp)

/-- An urgent byte is reported, and `read` answers `EAGAIN` at once. -/
theorem not_neverTrips : ¬ ∀ (handler : MessageHandler) (es : List ReadyEvent),
    (∀ e ∈ es, e.Complete) → NeverTrips handler es := by
  intro h
  have hcomplete : CompleteReads [.again] := ⟨[], .again, rfl, by simp, rfl, by simp⟩
  have hnot := h .rtsp [.ready EPOLLPRI [.again]]
    (fun e he => by rw [List.mem_singleton.mp he]; exact hcomplete) [] _ [] {} rfl (.nil rfl)
  have hcalls : CallsRead EPOLLPRI := by decide
  have htrip := MessageHandler.rtsp.onMessage_of_empty (c := {}) rfl rfl
  rw [ServerConnection.handleEvent, if_pos hcalls, ServerConnection.handleMessage] at hnot
  simp only [ServerConnection.readNonBlocking, ok_bind, htrip, error_bind] at hnot
  exact hnot rfl

end CppServerStudio
