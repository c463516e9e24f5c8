import CppServerStudio.Http.Reactors

/-!
# A response before the close of its connection

`HttpServer::onRequest` sends its response and then calls `HandleClose`. Nothing that takes the
connection down looks at `send_buf_`, so what the socket did not take at once can be lost: exactly
the responses that are accepted whole by the one write of their `Send` are delivered in all
continuations.

## Main definitions

* `HttpReactors.Answering`: a thread is about to send a response that closes its connection
* `HttpReactors.DeliveredBeforeClose`: the response is accepted before the descriptor is closed

## Main results

* `HttpReactors.Serving.canReach_closed`: a connection can be closed with what waits to be sent
* `deliveredBeforeClose_iff`: the responses that are delivered whole
-/

namespace CppServerStudio

open Scanning

namespace HttpReactors

variable {callback : HttpRequest → HttpResponse → HttpResponse} {threadNums : ℕ}
  {s t u : HttpReactors} {c : ℕ} {own : LoopId}

/-- A thread is in `onRequest`, about to send a response that closes the connection. -/
def Answering (s : HttpReactors) (thread : LoopId) (c : ℕ) (message : Bytes) : Prop :=
  s.handling thread = some (c, [.response message, .close])

/-- The socket has accepted the response that was sent in the state `s`, and all before it, in each
state after `t` in which the descriptor is closed. -/
def DeliveredBeforeClose (M : LTS HttpReactors HttpStep) (s t : HttpReactors) (c : ℕ)
    (message : Bytes) : Prop :=
  ∀ later u, M.Steps t later u → (u.reactors.conn c).closed = true →
    s.accepted c ++ s.waiting c ++ message <+: u.accepted c

/-! ## The way to the close -/

/-- A connection that was seen closed, and what its socket has accepted. -/
structure Leaving (s : HttpReactors) (c : ℕ) (own : LoopId) (accepted : Bytes) : Prop where
  serving : s.Serving
  doomed : s.reactors.Doomed c own
  accepted_eq : s.accepted c = accepted

variable {bytes : Bytes}

theorem Follows.doomed (h : s.Follows t) (hdoomed : s.reactors.Doomed c own) :
    t.reactors.Doomed c own := by
  obtain ⟨horderly, hhoused, hkeeps⟩ := h.keeps hdoomed.orderly hdoomed.housed
  obtain ⟨hmade, hown, hstate⟩ := hkeeps c hdoomed.made
  exact ⟨horderly, hhoused, hmade, hstate hdoomed.state, hown.trans hdoomed.own_loop⟩

/-- What `thread` has left to do in its handler, and the threads that are about to call
`on_close_`. -/
def leavingRank (thread : LoopId) (t : HttpReactors) : ℕ :=
  t.reactors.closing.length + 2 * ((t.handling thread).elim 0 fun x => x.2.length + 1)

/-- A thread returns from its handler. Its sockets need not accept anything on the way. -/
theorem Leaving.canReach_left (h : s.Leaving c own bytes) (thread : LoopId) :
    (httpSystem callback threadNums).CanReach (fun _ => True) s fun t =>
      (t.Leaving c own bytes ∧ ∀ l, l ≠ thread → t.handling l = s.handling l) ∧
        t.handling thread = none := by
  refine LTS.CanReach.of_rank (leavingRank thread) ?_ ⟨h, fun _ _ => rfl⟩
  rintro t ⟨h, hkept⟩ hne
  -- first the calls of `on_close_`, as they hold their threads up, then the handler
  by_cases hclosing : t.reactors.closing = []
  · have hfree : t.reactors.Free thread := by
      intro c' hc'
      simp [hclosing] at hc'
    obtain ⟨⟨c', actions⟩, hhandling⟩ := Option.ne_none_iff_exists'.mp hne
    cases actions with
    | nil =>
      have he : t.Enabled (.leave thread) := ⟨hfree, c', hhandling⟩
      obtain ⟨u, hact, hserving, hfollows, -⟩ := h.serving.act callback he
      obtain rfl := Except.ok.inj hact
      refine ⟨.leave thread, _, trivial, ⟨he, rfl⟩,
        ⟨⟨hserving, hfollows.doomed h.doomed, h.accepted_eq⟩, fun l hl => ?_⟩, ?_⟩
      · simpa [HttpReactors.setHandling, hl] using hkept l hl
      · simp [leavingRank, HttpReactors.setHandling, hhandling]
    | cons action rest =>
      obtain ⟨u, hperform, hserving, hfollows, hhandling', hlength, hbytes⟩ :=
        h.serving.perform hfree hhandling .again trivial
      have hact : t.act callback (.perform thread .again) = .ok u := by
        rw [HttpReactors.act, hperform]
        rfl
      refine ⟨.perform thread .again, u, trivial,
        ⟨⟨hfree, c', action, rest, hhandling, trivial⟩, hact⟩,
        ⟨⟨hserving, hfollows.doomed h.doomed, ?_⟩, fun l hl => ?_⟩, ?_⟩
      · rw [(hbytes c).2 rfl, h.accepted_eq]
      · rw [hhandling', Function.update_of_ne hl, hkept l hl]
      · simp only [leavingRank, hhandling', hhandling, Function.update_self, Option.elim_some,
          List.length_cons]
        omega
  · obtain ⟨⟨thread', c'⟩, hmem⟩ := List.exists_mem_of_ne_nil _ hclosing
    have ha : t.reactors.Enabled (.onClose thread' c') := hmem
    obtain ⟨u, hreactor, hserving, hfollows, hact, hhandling, hbytes⟩ := h.serving.reactor ha
    have he : t.Enabled (.reactor (.onClose thread' c')) := by
      refine ⟨ha, ?_, ?_⟩
      · intro l hl
        cases hl
      · intro c hc
        cases hc
    refine ⟨.reactor (.onClose thread' c'), u, trivial, ⟨he, ?_⟩,
      ⟨⟨hserving, hfollows.doomed h.doomed, ?_⟩, fun l hl => ?_⟩, ?_⟩
    · rw [HttpReactors.act, hreactor]
      rfl
    · rw [hbytes c h.doomed.made, h.accepted_eq]
    · rw [hhandling, hkept l hl]
    · obtain ⟨-, -, hclosing', -⟩ := Reactors.onClose_spec hact
      simp only [leavingRank, hhandling, hclosing', List.length_erase_of_mem hmem]
      have := List.length_pos_of_mem hmem
      omega

/-- The steps that take a connection down, with the threads that take them outside of handlers. -/
structure Following (r : Reactors) (s : HttpReactors) (c : ℕ) (own : LoopId) (accepted : Bytes) :
    Prop where
  leaving : s.Leaving c own accepted
  reactors_eq : s.reactors = r
  main : s.handling .main = none
  own_idle : s.handling own = none

theorem Following.step {r r' : Reactors} {a : ReactorAction} (h : Following r s c own bytes)
    (htakes : a.TakesDown c own) (ha : (reactorSystem threadNums).step r a r') :
    ∃ t, (httpSystem callback threadNums).step s (.reactor a) t ∧ Following r' t c own bytes := by
  obtain ⟨henabled, hact⟩ := ha
  obtain rfl := h.reactors_eq
  obtain ⟨t, hreactor, hserving, hfollows, hact', hhandling, hbytes⟩ :=
    h.leaving.serving.reactor henabled
  obtain rfl := Except.ok.inj (hact.symm.trans hact')
  refine ⟨t, ⟨⟨henabled, ?_, ?_⟩, ?_⟩,
    ⟨hserving, hfollows.doomed h.leaving.doomed, ?_⟩, rfl, ?_, ?_⟩
  · intro thread hthread
    cases a with
    | swapToDoList l | callNext l | endToDoList l =>
      obtain rfl := Option.mem_some_iff.mp hthread
      rcases htakes with rfl | rfl
      · exact h.main
      · exact h.own_idle
    | onClose | release | destroy => cases hthread
    | accept | acquire | updateChannel | handleClose => exact htakes.elim
  · rintro c' rfl thread actions hc
    -- a handler of the connection runs on its own thread
    obtain rfl : c' = c := htakes
    obtain ⟨-, hthread, -⟩ := h.leaving.serving.handling thread c' actions hc
    rw [HttpReactors.own, h.leaving.doomed.own_loop] at hthread
    rw [hthread, h.own_idle] at hc
    cases hc
  · rw [HttpReactors.act, hreactor]
    rfl
  · rw [hbytes c h.leaving.doomed.made, h.leaving.accepted_eq]
  · rw [hhandling, h.main]
  · rw [hhandling, h.own_idle]

theorem Leaving.canReach_closed (h : s.Leaving c own bytes) :
    (httpSystem callback threadNums).CanReach (fun _ => True) s fun t =>
      (t.reactors.conn c).closed = true ∧ t.accepted c = bytes := by
  -- The main thread and the thread of the connection return from their handlers ...
  refine (h.canReach_left .main).trans ?_
  rintro s ⟨⟨h, -⟩, hmain⟩
  refine (h.canReach_left own).trans ?_
  rintro t ⟨⟨h, hkept⟩, hown⟩
  have hmain' : t.handling .main = none := by
    by_cases heq : own = .main
    · rwa [← heq]
    · rw [hkept .main (Ne.symm heq), hmain]
  -- ... and then take it down, as the reactors alone would.
  have hfollowing : Following t.reactors t c own bytes := ⟨h, rfl, hmain', hown⟩
  refine (LTS.CanReach.lift (S := fun r u => Following r u c own bytes) (f := HttpStep.reactor) ?_
    hfollowing (h.doomed.canReach_closed threadNums)).trans ?_
  · intro r u a r' hfollow htakes ha
    exact hfollow.step htakes ha
  · rintro u ⟨r, hfollow, hclosed⟩
    obtain rfl := hfollow.reactors_eq
    exact .refl ⟨hclosed, hfollow.leaving.accepted_eq⟩

/-- A thread that is about to close a connection can bring its descriptor to be closed, with
nothing more accepted by the socket. -/
theorem Serving.canReach_closed (h : s.Serving)
    (callback : HttpRequest → HttpResponse → HttpResponse) (threadNums : ℕ) {thread : LoopId}
    (hfree : s.reactors.Free thread) (hhandling : s.handling thread = some (c, [.close])) :
    (httpSystem callback threadNums).CanReach (fun _ => True) s fun t =>
      (t.reactors.conn c).closed = true ∧ t.accepted c = s.accepted c := by
  obtain ⟨hmade, -, -⟩ := h.handling thread c _ hhandling
  obtain ⟨t, hperform, hserving, hfollows, -, -, hbytes⟩ :=
    h.perform hfree hhandling .again trivial
  have hstep : (httpSystem callback threadNums).step s (.perform thread .again) t := by
    refine ⟨⟨hfree, c, .close, [], hhandling, trivial⟩, ?_⟩
    rw [HttpReactors.act, hperform]
    rfl
  -- behind `HandleClose` the connection is disconnected
  have hdoomed : t.reactors.Doomed c (t.own c) := by
    obtain ⟨horderly, hhoused, hkeeps⟩ := hfollows.keeps h.orderly h.housed
    refine ⟨horderly, hhoused, (hkeeps c hmade).1, ?_, rfl⟩
    simp only [HttpReactors.perform, hhandling, HttpReactors.doAction, ok_bind] at hperform
    obtain rfl := Except.ok.inj hperform
    simp only [HttpReactors.setHandling, HttpReactors.handleClose, Reactors.handleClose]
    split
    · simp [Reactors.setConn]
    · rename_i hstate
      exact not_not.mp hstate
  have hleaving : t.Leaving c (t.own c) (s.accepted c) := ⟨hserving, hdoomed, (hbytes c).2 rfl⟩
  exact (LTS.CanReach.of_step trivial hstep rfl).trans
    (by rintro _ rfl; exact hleaving.canReach_closed)

/-! ## What is delivered -/

/-- No connection loses what its socket has accepted. -/
theorem Serving.accepted_prefix (h : s.Serving) (hmade : c < s.reactors.made)
    {steps : List HttpStep} (hsteps : (httpSystem callback threadNums).Steps s steps t) :
    s.accepted c <+: t.accepted c := by
  have hkept : t.Serving ∧ c < t.reactors.made ∧ s.accepted c <+: t.accepted c := by
    refine hsteps.history
      (I := fun _ t => t.Serving ∧ c < t.reactors.made ∧ s.accepted c <+: t.accepted c)
      ⟨h, hmade, List.prefix_rfl⟩ ?_
    rintro _ t e u ⟨ht, hmade, hprefix⟩ ⟨he, hact⟩
    obtain ⟨u', hact', hu, hfollows, hbytes⟩ := ht.act callback he
    obtain rfl := Except.ok.inj (hact'.symm.trans hact)
    obtain ⟨-, -, hkeeps⟩ := hfollows.keeps ht.orderly ht.housed
    exact ⟨hu, (hkeeps c hmade).1, hprefix.trans (hbytes c hmade)⟩
  exact hkept.2.2

/-- Nothing of a message is left to send exactly when nothing waited before it, and the socket took
it whole. -/
theorem taking_eq_iff {message : Bytes} (hne : message ≠ []) {res : SocketResult}
    (hres : res.Within message.length) :
    s.taking c message res = s.waiting c ++ message ↔
      s.waiting c = [] ∧ res = .accepted message.length := by
  rw [taking]
  constructor
  · intro h
    split at h
    -- nothing waited, so what is left is what the socket did not take
    · rename_i hempty
      rw [hempty, List.nil_append] at h
      refine ⟨hempty, ?_⟩
      cases res with
      | accepted n =>
        have hlen := congrArg List.length h
        rw [SocketResult.taken, List.length_take] at hlen
        rw [SocketResult.accepted.injEq]
        have hle : n ≤ message.length := hres
        omega
      | again => exact absurd h.symm hne
      | failed => exact hres.elim
    -- the message waits as a whole behind the rest
    · exact absurd (List.append_eq_nil_iff.mp h.symm).2 hne
  · rintro ⟨hempty, rfl⟩
    simp [hempty, SocketResult.taken]

/-- What the socket takes is the front of what there is to send. -/
theorem taking_isPrefix (s : HttpReactors) (c : ℕ) (message : Bytes) (res : SocketResult) :
    s.taking c message res <+: s.waiting c ++ message := by
  rw [taking]
  split
  next hempty =>
    rw [hempty, List.nil_append]
    cases res with
    | accepted n => exact List.take_prefix n message
    | again | failed => exact List.nil_prefix
  next => exact List.nil_prefix

/-- **The step that sends a response** leaves the thread in front of the close, with what the socket
took behind what it had accepted. -/
theorem Serving.perform_response (h : s.Serving) {thread : LoopId} (hfree : s.reactors.Free thread)
    {message : Bytes} (hanswering : s.Answering thread c message) {res : SocketResult}
    (hres : res.Within message.length) (hact : s.act callback (.perform thread res) = .ok t) :
    t.Serving ∧ c < t.reactors.made ∧ t.reactors.Free thread ∧
      t.handling thread = some (c, [.close]) ∧
      t.accepted c = s.accepted c ++ s.taking c message res := by
  have hhandling : s.handling thread = some (c, [.response message, .close]) := hanswering
  obtain ⟨hmade, -, -⟩ := h.handling thread c _ hhandling
  obtain ⟨u, hsend, -, -, -, -, hclosing, haccepted, -⟩ := h.send hmade hres
  obtain ⟨t', hperform, hserving, hfollows, hhandling', -⟩ := h.perform hfree hhandling res hres
  obtain rfl : t' = t := by
    rw [HttpReactors.act, hperform] at hact
    exact Except.ok.inj hact
  obtain ⟨-, -, hkeeps⟩ := hfollows.keeps h.orderly h.housed
  -- what the step has done to the connection
  have ht : t' = u.setHandling thread (some (c, [.close])) := by
    simp only [HttpReactors.perform, hhandling, HttpReactors.doAction, hsend, ok_bind] at hperform
    exact (Except.ok.inj hperform).symm
  refine ⟨hserving, (hkeeps c hmade).1, fun c' hc' => ?_, ?_, ?_⟩
  · rw [ht] at hc'
    exact hfree c' (hclosing ▸ hc')
  · rw [hhandling', Function.update_self]
  · rw [ht]
    exact haccepted

end HttpReactors

open HttpReactors in
/-- **The responses that are delivered whole**: a response that closes its connection is accepted by
the socket before the descriptor is closed, in every continuation, if and only if nothing waited in
`send_buf_` before it and the one write of its `Send` took all of it. -/
theorem deliveredBeforeClose_iff {callback : HttpRequest → HttpResponse → HttpResponse}
    {threadNums : ℕ} {steps : List HttpStep} {s t : HttpReactors} {thread : LoopId} {c : ℕ}
    {message : Bytes} {res : SocketResult} (hrun : (httpSystem callback threadNums).Run steps s)
    (hanswering : s.Answering thread c message)
    (hstep : (httpSystem callback threadNums).step s (.perform thread res) t) :
    DeliveredBeforeClose (httpSystem callback threadNums) s t c message ↔
      s.waiting c = [] ∧ res = .accepted message.length := by
  have h := serving_of_run hrun
  obtain ⟨⟨hfree, c', action, rest, hhandling, hres⟩, hact⟩ := hstep
  obtain ⟨rfl, hactions⟩ := Prod.mk.inj (Option.some.inj (hhandling.symm.trans hanswering))
  obtain ⟨rfl, rfl⟩ := List.cons.inj hactions
  obtain ⟨-, -, hmessages⟩ := h.handling thread c' _ hhandling
  have hne : message ≠ [] := hmessages message (by simp)
  obtain ⟨hserving, hmade, hfree', hlast, haccepted⟩ :=
    h.perform_response hfree hanswering hres hact
  rw [← taking_eq_iff hne hres]
  constructor
  · intro hdelivered
    -- nothing more need be accepted before the close
    obtain ⟨later, u, hsteps, -, hclosed, haccepted'⟩ :=
      hserving.canReach_closed callback threadNums hfree' hlast
    have hprefix := hdelivered later u hsteps hclosed
    rw [haccepted', haccepted, List.append_assoc, List.prefix_append_right_inj] at hprefix
    -- so what the write has left is lost
    exact (s.taking_isPrefix c' message res).eq_of_length_le hprefix.length_le
  · intro htaken later u hsteps _
    have hprefix := hserving.accepted_prefix hmade hsteps
    rwa [haccepted, htaken, ← List.append_assoc] at hprefix

/-! ## A response that is lost -/

namespace HttpReactors

section Lost

/-- A request of an HTTP/1.0 client, whose response closes the connection. -/
def oldRequest : HttpRequest := { version := ofString "1.0" }

def okCallback (_ : HttpRequest) (response : HttpResponse) : HttpResponse :=
  { response with statusCode := .k200K }

def okMessage : Bytes := (okCallback oldRequest { closeConnection := true }).message

/-- One thread accepts a connection and reads the request from it. -/
def requestArrives : List HttpStep :=
  [.reactor (.accept 7), .onMessage 0 (some oldRequest), .perform .main .again]

/-- The thread goes on with `HandleClose`, and then calls the functors of its loop. -/
def connectionCloses : List HttpStep :=
  [.perform .main .again, .reactor (.onClose .main 0), .leave .main,
    .reactor (.swapToDoList .main), .reactor (.callNext .main), .reactor (.endToDoList .main),
    .reactor (.destroy 0)]

theorem actions_oldRequest : HttpServer.actions okCallback (some oldRequest) =
    [.request oldRequest, .response okMessage, .close] := by
  have hclose : decide (oldRequest.getHeader (ofString "Connection") = ofString "Close" ∨
    oldRequest.version = ofString "1.0" ∧
      oldRequest.getHeader (ofString "Connection") ≠ ofString "keep-alive") = true := by
    decide
  simp only [HttpServer.actions, HttpServer.onRequest, hclose]
  rfl

/-- The server when it is about to send the response. -/
def answering : HttpReactors where
  reactors := ({ threadNums := 0 } : Reactors).handleNewConnection 7
  sending := Function.update (fun _ => (.established 0, [])) 0 (.established 7, [])
  handling := Function.update (fun _ => none) .main (some (0, [.response okMessage, .close]))

/-- The server when the socket has refused the response, which waits in the buffer of `conn`. -/
def refused (conn : TcpConnection) : HttpReactors where
  reactors := (({ threadNums := 0 } : Reactors).handleNewConnection 7).updateChannel 0
  sending := Function.update (fun _ => (.established 0, [])) 0 (conn, [])
  handling := Function.update (fun _ => none) .main (some (0, [.close]))

theorem run_answering : (httpSystem okCallback 0).Run requestArrives answering := by
  have haccept : (httpSystem okCallback 0).Run [.reactor (.accept 7)] _ :=
    LTS.Run.snoc (.nil rfl)
      ⟨⟨⟨fun ⟨c, hc, _⟩ => absurd hc (Nat.not_lt_zero c), fun _ => List.not_mem_nil, rfl⟩,
        fun _ _ => rfl, nofun⟩, rfl⟩
  have hmessage : (httpSystem okCallback 0).Run
      [.reactor (.accept 7), .onMessage 0 (some oldRequest)] _ :=
    haccept.snoc ⟨⟨⟨by decide, rfl, by decide, fun _ => List.not_mem_nil, rfl, rfl⟩, rfl⟩, rfl⟩
  rw [actions_oldRequest] at hmessage
  have hrequest : (httpSystem okCallback 0).Run requestArrives
      (({ answering with handling := fun _ => none }.setHandling .main
        (some (0, [.request oldRequest, .response okMessage, .close]))).setHandling .main
        (some (0, [.response okMessage, .close]))) :=
    hmessage.snoc ⟨⟨fun _ => List.not_mem_nil, 0, _, _, rfl, trivial⟩, rfl⟩
  rwa [setHandling, setHandling, Function.update_idem] at hrequest

theorem step_refused :
    ∃ conn, (httpSystem okCallback 0).step answering (.perform .main .again) (refused conn) := by
  have hsending : Sending (answering.sending 0).1 [] := sending_established 7
  have hwithin : SocketResult.again.Within okMessage.length := trivial
  obtain ⟨conn, out, pending, hsend, -, -⟩ := hsending.send hwithin
  have hout := TcpConnection.send_accepted hsending hsend
  rw [SocketResult.taken, ite_self] at hout
  subst hout
  refine ⟨conn, ⟨fun _ => List.not_mem_nil, 0, _, _, rfl, trivial⟩, ?_⟩
  have hlen : ([] : Bytes).length < okMessage.length :=
    List.length_pos_iff.mpr (HttpResponse.message_ne_nil _)
  have hhandling : answering.handling .main = some (0, [.response okMessage, .close]) := rfl
  simp only [act, perform, hhandling, doAction, HttpReactors.send, hsend, ok_bind, hlen, if_true,
    Except.mapError]
  simp only [setHandling, setSending, answering, refused, Function.update_idem,
    Function.update_self, List.append_nil]

/-- Nothing looks at the buffer on the way to the close of the descriptor. -/
theorem steps_refused (conn : TcpConnection) :
    ∃ u, (httpSystem okCallback 0).Steps (refused conn) connectionCloses u ∧
      (u.reactors.conn 0).closed = true ∧ u.accepted 0 = [] := by
  have hclose : (httpSystem okCallback 0).Steps (refused conn) [.perform .main .again] _ :=
    LTS.Steps.nil.snoc ⟨⟨fun _ => List.not_mem_nil, 0, _, _, rfl, trivial⟩, rfl⟩
  have honClose : (httpSystem okCallback 0).Steps (refused conn)
      [.perform .main .again, .reactor (.onClose .main 0)] _ :=
    hclose.snoc ⟨⟨List.mem_cons_self, nofun, nofun⟩, rfl⟩
  have hleave : (httpSystem okCallback 0).Steps (refused conn)
      [.perform .main .again, .reactor (.onClose .main 0), .leave .main] _ :=
    honClose.snoc ⟨⟨fun _ => List.not_mem_nil, 0, rfl⟩, rfl⟩
  have hswap : (httpSystem okCallback 0).Steps (refused conn)
      [.perform .main .again, .reactor (.onClose .main 0), .leave .main,
        .reactor (.swapToDoList .main)] _ :=
    hleave.snoc ⟨⟨⟨fun _ => List.not_mem_nil, rfl⟩, fun _ h => by cases h; rfl, nofun⟩, rfl⟩
  have hcall : (httpSystem okCallback 0).Steps (refused conn)
      [.perform .main .again, .reactor (.onClose .main 0), .leave .main,
        .reactor (.swapToDoList .main), .reactor (.callNext .main)] _ :=
    hswap.snoc ⟨⟨⟨fun _ => List.not_mem_nil, _, _, _, rfl⟩, fun _ h => by cases h; rfl, nofun⟩, rfl⟩
  have hend : (httpSystem okCallback 0).Steps (refused conn)
      [.perform .main .again, .reactor (.onClose .main 0), .leave .main,
        .reactor (.swapToDoList .main), .reactor (.callNext .main),
        .reactor (.endToDoList .main)] _ :=
    hcall.snoc ⟨⟨⟨fun _ => List.not_mem_nil, _, rfl⟩, fun _ h => by cases h; rfl, nofun⟩, rfl⟩
  refine ⟨_, hend.snoc ⟨⟨⟨Nat.one_pos, rfl, ?_⟩, nofun, ?_⟩, rfl⟩, rfl, rfl⟩
  -- nothing refers to the connection any more
  · rintro (hpos | ⟨fd, hfd⟩ | ⟨thread, hthread⟩ | ⟨l, f, hf, -⟩)
    · exact Nat.lt_irrefl 0 hpos
    · have hmap : Function.update (Function.update (fun _ : ℕ => (none : Option ℕ)) 7 (some 0)) 7
          none fd = some 0 := hfd
      rw [Function.update_idem, Function.update_eq_self_iff.mpr rfl] at hmap
      cases hmap
    · cases hthread
    · cases l <;> exact List.not_mem_nil hf
  · rintro c - thread rest hthread
    cases thread <;> cases hthread

end Lost

end HttpReactors

open HttpReactors in
/-- The socket refuses the response, and the one thread of the server goes on to close the
descriptor. -/
theorem not_deliveredBeforeClose_again :
    ¬ ∀ callback threadNums steps s t thread c message res,
      (httpSystem callback threadNums).Run steps s → s.Answering thread c message →
      (httpSystem callback threadNums).step s (.perform thread res) t →
      DeliveredBeforeClose (httpSystem callback threadNums) s t c message := by
  intro h
  obtain ⟨conn, hstep⟩ := step_refused
  obtain ⟨u, hsteps, hclosed, haccepted⟩ := steps_refused conn
  have hprefix := h okCallback 0 requestArrives answering _ .main 0 okMessage .again run_answering
    rfl hstep connectionCloses u hsteps hclosed
  rw [haccepted, List.prefix_nil] at hprefix
  exact HttpResponse.message_ne_nil _ (List.append_eq_nil_iff.mp hprefix).2

open HttpReactors in
/-- The socket takes all of the response. -/
theorem deliveredBeforeClose_accepted :
    ∃ t, (httpSystem okCallback 0).step answering (.perform .main (.accepted okMessage.length)) t ∧
      DeliveredBeforeClose (httpSystem okCallback 0) answering t 0 okMessage := by
  have henabled : answering.Enabled (.perform .main (.accepted okMessage.length)) :=
    ⟨fun _ => List.not_mem_nil, 0, _, _, rfl, le_refl okMessage.length⟩
  obtain ⟨t, hact, -⟩ := (serving_of_run run_answering).act okCallback henabled
  have hwaiting : answering.waiting 0 = [] := (sending_established 7).readable
  have hanswering : answering.Answering .main 0 okMessage := rfl
  exact ⟨t, ⟨henabled, hact⟩,
    (deliveredBeforeClose_iff run_answering hanswering ⟨henabled, hact⟩).mpr ⟨hwaiting, rfl⟩⟩

end CppServerStudio
