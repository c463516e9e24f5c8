import CppServerStudio.Http.Server
import CppServerStudio.NetWork.Teardown

/-!
# The HTTP server on its reactors

Each connection is handled by the thread of its loop. `HttpServer::onMessage` sends and closes one
call after the other, and between two calls the other threads go on. What the sockets answer is part
of the steps, without errors that are fatal.

## Main definitions

* `HttpServer.actions`: what `onMessage` does for the outcome of the parser
* `HttpReactors`: the reactors, the send buffers, and the threads inside `onMessage`
* `HttpReactors.act`, `httpSystem`: the steps of the threads, and their interleavings

## Main results

* `HttpReactors.Serving.act`: each step succeeds and keeps the invariant
* `HttpReactors.Serving.reactors_act`: the reactors take at most one step of their own
-/

namespace CppServerStudio

open Scanning

/-- What `onMessage` does for the request that the parser completes, if it completes one. -/
def HttpServer.actions (callback : HttpRequest → HttpResponse → HttpResponse) :
    Option HttpRequest → List ServerAction
  | none => [.badRequest, .close]
  | some request => .request request :: (HttpServer.onRequest callback {} request).2

/-- A server: its reactors, for each connection what it has to send with what its socket has
accepted, and for each thread the connection in whose `onMessage` it is, with what is left to do
there. -/
structure HttpReactors where
  reactors : Reactors
  sending : ℕ → TcpConnection × Bytes := fun _ => (.established 0, [])
  handling : LoopId → Option (ℕ × List ServerAction) := fun _ => none

/-- The steps of the threads, with what a socket answers if it is asked. -/
inductive HttpStep
  /-- The reactors take a step of their own. -/
  | reactor (a : ReactorAction)
  /-- The thread of a connection enters `onMessage`, where the parser has completed a request or
  not. -/
  | onMessage (c : ℕ) (request : Option HttpRequest)
  /-- A thread does the next action of its handler. -/
  | perform (thread : LoopId) (res : SocketResult)
  /-- A thread returns from its handler. -/
  | leave (thread : LoopId)
  /-- The thread of a connection handles `EPOLLOUT`. -/
  | handleWrite (c : ℕ) (res : SocketResult)

/-- The thread that takes a step from outside of the handlers. -/
def ReactorAction.thread? : ReactorAction → Option LoopId
  | .accept _ => some .main
  | .handleClose thread _ => some thread
  | .swapToDoList l | .callNext l | .endToDoList l => some l
  | .acquire _ | .release _ | .updateChannel _ | .onClose _ _ | .destroy _ => none

/-- A channel that was taken out of its epoll set. -/
def TcpConnection.detach (c : TcpConnection) : TcpConnection :=
  { c with channel := { c.channel with inEpoll := false } }

namespace HttpReactors

def setSending (s : HttpReactors) (c : ℕ) (x : TcpConnection × Bytes) : HttpReactors :=
  { s with sending := Function.update s.sending c x }

def setHandling (s : HttpReactors) (thread : LoopId) (x : Option (ℕ × List ServerAction)) :
    HttpReactors :=
  { s with handling := Function.update s.handling thread x }

/-- What a step of the reactors does to a connection: its constructor, the state that `HandleClose`
sets, and `DeleteChannel`. -/
def follow (s : HttpReactors) : ReactorAction → HttpReactors
  | .accept fd => s.setSending s.reactors.made (.established fd, [])
  | .handleClose _ c => s.setSending c ((s.sending c).1.handleClose, (s.sending c).2)
  | .callNext l =>
    match (s.reactors.loop l).batch with
    | some ⟨.connectionDestructor c :: _, _⟩ =>
      s.setSending c ((s.sending c).1.detach, (s.sending c).2)
    | _ => s
  | _ => s

def reactor (s : HttpReactors) (a : ReactorAction) : Except ReactorFault HttpReactors := do
  let reactors ← s.reactors.act a
  .ok { s.follow a with reactors := reactors }

/-- **`TcpConnection::Send`**, which updates the channel if the socket did not take all. -/
def send (s : HttpReactors) (c : ℕ) (msg : Bytes) (res : SocketResult) :
    Except BufferFault HttpReactors := do
  let (conn, accepted) ← (s.sending c).1.send msg res
  let reactors :=
    if accepted.length < msg.length then s.reactors.updateChannel c else s.reactors
  .ok { s.setSending c (conn, (s.sending c).2 ++ accepted) with reactors := reactors }

/-- `TcpConnection::HandleClose` up to its call of `on_close_`. -/
def handleClose (s : HttpReactors) (thread : LoopId) (c : ℕ) : HttpReactors :=
  { s.setSending c ((s.sending c).1.handleClose, (s.sending c).2) with
    reactors := s.reactors.handleClose thread c }

/-- An action of a handler. -/
def doAction (s : HttpReactors) (thread : LoopId) (c : ℕ) (res : SocketResult) :
    ServerAction → Except BufferFault HttpReactors
  | .badRequest => s.send c ServerAction.badRequest.sent res
  | .response message => s.send c message res
  | .request _ => .ok s
  | .close => .ok (s.handleClose thread c)

/-- A thread does the next action of its handler. -/
def perform (s : HttpReactors) (thread : LoopId) (res : SocketResult) :
    Except BufferFault HttpReactors :=
  match s.handling thread with
  | some (c, action :: rest) => do
    let s ← s.doAction thread c res action
    .ok (s.setHandling thread (some (c, rest)))
  | _ => .ok s

/-- **`TcpConnection::HandleWrite`**. -/
def handleWrite (s : HttpReactors) (c : ℕ) (res : SocketResult) :
    Except BufferFault HttpReactors := do
  let (conn, accepted) ← (s.sending c).1.handleWrite res
  .ok (s.setSending c (conn, (s.sending c).2 ++ accepted))

/-- The loop of a connection. -/
def own (s : HttpReactors) (c : ℕ) : LoopId := (s.reactors.conn c).loop

/-- The thread of a connection can handle an event of its channel. -/
def Ready (s : HttpReactors) (c : ℕ) : Prop :=
  c < s.reactors.made ∧ (s.reactors.conn c).closed = false ∧
  c ∈ (s.reactors.loop (s.own c)).channels ∧ s.reactors.Free (s.own c) ∧
  (s.reactors.loop (s.own c)).batch = none ∧ s.handling (s.own c) = none

/-- **The steps that can be taken.** A thread inside a handler holds a reference to its connection,
and takes no other step; a socket takes at most what it is offered. -/
def Enabled (s : HttpReactors) : HttpStep → Prop
  | .reactor a => s.reactors.Enabled a ∧ (∀ thread ∈ a.thread?, s.handling thread = none) ∧
    ∀ c, a = .destroy c → ∀ thread rest, s.handling thread ≠ some (c, rest)
  | .onMessage c _ => s.Ready c ∧ (s.reactors.conn c).state = .connected
  | .perform thread res => s.reactors.Free thread ∧
    ∃ c action rest, s.handling thread = some (c, action :: rest) ∧
      res.Within action.sent.length
  | .leave thread => s.reactors.Free thread ∧ ∃ c, s.handling thread = some (c, [])
  | .handleWrite c res => s.Ready c ∧ res.Within (s.sending c).1.sendBuf.readable.length

/-- What a step does. -/
def act (callback : HttpRequest → HttpResponse → HttpResponse) (s : HttpReactors) :
    HttpStep → Except (ReactorFault ⊕ BufferFault) HttpReactors
  | .reactor a => (s.reactor a).mapError .inl
  | .onMessage c request =>
    .ok (s.setHandling (s.own c) (some (c, HttpServer.actions callback request)))
  | .perform thread res => (s.perform thread res).mapError .inr
  | .leave thread => .ok (s.setHandling thread none)
  | .handleWrite c res => (s.handleWrite c res).mapError .inr

end HttpReactors

/-- **An HTTP server** whose application answers with `callback`, with some number of sub-reactors,
under all interleavings of its threads and all answers of its sockets. -/
def httpSystem (callback : HttpRequest → HttpResponse → HttpResponse) (threadNums : ℕ) :
    LTS HttpReactors HttpStep where
  init s := s = { reactors := { threadNums := threadNums } }
  step s e t := s.Enabled e ∧ s.act callback e = .ok t

/-! ## One `Send` -/

/-- The bytes of a message that a socket accepts. -/
def SocketResult.taken (msg : Bytes) : SocketResult → Bytes
  | .accepted n => msg.take n
  | .again | .failed => []

/-- The socket is asked only when nothing waits to be sent. -/
theorem TcpConnection.send_accepted {c c' : TcpConnection} {pending msg out : Bytes}
    {res : SocketResult} (h : Sending c pending) (hsend : c.send msg res = .ok (c', out)) :
    out = if pending = [] then res.taken msg else [] := by
  unfold TcpConnection.send at hsend
  simp only [h.readablebytes_eq_zero] at hsend
  split at hsend
  · rename_i hempty
    rw [if_pos hempty]
    cases res with
    | accepted n =>
      obtain ⟨d, -, hd⟩ := bind_eq_ok.mp hsend
      exact (Prod.mk.inj (Except.ok.inj hd)).2.symm
    | again =>
      obtain ⟨d, -, hd⟩ := bind_eq_ok.mp hsend
      exact (Prod.mk.inj (Except.ok.inj hd)).2.symm
    | failed => exact (Prod.mk.inj (Except.ok.inj hsend)).2.symm
  · rename_i hempty
    rw [if_neg hempty]
    obtain ⟨d, -, hd⟩ := bind_eq_ok.mp hsend
    exact (Prod.mk.inj (Except.ok.inj hd)).2.symm

theorem Sending.handleClose {c : TcpConnection} {pending : Bytes} (h : Sending c pending) :
    Sending c.handleClose pending := by
  unfold TcpConnection.handleClose
  split
  · exact ⟨h.valid, h.readable, h.writing, h.callback⟩
  · exact h

theorem Sending.detach {c : TcpConnection} {pending : Bytes} (h : Sending c pending) :
    Sending c.detach pending := ⟨h.valid, h.readable, h.writing, h.callback⟩

theorem HttpServer.ne_nil_of_mem_actions {callback : HttpRequest → HttpResponse → HttpResponse}
    {request : Option HttpRequest} {message : Bytes}
    (h : .response message ∈ HttpServer.actions callback request) : message ≠ [] := by
  cases request with
  | none => simp [HttpServer.actions] at h
  | some request =>
    simp only [HttpServer.actions, HttpServer.onRequest] at h
    split at h <;> simp only [List.mem_cons, reduceCtorEq, ServerAction.response.injEq,
      List.not_mem_nil, or_false, false_or] at h <;> rw [h] <;> exact HttpResponse.message_ne_nil _

namespace HttpReactors

variable {s t : HttpReactors} {c : ℕ}

/-- What a connection still has to send, and what its socket has accepted. -/
def waiting (s : HttpReactors) (c : ℕ) : Bytes := (s.sending c).1.sendBuf.readable

def accepted (s : HttpReactors) (c : ℕ) : Bytes := (s.sending c).2

/-! ## The invariant -/

/-- **The invariant**: the reactors are orderly, every connection can send, and a handler runs on
the thread of its connection. -/
structure Serving (s : HttpReactors) : Prop where
  orderly : s.reactors.Orderly
  housed : s.reactors.Housed
  sending : ∀ c, Sending (s.sending c).1 (s.waiting c)
  handling : ∀ thread c actions, s.handling thread = some (c, actions) →
    c < s.reactors.made ∧ thread = s.own c ∧ ∀ message, .response message ∈ actions → message ≠ []

theorem serving_init (threadNums : ℕ) : Serving { reactors := { threadNums := threadNums } } where
  orderly := Reactors.orderly_init threadNums
  housed := by
    rintro l f ⟨⟩
  sending _ := by
    have h := sending_established 0
    rwa [← h.readable] at h
  handling := nofun

theorem sending_setSending (h : ∀ c, Sending (s.sending c).1 (s.waiting c))
    {x : TcpConnection × Bytes} {pending : Bytes} (hx : Sending x.1 pending) (c c' : ℕ) :
    Sending ((s.setSending c x).sending c').1 ((s.setSending c x).waiting c') := by
  rw [waiting, setSending]
  by_cases hc : c' = c
  · subst hc
    simp only [Function.update_self]
    rwa [hx.readable]
  · simp only [Function.update_of_ne hc]
    exact h c'

theorem sending_follow (h : s.Serving) (a : ReactorAction) (c : ℕ) :
    Sending ((s.follow a).sending c).1 ((s.follow a).waiting c) := by
  unfold follow
  split
  · exact sending_setSending h.sending (sending_established _) _ c
  · exact sending_setSending h.sending (h.sending _).handleClose _ c
  · split
    · exact sending_setSending h.sending (h.sending _).detach _ c
    · exact h.sending c
  · exact h.sending c

/-- The bytes of the connections that exist do not depend on the reactors. -/
theorem bytes_follow (a : ReactorAction) (hmade : c < s.reactors.made) :
    (s.follow a).accepted c = s.accepted c ∧ (s.follow a).handling = s.handling := by
  have hset : ∀ c' x, x.2 = (s.sending c').2 → (s.setSending c' x).accepted c = s.accepted c := by
    intro c' x hx
    rw [accepted, accepted, setSending]
    by_cases hc : c = c'
    · subst hc
      simpa using hx
    · simp [hc]
  unfold follow
  split
  · have hne : c ≠ s.reactors.made := by omega
    exact ⟨by simp [accepted, setSending, hne], rfl⟩
  · exact ⟨hset _ _ rfl, rfl⟩
  · split
    · exact ⟨hset _ _ rfl, rfl⟩
    · exact ⟨rfl, rfl⟩
  · exact ⟨rfl, rfl⟩

/-! ## One step -/

/-- The reactors take at most one step. -/
def Follows (s t : HttpReactors) : Prop :=
  t.reactors = s.reactors ∨ ∃ a, s.reactors.Enabled a ∧ s.reactors.act a = .ok t.reactors

theorem Follows.keeps (h : s.Follows t) (horderly : s.reactors.Orderly)
    (hhoused : s.reactors.Housed) :
    t.reactors.Orderly ∧ t.reactors.Housed ∧ ∀ c < s.reactors.made, c < t.reactors.made ∧
      t.own c = s.own c ∧
      ((s.reactors.conn c).state = .disconected → (t.reactors.conn c).state = .disconected) := by
  rcases h with heq | ⟨a, ha, hact⟩
  · simp only [own, heq]
    exact ⟨horderly, hhoused, fun c hc => ⟨hc, trivial, id⟩⟩
  · obtain ⟨u, hact', horderly'⟩ := horderly.act ha
    obtain rfl := Except.ok.inj (hact'.symm.trans hact)
    exact ⟨horderly', hhoused.act horderly ha hact, fun c hc => Reactors.conn_act hact ha hc⟩

/-- What the socket accepts of a message that is sent now. -/
def taking (s : HttpReactors) (c : ℕ) (msg : Bytes) (res : SocketResult) : Bytes :=
  if s.waiting c = [] then res.taken msg else []

/-- A `Send` on a connection. -/
theorem Serving.send (h : s.Serving) (hmade : c < s.reactors.made) {msg : Bytes}
    {res : SocketResult} (hres : res.Within msg.length) :
    ∃ t, s.send c msg res = .ok t ∧ t.handling = s.handling ∧ s.Follows t ∧
      (∀ c', Sending (t.sending c').1 (t.waiting c')) ∧ (∀ c' ≠ c, t.accepted c' = s.accepted c') ∧
      t.reactors.closing = s.reactors.closing ∧
      t.accepted c = s.accepted c ++ s.taking c msg res ∧
      t.accepted c ++ t.waiting c = s.accepted c ++ s.waiting c ++ msg := by
  obtain ⟨c', out, pending, hsend, hsending, hmove⟩ := (h.sending c).send hres
  have hout := TcpConnection.send_accepted (h.sending c) hsend
  rw [HttpReactors.send, hsend, ok_bind]
  refine ⟨_, rfl, rfl, ?_, sending_setSending h.sending hsending c, ?_, ?_, ?_, ?_⟩
  · dsimp only [Follows]
    split
    · exact Or.inr ⟨.updateChannel c, hmade, rfl⟩
    · exact Or.inl rfl
  · intro c'' hne
    simp [accepted, setSending, hne]
  · dsimp only
    split <;> rfl
  · rw [taking, ← hout]
    simp [accepted, setSending]
  -- no byte is lost between the socket and the output buffer
  · have hread := hsending.readable
    simp only [accepted, waiting, setSending, Function.update_self, hread]
    rw [List.append_assoc, hmove, List.append_assoc, waiting]

theorem Serving.handleWrite (h : s.Serving) {res : SocketResult}
    (hres : res.Within (s.waiting c).length) :
    ∃ t, s.handleWrite c res = .ok t ∧ t.handling = s.handling ∧ t.reactors = s.reactors ∧
      (∀ c', Sending (t.sending c').1 (t.waiting c')) ∧
      ∀ c', s.accepted c' <+: t.accepted c' := by
  obtain ⟨c', out, pending, hwrite, hsending, -⟩ := (h.sending c).handleWrite hres
  rw [HttpReactors.handleWrite, hwrite, ok_bind]
  refine ⟨_, rfl, rfl, rfl, sending_setSending h.sending hsending c, fun c'' => ?_⟩
  by_cases hc : c'' = c
  · subst hc
    simp [accepted, setSending]
  · simp [accepted, setSending, hc]

/-- An action of a handler. -/
theorem Serving.doAction (h : s.Serving) (hmade : c < s.reactors.made) {thread : LoopId}
    (hfree : s.reactors.Free thread) {action : ServerAction} {res : SocketResult}
    (hres : res.Within action.sent.length) :
    ∃ t, s.doAction thread c res action = .ok t ∧ t.handling = s.handling ∧ s.Follows t ∧
      (∀ c', Sending (t.sending c').1 (t.waiting c')) ∧
      t.reactors.closing.length ≤ s.reactors.closing.length + 1 ∧
      ∀ c', s.accepted c' <+: t.accepted c' ∧ (res = .again → t.accepted c' = s.accepted c') := by
  -- both kinds of answers are sent alike
  have hsend : ∀ msg, res.Within msg.length → ∃ t, s.send c msg res = .ok t ∧
      t.handling = s.handling ∧ s.Follows t ∧ (∀ c', Sending (t.sending c').1 (t.waiting c')) ∧
      t.reactors.closing.length ≤ s.reactors.closing.length + 1 ∧
      ∀ c', s.accepted c' <+: t.accepted c' ∧ (res = .again → t.accepted c' = s.accepted c') := by
    intro msg hres
    obtain ⟨t, ht, hhandling, hfollows, hsending, hother, hclosing, hself, -⟩ := h.send hmade hres
    refine ⟨t, ht, hhandling, hfollows, hsending, by rw [hclosing]; omega, fun c' => ?_⟩
    by_cases hc : c' = c
    · subst hc
      rw [hself]
      refine ⟨List.prefix_append _ _, ?_⟩
      rintro rfl
      simp [taking, SocketResult.taken]
    · rw [hother c' hc]
      exact ⟨List.prefix_rfl, fun _ => rfl⟩
  cases action with
  | badRequest => exact hsend _ hres
  | response message => exact hsend _ hres
  | request r =>
    exact ⟨s, rfl, rfl, Or.inl rfl, h.sending, by omega,
      fun c' => ⟨List.prefix_rfl, fun _ => rfl⟩⟩
  | close =>
    refine ⟨_, rfl, rfl, Or.inr ⟨.handleClose thread c, ⟨hmade, hfree⟩, rfl⟩,
      sending_setSending h.sending (h.sending c).handleClose c, ?_, fun c' => ?_⟩
    · dsimp only [HttpReactors.handleClose, Reactors.handleClose]
      split
      · exact le_rfl
      · omega
    -- `HandleClose` writes nothing
    have heq : (s.handleClose thread c).accepted c' = s.accepted c' := by
      by_cases hc : c' = c
      · subst hc
        simp [HttpReactors.handleClose, accepted, setSending]
      · simp [HttpReactors.handleClose, accepted, setSending, hc]
    rw [heq]
    exact ⟨List.prefix_rfl, fun _ => rfl⟩

/-- A thread that is, or is no longer, inside a handler. -/
theorem Serving.setHandling {u : HttpReactors} (h : s.Serving) (hfollows : s.Follows u)
    (hsending : ∀ c, Sending (u.sending c).1 (u.waiting c)) (hhandling : u.handling = s.handling)
    (thread : LoopId) (x : Option (ℕ × List ServerAction))
    (hx : ∀ c actions, x = some (c, actions) → c < s.reactors.made ∧ thread = s.own c ∧
      ∀ message, .response message ∈ actions → message ≠ []) :
    (u.setHandling thread x).Serving := by
  obtain ⟨horderly, hhoused, hkeeps⟩ := hfollows.keeps h.orderly h.housed
  refine ⟨horderly, hhoused, hsending, fun thread' c actions hc => ?_⟩
  have hold : c < s.reactors.made ∧ thread' = s.own c ∧
      ∀ message, .response message ∈ actions → message ≠ [] := by
    rw [HttpReactors.setHandling, hhandling] at hc
    by_cases hthread : thread' = thread
    · subst hthread
      exact hx c actions (by simpa using hc)
    · simp only [Function.update_of_ne hthread] at hc
      exact h.handling thread' c actions hc
  obtain ⟨hmade, hown, hne⟩ := hold
  obtain ⟨hmade', hown', -⟩ := hkeeps c hmade
  exact ⟨hmade', hown.trans hown'.symm, hne⟩

theorem setHandling_self (thread : LoopId) : s.setHandling thread (s.handling thread) = s := by
  simp [HttpReactors.setHandling]

/-- A thread does the next action of its handler. -/
theorem Serving.perform (h : s.Serving) {thread : LoopId} (hfree : s.reactors.Free thread)
    {action : ServerAction} {rest : List ServerAction}
    (hhandling : s.handling thread = some (c, action :: rest)) (res : SocketResult)
    (hres : res.Within action.sent.length) :
    ∃ t, s.perform thread res = .ok t ∧ t.Serving ∧ s.Follows t ∧
      t.handling = Function.update s.handling thread (some (c, rest)) ∧
      t.reactors.closing.length ≤ s.reactors.closing.length + 1 ∧
      ∀ c', s.accepted c' <+: t.accepted c' ∧ (res = .again → t.accepted c' = s.accepted c') := by
  obtain ⟨hmade, hown, hne⟩ := h.handling thread c _ hhandling
  obtain ⟨u, hdo, hkept, hfollows, hsending, hclosing, hbytes⟩ := h.doAction hmade hfree hres
  simp only [HttpReactors.perform, hhandling, hdo, ok_bind]
  refine ⟨_, rfl, h.setHandling hfollows hsending hkept _ _ ?_, hfollows, ?_, hclosing, hbytes⟩
  · rintro c' actions ⟨⟩
    exact ⟨hmade, hown, fun message hm => hne message (List.mem_cons_of_mem _ hm)⟩
  · rw [HttpReactors.setHandling, hkept]

/-- The reactors take a step of their own. -/
theorem Serving.reactor (h : s.Serving) {a : ReactorAction} (ha : s.reactors.Enabled a) :
    ∃ t, s.reactor a = .ok t ∧ t.Serving ∧ s.Follows t ∧ s.reactors.act a = .ok t.reactors ∧
      t.handling = s.handling ∧ ∀ c < s.reactors.made, t.accepted c = s.accepted c := by
  obtain ⟨r, hact, -⟩ := h.orderly.act ha
  have hfollows : s.Follows { s.follow a with reactors := r } := Or.inr ⟨a, ha, hact⟩
  obtain ⟨horderly, hhoused, hkeeps⟩ := hfollows.keeps h.orderly h.housed
  have hhandling : (s.follow a).handling = s.handling := by
    unfold HttpReactors.follow
    split <;> try rfl
    split <;> rfl
  rw [HttpReactors.reactor, hact, ok_bind]
  refine ⟨_, rfl, ⟨horderly, hhoused, sending_follow h a, ?_⟩, hfollows, rfl, hhandling, ?_⟩
  · intro thread c actions hc
    obtain ⟨hmade, hown, hne⟩ := h.handling thread c actions (hhandling ▸ hc)
    -- the reactors keep the thread of each connection
    obtain ⟨hmade', hown', -⟩ := hkeeps c hmade
    exact ⟨hmade', hown.trans hown'.symm, hne⟩
  · exact fun c hc => (bytes_follow a hc).1

/-- **One step** of any thread succeeds and keeps the invariant; no connection loses what its socket
has accepted. -/
theorem Serving.act (h : s.Serving) (callback : HttpRequest → HttpResponse → HttpResponse)
    {e : HttpStep} (he : s.Enabled e) :
    ∃ t, s.act callback e = .ok t ∧ t.Serving ∧ s.Follows t ∧
      ∀ c < s.reactors.made, s.accepted c <+: t.accepted c := by
  cases e with
  | reactor a =>
    obtain ⟨t, hact, hserving, hfollows, -, -, hbytes⟩ := h.reactor he.1
    refine ⟨t, by rw [HttpReactors.act, hact]; rfl, hserving, hfollows, fun c hc => ?_⟩
    rw [hbytes c hc]
  | onMessage c request =>
    refine ⟨_, rfl, ?_, Or.inl rfl, fun c hc => List.prefix_rfl⟩
    refine h.setHandling (Or.inl rfl) h.sending rfl _ _ ?_
    rintro c' actions ⟨⟩
    exact ⟨he.1.1, rfl, fun message hm => HttpServer.ne_nil_of_mem_actions hm⟩
  | perform thread res =>
    obtain ⟨hfree, c, action, rest, hhandling, hres⟩ := he
    obtain ⟨t, hact, hserving, hfollows, -, -, hbytes⟩ := h.perform hfree hhandling res hres
    exact ⟨t, by rw [HttpReactors.act, hact]; rfl, hserving, hfollows, fun c _ => (hbytes c).1⟩
  | leave thread =>
    exact ⟨_, rfl,
      h.setHandling (Or.inl rfl) h.sending rfl _ _ (by rintro c' actions ⟨⟩), Or.inl rfl,
      fun c hc => List.prefix_rfl⟩
  | handleWrite c res =>
    obtain ⟨t, hact, hhandling, hreactors, hsending, hbytes⟩ := h.handleWrite he.2
    have hfollows : s.Follows t := Or.inl hreactors
    refine ⟨t, by rw [HttpReactors.act, hact]; rfl, ?_, hfollows, fun c _ => hbytes c⟩
    -- no handler is left or entered
    have hset := h.setHandling hfollows hsending hhandling .main (s.handling .main)
      fun c actions hc => h.handling .main c actions hc
    rwa [← hhandling, setHandling_self] at hset

end HttpReactors

open HttpReactors in
theorem serving_of_run {callback : HttpRequest → HttpResponse → HttpResponse} {threadNums : ℕ}
    {steps : List HttpStep} {s : HttpReactors}
    (hrun : (httpSystem callback threadNums).Run steps s) : s.Serving := by
  apply hrun.invariant
  · rintro s rfl
    exact serving_init threadNums
  · rintro s e t h ⟨he, hact⟩
    obtain ⟨t', hact', hserving, -⟩ := h.act callback he
    obtain rfl := Except.ok.inj (hact'.symm.trans hact)
    exact hserving

end CppServerStudio
