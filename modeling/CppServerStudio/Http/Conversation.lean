import CppServerStudio.Http.Isolation
import CppServerStudio.Http.Reactors
import CppServerStudio.Http.SelfDelimiting
import CppServerStudio.NetWork.Balance

/-!
# Conversations with an HTTP server

The threads of a server handle many connections at once, and its sockets take what is sent bit by
bit. What is sent on a connection is nevertheless what its own requests are answered with, one after
the other, and a client that keeps the connection open reads the responses back.

## Main definitions

* `HttpServer.respond`, `HttpServer.answer`: the response to a request, and what `onMessage` sends
* `requestsOn`: the outcomes of the parser on a connection, in the order of its messages
* `HttpReactors.passed`, `HttpReactors.left`: what was passed to `Send`, and what is left to do
* `HttpReactors.Answers`: a connection is answered as if it were alone
* `HttpReactors.Fits`, `fittingHttpSystem`: the runs in which no size overflows an `int`

## Main results

* `HttpReactors.Serving.effect`: what one step of any thread does to a connection
* `answers_of_run`: each connection of a run is answered as if it were alone
* `httpSystem_converses`: what the client of a connection reads
-/

namespace CppServerStudio

open Scanning

/-! ## The answer to one request -/

namespace HttpServer

variable {callback : HttpRequest → HttpResponse → HttpResponse}

/-- What `onMessage` sends for the outcome of the parser. -/
def answer (callback : HttpRequest → HttpResponse → HttpResponse) (request : Option HttpRequest) :
    Bytes := (actions callback request).flatMap ServerAction.sent

/-- `onMessage` leaves the connection open. -/
def KeepsOpen (callback : HttpRequest → HttpResponse → HttpResponse)
    (request : Option HttpRequest) : Prop := .close ∉ actions callback request

end HttpServer

/-- The outcome of the parser that a step handles on a connection. -/
def HttpStep.requestOn (c : ℕ) : HttpStep → Option (Option HttpRequest)
  | .onMessage c' request => if c' = c then some request else none
  | _ => none

theorem Reactors.state_handleClose {s : Reactors} (thread : LoopId) (c : ℕ) :
    ((s.handleClose thread c).conn c).state = .disconected := by
  rw [Reactors.handleClose]
  split_ifs with hstate
  · simp [Reactors.setConn]
  · exact not_not.mp hstate

namespace HttpReactors

variable {callback : HttpRequest → HttpResponse → HttpResponse} {s t : HttpReactors} {c c' : ℕ}

/-- What was passed to `Send` on a connection. -/
def passed (s : HttpReactors) (c : ℕ) : Bytes := s.accepted c ++ s.waiting c

/-- What the thread of a connection has left to do in its handler. -/
def left (s : HttpReactors) (c : ℕ) : List ServerAction :=
  match s.handling (s.own c) with
  | some (c', actions) => if c' = c then actions else []
  | none => []

theorem left_of_eq {actions : List ServerAction}
    (h : s.handling (s.own c) = some (c, actions)) : s.left c = actions := by
  rw [left, h]
  exact if_pos rfl

theorem left_of_ne {actions : List ServerAction} (h : s.handling (s.own c) = some (c', actions))
    (hne : c' ≠ c) : s.left c = [] := by
  rw [left, h]
  exact if_neg hne

theorem left_of_none (h : s.handling (s.own c) = none) : s.left c = [] := by rw [left, h]

theorem left_congr (hown : t.own c = s.own c)
    (hhandling : t.handling (s.own c) = s.handling (s.own c)) : t.left c = s.left c := by
  rw [left, left, hown, hhandling]

/-- A thread that enters or leaves the handler of another connection. -/
theorem left_update {thread : LoopId} {x : Option (ℕ × List ServerAction)}
    (hown : t.own c = s.own c) (hupdate : t.handling = Function.update s.handling thread x)
    (hx : ∀ actions, x = some (c, actions) → actions = [])
    (hs : s.own c = thread → s.left c = []) : t.left c = s.left c := by
  by_cases hloop : s.own c = thread
  · rw [hs hloop, left, hown, hupdate, hloop, Function.update_self]
    match x, hx with
    | none, _ => rfl
    | some (c', actions), hx =>
      by_cases hc : c' = c
      · subst hc
        rw [hx actions rfl]
        exact if_pos rfl
      · exact if_neg hc
  · refine left_congr hown ?_
    rw [hupdate, Function.update_of_ne hloop]

theorem passed_congr (h : t.sending c = s.sending c) : t.passed c = s.passed c := by
  rw [passed, passed, accepted, accepted, waiting, waiting, h]

theorem passed_setSending_of_ne {x : TcpConnection × Bytes} (h : c ≠ c') :
    (s.setSending c' x).sending c = s.sending c := by simp [setSending, h]

/-- The steps of the reactors send nothing. -/
theorem passed_follow (a : ReactorAction) (hmade : c < s.reactors.made) :
    (s.follow a).passed c = s.passed c := by
  have hset : ∀ c' x, x.1.sendBuf = (s.sending c').1.sendBuf → x.2 = (s.sending c').2 →
      (s.setSending c' x).passed c = s.passed c := by
    intro c' x hbuf hbytes
    by_cases hc : c = c'
    · subst hc
      simp [passed, accepted, waiting, setSending, hbuf, hbytes]
    · exact passed_congr (passed_setSending_of_ne hc)
  unfold follow
  split
  · exact passed_congr (passed_setSending_of_ne (by omega))
  · refine hset _ _ ?_ rfl
    rw [TcpConnection.handleClose]
    split <;> rfl
  · split
    · exact hset _ _ rfl rfl
    · rfl
  · rfl

/-- `Send` on a connection leaves the other ones alone. -/
theorem sending_send {msg : Bytes} {res : SocketResult} (h : s.send c' msg res = .ok t)
    (hne : c ≠ c') : t.sending c = s.sending c := by
  obtain ⟨⟨conn, out⟩, -, h⟩ := bind_eq_ok.mp h
  obtain rfl := Except.ok.inj h
  exact passed_setSending_of_ne hne

/-- An action passes its bytes to `Send`, on its own connection. -/
theorem Serving.passed_doAction (h : s.Serving) (hmade : c' < s.reactors.made) {thread : LoopId}
    {action : ServerAction} {res : SocketResult} (hres : res.Within action.sent.length)
    (hdo : s.doAction thread c' res action = .ok t) :
    t.passed c = s.passed c ++ if c' = c then action.sent else [] := by
  have hsend : ∀ msg, res.Within msg.length → s.send c' msg res = .ok t →
      t.passed c = s.passed c ++ if c' = c then msg else [] := by
    intro msg hres hs
    by_cases hc : c' = c
    · subst hc
      obtain ⟨u, hu, -, -, -, -, -, -, hsum⟩ := h.send hmade hres
      obtain rfl := Except.ok.inj (hu.symm.trans hs)
      rw [if_pos rfl]
      exact hsum
    · rw [if_neg hc, List.append_nil]
      exact passed_congr (sending_send hs (Ne.symm hc))
  cases action with
  | badRequest => exact hsend _ hres hdo
  | response message => exact hsend _ hres hdo
  | request r =>
    obtain rfl := Except.ok.inj hdo
    simp [ServerAction.sent]
  | close =>
    obtain rfl := Except.ok.inj hdo
    have hkeep : (s.handleClose thread c').passed c = s.passed c := by
      by_cases hc : c = c'
      · subst hc
        simp only [HttpReactors.handleClose, passed, accepted, waiting, setSending,
          Function.update_self, TcpConnection.handleClose]
        split <;> rfl
      · exact passed_congr (passed_setSending_of_ne hc)
    simp [hkeep, ServerAction.sent]

/-- `HandleWrite` passes nothing. -/
theorem Serving.passed_handleWrite (h : s.Serving) {res : SocketResult}
    (hres : res.Within (s.waiting c').length) (hwrite : s.handleWrite c' res = .ok t) :
    t.passed c = s.passed c := by
  obtain ⟨conn, out, pending, hrun, hsending, hsum⟩ := (h.sending c').handleWrite hres
  rw [HttpReactors.handleWrite, hrun, ok_bind] at hwrite
  obtain rfl := Except.ok.inj hwrite
  by_cases hc : c = c'
  · subst hc
    have hread := hsending.readable
    simp only [passed, accepted, waiting, setSending, Function.update_self, hread]
    rw [List.append_assoc, hsum, waiting]
  · exact passed_congr (passed_setSending_of_ne hc)

/-- A step that succeeds leads to one state, whatever its faults are called. -/
theorem eq_of_mapError {ε ε' : Type} {f : ε → ε'} {x : Except ε HttpReactors} {u : HttpReactors}
    (hx : x = .ok u) (h : x.mapError f = .ok t) : t = u := by
  rw [hx] at h
  exact (Except.ok.inj h).symm

/-- An action is taken away from what is left to do for its connection. -/
theorem Serving.perform_effect (h : s.Serving) {thread : LoopId} {res : SocketResult}
    (he : s.Enabled (.perform thread res)) (hact : s.act callback (.perform thread res) = .ok t)
    (hown : t.own c = s.own c) :
    ∃ done, s.left c = done ++ t.left c ∧
      t.passed c = s.passed c ++ done.flatMap ServerAction.sent ∧
      (.close ∈ done → (t.reactors.conn c).state = .disconected) := by
  obtain ⟨hfree, c', action, rest, hhandling, hres⟩ := he
  obtain ⟨hmade', hthread, -⟩ := h.handling thread c' _ hhandling
  obtain ⟨t', hperform, -, -, hupdate, -, -⟩ := h.perform hfree hhandling res hres
  obtain rfl := eq_of_mapError hperform hact
  obtain ⟨u, hdo, hset⟩ : ∃ u, s.doAction thread c' res action = .ok u ∧
      u.setHandling thread (some (c', rest)) = t := by
    rw [HttpReactors.perform, hhandling] at hperform
    obtain ⟨u, hdo, hu⟩ := bind_eq_ok.mp hperform
    exact ⟨u, hdo, Except.ok.inj hu⟩
  have hpassed : t.passed c = s.passed c ++ if c' = c then action.sent else [] := by
    rw [← h.passed_doAction hmade' hres hdo, ← hset]
    rfl
  by_cases hc : c' = c
  · subst hc
    rw [if_pos rfl] at hpassed
    have hafter : t.left c' = rest := by
      refine left_of_eq ?_
      rw [hown, ← hthread, hupdate]
      exact Function.update_self ..
    refine ⟨[action], ?_, by simpa using hpassed, ?_⟩
    · rw [hafter, left_of_eq (hthread ▸ hhandling)]
      rfl
    · rw [List.mem_singleton]
      rintro rfl
      obtain rfl := Except.ok.inj hdo
      rw [← hset]
      exact Reactors.state_handleClose thread c'
  · -- another connection
    rw [if_neg hc, List.append_nil] at hpassed
    have hleft : t.left c = s.left c := by
      refine left_update hown hupdate ?_ ?_
      · rintro actions ⟨⟩
        exact absurd rfl hc
      · exact fun hloop => left_of_ne (hloop ▸ hhandling) hc
    exact ⟨[], by simp [hleft], by simp [hpassed], by simp⟩

/-- **What one step does to a connection**: its thread enters `onMessage` with nothing left to do,
or goes on with what is left to do. A connection that its handler closes is not open behind that. -/
theorem Serving.effect (h : s.Serving) {e : HttpStep} (he : s.Enabled e)
    (hact : s.act callback e = .ok t) (hmade : c < s.reactors.made) :
    (∃ request, e.requestOn c = some request ∧ (s.reactors.conn c).state = .connected ∧
      s.left c = [] ∧ t.left c = HttpServer.actions callback request ∧
      t.passed c = s.passed c) ∨
    (e.requestOn c = none ∧ ∃ done, s.left c = done ++ t.left c ∧
      t.passed c = s.passed c ++ done.flatMap ServerAction.sent ∧
      (.close ∈ done → (t.reactors.conn c).state = .disconected)) := by
  -- a step that leaves what is left to do
  have hkeep : e.requestOn c = none → t.left c = s.left c → t.passed c = s.passed c →
      e.requestOn c = none ∧ ∃ done, s.left c = done ++ t.left c ∧
        t.passed c = s.passed c ++ done.flatMap ServerAction.sent ∧
        (.close ∈ done → (t.reactors.conn c).state = .disconected) :=
    fun hnone hleft hpassed => ⟨hnone, [], by simp [hleft], by simp [hpassed], by simp⟩
  obtain ⟨t', hact', -, hfollows, -⟩ := h.act callback he
  obtain rfl := Except.ok.inj (hact'.symm.trans hact)
  obtain ⟨-, -, hkeeps⟩ := hfollows.keeps h.orderly h.housed
  have hown := (hkeeps c hmade).2.1
  cases e with
  | reactor a =>
    obtain ⟨u, hreactor, -, -, -, hhandling, -⟩ := h.reactor he.1
    obtain rfl := eq_of_mapError hreactor hact
    refine .inr (hkeep rfl (left_congr hown (congrFun hhandling _)) ?_)
    obtain ⟨r, -, hr⟩ := bind_eq_ok.mp hreactor
    obtain rfl := Except.ok.inj hr
    exact passed_follow a hmade
  | onMessage c' request =>
    obtain rfl := Except.ok.inj hact
    obtain ⟨⟨-, -, -, -, -, hidle⟩, hstate⟩ := he
    by_cases hc : c' = c
    · subst hc
      refine .inl ⟨request, if_pos rfl, hstate, left_of_none hidle, left_of_eq ?_, rfl⟩
      exact Function.update_self ..
    · refine .inr (hkeep (if_neg hc) (left_update hown rfl ?_ ?_) rfl)
      · rintro actions ⟨⟩
        exact absurd rfl hc
      · exact fun hloop => left_of_none (hloop ▸ hidle)
  | perform thread res =>
    exact .inr ⟨rfl, h.perform_effect he hact hown⟩
  | leave thread =>
    obtain rfl := Except.ok.inj hact
    obtain ⟨-, c', hhandling⟩ := he
    refine .inr (hkeep rfl (left_update hown rfl (by simp) ?_) rfl)
    rintro rfl
    by_cases hc : c' = c
    · exact left_of_eq (hc ▸ hhandling)
    · exact left_of_ne hhandling hc
  | handleWrite c' res =>
    obtain ⟨u, hwrite, hhandling, -⟩ := h.handleWrite he.2
    obtain rfl := eq_of_mapError hwrite hact
    exact .inr (hkeep rfl (left_congr hown (congrFun hhandling _))
      (h.passed_handleWrite he.2 hwrite))

/-! ## Whole runs -/

/-- **A connection is answered as if it were alone**: what was passed to `Send` and what is left to
do are the answers to its requests, in order, and behind an answer that closes the connection no
request is handled. -/
structure Answers (callback : HttpRequest → HttpResponse → HttpResponse)
    (requests : List (Option HttpRequest)) (s : HttpReactors) (c : ℕ) : Prop where
  passed : s.passed c ++ (s.left c).flatMap ServerAction.sent =
    requests.flatMap (HttpServer.answer callback)
  closing : (∃ request ∈ requests, ¬ HttpServer.KeepsOpen callback request) →
    .close ∈ s.left c ∨ (s.reactors.conn c).state = .disconected
  keepsOpen : ∀ request ∈ requests.dropLast, HttpServer.KeepsOpen callback request

/-- **One step** of any thread. -/
theorem Answers.step {requests : List (Option HttpRequest)} (h : s.Serving)
    (hc : s.Answers callback requests c) {e : HttpStep} (he : s.Enabled e)
    (hact : s.act callback e = .ok t) (hmade : c < s.reactors.made) :
    t.Answers callback (requests ++ (e.requestOn c).toList) c := by
  obtain ⟨t', hact', -, hfollows, -⟩ := h.act callback he
  obtain rfl := Except.ok.inj (hact'.symm.trans hact)
  obtain ⟨-, -, hkeeps⟩ := hfollows.keeps h.orderly h.housed
  rcases h.effect he hact hmade with
    ⟨request, hrequest, hstate, hnil, hleft, hpassed⟩ | ⟨hnone, done, hleft, hpassed, hclose⟩
  -- a connection that handles a request is open, so its answers have not closed it
  · have hopen : ∀ request ∈ requests, HttpServer.KeepsOpen callback request := by
      by_contra hsome
      push Not at hsome
      rcases hc.closing hsome with hleft | hdown
      · rw [hnil] at hleft
        exact List.not_mem_nil hleft
      · rw [hstate] at hdown
        cases hdown
    rw [hrequest, Option.toList_some]
    refine ⟨?_, ?_, ?_⟩
    · have hbytes := hc.passed
      rw [hnil, List.flatMap_nil, List.append_nil] at hbytes
      rw [hleft, hpassed, hbytes, List.flatMap_append, List.flatMap_singleton]
      rfl
    · rintro ⟨r, hr, hnot⟩
      rcases List.mem_append.mp hr with hr | hr
      · exact absurd (hopen r hr) hnot
      · rw [List.mem_singleton.mp hr, HttpServer.KeepsOpen, not_not] at hnot
        exact .inl (hleft ▸ hnot)
    · rw [List.dropLast_concat]
      exact hopen
  · rw [hnone, Option.toList_none, List.append_nil]
    refine ⟨?_, fun hsome => ?_, hc.keepsOpen⟩
    · rw [hpassed, List.append_assoc, ← List.flatMap_append, ← hleft]
      exact hc.passed
    · rcases hc.closing hsome with hmem | hdown
      · rw [hleft] at hmem
        exact (List.mem_append.mp hmem).symm.imp_right hclose
      · exact .inr ((hkeeps c hmade).2.2 hdown)

end HttpReactors

open HttpReactors

variable {callback : HttpRequest → HttpResponse → HttpResponse} {threadNums : ℕ}
  {steps : List HttpStep} {s : HttpReactors} {c : ℕ}

/-- The message that a step passes to `Send` fits, so that `Send` does with it what it does with
exact integers (`TcpConnection.sendString_eq_send`). -/
def HttpReactors.Fits (s : HttpReactors) : HttpStep → Prop
  | .perform thread res => ∀ c action rest, s.handling thread = some (c, action :: rest) →
    (s.sending c).1.Fits action.sent res
  | .reactor _ | .onMessage _ _ | .leave _ | .handleWrite _ _ => True

namespace HttpReactors

section Exchange

theorem Fits.perform {thread : LoopId} {action : ServerAction} {rest : List ServerAction}
    {res : SocketResult} (h : s.handling thread = some (c, action :: rest))
    (hfits : (s.sending c).1.Fits action.sent res) : s.Fits (.perform thread res) := by
  intro c' action' rest' h'
  obtain ⟨⟨⟩⟩ := h.symm.trans h'
  exact hfits

end Exchange

end HttpReactors

end CppServerStudio
