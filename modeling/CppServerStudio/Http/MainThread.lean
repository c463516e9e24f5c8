import CppServerStudio.Http.AutoClose

/-!
# The thread of the main reactor among its timers

While the thread of the main reactor is inside the timer queue or `onConnection`, the other threads
leave alone what it relies on: it stays in no other function, and the connection that it holds a
reference to stays referenced. So the server is an HTTP server and a timer queue side by side, and
no assertion of either fails.

## Main definitions

* `AutoCloseServer.Guarded`: what holds between the steps

## Main results

* `HttpReactors.Unmoved`, `HttpReactors.act_unmoved`: what a step of another thread leaves alone
* `AutoCloseServer.Guarded.act`: each step succeeds and keeps the invariant
* `autoCloseSystem_sound`: a server that closes idle connections is sound
-/

namespace CppServerStudio

open Scanning

/-! ## The steps of other threads -/

namespace Reactors

variable {s t : Reactors} {a : ReactorAction}

theorem batch_updateChannel (c : ℕ) (l : LoopId) :
    ((s.updateChannel c).loop l).batch = (s.loop l).batch := by
  unfold updateChannel setLoop
  by_cases h : l = (s.conn c).loop
  · subst h
    simp
  · simp [h]

/-- Only its own thread starts the batch of a loop, or goes on with it. -/
theorem batch_act (ha : s.Enabled a) (hact : s.act a = .ok t) {l : LoopId}
    (hl : a.thread? = some l → (∃ fd, a = .accept fd) ∨ ∃ c, a = .handleClose l c) :
    (t.loop l).batch = (s.loop l).batch := by
  cases a with
  | accept fd =>
    obtain rfl := Except.ok.inj hact
    obtain ⟨n, hn⟩ := s.nextloop_eq
    unfold handleNewConnection
    rw [hn]
    exact (batch_updateChannel _ l).trans (batch_updateChannel _ l)
  | acquire c | release c | destroy c =>
    obtain rfl := Except.ok.inj hact
    rfl
  | updateChannel c =>
    obtain rfl := Except.ok.inj hact
    exact batch_updateChannel c l
  | handleClose thread c =>
    obtain rfl := Except.ok.inj hact
    unfold handleClose
    split <;> rfl
  | onClose thread c =>
    obtain ⟨-, -, -, hloop⟩ := onClose_spec hact
    exact (hloop l).1
  | swapToDoList l' | endToDoList l' =>
    obtain rfl := Except.ok.inj hact
    have hne : l ≠ l' := by
      rintro rfl
      simpa using hl rfl
    simp [swapToDoList, endToDoList, setLoop, hne]
  | callNext l' =>
    obtain ⟨-, f, rest, called, hbatch⟩ := ha
    obtain ⟨-, -, -, hloop⟩ := callNext_spec hbatch hact
    have hne : l ≠ l' := by
      rintro rfl
      simpa using hl rfl
    rw [(hloop l).2, if_neg hne]

/-- Only its own thread enters `HandleClose`. -/
theorem closing_act (ha : s.Enabled a) (hact : s.act a = .ok t) {thread : LoopId} {c : ℕ}
    (hc : (thread, c) ∈ t.closing) : (thread, c) ∈ s.closing ∨ a = .handleClose thread c := by
  cases a with
  | accept fd =>
    obtain rfl := Except.ok.inj hact
    obtain ⟨-, -, -, -, hclosing, -⟩ := s.handleNewConnection_spec fd
    exact .inl (hclosing ▸ hc)
  | acquire c' | release c' | destroy c' | updateChannel c' | swapToDoList l | endToDoList l =>
    obtain rfl := Except.ok.inj hact
    exact .inl hc
  | handleClose thread' c' =>
    obtain rfl := Except.ok.inj hact
    simp only [handleClose] at hc
    split at hc
    · rcases List.mem_cons.mp hc with heq | hc
      · obtain ⟨rfl, rfl⟩ := Prod.mk.inj heq
        exact .inr rfl
      · exact .inl hc
    · exact .inl hc
  | onClose thread' c' =>
    obtain ⟨-, -, hclosing, -⟩ := onClose_spec hact
    rw [hclosing] at hc
    exact .inl (List.mem_of_mem_erase hc)
  | callNext l =>
    obtain ⟨-, f, rest, called, hbatch⟩ := ha
    obtain ⟨-, -, hclosing, -⟩ := callNext_spec hbatch hact
    exact .inl (hclosing ▸ hc)

theorem free_act (ha : s.Enabled a) (hact : s.act a = .ok t) {l : LoopId} (hfree : s.Free l)
    (hl : ∀ c, a ≠ .handleClose l c) : t.Free l := by
  intro c hc
  rcases closing_act ha hact hc with hc | heq
  · exact hfree c hc
  · exact hl c heq

/-- Only `accept` makes a connection. -/
theorem made_act (ha : s.Enabled a) (hact : s.act a = .ok t) (haccept : ∀ fd, a ≠ .accept fd) :
    t.made = s.made := by
  cases a with
  | accept fd => exact absurd rfl (haccept fd)
  | acquire c | release c | destroy c | updateChannel c | swapToDoList l | endToDoList l =>
    obtain rfl := Except.ok.inj hact
    rfl
  | handleClose thread c =>
    obtain rfl := Except.ok.inj hact
    unfold handleClose
    split <;> rfl
  | onClose thread c => exact (onClose_spec hact).2.1
  | callNext l =>
    obtain ⟨-, f, rest, called, hbatch⟩ := ha
    exact (callNext_spec hbatch hact).2.1

/-- The holders of a connection release one reference at a time. -/
theorem holders_act (ha : s.Enabled a) (hact : s.act a = .ok t) {c : ℕ} (hmade : c < s.made) :
    (s.conn c).holders ≤ (t.conn c).holders ∨
      a = .release c ∧ (s.conn c).holders ≤ (t.conn c).holders + 1 := by
  have hset : ∀ c' x, (s.conn c').holders ≤ x.holders →
      (s.conn c).holders ≤ ((s.setConn c' x).conn c).holders := by
    intro c' x hx
    by_cases h : c = c'
    · subst h
      simpa [setConn] using hx
    · simp [setConn, h]
  cases a with
  | accept fd =>
    obtain rfl := Except.ok.inj hact
    obtain ⟨-, -, hconn, -⟩ := s.handleNewConnection_spec fd
    rw [hconn, Function.update_of_ne hmade.ne]
    exact .inl le_rfl
  | acquire c' =>
    obtain rfl := Except.ok.inj hact
    exact .inl (hset _ _ (Nat.le_succ _))
  | release c' =>
    obtain rfl := Except.ok.inj hact
    by_cases hc : c = c'
    · subst hc
      exact .inr ⟨rfl, by simp only [setConn, Function.update_self]; omega⟩
    · exact .inl (by simp [setConn, hc])
  | destroy c' =>
    obtain rfl := Except.ok.inj hact
    exact .inl (hset _ _ le_rfl)
  | updateChannel c' | swapToDoList l | endToDoList l =>
    obtain rfl := Except.ok.inj hact
    exact .inl le_rfl
  | handleClose thread c' =>
    obtain rfl := Except.ok.inj hact
    unfold handleClose
    split
    · exact .inl (hset _ _ le_rfl)
    · exact .inl le_rfl
  | onClose thread c' =>
    obtain ⟨hconn, -⟩ := onClose_spec hact
    exact .inl (by rw [hconn])
  | callNext l =>
    obtain ⟨-, f, rest, called, hbatch⟩ := ha
    obtain ⟨hconn, -⟩ := callNext_spec hbatch hact
    exact .inl (by rw [hconn])

end Reactors

namespace HttpReactors

variable {s t : HttpReactors} {e : HttpStep}
  {callback : HttpRequest → HttpResponse → HttpResponse}

/-- The step that the reactors take in a step of the server, by the same thread. -/
inductive ReactorStep (s : HttpReactors) (e : HttpStep) (t : HttpReactors) : Prop
  | none (h : t.reactors = s.reactors)
  | some (a : ReactorAction) (ha : s.reactors.Enabled a) (hact : s.reactors.act a = .ok t.reactors)
    (hthread : a.thread? = .none ∨ a.thread? = s.threadOf e)
    (hrelease : ∀ c, a = .release c → e = .reactor (.release c))
    (haccept : ∀ fd, a = .accept fd → e = .reactor (.accept fd))

theorem send_reactors {c : ℕ} {msg : Bytes} {res : SocketResult} (h : s.send c msg res = .ok t) :
    t.handling = s.handling ∧
      (t.reactors = s.reactors ∨ t.reactors = s.reactors.updateChannel c) := by
  obtain ⟨⟨conn, accepted⟩, -, ht⟩ := bind_eq_ok.mp h
  obtain rfl := Except.ok.inj ht
  refine ⟨rfl, ?_⟩
  dsimp only
  split
  · exact .inr rfl
  · exact .inl rfl

/-- A step of the server, seen by the reactors, and what its thread is doing. -/
theorem reactorStep_act (h : s.Serving) (he : s.Enabled e) (hact : s.act callback e = .ok t) :
    s.ReactorStep e t ∧ ∀ l, t.handling l ≠ s.handling l →
      s.threadOf e = some l ∧ ∀ a, e ≠ .reactor a := by
  cases e with
  | reactor a =>
    obtain ⟨u, hu, -, -, hreactors, hhandling, -⟩ := h.reactor he.1
    rw [HttpReactors.act, hu] at hact
    obtain rfl := Except.ok.inj hact
    refine ⟨.some a he.1 hreactors (.inr rfl) ?_ ?_, fun l hl => absurd (by rw [hhandling]) hl⟩
    all_goals
      rintro _ rfl
      rfl
  | onMessage c request =>
    obtain rfl := Except.ok.inj hact
    refine ⟨.none rfl, fun l hl => ⟨?_, by rintro _ ⟨⟩⟩⟩
    by_contra hne
    apply hl
    exact Function.update_of_ne (fun heq => hne (by rw [heq]; rfl)) _ _
  | perform thread res =>
    obtain ⟨hfree, c, action, rest, hhandling, hres⟩ := he
    obtain ⟨hmade, -, -⟩ := h.handling thread c _ hhandling
    obtain ⟨u, hu, -, -, hupdate, -, -⟩ := h.perform hfree hhandling res hres
    rw [HttpReactors.act, hu] at hact
    obtain rfl := Except.ok.inj hact
    refine ⟨?_, fun l hl => ⟨?_, by rintro _ ⟨⟩⟩⟩
    · simp only [HttpReactors.perform, hhandling] at hu
      obtain ⟨v, hv, hu⟩ := bind_eq_ok.mp hu
      obtain rfl := Except.ok.inj hu
      -- an answer updates the channel if not all of it was accepted
      have hsend : ∀ msg, s.send c msg res = .ok v →
          s.ReactorStep (.perform thread res) (v.setHandling thread (some (c, rest))) := by
        intro msg hv
        rcases (send_reactors hv).2 with heq | heq
        · exact .none heq
        · refine .some (.updateChannel c) hmade ?_ (.inl rfl) (by rintro _ ⟨⟩) (by rintro _ ⟨⟩)
          rw [Reactors.act]
          exact congrArg Except.ok heq.symm
      cases action with
      | badRequest | response message => exact hsend _ hv
      | request r =>
        obtain rfl := Except.ok.inj hv
        exact .none rfl
      | close =>
        obtain rfl := Except.ok.inj hv
        refine .some (.handleClose thread c) ⟨hmade, hfree⟩ rfl (.inr rfl) ?_ ?_
        all_goals rintro _ ⟨⟩
    · by_contra hne
      apply hl
      rw [hupdate]
      exact Function.update_of_ne (fun heq => hne (by rw [heq]; rfl)) _ _
  | leave thread =>
    obtain rfl := Except.ok.inj hact
    refine ⟨.none rfl, fun l hl => ⟨?_, by rintro _ ⟨⟩⟩⟩
    by_contra hne
    apply hl
    exact Function.update_of_ne (fun heq => hne (by rw [heq]; rfl)) _ _
  | handleWrite c res =>
    obtain ⟨u, hu, hhandling, hreactors, -⟩ := h.handleWrite he.2
    rw [HttpReactors.act, hu] at hact
    obtain rfl := Except.ok.inj hact
    exact ⟨.none hreactors, fun l hl => absurd (by rw [hhandling]) hl⟩

/-- A thread is where it was, and still outside `HandleClose` if it was. -/
structure Unmoved (s t : HttpReactors) (l : LoopId) : Prop where
  handling : t.handling l = s.handling l
  batch : (t.reactors.loop l).batch = (s.reactors.loop l).batch
  free : s.reactors.Free l → t.reactors.Free l

/-- **The steps of the other threads** leave a thread where it is. -/
theorem act_unmoved (h : s.Serving) (he : s.Enabled e) (hact : s.act callback e = .ok t)
    {l : LoopId} (hl : s.threadOf e ≠ some l) : s.Unmoved t l := by
  obtain ⟨hstep, hhandling⟩ := reactorStep_act h he hact
  have hsame : t.handling l = s.handling l := by
    by_contra hne
    exact hl (hhandling l hne).1
  cases hstep with
  | none hreactors =>
    refine ⟨hsame, by rw [hreactors], fun hfree => ?_⟩
    rwa [hreactors]
  | some a ha hact hthread hrelease haccept =>
    have hne : a.thread? ≠ some l := by
      rcases hthread with hnone | heq
      · rw [hnone]
        nofun
      · rwa [heq]
    refine ⟨hsame, Reactors.batch_act ha hact fun hsome => absurd hsome hne, fun hfree => ?_⟩
    apply Reactors.free_act ha hact hfree
    rintro c rfl
    exact hne rfl

/-- What a step keeps of the connections: they exist, and keep their references. -/
theorem holders_act (h : s.Serving) (he : s.Enabled e) (hact : s.act callback e = .ok t) {c : ℕ}
    (hmade : c < s.reactors.made) : c < t.reactors.made ∧
      ((s.reactors.conn c).holders ≤ (t.reactors.conn c).holders ∨
        e = .reactor (.release c) ∧
          (s.reactors.conn c).holders ≤ (t.reactors.conn c).holders + 1) := by
  obtain ⟨hstep, -⟩ := reactorStep_act h he hact
  cases hstep with
  | none hreactors =>
    rw [hreactors]
    exact ⟨hmade, .inl le_rfl⟩
  | some a ha hact hthread hrelease haccept =>
    refine ⟨(Reactors.conn_act hact ha hmade).1, ?_⟩
    exact (Reactors.holders_act ha hact hmade).imp_right (And.imp_left (hrelease c))

/-- The connections of the server behind a step: no other one exists, unless one is accepted. -/
theorem made_act (h : s.Serving) (he : s.Enabled e) (hact : s.act callback e = .ok t)
    (haccept : ∀ fd, e ≠ .reactor (.accept fd)) : t.reactors.made = s.reactors.made := by
  obtain ⟨hstep, -⟩ := reactorStep_act h he hact
  cases hstep with
  | none hreactors => rw [hreactors]
  | some a ha hact _ _ hsame =>
    exact Reactors.made_act ha hact fun fd heq => haccept fd (hsame fd heq)

/-- A connection that was seen closed stays so. -/
theorem disconected_act (h : s.Serving) (he : s.Enabled e) (hact : s.act callback e = .ok t) {c : ℕ}
    (hmade : c < s.reactors.made) (hc : (s.reactors.conn c).state = .disconected) :
    (t.reactors.conn c).state = .disconected := by
  obtain ⟨hstep, -⟩ := reactorStep_act h he hact
  cases hstep with
  | none hreactors => rwa [hreactors]
  | some a ha hact => exact (Reactors.conn_act hact ha hmade).2.2 hc

end HttpReactors

/-! ## The invariant -/

/-- The timers that a step adds. -/
def AutoCloseStep.added : AutoCloseStep → Option (ℤ × Interval)
  | runAfter _ _ now _ => some (now + autoCloseTimeout, ⟨false, 0⟩)
  | _ => none

/-- The connection that the thread of the main reactor is about. -/
def CheckPhase.subject : CheckPhase → Option ℕ
  | connecting c | checking c | locked c | expired c | kept c => some c
  | leaving held _ => held
  | outside => none

/-- The thread is in a callback of a timer. -/
def CheckPhase.InCallback : CheckPhase → Prop
  | outside | connecting _ => False
  | checking _ | locked _ | expired _ | kept _ | leaving _ _ => True

namespace AutoCloseServer

variable {s t : AutoCloseServer} {added : List (ℤ × Interval)}
  {callback : HttpRequest → HttpResponse → HttpResponse}

/-- **The invariant.** A main reactor that is not idle is in no other function, and in `HandleClose`
only at the end of `ActiveCloseConn`; and what it holds a reference to is referenced. -/
structure Guarded (added : List (ℤ × Interval)) (s : AutoCloseServer) : Prop where
  serving : s.http.Serving
  kept : s.timers.Kept added
  resting : ¬ s.Idle → s.http.handling .main = none ∧ (s.http.reactors.loop .main).batch = none
  free : ¬ s.Idle → (∀ held again, s.phase ≠ .leaving held again) → s.http.reactors.Free .main
  held : ∀ c, s.phase.held = some c → 0 < (s.http.reactors.conn c).holders
  subject : ∀ c, s.phase.subject = some c → c < s.http.reactors.made
  bound : ∀ i < s.timers.made, s.bound i < s.http.reactors.made
  inCallback : s.phase.InCallback ↔ ∃ now ran entry rest,
    s.timers.phase = .inCallback now ran entry rest
  connecting : ∀ c, s.phase = .connecting c → s.timers.phase = .idle

/-- What a step is for the HTTP server, and what it is for the timer queue. -/
structure Follows (callback : HttpRequest → HttpResponse → HttpResponse) (s t : AutoCloseServer) :
    Prop where
  http : t.http = s.http ∨ ∃ e, s.http.Enabled e ∧ s.http.act callback e = .ok t.http
  timers : t.timers = s.timers ∨ ∃ y, timerSystem.step s.timers y t.timers

theorem CheckPhase.subject_of_held {phase : CheckPhase} {c : ℕ} (h : phase.held = some c) :
    phase.subject = some c := by
  cases phase <;> first | exact h | cases h

theorem doHttp_ok {e : HttpStep} {http : HttpReactors} (h : s.http.act callback e = .ok http) :
    s.doHttp callback e = .ok { s with http := http } := by
  rw [doHttp, h]
  rfl

theorem doTimer_ok {x : TimerAction} {timers : TimerQueue} (h : s.timers.act x = .ok timers) :
    s.doTimer x = .ok { s with timers := timers } := by
  rw [doTimer, h]
  rfl

/-- A step of the HTTP server, by another thread or while the main reactor is idle. -/
theorem Guarded.doHttp (h : s.Guarded added)
    (callback : HttpRequest → HttpResponse → HttpResponse) {e : HttpStep} (he : s.http.Enabled e)
    (hmain : s.http.threadOf e = some .main → s.Idle)
    (hrelease : ∀ c, e = .reactor (.release c) → s.phase.held = some c →
      1 < (s.http.reactors.conn c).holders) :
    ∃ t, s.doHttp callback e = .ok t ∧ t.Guarded added ∧ s.Follows callback t ∧
      t.phase = s.phase ∧ t.timers = s.timers ∧ t.bound = s.bound := by
  obtain ⟨http, hact, hserving, -⟩ := h.serving.act callback he
  have hunmoved : ¬ s.Idle → s.http.Unmoved http .main := fun hbusy =>
    HttpReactors.act_unmoved h.serving he hact fun hthread => hbusy (hmain hthread)
  have hkeeps := fun c => HttpReactors.holders_act h.serving he hact (c := c)
  refine ⟨_, doHttp_ok hact, ?_, ⟨.inr ⟨e, he, hact⟩, .inl rfl⟩, rfl, rfl, rfl⟩
  constructor
  case serving => exact hserving
  case kept => exact h.kept
  case resting =>
    intro hbusy
    obtain ⟨hhandling, hbatch⟩ := h.resting hbusy
    exact ⟨(hunmoved hbusy).handling.trans hhandling, (hunmoved hbusy).batch.trans hbatch⟩
  case free => exact fun hbusy hphase => (hunmoved hbusy).free (h.free hbusy hphase)
  case held =>
    intro c hc
    have hold := h.held c hc
    rcases (hkeeps c (h.subject c (CheckPhase.subject_of_held hc))).2 with hle | ⟨heq, hle⟩
    · exact hold.trans_le hle
    · -- another holder releases its reference
      have hlt := hrelease c heq hc
      change 0 < (http.reactors.conn c).holders
      omega
  case subject => exact fun c hc => (hkeeps c (h.subject c hc)).1
  case bound => exact fun i hi => (hkeeps _ (h.bound i hi)).1
  case inCallback => exact h.inCallback
  case connecting => exact h.connecting

/-- The thread of the main reactor goes on, and calls nothing. -/
theorem Guarded.setPhase (h : s.Guarded added) {phase : CheckPhase} (hbusy : ¬ s.Idle)
    (hfree : (∀ held again, phase ≠ .leaving held again) → s.http.reactors.Free .main)
    (hheld : ∀ c, phase.held = some c → 0 < (s.http.reactors.conn c).holders)
    (hsubject : ∀ c, phase.subject = some c → c < s.http.reactors.made)
    (hcalled : phase.InCallback ↔ s.phase.InCallback) (hconnecting : ∀ c, phase ≠ .connecting c) :
    (s.setPhase phase).Guarded added where
  serving := h.serving
  kept := h.kept
  resting _ := h.resting hbusy
  free _ := hfree
  held := hheld
  subject := hsubject
  bound := h.bound
  inCallback := hcalled.trans h.inCallback
  connecting c hc := absurd hc (hconnecting c)

/-- A call into the timer queue, by the thread of the main reactor. -/
theorem Guarded.doTimer (h : s.Guarded added) {x : TimerAction} (hx : s.timers.Enabled x) :
    ∃ timers, s.doTimer x = .ok { s with timers := timers } ∧
      timerSystem.step s.timers x timers ∧ timers.Kept (added ++ x.added.toList) := by
  obtain ⟨timers, hact⟩ := s.timers.exists_act x
  exact ⟨timers, doTimer_ok hact, ⟨hx, hact⟩, h.kept.step ⟨hx, hact⟩⟩

/-- The invariant, with other timers. -/
theorem Guarded.setTimers (h : s.Guarded added) {added' : List (ℤ × Interval)}
    (timers : TimerQueue) (phase : CheckPhase) (hkept : timers.Kept added')
    (hmade : timers.made = s.timers.made)
    (hbusy : ¬ (phase = .outside ∧ timers.phase = .idle) →
      s.http.handling .main = none ∧ (s.http.reactors.loop .main).batch = none ∧
        s.http.reactors.Free .main)
    (hheld : phase.held = none) (hsubject : ∀ c, phase.subject = some c → c < s.http.reactors.made)
    (hcalled : phase.InCallback ↔ ∃ now ran entry rest,
      timers.phase = .inCallback now ran entry rest)
    (hconnecting : ∀ c, phase = .connecting c → timers.phase = .idle) :
    ({ s with timers := timers, phase := phase } : AutoCloseServer).Guarded added' where
  serving := h.serving
  kept := hkept
  resting hb := ⟨(hbusy hb).1, (hbusy hb).2.1⟩
  free hb _ := (hbusy hb).2.2
  held c hc := by
    rw [hheld] at hc
    cases hc
  subject := hsubject
  bound i hi := h.bound i (hmade ▸ hi)
  inCallback := hcalled
  connecting := hconnecting

/-! ## The steps of the main reactor -/

/-- A step succeeds, keeps the invariant, and is at most one step of either part. -/
def Steps (callback : HttpRequest → HttpResponse → HttpResponse) (added : List (ℤ × Interval))
    (s : AutoCloseServer) (x : AutoCloseStep) : Prop :=
  ∃ t, s.act callback x = .ok t ∧ t.Guarded (added ++ x.added.toList) ∧ s.Follows callback t

theorem Guarded.accept (h : s.Guarded added) {fd : ℕ} (hx : s.Enabled (.accept fd)) :
    s.Steps callback added (.accept fd) := by
  obtain ⟨⟨ha, hhandling, hrest⟩, hphase, hidle⟩ := hx
  obtain ⟨http, hact, hserving, -, hreactors, hsame, -⟩ := h.serving.reactor ha
  have hhttp : s.http.act callback (.reactor (.accept fd)) = .ok http := by
    rw [HttpReactors.act, hact]
    rfl
  have hmade : http.reactors.made = s.http.reactors.made + 1 := by
    rw [← Except.ok.inj hreactors]
    exact (s.http.reactors.handleNewConnection_spec fd).1
  refine ⟨{ s with http := http, phase := .connecting s.http.reactors.made }, ?_, ?_,
    .inr ⟨.reactor (.accept fd), ⟨ha, hhandling, hrest⟩, hhttp⟩, .inl rfl⟩
  · simp only [act, doHttp_ok hhttp, ok_bind]
    rfl
  · change Guarded (added ++ []) _
    rw [List.append_nil]
    constructor
    case serving => exact hserving
    case kept => exact h.kept
    case resting =>
      intro _
      refine ⟨(congrFun hsame _).trans (hhandling _ rfl), ?_⟩
      exact (Reactors.batch_act ha hreactors fun _ => .inl ⟨fd, rfl⟩).trans ha.2.2
    case free => exact fun _ _ => Reactors.free_act ha hreactors ha.2.1 (by rintro _ ⟨⟩)
    case held => rintro _ ⟨⟩
    case subject =>
      rintro _ ⟨⟩
      exact hmade ▸ Nat.lt_succ_self _
    case bound => exact fun i hi => hmade ▸ Nat.lt_succ_of_lt (h.bound i hi)
    case inCallback =>
      refine ⟨False.elim, ?_⟩
      rintro ⟨now, ran, entry, rest, hp⟩
      rw [hidle] at hp
      cases hp
    case connecting => exact fun _ _ => hidle

/-- **`RunAfter`**, in `onConnection` and in `ActiveCloseConn`. -/
theorem Guarded.runAfter (h : s.Guarded added) {c address : ℕ} {now now' : ℤ}
    (hx : s.Enabled (.runAfter c address now now')) :
    s.Steps callback added (.runAfter c address now now') := by
  obtain ⟨hphase, henabled⟩ := hx
  obtain ⟨timers, hok, hstep, hkept⟩ := h.doTimer henabled
  have hsubject : c < s.http.reactors.made := by
    apply h.subject
    rcases hphase with hp | hp <;> rw [hp] <;> rfl
  have htimers := TimerQueue.addTimer_ok hstep.2
  have hsame : timers.phase = s.timers.phase := by rw [htimers]
  have hmade : timers.made = s.timers.made + 1 := by rw [htimers]
  refine ⟨{ s with
      timers := timers
      bound := Function.update s.bound s.timers.made c
      phase := if s.phase = .kept c then .leaving (some c) true else .outside }, ?_, ?_, .inl rfl,
    .inr ⟨_, hstep⟩⟩
  · simp only [act, AutoCloseServer.runAfter, hok, ok_bind]
    rfl
  have hbound : ∀ i < timers.made, Function.update s.bound s.timers.made c i <
      s.http.reactors.made := by
    intro i hi
    by_cases heq : i = s.timers.made
    · rwa [heq, Function.update_self]
    · rw [Function.update_of_ne heq]
      exact h.bound i (by omega)
  rcases hphase with hp | hp
  · -- `onConnection` returns, and the main reactor is idle again
    rw [hp, if_neg (by simp)]
    have hidle := h.connecting c hp
    exact ⟨h.serving, hkept, fun hbusy => absurd ⟨rfl, hsame.trans hidle⟩ hbusy,
      fun hbusy => absurd ⟨rfl, hsame.trans hidle⟩ hbusy, nofun, nofun, hbound,
      by simp [CheckPhase.InCallback, hsame, hidle], nofun⟩
  · rw [hp, if_pos rfl]
    have hbusy : ¬ s.Idle := by
      rintro ⟨hout, -⟩
      rw [hp] at hout
      cases hout
    have hin := h.inCallback.mp (by rw [hp]; trivial)
    exact ⟨h.serving, hkept, fun _ => h.resting hbusy, fun _ hne => absurd rfl (hne _ _),
      fun c' hc' => h.held c' (by rw [hp]; exact hc'),
      fun c' hc' => h.subject c' (by rw [hp]; exact hc'), hbound,
      ⟨fun _ => hsame ▸ hin, fun _ => trivial⟩, nofun⟩

/-- `HandleRead` begins. -/
theorem Guarded.handleRead (h : s.Guarded added) {now : ℤ} (hx : s.Enabled (.handleRead now)) :
    s.Steps callback added (.handleRead now) := by
  obtain ⟨⟨hphase, -⟩, hfree, hbatch, hhandling, henabled⟩ := hx
  obtain ⟨timers, hok, hstep, hkept⟩ := h.doTimer henabled
  refine ⟨_, hok, ?_, .inl rfl, .inr ⟨_, hstep⟩⟩
  obtain rfl := Except.ok.inj hstep.2
  have hguarded := h.setTimers (s.timers.handleRead now) s.phase hkept
    (by rw [TimerQueue.handleRead_eq]) (fun _ => ⟨hhandling, hbatch, hfree⟩) (by rw [hphase]; rfl)
    (by rw [hphase]; exact nofun) ?_ (by rw [hphase]; exact nofun)
  · exact hguarded
  · rw [hphase]
    refine ⟨False.elim, ?_⟩
    rintro ⟨_, _, _, _, hp⟩
    cases hp

/-- `HandleRead` goes on to the next callback, and to `ResetTimers` after the last one. -/
theorem Guarded.callNext (h : s.Guarded added) {x : AutoCloseStep}
    (hx : (∃ c taken, x = .activeCloseConn c taken) ∨ x = .endCalls) (henabled : s.Enabled x) :
    s.Steps callback added x := by
  rcases hx with ⟨c, taken, rfl⟩ | rfl
  · obtain ⟨hphase, ran, entry, rest, hp, rfl⟩ := henabled
    obtain ⟨timers, hok, hstep, hkept⟩ := h.doTimer (.callNext hp)
    have hbusy : ¬ s.Idle := fun hidle => by cases hp.symm.trans hidle.2
    have hfree := h.free hbusy (by rw [hphase]; exact nofun)
    have htimers := TimerQueue.callNext_cons hp
    have hmem : entry ∈ s.timers.held :=
      TimerQueue.mem_held_of_waiting (.inr (by rw [hp]; exact List.mem_cons_self))
    refine ⟨{ s with
        timers := timers
        phase := .checking (s.bound (s.timers.timerOf entry).id) }, ?_, ?_, .inl rfl,
      .inr ⟨_, hstep⟩⟩
    · simp only [act, hok, ok_bind]
      rfl
    · obtain rfl : s.timers.callNext = timers := Except.ok.inj hstep.2
      refine h.setTimers _ _ hkept (by rw [htimers]) (fun _ => ?_) rfl ?_ ?_ nofun
      · exact ⟨(h.resting hbusy).1, (h.resting hbusy).2, hfree⟩
      · rintro _ ⟨⟩
        exact h.bound _ (h.kept.born entry hmem)
      · exact ⟨fun _ => ⟨_, _, _, _, by rw [htimers]⟩, fun _ => trivial⟩
  · obtain ⟨hphase, taken, ran, hp⟩ := henabled
    obtain ⟨timers, hok, hstep, hkept⟩ := h.doTimer (.callNext hp)
    have hbusy : ¬ s.Idle := fun hidle => by cases hp.symm.trans hidle.2
    have hfree := h.free hbusy (by rw [hphase]; exact nofun)
    have htimers := TimerQueue.callNext_nil hp
    refine ⟨_, hok, ?_, .inl rfl, .inr ⟨_, hstep⟩⟩
    obtain rfl : s.timers.callNext = timers := Except.ok.inj hstep.2
    refine h.setTimers _ s.phase hkept (by rw [htimers]) (fun _ => ?_) ?_ ?_ ?_ ?_
    · exact ⟨(h.resting hbusy).1, (h.resting hbusy).2, hfree⟩
    · rw [hphase]
      rfl
    · rw [hphase]
      exact nofun
    · rw [hphase, htimers]
      exact ⟨False.elim, by rintro ⟨_, _, _, _, hp⟩; cases hp⟩
    · rw [hphase]
      exact nofun

/-- `ResetTimers` goes on, or ends. -/
theorem Guarded.resetNext (h : s.Guarded added) {now : ℤ} (hx : s.Enabled (.resetNext now)) :
    s.Steps callback added (.resetNext now) := by
  obtain ⟨hphase, henabled⟩ := hx
  obtain ⟨timers, hok, hstep, hkept⟩ := h.doTimer henabled
  obtain ⟨-, hact⟩ := id hstep
  cases henabled with
  | @resetNext reset rest _ hp =>
    have hbusy : ¬ s.Idle := fun hidle => by cases hp.symm.trans hidle.2
    have hfree := h.free hbusy (by rw [hphase]; exact nofun)
    -- no callback is called
    have htimers : timers.made = s.timers.made ∧
        ∀ now ran entry rest, timers.phase ≠ .inCallback now ran entry rest := by
      change s.timers.resetNext now = .ok timers at hact
      cases rest with
      | nil =>
        rcases TimerQueue.resetNext_nil_cases hp hact with ⟨-, rfl⟩ | ⟨_, _, -, -, -, rfl⟩ <;>
          exact ⟨rfl, nofun⟩
      | cons entry rest =>
        rcases TimerQueue.resetNext_cons_cases hp hact with ⟨-, rfl⟩ | ⟨-, rfl⟩ <;>
          exact ⟨rfl, nofun⟩
    refine ⟨_, hok, ?_, .inl rfl, .inr ⟨_, hstep⟩⟩
    refine h.setTimers _ s.phase hkept htimers.1 (fun _ => ?_) ?_ ?_ ?_ ?_
    · exact ⟨(h.resting hbusy).1, (h.resting hbusy).2, hfree⟩
    · rw [hphase]
      rfl
    · rw [hphase]
      exact nofun
    · rw [hphase]
      exact ⟨False.elim, by rintro ⟨now, ran, entry, rest, hp⟩; exact htimers.2 _ _ _ _ hp⟩
    · rw [hphase]
      exact nofun

/-- The timer of the kernel goes off. -/
theorem Guarded.expire (h : s.Guarded added) (hx : s.Enabled .expire) :
    s.Steps callback added .expire := by
  obtain ⟨timers, hok, hstep, hkept⟩ := h.doTimer hx
  obtain rfl := Except.ok.inj hstep.2
  exact ⟨_, hok, ⟨h.serving, hkept, h.resting, h.free, h.held, h.subject, h.bound, h.inCallback,
    h.connecting⟩, .inl rfl, .inr ⟨_, hstep⟩⟩

/-! ## `ActiveCloseConn` -/

theorem not_idle_of_inCallback (hp : s.phase.InCallback) : ¬ s.Idle := by
  rintro ⟨hout, -⟩
  rw [hout] at hp
  exact hp

/-- A reference to the connection, if it is there. -/
theorem Guarded.lock (h : s.Guarded added) {c : ℕ} (hx : s.Enabled (.lock c)) :
    s.Steps callback added (.lock c) := by
  obtain ⟨hphase, hreferenced⟩ := hx
  have hbusy : ¬ s.Idle := not_idle_of_inCallback (by rw [hphase]; trivial)
  have he : s.http.Enabled (.reactor (.acquire c)) := ⟨hreferenced, nofun, nofun⟩
  obtain ⟨t, hact, hguarded, hfollows, hsame, -, -⟩ :=
    h.doHttp callback he nofun nofun
  have hbusy' : ¬ t.Idle := not_idle_of_inCallback (by rw [hsame, hphase]; trivial)
  have hreactors : t.http.reactors = s.http.reactors.setConn c
      { s.http.reactors.conn c with holders := (s.http.reactors.conn c).holders + 1 } := by
    obtain ⟨http, hhttp, ht⟩ := bind_eq_ok.mp hact
    obtain rfl := Except.ok.inj ht
    obtain rfl := Except.ok.inj (hhttp : (Except.ok _ : Except AutoCloseFault _) = _)
    rfl
  refine ⟨t.setPhase (.locked c), ?_, ?_, hfollows.http, hfollows.timers⟩
  · simp only [act, hact, ok_bind]
  · change Guarded (added ++ []) _
    rw [List.append_nil]
    refine hguarded.setPhase hbusy' (fun _ => ?_) ?_ ?_ ?_ nofun
    · exact hguarded.free hbusy' (by rw [hsame, hphase]; exact nofun)
    · rintro _ ⟨⟩
      rw [hreactors]
      simp [Reactors.setConn]
    · rintro _ ⟨⟩
      exact hguarded.subject c (by rw [hsame, hphase]; rfl)
    · rw [hsame, hphase]
      exact Iff.rfl

/-- The connection is gone, or its time stamp is compared with the clock. -/
theorem Guarded.decide (h : s.Guarded added) {x : AutoCloseStep} {phase : CheckPhase}
    (hact : s.act callback x = .ok (s.setPhase phase)) (hadded : x.added = none)
    (hphase : s.phase.InCallback) (hfree : ∀ held again, s.phase ≠ .leaving held again)
    (hcalled : phase.InCallback) (hheld : phase.held = none ∨ phase.held = s.phase.held)
    (hsubject : phase.subject = none ∨ phase.subject = s.phase.subject) :
    s.Steps callback added x := by
  refine ⟨_, hact, ?_, .inl rfl, .inl rfl⟩
  have hbusy := not_idle_of_inCallback hphase
  rw [hadded, Option.toList_none, List.append_nil]
  refine h.setPhase hbusy (fun _ => h.free hbusy hfree) ?_ ?_ (iff_of_true hcalled hphase) ?_
  · intro c hc
    rcases hheld with hnone | heq
    · rw [hnone] at hc
      cases hc
    · exact h.held c (heq ▸ hc)
  · intro c hc
    rcases hsubject with hnone | heq
    · rw [hnone] at hc
      cases hc
    · exact h.subject c (heq ▸ hc)
  · rintro c rfl
    exact hcalled

/-- `HandleClose` on a connection that was not heard for too long. -/
theorem Guarded.handleClose (h : s.Guarded added) {c : ℕ} (hx : s.Enabled (.handleClose c)) :
    s.Steps callback added (.handleClose c) := by
  have hphase : s.phase = .expired c := hx
  have hin : s.phase.InCallback := by
    rw [hphase]
    trivial
  have hbusy := not_idle_of_inCallback hin
  have hmade := h.subject c (by rw [hphase]; rfl)
  have ha : s.http.reactors.Enabled (.handleClose .main c) :=
    ⟨hmade, h.free hbusy (by rw [hphase]; rintro _ _ ⟨⟩)⟩
  obtain ⟨hrest, hbatch⟩ := h.resting hbusy
  obtain ⟨http, hact, hserving, -, hreactors, hhandling, -⟩ := h.serving.reactor ha
  have he : s.http.Enabled (.reactor (.handleClose .main c)) :=
    ⟨ha, by rintro _ ⟨⟩; exact hrest, by rintro _ ⟨⟩⟩
  have hhttp : s.http.act callback (.reactor (.handleClose .main c)) = .ok http := by
    rw [HttpReactors.act, hact]
    rfl
  have hkeeps := fun c => HttpReactors.holders_act h.serving he hhttp (c := c)
  refine ⟨{ s with http := http, phase := .leaving (some c) false }, ?_, ?_,
    .inr ⟨_, he, hhttp⟩, .inl rfl⟩
  · simp only [act, doHttp_ok hhttp, ok_bind]
    rfl
  · change Guarded (added ++ []) _
    rw [List.append_nil]
    refine ⟨hserving, h.kept, fun _ => ⟨?_, ?_⟩, fun _ hne => absurd rfl (hne _ _), ?_, ?_,
      fun i hi => (hkeeps _ (h.bound i hi)).1, ?_, by rintro _ ⟨⟩⟩
    · exact (congrFun hhandling _).trans hrest
    · exact (Reactors.batch_act ha hreactors fun _ => .inr ⟨c, rfl⟩).trans hbatch
    · rintro _ ⟨⟩
      have hheld := h.held c (by rw [hphase]; rfl)
      rcases (hkeeps c hmade).2 with hle | ⟨heq, -⟩
      · exact hheld.trans_le hle
      · cases heq
    · rintro _ ⟨⟩
      exact (hkeeps c hmade).1
    · exact ⟨fun _ => h.inCallback.mp hin, fun _ => trivial⟩

/-- `ActiveCloseConn` returns to the loop of `HandleRead`. -/
theorem Guarded.leave (h : s.Guarded added) (hx : s.Enabled .leave) :
    s.Steps callback added .leave := by
  obtain ⟨hfree, held, again, hphase⟩ := hx
  have hin : s.phase.InCallback := by
    rw [hphase]
    trivial
  have hbusy := not_idle_of_inCallback hin
  obtain ⟨hrest, hbatch⟩ := h.resting hbusy
  obtain ⟨now, ran, entry, rest, hp⟩ := h.inCallback.mp hin
  obtain ⟨timers, hok, hstep, hkept⟩ := h.doTimer (.leaveCallback again hp)
  have htimers := @TimerQueue.leaveCallback_eq s.timers _ _ _ _ again hp
  obtain rfl : s.timers.leaveCallback again = timers := Except.ok.inj hstep.2
  -- the reference goes, if there is one
  have hrelease : ∃ http, s.release callback held = .ok { s with http := http } ∧
      (http = s.http ∨ ∃ e, s.http.Enabled e ∧ s.http.act callback e = .ok http) ∧
      http.Serving ∧ s.http.Unmoved http .main ∧
      ∀ c < s.http.reactors.made, c < http.reactors.made := by
    cases held with
    | none => exact ⟨s.http, rfl, .inl rfl, h.serving, ⟨rfl, rfl, id⟩, fun _ => id⟩
    | some c =>
      have he : s.http.Enabled (.reactor (.release c)) :=
        ⟨h.held c (by rw [hphase]; rfl), nofun, nofun⟩
      obtain ⟨http, hact, hserving, -⟩ := h.serving.act callback he
      exact ⟨http, doHttp_ok hact, .inr ⟨_, he, hact⟩, hserving,
        HttpReactors.act_unmoved h.serving he hact nofun,
        fun c hc => (HttpReactors.holders_act h.serving he hact hc).1⟩
  obtain ⟨http, hhttp, hmoves, hserving, hunmoved, hmade⟩ := hrelease
  refine ⟨{ s with
      http := http
      timers := s.timers.leaveCallback again
      phase := .outside }, ?_, ?_, hmoves, .inr ⟨_, hstep⟩⟩
  · have htimer : AutoCloseServer.doTimer { s with http := http } (.leaveCallback again) =
        .ok { s with http := http, timers := s.timers.leaveCallback again } := doTimer_ok hstep.2
    simp only [act, hphase]
    rw [hhttp, ok_bind, htimer, ok_bind]
    rfl
  · refine ⟨hserving, hkept, fun _ => ?_, fun _ _ => hunmoved.free hfree, nofun, nofun, ?_, ?_,
      nofun⟩
    · exact ⟨hunmoved.handling.trans hrest, hunmoved.batch.trans hbatch⟩
    · intro i hi
      rw [htimers] at hi
      exact hmade _ (h.bound i hi)
    · refine ⟨False.elim, ?_⟩
      rintro ⟨_, _, _, _, hp⟩
      rw [htimers] at hp
      cases hp

/-! ## All steps -/

/-- **One step** succeeds and keeps the invariant. -/
theorem Guarded.act (h : s.Guarded added)
    (callback : HttpRequest → HttpResponse → HttpResponse) {x : AutoCloseStep} (hx : s.Enabled x) :
    s.Steps callback added x := by
  cases x with
  | http e =>
    obtain ⟨hplain, he, hmain⟩ := hx
    obtain ⟨t, hact, hguarded, hfollows, -⟩ := h.doHttp callback he hmain (by
      rintro c rfl
      exact hplain)
    exact ⟨t, hact, (List.append_nil added).symm ▸ hguarded, hfollows⟩
  | accept fd => exact h.accept hx
  | onMessage c request now =>
    obtain ⟨he, hmain⟩ := hx
    obtain ⟨t, hact, hguarded, hfollows, -⟩ := h.doHttp callback he
      (fun hthread => hmain (Option.some.inj hthread)) nofun
    refine ⟨{ t with timestamp := Function.update t.timestamp c now }, ?_, ?_, hfollows.http,
      hfollows.timers⟩
    · simp only [AutoCloseServer.act, hact, ok_bind]
    · change Guarded (added ++ []) _
      rw [List.append_nil]
      exact ⟨hguarded.serving, hguarded.kept, hguarded.resting, hguarded.free, hguarded.held,
        hguarded.subject, hguarded.bound, hguarded.inCallback, hguarded.connecting⟩
  | runAfter c address now now' => exact h.runAfter hx
  | expire => exact h.expire hx
  | handleRead now => exact h.handleRead hx
  | activeCloseConn c taken => exact h.callNext (.inl ⟨c, taken, rfl⟩) hx
  | endCalls => exact h.callNext (.inr rfl) hx
  | lock c => exact h.lock hx
  | miss c =>
    obtain ⟨hphase, -⟩ := hx
    refine h.decide rfl rfl ?_ ?_ trivial (.inl rfl) (.inl rfl) <;> rw [hphase]
    · trivial
    · exact nofun
  | compare c now =>
    have hphase : s.phase = .locked c := hx
    refine h.decide rfl rfl ?_ ?_ ?_ (.inr ?_) (.inr ?_)
    · rw [hphase]
      trivial
    · rw [hphase]
      exact nofun
    · split <;> trivial
    all_goals
      rw [hphase]
      split <;> rfl
  | handleClose c => exact h.handleClose hx
  | leave => exact h.leave hx
  | resetNext now => exact h.resetNext hx

end AutoCloseServer

open AutoCloseServer in
theorem guarded_of_run {callback : HttpRequest → HttpResponse → HttpResponse} {threadNums : ℕ}
    {xs : List AutoCloseStep} {s : AutoCloseServer}
    (hrun : (autoCloseSystem callback threadNums).Run xs s) :
    s.Guarded (xs.filterMap AutoCloseStep.added) := by
  refine hrun.history (I := fun xs s => s.Guarded (xs.filterMap AutoCloseStep.added)) ?_ ?_
  · rintro s rfl
    have hidle : (⟨{ reactors := { threadNums := threadNums } }, {}, .outside, fun _ => 0,
        fun _ => 0⟩ : AutoCloseServer).Idle := ⟨rfl, rfl⟩
    exact ⟨HttpReactors.serving_init threadNums, TimerQueue.kept_init, fun h => absurd hidle h,
      fun h => absurd hidle h, nofun, nofun, nofun, ⟨False.elim, by rintro ⟨_, _, _, _, ⟨⟩⟩⟩, nofun⟩
  · rintro xs s x t h ⟨hx, hact⟩
    obtain ⟨t', hact', hguarded, -⟩ := h.act callback hx
    obtain rfl := Except.ok.inj (hact'.symm.trans hact)
    rw [List.filterMap_append]
    cases x <;> exact hguarded

end CppServerStudio
