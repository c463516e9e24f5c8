import CppServerStudio.Http.Reactors
import CppServerStudio.Timer.Firing

/-!
# The HTTP server that closes idle connections

With `auto_close_conn_` set, `HttpServer::onConnection` and `HttpServer::ActiveCloseConn` ask the
timer queue of the main reactor to look at a connection after `AUTOCLOSETIMEOUT` seconds. The thread
of the main reactor is inside `TimerQueue::HandleRead` then, while the sub-reactors go on. The
callback has a `weak_ptr` to the connection, and its steps are those that other threads can see.

## Main definitions

* `AutoCloseServer`: the HTTP server with the timers of its main reactor
* `AutoCloseServer.act`, `autoCloseSystem`: the steps of the threads, and their interleavings
-/

namespace CppServerStudio

/-- Where the thread of the main reactor is: in `onConnection` before its `RunAfter`, or in the
`ActiveCloseConn` of a timer. There it calls `lock`, compares the times, closes the connection or
calls `RunAfter`, and returns; the reference that it holds goes then. -/
inductive CheckPhase
  | outside
  | connecting (c : ℕ)
  | checking (c : ℕ)
  | locked (c : ℕ)
  | expired (c : ℕ)
  | kept (c : ℕ)
  | leaving (held : Option ℕ) (again : Bool)
  deriving DecidableEq

/-- The connection that `ActiveCloseConn` holds a reference to. -/
def CheckPhase.held : CheckPhase → Option ℕ
  | locked c | expired c | kept c => some c
  | leaving held _ => held
  | outside | connecting _ | checking _ => none

/-- `AUTOCLOSETIMEOUT`, in microseconds. -/
def autoCloseTimeout : ℤ := 100 * kMicrosecond2Second

/-- A server with `auto_close_conn_` set: the HTTP server, the timers of the main reactor, for each
timer the connection that its callback is bound to, and for each connection its `timestamp_`. -/
structure AutoCloseServer where
  http : HttpReactors
  timers : TimerQueue := {}
  phase : CheckPhase := .outside
  bound : ℕ → ℕ := fun _ => 0
  timestamp : ℕ → ℤ := fun _ => 0

/-- The steps of the threads, with the times that `Now` gives. -/
inductive AutoCloseStep
  /-- A step of the HTTP server that has nothing to do with the timers. -/
  | http (e : HttpStep)
  /-- The main reactor accepts a connection, and goes on to `onConnection`. -/
  | accept (fd : ℕ)
  /-- A connection enters `onMessage`. -/
  | onMessage (c : ℕ) (request : Option HttpRequest) (now : ℤ)
  /-- `RunAfter` for a connection, which reads the clock, and again in `AddTimer`. -/
  | runAfter (c address : ℕ) (now now' : ℤ)
  /-- The timer of the kernel goes off, and `HandleRead` begins. -/
  | expire
  | handleRead (now : ℤ)
  /-- `HandleRead`, which took its timers at the time `taken`, calls the `ActiveCloseConn` of a
  connection, or has called all callbacks. -/
  | activeCloseConn (c : ℕ) (taken : ℤ)
  | endCalls
  /-- `lock` gives the connection, or the connection is gone. -/
  | lock (c : ℕ)
  | miss (c : ℕ)
  /-- The time stamp of the connection is compared with the clock. -/
  | compare (c : ℕ) (now : ℤ)
  | handleClose (c : ℕ)
  /-- `ActiveCloseConn` returns. -/
  | leave
  | resetNext (now : ℤ)

/-- The thread that takes a step of the HTTP server. -/
def HttpReactors.threadOf (s : HttpReactors) : HttpStep → Option LoopId
  | .reactor a => a.thread?
  | .onMessage c _ | .handleWrite c _ => some (s.own c)
  | .perform thread _ | .leave thread => some thread

/-- What a step can run into. -/
inductive AutoCloseFault
  | http (fault : ReactorFault ⊕ BufferFault)
  | timer (fault : TimerFault)

namespace AutoCloseServer

variable (callback : HttpRequest → HttpResponse → HttpResponse)

/-- A step of the HTTP server. -/
def doHttp (s : AutoCloseServer) (e : HttpStep) : Except AutoCloseFault AutoCloseServer := do
  let http ← (s.http.act callback e).mapError .http
  .ok { s with http := http }

/-- A call into the timer queue. -/
def doTimer (s : AutoCloseServer) (x : TimerAction) : Except AutoCloseFault AutoCloseServer := do
  let timers ← (s.timers.act x).mapError .timer
  .ok { s with timers := timers }

def setPhase (s : AutoCloseServer) (phase : CheckPhase) : AutoCloseServer :=
  { s with phase := phase }

/-- **`EventLoop::RunAfter`** with `AUTOCLOSETIMEOUT` and the `ActiveCloseConn` of a connection. -/
def runAfter (s : AutoCloseServer) (c address : ℕ) (now now' : ℤ) :
    Except AutoCloseFault AutoCloseServer := do
  let id := s.timers.made
  let s ← s.doTimer (.addTimer address (now + autoCloseTimeout) ⟨false, 0⟩ now')
  .ok { s with bound := Function.update s.bound id c }

/-- The reference that `ActiveCloseConn` holds goes. -/
def release (s : AutoCloseServer) : Option ℕ → Except AutoCloseFault AutoCloseServer
  | some c => s.doHttp callback (.reactor (.release c))
  | none => .ok s

/-- What a step does. -/
def act (s : AutoCloseServer) : AutoCloseStep → Except AutoCloseFault AutoCloseServer
  | .http e => s.doHttp callback e
  | .accept fd => do
    let c := s.http.reactors.made
    let s ← s.doHttp callback (.reactor (.accept fd))
    .ok (s.setPhase (.connecting c))
  | .onMessage c request now => do
    let s ← s.doHttp callback (.onMessage c request)
    .ok { s with timestamp := Function.update s.timestamp c now }
  | .runAfter c address now now' => do
    let s ← s.runAfter c address now now'
    .ok (s.setPhase (if s.phase = .kept c then .leaving (some c) true else .outside))
  | .expire => s.doTimer .expire
  | .handleRead now => s.doTimer (.handleRead now)
  | .activeCloseConn c _ => do
    let s ← s.doTimer .callNext
    .ok (s.setPhase (.checking c))
  | .endCalls => s.doTimer .callNext
  | .lock c => do
    let s ← s.doHttp callback (.reactor (.acquire c))
    .ok (s.setPhase (.locked c))
  | .miss _ => .ok (s.setPhase (.leaving none false))
  | .compare c now =>
    .ok (s.setPhase (if s.timestamp c + autoCloseTimeout < now then .expired c else .kept c))
  | .handleClose c => do
    let s ← s.doHttp callback (.reactor (.handleClose .main c))
    .ok (s.setPhase (.leaving (some c) false))
  | .leave =>
    match s.phase with
    | .leaving held again => do
      let s ← s.release callback held
      let s ← s.doTimer (.leaveCallback again)
      .ok (s.setPhase .outside)
    | _ => .ok s
  | .resetNext now => s.doTimer (.resetNext now)

/-- The thread of the main reactor is outside of the timer queue and of `onConnection`. -/
def Idle (s : AutoCloseServer) : Prop := s.phase = .outside ∧ s.timers.phase = .idle

/-- A step of the HTTP server that is one step here, too. A reference is released by its holder. -/
def Plain (s : AutoCloseServer) : HttpStep → Prop
  | .reactor (.accept _) | .onMessage _ _ => False
  | .reactor (.release c) => s.phase.held = some c → 1 < (s.http.reactors.conn c).holders
  | _ => True

/-- **The steps that can be taken.** The thread of the main reactor does one thing after the
other, and `HandleRead` is called outside `DoToDoList` and `onMessage`. -/
def Enabled (s : AutoCloseServer) : AutoCloseStep → Prop
  | .http e => s.Plain e ∧ s.http.Enabled e ∧ (s.http.threadOf e = some .main → s.Idle)
  | .accept fd => s.http.Enabled (.reactor (.accept fd)) ∧ s.Idle
  | .onMessage c request _ => s.http.Enabled (.onMessage c request) ∧
    (s.http.own c = .main → s.Idle)
  | .runAfter c address now now' => (s.phase = .connecting c ∨ s.phase = .kept c) ∧
    s.timers.Enabled (.addTimer address (now + autoCloseTimeout) ⟨false, 0⟩ now')
  | .expire => s.timers.Enabled .expire
  | .handleRead now => s.Idle ∧ s.http.reactors.Free .main ∧
    (s.http.reactors.loop .main).batch = none ∧ s.http.handling .main = none ∧
    s.timers.Enabled (.handleRead now)
  | .activeCloseConn c taken => s.phase = .outside ∧ ∃ ran entry rest,
    s.timers.phase = .running taken ran (entry :: rest) ∧
      c = s.bound (s.timers.timerOf entry).id
  | .endCalls => s.phase = .outside ∧ ∃ taken ran, s.timers.phase = .running taken ran []
  | .lock c => s.phase = .checking c ∧ s.http.reactors.Referenced c
  | .miss c => s.phase = .checking c ∧ ¬ s.http.reactors.Referenced c
  | .compare c _ => s.phase = .locked c
  | .handleClose c => s.phase = .expired c
  | .leave => s.http.reactors.Free .main ∧ ∃ held again, s.phase = .leaving held again
  | .resetNext now => s.phase = .outside ∧ s.timers.Enabled (.resetNext now)

end AutoCloseServer

/-- **An HTTP server that closes idle connections**, under all interleavings of its threads, all
answers of its sockets, and all values of its clock. -/
def autoCloseSystem (callback : HttpRequest → HttpResponse → HttpResponse) (threadNums : ℕ) :
    LTS AutoCloseServer AutoCloseStep where
  init s := s = { http := { reactors := { threadNums := threadNums } } }
  step s x t := s.Enabled x ∧ s.act callback x = .ok t

end CppServerStudio
