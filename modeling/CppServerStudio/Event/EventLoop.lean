import CppServerStudio.Library.Executions

/-!
# The event loop

One thread runs `EventLoop::Loop`: it polls, handles the events that it got, and then runs the
functors of `to_do_list_`. Any thread may queue a functor. `QueueOneFunc` appends it under `mutex_`,
and then, as a step of its own, writes to the wakeup eventfd; the loop thread itself writes only
while it runs functors. What `QueueOneFunc` tests in between is read on the thread that changes it,
so the test is made here with the append.

## Main definitions

* `ActiveChannel`, `LoopPhase`, `EventLoop`: an event, where the loop thread is, and the loop
* `EventLoop.queueOneFunc`, `EventLoop.wakeup`, `EventLoop.poll`, `EventLoop.handleEvent`,
  `EventLoop.doToDoList`: the steps of the threads
* `loopSystem`: their interleavings
-/

namespace CppServerStudio

/-- A channel that `Poll` gives back: the wakeup channel, or another one, whose callback is not
modelled. -/
inductive ActiveChannel
  | wakeup
  | other
  deriving DecidableEq

/-- A functor, with the thread that queued it; the thread is there for statements alone. -/
structure Task (T F : Type) where
  thread : T
  func : F
  deriving DecidableEq

/-- Where the loop thread is: in `epoll_wait`, handling the channels that `Poll` gave back, the
first of them at present, or in `DoToDoList`, before the swap, between two functors of the local
vector or inside one of them. -/
inductive LoopPhase (T F : Type)
  | polling
  | handling (active : List ActiveChannel)
  | swapping
  | calling (functors : List (Task T F))
  | inFunctor (func : Task T F) (functors : List (Task T F))

/-- The functors of the local vector of `DoToDoList` that are left to call. -/
def LoopPhase.functors {T F : Type} : LoopPhase T F → List (Task T F)
  | calling functors => functors
  | inFunctor _ functors => functors
  | _ => []

/-- An event loop. `wakeupCount` is the counter of the eventfd, `writing` the threads that have
appended a functor and owe the write. The functors appended and called are there for statements
alone. -/
structure EventLoop (T F : Type) where
  tid : T
  toDoList : List (Task T F) := []
  callingFunctors : Bool := false
  wakeupCount : ℕ := 0
  phase : LoopPhase T F := .polling
  writing : List T := []
  appended : List (Task T F) := []
  called : List (Task T F) := []

inductive LoopFault
  | assertFailed
  deriving DecidableEq, Repr

/-- `MAX_EVENTS` of `Epoller`. -/
def maxEvents : ℕ := 1000

/-- The greatest count of an eventfd; a write that would exceed it fails with `EAGAIN`. -/
def maxCount : ℕ := 2 ^ 64 - 2

namespace EventLoop

variable {T F : Type} [DecidableEq T]

def isInLoopThread (s : EventLoop T F) (thread : T) : Bool := thread = s.tid

/-- **`EventLoop::QueueOneFunc`** up to the write, which the thread then owes or skips. -/
def queueOneFunc (s : EventLoop T F) (thread : T) (cb : F) : EventLoop T F :=
  let s' := { s with
    toDoList := s.toDoList ++ [⟨thread, cb⟩]
    appended := s.appended ++ [⟨thread, cb⟩] }
  if !s.isInLoopThread thread || s.callingFunctors then { s' with writing := thread :: s.writing }
  else s'

/-- The write to the eventfd at the end of `QueueOneFunc`, and the assertion on its result. -/
def wakeup (s : EventLoop T F) (thread : T) : Except LoopFault (EventLoop T F) :=
  if s.wakeupCount < maxCount then
    .ok { s with wakeupCount := s.wakeupCount + 1, writing := s.writing.erase thread }
  else .error .assertFailed

/-- `Poll` returns. -/
def poll (s : EventLoop T F) (active : List ActiveChannel) : EventLoop T F :=
  { s with phase := .handling active }

/-- **`EventLoop::HandleRead`**: the read of the eventfd, and the assertion on its result. -/
def handleRead (s : EventLoop T F) : Except LoopFault (EventLoop T F) :=
  if 0 < s.wakeupCount then .ok { s with wakeupCount := 0 } else .error .assertFailed

/-- The loop of `Loop` goes on to the next channel: the wakeup channel runs `HandleRead`, and the
callback of any other returns. -/
def handleEvent (s : EventLoop T F) : Except LoopFault (EventLoop T F) :=
  match s.phase with
  | .handling (.wakeup :: active) => do
    let s' ← s.handleRead
    .ok { s' with phase := .handling active }
  | .handling (.other :: active) => .ok { s with phase := .handling active }
  | _ => .ok s

/-- `DoToDoList` begins. -/
def doToDoList (s : EventLoop T F) : EventLoop T F :=
  { s with callingFunctors := true, phase := .swapping }

/-- The swap of `DoToDoList`, under `mutex_`. -/
def swap (s : EventLoop T F) : EventLoop T F :=
  { s with toDoList := [], phase := .calling s.toDoList }

/-- The loop of `DoToDoList` calls its next functor, or ends. -/
def callNext (s : EventLoop T F) : EventLoop T F :=
  match s.phase with
  | .calling (task :: functors) =>
    { s with called := s.called ++ [task], phase := .inFunctor task functors }
  | .calling [] => { s with callingFunctors := false, phase := .polling }
  | _ => s

/-- The functor that was called returns. -/
def leaveFunctor (s : EventLoop T F) : EventLoop T F :=
  { s with phase := .calling s.phase.functors }

end EventLoop

/-- The steps of the threads: any thread in `QueueOneFunc`, and the loop thread. -/
inductive LoopAction (T F : Type)
  | queueOneFunc (thread : T) (cb : F)
  | wakeup (thread : T)
  | poll (active : List ActiveChannel)
  | handleEvent
  | doToDoList
  | swap
  | callNext
  | leaveFunctor

/-- The steps that the loop thread makes in `Loop` and `DoToDoList`. -/
def LoopAction.OfLoop {T F : Type} : LoopAction T F → Prop
  | queueOneFunc _ _ => False
  | wakeup _ => False
  | _ => True

namespace EventLoop

variable {T F : Type} [DecidableEq T]

/-- The loop thread runs code that may queue functors: a callback of a channel, or a functor. -/
inductive InCallback : LoopPhase T F → Prop
  | handling (active : List ActiveChannel) : InCallback (.handling (.other :: active))
  | inFunctor (func : Task T F) (functors : List (Task T F)) : InCallback (.inFunctor func functors)

/-- When a thread may make a step. A thread that owes the write makes it first, and `Poll` gives the
wakeup channel back, at most once, only if the eventfd is readable. -/
inductive Enabled (s : EventLoop T F) : LoopAction T F → Prop
  | queueOneFunc {thread : T} (cb : F) (hw : thread ∉ s.writing)
    (hl : thread = s.tid → InCallback s.phase) : Enabled s (.queueOneFunc thread cb)
  | wakeup {thread : T} (hw : thread ∈ s.writing) : Enabled s (.wakeup thread)
  | poll {active : List ActiveChannel} (hp : s.phase = .polling) (hmax : active.length ≤ maxEvents)
    (hone : active.count .wakeup ≤ 1) (hready : .wakeup ∈ active → 0 < s.wakeupCount) :
    Enabled s (.poll active)
  | handleEvent {ch : ActiveChannel} {active : List ActiveChannel}
    (hp : s.phase = .handling (ch :: active)) (hw : s.tid ∉ s.writing) : Enabled s .handleEvent
  | doToDoList (hp : s.phase = .handling []) : Enabled s .doToDoList
  | swap (hp : s.phase = .swapping) : Enabled s .swap
  | callNext {functors : List (Task T F)} (hp : s.phase = .calling functors) : Enabled s .callNext
  | leaveFunctor {func : Task T F} {functors : List (Task T F)}
    (hp : s.phase = .inFunctor func functors) (hw : s.tid ∉ s.writing) : Enabled s .leaveFunctor

/-- What a step does. -/
def act (s : EventLoop T F) : LoopAction T F → Except LoopFault (EventLoop T F)
  | .queueOneFunc thread cb => .ok (s.queueOneFunc thread cb)
  | .wakeup thread => s.wakeup thread
  | .poll active => .ok (s.poll active)
  | .handleEvent => s.handleEvent
  | .doToDoList => .ok s.doToDoList
  | .swap => .ok s.swap
  | .callNext => .ok s.callNext
  | .leaveFunctor => .ok s.leaveFunctor

end EventLoop

/-- **The interleavings** of the loop thread `tid` with any number of other threads. A failed
assertion ends a run. -/
def loopSystem (T F : Type) [DecidableEq T] (tid : T) : LTS (EventLoop T F) (LoopAction T F) where
  init s := s = { tid := tid }
  step s x t := s.Enabled x ∧ s.act x = .ok t

end CppServerStudio
