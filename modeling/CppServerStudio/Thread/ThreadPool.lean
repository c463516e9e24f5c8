import CppServerStudio.Library.Executions

/-!
# The thread pool

Workers take tasks from a queue under `tasks_mtx`. `Add` appends a task unless the pool is stopped,
and wakes one worker; the destructor stops the pool, wakes all workers, and joins them. A worker
tests the predicate of its wait, and takes a task, while it holds the mutex; `cv.wait` gives the
mutex up and may also wake for no reason. What a task throws stays in its future.

## Main definitions

* `ThreadPool size`: the shared state of a pool with `size` workers, and where its threads are
* `ThreadPool.act`, `poolSystem`: the steps of the threads, and their interleavings
-/

namespace CppServerStudio

/-- Where a worker is: about to lock the mutex, at the predicate with the mutex held, blocked in
`cv.wait`, woken but without the mutex, in a task, or returned. -/
inductive WorkerPhase
  | locking | testing | waiting | woken
  | running (task : ℕ)
  | exited
  deriving DecidableEq, Repr

/-- Where a call of `Add` is: not made yet, about to lock the mutex, at the test of `stop_`, about
to notify a worker, returned, or ended by its exception. -/
inductive AddPhase
  | idle | locking | testing | notifying | returned | threw
  deriving DecidableEq, Repr

/-- Where the destructor is: not called yet, about to lock the mutex, about to store `stop_`, about
to notify the workers, about to join a worker, or returned. -/
inductive DestructorPhase
  | idle | locking | storing | notifying
  | joining (worker : ℕ)
  | returned
  deriving DecidableEq, Repr

/-- The threads that use a pool: its workers, the callers of `Add`, and the thread that runs the
destructor. -/
inductive PoolThread (size : ℕ)
  | worker (i : Fin size)
  | caller (call : ℕ)
  | destroyer
  deriving DecidableEq

/-- A pool. Its tasks are the numbers of the calls that have added them. The order of the additions,
of the removals and of the ends of tasks is kept for statements alone. -/
structure ThreadPool (size : ℕ) where
  /-- The thread that holds `tasks_mtx`. -/
  holder : Option (PoolThread size) := none
  tasks : List ℕ := []
  stop : Bool := false
  workers : Fin size → WorkerPhase := fun _ => .locking
  calls : ℕ → AddPhase := fun _ => .idle
  destructor : DestructorPhase := .idle
  enqueued : List ℕ := []
  taken : List ℕ := []
  finished : List ℕ := []

/-- The steps of the threads. -/
inductive PoolStep (size : ℕ)
  /-- Some thread calls `Add`. -/
  | call (k : ℕ)
  | lockAdd (k : ℕ)
  | enqueue (k : ℕ)
  /-- `cv.notify_one`, with the worker that it wakes. -/
  | notifyOne (k : ℕ) (woken : Option (Fin size))
  | lock (i : Fin size)
  /-- The test of the predicate, and what follows under the mutex. -/
  | test (i : Fin size)
  /-- `cv.wait` wakes for no reason. -/
  | spurious (i : Fin size)
  | run (i : Fin size)
  /-- Some thread calls the destructor. -/
  | destroy
  | lockStop
  | store
  | notifyAll
  | join
  deriving DecidableEq

/-- The thread that takes a step, unless the step comes from outside. -/
def PoolStep.thread {size : ℕ} : PoolStep size → Option (PoolThread size)
  | call _ | spurious _ | destroy => none
  | lockAdd k | enqueue k | notifyOne k _ => some (.caller k)
  | lock i | test i | run i => some (.worker i)
  | lockStop | store | notifyAll | join => some .destroyer

namespace ThreadPool

variable {size : ℕ}

def setWorker (s : ThreadPool size) (i : Fin size) (phase : WorkerPhase) : ThreadPool size :=
  { s with workers := Function.update s.workers i phase }

def setCall (s : ThreadPool size) (k : ℕ) (phase : AddPhase) : ThreadPool size :=
  { s with calls := Function.update s.calls k phase }

@[simp] theorem setWorker_workers_self (s : ThreadPool size) (i : Fin size)
    (phase : WorkerPhase) : (s.setWorker i phase).workers i = phase := Function.update_self ..

@[simp] theorem setWorker_workers_of_ne (s : ThreadPool size) {i j : Fin size}
    (phase : WorkerPhase) (h : j ≠ i) : (s.setWorker i phase).workers j = s.workers j :=
  Function.update_of_ne h ..

@[simp] theorem setCall_calls_self (s : ThreadPool size) (k : ℕ) (phase : AddPhase) :
    (s.setCall k phase).calls k = phase := Function.update_self ..

@[simp] theorem setCall_calls_of_ne (s : ThreadPool size) {k j : ℕ} (phase : AddPhase)
    (h : j ≠ k) : (s.setCall k phase).calls j = s.calls j := Function.update_of_ne h ..

/-- **The steps that can be taken.** A lock is taken only while nobody holds the mutex, and
`notify_one` wakes a waiting worker if there is one. -/
def Enabled (s : ThreadPool size) : PoolStep size → Prop
  | .call k => s.calls k = .idle
  | .lockAdd k => s.calls k = .locking ∧ s.holder = none
  | .enqueue k => s.calls k = .testing
  | .notifyOne k (some i) => s.calls k = .notifying ∧ s.workers i = .waiting
  | .notifyOne k none => s.calls k = .notifying ∧ ∀ i, s.workers i ≠ .waiting
  | .lock i => (s.workers i = .locking ∨ s.workers i = .woken) ∧ s.holder = none
  | .test i => s.workers i = .testing
  | .spurious i => s.workers i = .waiting
  | .run i => ∃ task, s.workers i = .running task
  | .destroy => s.destructor = .idle
  | .lockStop => s.destructor = .locking ∧ s.holder = none
  | .store => s.destructor = .storing
  | .notifyAll => s.destructor = .notifying
  | .join => ∃ j, s.destructor = .joining j ∧ ∀ i : Fin size, i.val = j → s.workers i = .exited

/-- `Add` under the mutex: it throws, or appends its task. -/
def enqueue (s : ThreadPool size) (k : ℕ) : ThreadPool size :=
  if s.stop then { s.setCall k .threw with holder := none }
  else { s.setCall k .notifying with
    holder := none, tasks := s.tasks ++ [k], enqueued := s.enqueued ++ [k] }

/-- A worker under the mutex: it waits, returns, or takes the first task. -/
def test (s : ThreadPool size) (i : Fin size) : ThreadPool size :=
  match s.tasks with
  | [] => { s.setWorker i (if s.stop then .exited else .waiting) with holder := none }
  | task :: tasks =>
    { s.setWorker i (.running task) with
      holder := none, tasks := tasks, taken := s.taken ++ [task] }

/-- The end of a task. -/
def run (s : ThreadPool size) (i : Fin size) : ThreadPool size :=
  match s.workers i with
  | .running task => { s.setWorker i .locking with finished := s.finished ++ [task] }
  | _ => s

/-- `cv.notify_all`. -/
def notifyAll (s : ThreadPool size) : ThreadPool size :=
  { s with
    workers := fun i => if s.workers i = .waiting then .woken else s.workers i
    destructor := .joining 0 }

/-- `join` on a worker that has returned, or the end of the loop over the workers. -/
def join (s : ThreadPool size) : ThreadPool size :=
  match s.destructor with
  | .joining j => { s with destructor := if j < size then .joining (j + 1) else .returned }
  | _ => s

/-- What a step does. -/
def act (s : ThreadPool size) : PoolStep size → ThreadPool size
  | .call k => s.setCall k .locking
  | .lockAdd k => { s.setCall k .testing with holder := some (.caller k) }
  | .enqueue k => s.enqueue k
  | .notifyOne k (some i) => (s.setWorker i .woken).setCall k .returned
  | .notifyOne k none => s.setCall k .returned
  | .lock i => { s.setWorker i .testing with holder := some (.worker i) }
  | .test i => s.test i
  | .spurious i => s.setWorker i .woken
  | .run i => s.run i
  | .destroy => { s with destructor := .locking }
  | .lockStop => { s with destructor := .storing, holder := some .destroyer }
  | .store => { s with destructor := .notifying, stop := true, holder := none }
  | .notifyAll => s.notifyAll
  | .join => s.join

end ThreadPool

/-- **The pool** under all interleavings of its threads. -/
def poolSystem (size : ℕ) : LTS (ThreadPool size) (PoolStep size) where
  init s := s = {}
  step s x t := s.Enabled x ∧ t = s.act x

end CppServerStudio
