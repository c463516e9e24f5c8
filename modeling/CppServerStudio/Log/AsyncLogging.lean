import CppServerStudio.Library.Runs
import CppServerStudio.Library.Scanning
import CppServerStudio.Log.FixedBuffer

/-!
# The asynchronous log

Threads append messages to buffers that a backend thread writes to a file. Both hold `mutex_` for
all that they do with the buffers, the backend for a whole turn of its loop: a turn is interrupted
only while it waits. The predicate of that wait is never true, so no notification ends it, and
`running_`, which is tested between the turns, is not tested there. Which file the bytes go to is
left out, and a test of `running_` sees what was last stored.

## Main definitions

* `AsyncLogging`, with `AsyncLogging.append`: the shared buffers, and what the threads do with them
* `ThreadFunc`, with `ThreadFunc.turn`: the backend's own buffers, and a turn of its loop
* `LogState.act`, `loggingSystem`: the steps of the threads, and their interleavings
-/

namespace CppServerStudio

/-- The failures of the log: a null pointer is used, or the last element of an empty vector. -/
inductive LogFault
  | nullPointer
  | emptyBack
  deriving DecidableEq, Repr

abbrev LargeBuffer := FixedBuffer fixedLargeBufferSize

/-- What `mutex_` protects. -/
structure AsyncLogging where
  current : Option LargeBuffer := some {}
  next : Option LargeBuffer := some {}
  buffers : List (Option LargeBuffer) := []

/-- A message, with the space that was left in `current_` before it, and whether
`FixedBuffer::append` copied it. -/
structure Appended where
  data : Bytes
  room : ℕ
  copied : Bool
  deriving DecidableEq

/-- The bytes that were copied of some messages. -/
def copiedBytes (ms : List Appended) : Bytes := ms.flatMap fun m => if m.copied then m.data else []

namespace AsyncLogging

/-- **`Append`**: the state after it, and what is known of the message. -/
def append (a : AsyncLogging) (data : Bytes) : Except LogFault (AsyncLogging × Appended) :=
  match a.current with
  | none => .error .nullPointer
  | some current =>
    if data.length ≤ current.avail then
      .ok ({ a with current := some (current.append data) },
        ⟨data, current.avail, current.Copies data⟩)
    else
      -- `next_` is moved from, unless it was null
      let fresh := a.next.getD {}
      .ok (⟨some (fresh.append data), none, a.buffers ++ [some current]⟩,
        ⟨data, current.avail, fresh.Copies data⟩)

/-- What is recorded as the room of a message. -/
theorem room_append {a a' : AsyncLogging} {data : Bytes} {m : Appended} {current : LargeBuffer}
    (hcurrent : a.current = some current) (h : a.append data = .ok (a', m)) :
    m.room = current.avail := by
  rw [append, hcurrent] at h
  dsimp only at h
  split at h <;> obtain ⟨-, rfl⟩ := Prod.mk.inj (Except.ok.inj h) <;> rfl

end AsyncLogging

/-- Where the backend is: not started yet, about to test `running_`, behind the test, inside
`wait_until`, or returned. -/
inductive BackendPhase
  | unstarted | top | tested | waiting | ended
  deriving DecidableEq, Repr

/-- The backend and its local buffers. -/
structure ThreadFunc where
  phase : BackendPhase := .unstarted
  newCurrent : Option LargeBuffer := some {}
  newNext : Option LargeBuffer := some {}
  activeBuffers : List (Option LargeBuffer) := []

namespace ThreadFunc

/-- `logfile->Write` on each buffer. -/
def writeAll : List (Option LargeBuffer) → Except LogFault Bytes
  | [] => .ok []
  | none :: _ => .error .nullPointer
  | some buffer :: buffers => do
    let written ← writeAll buffers
    .ok (buffer.data ++ written)

/-- A local buffer that is null is replaced by `active_buffers.back()`, emptied. -/
def refill (x : Option LargeBuffer) (active : List (Option LargeBuffer)) :
    Except LogFault (Option LargeBuffer × List (Option LargeBuffer)) :=
  match x with
  | some buffer => .ok (some buffer, active)
  | none =>
    match active.getLast? with
    | none => .error .emptyBack
    | some none => .error .nullPointer
    | some (some buffer) => .ok (some buffer.bzero, active.dropLast)

/-- **A turn of the loop**, from where the backend has the mutex and does not wait: both states
after it, and the bytes passed to `LogFile::Write`. -/
def turn (f : ThreadFunc) (a : AsyncLogging) :
    Except LogFault (ThreadFunc × AsyncLogging × Bytes) := do
  let active := a.buffers ++ [a.current]
  let a := { a with buffers := f.activeBuffers, current := f.newCurrent }
  let (a, newNext) :=
    if a.next.isNone then ({ a with next := f.newNext }, none) else (a, f.newNext)
  let written ← writeAll active
  let active := if active.length > 2 then active.take 2 else active
  let (newCurrent, active) ← refill none active
  let (newNext, _) ← refill newNext active
  .ok (⟨.top, newCurrent, newNext, []⟩, a, written)

end ThreadFunc

/-- Where the thread that calls `Stop` is. -/
inductive StopPhase
  | before | called | cleared | returned
  deriving DecidableEq, Repr

/-- The log, its backend and the thread that stops it. What was written, which messages were
appended, and which of them before the call of `Stop`, is kept for statements alone. -/
structure LogState where
  logging : AsyncLogging := {}
  running : Bool := false
  backend : ThreadFunc := {}
  stop : StopPhase := .before
  written : Bytes := []
  appended : List Appended := []
  promised : List Appended := []

/-- The steps of the threads. -/
inductive LogStep
  /-- `Start` creates the backend. -/
  | start
  /-- Some thread appends a message. -/
  | append (data : Bytes)
  /-- The backend tests `running_`. -/
  | test
  /-- The backend locks `mutex_`, and waits or goes on with its turn. -/
  | lock
  /-- The wait of the backend times out. -/
  | timeout
  /-- A thread calls `Stop`, clears `running_`, and joins the backend. -/
  | callStop
  | clearRunning
  | join

namespace LogState

/-- The backend goes on with its turn. -/
def turn (s : LogState) : Except LogFault LogState := do
  let (backend, logging, bytes) ← s.backend.turn s.logging
  .ok { s with backend := backend, logging := logging, written := s.written ++ bytes }

def setPhase (s : LogState) (phase : BackendPhase) : LogState :=
  { s with backend := { s.backend with phase := phase } }

/-- **The steps that can be taken.** -/
def Enabled (s : LogState) : LogStep → Prop
  | .start => s.backend.phase = .unstarted
  | .append _ => True
  | .test => s.backend.phase = .top
  | .lock => s.backend.phase = .tested
  | .timeout => s.backend.phase = .waiting
  | .callStop => s.backend.phase ≠ .unstarted ∧ s.stop = .before
  | .clearRunning => s.stop = .called
  | .join => s.stop = .cleared ∧ s.backend.phase = .ended

/-- What a step does. -/
def act (s : LogState) : LogStep → Except LogFault LogState
  | .start => .ok { s.setPhase .top with running := true }
  | .append data => do
    let (logging, m) ← s.logging.append data
    .ok { s with logging := logging, appended := s.appended ++ [m] }
  | .test => .ok (s.setPhase (if s.running then .tested else .ended))
  | .lock => if s.logging.buffers.isEmpty then .ok (s.setPhase .waiting) else s.turn
  | .timeout => s.turn
  | .callStop => .ok { s with stop := .called, promised := s.appended }
  | .clearRunning => .ok { s with stop := .cleared, running := false }
  | .join => .ok { s with stop := .returned }

end LogState

/-- **The log** under all interleavings of its threads. -/
def loggingSystem : LTS LogState LogStep where
  init s := s = {}
  step s e t := s.Enabled e ∧ s.act e = .ok t

end CppServerStudio
