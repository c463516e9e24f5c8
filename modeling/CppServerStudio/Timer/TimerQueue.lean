import Mathlib.Data.Finset.Sort
import Mathlib.Data.Prod.Lex
import CppServerStudio.Library.Runs

/-!
# The timer queue

`TimerQueue` keeps its timers in a `std::set` ordered by expiration and then by address.
`HandleRead` moves those that have expired to `active_timers_`, runs their callbacks, which may add
timers, and then puts those that repeat back. A time is a number of microseconds; the times that are
added and subtracted are such that the result is an `int64_t` as well, so a timer is not added for a
time close to `INT64_MIN`. Each call of `TimeStamp::Now` gives a value of its own. An object is
found by its address, which is used again once the queue has dropped the object; `id` tells the
objects apart.

## Main definitions

* `Timer`, `Entry`, `TimerQueue`: a timer, an entry of the set, and the queue
* `TimerQueue.addTimer`, `TimerQueue.handleRead`, `TimerQueue.callNext`,
  `TimerQueue.leaveCallback`, `TimerQueue.resetNext`: the steps of the loop thread
* `timerSystem`: the runs of a queue
-/

namespace CppServerStudio

/-- What is used of an interval and its unit: whether `interval_ > 0.0`, and the microseconds that
`AddTime` adds for it. -/
structure Interval where
  positive : Bool
  micros : ℤ
  deriving DecidableEq

/-- A timer. Its `id`, the number of timers made before it, is there for statements alone. -/
structure Timer where
  id : ℕ := 0
  expiration : ℤ := 0
  interval : Interval := ⟨false, 0⟩
  repeats : Bool := false

namespace Timer

/-- The constructor. -/
def new (id : ℕ) (timestamp : ℤ) (interval : Interval) : Timer where
  id := id
  expiration := timestamp
  interval := interval
  repeats := interval.positive

/-- **`Timer::ReStart`**. The sum is an `int64_t`. -/
def reStart (t : Timer) (now : ℤ) : Timer := { t with expiration := now + t.interval.micros }

/-- **`Timer::run`**, for a callback that returns `again`. -/
def run (t : Timer) (again : Bool) : Timer :=
  if !again || !t.interval.positive then { t with repeats := false } else t

end Timer

/-- An entry of the set: an expiration, and the address of a timer. -/
structure Entry where
  expiration : ℤ
  timer : ℕ
  deriving DecidableEq

/-- `operator<` of `std::pair`. -/
instance : LinearOrder Entry :=
  LinearOrder.lift' (fun e => toLex (e.expiration, e.timer)) fun a b h => by
    cases a
    cases b
    simpa using h

/-- The null pointer is below every other one. -/
theorem Entry.lt_null {e : Entry} {now : ℤ} : e < ⟨now, 0⟩ ↔ e.expiration < now := by
  change toLex (e.expiration, e.timer) < toLex (now, 0) ↔ _
  rw [Prod.Lex.toLex_lt_toLex]
  simp

/-- What a callback that is called adds to the record of its timer. -/
inductive TimerStep
  | run (now : ℤ)
  | ret (again : Bool)
  | restart (now : ℤ)
  deriving DecidableEq

/-- Where `HandleRead` is: not running, before a callback or inside one, with the time at which it
took the expired timers, or in `ResetTimers`. `active_timers_` is split at the iterator. -/
inductive HandleReadPhase
  | idle
  | running (now : ℤ) (ran rest : List Entry)
  | inCallback (now : ℤ) (ran : List Entry) (entry : Entry) (rest : List Entry)
  | resetting (reset rest : List Entry)

/-- `it_value` of an `itimerspec`; its interval is zero. -/
structure Itimerspec where
  tvSec : ℤ
  tvNsec : ℤ
  deriving DecidableEq

/-- The timer of the kernel: off, set at a time to go off at a deadline, or gone off and not
read. -/
inductive Timerfd
  | disarmed
  | armed (deadline armedAt : ℤ)
  | expired
  deriving DecidableEq

inductive TimerFault
  | assertFailed
  deriving DecidableEq, Repr

/-- A queue, the timers made for it and where they are. The steps of the timers and the values given
to `timerfd_settime` are there for statements alone. -/
structure TimerQueue where
  timers : Finset Entry := ∅
  phase : HandleReadPhase := .idle
  timerfd : Timerfd := .disarmed
  timer : ℕ → Timer := fun _ => {}
  made : ℕ := 0
  log : List (ℕ × TimerStep) := []
  armings : List Itimerspec := []

def kMicrosecond2Second : ℤ := 1000 * 1000

/-- What a timer is set to. -/
def Itimerspec.Valid (spec : Itimerspec) : Prop :=
  0 ≤ spec.tvSec ∧ 0 ≤ spec.tvNsec ∧ spec.tvNsec < 1000 * 1000 * 1000

instance (spec : Itimerspec) : Decidable spec.Valid := by unfold Itimerspec.Valid; infer_instance

/-- The microseconds of a value. -/
def Itimerspec.micros (spec : Itimerspec) : ℤ :=
  spec.tvSec * kMicrosecond2Second + spec.tvNsec / 1000

namespace TimerQueue

/-- `timerfd_settime` at the time `now`: zero turns the timer off, and a value that is not valid is
an error. -/
def timerfdSettime (s : TimerQueue) (spec : Itimerspec) (now : ℤ) : Option TimerQueue :=
  let s := { s with armings := s.armings ++ [spec] }
  if spec.Valid then
    if spec = ⟨0, 0⟩ then some { s with timerfd := .disarmed }
    else some { s with timerfd := .armed (now + spec.micros) now }
  else none

/-- **`ResetTimerFd`**. The expiration is no more than `INT64_MAX` away from `now`. The quotient and
the remainder are of a number that is not negative. -/
def resetTimerFd (s : TimerQueue) (timer : ℕ) (now : ℤ) : Except TimerFault TimerQueue :=
  let microSecondsDif := (s.timer timer).expiration - now
  let microSecondsDif := if microSecondsDif < 100 then 100 else microSecondsDif
  match s.timerfdSettime ⟨microSecondsDif / kMicrosecond2Second,
      microSecondsDif % kMicrosecond2Second * 1000⟩ now with
  | some s => .ok s
  | none => .error .assertFailed

/-- `timers_.begin()`, if there is an entry. -/
def begin (s : TimerQueue) : Option Entry :=
  if h : s.timers.Nonempty then some (s.timers.min' h) else none

/-- **`Insert`**, and whether the timer is now the earliest. -/
def insert (s : TimerQueue) (timer : ℕ) : Bool × TimerQueue :=
  let expiration := (s.timer timer).expiration
  let resetInstantly := match s.begin with
    | none => true
    | some entry => expiration < entry.expiration
  (resetInstantly, { s with timers := Insert.insert ⟨expiration, timer⟩ s.timers })

def setTimer (s : TimerQueue) (address : ℕ) (timer : Timer) : TimerQueue :=
  { s with timer := Function.update s.timer address timer }

def record (s : TimerQueue) (id : ℕ) (step : TimerStep) : TimerQueue :=
  { s with log := s.log ++ [(id, step)] }

/-- **`AddTimer`**, of a timer made at `address`. -/
def addTimer (s : TimerQueue) (address : ℕ) (timestamp : ℤ) (interval : Interval) (now : ℤ) :
    Except TimerFault TimerQueue :=
  let s := { s.setTimer address (.new s.made timestamp interval) with made := s.made + 1 }
  match s.insert address with
  | (true, s) => s.resetTimerFd address now
  | (false, s) => .ok s

def readTimerFd (s : TimerQueue) : TimerQueue :=
  match s.timerfd with
  | .expired => { s with timerfd := .disarmed }
  | _ => s

/-- The timers below `lower_bound(Entry(Now, nullptr))`. -/
def expiredTimers (s : TimerQueue) (now : ℤ) : Finset Entry := s.timers.filter (· < ⟨now, 0⟩)

/-- **`HandleRead`** up to its loop. -/
def handleRead (s : TimerQueue) (now : ℤ) : TimerQueue :=
  let s := s.readTimerFd
  { s with
    phase := .running now [] ((s.expiredTimers now).sort (· ≤ ·))
    timers := s.timers.filter (¬ · < ⟨now, 0⟩) }

/-- The loop of `HandleRead` calls the next callback, or goes on to `ResetTimers`. -/
def callNext (s : TimerQueue) : TimerQueue :=
  match s.phase with
  | .running now ran (entry :: rest) =>
    { s.record (s.timer entry.timer).id (.run now) with phase := .inCallback now ran entry rest }
  | .running _ ran [] => { s with phase := .resetting [] ran }
  | _ => s

/-- The callback returns to `Timer::run`, and `Timer::run` to the loop. -/
def leaveCallback (s : TimerQueue) (again : Bool) : TimerQueue :=
  match s.phase with
  | .inCallback now ran entry rest =>
    let timer := s.timer entry.timer
    { (s.setTimer entry.timer (timer.run again)).record timer.id (.ret again) with
      phase := .running now (ran ++ [entry]) rest }
  | _ => s

/-- The loop of **`ResetTimers`** handles the next timer, or `ResetTimers` ends, and `HandleRead`
with it. -/
def resetNext (s : TimerQueue) (now : ℤ) : Except TimerFault TimerQueue :=
  match s.phase with
  | .resetting reset (entry :: rest) =>
    let timer := s.timer entry.timer
    let s := { s with phase := .resetting (reset ++ [entry]) rest }
    if timer.repeats then
      .ok (((s.setTimer entry.timer (timer.reStart now)).record timer.id (.restart now)).insert
        entry.timer).2
    else .ok s
  | .resetting _ [] =>
    let s := { s with phase := .idle }
    match s.begin with
    | none => .ok s
    | some entry => s.resetTimerFd entry.timer now
  | _ => .ok s

/-- **`ResetTimerFd`** sets the timer for the expiration, but not for less than 100 microseconds,
and what it is set to is valid and not zero. -/
theorem resetTimerFd_ok (s : TimerQueue) (timer : ℕ) (now : ℤ) :
    ∃ spec : Itimerspec, spec.Valid ∧ spec ≠ ⟨0, 0⟩ ∧ s.resetTimerFd timer now = .ok { s with
      timerfd := .armed (max (s.timer timer).expiration (now + 100)) now
      armings := s.armings ++ [spec] } := by
  obtain ⟨dif, hdif⟩ : ∃ dif, dif = if (s.timer timer).expiration - now < 100 then 100
      else (s.timer timer).expiration - now := ⟨_, rfl⟩
  have hle : 100 ≤ dif := by
    rw [hdif]
    split <;> omega
  have hmax : now + dif = max (s.timer timer).expiration (now + 100) := by
    rw [hdif]
    split <;> omega
  -- the quotient and the remainder are at least 100 microseconds together
  obtain ⟨spec, hspec⟩ : ∃ spec : Itimerspec,
      spec = ⟨dif / kMicrosecond2Second, dif % kMicrosecond2Second * 1000⟩ := ⟨_, rfl⟩
  have hvalid : spec.Valid := by
    rw [hspec]
    simp only [Itimerspec.Valid, kMicrosecond2Second]
    omega
  have hne : spec ≠ ⟨0, 0⟩ := by
    rw [hspec]
    simp only [ne_eq, Itimerspec.mk.injEq, kMicrosecond2Second]
    omega
  have hmicros : spec.micros = dif := by
    rw [hspec]
    simp only [Itimerspec.micros, kMicrosecond2Second]
    omega
  refine ⟨spec, hvalid, hne, ?_⟩
  simp only [resetTimerFd, ← hdif, ← hspec, timerfdSettime, if_pos hvalid, if_neg hne, hmicros,
    hmax]

/-- A new timer is the one at its address. -/
theorem expiration_new (timer : ℕ → Timer) (address made : ℕ) (timestamp : ℤ)
    (interval : Interval) :
    (Function.update timer address (.new made timestamp interval) address).expiration =
      timestamp := by
  rw [Function.update_self]
  rfl

/-- **`AddTimer`** puts the timer into the set. -/
theorem addTimer_ok {s t : TimerQueue} {address : ℕ} {timestamp : ℤ} {interval : Interval} {now : ℤ}
    (h : s.addTimer address timestamp interval now = .ok t) :
    t = { s with
      timers := Insert.insert ⟨timestamp, address⟩ s.timers
      timer := Function.update s.timer address (.new s.made timestamp interval)
      made := s.made + 1
      timerfd := t.timerfd
      armings := t.armings } := by
  unfold addTimer at h
  simp only [insert, setTimer, expiration_new] at h
  split at h
  -- the new timer is the earliest, and the timer of the kernel is set
  · rename_i s' heq
    obtain ⟨-, rfl⟩ := Prod.mk.inj heq
    obtain ⟨spec, -, -, hok⟩ := resetTimerFd_ok _ address now
    rw [hok] at h
    obtain rfl := Except.ok.inj h
    rfl
  · rename_i s' heq
    obtain ⟨-, rfl⟩ := Prod.mk.inj heq
    obtain rfl := Except.ok.inj h
    rfl

end TimerQueue

/-- What is left of `active_timers_`: the timers that `ResetTimers` has not handled. -/
def HandleReadPhase.active : HandleReadPhase → List Entry
  | idle => []
  | running _ ran rest => ran ++ rest
  | inCallback _ ran entry rest => ran ++ entry :: rest
  | resetting _ rest => rest

/-- The calls of the loop thread, with the times that `Now` gives, and the timer of the kernel. -/
inductive TimerAction
  | addTimer (address : ℕ) (timestamp : ℤ) (interval : Interval) (now : ℤ)
  | expire
  | handleRead (now : ℤ)
  | callNext
  | leaveCallback (again : Bool)
  | resetNext (now : ℤ)

namespace TimerQueue

/-- The entries of `timers_`, and those of `active_timers_` that `ResetTimers` has not handled. -/
def held (s : TimerQueue) : Multiset Entry := s.timers.val + s.phase.active

/-- When a step may be made. `AddTimer` is called outside `HandleRead` or by a callback, and gets
memory that no timer of the queue is in. -/
inductive Enabled (s : TimerQueue) : TimerAction → Prop
  | addTimer {address : ℕ} (timestamp : ℤ) (interval : Interval) (now : ℤ)
    (hfresh : ∀ entry ∈ s.held, entry.timer ≠ address)
    (hp : s.phase = .idle ∨ ∃ t ran entry rest, s.phase = .inCallback t ran entry rest) :
    Enabled s (.addTimer address timestamp interval now)
  | expire {deadline armedAt : ℤ} (hfd : s.timerfd = .armed deadline armedAt) : Enabled s .expire
  | handleRead (now : ℤ) (hp : s.phase = .idle) : Enabled s (.handleRead now)
  | callNext {now : ℤ} {ran rest : List Entry} (hp : s.phase = .running now ran rest) :
    Enabled s .callNext
  | leaveCallback {now : ℤ} {ran : List Entry} {entry : Entry} {rest : List Entry} (again : Bool)
    (hp : s.phase = .inCallback now ran entry rest) : Enabled s (.leaveCallback again)
  | resetNext {reset rest : List Entry} (now : ℤ) (hp : s.phase = .resetting reset rest) :
    Enabled s (.resetNext now)

/-- What a step does. -/
def act (s : TimerQueue) : TimerAction → Except TimerFault TimerQueue
  | .addTimer address timestamp interval now => s.addTimer address timestamp interval now
  | .expire => .ok { s with timerfd := .expired }
  | .handleRead now => .ok (s.handleRead now)
  | .callNext => .ok s.callNext
  | .leaveCallback again => .ok (s.leaveCallback again)
  | .resetNext now => s.resetNext now

end TimerQueue

/-- **The runs of a queue**: any calls, at any times. -/
def timerSystem : LTS TimerQueue TimerAction where
  init s := s = {}
  step s x t := s.Enabled x ∧ s.act x = .ok t

end CppServerStudio
