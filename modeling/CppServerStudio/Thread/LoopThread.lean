import CppServerStudio.Library.Gates
import CppServerStudio.NetWork.TcpServer

/-!
# The threads of the sub-reactors

`EventLoopThreadPool::start` makes its threads one after the other. `StartLoop` waits until the new
thread has made its loop, and `ThreadFunc` goes on to `Loop`, which does not return. The loop on the
stack of the `i`-th thread is the `i`-th sub-reactor.

## Main definitions

* `loopThread loop`: the gate of an `EventLoopThread`
* `EventLoopThreadPool`, `startSystem`: the pool, and the interleavings of `start` with the threads

## Main results

* `EventLoopThreadPool.starting_of_run`: what `start` has done so far
* `EventLoopThreadPool.Fair.leadsTo_pushBack`: the next loop is there at some time
* `EventLoopThreadPool.start_returns`: `start` returns, with the loops of all threads
-/

namespace CppServerStudio

/-- **`EventLoopThread`**: `ThreadFunc` sets `loop_`, and `StartLoop` waits while it is null. Only
that one thread can wait, so `notify_one` wakes all. -/
def loopThread (loop : LoopId) : Gate (Option LoopId) where
  start := none
  update _ := some loop
  isOpen loop_ := loop_.isSome
  signals _ := true
  stays _ _ := rfl
  wakes _ _ _ := rfl

/-- Where `start` is: at the head of its loop, in `StartLoop` with the thread made, or waiting
there. -/
inductive StartPhase
  | head | made | waiting
  deriving DecidableEq

/-- A pool, with the gate of each thread. -/
structure EventLoopThreadPool where
  threadNums : ℤ
  threads : ℕ → GateState Unit Unit (Option LoopId) := fun _ => { value := none }
  loops : List LoopId := []
  next : ℕ := 0
  phase : StartPhase := .head

/-- The steps of `start` and of the threads at the gates. -/
inductive StartStep
  | makeThread (i : ℕ)
  | startLoop (i : ℕ)
  | thread (i : ℕ) (x : GateStep Unit Unit)
  | pushBack (i : ℕ)

/-- The thread that runs `start`, and the threads that it makes. -/
inductive StartThread
  | main
  | io (i : ℕ)
  deriving DecidableEq

/-- Who waits at the gate of a thread is in `StartLoop`. -/
def StartThread.ofGate (i : ℕ) : GateThread Unit Unit → StartThread
  | .waiter _ => main
  | .opener _ => io i

def StartStep.thread? : StartStep → Option StartThread
  | makeThread _ | startLoop _ | pushBack _ => some .main
  | thread i x => x.thread.map (StartThread.ofGate i)

theorem StartStep.eq_thread_of_io {x : StartStep} {i : ℕ} (hx : x.thread? = some (.io i)) :
    ∃ y, x = .thread i y ∧ y.thread = some (.opener ()) := by
  cases x with
  | makeThread j | startLoop j | pushBack j => cases hx
  | thread j y =>
    obtain ⟨θ, hθ, hio⟩ := Option.map_eq_some_iff.mp hx
    cases θ with
    | waiter w => cases hio
    | opener k =>
      obtain rfl := StartThread.io.inj hio
      exact ⟨y, rfl, hθ⟩

/-- What a step does to the gate of a thread. -/
def StartStep.gateStep (i : ℕ) : StartStep → Option (GateStep Unit Unit)
  | makeThread j => if j = i then some (.call ()) else none
  | startLoop j => if j = i then some (.arrive ()) else none
  | thread j x => if j = i then some x else none
  | pushBack _ => none

namespace EventLoopThreadPool

def setThread (s : EventLoopThreadPool) (i : ℕ) (x : GateState Unit Unit (Option LoopId)) :
    EventLoopThreadPool :=
  { s with threads := Function.update s.threads i x }

@[simp] theorem setThread_threads_self (s : EventLoopThreadPool) (i : ℕ)
    (x : GateState Unit Unit (Option LoopId)) : (s.setThread i x).threads i = x :=
  Function.update_self ..

@[simp] theorem setThread_threads_of_ne (s : EventLoopThreadPool) {i j : ℕ}
    (x : GateState Unit Unit (Option LoopId)) (h : j ≠ i) :
    (s.setThread i x).threads j = s.threads j := Function.update_of_ne h ..

@[simp] theorem setThread_loops (s : EventLoopThreadPool) (i : ℕ)
    (x : GateState Unit Unit (Option LoopId)) : (s.setThread i x).loops = s.loops := rfl

/-- **`EventLoopThreadPool::start`** and its threads. -/
inductive Step (s : EventLoopThreadPool) : StartStep → EventLoopThreadPool → Prop
  /-- The loop goes on, and the constructor of `std::thread` starts `ThreadFunc`. -/
  | makeThread {t} (h : s.phase = .head) (hlt : (s.loops.length : ℤ) < s.threadNums)
    (hs : (loopThread (.sub s.loops.length)).Step (s.threads s.loops.length) (.call ()) t) :
    Step s (.makeThread s.loops.length) { s.setThread s.loops.length t with phase := .made }
  | startLoop {t} (h : s.phase = .made)
    (hs : (loopThread (.sub s.loops.length)).Step (s.threads s.loops.length) (.arrive ()) t) :
    Step s (.startLoop s.loops.length) { s.setThread s.loops.length t with phase := .waiting }
  | thread {i x t} (hx : x ≠ .call () ∧ x ≠ .arrive ())
    (hs : (loopThread (.sub i)).Step (s.threads i) x t) : Step s (.thread i x) (s.setThread i t)
  /-- `StartLoop` returns what it has read. -/
  | pushBack {loop} (h : s.phase = .waiting)
    (hread : (s.threads s.loops.length).waiters () = .passed (some loop)) :
    Step s (.pushBack s.loops.length) { s with loops := s.loops ++ [loop], phase := .head }

/-- **`EventLoopThreadPool::nextloop`** on the vector of loops. -/
def nextloop (s : EventLoopThreadPool) : Option LoopId × EventLoopThreadPool :=
  if s.loops.isEmpty then (some .main, s)
  else
    (s.loops[s.next]?, { s with next := if s.next + 1 = s.loops.length then 0 else s.next + 1 })

end EventLoopThreadPool

/-- **The start of a pool**, under all interleavings with its threads. -/
def startSystem (threadNums : ℤ) : LTS EventLoopThreadPool StartStep where
  init s := s = { threadNums := threadNums }
  step s x t := s.Step x t

namespace EventLoopThreadPool

variable {threadNums : ℤ} {s t : EventLoopThreadPool} {x : StartStep}

/-! ## What `start` has done -/

/-- A step is a step at the gate of a thread, or leaves that gate alone. -/
theorem Step.gate (hs : s.Step x t) (i : ℕ) :
    (x.gateStep i = none ∧ t.threads i = s.threads i) ∨
      ∃ y, x.gateStep i = some y ∧ (loopThread (.sub i)).Step (s.threads i) y (t.threads i) := by
  cases hs with
  | @makeThread u h hlt hs =>
    by_cases hi : s.loops.length = i
    · subst hi
      exact .inr ⟨.call (), if_pos rfl, by simpa using hs⟩
    · exact .inl ⟨if_neg hi, s.setThread_threads_of_ne u (Ne.symm hi)⟩
  | @startLoop u h hs =>
    by_cases hi : s.loops.length = i
    · subst hi
      exact .inr ⟨.arrive (), if_pos rfl, by simpa using hs⟩
    · exact .inl ⟨if_neg hi, s.setThread_threads_of_ne u (Ne.symm hi)⟩
  | @thread j y u hx hs =>
    by_cases hi : j = i
    · subst hi
      exact .inr ⟨y, if_pos rfl, by simpa using hs⟩
    · exact .inl ⟨if_neg hi, s.setThread_threads_of_ne u (Ne.symm hi)⟩
  | pushBack h hread => exact .inl ⟨rfl, rfl⟩

/-- **What `start` has done so far**: the loops of the first threads, of which the last may still be
on its way. -/
structure Starting (s : EventLoopThreadPool) : Prop where
  loops : s.loops = (List.range s.loops.length).map .sub
  length : (s.loops.length : ℤ) ≤ max 0 s.threadNums
  passed : ∀ i < s.loops.length, ∃ v, (s.threads i).waiters () = .passed v
  idle : ∀ i, (s.loops.length < i ∨ (i = s.loops.length ∧ s.phase = .head)) →
    (s.threads i).waiters () = .idle ∧ (s.threads i).openers () = .idle
  made : s.phase ≠ .head → (s.loops.length : ℤ) < s.threadNums ∧
    (s.threads s.loops.length).openers () ≠ .idle
  waiting : (s.threads s.loops.length).waiters () ≠ .idle ↔ s.phase = .waiting
  updated : ∀ i, (loopThread (.sub i)).Updated (s.threads i)

/-- What is read at a gate is the loop of its thread. -/
theorem loop_of_passed {i : ℕ} {u : GateState Unit Unit (Option LoopId)}
    (h : (loopThread (.sub i)).Updated u) {v : Option LoopId} (hv : u.waiters () = .passed v) :
    v = some (.sub i) := by
  obtain ⟨hopen, n, -, rfl⟩ := h.passed () v hv
  cases n with
  | zero => cases hopen
  | succ n => rw [Function.iterate_succ_apply']; rfl

theorem starting_init : Starting { threadNums := threadNums } where
  loops := rfl
  length := by simp
  passed := by simp
  idle := by simp
  made h := absurd rfl h
  waiting := by simp
  updated _ := ⟨rfl, by simp, List.nodup_nil, nofun, fun _ _ => nofun⟩

theorem Starting.updated_step (h : s.Starting) (hs : s.Step x t) (i : ℕ) :
    (loopThread (.sub i)).Updated (t.threads i) := by
  rcases hs.gate i with ⟨-, hsame⟩ | ⟨y, -, hy⟩
  · rw [hsame]
    exact h.updated i
  · exact (h.updated i).step hy

section Gates

variable {u : GateState Unit Unit (Option LoopId)}

/-- A thread is made. -/
theorem Starting.makeThread (h : s.Starting) (hphase : s.phase = .head)
    (hlt : (s.loops.length : ℤ) < s.threadNums)
    (hs : (loopThread (.sub s.loops.length)).Step (s.threads s.loops.length) (.call ()) u) :
    Starting { s.setThread s.loops.length u with phase := .made } := by
  obtain ⟨hidle, -⟩ := h.idle _ (.inr ⟨rfl, hphase⟩)
  have hw := (hs.waiters_eq (.inl hidle) (by rintro ⟨⟩)).trans hidle
  have hk : u.openers () ≠ .idle := by cases hs; simp
  refine ⟨h.loops, h.length, fun i hi => ?_, fun i hi => ?_, fun _ => ⟨hlt, ?_⟩, ?_,
    h.updated_step (.makeThread hphase hlt hs)⟩
  · exact s.setThread_threads_of_ne u (ne_of_lt hi) ▸ h.passed i hi
  · rcases hi with hi | ⟨-, ⟨⟩⟩
    exact s.setThread_threads_of_ne u (ne_of_gt hi) ▸ h.idle i (.inl hi)
  · simpa using hk
  · simp [hw]

/-- `StartLoop` is called. -/
theorem Starting.startLoop (h : s.Starting) (hphase : s.phase = .made)
    (hs : (loopThread (.sub s.loops.length)).Step (s.threads s.loops.length) (.arrive ()) u) :
    Starting { s.setThread s.loops.length u with phase := .waiting } := by
  obtain ⟨hlt, hk⟩ := h.made (by simp [hphase])
  refine ⟨h.loops, h.length, fun i hi => ?_, fun i hi => ?_, fun _ => ⟨hlt, ?_⟩, ?_,
    h.updated_step (.startLoop hphase hs)⟩
  · exact s.setThread_threads_of_ne u (ne_of_lt hi) ▸ h.passed i hi
  · rcases hi with hi | ⟨-, ⟨⟩⟩
    exact s.setThread_threads_of_ne u (ne_of_gt hi) ▸ h.idle i (.inl hi)
  · have hsame : u.openers = (s.threads s.loops.length).openers := by cases hs; rfl
    simpa [hsame] using hk
  · have hw : u.waiters () ≠ .idle := by cases hs; simp
    simp [hw]

/-- A step at a gate: threads that are not made yet take none, and what was passed stays so. -/
theorem Starting.thread (h : s.Starting) {i : ℕ} {y : GateStep Unit Unit}
    (hy : y ≠ .call () ∧ y ≠ .arrive ()) (hs : (loopThread (.sub i)).Step (s.threads i) y u) :
    (s.setThread i u).Starting := by
  have hkeep {j : ℕ} (hw : (s.threads j).waiters () = .idle ∨
      ∃ v, (s.threads j).waiters () = .passed v) :
      ((s.setThread i u).threads j).waiters () = (s.threads j).waiters () := by
    by_cases hj : j = i
    · subst hj
      rw [setThread_threads_self]
      exact hs.waiters_eq hw hy.2
    · rw [s.setThread_threads_of_ne u hj]
  have harrived {j : ℕ} (hw : (s.threads j).waiters () ≠ .idle) :
      ((s.setThread i u).threads j).waiters () ≠ .idle := by
    by_cases hj : j = i
    · subst hj
      rw [setThread_threads_self]
      exact hs.arrived hw
    · rwa [s.setThread_threads_of_ne u hj]
  refine ⟨h.loops, h.length, fun j hj => ?_, fun j hj => ⟨?_, ?_⟩, fun hphase => ?_, ?_,
    h.updated_step (.thread hy hs)⟩
  · obtain ⟨v, hv⟩ := h.passed j hj
    exact ⟨v, (hkeep (.inr ⟨v, hv⟩)).trans hv⟩
  · exact (hkeep (.inl (h.idle j hj).1)).trans (h.idle j hj).1
  · by_cases hji : j = i
    · subst hji
      rw [setThread_threads_self]
      exact hs.openers_eq (h.idle j hj).2 hy.1
    · rw [s.setThread_threads_of_ne u hji]
      exact (h.idle j hj).2
  · obtain ⟨hlt, hk⟩ := h.made hphase
    refine ⟨hlt, ?_⟩
    by_cases hi : s.loops.length = i
    · rw [← hi] at hs ⊢
      rw [setThread_loops, setThread_threads_self]
      exact hs.called hk
    · rwa [setThread_loops, s.setThread_threads_of_ne u hi]
  · refine ⟨fun hw => h.waiting.mp fun hidle => hw ?_, fun hp => harrived (h.waiting.mpr hp)⟩
    exact (hkeep (.inl hidle)).trans hidle

end Gates

/-- `StartLoop` returns, with the loop of its thread. -/
theorem Starting.pushBack (h : s.Starting) {loop : LoopId} (hphase : s.phase = .waiting)
    (hread : (s.threads s.loops.length).waiters () = .passed (some loop)) :
    Starting { s with loops := s.loops ++ [loop], phase := .head } := by
  obtain ⟨hlt, hk⟩ := h.made (by simp [hphase])
  have hloop := Option.some.inj (loop_of_passed (h.updated _) hread)
  refine ⟨?_, ?_, fun i hi => ?_, fun i hi => ?_, by simp, ?_,
    h.updated_step (.pushBack hphase hread)⟩
  · rw [List.length_append, List.length_singleton, List.range_succ, List.map_append, ← h.loops,
      hloop]
    rfl
  · rw [List.length_append, List.length_singleton]
    push_cast
    exact le_max_of_le_right (by omega)
  · rw [List.length_append, List.length_singleton] at hi
    by_cases hi' : i = s.loops.length
    · exact ⟨_, hi' ▸ hread⟩
    · exact h.passed i (by omega)
  · rw [List.length_append, List.length_singleton] at hi
    exact h.idle i (.inl (by omega))
  · have hnext : (s.threads (s.loops ++ [loop]).length).waiters () = .idle :=
      (h.idle _ (.inl (by simp))).1
    simpa using hnext

theorem Starting.step (h : s.Starting) (hs : s.Step x t) : t.Starting := by
  cases hs with
  | makeThread hphase hlt hs => exact h.makeThread hphase hlt hs
  | startLoop hphase hs => exact h.startLoop hphase hs
  | thread hy hs => exact h.thread hy hs
  | pushBack hphase hread => exact h.pushBack hphase hread

theorem starting_of_run {xs : List StartStep} (hr : (startSystem threadNums).Run xs s) :
    s.Starting := by
  apply hr.invariant
  · rintro _ rfl
    exact starting_init
  · intro s x t h hs
    exact h.step hs

/-- The thread of `start` is between the arrival at a gate and its return from it. -/
def Between (s : EventLoopThreadPool) (i : ℕ) : Prop :=
  (s.threads i).waiters () ≠ .idle ∧ ∀ v, (s.threads i).waiters () ≠ .passed v

/-- The thread of `start` is at one gate at a time. -/
theorem Starting.eq_of_between (h : s.Starting) {i : ℕ} (hi : s.Between i) :
    i = s.loops.length ∧ s.phase = .waiting := by
  rcases lt_trichotomy i s.loops.length with hlt | rfl | hgt
  · obtain ⟨v, hv⟩ := h.passed i hlt
    exact absurd hv (hi.2 v)
  · exact ⟨rfl, h.waiting.mp hi.1⟩
  · exact absurd (h.idle i (.inl hgt)).1 hi.1

/-- **What `start` does next.** -/
inductive MainStep (s : EventLoopThreadPool) (x : StartStep) (t : EventLoopThreadPool) : Prop
  | made (h : s.phase = .head) (ht : t.phase = .made) (loops : t.loops = s.loops)
  | waiting (h : s.phase = .made) (ht : t.phase = .waiting) (loops : t.loops = s.loops)
  | returned (h : ∃ v, (s.threads s.loops.length).waiters () = .passed v) (ht : t.phase = .head)
      (loops : t.loops.length = s.loops.length + 1)
  | between (i : ℕ) (y : GateStep Unit Unit) (hx : x = .thread i y)
      (hy : y.thread = some (.waiter ())) (h : s.Between i)

theorem Step.main (hs : s.Step x t) (hx : x.thread? = some .main) : MainStep s x t := by
  cases hs with
  | makeThread h _ _ => exact .made h rfl rfl
  | startLoop h _ => exact .waiting h rfl rfl
  | pushBack h hread => exact .returned ⟨_, hread⟩ rfl (by simp)
  | @thread i y u hy hs =>
    obtain ⟨θ, hθ, hmain⟩ := Option.map_eq_some_iff.mp hx
    cases θ with
    | waiter w => exact .between i y rfl hθ (hs.between hθ)
    | opener k => cases hmain

/-- The other threads leave `start` where it is. -/
theorem Step.other (hs : s.Step x t) (hx : x.thread? ≠ some .main) :
    t.phase = s.phase ∧ t.loops = s.loops := by
  cases hs with
  | makeThread _ _ _ | startLoop _ _ | pushBack _ _ => exact absurd rfl hx
  | thread _ _ => exact ⟨rfl, rfl⟩

theorem Step.length_le (hs : s.Step x t) : s.loops.length ≤ t.loops.length := by
  cases hs with
  | makeThread _ _ _ | startLoop _ _ | thread _ _ => exact le_rfl
  | pushBack _ _ => simp

/-- Outside of the gates `start` goes from place to place. -/
theorem Starting.next (h : s.Starting) (hmain : MainStep s x t) (hp : s.phase ≠ .waiting) :
    t.loops = s.loops ∧ ((s.phase = .head ∧ t.phase = .made) ∨
      (s.phase = .made ∧ t.phase = .waiting)) := by
  rcases hmain with ⟨hs, ht, hloops⟩ | ⟨hs, ht, hloops⟩ | ⟨⟨v, hv⟩, -, -⟩ | ⟨i, y, -, -, hi⟩
  · exact ⟨hloops, .inl ⟨hs, ht⟩⟩
  · exact ⟨hloops, .inr ⟨hs, ht⟩⟩
  · exact absurd (h.waiting.mp (by simp [hv])) hp
  · exact absurd (h.eq_of_between hi).2 hp

/-! ## Fair executions -/

/-- The thread can take a step. -/
def Ready (s : EventLoopThreadPool) (θ : StartThread) : Prop :=
  ∃ x t, x.thread? = some θ ∧ s.Step x t

variable {e : (startSystem threadNums).Execution} {n : ℕ}

/-- **Fairness**: a thread that can take a step again and again takes one. -/
def Fair (e : (startSystem threadNums).Execution) : Prop :=
  ∀ θ, (∀ n, ∃ m ≥ n, (e.state m).Ready θ) →
    ∀ n, ∃ m ≥ n, ∃ x, e.label m = some x ∧ x.thread? = some θ

/-- What happens at the gate of a thread. -/
def atGate (e : (startSystem threadNums).Execution) (i : ℕ) :
    ((loopThread (.sub i)).system Unit Unit).Execution :=
  e.project (fun s => s.threads i) (StartStep.gateStep i) (by rintro _ rfl; rfl)
    (by
      intro s x t hs hx
      rcases hs.gate i with ⟨-, hsame⟩ | ⟨y, hy, -⟩
      · exact hsame
      · simp [hx] at hy)
    (by
      intro s x t y hs hx
      rcases hs.gate i with ⟨hnone, -⟩ | ⟨z, hz, hstep⟩
      · simp [hx] at hnone
      · obtain rfl := Option.some.inj (hx.symm.trans hz)
        exact hstep)

theorem label_atGate {i : ℕ} {y : GateStep Unit Unit} (h : e.label n = some (.thread i y)) :
    (atGate e i).label n = some y := by
  change (e.label n).bind (StartStep.gateStep i) = some y
  rw [h, Option.bind_some, StartStep.gateStep, if_pos rfl]

/-- A thread that is ready at its gate is ready. -/
theorem ready_of_gate {i : ℕ} {θ : GateThread Unit Unit}
    (h : (loopThread (.sub i)).Ready (s.threads i) θ) : s.Ready (.ofGate i θ) := by
  obtain ⟨y, u, hy, hs⟩ := h
  refine ⟨.thread i y, _, ?_, .thread ⟨?_, ?_⟩ hs⟩
  · rw [StartStep.thread?, hy, Option.map_some]
  · rintro rfl
    cases hy
  · rintro rfl
    cases hy

/-- **The threads at a gate are scheduled fairly**, too. -/
theorem Fair.gateFair (hf : Fair e) (i : ℕ) : Gate.Fair (atGate e i) := by
  have hstarting := e.invariant fun xs s => starting_of_run
  intro θ hready n
  have hsteps := hf (.ofGate i θ) fun n => by
    obtain ⟨m, hm, h⟩ := hready n
    exact ⟨m, hm, ready_of_gate h⟩
  cases θ with
  | opener k =>
    obtain ⟨m, hm, x, hx, hthread⟩ := hsteps n
    obtain ⟨y, rfl, hy⟩ := StartStep.eq_thread_of_io hthread
    exact ⟨m, hm, y, label_atGate hx, hy⟩
  | waiter w =>
    by_contra hnone
    push Not at hnone
    -- from some time on the thread of `start` stays at this gate
    obtain ⟨m, hm, hm'⟩ := hready n
    have hstays : ∀ l ≥ m, (e.state l).Between i := by
      intro l hl
      induction l, hl using Nat.le_induction with
      | base =>
        obtain ⟨y, u, hy, hs⟩ := hm'
        exact hs.between hy
      | succ l hl ih =>
        rcases hx : (atGate e i).label l with _ | y
        · have hsame := (atGate e i).pause l hx
          exact (congrArg (fun u : GateState Unit Unit (Option LoopId) =>
            u.waiters () ≠ .idle ∧ ∀ v, u.waiters () ≠ .passed v) hsame).mpr ih
        · have hs := (atGate e i).step l y hx
          exact ⟨hs.arrived ih.1, hs.not_passed (hnone l (by omega) y hx) ih.2⟩
    obtain ⟨l, hl, x, hx, hthread⟩ := hsteps m
    have hbetween := hstays l hl
    obtain ⟨hi, hphase⟩ := (hstarting l).eq_of_between hbetween
    rcases (e.step l x hx).main hthread with ⟨h, -, -⟩ | ⟨h, -, -⟩ | ⟨⟨v, h⟩, -, -⟩ |
      ⟨j, y, rfl, hy, h⟩
    · simp [hphase] at h
    · simp [hphase] at h
    · exact hbetween.2 v (hi ▸ h)
    · obtain rfl := ((hstarting l).eq_of_between h).1.trans hi.symm
      exact hnone l (by omega) y (label_atGate hx) hy

theorem fields_of_run {xs : List StartStep} (hr : (startSystem threadNums).Run xs s) :
    s.threadNums = threadNums ∧ s.next = 0 := by
  apply hr.invariant (I := fun s => s.threadNums = threadNums ∧ s.next = 0)
  · rintro _ rfl
    exact ⟨rfl, rfl⟩
  · intro s x t h hs
    cases hs <;> exact h

/-- `start` goes on from `P` to `Q`, if its own step does and the others keep `P`. -/
theorem Fair.leadsTo_of_ready (hf : Fair e) {P Q : EventLoopThreadPool → Prop}
    (hother : ∀ s t, P s → t.phase = s.phase → t.loops = s.loops →
      (∀ i v, (s.threads i).waiters () = .passed v → (t.threads i).waiters () = .passed v) → P t)
    (hstep : ∀ s t x, P s → s.Starting → MainStep s x t → Q t)
    (hready : ∀ n, P (e.state n) → (e.state n).Ready .main) : e.LeadsTo P Q := by
  have hstarting := e.invariant fun xs s => starting_of_run
  refine .of_fair (H := fun x => x.thread? = some .main) ?_ ?_
  · intro n x hn hx
    have hs := e.step n x hx
    by_cases hmain : x.thread? = some .main
    · exact .inr (hstep _ _ x hn (hstarting n) (hs.main hmain))
    · obtain ⟨hphase, hloops⟩ := hs.other hmain
      refine .inl ⟨hother _ _ hn hphase hloops fun i v hv => ?_, hmain⟩
      rcases hs.gate i with ⟨-, hsame⟩ | ⟨y, -, hy⟩
      · rwa [hsame]
      · exact hy.passed hv
  · intro n hall
    exact hf .main (fun m => ⟨max m n, le_max_left m n,
      hready _ (hall _ (le_max_right m n))⟩) n

/-- **`StartLoop` gets past its gate.** -/
theorem Fair.leadsTo_passed (hf : Fair e) (k : ℕ) :
    e.LeadsTo (fun s => s.loops.length = k ∧ s.phase = .waiting)
      fun s => (s.loops.length = k ∧ ∃ v, (s.threads k).waiters () = .passed v) ∨
        k < s.loops.length := by
  have hstarting := e.invariant fun xs s => starting_of_run
  rintro n ⟨rfl, hphase⟩
  set k := (e.state n).loops.length with hk
  have hf' := hf.gateFair k
  have hupdated := (atGate e k).invariant fun xs s => Gate.updated_of_run
  -- the new thread has been started, so it sets `loop_`
  obtain ⟨m, hm, hdone⟩ := hf'.leadsTo_done () n ((hstarting n).made (by simp [hphase])).2
  have hopen : (loopThread (.sub k)).isOpen ((atGate e k).state m).value := by
    have hmem := ((hupdated m).done ()).mpr hdone
    rw [(hupdated m).value, ← Nat.sub_add_cancel (List.length_pos_of_mem hmem),
      Function.iterate_succ_apply']
    rfl
  have harrived : ((atGate e k).state m).waiters () ≠ .idle :=
    (atGate e k).stays (P := fun u => u.waiters () ≠ .idle)
      (fun n x h hx => ((atGate e k).step n x hx).arrived h) ((hstarting n).waiting.mpr hphase) hm
  obtain ⟨l, hl, hpassed⟩ := hf'.leadsTo_passed () m ⟨hopen, harrived⟩
  refine ⟨l, hm.trans hl, ?_⟩
  have hle : k ≤ (e.state l).loops.length :=
    e.stays (P := fun s => k ≤ s.loops.length) (fun n x h hx => h.trans (e.step n x hx).length_le)
      le_rfl (hm.trans hl)
  rcases hle.lt_or_eq with hlt | heq
  · exact .inr hlt
  · exact .inl ⟨heq.symm, hpassed⟩

/-- **The next loop is there** at some time. -/
theorem Fair.leadsTo_pushBack (hf : Fair e) {k : ℕ} (hk : (k : ℤ) < threadNums) :
    e.LeadsTo (fun s => s.loops.length = k) fun s => k < s.loops.length := by
  have hstarting := e.invariant fun xs s => starting_of_run
  have hfields := e.invariant fun xs s => fields_of_run
  have hpassed : e.LeadsTo
      (fun s => s.loops.length = k ∧ ∃ v, (s.threads k).waiters () = .passed v)
      fun s => k < s.loops.length := by
    refine hf.leadsTo_of_ready ?_ ?_ ?_
    · rintro s t ⟨hlen, v, hv⟩ - hloops hpassed
      exact ⟨by rw [hloops, hlen], v, hpassed k v hv⟩
    · rintro s t x ⟨rfl, v, hv⟩ h hmain
      have hphase : s.phase = .waiting := h.waiting.mp (by simp [hv])
      rcases hmain with ⟨hp, -, -⟩ | ⟨hp, -, -⟩ | ⟨-, -, hloops⟩ | ⟨i, y, -, -, hi⟩
      · simp [hphase] at hp
      · simp [hphase] at hp
      · omega
      · exact absurd hv ((h.eq_of_between hi).1 ▸ hi.2 v)
    · rintro n ⟨rfl, v, hv⟩
      obtain rfl := loop_of_passed ((hstarting n).updated _) hv
      exact ⟨_, _, rfl, .pushBack ((hstarting n).waiting.mp (by simp [hv])) hv⟩
  have hwaiting : e.LeadsTo (fun s => s.loops.length = k ∧ s.phase = .waiting)
      fun s => k < s.loops.length :=
    (hf.leadsTo_passed k).or_trans hpassed
  have hmade : e.LeadsTo (fun s => s.loops.length = k ∧ s.phase = .made)
      fun s => s.loops.length = k ∧ s.phase = .waiting := by
    refine hf.leadsTo_of_ready ?_ ?_ ?_
    · rintro s t ⟨hlen, hp⟩ hphase hloops -
      exact ⟨by rw [hloops, hlen], hphase.trans hp⟩
    · rintro s t x ⟨rfl, hp⟩ h hmain
      obtain ⟨hloops, ⟨hs, -⟩ | ⟨-, ht⟩⟩ := h.next hmain (by simp [hp])
      · simp [hp] at hs
      · exact ⟨by rw [hloops], ht⟩
    · rintro n ⟨rfl, hp⟩
      have hidle : ((e.state n).threads (e.state n).loops.length).waiters () = .idle := by
        by_contra hidle
        have hwaiting := (hstarting n).waiting.mp hidle
        simp [hp] at hwaiting
      exact ⟨_, _, rfl, .startLoop hp (.arrive hidle)⟩
  have hhead : e.LeadsTo (fun s => s.loops.length = k ∧ s.phase = .head)
      fun s => s.loops.length = k ∧ s.phase = .made := by
    refine hf.leadsTo_of_ready ?_ ?_ ?_
    · rintro s t ⟨hlen, hp⟩ hphase hloops -
      exact ⟨by rw [hloops, hlen], hphase.trans hp⟩
    · rintro s t x ⟨rfl, hp⟩ h hmain
      obtain ⟨hloops, ⟨-, ht⟩ | ⟨hs, -⟩⟩ := h.next hmain (by simp [hp])
      · exact ⟨by rw [hloops], ht⟩
      · simp [hp] at hs
    · rintro n ⟨rfl, hp⟩
      have hidle := ((hstarting n).idle _ (.inr ⟨rfl, hp⟩)).2
      exact ⟨_, _, rfl, .makeThread hp (by rwa [(hfields n).1]) (.call hidle)⟩
  intro n hn
  cases hphase : (e.state n).phase with
  | head => exact (hhead.trans (hmade.trans hwaiting)) n ⟨hn, hphase⟩
  | made => exact (hmade.trans hwaiting) n ⟨hn, hphase⟩
  | waiting => exact hwaiting n ⟨hn, hphase⟩

/-- The loops of all threads. -/
def Started (s : EventLoopThreadPool) : Prop :=
  s.phase = .head ∧ s.loops = (List.range s.threadNums.toNat).map .sub

theorem Starting.started_iff (h : s.Starting) : s.Started ↔ s.threadNums ≤ s.loops.length := by
  constructor
  · rintro ⟨-, hloops⟩
    rw [hloops, List.length_map, List.length_range]
    exact Int.self_le_toNat _
  · intro hle
    have hphase : s.phase = .head := by
      by_contra hphase
      have hlt := (h.made hphase).1
      omega
    have hlen : s.loops.length = s.threadNums.toNat := by
      have hmax := h.length
      omega
    exact ⟨hphase, by rw [← hlen]; exact h.loops⟩

theorem Fair.leadsTo_started (hf : Fair e) (n : ℕ) : ∃ m ≥ n, (e.state m).Started := by
  have hstarting := e.invariant fun xs s => starting_of_run
  have hfields := e.invariant fun xs s => fields_of_run
  have hleads : e.LeadsTo (fun _ => True) fun s => threadNums ≤ s.loops.length := by
    refine .of_rank (fun s => (threadNums - s.loops.length).toNat) fun k n hn => ?_
    by_cases hlt : ((e.state n).loops.length : ℤ) < threadNums
    · obtain ⟨m, hm, hlen⟩ := hf.leadsTo_pushBack hlt n rfl
      exact ⟨m, hm, .inr ⟨trivial, by omega⟩⟩
    · exact ⟨n, le_rfl, .inl (by omega)⟩
  obtain ⟨m, hm, hlen⟩ := hleads n trivial
  exact ⟨m, hm, (hstarting m).started_iff.mpr (by rwa [(hfields m).1])⟩

/-! ## The next loop -/

/-- The pool that `start` leaves is the one that the reactors take their loops from. -/
structure Serves (s : EventLoopThreadPool) (r : Reactors) : Prop where
  started : s.Started
  threadNums : s.threadNums.toNat = r.threadNums
  next : s.next = r.next
  lt : r.threadNums ≠ 0 → r.next < r.threadNums

theorem Serves.nextloop {r : Reactors} (h : s.Serves r) :
    s.nextloop.1 = some r.nextloop.1 ∧ s.nextloop.2.Serves r.nextloop.2 := by
  obtain ⟨⟨hphase, hloops⟩, hnums, hnext, hlt⟩ := h
  rw [hnums] at hloops
  have hlen : s.loops.length = r.threadNums := by rw [hloops, List.length_map, List.length_range]
  by_cases hzero : r.threadNums = 0
  · have hempty : s.loops.isEmpty := by rw [List.isEmpty_iff_length_eq_zero, hlen, hzero]
    rw [EventLoopThreadPool.nextloop, Reactors.nextloop, if_pos hempty, if_pos hzero]
    exact ⟨rfl, ⟨hphase, hnums ▸ hloops⟩, hnums, hnext, hlt⟩
  · have hempty : ¬ s.loops.isEmpty := by rwa [List.isEmpty_iff_length_eq_zero, hlen]
    rw [EventLoopThreadPool.nextloop, Reactors.nextloop, if_neg hempty, if_neg hzero]
    refine ⟨?_, ⟨hphase, hnums ▸ hloops⟩, hnums, by simp only [hnext, hlen], fun _ => ?_⟩
    · have hget := hlt hzero
      simp only [hloops, hnext, List.getElem?_map, List.getElem?_range hget, Option.map_some]
    · have hget := hlt hzero
      dsimp only
      split_ifs <;> omega

theorem Serves.iterate {r : Reactors} (h : s.Serves r) (k : ℕ) :
    ((fun s => s.nextloop.2)^[k] s).Serves ((fun r => r.nextloop.2)^[k] r) := by
  induction k with
  | zero => exact h
  | succ k ih =>
    rw [Function.iterate_succ_apply', Function.iterate_succ_apply']
    exact ih.nextloop.2

end EventLoopThreadPool

/-- The sub-reactors come round again. -/
theorem Reactors.nextloop_iterate {r : Reactors} (hnext : r.next = 0) (k : ℕ) :
    ((fun r => r.nextloop.2)^[k] r).nextloop.1 =
      if r.threadNums = 0 then .main else .sub (k % r.threadNums) := by
  have hfields : ((fun r => r.nextloop.2)^[k] r).threadNums = r.threadNums ∧
      (r.threadNums ≠ 0 → ((fun r => r.nextloop.2)^[k] r).next = k % r.threadNums) := by
    induction k with
    | zero => exact ⟨rfl, fun _ => by simp [hnext]⟩
    | succ k ih =>
      obtain ⟨hnums, hnext⟩ := ih
      rw [Function.iterate_succ_apply', Reactors.nextloop, hnums]
      by_cases hzero : r.threadNums = 0
      · rw [if_pos hzero]
        exact ⟨hnums, fun h => absurd hzero h⟩
      · rw [if_neg hzero]
        refine ⟨rfl, fun _ => ?_⟩
        have hmod : (k + 1) % r.threadNums = (k % r.threadNums + 1) % r.threadNums :=
          (Nat.mod_add_mod ..).symm
        dsimp only
        rw [hnext hzero, hmod]
        have hlt := Nat.mod_lt k (Nat.pos_of_ne_zero hzero)
        split_ifs with hlast
        · rw [hlast, Nat.mod_self]
        · exact (Nat.mod_eq_of_lt (by omega)).symm
  obtain ⟨hnums, hnext⟩ := hfields
  rw [Reactors.nextloop, hnums]
  by_cases hzero : r.threadNums = 0
  · rw [if_pos hzero, if_pos hzero]
  · rw [if_neg hzero, if_neg hzero, hnext hzero]

namespace EventLoopThreadPool

variable {threadNums : ℤ} {e : (startSystem threadNums).Execution}

/-- **`start` returns**, and `nextloop` hands out the loops of its threads in turn, or the loop of
the main reactor if there are none: never a null pointer, and never an element behind the end. -/
theorem start_returns (hf : Fair e) : ∃ n, ∀ m ≥ n, (e.state m).Started ∧
    ∀ k, ((fun s => s.nextloop.2)^[k] (e.state m)).nextloop.1 =
      some (if threadNums ≤ 0 then .main else .sub (k % threadNums.toNat)) := by
  have hstarting := e.invariant fun xs s => starting_of_run
  have hfields := e.invariant fun xs s => fields_of_run
  obtain ⟨n, -, hn⟩ := hf.leadsTo_started 0
  refine ⟨n, fun m hm => ?_⟩
  have hle : threadNums ≤ (e.state m).loops.length := by
    refine e.stays (P := fun s => threadNums ≤ s.loops.length) (fun n x h hx => ?_) ?_ hm
    · have hmono := (e.step n x hx).length_le
      omega
    · exact (hfields n).1.symm.le.trans ((hstarting n).started_iff.mp hn)
  have hstarted : (e.state m).Started := (hstarting m).started_iff.mpr (by rwa [(hfields m).1])
  refine ⟨hstarted, fun k => ?_⟩
  have hserves : (e.state m).Serves { threadNums := threadNums.toNat } :=
    ⟨hstarted, by rw [(hfields m).1], (hfields m).2, fun h => Nat.pos_of_ne_zero h⟩
  rw [(hserves.iterate k).nextloop.1, Reactors.nextloop_iterate rfl k]
  have hiff : threadNums.toNat = 0 ↔ threadNums ≤ 0 := Int.toNat_eq_zero
  simp only [hiff]

/-- A run of `start` to its end, with the threads in their loops, ends a fair execution. -/
theorem exists_fair {xs : List StartStep} {s : EventLoopThreadPool}
    (hr : (startSystem threadNums).Run xs s) (hstarted : s.Started)
    (hopeners : ∀ i, (s.threads i).openers () = .idle ∨ (s.threads i).openers () = .done) :
    ∃ e : (startSystem threadNums).Execution, Fair e := by
  obtain ⟨e, -, hstate⟩ := hr.exists_execution
  have hstarting := starting_of_run hr
  have hrest : ∀ θ, ¬ s.Ready θ := by
    rintro θ ⟨x, t, hx, hs⟩
    cases θ with
    | main =>
      rcases hs.main hx with ⟨-, ht, hloops⟩ | ⟨h, -, -⟩ | ⟨⟨v, hv⟩, -, -⟩ | ⟨i, y, -, -, hi⟩
      · have hlt := ((hstarting.step hs).made (by simp [ht])).1
        have hle := hstarting.started_iff.mp hstarted
        have hnums := (fields_of_run hr).1
        have hnums' := (fields_of_run (hr.snoc hs)).1
        rw [hloops] at hlt
        omega
      · simp [hstarted.1] at h
      · have h := hstarting.waiting.mp (by simp [hv])
        simp [hstarted.1] at h
      · have h := (hstarting.eq_of_between hi).2
        simp [hstarted.1] at h
    | io i =>
      obtain ⟨y, rfl, hy⟩ := StartStep.eq_thread_of_io hx
      cases hs with
      | thread _ hs =>
        cases hs with
        | arrive _ | lock _ _ | pass _ _ | block _ _ | spurious _ | call _ => cases hy
        | lockUpdate h _ | update h => rcases hopeners i with hi | hi <;> simp [hi] at h
  refine ⟨e, fun θ h => ?_⟩
  obtain ⟨m, hm, hready⟩ := h xs.length
  exact absurd (hstate m hm ▸ hready) (hrest θ)

/-- The start of a pool with two threads. The first `StartLoop` waits until its thread has made its
loop; the second thread has made its loop when `StartLoop` is called. -/
theorem exists_run_two : ∃ xs s, (startSystem 2).Run xs s ∧ s.Started ∧
    ∀ i, (s.threads i).openers () = .idle ∨ (s.threads i).openers () = .done := by
  have hmade := LTS.Run.snoc (.snoc (.nil (M := startSystem 2) rfl)
    (Step.makeThread rfl (by decide) (.call (k := ()) rfl)))
    (Step.startLoop rfl (.arrive (w := ()) rfl))
  -- the loop is not there yet
  have hblocked := LTS.Run.snoc (.snoc hmade
    (Step.thread (i := 0) (x := .lock ()) (by simp) (.lock (w := ()) (.inl rfl) rfl)))
    (Step.thread (i := 0) (x := .test ()) (by simp) (.block (w := ()) rfl rfl))
  have hwoken := LTS.Run.snoc (.snoc hblocked
    (Step.thread (i := 0) (x := .lockUpdate ()) (by simp) (.lockUpdate (k := ()) rfl rfl)))
    (Step.thread (i := 0) (x := .update ()) (by simp) (.update (k := ()) rfl))
  have hfirst := LTS.Run.snoc (.snoc (.snoc hwoken
    (Step.thread (i := 0) (x := .lock ()) (by simp) (.lock (w := ()) (.inr rfl) rfl)))
    (Step.thread (i := 0) (x := .test ()) (by simp) (.pass (w := ()) rfl rfl)))
    (@Step.pushBack _ (.sub 0) rfl rfl)
  have hopened := LTS.Run.snoc (.snoc (.snoc hfirst
    (Step.makeThread rfl (by decide) (.call (k := ()) rfl)))
    (Step.thread (i := 1) (x := .lockUpdate ()) (by simp) (.lockUpdate (k := ()) rfl rfl)))
    (Step.thread (i := 1) (x := .update ()) (by simp) (.update (k := ()) rfl))
  have hsecond := LTS.Run.snoc (.snoc (.snoc (.snoc hopened
    (Step.startLoop rfl (.arrive (w := ()) rfl)))
    (Step.thread (i := 1) (x := .lock ()) (by simp) (.lock (w := ()) (.inl rfl) rfl)))
    (Step.thread (i := 1) (x := .test ()) (by simp) (.pass (w := ()) rfl rfl)))
    (@Step.pushBack _ (.sub 1) rfl rfl)
  refine ⟨_, _, hsecond, ⟨rfl, rfl⟩, fun i => ?_⟩
  rcases i with _ | _ | i
  · exact .inr rfl
  · exact .inr rfl
  · exact .inl rfl

theorem start_returns_two : ∃ e : (startSystem 2).Execution, ∃ n, ∀ m ≥ n,
    (e.state m).Started ∧ ∀ k, ((fun s => s.nextloop.2)^[k] (e.state m)).nextloop.1 =
      some (if (2 : ℤ) ≤ 0 then .main else .sub (k % (2 : ℤ).toNat)) := by
  obtain ⟨xs, s, hr, hstarted, hopeners⟩ := exists_run_two
  obtain ⟨e, hf⟩ := exists_fair hr hstarted hopeners
  exact ⟨e, start_returns hf⟩

end EventLoopThreadPool

end CppServerStudio
