import CppServerStudio.Thread.Tasks

/-!
# The workers of a stopped pool return

The mutex is given up again and again, so a thread that waits for it gets it under a fair scheduler.
Once the workers of a stopped pool are notified none of them waits, and each of their steps brings
the pool nearer to its end.

## Main definitions

* `ThreadPool.Inside`, `ThreadPool.MutexStep`: the threads that hold the mutex, and what a step does
  to it
* `ThreadPool.Fair`: no thread is passed over for ever
* `ThreadPool.rank`: what the workers of a stopped pool have left to do

## Main results

* `mutexStep_of_step`, `held_of_run`: mutual exclusion
* `Fair.leadsTo_released`: the mutex is given up
* `Fair.leadsTo_exited`, `Fair.leadsTo_returned`: the workers return, and then the destructor
* `threadPool_tasks`: what becomes of the tasks, the workers and the destructor
-/

namespace CppServerStudio

/-- What a worker has left to do before it is at the queue again. -/
def WorkerPhase.weight : WorkerPhase → ℕ
  | exited => 0
  | testing => 1
  | locking | woken => 2
  | running _ | waiting => 3

namespace ThreadPool

variable {size : ℕ} {s t : ThreadPool size} {x : PoolStep size} {θ : PoolThread size}

/-! ## The mutex -/

/-- The thread is between a lock of the mutex and its release. -/
def Inside (s : ThreadPool size) : PoolThread size → Prop
  | .worker i => s.workers i = .testing
  | .caller k => s.calls k = .testing
  | .destroyer => s.destructor = .storing

/-- **What a step does to the mutex**: its thread locks it or releases it, or is outside. -/
inductive MutexStep (s : ThreadPool size) (x : PoolStep size) (t : ThreadPool size) : Prop
  | lock (θ : PoolThread size) (hx : x.thread = some θ) (free : s.holder = none)
      (held : t.holder = some θ) (inside : ∀ η, t.Inside η ↔ η = θ ∨ s.Inside η)
  | unlock (θ : PoolThread size) (hx : x.thread = some θ) (hin : s.Inside θ)
      (free : t.holder = none) (inside : ∀ η, t.Inside η ↔ η ≠ θ ∧ s.Inside η)
  | other (same : t.holder = s.holder) (inside : ∀ η, t.Inside η ↔ s.Inside η)
      (outside : ∀ θ, x.thread = some θ → ¬ s.Inside θ)

theorem inside_setWorker (s : ThreadPool size) (i : Fin size) (phase : WorkerPhase)
    (η : PoolThread size) : (s.setWorker i phase).Inside η ↔
      (η = .worker i ∧ phase = .testing) ∨ (η ≠ .worker i ∧ s.Inside η) := by
  cases η with
  | worker j => by_cases hj : j = i <;> simp [Inside, hj]
  | caller k => simp [Inside, setWorker]
  | destroyer => simp [Inside, setWorker]

theorem inside_setCall (s : ThreadPool size) (k : ℕ) (phase : AddPhase)
    (η : PoolThread size) : (s.setCall k phase).Inside η ↔
      (η = .caller k ∧ phase = .testing) ∨ (η ≠ .caller k ∧ s.Inside η) := by
  cases η with
  | worker j => simp [Inside, setCall]
  | caller j => by_cases hj : j = k <;> simp [Inside, hj]
  | destroyer => simp [Inside, setCall]

/-- A worker goes on outside of the mutex. -/
theorem inside_setWorker_of_ne {i : Fin size} {phase : WorkerPhase} (hold : s.workers i ≠ .testing)
    (hnew : phase ≠ .testing) (η : PoolThread size) :
    (s.setWorker i phase).Inside η ↔ s.Inside η := by
  rw [inside_setWorker]
  by_cases hη : η = .worker i
  · simp [hη, hnew, Inside, hold]
  · simp [hη]

/-- A call of `Add` goes on outside of the mutex. -/
theorem inside_setCall_of_ne {k : ℕ} {phase : AddPhase} (hold : s.calls k ≠ .testing)
    (hnew : phase ≠ .testing) (η : PoolThread size) :
    (s.setCall k phase).Inside η ↔ s.Inside η := by
  rw [inside_setCall]
  by_cases hη : η = .caller k
  · simp [hη, hnew, Inside, hold]
  · simp [hη]

/-- The destructor goes on. -/
theorem inside_setDestructor (s : ThreadPool size) (phase : DestructorPhase)
    (η : PoolThread size) : Inside { s with destructor := phase } η ↔
      (η = .destroyer ∧ phase = .storing) ∨ (η ≠ .destroyer ∧ s.Inside η) := by
  cases η <;> simp [Inside]

theorem inside_notifyAll (s : ThreadPool size) (i : Fin size) :
    s.notifyAll.workers i = .testing ↔ s.workers i = .testing := by
  rw [notifyAll]
  simp only
  split_ifs with hi <;> simp [hi]

theorem mutexStep_of_step (hs : (poolSystem size).step s x t) : MutexStep s x t := by
  obtain ⟨hx, rfl⟩ := hs
  cases x with
  | call k =>
    have hk : s.calls k = .idle := hx
    exact .other rfl (inside_setCall_of_ne (by simp [hk]) (by simp)) (by rintro _ ⟨⟩)
  | lockAdd k =>
    refine .lock (.caller k) rfl hx.2 rfl fun η => (inside_setCall s k .testing η).trans ?_
    tauto
  | enqueue k =>
    -- an addition to a stopped pool throws
    refine .unlock (.caller k) rfl hx ?_ fun η => ?_
    · rw [act, enqueue]
      split_ifs <;> rfl
    · rw [act, enqueue]
      split_ifs
      · exact (inside_setCall s k .threw η).trans (by simp)
      · exact (inside_setCall s k .notifying η).trans (by simp)
  | notifyOne k woken =>
    have hk : s.calls k ≠ .testing := by cases woken <;> simp [hx.1]
    -- both threads that move are outside of the mutex
    have hcall : ∀ η, (s.setCall k .returned).Inside η ↔ s.Inside η :=
      inside_setCall_of_ne hk (by simp)
    cases woken with
    | none => exact .other rfl hcall (by rintro _ ⟨⟩; exact hk)
    | some i =>
      have hworker : ∀ η, ((s.setCall k .returned).setWorker i .woken).Inside η ↔
          (s.setCall k .returned).Inside η :=
        inside_setWorker_of_ne (by simp [setCall, hx.2]) (by simp)
      exact .other rfl (fun η => (hworker η).trans (hcall η)) (by rintro _ ⟨⟩; exact hk)
  | lock i =>
    refine .lock (.worker i) rfl hx.2 rfl fun η => (inside_setWorker s i .testing η).trans ?_
    tauto
  | test i =>
    -- a worker that finds no task waits, or returns
    refine .unlock (.worker i) rfl hx ?_ fun η => ?_
    · rw [act, test]
      split <;> rfl
    · rw [act, test]
      split
      · exact (inside_setWorker s i _ η).trans (by split_ifs <;> simp)
      · exact (inside_setWorker s i _ η).trans (by simp)
  | spurious i =>
    have hi : s.workers i = .waiting := hx
    exact .other rfl (inside_setWorker_of_ne (by simp [hi]) (by simp)) (by rintro _ ⟨⟩)
  | run i =>
    obtain ⟨task, hi⟩ := hx
    have hout : s.workers i ≠ .testing := by simp [hi]
    refine .other (by rw [act, run, hi]; rfl) (fun η => ?_) (by rintro _ ⟨⟩; exact hout)
    rw [act, run, hi]
    exact inside_setWorker_of_ne hout (by simp) η
  | destroy =>
    have hd : s.destructor = .idle := hx
    refine .other rfl (fun η => (inside_setDestructor s .locking η).trans ?_) (by rintro _ ⟨⟩)
    cases η <;> simp [Inside, hd]
  | lockStop =>
    refine .lock .destroyer rfl hx.2 rfl fun η => (inside_setDestructor s .storing η).trans ?_
    tauto
  | store =>
    refine .unlock .destroyer rfl hx rfl fun η => (inside_setDestructor s .notifying η).trans ?_
    simp
  | notifyAll =>
    have hd : s.destructor = .notifying := hx
    refine .other rfl (fun η => ?_) (by rintro _ ⟨⟩; simp [Inside, hd])
    cases η with
    | worker i => exact s.inside_notifyAll i
    | caller k => rfl
    | destroyer => simp [Inside, act, notifyAll, hd]
  | join =>
    obtain ⟨j, hd, -⟩ := hx
    rw [act, join, hd]
    refine .other rfl (fun η => (inside_setDestructor s _ η).trans ?_)
      (by rintro _ ⟨⟩; simp [Inside, hd])
    cases η <;> simp [Inside, hd]
    split_ifs <;> simp

/-- **Mutual exclusion**: the thread inside is the one that holds the mutex. -/
def Held (s : ThreadPool size) : Prop := ∀ θ, s.Inside θ ↔ s.holder = some θ

theorem Held.step (h : s.Held) (hs : (poolSystem size).step s x t) : t.Held := by
  intro η
  rcases mutexStep_of_step hs with ⟨θ, -, hfree, hheld, hin⟩ | ⟨θ, -, hθ, hfree, hin⟩ |
    ⟨hsame, hin, -⟩
  · rw [hin, h η, hfree, hheld]
    simp [eq_comm]
  · -- nobody else was inside
    rw [hin, h η, (h θ).mp hθ, hfree]
    simp [eq_comm]
  · rw [hin, h η, hsame]

theorem held_of_run {xs : List (PoolStep size)} (hr : (poolSystem size).Run xs s) : s.Held := by
  apply hr.invariant
  · rintro _ rfl θ
    cases θ <;> simp [Inside]
  · intro s x t h hs
    exact h.step hs

/-! ## Fair executions -/

/-- The thread can take a step. -/
def Ready (s : ThreadPool size) (θ : PoolThread size) : Prop := ∃ x, x.thread = some θ ∧ s.Enabled x

theorem Held.ready (h : s.Held) (hθ : s.holder = some θ) : s.Ready θ := by
  have hin := (h θ).mpr hθ
  cases θ with
  | worker i => exact ⟨.test i, rfl, hin⟩
  | caller k => exact ⟨.enqueue k, rfl, hin⟩
  | destroyer => exact ⟨.store, rfl, hin⟩

variable {e : (poolSystem size).Execution} {n : ℕ}

/-- **Fairness**: a thread that can take a step again and again takes one. So the mutex is handed to
each thread that waits for it, and tasks end. -/
def Fair (e : (poolSystem size).Execution) : Prop :=
  ∀ θ, (∀ n, ∃ m ≥ n, (e.state m).Ready θ) →
    ∀ n, ∃ m ≥ n, ∃ x, e.label m = some x ∧ x.thread = some θ

theorem Fair.exists_step (hf : Fair e) (h : ∀ m ≥ n, ∃ k ≥ m, (e.state k).Ready θ) :
    ∃ m ≥ n, ∃ x, e.label m = some x ∧ x.thread = some θ := by
  refine hf θ (fun m => ?_) n
  obtain ⟨k, hk, hready⟩ := h (max m n) (le_max_right m n)
  exact ⟨k, (le_max_left m n).trans hk, hready⟩

/-- **The mutex is given up.** -/
theorem Fair.leadsTo_released (hf : Fair e) (n : ℕ) : ∃ m ≥ n, (e.state m).holder = none := by
  have hheld := e.invariant fun xs s => held_of_run
  cases hholder : (e.state n).holder with
  | none => exact ⟨n, le_rfl, hholder⟩
  | some θ =>
    have hleads : e.LeadsTo (fun s => s.holder = some θ) fun s => s.holder = none := by
      refine .of_fair (H := fun x => x.thread = some θ) ?_ ?_
      · intro n x hn hx
        rcases mutexStep_of_step (e.step n x hx) with ⟨η, -, hfree, -⟩ | ⟨η, -, -, hfree, -⟩ |
          ⟨hsame, -, hout⟩
        · rw [hn] at hfree
          cases hfree
        · exact .inr hfree
        · exact .inl ⟨hsame.trans hn, fun hθ => hout θ hθ ((hheld n θ).mpr hn)⟩
      · intro n hall
        exact hf.exists_step fun m hm => ⟨m, le_rfl, (hheld m).ready (hall m hm)⟩
    exact hleads n hholder

/-! ## The workers return -/

/-- What the workers of a stopped pool have left to do. -/
def rank (s : ThreadPool size) : ℕ := 3 * s.tasks.length + ∑ i, (s.workers i).weight

theorem rank_setWorker (s : ThreadPool size) (i : Fin size) (phase : WorkerPhase) :
    (s.setWorker i phase).rank + (s.workers i).weight = s.rank + phase.weight := by
  have hsum : ∑ j, ((s.setWorker i phase).workers j).weight + (s.workers i).weight =
      ∑ j, (s.workers j).weight + phase.weight := sum_update WorkerPhase.weight s.workers i phase
  have htasks : (s.setWorker i phase).tasks = s.tasks := rfl
  rw [rank, rank, htasks]
  omega

/-- A worker at the queue of a stopped pool takes a task, or returns. -/
theorem rank_test {i : Fin size} (hstop : s.stop = true) (hi : s.workers i = .testing) :
    (s.test i).rank < s.rank := by
  rw [test]
  split
  -- with no task left the worker returns
  next htasks =>
    have hsum := s.rank_setWorker i .exited
    rw [hi] at hsum
    change _ + 1 = _ + 0 at hsum
    rw [if_pos hstop]
    change (s.setWorker i .exited).rank < _
    omega
  -- a task in the queue counts more than one that is run
  next task tasks htasks =>
    have hsum := s.rank_setWorker i (.running task)
    rw [hi] at hsum
    change _ + 1 = _ + 3 at hsum
    have hqueue : s.rank = 3 * (tasks.length + 1) + ∑ j, (s.workers j).weight := by
      rw [rank, htasks, List.length_cons]
    have hqueue' : (s.setWorker i (.running task)).rank = 3 * (tasks.length + 1) +
        ∑ j, ((s.setWorker i (.running task)).workers j).weight := by
      rw [rank, show (s.setWorker i (.running task)).tasks = s.tasks from rfl, htasks,
        List.length_cons]
    change 3 * tasks.length + ∑ j, ((s.setWorker i (.running task)).workers j).weight < _
    omega

/-- **A step, once the workers are notified**: those of the workers bring the rank down, the others
leave the workers as they are. -/
theorem Stopping.rank_step (h : s.Stopping) (hd : s.destructor.notified)
    (hs : (poolSystem size).step s x t) : t.destructor.notified ∧
      (((∃ i, x.thread = some (.worker i)) ∧ t.rank < s.rank) ∨
        ((∀ i, x.thread ≠ some (.worker i)) ∧ t.rank = s.rank ∧ t.workers = s.workers)) := by
  have hstop : s.stop = true := h.stop.trans (DestructorPhase.stopped_of_notified hd)
  obtain ⟨hx, rfl⟩ := hs
  cases x with
  | call k | lockAdd k => exact ⟨hd, .inr ⟨by rintro i ⟨⟩, rfl, rfl⟩⟩
  | enqueue k =>
    rw [act, ThreadPool.enqueue, if_pos hstop]
    exact ⟨hd, .inr ⟨by rintro i ⟨⟩, rfl, rfl⟩⟩
  | notifyOne k woken =>
    cases woken with
    | none => exact ⟨hd, .inr ⟨by rintro i ⟨⟩, rfl, rfl⟩⟩
    -- no worker waits any more
    | some i => exact absurd hx.2 (h.awake hd i)
  | spurious i => exact absurd hx (h.awake hd i)
  | lock i =>
    refine ⟨hd, .inl ⟨⟨i, rfl⟩, ?_⟩⟩
    have hsum := s.rank_setWorker i .testing
    have hi : (s.workers i).weight = 2 := by rcases hx.1 with hi | hi <;> rw [hi] <;> rfl
    rw [hi] at hsum
    change _ + 2 = _ + 1 at hsum
    change (s.setWorker i .testing).rank < _
    omega
  | test i =>
    have hsame : (s.test i).destructor = s.destructor := by
      rw [ThreadPool.test]
      split <;> rfl
    exact ⟨by rw [act, hsame]; exact hd, .inl ⟨⟨i, rfl⟩, rank_test hstop hx⟩⟩
  | run i =>
    obtain ⟨task, hi⟩ := hx
    rw [act, ThreadPool.run, hi]
    refine ⟨hd, .inl ⟨⟨i, rfl⟩, ?_⟩⟩
    have hsum := s.rank_setWorker i .locking
    rw [hi] at hsum
    change _ + 3 = _ + 2 at hsum
    change (s.setWorker i .locking).rank < _
    omega
  | join =>
    obtain ⟨j, hj, -⟩ := hx
    rw [act, ThreadPool.join, hj]
    refine ⟨?_, .inr ⟨by rintro i ⟨⟩, rfl, rfl⟩⟩
    simp only
    split_ifs <;> rfl
  -- these come before the workers are notified
  | destroy | lockStop | store | notifyAll =>
    simp_all [Enabled, DestructorPhase.notified]

/-- While some worker has not returned, the rank comes down. -/
theorem Fair.leadsTo_lower (hf : Fair e) (r : ℕ) :
    e.LeadsTo (fun s => s.destructor.notified ∧ s.rank = r) fun s =>
      (s.destructor.notified ∧ ∀ i, s.workers i = .exited) ∨
        (s.destructor.notified ∧ s.rank < r) := by
  have hstopping := e.invariant fun xs s => stopping_of_run
  rintro n ⟨hd, hr⟩
  by_cases hall : ∀ i, (e.state n).workers i = .exited
  · exact ⟨n, le_rfl, .inl ⟨hd, hall⟩⟩
  obtain ⟨i, hi⟩ := not_forall.mp hall
  -- until a worker takes a step, all of them stay where they are
  have hleads : e.LeadsTo (fun s => s.destructor.notified ∧ s.rank = r ∧
      s.workers = (e.state n).workers) fun s => s.destructor.notified ∧ s.rank < r := by
    refine .of_fair (H := fun x => ∃ i, x.thread = some (.worker i)) ?_ ?_
    · rintro m x ⟨hd, hr, hw⟩ hx
      obtain ⟨hd', ⟨-, hlt⟩ | ⟨hnot, hsame, hw'⟩⟩ :=
        (hstopping m).rank_step hd (e.step m x hx)
      · exact .inr ⟨hd', hr ▸ hlt⟩
      · exact .inl ⟨⟨hd', hsame.trans hr, hw'.trans hw⟩, by simpa using hnot⟩
    · intro m hlast
      have hready : ∀ k ≥ m, ∃ l ≥ k, (e.state l).Ready (.worker i) := by
        intro k hk
        have hwi : ∀ l ≥ m, (e.state l).workers i = (e.state n).workers i :=
          fun l hl => congrFun (hlast l hl).2.2 i
        obtain ⟨l, hl, hfree⟩ := hf.leadsTo_released k
        have hli := hwi l (by omega)
        cases hphase : (e.state n).workers i with
        | locking => exact ⟨l, hl, .lock i, rfl, .inl (hli.trans hphase), hfree⟩
        | woken => exact ⟨l, hl, .lock i, rfl, .inr (hli.trans hphase), hfree⟩
        | testing => exact ⟨k, le_rfl, .test i, rfl, (hwi k hk).trans hphase⟩
        | running task => exact ⟨k, le_rfl, .run i, rfl, task, (hwi k hk).trans hphase⟩
        | waiting => exact absurd hphase ((hstopping n).awake hd i)
        | exited => exact absurd hphase hi
      obtain ⟨l, hl, x, hx, hthread⟩ := hf.exists_step hready
      exact ⟨l, hl, x, hx, i, hthread⟩
  obtain ⟨m, hm, hlow⟩ := hleads n ⟨hd, hr, rfl⟩
  exact ⟨m, hm, .inr hlow⟩

/-- **The workers return** once they are notified. -/
theorem Fair.leadsTo_exited (hf : Fair e) :
    e.LeadsTo (fun s => s.destructor.notified) fun s =>
      s.destructor.notified ∧ ∀ i, s.workers i = .exited :=
  .of_rank rank hf.leadsTo_lower

/-! ## The destructor returns -/

/-- The place behind the next step of the destructor. -/
def next (size : ℕ) : DestructorPhase → DestructorPhase
  | .idle => .idle
  | .locking => .storing
  | .storing => .notifying
  | .notifying => .joining 0
  | .joining j => if j < size then .joining (j + 1) else .returned
  | .returned => .returned

/-- A destructor that was called goes on by its own steps. -/
theorem destructor_step (hd : s.destructor ≠ .idle) (hs : (poolSystem size).step s x t) :
    (x.thread = some .destroyer ∧ t.destructor = next size s.destructor) ∨
      (x.thread ≠ some .destroyer ∧ t.destructor = s.destructor) := by
  obtain ⟨hx, rfl⟩ := hs
  cases x with
  | call k | lockAdd k | lock i | spurious i => exact .inr ⟨by rintro ⟨⟩, rfl⟩
  | enqueue k =>
    refine .inr ⟨by rintro ⟨⟩, ?_⟩
    rw [act, enqueue]
    split_ifs <;> rfl
  | notifyOne k woken => cases woken <;> exact .inr ⟨by rintro ⟨⟩, rfl⟩
  | test i =>
    refine .inr ⟨by rintro ⟨⟩, ?_⟩
    rw [act, test]
    split <;> rfl
  | run i =>
    refine .inr ⟨by rintro ⟨⟩, ?_⟩
    rw [act, run]
    split <;> rfl
  | destroy => exact absurd hx hd
  -- the steps of the destructor
  | lockStop => exact .inl ⟨rfl, by rw [hx.1]; rfl⟩
  | store => exact .inl ⟨rfl, by rw [show s.destructor = .storing from hx]; rfl⟩
  | notifyAll => exact .inl ⟨rfl, by rw [show s.destructor = .notifying from hx]; rfl⟩
  | join =>
    obtain ⟨j, hj, -⟩ := hx
    exact .inl ⟨rfl, by rw [act, join, hj]; rfl⟩

/-- The destructor leaves a place, and `C` holds on, if it is ready there again and again. -/
theorem Fair.leadsTo_next (hf : Fair e) {C : ThreadPool size → Prop} {d : DestructorPhase}
    (hd : d ≠ .idle)
    (hC : ∀ n x, C (e.state n) → e.label n = some x → C (e.state (n + 1)))
    (hready : ∀ n, (e.state n).destructor = d → C (e.state n) → (e.state n).holder = none →
      (e.state n).Ready .destroyer) :
    e.LeadsTo (fun s => s.destructor = d ∧ C s) fun s => s.destructor = next size d ∧ C s := by
  refine .of_fair (H := fun x => x.thread = some .destroyer) ?_ ?_
  · rintro n x ⟨hn, hCn⟩ hx
    rcases destructor_step (hn ▸ hd) (e.step n x hx) with ⟨-, hnext⟩ | ⟨hnot, hsame⟩
    · exact .inr ⟨hn ▸ hnext, hC n x hCn hx⟩
    · exact .inl ⟨⟨hsame.trans hn, hC n x hCn hx⟩, hnot⟩
  · intro n hall
    apply hf.exists_step
    intro m hm
    obtain ⟨k, hk, hfree⟩ := hf.leadsTo_released m
    have hk' := hall k (by omega)
    exact ⟨k, hk, hready k hk'.1 hk'.2 hfree⟩

/-- **The destructor notifies the workers** once it is called. -/
theorem Fair.leadsTo_notified (hf : Fair e) :
    e.LeadsTo (fun s => s.destructor ≠ .idle) fun s => s.destructor.notified := by
  have hnotifying : e.LeadsTo (fun s => s.destructor = .notifying ∧ True)
      fun s => s.destructor.notified := by
    intro n hn
    obtain ⟨m, hm, hd, -⟩ := hf.leadsTo_next (C := fun _ => True) (by simp)
      (fun _ _ _ _ => trivial) (fun n hd _ _ => ⟨.notifyAll, rfl, hd⟩) n hn
    have hnotified : (e.state m).destructor.notified = true := by
      rw [hd]
      rfl
    exact ⟨m, hm, hnotified⟩
  have hstoring : e.LeadsTo (fun s => s.destructor = .storing ∧ True)
      fun s => s.destructor.notified :=
    .trans (hf.leadsTo_next (by simp) (fun _ _ _ _ => trivial)
      fun n hd _ _ => ⟨.store, rfl, hd⟩) hnotifying
  have hlocking : e.LeadsTo (fun s => s.destructor = .locking ∧ True)
      fun s => s.destructor.notified :=
    .trans (hf.leadsTo_next (by simp) (fun _ _ _ _ => trivial)
      fun n hd _ hfree => ⟨.lockStop, rfl, hd, hfree⟩) hstoring
  intro n hn
  -- the places up to the call of `notify_all`, each of which leads to the next
  cases hd : (e.state n).destructor with
  | idle => exact absurd hd hn
  | locking => exact hlocking n ⟨hd, trivial⟩
  | storing => exact hstoring n ⟨hd, trivial⟩
  | notifying => exact hnotifying n ⟨hd, trivial⟩
  | joining j | returned =>
    have hnotified : (e.state n).destructor.notified = true := by
      rw [hd]
      rfl
    exact ⟨n, le_rfl, hnotified⟩

/-- Workers that have returned take no step. -/
theorem Stopping.exited_step (h : s.Stopping) (hd : s.destructor.notified)
    (hall : ∀ i, s.workers i = .exited) (hs : (poolSystem size).step s x t) :
    t.destructor.notified ∧ ∀ i, t.workers i = .exited := by
  obtain ⟨hd', ⟨⟨i, -⟩, hlt⟩ | ⟨-, -, hsame⟩⟩ := h.rank_step hd hs
  · -- there is nothing left that a worker could bring down
    have hempty := (h.exited i (hall i)).2
    have hzero : s.rank = 0 := by simp [rank, hempty, hall, WorkerPhase.weight]
    omega
  · exact ⟨hd', fun i => hsame ▸ hall i⟩

/-- How many steps the loop over the workers has left. -/
def joinsLeft (s : ThreadPool size) : ℕ :=
  match s.destructor with
  | .joining j => size + 1 - j
  | _ => 0

/-- **The destructor returns** once the workers have. -/
theorem Fair.leadsTo_returned (hf : Fair e) :
    e.LeadsTo (fun s => s.destructor.notified ∧ ∀ i, s.workers i = .exited)
      fun s => s.destructor = .returned ∧ ∀ i, s.workers i = .exited := by
  have hstopping := e.invariant fun xs s => stopping_of_run
  refine .of_rank joinsLeft fun r => ?_
  rintro n ⟨⟨hd, hall⟩, hr⟩
  cases hphase : (e.state n).destructor with
  | idle | locking | storing | notifying =>
    rw [hphase] at hd
    cases hd
  | returned => exact ⟨n, le_rfl, .inl ⟨hphase, hall⟩⟩
  | joining j =>
    have hleads := hf.leadsTo_next (d := .joining j) (by simp)
      (C := fun s => s.destructor.notified ∧ ∀ i, s.workers i = .exited)
      (fun n x hC hx => (hstopping n).exited_step hC.1 hC.2 (e.step n x hx))
      (fun n hd hC _ => ⟨.join, rfl, j, hd, fun i _ => hC.2 i⟩)
    obtain ⟨m, hm, hnext, hC⟩ := hleads n ⟨hphase, hd, hall⟩
    refine ⟨m, hm, ?_⟩
    rw [next] at hnext
    split_ifs at hnext with hj
    -- one more worker is joined
    · refine .inr ⟨hC, ?_⟩
      rw [joinsLeft, hphase] at hr
      rw [joinsLeft, hnext]
      simp only at hr ⊢
      omega
    · exact .inl ⟨hnext, hC.2⟩

/-- **What becomes of the tasks, the workers and the destructor.** The tasks that were accepted are
taken in the order of their additions, and no other is run; none is accepted once the pool is
stopped; when the destructor has returned, each of them was run once and the workers have returned.
In a fair execution the destructor returns once it is called. -/
theorem threadPool_tasks (hsize : 0 < size) :
    (∀ xs s, (poolSystem size).Run xs s →
      (∀ k, s.calls k = .returned → k ∈ s.enqueued) ∧
      s.taken <+: s.enqueued ∧ (∀ k, s.finished.count k ≤ 1) ∧
      (s.destructor = .returned → (∀ i, s.workers i = .exited) ∧
        ∀ k ∈ s.enqueued, s.finished.count k = 1) ∧
      ∀ ys t, s.stop = true → (poolSystem size).Steps s ys t → t.enqueued = s.enqueued) ∧
    ∀ e : (poolSystem size).Execution, Fair e →
      e.LeadsTo (fun s => s.destructor ≠ .idle)
        fun s => s.destructor = .returned ∧ ∀ i, s.workers i = .exited := by
  refine ⟨fun xs s hr => ?_, fun e hf => ?_⟩
  · have hqueued := queued_of_run hr
    refine ⟨fun k hk => ?_, ?_, fun k => ?_, fun hd => ?_, fun ys t hstop hs => ?_⟩
    · rw [hqueued.accepted, hk]
      rfl
    · rw [hqueued.order]
      exact List.prefix_append _ _
    · have hcount := counted_of_run hr k
      have hone := List.nodup_iff_count_le_one.mp hqueued.nodup k
      rw [hqueued.order, List.count_append] at hone
      omega
    · obtain ⟨hexited, hperm⟩ := finished_perm_enqueued hsize hr hd
      refine ⟨hexited, fun k hk => ?_⟩
      rw [hperm.count_eq]
      exact List.count_eq_one_of_mem hqueued.nodup hk
    · exact enqueued_of_stop hstop hs
  · exact (hf.leadsTo_notified.trans hf.leadsTo_exited).trans hf.leadsTo_returned

/-- A pool of one worker runs a task. Another one waits in the queue when `stop_` is set. -/
def twoTaskSteps : List (PoolStep 1) :=
  [.call 0, .lockAdd 0, .enqueue 0, .notifyOne 0 none, .lock 0, .test 0, .call 1, .lockAdd 1,
    .enqueue 1, .notifyOne 1 none, .destroy, .lockStop, .store, .notifyAll, .run 0, .lock 0,
    .test 0, .run 0, .lock 0, .test 0, .join, .join]

theorem twoTaskSteps_step (n : ℕ) (x : PoolStep 1) (hx : twoTaskSteps[n]? = some x) :
    (poolSystem 1).step ((twoTaskSteps.take n).foldl act {}) x
      (((twoTaskSteps.take n).foldl act {}).act x) := by
  obtain ⟨hn, rfl⟩ := List.getElem?_eq_some_iff.mp hx
  refine ⟨?_, rfl⟩
  change n < 22 at hn
  interval_cases n
  case «4» | «15» | «18» => exact ⟨.inl rfl, rfl⟩
  case «3» | «9» => exact ⟨rfl, by decide⟩
  case «14» => exact ⟨0, rfl⟩
  case «17» => exact ⟨1, rfl⟩
  case «20» => exact ⟨0, rfl, by decide⟩
  case «21» => exact ⟨1, rfl, by decide⟩
  case «1» | «7» | «11» => exact ⟨rfl, rfl⟩
  all_goals rfl

/-- The pool rests for ever after `twoTaskSteps`. -/
def twoTaskExecution : (poolSystem 1).Execution :=
  .ofSteps act {} twoTaskSteps rfl twoTaskSteps_step

theorem twoTaskExecution_rest {n : ℕ} (hn : 22 ≤ n) :
    twoTaskExecution.state n = twoTaskExecution.state 22 := by
  have hlen : twoTaskSteps.length = 22 := rfl
  simp only [twoTaskExecution, LTS.Execution.ofSteps]
  rw [List.take_of_length_le (hlen.trans_le hn), List.take_of_length_le hlen.le]

theorem twoTaskExecution_calls (k : ℕ) :
    (twoTaskExecution.state 22).calls k = if k < 2 then .returned else .idle := by
  change Function.update (Function.update (Function.update (Function.update (Function.update
    (Function.update (Function.update (Function.update (fun _ => AddPhase.idle) 0 .locking) 0
    .testing) 0 .notifying) 0 .returned) 1 .locking) 1 .testing) 1 .notifying) 1 .returned k = _
  rcases k with _ | _ | k
  · rfl
  · rfl
  · simp

/-- No thread can take a step any more. -/
theorem twoTaskExecution_fair : Fair twoTaskExecution := by
  intro θ h
  exfalso
  obtain ⟨m, hm, x, hx, henabled⟩ := h 22
  rw [twoTaskExecution_rest hm] at henabled
  have hworker : ∀ i, (twoTaskExecution.state 22).workers i = .exited := by decide
  have hdestructor : (twoTaskExecution.state 22).destructor = .returned := rfl
  have hcall := twoTaskExecution_calls
  cases x with
  | call k | spurious i | destroy => cases hx
  | lockAdd k | enqueue k =>
    simp only [Enabled, hcall] at henabled
    split_ifs at henabled <;> simp at henabled
  | notifyOne k woken =>
    cases woken <;> simp only [Enabled, hcall] at henabled <;>
      split_ifs at henabled <;> simp at henabled
  | lock i | test i | run i => simp [Enabled, hworker] at henabled
  | lockStop | store | notifyAll | join => simp [Enabled, hdestructor] at henabled

theorem threadPool_tasks_two :
    ((twoTaskExecution.state 13).stop = true ∧ (twoTaskExecution.state 13).tasks = [1]) ∧
    (∀ k < 2, (twoTaskExecution.state 22).finished.count k = 1) ∧
    ∃ m ≥ 13, (twoTaskExecution.state m).destructor = .returned ∧
      ∀ i, (twoTaskExecution.state m).workers i = .exited := by
  obtain ⟨hruns, hfair⟩ := @threadPool_tasks 1 (by decide)
  obtain ⟨haccepted, -, -, hreturned, -⟩ := hruns _ _ (twoTaskExecution.run_history 22)
  refine ⟨⟨rfl, rfl⟩, fun k hk => ?_, ?_⟩
  · refine (hreturned rfl).2 k (haccepted k ?_)
    rw [twoTaskExecution_calls, if_pos hk]
  · apply hfair twoTaskExecution twoTaskExecution_fair 13
    have hstored : (twoTaskExecution.state 13).destructor = .notifying := rfl
    simp [hstored]

end ThreadPool

end CppServerStudio
