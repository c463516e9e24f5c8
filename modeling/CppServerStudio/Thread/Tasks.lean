import CppServerStudio.Thread.ThreadPool

/-!
# What becomes of a task

A task that `Add` has accepted is in the queue, in a worker, or finished. The workers take the tasks
in the order of their additions, and return only from an empty queue of a stopped pool, to which no
task is added any more.

## Main definitions

* `ThreadPool.Queued`, `ThreadPool.Counted`: where the accepted tasks are
* `ThreadPool.Stopping`: how far the threads are when the destructor is at some place

## Main results

* `queued_of_run`, `counted_of_run`, `stopping_of_run`: the invariants, along every interleaving
* `enqueued_of_stop`: no task is accepted once the pool is stopped
* `finished_perm_enqueued`: the tasks that are finished when the destructor has returned
-/

namespace CppServerStudio

/-- A sum over a function that is changed at one place. -/
theorem sum_update {ι α : Type*} [Fintype ι] [DecidableEq ι] (f : α → ℕ) (w : ι → α) (i : ι)
    (a : α) : ∑ j, f (Function.update w i a j) + f (w i) = ∑ j, f (w j) + f a := by
  rw [← Finset.add_sum_erase _ (fun j => f (Function.update w i a j)) (Finset.mem_univ i),
    ← Finset.add_sum_erase _ (fun j => f (w j)) (Finset.mem_univ i), Function.update_self]
  have hrest : ∑ j ∈ Finset.univ.erase i, f (Function.update w i a j) =
      ∑ j ∈ Finset.univ.erase i, f (w j) := by
    apply Finset.sum_congr rfl
    intro j hj
    rw [Function.update_of_ne (Finset.ne_of_mem_erase hj)]
  omega

/-- `Add` has accepted its task. -/
def AddPhase.accepted : AddPhase → Bool
  | notifying | returned => true
  | _ => false

namespace DestructorPhase

/-- `stop_` is stored. -/
def stopped : DestructorPhase → Bool
  | notifying | joining _ | returned => true
  | _ => false

/-- The workers are notified. -/
def notified : DestructorPhase → Bool
  | joining _ | returned => true
  | _ => false

/-- The worker with the number `i` is joined. -/
def Joined (i : ℕ) : DestructorPhase → Prop
  | joining j => i < j
  | returned => True
  | _ => False

theorem stopped_of_notified {d : DestructorPhase} (h : d.notified) : d.stopped = true := by
  cases d <;> simp_all [notified, stopped]

theorem Joined.notified {i : ℕ} {d : DestructorPhase} (h : d.Joined i) : d.notified = true := by
  cases d <;> simp_all [Joined, DestructorPhase.notified]

end DestructorPhase

namespace ThreadPool

variable {size : ℕ} {s t : ThreadPool size} {x : PoolStep size}

/-! ## The queue -/

/-- **The accepted tasks**, in the order of their additions: those that were taken, and those in the
queue. -/
structure Queued (s : ThreadPool size) : Prop where
  order : s.enqueued = s.taken ++ s.tasks
  accepted : ∀ k, k ∈ s.enqueued ↔ (s.calls k).accepted
  nodup : s.enqueued.Nodup

/-- A call of `Add` that goes on accepts nothing. -/
theorem Queued.setCall (h : s.Queued) {k : ℕ} {phase : AddPhase}
    (hphase : phase.accepted = (s.calls k).accepted) : (s.setCall k phase).Queued := by
  refine ⟨h.order, fun j => ?_, h.nodup⟩
  by_cases hj : j = k
  · rw [hj, setCall_calls_self, hphase]
    exact h.accepted k
  · rw [setCall_calls_of_ne s phase hj]
    exact h.accepted j

/-- **`Add`** appends its task behind all others. -/
theorem Queued.enqueue (h : s.Queued) {k : ℕ} (hk : s.calls k = .testing) :
    (s.enqueue k).Queued := by
  have hnew : k ∉ s.enqueued := by
    rw [h.accepted, hk]
    simp [AddPhase.accepted]
  unfold ThreadPool.enqueue
  split_ifs with hstop
  · have hthrew : (s.setCall k .threw).Queued := h.setCall (by rw [hk]; rfl)
    exact ⟨hthrew.order, hthrew.accepted, hthrew.nodup⟩
  · refine ⟨by simp [h.order, ThreadPool.setCall], fun j => ?_, ?_⟩
    · simp only [List.mem_append, List.mem_singleton]
      by_cases hj : j = k
      · simp [hj, AddPhase.accepted]
      · simp [hj, h.accepted]
    · simp only
      rw [List.nodup_append]
      refine ⟨h.nodup, List.nodup_singleton k, ?_⟩
      rintro a ha b hb rfl
      exact hnew (List.mem_singleton.mp hb ▸ ha)

/-- **A worker** takes the first task of the queue. -/
theorem Queued.test (h : s.Queued) (i : Fin size) : (s.test i).Queued := by
  unfold ThreadPool.test
  split
  · exact ⟨h.order, h.accepted, h.nodup⟩
  next task tasks htasks =>
    refine ⟨?_, h.accepted, h.nodup⟩
    simp [ThreadPool.setWorker, h.order, htasks]

theorem Queued.run (h : s.Queued) (i : Fin size) : (s.run i).Queued := by
  unfold ThreadPool.run
  split <;> exact ⟨h.order, h.accepted, h.nodup⟩

theorem Queued.join (h : s.Queued) : s.join.Queued := by
  unfold ThreadPool.join
  split <;> exact ⟨h.order, h.accepted, h.nodup⟩

theorem Queued.step (h : s.Queued) (hs : (poolSystem size).step s x t) : t.Queued := by
  obtain ⟨hx, rfl⟩ := hs
  cases x with
  | call k => exact h.setCall (by rw [show s.calls k = .idle from hx]; rfl)
  | lockAdd k =>
    have hlock : (s.setCall k .testing).Queued := h.setCall (by rw [hx.1]; rfl)
    exact ⟨hlock.order, hlock.accepted, hlock.nodup⟩
  | enqueue k => exact h.enqueue hx
  | notifyOne k woken =>
    cases woken with
    | none => exact h.setCall (by rw [hx.1]; rfl)
    | some i =>
      have hcall : (s.setCall k .returned).Queued := h.setCall (by rw [hx.1]; rfl)
      exact ⟨hcall.order, hcall.accepted, hcall.nodup⟩
  | test i => exact h.test i
  | run i => exact h.run i
  | join => exact h.join
  | lock i | spurious i | destroy | lockStop | store | notifyAll =>
    exact ⟨h.order, h.accepted, h.nodup⟩

/-! ## The tasks that were taken -/

/-- How many workers are in the task `k`. -/
def runningCount (s : ThreadPool size) (k : ℕ) : ℕ :=
  ∑ i, if s.workers i = .running k then 1 else 0

theorem runningCount_setWorker (s : ThreadPool size) (i : Fin size) (phase : WorkerPhase) (k : ℕ) :
    (s.setWorker i phase).runningCount k + (if s.workers i = .running k then 1 else 0) =
      s.runningCount k + if phase = .running k then 1 else 0 :=
  sum_update (fun p => if p = WorkerPhase.running k then 1 else 0) s.workers i phase

/-- A worker that is in no task, before and after a step. -/
theorem runningCount_of_ne {i : Fin size} {phase : WorkerPhase} {k : ℕ}
    (hold : s.workers i ≠ .running k) (hnew : phase ≠ .running k) :
    (s.setWorker i phase).runningCount k = s.runningCount k := by
  have h := s.runningCount_setWorker i phase k
  rwa [if_neg hold, if_neg hnew] at h

/-- **The tasks that were taken** are in a worker, or finished. -/
def Counted (s : ThreadPool size) : Prop :=
  ∀ k, s.taken.count k = s.finished.count k + s.runningCount k

/-- A worker goes on outside of the tasks. -/
theorem Counted.setWorker (h : s.Counted) {i : Fin size} {phase : WorkerPhase}
    (hold : ∀ k, s.workers i ≠ .running k) (hnew : ∀ k, phase ≠ .running k) :
    (s.setWorker i phase).Counted := by
  intro k
  rw [runningCount_of_ne (hold k) (hnew k)]
  exact h k

theorem Counted.enqueue (h : s.Counted) (k : ℕ) : (s.enqueue k).Counted := by
  unfold ThreadPool.enqueue
  split_ifs <;> exact h

theorem Counted.join (h : s.Counted) : s.join.Counted := by
  unfold ThreadPool.join
  split <;> exact h

theorem Counted.test (h : s.Counted) {i : Fin size} (hi : s.workers i = .testing) :
    (s.test i).Counted := by
  have hold : ∀ k, s.workers i ≠ .running k := fun k => by simp [hi]
  unfold ThreadPool.test
  split
  · exact h.setWorker hold (by intro k; split_ifs <;> simp)
  next task tasks htasks =>
    intro k
    have hcount := s.runningCount_setWorker i (.running task) k
    have hk := h k
    rw [if_neg (hold k)] at hcount
    simp only [List.count_append, List.count_singleton, beq_iff_eq]
    simp only [WorkerPhase.running.injEq] at hcount
    change _ = List.count k s.finished + (s.setWorker i (.running task)).runningCount k
    omega

theorem Counted.run (h : s.Counted) {i : Fin size} {task : ℕ} (hi : s.workers i = .running task) :
    (s.run i).Counted := by
  intro k
  have hcount := s.runningCount_setWorker i .locking k
  have hk := h k
  rw [hi] at hcount
  simp only [WorkerPhase.running.injEq, reduceCtorEq, if_false] at hcount
  rw [ThreadPool.run, hi]
  simp only [List.count_append, List.count_singleton, beq_iff_eq]
  change List.count k s.taken = _ + (s.setWorker i .locking).runningCount k
  omega

theorem runningCount_notifyAll (s : ThreadPool size) (k : ℕ) :
    s.notifyAll.runningCount k = s.runningCount k := by
  apply Finset.sum_congr rfl
  intro i _
  rw [ThreadPool.notifyAll]
  by_cases hi : s.workers i = .waiting <;> simp [hi]

theorem Counted.step (h : s.Counted) (hs : (poolSystem size).step s x t) : t.Counted := by
  obtain ⟨hx, rfl⟩ := hs
  cases x with
  | enqueue k => exact h.enqueue k
  | notifyOne k woken =>
    cases woken with
    | none => exact h
    | some i => exact h.setWorker (fun k => by simp [hx.2]) (by simp)
  | lock i =>
    refine h.setWorker (fun k => ?_) (by simp)
    rcases hx.1 with hi | hi <;> simp [hi]
  | test i => exact h.test hx
  -- no task moves
  | spurious i =>
    have hi : s.workers i = .waiting := hx
    exact h.setWorker (fun k => by simp [hi]) (by simp)
  | run i =>
    obtain ⟨task, hi⟩ := hx
    exact h.run hi
  | notifyAll =>
    intro k
    rw [act, runningCount_notifyAll]
    exact h k
  | join => exact h.join
  | call k | lockAdd k | destroy | lockStop | store => exact h

/-! ## The end of the pool -/

/-- **How far the threads are** when the destructor is at some place. -/
structure Stopping (s : ThreadPool size) : Prop where
  stop : s.stop = s.destructor.stopped
  exited : ∀ i, s.workers i = .exited → s.stop = true ∧ s.tasks = []
  awake : s.destructor.notified → ∀ i, s.workers i ≠ .waiting
  joined : ∀ i : Fin size, s.destructor.Joined i → s.workers i = .exited

/-- A worker goes on, and neither waits nor returns. -/
theorem Stopping.setWorker (h : s.Stopping) {i : Fin size} {phase : WorkerPhase}
    (hold : s.workers i ≠ .exited) (hexited : phase ≠ .exited) (hwaiting : phase ≠ .waiting) :
    (s.setWorker i phase).Stopping := by
  refine ⟨h.stop, fun j hj => ?_, fun hd j => ?_, fun j hd => ?_⟩
  · by_cases hij : j = i
    · rw [hij, setWorker_workers_self] at hj
      exact absurd hj hexited
    · rw [setWorker_workers_of_ne s phase hij] at hj
      exact h.exited j hj
  · by_cases hij : j = i
    · rwa [hij, setWorker_workers_self]
    · rw [setWorker_workers_of_ne s phase hij]
      exact h.awake hd j
  · have hj := h.joined j hd
    have hij : j ≠ i := by
      rintro rfl
      exact hold hj
    rwa [setWorker_workers_of_ne s phase hij]

/-- **`Add`** appends nothing to the queue of a stopped pool. -/
theorem Stopping.enqueue (h : s.Stopping) (k : ℕ) : (s.enqueue k).Stopping := by
  unfold ThreadPool.enqueue
  split_ifs with hstop
  · exact ⟨h.stop, h.exited, h.awake, h.joined⟩
  · refine ⟨h.stop, fun i hi => ?_, h.awake, h.joined⟩
    exact absurd (h.exited i hi).1 hstop

/-- **A worker** waits only while the pool is not stopped, and returns only from an empty queue. -/
theorem Stopping.test (h : s.Stopping) {i : Fin size} (hi : s.workers i = .testing) :
    (s.test i).Stopping := by
  unfold ThreadPool.test
  split
  next htasks =>
    refine ⟨h.stop, fun j hj => ?_, fun hd j => ?_, fun j hd => ?_⟩
    · by_cases hij : j = i
      · simp only [hij, setWorker_workers_self] at hj
        split_ifs at hj with hstop
        exact ⟨hstop, htasks⟩
      · simp only [setWorker_workers_of_ne s _ hij] at hj
        exact h.exited j hj
    · by_cases hij : j = i
      · have hstop : s.stop = true := h.stop.trans (DestructorPhase.stopped_of_notified hd)
        simp [hij, hstop]
      · simpa [hij] using h.awake hd j
    · have hj := h.joined j hd
      have hij : j ≠ i := by
        rintro rfl
        rw [hi] at hj
        cases hj
      simpa [hij] using hj
  next task tasks htasks =>
    have hgo : (s.setWorker i (.running task)).Stopping :=
      h.setWorker (by simp [hi]) (by simp) (by simp)
    refine ⟨hgo.stop, fun j hj => ?_, hgo.awake, hgo.joined⟩
    -- no worker has returned, as the queue is not empty
    have hempty : s.tasks = [] := (hgo.exited j hj).2
    rw [htasks] at hempty
    cases hempty

theorem Stopping.run (h : s.Stopping) {i : Fin size} {task : ℕ} (hi : s.workers i = .running task) :
    (s.run i).Stopping := by
  have hgo : (s.setWorker i .locking).Stopping :=
    h.setWorker (by simp [hi]) (by simp) (by simp)
  rw [ThreadPool.run, hi]
  exact ⟨hgo.stop, hgo.exited, hgo.awake, hgo.joined⟩

/-- The destructor goes on to a place where it has joined no worker. -/
theorem Stopping.setDestructor (h : s.Stopping) {phase : DestructorPhase}
    (hstop : phase.stopped = s.destructor.stopped) (hphase : phase.notified = false) :
    Stopping { s with destructor := phase } := by
  refine ⟨h.stop.trans hstop.symm, h.exited, fun hd => ?_, fun i hd => ?_⟩
  · rw [hphase] at hd
    cases hd
  · have hnotified := hd.notified
    rw [hphase] at hnotified
    cases hnotified

/-- **`notify_all`** leaves no worker waiting. -/
theorem Stopping.notifyAll (h : s.Stopping) (hd : s.destructor = .notifying) :
    s.notifyAll.Stopping := by
  refine ⟨?_, fun i hi => ?_, fun _ i => ?_, fun i hi => absurd hi (Nat.not_lt_zero _)⟩
  · rw [ThreadPool.notifyAll, h.stop, hd]
    rfl
  · rw [ThreadPool.notifyAll] at hi
    simp only at hi
    split_ifs at hi
    exact h.exited i hi
  · rw [ThreadPool.notifyAll]
    simp only
    split_ifs with hi
    · simp
    · exact hi

/-- **`join`** passes a worker only when it has returned. -/
theorem Stopping.join (h : s.Stopping) {j : ℕ} (hd : s.destructor = .joining j)
    (hj : ∀ i : Fin size, i.val = j → s.workers i = .exited) : s.join.Stopping := by
  have hjoined : ∀ i : Fin size, i.val < j + 1 → s.workers i = .exited := by
    intro i hi
    rcases Nat.lt_succ_iff_lt_or_eq.mp hi with hlt | heq
    · apply h.joined i
      rw [hd]
      exact hlt
    · exact hj i heq
  have hstop := h.stop
  have hawake := h.awake
  rw [hd] at hstop hawake
  rw [ThreadPool.join, hd]
  simp only
  split_ifs with hlt
  · exact ⟨hstop, h.exited, fun _ => hawake rfl, hjoined⟩
  · exact ⟨hstop, h.exited, fun _ => hawake rfl, fun i _ => hjoined i (by omega)⟩

theorem Stopping.step (h : s.Stopping) (hs : (poolSystem size).step s x t) : t.Stopping := by
  obtain ⟨hx, rfl⟩ := hs
  cases x with
  | enqueue k => exact h.enqueue k
  | notifyOne k woken =>
    cases woken with
    | none => exact ⟨h.stop, h.exited, h.awake, h.joined⟩
    | some i =>
      have hgo : (s.setWorker i .woken).Stopping :=
        h.setWorker (by simp [hx.2]) (by simp) (by simp)
      exact ⟨hgo.stop, hgo.exited, hgo.awake, hgo.joined⟩
  | lock i =>
    have hold : s.workers i ≠ .exited := by rcases hx.1 with hi | hi <;> simp [hi]
    have hgo : (s.setWorker i .testing).Stopping := h.setWorker hold (by simp) (by simp)
    exact ⟨hgo.stop, hgo.exited, hgo.awake, hgo.joined⟩
  | test i => exact h.test hx
  | spurious i =>
    have hold : s.workers i = .waiting := hx
    exact h.setWorker (by simp [hold]) (by simp) (by simp)
  | run i =>
    obtain ⟨task, hi⟩ := hx
    exact h.run hi
  | destroy =>
    have hd : s.destructor = .idle := hx
    exact h.setDestructor (by rw [hd]; rfl) rfl
  | lockStop =>
    have hgo : Stopping { s with destructor := .storing } :=
      h.setDestructor (by rw [hx.1]; rfl) rfl
    exact ⟨hgo.stop, hgo.exited, hgo.awake, hgo.joined⟩
  | store =>
    have hd : s.destructor = .storing := hx
    refine ⟨rfl, fun i hi => ?_, by rintro ⟨⟩, by rintro i ⟨⟩⟩
    -- no worker has returned before
    have hstop := (h.exited i hi).1
    rw [h.stop, hd] at hstop
    cases hstop
  | notifyAll => exact h.notifyAll hx
  | join =>
    obtain ⟨j, hd, hj⟩ := hx
    exact h.join hd hj
  | call k | lockAdd k => exact ⟨h.stop, h.exited, h.awake, h.joined⟩

/-! ## Runs -/

variable {xs : List (PoolStep size)}

theorem queued_of_run (hr : (poolSystem size).Run xs s) : s.Queued := by
  apply hr.invariant
  · rintro _ rfl
    exact ⟨rfl, fun k => by simp [AddPhase.accepted], List.nodup_nil⟩
  · intro s x t h hs
    exact h.step hs

theorem counted_of_run (hr : (poolSystem size).Run xs s) : s.Counted := by
  apply hr.invariant
  · rintro _ rfl k
    simp [runningCount]
  · intro s x t h hs
    exact h.step hs

theorem stopping_of_run (hr : (poolSystem size).Run xs s) : s.Stopping := by
  apply hr.invariant
  · rintro _ rfl
    exact ⟨rfl, by simp, by rintro ⟨⟩, by rintro i ⟨⟩⟩
  · intro s x t h hs
    exact h.step hs

theorem enqueued_test (s : ThreadPool size) (i : Fin size) :
    (s.test i).enqueued = s.enqueued ∧ (s.test i).stop = s.stop := by
  unfold ThreadPool.test
  split <;> exact ⟨rfl, rfl⟩

theorem enqueued_run (s : ThreadPool size) (i : Fin size) :
    (s.run i).enqueued = s.enqueued ∧ (s.run i).stop = s.stop := by
  unfold ThreadPool.run
  split <;> exact ⟨rfl, rfl⟩

theorem enqueued_join (s : ThreadPool size) :
    s.join.enqueued = s.enqueued ∧ s.join.stop = s.stop := by
  unfold ThreadPool.join
  split <;> exact ⟨rfl, rfl⟩

/-- A stopped pool accepts no task in a step. -/
theorem enqueued_step (hstop : s.stop = true) (hs : (poolSystem size).step s x t) :
    t.enqueued = s.enqueued ∧ t.stop = true := by
  obtain ⟨-, rfl⟩ := hs
  cases x with
  | enqueue k =>
    rw [act, ThreadPool.enqueue, if_pos hstop]
    exact ⟨rfl, hstop⟩
  | notifyOne k woken => cases woken <;> exact ⟨rfl, hstop⟩
  | test i => exact ⟨(s.enqueued_test i).1, (s.enqueued_test i).2.trans hstop⟩
  | run i => exact ⟨(s.enqueued_run i).1, (s.enqueued_run i).2.trans hstop⟩
  | join => exact ⟨s.enqueued_join.1, s.enqueued_join.2.trans hstop⟩
  | store => exact ⟨rfl, rfl⟩
  | call k | lockAdd k | lock i | spurious i | destroy | lockStop | notifyAll =>
    exact ⟨rfl, hstop⟩

/-- **A stopped pool accepts no task**, whatever its threads do. -/
theorem enqueued_of_stop (hstop : s.stop = true) (hs : (poolSystem size).Steps s xs t) :
    t.enqueued = s.enqueued := by
  suffices h : t.enqueued = s.enqueued ∧ t.stop = true from h.1
  apply hs.history (I := fun _ t => t.enqueued = s.enqueued ∧ t.stop = true)
  · exact ⟨rfl, hstop⟩
  · rintro xs t x u ⟨hsame, ht⟩ hx
    obtain ⟨hsame', hu⟩ := enqueued_step ht hx
    exact ⟨hsame'.trans hsame, hu⟩

/-- **When the destructor has returned**, the workers have returned, and the accepted tasks are the
finished ones. -/
theorem finished_perm_enqueued (hsize : 0 < size) (hr : (poolSystem size).Run xs s)
    (hd : s.destructor = .returned) :
    (∀ i, s.workers i = .exited) ∧ s.finished.Perm s.enqueued := by
  have hstopping := stopping_of_run hr
  have hexited : ∀ i, s.workers i = .exited := by
    intro i
    apply hstopping.joined i
    rw [hd]
    trivial
  refine ⟨hexited, List.perm_iff_count.mpr fun k => ?_⟩
  -- the queue is empty, and no worker is in a task
  have hempty := (hstopping.exited ⟨0, hsize⟩ (hexited _)).2
  have hnone : s.runningCount k = 0 := by simp [runningCount, hexited]
  have hcount := counted_of_run hr k
  rw [(queued_of_run hr).order, hempty, List.append_nil]
  omega

end ThreadPool

end CppServerStudio
