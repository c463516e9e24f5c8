import CppServerStudio.Event.EventLoop

/-!
# No lost wake-up

Between two polls the loop always runs `DoToDoList`, so a functor that is queued while the loop
handles events needs no write. One that is queued later, up to the return of the next poll, is
either covered by a write that is not yet read, or by its thread, which still owes the write. So the
loop does not sleep over a queued functor, and each is called, in the order of the appends.

## Main results

* `EventLoop.alert_of_run`: the invariant `Alert` of every interleaving
* `EventLoop.Fair.leadsTo_called`: in a fair execution, a functor that is queued is called
* `EventLoop.wakeup_and_functors`: the loop does not sleep over a functor, and calls each once
-/

namespace CppServerStudio

/-- The functor that a step queues. -/
def LoopAction.queued {T F : Type} : LoopAction T F → Option (Task T F)
  | queueOneFunc thread cb => some ⟨thread, cb⟩
  | _ => none

/-- The loop thread is in `DoToDoList`. -/
def LoopPhase.inDoToDoList {T F : Type} : LoopPhase T F → Bool
  | polling => false
  | handling _ => false
  | _ => true

/-- The loop thread polls before it swaps again. -/
def LoopPhase.PastSwap {T F : Type} : LoopPhase T F → Prop
  | handling _ => False
  | swapping => False
  | _ => True

namespace EventLoop

variable {T F : Type} {s t : EventLoop T F}

/-- **The invariant.** -/
structure Alert (s : EventLoop T F) : Prop where
  calling : s.callingFunctors = s.phase.inDoToDoList
  order : s.called ++ s.phase.functors ++ s.toDoList = s.appended
  readable : ∀ active, s.phase = .handling active →
    active.count .wakeup ≤ 1 ∧ (.wakeup ∈ active → 0 < s.wakeupCount)
  owed : s.phase.PastSwap → ∀ task ∈ s.toDoList, 0 < s.wakeupCount ∨ task.thread ∈ s.writing

/-! ## Steps -/

/-- What the loop does with one channel: it reads the eventfd, or leaves it. -/
theorem handleEvent_cases {ch : ActiveChannel} {active : List ActiveChannel}
    (hp : s.phase = .handling (ch :: active)) (h : s.handleEvent = .ok t) :
    (ch = .wakeup ∧ t = { s with wakeupCount := 0, phase := .handling active }) ∨
      (ch = .other ∧ t = { s with phase := .handling active }) := by
  cases ch with
  | wakeup =>
    simp only [handleEvent, hp, handleRead] at h
    split at h
    · exact .inl ⟨rfl, (Except.ok.inj h).symm⟩
    · cases h
  | other =>
    simp only [handleEvent, hp] at h
    exact .inr ⟨rfl, (Except.ok.inj h).symm⟩

theorem Alert.poll {active : List ActiveChannel} (h : s.Alert) (hp : s.phase = .polling)
    (hone : active.count .wakeup ≤ 1) (hready : .wakeup ∈ active → 0 < s.wakeupCount) :
    (s.poll active).Alert where
  calling := by rw [EventLoop.poll, h.calling, hp]; rfl
  order := by simpa [EventLoop.poll, hp, LoopPhase.functors] using h.order
  readable := by
    rintro _ ⟨⟩
    exact ⟨hone, hready⟩
  owed hpast := hpast.elim

theorem Alert.handleEvent {ch : ActiveChannel} {active : List ActiveChannel} (h : s.Alert)
    (hp : s.phase = .handling (ch :: active)) (ht : s.handleEvent = .ok t) : t.Alert := by
  have hcalling := h.calling
  have horder := h.order
  rw [hp] at hcalling horder
  obtain ⟨hone, hready⟩ := h.readable _ hp
  rcases handleEvent_cases hp ht with ⟨rfl, rfl⟩ | ⟨rfl, rfl⟩
  · -- the eventfd is read, and the wakeup channel is not given twice
    have hnot : .wakeup ∉ active := by
      rw [List.count_cons_self] at hone
      exact List.count_eq_zero.mp (by omega)
    refine ⟨hcalling, horder, ?_, fun hpast => hpast.elim⟩
    rintro _ ⟨⟩
    exact ⟨by rw [List.count_eq_zero.mpr hnot]; omega, fun hmem => absurd hmem hnot⟩
  · refine ⟨hcalling, horder, ?_, fun hpast => hpast.elim⟩
    rintro _ ⟨⟩
    rw [List.count_cons_of_ne (by decide)] at hone
    exact ⟨hone, fun hmem => hready (List.mem_cons_of_mem _ hmem)⟩

theorem Alert.doToDoList (h : s.Alert) (hp : s.phase = .handling []) : s.doToDoList.Alert where
  calling := rfl
  order := by simpa [EventLoop.doToDoList, hp, LoopPhase.functors] using h.order
  readable := by rintro _ ⟨⟩
  owed hpast := hpast.elim

theorem Alert.swap (h : s.Alert) (hp : s.phase = .swapping) : s.swap.Alert where
  calling := by rw [EventLoop.swap, h.calling, hp]; rfl
  order := by simpa [EventLoop.swap, hp, LoopPhase.functors] using h.order
  readable := by rintro _ ⟨⟩
  owed := by
    intro _ task ht
    cases ht

theorem Alert.callNext {functors : List (Task T F)} (h : s.Alert)
    (hp : s.phase = .calling functors) : s.callNext.Alert := by
  have hcalling := h.calling
  have horder := h.order
  have howed := h.owed
  rw [hp] at hcalling horder howed
  unfold EventLoop.callNext
  rw [hp]
  cases functors with
  | nil =>
    exact ⟨rfl, horder, by rintro _ ⟨⟩, fun _ => howed trivial⟩
  | cons task functors =>
    refine ⟨hcalling, ?_, by rintro _ ⟨⟩, fun _ => howed trivial⟩
    simpa [LoopPhase.functors] using horder

theorem Alert.leaveFunctor {func : Task T F} {functors : List (Task T F)} (h : s.Alert)
    (hp : s.phase = .inFunctor func functors) : s.leaveFunctor.Alert := by
  have hcalling := h.calling
  have horder := h.order
  have howed := h.owed
  rw [hp] at hcalling horder howed
  unfold EventLoop.leaveFunctor
  rw [hp]
  exact ⟨hcalling, horder, by rintro _ ⟨⟩, fun _ => howed trivial⟩

section System

variable [DecidableEq T] {tid : T}

theorem wakeup_ok {thread : T} (h : s.wakeup thread = .ok t) :
    t = { s with wakeupCount := s.wakeupCount + 1, writing := s.writing.erase thread } := by
  unfold wakeup at h
  split at h
  · exact (Except.ok.inj h).symm
  · cases h

/-- A thread that skips the write is the loop thread outside `DoToDoList`. -/
theorem Alert.queueOneFunc {thread : T} {cb : F} (h : s.Alert)
    (hl : thread = s.tid → InCallback s.phase) : (s.queueOneFunc thread cb).Alert := by
  have horder : s.called ++ s.phase.functors ++ (s.toDoList ++ [⟨thread, cb⟩]) =
      s.appended ++ [⟨thread, cb⟩] := by
    rw [← List.append_assoc, h.order]
  unfold EventLoop.queueOneFunc
  split
  · refine ⟨h.calling, horder, h.readable, ?_⟩
    intro hpast task ht
    rcases List.mem_append.mp ht with ht | ht
    · -- a functor that was queued before
      rcases h.owed hpast task ht with hpos | hmem
      · exact .inl hpos
      · exact .inr (List.mem_cons_of_mem _ hmem)
    · -- the new one: its thread owes the write
      rw [List.mem_singleton] at ht
      subst ht
      exact .inr List.mem_cons_self
  · rename_i hwrite
    refine ⟨h.calling, horder, h.readable, ?_⟩
    intro hpast
    -- the loop thread, in a callback and not in a functor, so it handles events
    simp only [isInLoopThread, Bool.or_eq_true, Bool.not_eq_true', decide_eq_false_iff_not,
      not_or, not_not, Bool.not_eq_true] at hwrite
    obtain ⟨hthread, hcalling⟩ := hwrite
    rw [h.calling] at hcalling
    have hcb := hl hthread
    change s.phase.PastSwap at hpast
    revert hcalling hcb hpast
    generalize s.phase = p
    rintro hcalling (active | _) hpast
    · exact hpast.elim
    · cases hcalling

theorem Alert.wakeup {thread : T} (h : s.Alert) (ht : s.wakeup thread = .ok t) : t.Alert := by
  rw [wakeup_ok ht]
  refine ⟨h.calling, h.order, fun active hp => ⟨(h.readable active hp).1, fun _ => ?_⟩, ?_⟩
  · exact Nat.succ_pos _
  · intro _ _ _
    exact .inl (Nat.succ_pos _)

/-- **Steps** keep the invariant. -/
theorem Alert.step {x : LoopAction T F} (h : s.Alert) (hs : (loopSystem T F tid).step s x t) :
    t.Alert := by
  obtain ⟨he, ha⟩ := hs
  cases he with
  | queueOneFunc cb hw hl => exact Except.ok.inj ha ▸ h.queueOneFunc hl
  | wakeup hw => exact h.wakeup ha
  | poll hp hmax hone hready => exact Except.ok.inj ha ▸ h.poll hp hone hready
  | handleEvent hp hw => exact h.handleEvent hp ha
  | doToDoList hp => exact Except.ok.inj ha ▸ h.doToDoList hp
  | swap hp => exact Except.ok.inj ha ▸ h.swap hp
  | callNext hp => exact Except.ok.inj ha ▸ h.callNext hp
  | leaveFunctor hp hw => exact Except.ok.inj ha ▸ h.leaveFunctor hp

/-- **Every interleaving** keeps the invariant. -/
theorem alert_of_run {xs : List (LoopAction T F)} (hr : (loopSystem T F tid).Run xs s) :
    s.Alert := by
  refine hr.invariant ?_ fun s x t h hs => h.step hs
  rintro s rfl
  exact ⟨rfl, rfl, by rintro _ ⟨⟩, fun _ _ ht => by cases ht⟩

end System

/-! ## Progress -/

/-- The loop thread has a step to make: it is not in `epoll_wait`, or the eventfd is readable. -/
def Ready (s : EventLoop T F) : Prop := s.phase ≠ .polling ∨ 0 < s.wakeupCount

/-- The functor queued after `k` others is not called yet. -/
structure Pending (k : ℕ) (s : EventLoop T F) : Prop where
  alert : s.Alert
  queued : k < s.appended.length
  left : s.called.length ≤ k

/-- What is left of the iteration of the loop, and of the next one if the functor with `k` others
before it is not in the local vector. -/
def weight (k : ℕ) (s : EventLoop T F) : ℕ :=
  match s.phase with
  | .polling => maxEvents + 4
  | .handling active => active.length + 3
  | .swapping => 2
  | .calling functors => if k < s.called.length + functors.length then 1 else maxEvents + 5
  | .inFunctor _ functors => if k < s.called.length + functors.length then 2 else maxEvents + 6

/-- **The rank**: it comes down with each step of the loop thread. -/
def rank (k : ℕ) (s : EventLoop T F) : ℕ := 2 * (k - s.called.length) + s.weight k

theorem rank_poll {k : ℕ} {active : List ActiveChannel} (hp : s.phase = .polling)
    (hmax : active.length ≤ maxEvents) : (s.poll active).rank k < s.rank k := by
  simp only [rank, weight, poll, hp]
  omega

theorem rank_handleEvent {k : ℕ} {ch : ActiveChannel} {active : List ActiveChannel}
    (hp : s.phase = .handling (ch :: active)) (ht : s.handleEvent = .ok t) :
    t.rank k < s.rank k := by
  rcases handleEvent_cases hp ht with ⟨-, rfl⟩ | ⟨-, rfl⟩
  all_goals
    simp only [rank, weight, hp, List.length_cons]
    omega

theorem rank_doToDoList {k : ℕ} (hp : s.phase = .handling []) : s.doToDoList.rank k < s.rank k := by
  simp only [rank, weight, doToDoList, hp, List.length_nil]
  omega

/-- The swap takes the functor into the local vector, if it was not there. -/
theorem Pending.rank_swap {k : ℕ} (h : s.Pending k) (hp : s.phase = .swapping) :
    s.swap.rank k < s.rank k := by
  have horder := congrArg List.length h.alert.order
  rw [hp] at horder
  simp only [LoopPhase.functors, List.append_nil, List.length_append] at horder
  have hin : k < s.called.length + s.toDoList.length := by
    rw [horder]
    exact h.queued
  have hswap : s.swap.weight k = 1 := if_pos hin
  have hs : s.weight k = 2 := by simp only [weight, hp]
  have hcalled : s.swap.called = s.called := rfl
  rw [rank, rank, hswap, hs, hcalled]
  omega

/-- The next functor is the one, or one before it, or it is not in the local vector. -/
theorem Pending.rank_callNext {k : ℕ} {functors : List (Task T F)} (h : s.Pending k)
    (hp : s.phase = .calling functors) :
    k < s.callNext.called.length ∨ s.callNext.rank k < s.rank k := by
  have hleft := h.left
  unfold callNext
  rw [hp]
  cases functors with
  | nil =>
    right
    simp only [rank, weight, hp, List.length_nil]
    split <;> omega
  | cons task functors =>
    by_cases hk : k = s.called.length
    · left
      simp [hk]
    · right
      simp only [rank, weight, hp, List.length_append, List.length_cons, List.length_nil]
      split <;> split <;> omega

theorem rank_leaveFunctor {k : ℕ} {func : Task T F} {functors : List (Task T F)}
    (hp : s.phase = .inFunctor func functors) : s.leaveFunctor.rank k < s.rank k := by
  simp only [rank, weight, leaveFunctor, hp, LoopPhase.functors]
  split <;> omega

section System

variable [DecidableEq T] {tid : T} {x : LoopAction T F} {k : ℕ}

/-- A step of the loop thread appends nothing, and calls at most one functor. -/
theorem appended_of_loop (hs : (loopSystem T F tid).step s x t) (hx : x.OfLoop) :
    t.appended = s.appended := by
  obtain ⟨he, ha⟩ := hs
  cases he with
  | queueOneFunc cb hw hl => exact hx.elim
  | wakeup hw => exact hx.elim
  | handleEvent hp hw =>
    rcases handleEvent_cases hp ha with ⟨-, rfl⟩ | ⟨-, rfl⟩ <;> rfl
  | callNext hp =>
    obtain rfl := Except.ok.inj ha
    unfold callNext
    split <;> rfl
  | poll | doToDoList | swap | leaveFunctor => exact Except.ok.inj ha ▸ rfl

/-- **A step of the loop thread** brings a functor that is not called nearer to its call. -/
theorem Pending.step (h : s.Pending k) (hs : (loopSystem T F tid).step s x t) (hx : x.OfLoop) :
    k < t.called.length ∨ (t.Pending k ∧ t.rank k < s.rank k) := by
  have halert := h.alert.step hs
  have happended := appended_of_loop hs hx
  rcases lt_or_ge k t.called.length with hk | hk
  · exact .inl hk
  right
  refine ⟨⟨halert, happended ▸ h.queued, hk⟩, ?_⟩
  obtain ⟨he, ha⟩ := hs
  cases he with
  | queueOneFunc cb hw hl => exact hx.elim
  | wakeup hw => exact hx.elim
  | poll hp hmax hone hready => exact Except.ok.inj ha ▸ rank_poll hp hmax
  | handleEvent hp hw => exact rank_handleEvent hp ha
  | doToDoList hp => exact Except.ok.inj ha ▸ rank_doToDoList hp
  | swap hp => exact Except.ok.inj ha ▸ h.rank_swap hp
  | callNext hp =>
    obtain rfl := Except.ok.inj ha
    exact (h.rank_callNext hp).resolve_left (by omega)
  | leaveFunctor hp hw => exact Except.ok.inj ha ▸ rank_leaveFunctor hp

/-- **A step inside `QueueOneFunc`** leaves the iteration where it is. -/
theorem Pending.step_other (h : s.Pending k) (hs : (loopSystem T F tid).step s x t)
    (hx : ¬ x.OfLoop) : t.Pending k ∧ t.rank k = s.rank k ∧ (s.Ready → t.Ready) := by
  have halert := h.alert.step hs
  obtain ⟨he, ha⟩ := hs
  cases he with
  -- a callback more in the queue
  | @queueOneFunc thread cb hw hl =>
    have hsame : t.called = s.called ∧ t.phase = s.phase ∧ t.wakeupCount = s.wakeupCount ∧
        t.appended = s.appended ++ [⟨thread, cb⟩] := by
      obtain rfl := Except.ok.inj ha
      unfold queueOneFunc
      split <;> exact ⟨rfl, rfl, rfl, rfl⟩
    obtain ⟨hcalled, hphase, hcount, happended⟩ := hsame
    refine ⟨⟨halert, ?_, hcalled ▸ h.left⟩, ?_, ?_⟩
    · have := h.queued
      rw [happended, List.length_append]
      omega
    · simp only [rank, weight, hcalled, hphase]
    · simp only [Ready, hphase, hcount]
      exact id
  | wakeup hw =>
    rw [wakeup_ok ha] at halert ⊢
    exact ⟨⟨halert, h.queued, h.left⟩, rfl, fun _ => .inr (Nat.succ_pos _)⟩
  | poll | handleEvent | doToDoList | swap | callNext | leaveFunctor => exact absurd trivial hx

/-! ## Fair executions -/

variable {e : (loopSystem T F tid).Execution}

/-- **Fairness**: the loop thread does not stop for ever while it has a step to make, so callbacks
and functors return; and a thread that owes the write makes it. -/
structure Fair (e : (loopSystem T F tid).Execution) : Prop where
  loop : ∀ n, (∀ m ≥ n, (e.state m).Ready) → ∃ m ≥ n, ∃ x, e.label m = some x ∧ x.OfLoop
  write : ∀ n, ∀ thread ∈ (e.state n).writing, ∃ m ≥ n, e.label m = some (.wakeup thread)

/-- A loop that sleeps over a functor is woken by the write that the thread of a functor owes. -/
theorem Fair.ready (hf : Fair e) (r : ℕ) :
    e.LeadsTo (fun s => (s.Pending k ∧ s.rank k = r) ∧ ¬ s.Ready) fun s =>
      (s.Pending k ∧ s.rank k = r) ∧ s.Ready ∨
        (k < s.called.length ∨ (s.Pending k ∧ s.rank k < r)) := by
  refine .of_fair (H := fun x => ∃ thread, x = .wakeup thread) ?_ ?_
  · rintro n x ⟨⟨h, hr⟩, hready⟩ hx
    have hs := e.step n x hx
    by_cases hloop : x.OfLoop
    · right; right
      exact hr ▸ h.step hs hloop
    · obtain ⟨hpending, hrank, -⟩ := h.step_other hs hloop
      by_cases ht : (e.state (n + 1)).Ready
      · exact .inr (.inl ⟨⟨hpending, hrank.trans hr⟩, ht⟩)
      · refine .inl ⟨⟨⟨hpending, hrank.trans hr⟩, ht⟩, ?_⟩
        -- a write makes the eventfd readable
        rintro ⟨thread, rfl⟩
        exact ht (.inr (by rw [wakeup_ok hs.2]; exact Nat.succ_pos _))
  · intro n hall
    obtain ⟨⟨h, -⟩, hready⟩ := hall n le_rfl
    simp only [Ready, not_or, not_not, Nat.not_lt, Nat.le_zero] at hready
    obtain ⟨hp, hcount⟩ := hready
    -- some functor is queued, and its thread owes the write
    have hne : (e.state n).toDoList ≠ [] := by
      intro hnil
      have horder := congrArg List.length h.alert.order
      simp only [hp, hnil, LoopPhase.functors, List.append_nil] at horder
      have := h.queued
      have := h.left
      omega
    obtain ⟨task, htask⟩ := List.exists_mem_of_ne_nil _ hne
    rcases h.alert.owed (by rw [hp]; trivial) task htask with hpos | hmem
    · omega
    · obtain ⟨m, hm, hx⟩ := hf.write n _ hmem
      exact ⟨m, hm, _, hx, _, rfl⟩

/-- A loop with a step to make goes on. -/
theorem Fair.advance (hf : Fair e) (r : ℕ) :
    e.LeadsTo (fun s => (s.Pending k ∧ s.rank k = r) ∧ s.Ready) fun s =>
      k < s.called.length ∨ (s.Pending k ∧ s.rank k < r) := by
  refine .of_fair (H := LoopAction.OfLoop) ?_ ?_
  · rintro n x ⟨⟨h, hr⟩, hready⟩ hx
    have hs := e.step n x hx
    by_cases hloop : x.OfLoop
    · exact .inr (hr ▸ h.step hs hloop)
    · obtain ⟨hpending, hrank, hkeep⟩ := h.step_other hs hloop
      exact .inl ⟨⟨⟨hpending, hrank.trans hr⟩, hkeep hready⟩, hloop⟩
  · intro n hall
    exact hf.loop n fun m hm => (hall m hm).2

/-- **Every functor is called**, if the threads make their steps. -/
theorem Fair.leadsTo_called (hf : Fair e) (k : ℕ) :
    e.LeadsTo (fun s => s.Pending k) fun s => k < s.called.length := by
  refine .of_rank (rank k) fun r n hn => ?_
  by_cases hready : (e.state n).Ready
  · exact hf.advance r n ⟨hn, hready⟩
  · exact ((hf.ready r).or_trans (hf.advance r)) n ⟨hn, hready⟩

/-- What a step appends. -/
theorem appended_step (hs : (loopSystem T F tid).step s x t) :
    t.appended = s.appended ++ x.queued.toList := by
  by_cases hx : x.OfLoop
  · rw [appended_of_loop hs hx]
    cases x <;> first | exact hx.elim | exact (List.append_nil _).symm
  · obtain ⟨he, ha⟩ := hs
    cases he with
    | queueOneFunc cb hw hl =>
      obtain rfl := Except.ok.inj ha
      unfold queueOneFunc
      split <;> rfl
    | wakeup hw =>
      rw [wakeup_ok ha]
      exact (List.append_nil _).symm
    | poll | handleEvent | doToDoList | swap | callNext | leaveFunctor => exact absurd trivial hx

/-- The functors appended are those that the run has queued. -/
theorem appended_of_run {xs : List (LoopAction T F)} (hr : (loopSystem T F tid).Run xs s) :
    s.appended = xs.filterMap LoopAction.queued := by
  refine hr.history (I := fun xs s => s.appended = xs.filterMap LoopAction.queued) ?_ ?_
  · rintro s rfl
    rfl
  · intro xs s x t ih hs
    rw [appended_step hs, ih, List.filterMap_append]
    cases x <;> rfl

/-- A functor that is queued keeps its place. -/
theorem appended_stays {n m : ℕ} {task : Task T F} (h : (e.state n).appended[k]? = some task)
    (hm : n ≤ m) : (e.state m).appended[k]? = some task := by
  refine e.stays (P := fun s => s.appended[k]? = some task) (fun n x ih hx => ?_) h hm
  rw [appended_step (e.step n x hx)]
  obtain ⟨hlt, -⟩ := List.getElem?_eq_some_iff.mp ih
  rw [List.getElem?_append_left hlt]
  exact ih

/-- **No lost wake-up, and each functor once.** The loop is in `epoll_wait` with a functor queued
only if the eventfd is readable or the thread that appended it owes the write. The functors called,
those in the local vector and those queued are what was queued, in the order of the appends; and in
a fair execution each that is queued is called, in its place. -/
theorem wakeup_and_functors (tid : T) :
    (∀ xs s, (loopSystem T F tid).Run xs s →
      (s.phase = .polling →
        ∀ task ∈ s.toDoList, 0 < s.wakeupCount ∨ task.thread ∈ s.writing) ∧
      s.called ++ s.phase.functors ++ s.toDoList = xs.filterMap LoopAction.queued) ∧
    ∀ e : (loopSystem T F tid).Execution, Fair e → ∀ (n k : ℕ) (task : Task T F),
      (e.state n).appended[k]? = some task → ∃ m ≥ n, (e.state m).called[k]? = some task := by
  refine ⟨fun xs s hr => ?_, fun e hf n k task hk => ?_⟩
  · have h := alert_of_run hr
    refine ⟨fun hp => h.owed (by rw [hp]; trivial), ?_⟩
    rw [h.order, appended_of_run hr]
  · have halert : ∀ m, (e.state m).Alert := e.invariant fun _ _ => alert_of_run
    have hcalled : ∃ m ≥ n, k < (e.state m).called.length := by
      rcases lt_or_ge k (e.state n).called.length with hlt | hle
      · exact ⟨n, le_rfl, hlt⟩
      · exact hf.leadsTo_called k n ⟨halert n, (List.getElem?_eq_some_iff.mp hk).1, hle⟩
    obtain ⟨m, hm, hlt⟩ := hcalled
    refine ⟨m, hm, ?_⟩
    -- the functors called are the first of those appended
    have horder := (halert m).order
    have hkm := appended_stays hk hm
    rw [← horder, List.append_assoc, List.getElem?_append_left hlt] at hkm
    exact hkm

end System

/-- Another thread queues a functor and wakes the loop, which calls it and polls again. -/
def wokenSteps : List (LoopAction Bool ℕ) :=
  [.queueOneFunc false 7, .wakeup false, .poll [.wakeup], .handleEvent, .doToDoList, .swap,
    .callNext, .leaveFunctor, .callNext]

/-- What a step does, in `wokenExecution`. -/
def wokenAct (s : EventLoop Bool ℕ) (x : LoopAction Bool ℕ) : EventLoop Bool ℕ :=
  (s.act x).toOption.getD s

theorem wokenSteps_step (n : ℕ) (x : LoopAction Bool ℕ) (hx : wokenSteps[n]? = some x) :
    (loopSystem Bool ℕ true).step ((wokenSteps.take n).foldl wokenAct { tid := true }) x
      (wokenAct ((wokenSteps.take n).foldl wokenAct { tid := true }) x) := by
  obtain ⟨hn, rfl⟩ := List.getElem?_eq_some_iff.mp hx
  change n < 9 at hn
  interval_cases n
  · exact ⟨.queueOneFunc 7 (by decide) (by rintro ⟨⟩), rfl⟩
  · exact ⟨.wakeup (by decide), rfl⟩
  · exact ⟨.poll rfl (by decide) (by decide) (by decide), rfl⟩
  · exact ⟨.handleEvent rfl (by decide), rfl⟩
  · exact ⟨.doToDoList rfl, rfl⟩
  · exact ⟨.swap rfl, rfl⟩
  · exact ⟨.callNext rfl, rfl⟩
  · exact ⟨.leaveFunctor rfl (by decide), rfl⟩
  · exact ⟨.callNext rfl, rfl⟩

/-- The loop sleeps for ever after `wokenSteps`. -/
def wokenExecution : (loopSystem Bool ℕ true).Execution :=
  .ofSteps wokenAct { tid := true } wokenSteps rfl wokenSteps_step

/-- From then on nothing is queued and no thread owes a write. -/
theorem wokenExecution_rest {n : ℕ} (hn : 9 ≤ n) :
    wokenExecution.state n = wokenExecution.state 9 := by
  have hlen : wokenSteps.length = 9 := rfl
  simp only [wokenExecution, LTS.Execution.ofSteps]
  rw [List.take_of_length_le (hlen.trans_le hn), List.take_of_length_le hlen.le]

theorem wokenExecution_fair : Fair wokenExecution where
  loop := by
    intro n hall
    have hready := hall (n + 9) (by omega)
    rw [wokenExecution_rest (by omega)] at hready
    rcases hready with h | h
    · exact absurd rfl h
    · exact absurd h (by decide)
  write := by
    intro n thread hmem
    rcases lt_or_ge n 9 with hn | hn
    · interval_cases n
      case «1» =>
        obtain rfl := List.mem_singleton.mp hmem
        exact ⟨1, le_rfl, rfl⟩
      all_goals exact absurd hmem List.not_mem_nil
    · rw [wokenExecution_rest hn] at hmem
      exact absurd hmem List.not_mem_nil

theorem wakeup_and_functors_woken :
    (∀ task ∈ (wokenExecution.state 1).toDoList,
      0 < (wokenExecution.state 1).wakeupCount ∨
        task.thread ∈ (wokenExecution.state 1).writing) ∧
    ∃ m ≥ 1, (wokenExecution.state m).called[0]? = some ⟨false, 7⟩ := by
  have hrun : (loopSystem Bool ℕ true).Run [.queueOneFunc false 7] (wokenExecution.state 1) :=
    LTS.Run.snoc (.nil (M := loopSystem Bool ℕ true) rfl) (wokenExecution.step 0 _ rfl)
  exact ⟨((wakeup_and_functors true).1 _ _ hrun).1 rfl,
    (wakeup_and_functors true).2 wokenExecution wokenExecution_fair 1 0 ⟨false, 7⟩ rfl⟩

end EventLoop

end CppServerStudio
