import CppServerStudio.Library.Executions

/-!
# Gates

A gate is a value behind a mutex. Some threads wait until it is open: each tests it under the mutex,
and a wait gives the mutex up and may end for no reason. Other threads update the value under the
mutex, and the one that opens it wakes all that wait. Once open the gate stays so.

## Main definitions

* `Gate`: the value, what an update does to it, when it is open, and which updates wake the others
* `GateState`, `Gate.system`: the threads at a gate, and their interleavings
* `Gate.Fair`: no thread is passed over for ever

## Main results

* `Gate.updated_of_run`: who passes has seen the gate open, and nobody waits at an open gate
* `Gate.held_of_run`: mutual exclusion
* `Gate.Fair.leadsTo_done`, `Gate.Fair.leadsTo_passed`: updates end, and an open gate is passed
-/

/-- A gate. An update that opens it signals. -/
structure Gate (V : Type*) where
  start : V
  update : V → V
  isOpen : V → Bool
  signals : V → Bool
  stays : ∀ v, isOpen v → isOpen (update v)
  wakes : ∀ v, isOpen v = false → isOpen (update v) → signals (update v)

/-- Where a thread is that waits: not there yet, about to lock the mutex, at the test, blocked,
woken without the mutex, or past the gate with what it has read. -/
inductive WaiterPhase (V : Type*)
  | idle | locking | testing | waiting | woken
  | passed (value : V)

/-- Where a thread is that updates the value. -/
inductive OpenerPhase
  | idle | locking | updating | done
  deriving DecidableEq

/-- The threads at a gate. -/
inductive GateThread (W K : Type*)
  | waiter (w : W)
  | opener (k : K)
  deriving DecidableEq

/-- The threads at a gate and its value. The order of the updates is there for statements alone. -/
structure GateState (W K V : Type*) where
  value : V
  holder : Option (GateThread W K) := none
  waiters : W → WaiterPhase V := fun _ => .idle
  openers : K → OpenerPhase := fun _ => .idle
  updates : List K := []

/-- The steps. -/
inductive GateStep (W K : Type*)
  | arrive (w : W)
  | lock (w : W)
  | test (w : W)
  /-- A wait ends for no reason. -/
  | spurious (w : W)
  | call (k : K)
  | lockUpdate (k : K)
  | update (k : K)

/-- The thread that takes a step, unless the step comes from outside. -/
def GateStep.thread {W K : Type*} : GateStep W K → Option (GateThread W K)
  | arrive _ | spurious _ | call _ => none
  | lock w | test w => some (.waiter w)
  | lockUpdate k | update k => some (.opener k)

namespace GateState

variable {W K V : Type*}

/-- All that wait are woken. -/
def wakeAll (s : GateState W K V) : GateState W K V :=
  { s with waiters := fun w => match s.waiters w with | .waiting => .woken | phase => phase }

theorem wakeAll_waiters (s : GateState W K V) (w : W) : s.wakeAll.waiters w = s.waiters w ∨
    (s.waiters w = .waiting ∧ s.wakeAll.waiters w = .woken) := by
  unfold wakeAll
  dsimp only
  split
  · rename_i hw
    exact .inr ⟨hw, rfl⟩
  · exact .inl rfl

theorem wakeAll_ne_waiting (s : GateState W K V) (w : W) : s.wakeAll.waiters w ≠ .waiting := by
  unfold wakeAll
  dsimp only
  split
  · exact nofun
  · assumption

section Waiters

variable [DecidableEq W]

def setWaiter (s : GateState W K V) (w : W) (phase : WaiterPhase V) : GateState W K V :=
  { s with waiters := Function.update s.waiters w phase }

@[simp] theorem setWaiter_waiters_self (s : GateState W K V) (w : W) (phase : WaiterPhase V) :
    (s.setWaiter w phase).waiters w = phase := Function.update_self ..

@[simp] theorem setWaiter_waiters_of_ne (s : GateState W K V) {w w' : W} (phase : WaiterPhase V)
    (h : w' ≠ w) : (s.setWaiter w phase).waiters w' = s.waiters w' := Function.update_of_ne h ..

end Waiters

section Openers

variable [DecidableEq K]

def setOpener (s : GateState W K V) (k : K) (phase : OpenerPhase) : GateState W K V :=
  { s with openers := Function.update s.openers k phase }

@[simp] theorem setOpener_openers_self (s : GateState W K V) (k : K) (phase : OpenerPhase) :
    (s.setOpener k phase).openers k = phase := Function.update_self ..

@[simp] theorem setOpener_openers_of_ne (s : GateState W K V) {k k' : K} (phase : OpenerPhase)
    (h : k' ≠ k) : (s.setOpener k phase).openers k' = s.openers k' := Function.update_of_ne h ..

end Openers

end GateState

namespace Gate

section Update

variable {W K V : Type*} [DecidableEq K] {g : Gate V}

/-- An update under the mutex. -/
def openBy (g : Gate V) (s : GateState W K V) (k : K) : GateState W K V :=
  let s := if g.signals (g.update s.value) then s.wakeAll else s
  { s.setOpener k .done with
    value := g.update s.value, holder := none, updates := s.updates ++ [k] }

/-- An update leaves who waits where it is, or wakes it. -/
theorem openBy_waiters (s : GateState W K V) (k : K) (w : W) :
    (g.openBy s k).waiters w = s.waiters w ∨
      (s.waiters w = .waiting ∧ (g.openBy s k).waiters w = .woken) := by
  unfold openBy
  dsimp only
  split
  · exact s.wakeAll_waiters w
  · exact .inl rfl

theorem openBy_fields (s : GateState W K V) (k : K) :
    (g.openBy s k).value = g.update s.value ∧ (g.openBy s k).holder = none ∧
      (g.openBy s k).updates = s.updates ++ [k] ∧
      (g.openBy s k).openers = Function.update s.openers k .done := by
  unfold openBy
  dsimp only
  split <;> exact ⟨rfl, rfl, rfl, rfl⟩

end Update

variable {W K V : Type*} [DecidableEq W] [DecidableEq K] {g : Gate V} {s t : GateState W K V}
  {x : GateStep W K}

/-- What the steps do. -/
inductive Step (g : Gate V) (s : GateState W K V) : GateStep W K → GateState W K V → Prop
  | arrive {w : W} (h : s.waiters w = .idle) : Step g s (.arrive w) (s.setWaiter w .locking)
  | lock {w : W} (h : s.waiters w = .locking ∨ s.waiters w = .woken) (hfree : s.holder = none) :
    Step g s (.lock w) { s.setWaiter w .testing with holder := some (.waiter w) }
  | pass {w : W} (h : s.waiters w = .testing) (hopen : g.isOpen s.value) :
    Step g s (.test w) { s.setWaiter w (.passed s.value) with holder := none }
  | block {w : W} (h : s.waiters w = .testing) (hshut : g.isOpen s.value = false) :
    Step g s (.test w) { s.setWaiter w .waiting with holder := none }
  | spurious {w : W} (h : s.waiters w = .waiting) : Step g s (.spurious w) (s.setWaiter w .woken)
  | call {k : K} (h : s.openers k = .idle) : Step g s (.call k) (s.setOpener k .locking)
  | lockUpdate {k : K} (h : s.openers k = .locking) (hfree : s.holder = none) :
    Step g s (.lockUpdate k) { s.setOpener k .updating with holder := some (.opener k) }
  | update {k : K} (h : s.openers k = .updating) : Step g s (.update k) (g.openBy s k)

/-- **The threads at a gate**, under all interleavings. -/
def system (W K : Type*) [DecidableEq W] [DecidableEq K] (g : Gate V) :
    LTS (GateState W K V) (GateStep W K) where
  init s := s = { value := g.start }
  step s x t := g.Step s x t

/-! ## The value -/

/-- **What is behind the value**: each update that is done, once. -/
structure Updated (g : Gate V) (s : GateState W K V) : Prop where
  value : s.value = g.update^[s.updates.length] g.start
  done : ∀ k, k ∈ s.updates ↔ s.openers k = .done
  nodup : s.updates.Nodup
  passed : ∀ w v, s.waiters w = .passed v → g.isOpen v ∧
    ∃ n ≤ s.updates.length, v = g.update^[n] g.start
  awake : g.isOpen s.value → ∀ w, s.waiters w ≠ .waiting

omit [DecidableEq K] in
/-- A thread that waits goes on, and reads nothing. -/
theorem Updated.setWaiter (h : g.Updated s) {w : W} {phase : WaiterPhase V}
    (hpassed : ∀ v, phase ≠ .passed v) (hwaiting : g.isOpen s.value → phase ≠ .waiting)
    (holder : Option (GateThread W K)) :
    g.Updated { s.setWaiter w phase with holder := holder } where
  value := h.value
  done := h.done
  nodup := h.nodup
  passed w' v hv := by
    by_cases hw : w' = w
    · subst hw
      exact absurd ((GateState.setWaiter_waiters_self s w' phase).symm.trans hv) (hpassed v)
    · exact h.passed w' v ((s.setWaiter_waiters_of_ne phase hw).symm.trans hv)
  awake hopen w' hv := by
    by_cases hw : w' = w
    · subst hw
      exact hwaiting hopen ((GateState.setWaiter_waiters_self s w' phase).symm.trans hv)
    · exact h.awake hopen w' ((s.setWaiter_waiters_of_ne phase hw).symm.trans hv)

omit [DecidableEq W] in
/-- A thread goes on to its update. -/
theorem Updated.setOpener (h : g.Updated s) {k : K} {phase : OpenerPhase}
    (hk : s.openers k ≠ .done) (hphase : phase ≠ .done) (holder : Option (GateThread W K)) :
    g.Updated { s.setOpener k phase with holder := holder } where
  value := h.value
  done k' := by
    refine (h.done k').trans ?_
    change _ ↔ (s.setOpener k phase).openers k' = .done
    by_cases heq : k' = k
    · subst heq
      simp [hk, hphase]
    · rw [s.setOpener_openers_of_ne phase heq]
  nodup := h.nodup
  passed := h.passed
  awake := h.awake

omit [DecidableEq W] in
/-- An update. -/
theorem Updated.openBy (h : g.Updated s) {k : K} (hk : s.openers k = .updating) :
    g.Updated (g.openBy s k) := by
  obtain ⟨hvalue, -, hupdates, hopeners⟩ := openBy_fields (g := g) s k
  have hnew : k ∉ s.updates := by
    rw [h.done, hk]
    nofun
  constructor
  case value => rw [hvalue, hupdates, List.length_append, List.length_singleton,
    Function.iterate_succ_apply', ← h.value]
  case done =>
    intro k'
    rw [hupdates, hopeners, List.mem_append, List.mem_singleton, h.done]
    by_cases heq : k' = k
    · subst heq
      simp
    · simp [heq]
  case nodup =>
    rw [hupdates]
    exact List.nodup_append.mpr ⟨h.nodup, List.nodup_singleton _, by
      intro a ha b hb heq
      obtain rfl := List.mem_singleton.mp hb
      exact hnew (heq ▸ ha)⟩
  case passed =>
    intro w v hv
    rcases openBy_waiters (g := g) s k w with hsame | ⟨-, hwoken⟩
    · obtain ⟨hopen, n, hn, hvn⟩ := h.passed w v (hsame.symm.trans hv)
      refine ⟨hopen, n, ?_, hvn⟩
      rw [hupdates, List.length_append]
      omega
    · cases hwoken.symm.trans hv
  case awake =>
    -- the update that opens the gate wakes all that wait
    intro hopen w hw
    rw [hvalue] at hopen
    cases hshut : g.isOpen s.value with
    | true =>
      rcases openBy_waiters (g := g) s k w with hsame | ⟨-, hwoken⟩
      · exact h.awake hshut w (hsame.symm.trans hw)
      · cases hwoken.symm.trans hw
    | false =>
      have hsignals := g.wakes _ hshut hopen
      unfold Gate.openBy at hw
      rw [if_pos hsignals] at hw
      exact s.wakeAll_ne_waiting w hw

theorem Updated.step (h : g.Updated s) (hs : g.Step s x t) : g.Updated t := by
  cases hs with
  | arrive hw => exact h.setWaiter (by rintro v ⟨⟩) (by rintro - ⟨⟩) s.holder
  | lock hw hfree => exact h.setWaiter (by rintro v ⟨⟩) (by rintro - ⟨⟩) _
  | @pass w hw hopen =>
    refine ⟨h.value, h.done, h.nodup, fun w' v hv => ?_, fun _ w' hv => ?_⟩
    · by_cases heq : w' = w
      · subst heq
        have hread := (GateState.setWaiter_waiters_self s w' _).symm.trans hv
        obtain rfl := WaiterPhase.passed.inj hread
        exact ⟨hopen, _, le_rfl, h.value⟩
      · exact h.passed w' v ((s.setWaiter_waiters_of_ne _ heq).symm.trans hv)
    · by_cases heq : w' = w
      · subst heq
        cases (GateState.setWaiter_waiters_self s w' _).symm.trans hv
      · exact h.awake hopen w' ((s.setWaiter_waiters_of_ne _ heq).symm.trans hv)
  | block hw hshut =>
    exact h.setWaiter (by rintro v ⟨⟩) (fun hopen => by rw [hshut] at hopen; cases hopen) _
  | spurious hw => exact h.setWaiter (by rintro v ⟨⟩) (by rintro - ⟨⟩) s.holder
  | call hk => exact h.setOpener (by rw [hk]; rintro ⟨⟩) (by rintro ⟨⟩) s.holder
  | lockUpdate hk hfree => exact h.setOpener (by rw [hk]; rintro ⟨⟩) (by rintro ⟨⟩) _
  | update hk => exact h.openBy hk

theorem updated_of_run {xs : List (GateStep W K)} (hr : (g.system W K).Run xs s) :
    g.Updated s := by
  apply hr.invariant
  · rintro _ rfl
    exact ⟨rfl, by simp, List.nodup_nil, nofun, fun _ _ => nofun⟩
  · intro s x t h hs
    exact h.step hs

/-! ## The mutex -/

/-- The thread is between a lock of the mutex and its release. -/
def Inside (s : GateState W K V) : GateThread W K → Prop
  | .waiter w => s.waiters w = .testing
  | .opener k => s.openers k = .updating

/-- **What a step does to the mutex**: its thread locks it or releases it, or is outside. -/
inductive MutexStep (s : GateState W K V) (x : GateStep W K) (t : GateState W K V) : Prop
  | lock (θ : GateThread W K) (hx : x.thread = some θ) (free : s.holder = none)
      (held : t.holder = some θ) (inside : ∀ η, Inside t η ↔ η = θ ∨ Inside s η)
  | unlock (θ : GateThread W K) (hx : x.thread = some θ) (hin : Inside s θ)
      (free : t.holder = none) (inside : ∀ η, Inside t η ↔ η ≠ θ ∧ Inside s η)
  | other (same : t.holder = s.holder) (inside : ∀ η, Inside t η ↔ Inside s η)
      (outside : x.thread = none)

omit [DecidableEq K] in
theorem inside_setWaiter (s : GateState W K V) (w : W) (phase : WaiterPhase V)
    (η : GateThread W K) : Inside (s.setWaiter w phase) η ↔
      (η = .waiter w ∧ phase = .testing) ∨ (η ≠ .waiter w ∧ Inside s η) := by
  cases η with
  | waiter w' => by_cases hw : w' = w <;> simp [Inside, hw]
  | opener k => simp [Inside, GateState.setWaiter]

omit [DecidableEq W] in
theorem inside_setOpener (s : GateState W K V) (k : K) (phase : OpenerPhase)
    (η : GateThread W K) : Inside (s.setOpener k phase) η ↔
      (η = .opener k ∧ phase = .updating) ∨ (η ≠ .opener k ∧ Inside s η) := by
  cases η with
  | waiter w => simp [Inside, GateState.setOpener]
  | opener k' => by_cases hk : k' = k <;> simp [Inside, hk]

omit [DecidableEq W] in
theorem inside_openBy (s : GateState W K V) (k : K) (η : GateThread W K) :
    Inside (g.openBy s k) η ↔ η ≠ .opener k ∧ Inside s η := by
  cases η with
  | waiter w =>
    rcases openBy_waiters (g := g) s k w with hsame | ⟨hwaiting, hwoken⟩
    · simp [Inside, hsame]
    · simp [Inside, hwaiting, hwoken]
  | opener k' =>
    obtain ⟨-, -, -, hopeners⟩ := openBy_fields (g := g) s k
    by_cases hk : k' = k <;> simp [Inside, hopeners, hk]

theorem mutexStep_of_step (hs : g.Step s x t) : MutexStep s x t := by
  cases hs with
  | @arrive w hw =>
    refine .other rfl (fun η => (inside_setWaiter s w _ η).trans ?_) rfl
    by_cases hη : η = .waiter w <;> simp [hη, Inside, hw]
  | @spurious w hw =>
    refine .other rfl (fun η => (inside_setWaiter s w _ η).trans ?_) rfl
    by_cases hη : η = .waiter w <;> simp [hη, Inside, hw]
  | @call k hk =>
    refine .other rfl (fun η => (inside_setOpener s k _ η).trans ?_) rfl
    by_cases hη : η = .opener k <;> simp [hη, Inside, hk]
  | @lock w hw hfree =>
    refine .lock (.waiter w) rfl hfree rfl fun η => (inside_setWaiter s w .testing η).trans ?_
    tauto
  | @lockUpdate k hk hfree =>
    refine .lock (.opener k) rfl hfree rfl fun η => (inside_setOpener s k .updating η).trans ?_
    tauto
  | @pass w hw hopen =>
    exact .unlock (.waiter w) rfl hw rfl fun η => (inside_setWaiter s w _ η).trans (by simp)
  | @block w hw hshut =>
    exact .unlock (.waiter w) rfl hw rfl fun η => (inside_setWaiter s w _ η).trans (by simp)
  | @update k hk =>
    exact .unlock (.opener k) rfl hk (openBy_fields s k).2.1 fun η => inside_openBy s k η

omit [DecidableEq W] [DecidableEq K] in
/-- **Mutual exclusion**: the thread inside is the one that holds the mutex. -/
def Held (s : GateState W K V) : Prop := ∀ θ, Inside s θ ↔ s.holder = some θ

theorem Held.step (h : Held s) (hs : g.Step s x t) : Held t := by
  intro η
  rcases mutexStep_of_step hs with ⟨θ, -, hfree, hheld, hin⟩ | ⟨θ, -, hθ, hfree, hin⟩ |
    ⟨hsame, hin, -⟩
  · rw [hin, h η, hfree, hheld]
    simp [eq_comm]
  · -- nobody else was inside
    rw [hin, h η, (h θ).mp hθ, hfree]
    simp [eq_comm]
  · rw [hin, h η, hsame]

theorem held_of_run {xs : List (GateStep W K)} (hr : (g.system W K).Run xs s) : Held s := by
  apply hr.invariant
  · rintro _ rfl θ
    cases θ <;> simp [Inside]
  · intro s x t h hs
    exact h.step hs

/-! ## Fair executions -/

/-- The thread can take a step. -/
def Ready (g : Gate V) (s : GateState W K V) (θ : GateThread W K) : Prop :=
  ∃ x t, x.thread = some θ ∧ g.Step s x t

theorem Held.ready (h : Held s) {θ : GateThread W K} (hθ : s.holder = some θ) :
    g.Ready s θ := by
  have hin := (h θ).mpr hθ
  cases θ with
  | waiter w =>
    cases hopen : g.isOpen s.value with
    | true => exact ⟨.test w, _, rfl, .pass hin hopen⟩
    | false => exact ⟨.test w, _, rfl, .block hin hopen⟩
  | opener k => exact ⟨.update k, _, rfl, .update hin⟩

variable {e : (g.system W K).Execution} {n : ℕ}

/-- **Fairness**: a thread that can take a step again and again takes one. -/
def Fair (e : (g.system W K).Execution) : Prop :=
  ∀ θ, (∀ n, ∃ m ≥ n, g.Ready (e.state m) θ) →
    ∀ n, ∃ m ≥ n, ∃ x, e.label m = some x ∧ x.thread = some θ

theorem Fair.exists_step (hf : Fair e) {θ : GateThread W K}
    (h : ∀ m ≥ n, ∃ k ≥ m, g.Ready (e.state k) θ) :
    ∃ m ≥ n, ∃ x, e.label m = some x ∧ x.thread = some θ := by
  refine hf θ (fun m => ?_) n
  obtain ⟨k, hk, hready⟩ := h (max m n) (le_max_right m n)
  exact ⟨k, (le_max_left m n).trans hk, hready⟩

/-- A run that leaves nobody behind ends a fair execution. -/
theorem exists_fair {xs : List (GateStep W K)} (hr : (g.system W K).Run xs s)
    (hw : ∀ w, s.waiters w = .idle ∨ ∃ v, s.waiters w = .passed v)
    (hk : ∀ k, s.openers k = .idle ∨ s.openers k = .done) :
    ∃ e : (g.system W K).Execution, Fair e ∧ ∀ n ≥ xs.length, e.state n = s := by
  obtain ⟨e, -, hstate⟩ := hr.exists_execution
  have hrest : ∀ θ, ¬ g.Ready s θ := by
    rintro θ ⟨x, t, hx, hs⟩
    cases hs with
    | arrive _ | spurious _ | call _ => cases hx
    | @lock w h _ | @pass w h _ | @block w h _ =>
      rcases hw w with hw | ⟨v, hw⟩ <;> simp [hw] at h
    | @lockUpdate k h _ | @update k h => rcases hk k with hk | hk <;> simp [hk] at h
  refine ⟨e, fun θ h => ?_, hstate⟩
  obtain ⟨m, hm, hready⟩ := h xs.length
  exact absurd (hstate m hm ▸ hready) (hrest θ)

/-- **The mutex is given up.** -/
theorem Fair.leadsTo_released (hf : Fair e) (n : ℕ) : ∃ m ≥ n, (e.state m).holder = none := by
  have hheld := e.invariant fun xs s => held_of_run
  cases hholder : (e.state n).holder with
  | none => exact ⟨n, le_rfl, hholder⟩
  | some θ =>
    have hleads : e.LeadsTo (fun s => s.holder = some θ) fun s => s.holder = none := by
      refine .of_fair (H := fun x => x.thread = some θ) ?_ ?_
      · intro n x hn hx
        rcases mutexStep_of_step (e.step n x hx) with ⟨η, -, hfree, -⟩ | ⟨η, -, -, hfree, -⟩ |
          ⟨hsame, -, hout⟩
        · rw [hn] at hfree
          cases hfree
        · exact .inr hfree
        · exact .inl ⟨hsame.trans hn, by simp [hout]⟩
      · intro n hall
        exact hf.exists_step fun m hm => ⟨m, le_rfl, (hheld m).ready (hall m hm)⟩
    exact hleads n hholder

/-! ## Updates end, and an open gate is passed -/

/-- An update that was called goes on by the steps of its thread. -/
theorem Step.openers (hs : g.Step s x t) {k : K} (hk : s.openers k ≠ .idle) :
    (x.thread ≠ some (.opener k) ∧ t.openers k = s.openers k) ∨
      (s.openers k = .locking ∧ t.openers k = .updating) ∨ t.openers k = .done := by
  have hother {j : K} (phase : OpenerPhase) (heq : k ≠ j) :
      (s.setOpener j phase).openers k = s.openers k := s.setOpener_openers_of_ne phase heq
  cases hs with
  | arrive _ | lock _ _ | pass _ _ | block _ _ | spurious _ => exact .inl ⟨by rintro ⟨⟩, rfl⟩
  | @call j hj => exact .inl ⟨by rintro ⟨⟩, hother _ (by rintro rfl; exact hk hj)⟩
  | @lockUpdate j hj hfree =>
    by_cases heq : k = j
    · subst heq
      exact .inr (.inl ⟨hj, s.setOpener_openers_self k _⟩)
    · exact .inl ⟨by rintro ⟨⟩; exact heq rfl, hother _ heq⟩
  | @update j hj =>
    obtain ⟨-, -, -, hopeners⟩ := openBy_fields (g := g) s j
    by_cases heq : k = j
    · subst heq
      exact .inr (.inr (by rw [hopeners, Function.update_self]))
    · exact .inl ⟨by rintro ⟨⟩; exact heq rfl, by rw [hopeners, Function.update_of_ne heq]⟩

/-- **An update that was called is done.** -/
theorem Fair.leadsTo_done (hf : Fair e) (k : K) :
    e.LeadsTo (fun s => s.openers k ≠ .idle) fun s => s.openers k = .done := by
  have hupdating : e.LeadsTo (fun s => s.openers k = .updating) fun s => s.openers k = .done := by
    refine .of_fair (H := fun x => x.thread = some (.opener k)) ?_ ?_
    · intro n x hn hx
      rcases (e.step n x hx).openers (k := k) (by rw [hn]; rintro ⟨⟩) with ⟨hnot, hsame⟩ |
        ⟨hlocking, -⟩ | hdone
      · exact .inl ⟨hsame.trans hn, hnot⟩
      · rw [hn] at hlocking
        cases hlocking
      · exact .inr hdone
    · intro n hall
      exact hf.exists_step fun m hm => ⟨m, le_rfl, .update k, _, rfl, .update (hall m hm)⟩
  have hlocking : e.LeadsTo (fun s => s.openers k = .locking)
      fun s => s.openers k = .updating ∨ s.openers k = .done := by
    refine .of_fair (H := fun x => x.thread = some (.opener k)) ?_ ?_
    · intro n x hn hx
      rcases (e.step n x hx).openers (k := k) (by rw [hn]; rintro ⟨⟩) with ⟨hnot, hsame⟩ |
        ⟨-, hnext⟩ | hdone
      · exact .inl ⟨hsame.trans hn, hnot⟩
      · exact .inr (.inl hnext)
      · exact .inr (.inr hdone)
    · intro n hall
      apply hf.exists_step
      intro m hm
      obtain ⟨l, hl, hfree⟩ := hf.leadsTo_released m
      exact ⟨l, hl, .lockUpdate k, _, rfl, .lockUpdate (hall l (by omega)) hfree⟩
  intro n hn
  cases hphase : (e.state n).openers k with
  | idle => exact absurd hphase hn
  | updating => exact hupdating n hphase
  | done => exact ⟨n, le_rfl, hphase⟩
  | locking =>
    obtain ⟨m, hm, hnext | hdone⟩ := hlocking n hphase
    · obtain ⟨l, hl, hdone⟩ := hupdating m hnext
      exact ⟨l, hm.trans hl, hdone⟩
    · exact ⟨m, hm, hdone⟩

theorem Step.done (hs : g.Step s x t) {k : K} (hk : s.openers k = .done) :
    t.openers k = .done := by
  rcases hs.openers (k := k) (by rw [hk]; rintro ⟨⟩) with ⟨-, hsame⟩ | ⟨hlocking, -⟩ | hdone
  · exact hsame.trans hk
  · rw [hk] at hlocking
    cases hlocking
  · exact hdone

theorem Step.called (hs : g.Step s x t) {k : K} (hk : s.openers k ≠ .idle) :
    t.openers k ≠ .idle := by
  rcases hs.openers hk with ⟨-, hsame⟩ | ⟨-, hnext⟩ | hdone
  · rwa [hsame]
  · simp [hnext]
  · simp [hdone]

/-- **Updates that were called are done**, all of them at some time. -/
theorem Fair.exists_all_done (hf : Fair e) (ks : Finset K) (n : ℕ)
    (h : ∀ k ∈ ks, (e.state n).openers k ≠ .idle) :
    ∃ m ≥ n, ∀ k ∈ ks, (e.state m).openers k = .done := by
  have hstays {k : K} {n m : ℕ} (hn : (e.state n).openers k = .done) (hm : n ≤ m) :
      (e.state m).openers k = .done :=
    e.stays (P := fun s => s.openers k = .done) (fun n x h hx => (e.step n x hx).done h) hn hm
  induction ks using Finset.induction_on with
  | empty => exact ⟨n, le_rfl, by simp⟩
  | insert k ks _ ih =>
    obtain ⟨m, hm, hks⟩ := ih fun j hj => h j (Finset.mem_insert_of_mem hj)
    obtain ⟨l, hl, hk⟩ := hf.leadsTo_done k n (h k (Finset.mem_insert_self k ks))
    refine ⟨max m l, hm.trans (le_max_left m l), fun j hj => ?_⟩
    rcases Finset.mem_insert.mp hj with rfl | hj
    · exact hstays hk (le_max_right m l)
    · exact hstays (hks j hj) (le_max_left m l)

/-- An open gate stays open. -/
theorem Step.isOpen (hs : g.Step s x t) (h : g.isOpen s.value) : g.isOpen t.value := by
  cases hs with
  | @update k _ =>
    rw [(openBy_fields s k).1]
    exact g.stays _ h
  | arrive _ | lock _ _ | pass _ _ | block _ _ | spurious _ | call _ | lockUpdate _ _ => exact h

/-- Who is not at the gate yet, or has passed it, is not moved by the others. -/
theorem Step.waiters_eq (hs : g.Step s x t) {w : W}
    (hw : s.waiters w = .idle ∨ ∃ v, s.waiters w = .passed v) (hx : x ≠ .arrive w) :
    t.waiters w = s.waiters w := by
  have hother {w' : W} (phase : WaiterPhase V)
      (h : s.waiters w' ≠ .idle ∧ ∀ v, s.waiters w' ≠ .passed v) :
      (s.setWaiter w' phase).waiters w = s.waiters w := by
    refine s.setWaiter_waiters_of_ne phase ?_
    rintro rfl
    rcases hw with hw | ⟨v, hw⟩
    · exact h.1 hw
    · exact h.2 v hw
  cases hs with
  | call _ | lockUpdate _ _ => rfl
  | @arrive w' h => exact s.setWaiter_waiters_of_ne _ fun heq => hx (heq ▸ rfl)
  | lock h _ => exact hother _ (by rcases h with h | h <;> simp [h])
  | pass h _ | block h _ | spurious h => exact hother _ (by simp [h])
  | @update k _ =>
    rcases openBy_waiters (g := g) s k w with hsame | ⟨hwaiting, -⟩
    · exact hsame
    · rcases hw with hw | ⟨v, hw⟩ <;> simp [hw] at hwaiting

/-- Who has passed has passed for good. -/
theorem Step.passed (hs : g.Step s x t) {w : W} {v : V} (hw : s.waiters w = .passed v) :
    t.waiters w = .passed v := by
  refine (hs.waiters_eq (.inr ⟨v, hw⟩) ?_).trans hw
  rintro rfl
  cases hs with
  | arrive h => simp [hw] at h

/-- Nobody passes but by its own step. -/
theorem Step.not_passed (hs : g.Step s x t) {w : W} (hx : x.thread ≠ some (.waiter w))
    (h : ∀ v, s.waiters w ≠ .passed v) (v : V) : t.waiters w ≠ .passed v := by
  have hset {w' : W} {phase : WaiterPhase V} (hphase : ∀ v, phase ≠ .passed v) :
      (s.setWaiter w' phase).waiters w ≠ .passed v := by
    by_cases heq : w = w'
    · rw [heq, GateState.setWaiter_waiters_self]
      exact hphase v
    · rw [GateState.setWaiter_waiters_of_ne s phase heq]
      exact h v
  cases hs with
  | call _ | lockUpdate _ _ => exact h v
  | arrive _ | lock _ _ | block _ _ | spurious _ => exact hset (by rintro v ⟨⟩)
  | @pass w' hw' hopen =>
    have hne : w ≠ w' := by rintro rfl; exact hx rfl
    exact (congrArg (· ≠ _) (s.setWaiter_waiters_of_ne _ hne)).mpr (h v)
  | @update k hk =>
    rcases openBy_waiters (g := g) s k w with hsame | ⟨-, hwoken⟩
    · rw [hsame]
      exact h v
    · rw [hwoken]
      rintro ⟨⟩

/-- The thread of a step has come to the gate and has not passed it. -/
theorem Step.between (hs : g.Step s x t) {w : W} (hx : x.thread = some (.waiter w)) :
    s.waiters w ≠ .idle ∧ ∀ v, s.waiters w ≠ .passed v := by
  cases hs with
  | arrive _ | spurious _ | call _ | lockUpdate _ _ | update _ => cases hx
  | lock h _ => cases hx; rcases h with h | h <;> simp [h]
  | pass h _ | block h _ => cases hx; simp [h]

/-- An update that was not called is not made by the others. -/
theorem Step.openers_eq (hs : g.Step s x t) {k : K} (hk : s.openers k = .idle)
    (hx : x ≠ .call k) : t.openers k = .idle := by
  have hother {j : K} (phase : OpenerPhase) (h : s.openers j ≠ .idle) :
      (s.setOpener j phase).openers k = .idle :=
    (s.setOpener_openers_of_ne phase (by rintro rfl; exact h hk)).trans hk
  cases hs with
  | arrive _ | lock _ _ | pass _ _ | block _ _ | spurious _ => exact hk
  | @call j h => exact (s.setOpener_openers_of_ne _ fun heq => hx (by rw [heq])).trans hk
  | lockUpdate h _ => exact hother _ (by simp [h])
  | @update j h =>
    rw [(openBy_fields s j).2.2.2]
    exact hother .done (by simp [h])

/-- Who has come to the gate stays there, or passes. -/
theorem Step.arrived (hs : g.Step s x t) {w : W} (hw : s.waiters w ≠ .idle) :
    t.waiters w ≠ .idle := by
  have hset {w' : W} {phase : WaiterPhase V} (hphase : phase ≠ .idle) :
      (s.setWaiter w' phase).waiters w ≠ .idle := by
    by_cases heq : w = w'
    · rwa [heq, GateState.setWaiter_waiters_self]
    · rwa [GateState.setWaiter_waiters_of_ne s phase heq]
  cases hs with
  | call _ | lockUpdate _ _ => exact hw
  | arrive _ | lock _ _ | pass _ _ | block _ _ | spurious _ => exact hset (by rintro ⟨⟩)
  | @update k hk =>
    rcases openBy_waiters (g := g) s k w with hsame | ⟨-, hwoken⟩
    · rwa [hsame]
    · rw [hwoken]
      rintro ⟨⟩

/-- A thread at an open gate goes on by its own steps. -/
theorem Step.waiters (hs : g.Step s x t) (h : g.isOpen s.value) {w : W}
    (hw : s.waiters w ≠ .idle) (hawake : s.waiters w ≠ .waiting) :
    (x.thread ≠ some (.waiter w) ∧ t.waiters w = s.waiters w) ∨
      (s.waiters w ≠ .testing ∧ t.waiters w = .testing) ∨ ∃ v, t.waiters w = .passed v := by
  have hother {w' : W} (phase : WaiterPhase V) (heq : w ≠ w') :
      (s.setWaiter w' phase).waiters w = s.waiters w := s.setWaiter_waiters_of_ne phase heq
  cases hs with
  | call _ | lockUpdate _ _ => exact .inl ⟨by rintro ⟨⟩, rfl⟩
  | @update k hk =>
    rcases openBy_waiters (g := g) s k w with hsame | ⟨hwaiting, -⟩
    · exact .inl ⟨by rintro ⟨⟩, hsame⟩
    · exact absurd hwaiting hawake
  | @arrive w' hw' => exact .inl ⟨by rintro ⟨⟩, hother _ (by rintro rfl; exact hw hw')⟩
  | @spurious w' hw' => exact .inl ⟨by rintro ⟨⟩, hother _ (by rintro rfl; exact hawake hw')⟩
  | @lock w' hw' hfree =>
    by_cases heq : w = w'
    · subst heq
      have hnot : s.waiters w ≠ .testing := by rcases hw' with hw' | hw' <;> rw [hw'] <;> rintro ⟨⟩
      exact .inr (.inl ⟨hnot, s.setWaiter_waiters_self w _⟩)
    · exact .inl ⟨by rintro ⟨⟩; exact heq rfl, hother _ heq⟩
  | @pass w' hw' hopen =>
    by_cases heq : w = w'
    · subst heq
      exact .inr (.inr ⟨_, s.setWaiter_waiters_self w _⟩)
    · exact .inl ⟨by rintro ⟨⟩; exact heq rfl, hother _ heq⟩
  | block hw' hshut =>
    rw [h] at hshut
    cases hshut

/-- A thread at an open gate gets from `P` to `Q` by the steps that it is ready for. -/
theorem Fair.leadsTo_waiter (hf : Fair e) (w : W) {P Q : WaiterPhase V → Prop}
    (hidle : ¬ P .idle) (hstep : ∀ phase phase', P phase →
      (phase ≠ .testing ∧ phase' = .testing) ∨ (∃ v, phase' = .passed v) → Q phase')
    (hready : ∀ s : GateState W K V, P (s.waiters w) → s.waiters w ≠ .waiting → g.isOpen s.value →
      s.holder = none → g.Ready s (.waiter w)) :
    e.LeadsTo (fun s => g.isOpen s.value ∧ P (s.waiters w))
      fun s => g.isOpen s.value ∧ Q (s.waiters w) := by
  have hupdated := e.invariant fun xs s => updated_of_run
  have hne {n : ℕ} (hP : P ((e.state n).waiters w)) : (e.state n).waiters w ≠ .idle := by
    intro heq
    rw [heq] at hP
    exact hidle hP
  refine .of_fair (H := fun x => x.thread = some (.waiter w)) ?_ ?_
  · rintro n x ⟨hopen, hP⟩ hx
    have hs := e.step n x hx
    rcases hs.waiters hopen (hne hP) ((hupdated n).awake hopen w) with ⟨hnot, hsame⟩ | hmoved
    · exact .inl ⟨⟨hs.isOpen hopen, hsame ▸ hP⟩, hnot⟩
    · exact .inr ⟨hs.isOpen hopen, hstep _ _ hP hmoved⟩
  · intro n hall
    apply hf.exists_step
    intro m hm
    obtain ⟨l, hl, hfree⟩ := hf.leadsTo_released m
    obtain ⟨hopen, hP⟩ := hall l (by omega)
    exact ⟨l, hl, hready _ hP ((hupdated l).awake hopen w) hopen hfree⟩

/-- **Who comes to an open gate passes.** -/
theorem Fair.leadsTo_passed (hf : Fair e) (w : W) :
    e.LeadsTo (fun s => g.isOpen s.value ∧ s.waiters w ≠ .idle)
      fun s => ∃ v, s.waiters w = .passed v := by
  have hupdated := e.invariant fun xs s => updated_of_run
  have htesting : e.LeadsTo (fun s => g.isOpen s.value ∧ s.waiters w = .testing)
      fun s => g.isOpen s.value ∧ ∃ v, s.waiters w = .passed v := by
    refine hf.leadsTo_waiter w (P := fun phase => phase = .testing)
      (Q := fun phase => ∃ v, phase = .passed v) (by rintro ⟨⟩) ?_ ?_
    · rintro phase phase' hP (⟨hnot, -⟩ | hpassed)
      · exact absurd hP hnot
      · exact hpassed
    · intro s hP _ hopen _
      exact ⟨.test w, _, rfl, .pass hP hopen⟩
  have hlocking : e.LeadsTo
      (fun s => g.isOpen s.value ∧ (s.waiters w = .locking ∨ s.waiters w = .woken))
      fun s => g.isOpen s.value ∧ (s.waiters w = .testing ∨ ∃ v, s.waiters w = .passed v) := by
    refine hf.leadsTo_waiter w (P := fun phase => phase = .locking ∨ phase = .woken)
      (Q := fun phase => phase = .testing ∨ ∃ v, phase = .passed v)
      (by rintro (⟨⟨⟩⟩ | ⟨⟨⟩⟩)) ?_ ?_
    · rintro phase phase' - (⟨-, htesting⟩ | hpassed)
      · exact .inl htesting
      · exact .inr hpassed
    · intro s hP _ _ hfree
      exact ⟨.lock w, _, rfl, .lock hP hfree⟩
  have hlocked : e.LeadsTo
      (fun s => g.isOpen s.value ∧ (s.waiters w = .locking ∨ s.waiters w = .woken))
      fun s => ∃ v, s.waiters w = .passed v := by
    intro n hn
    obtain ⟨m, hm, hopen, hnext | hpassed⟩ := hlocking n hn
    · obtain ⟨l, hl, -, hpassed⟩ := htesting m ⟨hopen, hnext⟩
      exact ⟨l, hm.trans hl, hpassed⟩
    · exact ⟨m, hm, hpassed⟩
  rintro n ⟨hopen, hw⟩
  cases hphase : (e.state n).waiters w with
  | idle => exact absurd hphase hw
  | waiting => exact absurd hphase ((hupdated n).awake hopen w)
  | passed v => exact ⟨n, le_rfl, v, hphase⟩
  | locking => exact hlocked n ⟨hopen, .inl hphase⟩
  | woken => exact hlocked n ⟨hopen, .inr hphase⟩
  | testing =>
    obtain ⟨m, hm, -, hpassed⟩ := htesting n ⟨hopen, hphase⟩
    exact ⟨m, hm, hpassed⟩

end Gate
