import CppServerStudio.Timer.TimerQueue

/-!
# The life of a timer

What is asked of a timer is said by a small system of its own, `timerLife`: it waits for its
expiration, its callback runs once that has passed, and then it is finished, or waits again for the
time at which it was restarted plus its interval.

## Main definitions

* `timerLife`: the life of one timer
* `Timer.Lives`: a timer of the queue has lived like this

## Main results

* `runCount_of_oneShot`: the callback of a timer that does not repeat runs once
-/

namespace CppServerStudio

/-! ## One timer -/

/-- The states of a timer: it waits, its callback runs, it waits to be restarted, or it is
finished. -/
inductive TimerPhase
  | waiting (expiration : ℤ)
  | running
  | due
  | finished
  deriving DecidableEq

/-- The steps of a timer. -/
inductive TimerPhase.Step (interval : Interval) : TimerPhase → TimerStep → TimerPhase → Prop
  | run {expiration now : ℤ} (h : expiration < now) :
    Step interval (.waiting expiration) (.run now) .running
  | again (h : interval.positive = true) : Step interval .running (.ret true) .due
  | last {again : Bool} (h : again = false ∨ interval.positive = false) :
    Step interval .running (.ret again) .finished
  | restart (now : ℤ) : Step interval .due (.restart now) (.waiting (now + interval.micros))

/-- **The life of a timer** that is added for the time `timestamp`. -/
def timerLife (timestamp : ℤ) (interval : Interval) : LTS TimerPhase TimerStep where
  init p := p = .waiting timestamp
  step := TimerPhase.Step interval

/-- The number of times the callback of a timer was called. -/
def runCount (steps : List TimerStep) : ℕ :=
  steps.countP fun step => match step with
    | .run _ => true
    | _ => false

/-- A timer that does not repeat waits for its first expiration until its callback runs, once. -/
theorem runCount_of_oneShot {timestamp : ℤ} {interval : Interval} {steps : List TimerStep}
    {p : TimerPhase} (hone : interval.positive = false)
    (hr : (timerLife timestamp interval).Run steps p) :
    (p = .waiting timestamp ∧ runCount steps = 0) ∨
      ((p = .running ∨ p = .finished) ∧ runCount steps = 1) := by
  refine hr.history (I := fun steps p => (p = .waiting timestamp ∧ runCount steps = 0) ∨
    ((p = .running ∨ p = .finished) ∧ runCount steps = 1)) ?_ ?_
  · rintro p rfl
    exact .inl ⟨rfl, rfl⟩
  · intro steps p step q ih hs
    cases hs with
    | run h =>
      rcases ih with ⟨-, hcount⟩ | ⟨h | h, -⟩
      · refine .inr ⟨.inl rfl, ?_⟩
        rw [runCount, List.countP_append]
        change runCount steps + 1 = 1
        rw [hcount]
      · cases h
      · cases h
    | again h => exact absurd (hone.symm.trans h) Bool.false_ne_true
    | last h =>
      rcases ih with ⟨h, -⟩ | ⟨-, hcount⟩
      · cases h
      · refine .inr ⟨.inr rfl, ?_⟩
        rw [runCount, List.countP_append]
        change runCount steps + 0 = 1
        exact hcount
    | restart now => rcases ih with ⟨h, -⟩ | ⟨h | h, -⟩ <;> cases h

/-! ## The record of a timer -/

/-- The timers that a run adds, in order. -/
def TimerAction.added : TimerAction → Option (ℤ × Interval)
  | addTimer _ timestamp interval _ => some (timestamp, interval)
  | _ => none

/-- The steps of one timer in a record of all. -/
def stepsOf (log : List (ℕ × TimerStep)) (c : ℕ) : List TimerStep :=
  log.filterMap fun p => if p.1 = c then some p.2 else none

theorem stepsOf_snoc_self (log : List (ℕ × TimerStep)) (c : ℕ) (step : TimerStep) :
    stepsOf (log ++ [(c, step)]) c = stepsOf log c ++ [step] := by
  simp [stepsOf, List.filterMap_append]

theorem stepsOf_snoc_ne {log : List (ℕ × TimerStep)} {c d : ℕ} (h : d ≠ c) (step : TimerStep) :
    stepsOf (log ++ [(d, step)]) c = stepsOf log c := by
  simp [stepsOf, List.filterMap_append, h]

theorem stepsOf_eq_nil {log : List (ℕ × TimerStep)} {c : ℕ} (h : ∀ p ∈ log, p.1 < c) :
    stepsOf log c = [] := by
  rw [stepsOf, List.filterMap_eq_nil_iff]
  intro p hp
  exact if_neg (h p hp).ne

theorem runCount_snoc_run (log : List (ℕ × TimerStep)) (i : ℕ) (now : ℤ) :
    runCount (stepsOf (log ++ [(i, .run now)]) i) = runCount (stepsOf log i) + 1 := by
  rw [stepsOf_snoc_self, runCount, List.countP_append]
  rfl

theorem runCount_snoc {log : List (ℕ × TimerStep)} {d i : ℕ} {step : TimerStep}
    (h : d ≠ i ∨ ∀ now, step ≠ .run now) :
    runCount (stepsOf (log ++ [(d, step)]) i) = runCount (stepsOf log i) := by
  by_cases hd : d = i
  · subst hd
    rw [stepsOf_snoc_self, runCount, List.countP_append]
    cases step with
    | run now => exact absurd rfl (h.resolve_left (not_not.mpr rfl) now)
    | ret | restart => rfl
  · rw [stepsOf_snoc_ne hd]

theorem runCount_append_le (log steps : List (ℕ × TimerStep)) (c : ℕ) :
    runCount (stepsOf log c) ≤ runCount (stepsOf (log ++ steps) c) := by
  rw [stepsOf, stepsOf, List.filterMap_append, runCount, runCount, List.countP_append]
  exact Nat.le_add_right _ _

/-- The timer `t`, as it was added, has made the steps recorded for it and is in the phase `p`. -/
def Timer.Lives (t : Timer) (added : List (ℤ × Interval)) (log : List (ℕ × TimerStep))
    (p : TimerPhase) : Prop :=
  ∃ timestamp, added[t.id]? = some (timestamp, t.interval) ∧
    (timerLife timestamp t.interval).Run (stepsOf log t.id) p

namespace Timer.Lives

variable {t t' : Timer} {added : List (ℤ × Interval)} {log : List (ℕ × TimerStep)}
  {p q : TimerPhase}

/-- A step of the timer is recorded. -/
theorem snoc {step : TimerStep} (h : t.Lives added log p) (hs : p.Step t.interval step q)
    (hid : t'.id = t.id) (hinterval : t'.interval = t.interval) :
    t'.Lives added (log ++ [(t.id, step)]) q := by
  obtain ⟨timestamp, hadded, hrun⟩ := h
  rw [Timer.Lives, hid, hinterval, stepsOf_snoc_self]
  exact ⟨timestamp, hadded, hrun.snoc hs⟩

/-- A step of another timer is recorded. -/
theorem snoc_ne {step : TimerStep} {d : ℕ} (h : t.Lives added log p) (hne : d ≠ t.id) :
    t.Lives added (log ++ [(d, step)]) p := by
  obtain ⟨timestamp, hadded, hrun⟩ := h
  exact ⟨timestamp, hadded, by rwa [stepsOf_snoc_ne hne]⟩

/-- A timer is added behind it. -/
theorem added_snoc (h : t.Lives added log p) (x : ℤ × Interval) :
    t.Lives (added ++ [x]) log p := by
  obtain ⟨timestamp, hadded, hrun⟩ := h
  obtain ⟨hlt, -⟩ := List.getElem?_eq_some_iff.mp hadded
  exact ⟨timestamp, by rwa [List.getElem?_append_left hlt], hrun⟩

end Timer.Lives

/-- What is known of a timer that waits under `expiration`, of one whose callback runs, and of one
whose callback has run. -/
structure Timer.Waits (t : Timer) (added : List (ℤ × Interval)) (log : List (ℕ × TimerStep))
    (expiration : ℤ) : Prop where
  lives : t.Lives added log (.waiting expiration)
  expiration_eq : t.expiration = expiration
  repeats : t.repeats = t.interval.positive

structure Timer.Runs (t : Timer) (added : List (ℤ × Interval)) (log : List (ℕ × TimerStep)) :
    Prop where
  lives : t.Lives added log .running
  repeats : t.repeats = t.interval.positive

def Timer.Ran (t : Timer) (added : List (ℤ × Interval)) (log : List (ℕ × TimerStep)) : Prop :=
  t.Lives added log (if t.repeats then .due else .finished)

@[simp] theorem Timer.run_id (t : Timer) (again : Bool) : (t.run again).id = t.id := by
  unfold Timer.run
  split <;> rfl

end CppServerStudio
