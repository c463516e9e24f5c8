import CppServerStudio.Timer.Kept
import CppServerStudio.Library.Executions

/-!
# `HandleRead` returns

Callbacks may add timers while `HandleRead` runs, but those go to `timers_`, so what is left of
`active_timers_` only shrinks. If every callback returns, `HandleRead` does, and it has called the
callback of every timer that had expired when it began.

## Main definitions

* `HandleReadPhase.stepsLeft`: the steps that `HandleRead` has to make
* `TimerQueue.Fair`: the executions in which the callbacks return

## Main results

* `TimerQueue.Fair.leadsTo_idle`: `HandleRead` returns
* `TimerQueue.Kept.unrun_or_run`: a timer that has expired is left to run until it runs
* `TimerQueue.Fair.runs`: each timer that has expired runs
-/

namespace CppServerStudio

/-- The steps of `HandleRead` until it returns: two for a callback, one for each timer in
`ResetTimers`, and one at the end of each of the loops. -/
def HandleReadPhase.stepsLeft : HandleReadPhase → ℕ
  | idle => 0
  | running _ ran rest => ran.length + 3 * rest.length + 2
  | inCallback _ ran _ rest => ran.length + 3 * rest.length + 4
  | resetting _ rest => rest.length + 1

/-- The steps of `HandleRead` behind its beginning. -/
def TimerAction.GoesOn : TimerAction → Prop
  | callNext | leaveCallback _ | resetNext _ => True
  | _ => False

namespace TimerQueue

variable {s t : TimerQueue} {added : List (ℤ × Interval)} {x : TimerAction}

theorem resetNext_phase {reset rest : List Entry} {entry : Entry} {now : ℤ}
    (hp : s.phase = .resetting reset (entry :: rest)) (ht : s.resetNext now = .ok t) :
    t.phase = .resetting (reset ++ [entry]) rest := by
  rcases resetNext_cons_cases hp ht with ⟨-, rfl⟩ | ⟨-, rfl⟩ <;> rfl

/-- Inside `HandleRead` a step is one of `HandleRead` and brings it nearer to its end, or it leaves
`HandleRead` where it is. -/
theorem stepsLeft_step (hs : timerSystem.step s x t) (hp : s.phase ≠ .idle) :
    (x.GoesOn ∧ t.phase.stepsLeft + 1 = s.phase.stepsLeft) ∨
      (¬ x.GoesOn ∧ t.phase = s.phase) := by
  obtain ⟨he, ha⟩ := hs
  cases he with
  | addTimer timestamp interval now hfresh hp => exact .inr ⟨id, by rw [addTimer_ok ha]⟩
  | expire hfd =>
    obtain rfl := Except.ok.inj ha
    exact .inr ⟨id, rfl⟩
  | handleRead now hidle => exact absurd hidle hp
  | @callNext now ran rest hp =>
    obtain rfl := Except.ok.inj ha
    refine .inl ⟨trivial, ?_⟩
    cases rest with
    | nil =>
      rw [callNext_nil hp, hp]
      rfl
    | cons entry rest =>
      rw [callNext_cons hp, hp]
      simp only [HandleReadPhase.stepsLeft, List.length_cons]
      omega
  | leaveCallback again hp =>
    obtain rfl := Except.ok.inj ha
    refine .inl ⟨trivial, ?_⟩
    rw [leaveCallback_eq hp, hp]
    simp only [HandleReadPhase.stepsLeft, List.length_append, List.length_singleton]
    omega
  | @resetNext reset rest now hp =>
    refine .inl ⟨trivial, ?_⟩
    cases rest with
    | nil =>
      rw [hp]
      rcases resetNext_nil_cases hp ha with ⟨-, rfl⟩ | ⟨entry, spec, -, -, -, rfl⟩ <;> rfl
    | cons entry rest =>
      rw [resetNext_phase hp ha, hp]
      rfl

/-- **A timer that has expired** is left to run until its callback is called. -/
theorem Kept.unrun_or_run (h : s.Kept added) (hs : timerSystem.step s x t) {e : Entry}
    (he : e ∈ s.phase.unrun) :
    (e ∈ t.phase.unrun ∧ (t.timerOf e).id = (s.timerOf e).id) ∨
      ∃ now, t.log = s.log ++ [((s.timerOf e).id, .run now)] := by
  obtain ⟨hen, ha⟩ := hs
  cases hen with
  | @addTimer address timestamp interval now hfresh hp =>
    have hne : e.timer ≠ address := hfresh e (mem_held_of_waiting (.inr he))
    rw [addTimer_ok ha]
    refine .inl ⟨he, ?_⟩
    change (Function.update s.timer address _ e.timer).id = _
    rw [Function.update_of_ne hne, timerOf]
  | expire hfd =>
    obtain rfl := Except.ok.inj ha
    exact .inl ⟨he, rfl⟩
  | handleRead now hp =>
    rw [hp] at he
    cases he
  | @callNext now ran rest hp =>
    obtain rfl := Except.ok.inj ha
    rw [hp] at he
    cases rest with
    | nil => cases he
    | cons entry rest =>
      rw [TimerQueue.callNext_cons hp]
      rcases List.mem_cons.mp he with rfl | he
      · exact .inr ⟨now, rfl⟩
      · exact .inl ⟨he, rfl⟩
  | @leaveCallback now ran entry rest again hp =>
    obtain rfl := Except.ok.inj ha
    rw [hp] at he
    have hmem : e ∈ s.timers.val + ((ran ++ rest : List Entry) : Multiset Entry) :=
      Multiset.mem_add.mpr (.inr (Multiset.mem_coe.mpr (List.mem_append_right _ he)))
    have hne := h.timer_ne (held_inCallback hp) hmem
    rw [leaveCallback_eq hp]
    refine .inl ⟨he, ?_⟩
    change (Function.update s.timer entry.timer _ e.timer).id = _
    rw [Function.update_of_ne hne, timerOf]
  | resetNext now hp =>
    rw [hp] at he
    cases he

/-! ## The record -/

/-- A step only adds to the record. -/
theorem log_step (hs : timerSystem.step s x t) : ∃ steps, t.log = s.log ++ steps := by
  have hsame : s.log = s.log ++ [] := (List.append_nil _).symm
  obtain ⟨he, ha⟩ := hs
  cases he with
  | addTimer timestamp interval now hfresh hp => exact ⟨[], by rw [addTimer_ok ha]; exact hsame⟩
  | expire hfd =>
    obtain rfl := Except.ok.inj ha
    exact ⟨[], hsame⟩
  | handleRead now hp =>
    obtain rfl := Except.ok.inj ha
    exact ⟨[], by rw [handleRead_eq]; exact hsame⟩
  | @callNext now ran rest hp =>
    obtain rfl := Except.ok.inj ha
    cases rest with
    | nil => exact ⟨[], by rw [callNext_nil hp]; exact hsame⟩
    | cons entry rest => exact ⟨_, by rw [callNext_cons hp]⟩
  | leaveCallback again hp =>
    obtain rfl := Except.ok.inj ha
    exact ⟨_, by rw [leaveCallback_eq hp]⟩
  | @resetNext reset rest now hp =>
    change s.resetNext now = .ok t at ha
    cases rest with
    | nil =>
      rcases resetNext_nil_cases hp ha with ⟨-, rfl⟩ | ⟨entry, spec, -, -, -, rfl⟩ <;>
        exact ⟨[], hsame⟩
    | cons entry rest =>
      rcases resetNext_cons_cases hp ha with ⟨-, rfl⟩ | ⟨-, rfl⟩
      · exact ⟨_, rfl⟩
      · exact ⟨[], hsame⟩

/-- The timer `c` is left to run and its callback was called `k` times, or it was called more
often. -/
def RunsPast (c k : ℕ) (s : TimerQueue) : Prop :=
  ((∃ e ∈ s.phase.unrun, (s.timerOf e).id = c) ∧ k = runCount (stepsOf s.log c)) ∨
    k < runCount (stepsOf s.log c)

theorem RunsPast.step {c k : ℕ} (h : s.RunsPast c k) (hk : s.Kept added)
    (hs : timerSystem.step s x t) : t.RunsPast c k := by
  obtain ⟨steps, hlog⟩ := log_step hs
  have hle := runCount_append_le s.log steps c
  rw [← hlog] at hle
  rcases h with ⟨⟨e, he, rfl⟩, rfl⟩ | h
  · rcases hk.unrun_or_run hs he with ⟨he', hid⟩ | ⟨now, hrun⟩
    · rcases hle.eq_or_lt with heq | hlt
      · exact .inl ⟨⟨e, he', hid⟩, heq⟩
      · exact .inr hlt
    · right
      rw [hrun, runCount_snoc_run]
      exact Nat.lt_succ_self _
  · exact .inr (h.trans_le hle)

/-! ## Fair executions -/

variable {e : timerSystem.Execution}

/-- **Fairness**: `HandleRead` does not stop for ever, so callbacks return. -/
def Fair (e : timerSystem.Execution) : Prop :=
  ∀ n, (∀ m ≥ n, (e.state m).phase ≠ .idle) → ∃ m ≥ n, ∃ x, e.label m = some x ∧ x.GoesOn

/-- **`HandleRead` returns.** -/
theorem Fair.leadsTo_idle (hf : Fair e) :
    e.LeadsTo (fun s => s.phase ≠ .idle) fun s => s.phase = .idle := by
  refine .of_rank (fun s => s.phase.stepsLeft) fun k => .of_fair (H := TimerAction.GoesOn) ?_ ?_
  · rintro n x ⟨hp, hk⟩ hx
    rcases stepsLeft_step (e.step n x hx) hp with ⟨-, hless⟩ | ⟨hx, hsame⟩
    · right
      by_cases hidle : (e.state (n + 1)).phase = .idle
      · exact .inl hidle
      · exact .inr ⟨hidle, by omega⟩
    · rw [hsame]
      exact .inl ⟨⟨hp, hk⟩, hx⟩
  · intro n hall
    exact hf n fun m hm => (hall m hm).1

theorem Fair.exists_idle (hf : Fair e) (n : ℕ) : ∃ m ≥ n, (e.state m).phase = .idle := by
  by_cases hp : (e.state n).phase = .idle
  · exact ⟨n, le_rfl, hp⟩
  · exact hf.leadsTo_idle n hp

theorem runCount_le (e : timerSystem.Execution) {n m : ℕ} (hm : n ≤ m) (c : ℕ) :
    runCount (stepsOf (e.state n).log c) ≤ runCount (stepsOf (e.state m).log c) := by
  refine e.stays (P := fun s => runCount (stepsOf (e.state n).log c) ≤ runCount (stepsOf s.log c))
    (fun j x h hx => ?_) le_rfl hm
  obtain ⟨steps, hlog⟩ := log_step (e.step j x hx)
  rw [hlog]
  exact h.trans (runCount_append_le _ _ c)

/-- **Each timer that has expired runs** before `HandleRead` returns. -/
theorem Fair.runs (hf : Fair e) (n : ℕ) : ∃ m ≥ n, (e.state m).phase = .idle ∧
    ∀ c, (∃ entry ∈ (e.state n).phase.unrun, ((e.state n).timerOf entry).id = c) →
      runCount (stepsOf (e.state n).log c) < runCount (stepsOf (e.state m).log c) := by
  obtain ⟨m, hm, hidle⟩ := hf.exists_idle n
  refine ⟨m, hm, hidle, fun c hc => ?_⟩
  have hpast : (e.state m).RunsPast c (runCount (stepsOf (e.state n).log c)) :=
    e.stays (P := RunsPast c (runCount (stepsOf (e.state n).log c)))
      (fun j x h hx => h.step (kept_of_run (e.run_history j)) (e.step j x hx)) (.inl ⟨hc, rfl⟩) hm
  rcases hpast with ⟨⟨entry, hentry, -⟩, -⟩ | hlt
  · rw [hidle] at hentry
    cases hentry
  · exact hlt

end TimerQueue

end CppServerStudio
