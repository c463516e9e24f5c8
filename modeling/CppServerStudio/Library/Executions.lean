import CppServerStudio.Library.Runs

/-!
# Executions without end

What must happen, rather than what cannot, is said of executions without end. An execution takes a
step at each tick or pauses, so that a system at rest has executions too. One property leads to
another when the first is always followed by the second.

## Main definitions

* `LTS.Execution M`: an execution of `M` without end
* `LTS.Execution.ofSteps`: finitely many steps, and then a pause for ever
* `LTS.Execution.project`: what an execution does to a part of the state
* `LTS.Execution.history`: the steps taken before a tick
* `LTS.Execution.LeadsTo`: one property of the states is followed by another

## Main results

* `LTS.Run.exists_execution`: an execution that ends with a run
* `LTS.Execution.invariant`: an invariant of the runs holds at each tick
* `LTS.Execution.LeadsTo.of_fair`: a property that lasts until a helpful step is taken
* `LTS.Execution.LeadsTo.of_rank`: a rank that comes down until the second property holds
-/

namespace LTS

variable {σ ι : Type*} {M : LTS σ ι}

/-- **Executions**: at each tick a step, or `none` for a pause. -/
structure Execution (M : LTS σ ι) where
  /-- The state at each tick. -/
  state : ℕ → σ
  /-- The step taken at each tick, if one is. -/
  label : ℕ → Option ι
  start : M.init (state 0)
  pause : ∀ n, label n = none → state (n + 1) = state n
  step : ∀ n x, label n = some x → M.step (state n) x (state (n + 1))

namespace Execution

/-- The execution that takes the steps `xs` and then pauses for ever; `act` is what a step does. -/
def ofSteps (act : σ → ι → σ) (s : σ) (xs : List ι) (hs : M.init s)
    (h : ∀ n x, xs[n]? = some x →
      M.step ((xs.take n).foldl act s) x (act ((xs.take n).foldl act s) x)) : M.Execution where
  state n := (xs.take n).foldl act s
  label n := xs[n]?
  start := by simpa using hs
  pause := by
    intro n hn
    rw [List.take_add_one, hn, Option.toList_none, List.append_nil]
  step := by
    intro n x hx
    rw [List.take_add_one, hx, Option.toList_some, List.foldl_append]
    exact h n x hx

end Execution

/-- A run, and then a pause for ever. -/
theorem Run.exists_execution {xs : List ι} {s : σ} (hr : M.Run xs s) :
    ∃ e : M.Execution, (∀ n, e.label n = xs[n]?) ∧ ∀ n ≥ xs.length, e.state n = s := by
  induction hr with
  | @nil s h =>
    exact ⟨⟨fun _ => s, fun _ => none, h, fun _ _ => rfl, nofun⟩, fun _ => rfl, fun _ _ => rfl⟩
  | @snoc xs s x t hr hs ih =>
    obtain ⟨e, hlabel, hstate⟩ := ih
    -- the state changes behind the last step
    refine ⟨⟨fun n => if n ≤ xs.length then e.state n else t, fun n => (xs ++ [x])[n]?, ?_, ?_, ?_⟩,
      fun _ => rfl, fun n hn => ?_⟩
    · simpa using e.start
    · intro n hn
      have hlen := List.getElem?_eq_none_iff.mp hn
      rw [List.length_append, List.length_singleton] at hlen
      rw [if_neg (by omega), if_neg (by omega)]
    · intro n y hy
      have hlen := (List.getElem?_eq_some_iff.mp hy).1
      rw [List.length_append, List.length_singleton] at hlen
      by_cases hlast : n < xs.length
      · rw [List.getElem?_append_left hlast, ← hlabel] at hy
        rw [if_pos (by omega), if_pos (by omega)]
        exact e.step n y hy
      · obtain rfl : n = xs.length := by omega
        rw [List.getElem?_concat_length] at hy
        obtain rfl := Option.some.inj hy
        rw [if_pos le_rfl, if_neg (by omega), hstate _ le_rfl]
        exact hs
    · rw [List.length_append, List.length_singleton] at hn
      exact if_neg (by omega)

namespace Execution

/-- **A part of the state**: some steps are steps of the part, and the others leave it alone. -/
def project {τ κ : Type*} {N : LTS τ κ} (e : M.Execution) (f : σ → τ) (g : ι → Option κ)
    (h0 : ∀ s, M.init s → N.init (f s))
    (hother : ∀ s x t, M.step s x t → g x = none → f t = f s)
    (hstep : ∀ s x t y, M.step s x t → g x = some y → N.step (f s) y (f t)) : N.Execution where
  state n := f (e.state n)
  label n := (e.label n).bind g
  start := h0 _ e.start
  pause n hn := by
    rcases hx : e.label n with _ | x
    · rw [e.pause n hx]
    · rw [hx] at hn
      exact hother _ x _ (e.step n x hx) hn
  step n y hy := by
    obtain ⟨x, hx, hgx⟩ := Option.bind_eq_some_iff.mp hy
    exact hstep _ x _ y (e.step n x hx) hgx

variable (e : M.Execution)

/-- The steps taken before a tick. -/
def history (n : ℕ) : List ι := (List.range n).filterMap e.label

theorem history_succ (n : ℕ) : e.history (n + 1) = e.history n ++ (e.label n).toList := by
  rw [history, history, List.range_succ, List.filterMap_append]
  rfl

/-- The steps taken before a tick are those taken before an earlier one, and some more. -/
theorem history_append {n m : ℕ} (hm : n ≤ m) : ∃ ys, e.history m = e.history n ++ ys := by
  induction m, hm using Nat.le_induction with
  | base => exact ⟨[], (List.append_nil _).symm⟩
  | succ m _ ih =>
    obtain ⟨ys, hys⟩ := ih
    exact ⟨ys ++ (e.label m).toList, by rw [e.history_succ, hys, List.append_assoc]⟩

/-- What an execution has done by a tick is a run. -/
theorem run_history (n : ℕ) : M.Run (e.history n) (e.state n) := by
  induction n with
  | zero => exact .nil e.start
  | succ n ih =>
    rw [e.history_succ]
    rcases hx : e.label n with _ | x
    · rw [e.pause n hx, Option.toList_none, List.append_nil]
      exact ih
    · exact ih.snoc (e.step n x hx)

/-- An invariant of the runs holds at each tick. -/
theorem invariant {I : σ → Prop} (h : ∀ xs s, M.Run xs s → I s) (n : ℕ) : I (e.state n) :=
  h _ _ (e.run_history n)

/-- What each step keeps holds from then on. -/
theorem stays {P : σ → Prop}
    (hstep : ∀ n x, P (e.state n) → e.label n = some x → P (e.state (n + 1)))
    {n : ℕ} (hn : P (e.state n)) {m : ℕ} (hm : n ≤ m) : P (e.state m) := by
  induction m, hm using Nat.le_induction with
  | base => exact hn
  | succ m _ ih =>
    rcases hx : e.label m with _ | x
    · rw [e.pause m hx]
      exact ih
    · exact hstep m x ih hx

/-- `P` **leads to** `Q`: whenever `P` holds, `Q` holds then or later. -/
def LeadsTo (P Q : σ → Prop) : Prop := ∀ n, P (e.state n) → ∃ m ≥ n, Q (e.state m)

variable {e} {P Q R : σ → Prop}

theorem LeadsTo.trans (h : e.LeadsTo P Q) (h' : e.LeadsTo Q R) : e.LeadsTo P R := by
  intro n hn
  obtain ⟨m, hm, hQ⟩ := h n hn
  obtain ⟨k, hk, hR⟩ := h' m hQ
  exact ⟨k, hm.trans hk, hR⟩

/-- It is enough to lead to `Q` or to a property that leads to it. -/
theorem LeadsTo.or_trans (h : e.LeadsTo P fun s => Q s ∨ R s) (h' : e.LeadsTo Q R) :
    e.LeadsTo P R := by
  intro n hn
  obtain ⟨m, hm, hQ | hR⟩ := h n hn
  · obtain ⟨k, hk, hR⟩ := h' m hQ
    exact ⟨k, hm.trans hk, hR⟩
  · exact ⟨m, hm, hR⟩

/-- **Fairness**: `P` is kept until `Q` holds, a helpful step brings `Q` about, and one is taken if
`P` lasts. -/
theorem LeadsTo.of_fair {H : ι → Prop}
    (hstep : ∀ n x, P (e.state n) → e.label n = some x →
      (P (e.state (n + 1)) ∧ ¬ H x) ∨ Q (e.state (n + 1)))
    (hfair : ∀ n, (∀ m ≥ n, P (e.state m)) → ∃ m ≥ n, ∃ x, e.label m = some x ∧ H x) :
    e.LeadsTo P Q := by
  intro n hn
  by_contra hQ
  push Not at hQ
  -- without `Q`, the property `P` lasts, so a helpful step is taken
  have hP : ∀ m ≥ n, P (e.state m) := by
    intro m hm
    induction m, hm using Nat.le_induction with
    | base => exact hn
    | succ m hm ih =>
      rcases hx : e.label m with _ | x
      · rw [e.pause m hx]
        exact ih
      · rcases hstep m x ih hx with ⟨h, -⟩ | h
        · exact h
        · exact absurd h (hQ (m + 1) (by omega))
  obtain ⟨m, hm, x, hx, hh⟩ := hfair n hP
  rcases hstep m x (hP m hm) hx with ⟨-, h⟩ | h
  · exact h hh
  · exact hQ (m + 1) (by omega) h

/-- **Rank**: a rank that always comes down as long as `Q` does not hold. -/
theorem LeadsTo.of_rank (rank : σ → ℕ)
    (h : ∀ k, e.LeadsTo (fun s => P s ∧ rank s = k) fun s => Q s ∨ (P s ∧ rank s < k)) :
    e.LeadsTo P Q := by
  intro n hn
  -- Induction on the rank at the tick.
  induction hk : rank (e.state n) using Nat.strong_induction_on generalizing n with
  | _ k ih =>
    obtain ⟨m, hm, hQ | ⟨hP, hlt⟩⟩ := h k n ⟨hn, hk⟩
    · exact ⟨m, hm, hQ⟩
    · obtain ⟨l, hl, hQ⟩ := ih _ hlt m hP rfl
      exact ⟨l, hm.trans hl, hQ⟩

end Execution

end LTS
