import Mathlib.Tactic

/-!
# Runs of labelled transition systems

A labelled transition system has initial states and steps. Its runs are the finite sequences of
labels it can take from an initial state. Whatever holds initially and is kept by each step holds
at the end of every run. What a system may still do is said of the steps from a state on.

## Main definitions

* `LTS σ ι`: a labelled transition system
* `LTS.Run M xs s`: the labels `xs` take `M` to the state `s`
* `LTS.Steps M s xs t`: the labels `xs` take `M` from `s` to `t`
* `LTS.CanReach M L s Q`: some steps with labels in `L` lead from `s` to a state with `Q`
* `LTS.restrict M P`: the steps of `M` that meet the condition `P` on the state and the label

## Main results

* `LTS.Run.history`: an invariant of the labels taken and the state reached
* `LTS.Run.invariant`: an invariant of the state reached
* `LTS.Run.split`, `LTS.Run.of_snoc`: the state before a step of a run
* `LTS.Run.project`: the runs of a system as runs of another one
* `LTS.Steps.history`: an invariant of the steps from a state on
* `LTS.Run.exists_step`: the step of a run that makes a property true
* `LTS.CanReach.of_rank`: a rank that some step brings down until `Q` holds
* `LTS.CanReach.lift`: steps that another system can follow
-/

/-- A labelled transition system with states `σ` and labels `ι`. -/
structure LTS (σ ι : Type*) where
  /-- The initial states. -/
  init : σ → Prop
  /-- `step s x t`: the label `x` may take `s` to `t`. -/
  step : σ → ι → σ → Prop

namespace LTS

variable {σ ι : Type*} {M : LTS σ ι}

/-- **Runs**: the labels `xs`, in order, take an initial state of `M` to `s`. -/
inductive Run (M : LTS σ ι) : List ι → σ → Prop
  | nil {s} (h : M.init s) : Run M [] s
  | snoc {xs s x t} (hr : Run M xs s) (hs : M.step s x t) : Run M (xs ++ [x]) t

/-- An invariant of the history and the state holds along every run. -/
theorem Run.history {I : List ι → σ → Prop} (h0 : ∀ s, M.init s → I [] s)
    (hstep : ∀ xs s x t, I xs s → M.step s x t → I (xs ++ [x]) t) {xs : List ι} {s : σ}
    (hr : M.Run xs s) : I xs s := by
  induction hr with
  | nil h => exact h0 _ h
  | snoc _ hs ih => exact hstep _ _ _ _ ih hs

/-- An invariant of the state holds along every run. -/
theorem Run.invariant {I : σ → Prop} (h0 : ∀ s, M.init s → I s)
    (hstep : ∀ s x t, I s → M.step s x t → I t) {xs : List ι} {s : σ} (hr : M.Run xs s) : I s :=
  hr.history (I := fun _ s => I s) h0 fun _ s x t => hstep s x t

/-- **Restriction**: the steps that meet a condition on the state before them. -/
def restrict (M : LTS σ ι) (P : σ → ι → Prop) : LTS σ ι where
  init := M.init
  step s x t := P s x ∧ M.step s x t

/-- A run passes through a state before each of its steps. -/
theorem Run.split {zs xs ys : List ι} {x : ι} {s : σ} (hr : M.Run zs s) (h : zs = xs ++ x :: ys) :
    ∃ t t', M.Run xs t ∧ M.step t x t' := by
  induction hr generalizing ys with
  | nil => simp at h
  | snoc hr hs ih =>
    rcases List.eq_nil_or_concat ys with rfl | ⟨ys, y, rfl⟩
    · -- the last step
      obtain ⟨rfl, hx⟩ := List.append_inj' h rfl
      obtain rfl := List.singleton_inj.mp hx
      exact ⟨_, _, hr, hs⟩
    · rw [List.concat_eq_append, ← List.cons_append, ← List.append_assoc] at h
      exact ih (List.append_inj' h rfl).1

/-- The state before the last step of a run. -/
theorem Run.of_snoc {xs : List ι} {x : ι} {t : σ} (hr : M.Run (xs ++ [x]) t) :
    ∃ s, M.Run xs s ∧ M.step s x t := by
  generalize hzs : xs ++ [x] = zs at hr
  cases hr with
  | nil => simp at hzs
  | snoc hr hs =>
    obtain ⟨rfl, hx⟩ := List.append_inj' hzs rfl
    obtain rfl := List.singleton_inj.mp hx
    exact ⟨_, hr, hs⟩

/-- **Refinement**: a run is seen as a run of another system, if each of its steps is seen as a step
of that or not at all. -/
theorem Run.project {τ κ : Type*} {N : LTS τ κ} {f : σ → τ} (h0 : ∀ s, M.init s → N.init (f s))
    (hstep : ∀ xs s x t, M.Run xs s → M.step s x t → f t = f s ∨ ∃ y, N.step (f s) y (f t))
    {xs : List ι} {s : σ} (hr : M.Run xs s) : ∃ ys, N.Run ys (f s) := by
  induction hr with
  | nil h => exact ⟨[], .nil (h0 _ h)⟩
  | snoc hr hs ih =>
    obtain ⟨ys, hr'⟩ := ih
    rcases hstep _ _ _ _ hr hs with heq | ⟨y, hy⟩
    · exact ⟨ys, heq ▸ hr'⟩
    · exact ⟨ys ++ [y], hr'.snoc hy⟩

/-! ## Steps from a state on -/

/-- **Steps**: the labels `xs`, in order, take `s` to `t`. -/
inductive Steps (M : LTS σ ι) (s : σ) : List ι → σ → Prop
  | nil : Steps M s [] s
  | snoc {xs t x u} (h : Steps M s xs t) (hs : M.step t x u) : Steps M s (xs ++ [x]) u

variable {s t : σ}

theorem Steps.single {x : ι} (hs : M.step s x t) : M.Steps s [x] t := .snoc .nil hs

theorem Steps.trans {xs ys : List ι} {u : σ} (h : M.Steps s xs t) (h' : M.Steps t ys u) :
    M.Steps s (xs ++ ys) u := by
  induction h' with
  | nil => rwa [List.append_nil]
  | snoc _ hs ih =>
    rw [← List.append_assoc]
    exact ih.snoc hs

/-- The first steps lead somewhere, too. -/
theorem Steps.of_append {xs ys : List ι} (h : M.Steps s (xs ++ ys) t) : ∃ u, M.Steps s xs u := by
  induction ys using List.reverseRecOn generalizing t with
  | nil => exact ⟨t, by rwa [List.append_nil] at h⟩
  | append_singleton ys y ih =>
    rw [← List.append_assoc] at h
    generalize hzs : xs ++ ys ++ [y] = zs at h
    cases h with
    | nil => simp at hzs
    | snoc h hs =>
      obtain ⟨rfl, -⟩ := List.append_inj' hzs rfl
      exact ih h

/-- A run goes on with the steps from its state. -/
theorem Run.append {xs ys : List ι} (hr : M.Run xs s) (h : M.Steps s ys t) :
    M.Run (xs ++ ys) t := by
  induction h with
  | nil => rwa [List.append_nil]
  | snoc _ hs ih =>
    rw [← List.append_assoc]
    exact ih.snoc hs

/-- An invariant of the steps taken and the state reached. -/
theorem Steps.history {I : List ι → σ → Prop} (h0 : I [] s)
    (hstep : ∀ xs t x u, I xs t → M.step t x u → I (xs ++ [x]) u) {xs : List ι}
    (h : M.Steps s xs t) : I xs t := by
  induction h with
  | nil => exact h0
  | snoc _ hs ih => exact hstep _ _ _ _ ih hs

/-- What does not hold initially and holds at the end of a run is **made true by a step** of it. -/
theorem Run.exists_step {P : σ → Prop} (h0 : ∀ s, M.init s → ¬ P s) {zs : List ι}
    (hr : M.Run zs s) (hP : P s) : ∃ xs t x t' ys, zs = xs ++ x :: ys ∧ M.Run xs t ∧ ¬ P t ∧
      M.step t x t' ∧ P t' ∧ M.Steps t' ys s := by
  induction hr with
  | nil h => exact absurd hP (h0 _ h)
  | @snoc zs t x s hr hs ih =>
    by_cases hPt : P t
    · obtain ⟨xs, t₀, y, t₁, ys, rfl, hrun, hnP, hy, hP₁, hsteps⟩ := ih hPt
      exact ⟨xs, t₀, y, t₁, ys ++ [x], by simp, hrun, hnP, hy, hP₁, hsteps.snoc hs⟩
    · exact ⟨zs, t, x, s, [], rfl, hr, hPt, hs, hP, .nil⟩

/-- A state with `Q` **can be reached** by steps with labels in `L`. -/
def CanReach (M : LTS σ ι) (L : ι → Prop) (s : σ) (Q : σ → Prop) : Prop :=
  ∃ xs t, M.Steps s xs t ∧ (∀ x ∈ xs, L x) ∧ Q t

namespace CanReach

variable {L : ι → Prop} {P Q R : σ → Prop}

theorem refl (h : Q s) : M.CanReach L s Q := ⟨[], s, .nil, by simp, h⟩

theorem of_step {x : ι} (hL : L x) (hs : M.step s x t) (h : Q t) : M.CanReach L s Q :=
  ⟨[x], t, .single hs, by simpa using hL, h⟩

theorem trans (h : M.CanReach L s Q) (h' : ∀ t, Q t → M.CanReach L t R) : M.CanReach L s R := by
  obtain ⟨xs, t, hsteps, hL, hQ⟩ := h
  obtain ⟨ys, u, hsteps', hL', hR⟩ := h' t hQ
  refine ⟨xs ++ ys, u, hsteps.trans hsteps', ?_, hR⟩
  intro x hx
  rcases List.mem_append.mp hx with hx | hx
  · exact hL x hx
  · exact hL' x hx

/-- **Rank**: as long as `Q` does not hold, some step keeps `P` and brings a rank down. -/
theorem of_rank (rank : σ → ℕ)
    (h : ∀ s, P s → ¬ Q s → ∃ x t, L x ∧ M.step s x t ∧ P t ∧ rank t < rank s) (hs : P s) :
    M.CanReach L s fun t => P t ∧ Q t := by
  -- Induction on the rank of the state.
  induction hk : rank s using Nat.strong_induction_on generalizing s with
  | _ k ih =>
    by_cases hQ : Q s
    · exact refl ⟨hs, hQ⟩
    · obtain ⟨x, t, hL, hstep, hP, hlt⟩ := h s hs hQ
      subst hk
      exact (of_step hL hstep rfl).trans (by rintro _ rfl; exact ih _ hlt hP rfl)

/-- **Simulation**: what can be reached can be reached by another system that follows the steps. -/
theorem lift {τ κ : Type*} {N : LTS τ κ} {f : ι → κ} {S : σ → τ → Prop}
    (hstep : ∀ s s' x t, S s s' → L x → M.step s x t → ∃ t', N.step s' (f x) t' ∧ S t t')
    {s' : τ} (hs : S s s') (h : M.CanReach L s Q) :
    N.CanReach (fun _ => True) s' fun t' => ∃ t, S t t' ∧ Q t := by
  obtain ⟨xs, t, hsteps, hL, hQ⟩ := h
  have hfollow : ∃ t', N.Steps s' (xs.map f) t' ∧ S t t' := by
    clear hQ
    induction hsteps with
    | nil => exact ⟨s', .nil, hs⟩
    | snoc _ hx ih =>
      obtain ⟨t', hsteps', hS⟩ := ih fun x hx => hL x (List.mem_append_left _ hx)
      obtain ⟨u', hx', hS'⟩ := hstep _ _ _ _ hS (hL _ (by simp)) hx
      refine ⟨u', ?_, hS'⟩
      rw [List.map_append]
      exact hsteps'.snoc hx'
  obtain ⟨t', hsteps', hS⟩ := hfollow
  exact ⟨_, t', hsteps', fun _ _ => trivial, t, hS, hQ⟩

end CanReach

end LTS
