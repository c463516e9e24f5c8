import Mathlib.Computability.Language
import Mathlib.Tactic

/-!
# Regular languages of tokens

A token is a run of symbols from a class, or begins with a symbol of one class and goes on with
symbols of another. Its language is built from the languages of the classes.

## Main definitions

* `Language.oneOf P`: the words of one symbol with the property `P`
* `Language.word w`: the word `w` alone

## Main results

* `Language.mem_kstar_oneOf`: the runs of symbols with a property
* `Language.mul_kstar_induction`: what holds of a word and of each further factor of a star
-/

open scoped Computability

namespace Language

variable {α : Type*} {P Q : α → Prop} {K L : Language α} {w v : List α}

/-- The words of one symbol with the property `P`. -/
def oneOf (P : α → Prop) : Language α := {w | ∃ x, P x ∧ w = [x]}

/-- The word `w` alone. -/
def word (w : List α) : Language α := {w}

@[simp] theorem mem_oneOf : w ∈ oneOf P ↔ ∃ x, P x ∧ w = [x] := Iff.rfl

@[simp] theorem mem_word : v ∈ word w ↔ v = w := Iff.rfl

theorem self_mem_word (w : List α) : w ∈ word w := rfl

/-- **Runs of a class**: the star of a class holds the words of its symbols. -/
theorem mem_kstar_oneOf : w ∈ (oneOf P)∗ ↔ ∀ x ∈ w, P x := by
  rw [mem_kstar]
  constructor
  · rintro ⟨ws, rfl, hws⟩ x hx
    obtain ⟨u, hu, hxu⟩ := List.mem_flatten.mp hx
    obtain ⟨y, hy, rfl⟩ := hws u hu
    rwa [List.mem_singleton.mp hxu]
  · intro h
    refine ⟨w.map fun x => [x], ?_, ?_⟩
    · rw [← List.flatMap_def, List.flatMap_singleton']
    · rintro _ hu
      obtain ⟨x, hx, rfl⟩ := List.mem_map.mp hu
      exact ⟨x, h x hx, rfl⟩

/-- A symbol of one class, and then a run of another. -/
theorem mem_oneOf_mul_kstar :
    w ∈ oneOf P * (oneOf Q)∗ ↔ ∃ x xs, w = x :: xs ∧ P x ∧ ∀ y ∈ xs, Q y := by
  rw [mem_mul]
  constructor
  · rintro ⟨_, ⟨x, hx, rfl⟩, xs, hxs, rfl⟩
    exact ⟨x, xs, rfl, hx, mem_kstar_oneOf.mp hxs⟩
  · rintro ⟨x, xs, rfl, hx, hxs⟩
    exact ⟨[x], ⟨x, hx, rfl⟩, xs, mem_kstar_oneOf.mpr hxs, rfl⟩

/-- One more factor at the end of a star. -/
theorem append_mem_mul_kstar (hw : w ∈ K * L∗) (hv : v ∈ L) : w ++ v ∈ K * L∗ := by
  obtain ⟨a, ha, _, ⟨ws, rfl, hws⟩, rfl⟩ := mem_mul.mp hw
  rw [List.append_assoc]
  apply append_mem_mul ha
  rw [mem_kstar]
  refine ⟨ws ++ [v], by simp, ?_⟩
  intro u hu
  rcases List.mem_append.mp hu with hu | hu
  · exact hws u hu
  · rwa [List.mem_singleton.mp hu]

/-- **Induction along a star**: what holds of the words of `K`, and is kept by one more factor. -/
theorem mul_kstar_induction {R : List α → Prop} (hnil : ∀ a ∈ K, R a)
    (hsnoc : ∀ a v, a ∈ K * L∗ → R a → v ∈ L → R (a ++ v)) (hw : w ∈ K * L∗) : R w := by
  rw [mem_mul] at hw
  obtain ⟨a, ha, _, ⟨ws, rfl, hws⟩, rfl⟩ := hw
  -- Induction on the factors, from the end.
  induction ws using List.reverseRecOn with
  | nil => simpa using hnil a ha
  | append_singleton ws v ih =>
    have hrest : ∀ u ∈ ws, u ∈ L := fun u hu => hws u (by simp [hu])
    rw [List.flatten_append, List.flatten_singleton, ← List.append_assoc]
    apply hsnoc
    · exact append_mem_mul ha (join_mem_kstar hrest)
    · exact ih hrest
    · exact hws v (by simp)

end Language
