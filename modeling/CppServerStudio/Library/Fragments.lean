import Mathlib.Tactic

/-!
# Fragments

A list is cut into fragments of a fixed size, of which only the last may be smaller. A list that
fits the size is one fragment, also when it is empty.

## Main definitions

* `fragments n xs`: the fragments of `xs` of size `n + 1`

## Main results

* `flatten_fragments`: the fragments of a list are its parts in order
-/

namespace Fragments

variable {α : Type*}

/-- **The fragments** of `xs` of size `n + 1`. -/
def fragments (n : ℕ) (xs : List α) : List (List α) :=
  if xs.length ≤ n + 1 then [xs] else xs.take (n + 1) :: fragments n (xs.drop (n + 1))
termination_by xs.length
decreasing_by
  rw [List.length_drop]
  omega

variable {n : ℕ} {xs : List α}

theorem fragments_of_le (h : xs.length ≤ n + 1) : fragments n xs = [xs] := by
  rw [fragments, if_pos h]

theorem fragments_of_lt (h : n + 1 < xs.length) :
    fragments n xs = xs.take (n + 1) :: fragments n (xs.drop (n + 1)) := by
  rw [fragments, if_neg (by omega)]

theorem fragments_ne_nil : fragments n xs ≠ [] := by
  rw [fragments]
  split_ifs <;> simp

/-- Induction along the fragments of a list. -/
theorem fragments_induction {P : List α → Prop} (hlast : ∀ xs, xs.length ≤ n + 1 → P xs)
    (hmore : ∀ xs, n + 1 < xs.length → P (xs.drop (n + 1)) → P xs) (xs : List α) : P xs := by
  induction hlen : xs.length using Nat.strong_induction_on generalizing xs with
  | _ m ih =>
    by_cases h : xs.length ≤ n + 1
    · exact hlast xs h
    · refine hmore xs (by omega) (ih _ ?_ _ rfl)
      rw [List.length_drop]
      omega

/-- **The fragments of a list are its parts in order.** -/
theorem flatten_fragments : (fragments n xs).flatten = xs := by
  induction xs using fragments_induction (n := n) with
  | hlast xs h => rw [fragments_of_le h, List.flatten_singleton]
  | hmore xs h ih => rw [fragments_of_lt h, List.flatten_cons, ih, List.take_append_drop]

theorem length_le_of_mem_fragments {ys : List α} (h : ys ∈ fragments n xs) :
    ys.length ≤ n + 1 := by
  induction xs using fragments_induction (n := n) with
  | hlast xs hle =>
    rw [fragments_of_le hle, List.mem_singleton] at h
    rwa [h]
  | hmore xs hlt ih =>
    rw [fragments_of_lt hlt, List.mem_cons] at h
    rcases h with rfl | h
    · exact List.length_take_le _ _
    · exact ih h

end Fragments
