import Mathlib.Tactic

/-!
# Blocks of a list

Writing a block over a part of a list, and copying a part of a list to an earlier position one
element at a time, as an in-place loop does. The copy may overlap its source: since it goes
forward and its target is not behind its source, it never reads an element it has overwritten.

## Main definitions

* `overwrite xs i ys`: the list `xs` with the block `ys` written at `i`
* `copyForward xs src dst n`: the in-place copy loop

## Main results

* `copyForward_eq_overwrite`: a forward copy to an earlier position copies the original block
-/

namespace Blocks

variable {α : Type*}

/-- The list `xs` with the block `ys` written over the positions from `i` on. -/
def overwrite (xs : List α) (i : ℕ) (ys : List α) : List α :=
  xs.take i ++ ys ++ xs.drop (i + ys.length)

@[simp] theorem length_overwrite {xs ys : List α} {i : ℕ} (h : i + ys.length ≤ xs.length) :
    (overwrite xs i ys).length = xs.length := by
  simp only [overwrite, List.length_append, List.length_take, List.length_drop]
  omega

/-- The block that was written is read back. -/
theorem extract_overwrite {xs ys : List α} {i : ℕ} (h : i ≤ xs.length) :
    (overwrite xs i ys).extract i (i + ys.length) = ys := by
  rw [overwrite, List.extract_eq_take_drop, List.append_assoc, List.drop_append]
  simp [h]

/-- A block that ends where the written one begins is extended by it. -/
theorem extract_overwrite_right {xs ys : List α} {i j : ℕ} (hij : i ≤ j) (hj : j ≤ xs.length) :
    (overwrite xs j ys).extract i (j + ys.length) = xs.extract i j ++ ys := by
  have htake : (xs.take j).length = j := by simp [hj]
  rw [overwrite, List.extract_eq_take_drop, List.extract_eq_take_drop, List.append_assoc,
    List.drop_append_of_le_length (by omega), ← List.append_assoc, List.take_append_of_le_length]
  · rw [List.take_of_length_le (by simp; omega), List.drop_take]
  · simp
    omega

/-- A block that begins where the written one ends is extended by it. -/
theorem extract_overwrite_left {xs : List α} (ys : List α) {i : ℕ} (j : ℕ) (hi : i ≤ xs.length) :
    (overwrite xs i ys).extract i (i + ys.length + j) =
      ys ++ xs.extract (i + ys.length) (i + ys.length + j) := by
  have htake : (xs.take i).length = i := by simp [hi]
  rw [overwrite, List.extract_eq_take_drop, List.extract_eq_take_drop, List.append_assoc,
    List.drop_append, htake, show i + ys.length + j - (i + ys.length) = j by omega]
  simp [Nat.add_assoc, List.take_append, List.take_of_length_le]

/-- A block that is written inside an extract is written to the extract. -/
theorem extract_overwrite_within {xs ys : List α} {r w i : ℕ} (hw : w ≤ xs.length)
    (hfit : r + i + ys.length ≤ w) :
    (overwrite xs (r + i) ys).extract r w = overwrite (xs.extract r w) i ys := by
  have hlen : ((xs.drop r).take i ++ ys).length = i + ys.length := by
    rw [List.length_append, List.length_take, List.length_drop]
    omega
  have hfront : (xs.take (r + i) ++ ys ++ xs.drop (r + i + ys.length)).drop r =
      (xs.drop r).take i ++ ys ++ xs.drop (r + i + ys.length) := by
    rw [List.append_assoc, List.drop_append_of_le_length (by rw [List.length_take]; omega),
      List.drop_take, Nat.add_sub_cancel_left, List.append_assoc]
  rw [overwrite, overwrite, List.extract_eq_take_drop, List.extract_eq_take_drop, hfront,
    List.take_append, hlen, List.take_of_length_le (by omega), List.take_take, List.drop_take,
    List.drop_drop, show min i (w - r) = i by omega, ← Nat.add_assoc, Nat.sub_sub]

/-- Writing to the front of what is left of a list. -/
theorem overwrite_append_replicate {xs ys : List α} {x : α} {k : ℕ} :
    overwrite (xs ++ List.replicate k x) xs.length ys =
      xs ++ ys ++ List.replicate (k - ys.length) x := by
  rw [overwrite, List.take_left, List.drop_append]
  simp [List.drop_replicate]

/-- **The copy loop**: `n` elements from `src` on are stored from `dst` on, one at a time. -/
def copyForward (xs : List α) (src dst : ℕ) : ℕ → List α
  | 0 => xs
  | n + 1 => match xs[src]? with
    | none => xs
    | some x => copyForward (xs.set dst x) (src + 1) (dst + 1) n

@[simp] theorem length_copyForward (xs : List α) (src dst n : ℕ) :
    (copyForward xs src dst n).length = xs.length := by
  induction n generalizing xs src dst with
  | zero => rfl
  | succ n ih =>
    rw [copyForward]
    split
    · rfl
    · rw [ih, List.length_set]

/-- **A forward copy to an earlier position copies the original block**, overlapping or not. -/
theorem copyForward_eq_overwrite {xs : List α} {src dst n : ℕ} (hdst : dst ≤ src)
    (hn : src + n ≤ xs.length) :
    copyForward xs src dst n = overwrite xs dst (xs.extract src (src + n)) := by
  induction n generalizing xs src dst with
  | zero => simp [copyForward, overwrite]
  | succ n ih =>
    have hsrc : src < xs.length := by omega
    have hread : xs[src]? = some xs[src] := List.getElem?_eq_getElem hsrc
    rw [copyForward, hread]
    simp only
    rw [ih (by omega) (by simp; omega)]
    -- the element just stored is before the rest of the source
    have hrest : (xs.set dst xs[src]).extract (src + 1) (src + 1 + n) =
        xs.extract (src + 1) (src + 1 + n) := by
      rw [List.extract_eq_take_drop, List.extract_eq_take_drop, List.drop_set_of_lt (by omega)]
    have hblock : xs.extract src (src + (n + 1)) =
        xs[src] :: xs.extract (src + 1) (src + 1 + n) := by
      rw [List.extract_eq_take_drop, List.extract_eq_take_drop, List.drop_eq_getElem_cons hsrc,
        show src + (n + 1) - src = n + 1 by omega, List.take_succ_cons,
        show src + 1 + n - (src + 1) = n by omega]
    have hlen : (xs.extract (src + 1) (src + 1 + n)).length = n := by
      simp only [List.extract_eq_take_drop, List.length_take, List.length_drop]
      omega
    rw [hrest, hblock, overwrite, overwrite, List.length_cons, hlen,
      List.drop_set_of_lt (by omega), List.take_set, List.take_succ_eq_append_getElem (by omega),
      List.set_append_right _ _ (by simp)]
    simp [Nat.add_comm 1 n, Nat.add_assoc, show min dst xs.length = dst by omega]

end Blocks
