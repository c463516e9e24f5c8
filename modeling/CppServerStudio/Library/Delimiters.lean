import Mathlib.Tactic

/-!
# Texts with delimiters

A reader that looks for a delimiter cuts a text at its first occurrence. A delimiter begins with a
symbol that the texts between delimiters do not have, so that it is found where it was written; two
delimiters one behind the other end a list of texts that are not empty.

## Main definitions

* `cutAt pat s`: the texts in front of the first `pat` and behind it
* `splitAll pat n s`: the texts between delimiters, for at most `n` of these

## Main results

* `cutAt_first`: the delimiter behind a text is found
* `cutAt_double`: the double delimiter behind a list of texts is found
* `splitAll_texts`: the texts between delimiters are read back
-/

namespace Delimiters

variable {α : Type*} [DecidableEq α]

/-- The text in front of the first `pat`, and the text behind it. -/
def cutAt (pat : List α) : List α → Option (List α × List α)
  | [] => none
  | a :: s =>
    if pat.isPrefixOf (a :: s) then some ([], (a :: s).drop pat.length)
    else (cutAt pat s).map fun r => (a :: r.1, r.2)

/-- The texts between at most `n` delimiters, and what is behind them. -/
def splitAll (pat : List α) : ℕ → List α → List (List α)
  | 0, s => [s]
  | n + 1, s =>
    match cutAt pat s with
    | none => [s]
    | some (w, rest) => w :: splitAll pat n rest

variable {c : α} {pat sep w s : List α} {ws : List (List α)}

theorem cutAt_self (c : α) (pat s : List α) : cutAt (c :: pat) (c :: pat ++ s) = some ([], s) := by
  have hpre : (c :: pat).isPrefixOf (c :: pat ++ s) = true :=
    List.isPrefixOf_iff_prefix.mpr (List.prefix_append _ _)
  rw [List.cons_append] at hpre ⊢
  rw [cutAt, if_pos hpre, ← List.cons_append, List.drop_left]

theorem cutAt_cons {a : α} (h : ¬ pat <+: a :: s) :
    cutAt pat (a :: s) = (cutAt pat s).map fun r => (a :: r.1, r.2) := by
  rw [cutAt, if_neg (mt List.isPrefixOf_iff_prefix.mp h)]

/-- A text without the first symbol of the delimiter is passed over. -/
theorem cutAt_append (h : c ∉ w) (s : List α) :
    cutAt (c :: pat) (w ++ s) = (cutAt (c :: pat) s).map fun r => (w ++ r.1, r.2) := by
  induction w with
  | nil => simp
  | cons a w ih =>
    rw [List.mem_cons, not_or] at h
    have hno : ¬ c :: pat <+: a :: (w ++ s) := fun hpre => h.1 (List.cons_prefix_cons.mp hpre).1
    rw [List.cons_append, cutAt_cons hno, ih h.2, Option.map_map]
    rfl

/-- **The delimiter behind a text is found.** -/
theorem cutAt_first (h : c ∉ w) (s : List α) :
    cutAt (c :: pat) (w ++ (c :: pat ++ s)) = some (w, s) := by
  rw [cutAt_append h, cutAt_self]
  simp

/-- No delimiter is found in a text without its first symbol. -/
theorem cutAt_none (h : c ∉ w) : cutAt (c :: pat) w = none := by
  have hnil : cutAt (c :: pat) (w ++ []) = (cutAt (c :: pat) []).map _ := cutAt_append h []
  rwa [List.append_nil, cutAt, Option.map_none] at hnil

/-- A delimiter in front of a text that is not empty is no double delimiter. -/
theorem cutAt_double_append (hsep : c ∉ sep) (hne : w ≠ []) (hw : c ∉ w) (s : List α) :
    cutAt (c :: sep ++ (c :: sep)) (c :: sep ++ w ++ s) =
      (cutAt (c :: sep ++ (c :: sep)) s).map fun r => (c :: sep ++ w ++ r.1, r.2) := by
  obtain ⟨a, w, rfl⟩ := List.exists_cons_of_ne_nil hne
  have hno : ¬ c :: sep ++ (c :: sep) <+: c :: sep ++ (a :: w) ++ s := by
    rw [List.append_assoc, List.prefix_append_right_inj, List.cons_append, List.cons_prefix_cons]
    rintro ⟨rfl, -⟩
    exact hw List.mem_cons_self
  have hrest : c ∉ sep ++ (a :: w) := by
    rw [List.mem_append, not_or]
    exact ⟨hsep, hw⟩
  simp only [List.cons_append] at hno ⊢
  rw [cutAt_cons hno, cutAt_append hrest, Option.map_map]
  rfl

/-- **The double delimiter behind a list of texts is found**, if none of them is empty. -/
theorem cutAt_double (hsep : c ∉ sep) (hw : c ∉ w) (hws : ∀ v ∈ ws, v ≠ [] ∧ c ∉ v)
    (s : List α) :
    cutAt (c :: sep ++ (c :: sep))
      (w ++ ws.flatMap (c :: sep ++ ·) ++ (c :: sep ++ (c :: sep) ++ s)) =
        some (w ++ ws.flatMap (c :: sep ++ ·), s) := by
  have htexts : cutAt (c :: sep ++ (c :: sep))
      (ws.flatMap (c :: sep ++ ·) ++ (c :: sep ++ (c :: sep) ++ s)) =
        some (ws.flatMap (c :: sep ++ ·), s) := by
    -- Induction on the texts, each with a delimiter in front of it.
    induction ws with
    | nil => exact cutAt_self c (sep ++ c :: sep) s
    | cons v ws ih =>
      obtain ⟨hne, hv⟩ := hws v List.mem_cons_self
      rw [List.flatMap_cons, List.append_assoc, cutAt_double_append hsep hne hv,
        ih fun u hu => hws u (List.mem_cons_of_mem _ hu)]
      rfl
  rw [List.append_assoc]
  calc cutAt (c :: sep ++ (c :: sep)) (w ++ _)
      = (cutAt (c :: sep ++ (c :: sep)) _).map fun r => (w ++ r.1, r.2) := cutAt_append hw _
    _ = _ := by
      rw [htexts]
      rfl

/-- **The texts between delimiters are read back.** -/
theorem splitAll_texts (hw : c ∉ w) (hws : ∀ v ∈ ws, c ∉ v) {n : ℕ} (hn : ws.length ≤ n) :
    splitAll (c :: pat) n (w ++ ws.flatMap (c :: pat ++ ·)) = w :: ws := by
  induction ws generalizing w n with
  | nil =>
    rw [List.flatMap_nil, List.append_nil]
    cases n with
    | zero => rfl
    | succ n => rw [splitAll, cutAt_none hw]
  | cons v ws ih =>
    obtain ⟨n, rfl⟩ : ∃ k, n = k + 1 := ⟨n - 1, by simp at hn; omega⟩
    rw [List.flatMap_cons, List.append_assoc, splitAll, cutAt_first hw]
    simp only [List.cons.injEq, true_and]
    exact ih (hws v List.mem_cons_self) (fun u hu => hws u (List.mem_cons_of_mem _ hu))
      (by simpa using hn)

end Delimiters
