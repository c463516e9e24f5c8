import CppServerStudio.Util.Bytes

/-!
# Finding a text

`find` and `rfind` in a text that is written as its parts: a delimiter is found behind a part that
does not have its first byte.

## Main definitions

* `Passes pat u`: `pat` does not begin inside of `u`, whatever stands behind it

## Main results

* `find_first`: the delimiter behind a text is the first one
* `rfind_last`: the byte in front of a text is the last one
* `find_of_passes`: a text is found behind parts that it does not begin in
-/

namespace CppServerStudio

variable {c : Byte} {pat s w : Bytes} {i : ℕ}

theorem find_eq_some_iff :
    find pat s = some i ↔ pat <+: s.drop i ∧ i ≤ s.length ∧ ∀ j < i, ¬ pat <+: s.drop j := by
  rw [find, List.find?_range_eq_some, List.mem_range, Nat.lt_succ_iff, List.isPrefixOf_iff_prefix]
  simp only [Bool.not_eq_true', ← Bool.not_eq_true, List.isPrefixOf_iff_prefix]

/-- Behind fewer bytes than the text has, the first byte is one of the text. -/
theorem not_prefix_drop (h : c ∉ w) {j : ℕ} (hj : j < w.length) (s : Bytes) :
    ¬ c :: pat <+: (w ++ s).drop j := by
  rw [List.drop_append_of_le_length hj.le, List.drop_eq_getElem_cons hj, List.cons_append,
    List.cons_prefix_cons]
  rintro ⟨rfl, -⟩
  exact h (List.getElem_mem hj)

/-- **The delimiter behind a text is found.** -/
theorem find_first (h : c ∉ w) (s : Bytes) :
    find (c :: pat) (w ++ (c :: pat ++ s)) = some w.length := by
  rw [find_eq_some_iff, List.drop_left, List.length_append]
  exact ⟨List.prefix_append _ _, Nat.le_add_right _ _, fun j hj => not_prefix_drop h hj _⟩

/-- The search from the end, as one of the last place. -/
theorem find?_range_reverse {p : ℕ → Bool} {n : ℕ} :
    (List.range n).reverse.find? p = some i ↔ p i ∧ i < n ∧ ∀ j < n, i < j → ¬ p j := by
  induction n with
  | zero => simp
  | succ n ih =>
    rw [List.range_succ, List.reverse_append, List.reverse_singleton, List.singleton_append,
      List.find?_cons]
    cases hp : p n with
    | true =>
      -- the place found is the largest one
      simp only [Option.some.injEq]
      constructor
      · rintro rfl
        exact ⟨hp, Nat.lt_succ_self n, fun j hj hlt => absurd hlt (by omega)⟩
      · rintro ⟨-, hi, hlast⟩
        by_contra hne
        exact hlast n (Nat.lt_succ_self n) (by omega) hp
    | false =>
      rw [ih]
      constructor
      · rintro ⟨hi, hlt, hlast⟩
        refine ⟨hi, by omega, fun j hj hij hpj => ?_⟩
        rcases Nat.lt_succ_iff_lt_or_eq.mp hj with hj | rfl
        · exact hlast j hj hij hpj
        · rw [hp] at hpj
          cases hpj
      · rintro ⟨hi, hlt, hlast⟩
        have hne : i ≠ n := by
          rintro rfl
          rw [hp] at hi
          cases hi
        exact ⟨hi, by omega, fun j hj hij => hlast j (by omega) hij⟩

theorem rfind_eq_some_iff : rfind pat s = some i ↔
    pat <+: s.drop i ∧ i ≤ s.length ∧ ∀ j ≤ s.length, i < j → ¬ pat <+: s.drop j := by
  rw [rfind, find?_range_reverse, List.isPrefixOf_iff_prefix, Nat.lt_succ_iff]
  simp only [List.isPrefixOf_iff_prefix, Nat.lt_succ_iff]

/-- **The byte in front of a text is found last.** -/
theorem rfind_last (h : c ∉ w) (s : Bytes) : rfind [c] (s ++ c :: w) = some s.length := by
  rw [rfind_eq_some_iff, List.drop_left]
  refine ⟨⟨w, rfl⟩, by simp, fun j hj hlt hpre => ?_⟩
  obtain ⟨k, rfl⟩ : ∃ k, j = s.length + (k + 1) := ⟨j - s.length - 1, by omega⟩
  rw [← List.drop_drop, List.drop_left, List.drop_succ_cons] at hpre
  exact h (List.mem_of_mem_drop (hpre.subset List.mem_cons_self))

theorem rfind_none (h : c ∉ s) : rfind (c :: pat) s = none := by
  cases hfind : rfind (c :: pat) s with
  | none => rfl
  | some i =>
    obtain ⟨hpre, -, -⟩ := rfind_eq_some_iff.mp hfind
    exact absurd (List.mem_of_mem_drop (hpre.subset List.mem_cons_self)) h

/-! ## Parts that are passed over -/

/-- **A text does not begin inside of a part**, whatever stands behind the part. -/
def Passes (pat u : Bytes) : Prop :=
  ∀ j < u.length, ¬ pat <+: u.drop j ∧ ¬ u.drop j <+: pat

theorem passes_cons {b : Byte} {u : Bytes} :
    Passes pat (b :: u) ↔ (¬ pat <+: b :: u ∧ ¬ b :: u <+: pat) ∧ Passes pat u := by
  constructor
  · intro h
    refine ⟨h 0 (Nat.succ_pos _), fun j hj => ?_⟩
    exact h (j + 1) (Nat.succ_lt_succ hj)
  · rintro ⟨hfirst, hrest⟩ j hj
    cases j with
    | zero => exact hfirst
    | succ j => exact hrest j (Nat.lt_of_succ_lt_succ hj)

/-- The check of each place in turn. -/
instance decidablePasses (pat : Bytes) : ∀ u, Decidable (Passes pat u)
  | [] => .isTrue fun j hj => absurd hj (Nat.not_lt_zero j)
  | _ :: u =>
    have := decidablePasses pat u
    decidable_of_iff _ passes_cons.symm

theorem Passes.append {u v : Bytes} (hu : Passes pat u) (hv : Passes pat v) :
    Passes pat (u ++ v) := by
  intro j hj
  by_cases hlt : j < u.length
  · rw [List.drop_append_of_le_length hlt.le]
    obtain ⟨hno, hno'⟩ := hu j hlt
    refine ⟨fun h => ?_, fun h => hno' ((List.prefix_append _ v).trans h)⟩
    rcases List.prefix_or_prefix_of_prefix h (List.prefix_append _ v) with h | h
    · exact hno h
    · exact hno' h
  · obtain ⟨k, rfl⟩ : ∃ k, j = u.length + k := ⟨j - u.length, by omega⟩
    rw [← List.drop_drop, List.drop_left]
    exact hv k (by simpa using hj)

theorem passes_of_notMem (h : c ∉ w) : Passes (c :: pat) w := by
  intro j hj
  have hget : w.drop j = w[j] :: w.drop (j + 1) := List.drop_eq_getElem_cons hj
  have hne : w[j] ≠ c := fun heq => h (heq ▸ List.getElem_mem hj)
  rw [hget]
  exact ⟨fun hp => hne (List.cons_prefix_cons.mp hp).1.symm,
    fun hp => hne (List.cons_prefix_cons.mp hp).1⟩

/-- **A text is found** behind parts that it does not begin in. -/
theorem find_of_passes {u : Bytes} (h : Passes pat u) (s : Bytes) :
    find pat (u ++ (pat ++ s)) = some u.length := by
  rw [find_eq_some_iff, List.drop_left, List.length_append]
  refine ⟨List.prefix_append _ _, Nat.le_add_right _ _, fun j hj hp => ?_⟩
  rw [List.drop_append_of_le_length hj.le] at hp
  rcases List.prefix_or_prefix_of_prefix hp (List.prefix_append _ _) with hp | hp
  · exact (h j hj).1 hp
  · exact (h j hj).2 hp

end CppServerStudio
