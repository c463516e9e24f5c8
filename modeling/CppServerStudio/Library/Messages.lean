import Mathlib.Tactic

/-!
# Messages one behind the other

A reader takes the first item off a text and leaves what is behind it. Messages that the reader
recognizes whatever stands behind them are read back one by one, without anything between them.

## Main definitions

* `Reader α β`, `Reader.readAll`: a reader of one item, and of the items up to the end
* `Reader.Reads`: a message that is read as an item whatever stands behind it

## Main results

* `Reader.readAll_flatten`: messages one behind the other
-/

/-- A reader of one item. -/
abbrev Reader (α β : Type*) := List α → Option (β × List α)

namespace Reader

variable {α β : Type*} {read : Reader α β}

/-- At most `n` items, up to the end of the text. -/
def readAll (read : Reader α β) : ℕ → List α → Option (List β)
  | 0, s => if s.isEmpty then some [] else none
  | n + 1, s =>
    if s.isEmpty then some []
    else
      match read s with
      | none => none
      | some (x, rest) => (readAll read n rest).map (x :: ·)

/-- **A message that is read as an item**, whatever stands behind it. -/
structure Reads (read : Reader α β) (m : List α) (x : β) : Prop where
  ne_nil : m ≠ []
  read : ∀ rest, read (m ++ rest) = some (x, rest)

theorem readAll_cons {m : List α} {x : β} (h : read.Reads m x) (n : ℕ) (rest : List α) :
    read.readAll (n + 1) (m ++ rest) = (read.readAll n rest).map (x :: ·) := by
  have hne : (m ++ rest).isEmpty = false := by simp [h.ne_nil]
  rw [readAll, hne, if_neg Bool.false_ne_true, h.read rest]

/-- **Messages one behind the other are read back**, with one round for each. -/
theorem readAll_of_le {ms : List (List α)} {xs : List β} (h : List.Forall₂ read.Reads ms xs)
    {n : ℕ} (hn : ms.length ≤ n) : read.readAll n ms.flatten = some xs := by
  induction h generalizing n with
  | nil => cases n <;> rfl
  | cons hm _ ih =>
    obtain ⟨n, rfl⟩ : ∃ k, n = k + 1 := ⟨n - 1, by simp at hn; omega⟩
    rw [List.flatten_cons, readAll_cons hm, ih (by simpa using hn)]
    rfl

/-- There are no more messages than symbols. -/
theorem length_le_flatten {ms : List (List α)} (h : ∀ m ∈ ms, m ≠ []) :
    ms.length ≤ ms.flatten.length := by
  induction ms with
  | nil => exact le_rfl
  | cons m ms ih =>
    have hm := List.length_pos_of_ne_nil (h m List.mem_cons_self)
    have hms := ih fun m' hm' => h m' (List.mem_cons_of_mem m hm')
    rw [List.flatten_cons, List.length_append, List.length_cons]
    omega

theorem readAll_flatten {ms : List (List α)} {xs : List β} (h : List.Forall₂ read.Reads ms xs) :
    read.readAll ms.flatten.length ms.flatten = some xs := by
  refine readAll_of_le h (length_le_flatten fun m hm => ?_)
  obtain ⟨i, hi, rfl⟩ := List.mem_iff_getElem.mp hm
  exact (h.get hi (h.length_eq ▸ hi)).ne_nil

end Reader
