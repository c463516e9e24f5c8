import Mathlib.Tactic

/-!
# The most recent entries of a history

A history is a list of entries, each with a key. Of the entries with one key, the last one counts.
An ordered map that drops the entry with the smallest key, when it has no more room, holds the most
recent entries as long as the smallest key is the oldest one.

## Main definitions

* `Recents.newest`: the last entry of each key, the newest first
* `Recents.recents n`: the `n` first ones of them
* `Recents.eraseBegin`: an ordered map without its smallest key
* `Recents.DropsOldest n h k`: behind the history `h`, the key `k` pushes out the oldest key

## Main results

* `Recents.recents_snoc_of_mem`, `Recents.recents_snoc_of_notMem`: the recent entries after one more
* `Recents.insert_ofList_recents`: the map after one more entry
-/

namespace Recents

section Lists

variable {K V : Type*}

/-- The keys of some entries. -/
def keys (l : List (K × V)) : List K := l.map Prod.fst

theorem mem_keys_of_mem {e : K × V} {l : List (K × V)} (he : e ∈ l) : e.1 ∈ keys l :=
  List.mem_map_of_mem he

variable [DecidableEq K] {h l : List (K × V)} {e p : K × V} {k : K} {n : ℕ}

/-- The entries of the other keys. -/
def without (k : K) (l : List (K × V)) : List (K × V) := l.filter fun p => p.1 ≠ k

theorem mem_without : p ∈ without k l ↔ p ∈ l ∧ p.1 ≠ k := by
  rw [without, List.mem_filter, decide_eq_true_eq]

theorem without_cons_self : without e.1 (e :: l) = without e.1 l :=
  List.filter_cons_of_neg (by simp)

theorem without_cons_of_ne (he : e.1 ≠ k) : without k (e :: l) = e :: without k l :=
  List.filter_cons_of_pos (decide_eq_true he)

theorem without_of_notMem (hk : k ∉ keys l) : without k l = l := by
  rw [without, List.filter_eq_self]
  intro p hp
  rw [decide_eq_true_eq]
  rintro rfl
  exact hk (mem_keys_of_mem hp)

/-- The first entries without a key. -/
theorem take_without (hl : (keys l).Nodup) : (without k l).take n =
    if k ∈ keys (l.take (n + 1)) then without k (l.take (n + 1)) else l.take n := by
  induction l generalizing n with
  | nil => simp [keys, without]
  | cons e l ih =>
    rw [keys, List.map_cons, List.nodup_cons] at hl
    obtain ⟨he, hl⟩ := hl
    by_cases hek : e.1 = k
    · -- the only entry with the key is the first one, and one more follows it
      subst hek
      have htake : e.1 ∉ keys (l.take n) := fun hmem =>
        he (((List.take_sublist n l).map Prod.fst).subset hmem)
      rw [List.take_succ_cons, if_pos (mem_keys_of_mem List.mem_cons_self), without_cons_self,
        without_cons_self, without_of_notMem he, without_of_notMem htake]
    · have hmem : ∀ l' : List (K × V), k ∈ keys (e :: l') ↔ k ∈ keys l' := by
        intro l'
        rw [keys, List.map_cons, List.mem_cons]
        exact or_iff_right (Ne.symm hek)
      rw [without_cons_of_ne hek, List.take_succ_cons]
      cases n with
      | zero =>
        have hnot : k ∉ keys (e :: l.take 0) := (hmem _).not.mpr List.not_mem_nil
        rw [if_neg hnot, List.take_zero, List.take_zero]
      | succ n =>
        rw [List.take_succ_cons, ih hl, List.take_succ_cons, without_cons_of_ne hek]
        simp only [hmem]
        split <;> rfl

/-! ## Recent entries -/

/-- The last entry of each key, the newest first. -/
def newest (h : List (K × V)) : List (K × V) := h.foldl (fun kept e => e :: without e.1 kept) []

/-- **The most recent entries** of a history, of at most `n` keys. -/
def recents (n : ℕ) (h : List (K × V)) : List (K × V) := (newest h).take n

theorem newest_snoc : newest (h ++ [e]) = e :: without e.1 (newest h) := by
  rw [newest, List.foldl_append]
  rfl

theorem nodup_keys_newest : (keys (newest h)).Nodup := by
  induction h using List.reverseRecOn with
  | nil => exact List.nodup_nil
  | append_singleton h e ih =>
    rw [newest_snoc, keys, List.map_cons, List.nodup_cons]
    constructor
    · intro hmem
      obtain ⟨p, hp, hkey⟩ := List.mem_map.mp hmem
      exact (mem_without.mp hp).2 hkey
    · exact ih.sublist (List.filter_sublist.map Prod.fst)

theorem nodup_keys_recents : (keys (recents n h)).Nodup :=
  nodup_keys_newest.sublist ((List.take_sublist n _).map Prod.fst)

theorem length_recents_le : (recents n h).length ≤ n := List.length_take_le n _

theorem recents_snoc : recents (n + 1) (h ++ [e]) = e ::
    if e.1 ∈ keys (recents (n + 1) h) then without e.1 (recents (n + 1) h)
    else (newest h).take n := by
  rw [recents, newest_snoc, List.take_succ_cons, take_without nodup_keys_newest]
  rfl

/-- An entry with a recent key takes the place of the other one. -/
theorem recents_snoc_of_mem (hk : e.1 ∈ keys (recents (n + 1) h)) :
    recents (n + 1) (h ++ [e]) = e :: without e.1 (recents (n + 1) h) := by
  rw [recents_snoc, if_pos hk]

/-- An entry with another key pushes out the oldest entry. -/
theorem recents_snoc_of_notMem (hk : e.1 ∉ keys (recents (n + 1) h)) :
    recents (n + 1) (h ++ [e]) = e :: (recents (n + 1) h).take n := by
  rw [recents_snoc, if_neg hk, recents, List.take_take, min_eq_left (Nat.le_succ n)]

end Lists

/-! ## Ordered maps -/

section Maps

variable {K V : Type*} [Ord K] [Std.LawfulEqOrd K]
  {h l : List (K × V)} {e p : K × V} {k : K} {n : ℕ} {m : Std.ExtTreeMap K V}

theorem pairwise_compare (hl : (keys l).Nodup) :
    l.Pairwise fun p q => ¬ compare p.1 q.1 = .eq :=
  (List.pairwise_map.mp hl).imp fun hne heq => hne (Std.LawfulEqCmp.eq_of_compare heq)

variable [Std.TransOrd K]

/-- An ordered map without its smallest key. -/
def eraseBegin (m : Std.ExtTreeMap K V) : Std.ExtTreeMap K V := m.minKey?.elim m m.erase

variable [DecidableEq K]

/-- The map of entries with different keys. -/
theorem getElem?_ofList (hl : (keys l).Nodup) {v : V} :
    (Std.ExtTreeMap.ofList l)[k]? = some v ↔ (k, v) ∈ l := by
  have hmem : ∀ p ∈ l, (Std.ExtTreeMap.ofList l)[p.1]? = some p.2 := fun p hp =>
    Std.ExtTreeMap.getElem?_ofList_of_mem Std.ReflCmp.compare_self (pairwise_compare hl) hp
  constructor
  · intro hget
    by_cases hk : k ∈ keys l
    · obtain ⟨p, hp, rfl⟩ := List.mem_map.mp hk
      rw [hmem p hp] at hget
      cases hget
      exact hp
    · have hnone : (l.map Prod.fst).contains k = false := by
        rw [← Bool.not_eq_true, List.contains_iff_mem]
        exact hk
      rw [Std.ExtTreeMap.getElem?_ofList_of_contains_eq_false hnone] at hget
      cases hget
  · exact hmem (k, v)

theorem mem_ofList : k ∈ Std.ExtTreeMap.ofList l ↔ k ∈ keys l := by
  rw [Std.ExtTreeMap.mem_ofList, List.contains_iff_mem]
  rfl

/-- A map is that of entries with different keys if it has just these. -/
theorem eq_ofList (hl : (keys l).Nodup) (hm : ∀ p : K × V, m[p.1]? = some p.2 ↔ p ∈ l) :
    m = .ofList l := by
  apply Std.ExtTreeMap.ext_getElem?
  intro k
  apply Option.ext
  intro v
  rw [getElem?_ofList hl]
  exact hm (k, v)

theorem getElem?_insert_ofList (hl : (keys l).Nodup) :
    ((Std.ExtTreeMap.ofList l).insert e.1 e.2)[p.1]? = some p.2 ↔
      p = e ∨ p ∈ l ∧ p.1 ≠ e.1 := by
  rw [Std.ExtTreeMap.getElem?_insert]
  by_cases hkey : e.1 = p.1
  · rw [hkey, if_pos Std.ReflCmp.compare_self, Option.some_inj, Prod.ext_iff]
    simp only [hkey, eq_comm, true_and, ne_eq, not_true_eq_false, and_false, or_false]
  · rw [if_neg fun heq => hkey (Std.LawfulEqCmp.eq_of_compare heq), getElem?_ofList hl]
    constructor
    · intro hp
      exact .inr ⟨hp, Ne.symm hkey⟩
    · rintro (rfl | ⟨hp, -⟩)
      · exact absurd rfl hkey
      · exact hp

theorem size_insert_ofList (hl : (keys l).Nodup) :
    ((Std.ExtTreeMap.ofList l).insert e.1 e.2).size =
      if e.1 ∈ keys l then l.length else l.length + 1 := by
  rw [Std.ExtTreeMap.size_insert, Std.ExtTreeMap.size_ofList (pairwise_compare hl)]
  simp only [← Std.ExtTreeMap.mem_iff_contains, mem_ofList]

variable [LE K] [Std.LawfulOrderOrd K]

/-- The smallest key of some entries stays the smallest one if the key of one more is larger. -/
theorem minKey?_insert_ofList (hmem : p ∈ l) (hp : p.1 ≤ e.1) (hl : ∀ q ∈ l, p.1 ≤ q.1) :
    ((Std.ExtTreeMap.ofList l).insert e.1 e.2).minKey? = some p.1 := by
  rw [Std.ExtTreeMap.minKey?_eq_some_iff_mem_and_forall]
  constructor
  · apply Std.ExtTreeMap.mem_insert.mpr
    exact .inr (mem_ofList.mpr (mem_keys_of_mem hmem))
  · intro k hk
    apply (Std.LawfulOrderOrd.isLE_compare _ _).mpr
    rcases Std.ExtTreeMap.mem_insert.mp hk with heq | hk
    · rw [← Std.LawfulEqCmp.eq_of_compare heq]
      exact hp
    · obtain ⟨q, hq, rfl⟩ := List.mem_map.mp (mem_ofList.mp hk)
      exact hl q hq

/-- A new key pushes out the smallest one. -/
theorem eraseBegin_insert_ofList {kept : List (K × V)} (hl : (keys (kept ++ [p])).Nodup)
    (hk : e.1 ∉ keys (kept ++ [p])) (hp : p.1 ≤ e.1) (hsmall : ∀ q ∈ kept ++ [p], p.1 ≤ q.1) :
    eraseBegin ((Std.ExtTreeMap.ofList (kept ++ [p])).insert e.1 e.2) = .ofList (e :: kept) := by
  have hdistinct := hl
  have hmin := minKey?_insert_ofList (List.mem_append_right kept List.mem_cons_self) hp hsmall
  have hother : ∀ q ∈ kept ++ [p], q.1 ≠ e.1 := by
    rintro q hq heq
    exact hk (heq ▸ mem_keys_of_mem hq)
  rw [keys, List.map_append, List.map_singleton, List.nodup_append] at hl
  obtain ⟨hkeys, -, hlast⟩ := hl
  have hne : ∀ q ∈ e :: kept, p.1 ≠ q.1 := by
    intro q hq
    rcases List.mem_cons.mp hq with rfl | hq
    · exact hother p (List.mem_append_right _ List.mem_cons_self)
    · exact (hlast q.1 (mem_keys_of_mem hq) p.1 List.mem_cons_self).symm
  have hnew : e.1 ∉ keys kept := by
    rw [keys, List.map_append] at hk
    exact fun hmem => hk (List.mem_append_left _ hmem)
  have hnodup : (keys (e :: kept)).Nodup := List.nodup_cons.mpr ⟨hnew, hkeys⟩
  rw [eraseBegin, hmin]
  apply eq_ofList hnodup
  intro q
  change ((Std.ExtTreeMap.ofList (kept ++ [p])).insert e.1 e.2 |>.erase p.1)[q.1]? = _ ↔ _
  rw [Std.ExtTreeMap.getElem?_erase]
  by_cases hkey : p.1 = q.1
  · -- the key that was pushed out is that of no other entry
    rw [if_pos (hkey ▸ Std.ReflCmp.compare_self)]
    constructor
    · intro hnone
      cases hnone
    · intro hq
      exact absurd hkey (hne q hq)
  · rw [if_neg fun heq => hkey (Std.LawfulEqCmp.eq_of_compare heq),
      getElem?_insert_ofList hdistinct]
    constructor
    · rintro (rfl | ⟨hq, -⟩)
      · exact List.mem_cons_self
      · rcases List.mem_append.mp hq with hq | hq
        · exact List.mem_cons_of_mem _ hq
        · exact absurd (congrArg Prod.fst (List.mem_singleton.mp hq)).symm hkey
    · intro hq
      rcases List.mem_cons.mp hq with rfl | hq
      · exact .inl rfl
      · exact .inr ⟨List.mem_append_left _ hq, hother q (List.mem_append_left _ hq)⟩

/-- Behind the history `h`, the key `k` **pushes out the oldest key**: if it is none of the keys of
`n` recent entries, the oldest of these keys is the smallest. -/
def DropsOldest (n : ℕ) (h : List (K × V)) (k : K) : Prop :=
  (recents n h).length = n → k ∉ keys (recents n h) → ∀ oldest ∈ (recents n h).getLast?,
    oldest.1 ≤ k ∧ ∀ p ∈ recents n h, oldest.1 ≤ p.1

instance [DecidableLE K] : Decidable (DropsOldest n h k) :=
  inferInstanceAs (Decidable (_ → _ → ∀ oldest ∈ _, _))

/-- **One more entry** in a map of the most recent entries. -/
theorem insert_ofList_recents (hm : m = .ofList (recents (n + 1) h))
    (hdrop : DropsOldest (n + 1) h e.1) :
    (if n + 1 < (m.insert e.1 e.2).size then eraseBegin (m.insert e.1 e.2)
      else m.insert e.1 e.2) = .ofList (recents (n + 1) (h ++ [e])) := by
  have hkeys : (keys (recents (n + 1) h)).Nodup := nodup_keys_recents
  have hle : (recents (n + 1) h).length ≤ n + 1 := length_recents_le
  subst hm
  rw [size_insert_ofList hkeys]
  by_cases hk : e.1 ∈ keys (recents (n + 1) h)
  · -- the entry takes the place of another one
    rw [if_pos hk, if_neg (by omega)]
    apply eq_ofList nodup_keys_recents
    intro p
    rw [getElem?_insert_ofList hkeys, recents_snoc_of_mem hk, List.mem_cons, mem_without]
  · rw [if_neg hk]
    by_cases hroom : (recents (n + 1) h).length ≤ n
    · -- there is room
      have hother : ∀ p ∈ recents (n + 1) h, p.1 ≠ e.1 := by
        rintro p hp heq
        exact hk (heq ▸ mem_keys_of_mem hp)
      rw [if_neg (by omega)]
      apply eq_ofList nodup_keys_recents
      intro p
      rw [getElem?_insert_ofList hkeys, recents_snoc_of_notMem hk, List.mem_cons,
        List.take_of_length_le hroom]
      exact or_congr_right (and_iff_left_of_imp (hother p))
    · -- the smallest key is the oldest one
      obtain ⟨kept, oldest, hlast⟩ : ∃ kept oldest, recents (n + 1) h = kept ++ [oldest] := by
        rcases List.eq_nil_or_concat (recents (n + 1) h) with hnil | ⟨kept, oldest, hlast⟩
        · rw [hnil] at hroom
          exact absurd (Nat.zero_le n) hroom
        · exact ⟨kept, oldest, hlast.trans List.concat_eq_append⟩
      have hlength : kept.length = n := by
        rw [hlast, List.length_append, List.length_singleton] at hroom hle
        omega
      have hfull : (recents (n + 1) h).length = n + 1 := by omega
      have hoption : oldest ∈ (recents (n + 1) h).getLast? := by
        rw [hlast]
        exact List.getLast?_concat
      obtain ⟨holdest, hsmall⟩ := hdrop hfull hk oldest hoption
      rw [if_pos (by omega), recents_snoc_of_notMem hk]
      rw [hlast] at hkeys hk hsmall ⊢
      rw [eraseBegin_insert_ofList hkeys hk holdest hsmall, ← hlength, List.take_left]

end Maps

end Recents
