import Mathlib.Tactic

/-!
# Octets and sextets

Three octets are four numbers of six bits each. One or two octets at the end become two or three
of them, the last one filled up with zero bits.

## Main definitions

* `sextets bs`: octets, as numbers of six bits
* `octets vs`: the octets that are complete among such numbers

## Main results

* `octets_sextets`: octets are read back
* `length_sextets`: how many numbers of six bits there are
-/

namespace Sextets

/-- **Octets as sextets**, the highest bits first. -/
def sextets : List UInt8 → List ℕ
  | a :: b :: c :: rest =>
    [a.toNat / 4, a.toNat % 4 * 16 + b.toNat / 16, b.toNat % 16 * 4 + c.toNat / 64, c.toNat % 64] ++
      sextets rest
  | [a, b] => [a.toNat / 4, a.toNat % 4 * 16 + b.toNat / 16, b.toNat % 16 * 4]
  | [a] => [a.toNat / 4, a.toNat % 4 * 16]
  | [] => []

/-- The octet whose bits begin `k` bits in front of the end of `v`. -/
def octet (k v w : ℕ) : UInt8 := UInt8.ofNat ((v * 64 + w) / 2 ^ k)

/-- **Sextets as octets**: bits that do not fill an octet are dropped. -/
def octets : List ℕ → List UInt8
  | v :: w :: x :: y :: rest => [octet 4 v w, octet 2 w x, octet 0 x y] ++ octets rest
  | [v, w, x] => [octet 4 v w, octet 2 w x]
  | [v, w] => [octet 4 v w]
  | [_] => []
  | [] => []

/-- An induction on groups of three octets. -/
theorem induction_three {P : List UInt8 → Prop} (nil : P []) (one : ∀ a, P [a])
    (two : ∀ a b, P [a, b]) (three : ∀ a b c rest, P rest → P (a :: b :: c :: rest)) :
    ∀ bs, P bs
  | [] => nil
  | [a] => one a
  | [a, b] => two a b
  | a :: b :: c :: rest => three a b c rest (induction_three nil one two three rest)

theorem sextets_lt (bs : List UInt8) : ∀ v ∈ sextets bs, v < 64 := by
  induction bs using induction_three with
  | nil => simp [sextets]
  | one a =>
    have ha := a.toNat_lt
    simp only [sextets, List.mem_cons, List.not_mem_nil, or_false, forall_eq_or_imp, forall_eq]
    omega
  | two a b =>
    have ha := a.toNat_lt
    have hb := b.toNat_lt
    simp only [sextets, List.mem_cons, List.not_mem_nil, or_false, forall_eq_or_imp, forall_eq]
    omega
  | three a b c rest ih =>
    have ha := a.toNat_lt
    have hb := b.toNat_lt
    have hc := c.toNat_lt
    intro v hv
    rw [sextets, List.mem_append] at hv
    rcases hv with hv | hv
    · simp only [List.mem_cons, List.not_mem_nil, or_false] at hv
      omega
    · exact ih v hv

/-- Three octets become four sextets, and what is left one more than its octets. -/
theorem length_sextets (bs : List UInt8) : (sextets bs).length = (4 * bs.length + 2) / 3 := by
  induction bs using induction_three with
  | nil => rfl
  | one a => simp [sextets]
  | two a b => simp [sextets]
  | three a b c rest ih =>
    simp only [sextets, List.length_append, List.length_cons, List.length_nil, ih]
    omega

/-- The bits of an octet that two sextets hold. -/
theorem octet_eq {k v w : ℕ} {a : UInt8} (h : (v * 64 + w) / 2 ^ k % 256 = a.toNat) :
    octet k v w = a := by
  rw [octet, ← UInt8.toNat_inj, UInt8.toNat_ofNat']
  exact h

/-- **Octets are read back** from their sextets. -/
theorem octets_sextets (bs : List UInt8) : octets (sextets bs) = bs := by
  have hfirst : ∀ a b : UInt8, octet 4 (a.toNat / 4) (a.toNat % 4 * 16 + b.toNat / 16) = a := by
    intro a b
    have ha := a.toNat_lt
    have hb := b.toNat_lt
    exact octet_eq (by omega)
  have hsecond : ∀ (n : ℕ) (b c : UInt8),
      octet 2 (n * 16 + b.toNat / 16) (b.toNat % 16 * 4 + c.toNat / 64) = b := by
    intro n b c
    have hb := b.toNat_lt
    have hc := c.toNat_lt
    exact octet_eq (by omega)
  have hthird : ∀ (n : ℕ) (c : UInt8), octet 0 (n * 4 + c.toNat / 64) (c.toNat % 64) = c := by
    intro n c
    have hc := c.toNat_lt
    exact octet_eq (by omega)
  induction bs using induction_three with
  | nil => rfl
  -- behind the last byte the missing bits are zero, as those of a byte 0
  | one a => simpa [sextets, octets] using hfirst a 0
  | two a b =>
    have h := hsecond (a.toNat % 4) b 0
    simp only [sextets, octets, hfirst]
    simpa using h
  | three a b c rest ih =>
    simp only [sextets, List.cons_append, List.nil_append, octets, hfirst, hsecond, hthird, ih]

end Sextets
