import CppServerStudio.NetWork.Teardown
import CppServerStudio.Thread.LoopThread
import Mathlib.Data.Int.CardIntervalMod

/-!
# The connections are spread over the reactors

`HandleNewConnection` takes the loop of a connection from `nextloop`, and no step moves it to
another one.

## Main definitions

* `Reactors.Spread`: which connection is on which loop
* `Reactors.load`: how many of some connections in a row are on a sub-reactor

## Main results

* `Reactors.Spread.act`: the connections go round
* `Reactors.reactorSystem_balanced`: each sub-reactor gets its share of any connections in a row
-/

namespace CppServerStudio

open Scanning

namespace Reactors

variable {threadNums : ℕ} {s t : Reactors}

/-! ## Which connection is on which loop -/

/-- What the choice of the next loop depends on. -/
def Choice (s : Reactors) : ℕ × ℕ × ℕ := (s.made, s.threadNums, s.next)

theorem choice_callFunctor {thread : LoopId} {f : CloseFunctor}
    (h : s.callFunctor thread f = .ok t) : t.Choice = s.Choice := by
  cases f with
  | handleCloseInLoop c =>
    simp only [callFunctor, handleCloseInLoop] at h
    split at h
    · cases h
    · obtain rfl := Except.ok.inj h
      rfl
  | connectionDestructor c =>
    obtain rfl := Except.ok.inj h
    rfl

/-- Only a new connection takes the next loop. -/
theorem choice_act {a : ReactorAction} (hact : s.act a = .ok t) (ha : ∀ fd, a ≠ .accept fd) :
    t.Choice = s.Choice := by
  cases a with
  | accept fd => exact absurd rfl (ha fd)
  | acquire c | release c | destroy c | updateChannel c | swapToDoList l | endToDoList l =>
    obtain rfl := Except.ok.inj hact
    rfl
  | handleClose thread c =>
    obtain rfl := Except.ok.inj hact
    unfold handleClose
    split <;> rfl
  | onClose thread c =>
    obtain ⟨u, hu, ht⟩ := bind_eq_ok.mp hact
    obtain rfl := Except.ok.inj ht
    change u.Choice = s.Choice
    unfold runOneFunc at hu
    split at hu
    · exact choice_callFunctor hu
    · obtain rfl := Except.ok.inj hu
      rfl
  | callNext l =>
    simp only [act, callNext] at hact
    split at hact
    · obtain ⟨u, hu, ht⟩ := bind_eq_ok.mp hact
      obtain rfl := Except.ok.inj ht
      have hchoice : u.Choice = s.Choice := choice_callFunctor hu
      exact hchoice
    all_goals
      obtain rfl := Except.ok.inj hact
      rfl

/-- A new connection takes the next loop. -/
theorem accept_spec (fd : ℕ) : (s.handleNewConnection fd).made = s.made + 1 ∧
    (s.handleNewConnection fd).threadNums = s.threadNums ∧
    (s.handleNewConnection fd).next = s.nextloop.2.next ∧
    ((s.handleNewConnection fd).conn s.made).loop = s.nextloop.1 := by
  obtain ⟨hmade, -, hconn, -⟩ := s.handleNewConnection_spec fd
  obtain ⟨n, hn⟩ := s.nextloop_eq
  refine ⟨hmade, ?_, ?_, by rw [hconn, Function.update_self]⟩
  · unfold handleNewConnection
    rw [hn]
    rfl
  · unfold handleNewConnection
    rw [hn]
    rfl

/-- **Which connection is on which loop**: that of the call of `nextloop` that was made for it. -/
structure Spread (s : Reactors) : Prop where
  loop : ∀ c < s.made, (s.conn c).loop =
    if s.threadNums = 0 then .main else .sub (c % s.threadNums)
  next : s.threadNums ≠ 0 → s.next = s.made % s.threadNums

theorem Spread.act {a : ReactorAction} (h : s.Spread) (ha : s.Enabled a)
    (hact : s.act a = .ok t) : t.Spread := by
  by_cases haccept : ∃ fd, a = .accept fd
  · obtain ⟨fd, rfl⟩ := haccept
    obtain ⟨hmade, hnums, hnext, hloop⟩ := accept_spec (s := s) fd
    obtain rfl := Except.ok.inj hact
    refine ⟨fun c hc => ?_, fun hzero => ?_⟩
    · rw [hmade] at hc
      rw [hnums]
      by_cases hlast : c = s.made
      · subst hlast
        rw [hloop, nextloop]
        split_ifs with hzero
        · rfl
        all_goals
          dsimp only
          rw [h.next hzero]
      · have hold : c < s.made := by omega
        rw [(conn_act hact ha hold).2.1]
        exact h.loop c hold
    · rw [hnums] at hzero
      have hmod : (s.made + 1) % s.threadNums = (s.made % s.threadNums + 1) % s.threadNums :=
        (Nat.mod_add_mod ..).symm
      have hlt := Nat.mod_lt s.made (Nat.pos_of_ne_zero hzero)
      rw [hnext, hmade, hnums, hmod, nextloop, if_neg hzero]
      dsimp only
      rw [h.next hzero]
      split_ifs with hlast
      · rw [hlast, Nat.mod_self]
      · exact (Nat.mod_eq_of_lt (by omega)).symm
  · have hchoice := choice_act hact fun fd hfd => haccept ⟨fd, hfd⟩
    obtain ⟨hmade, hfields⟩ := Prod.mk.inj hchoice
    obtain ⟨hnums, hnext⟩ := Prod.mk.inj hfields
    refine ⟨fun c hc => ?_, fun hzero => ?_⟩
    · rw [hmade] at hc
      rw [(conn_act hact ha hc).2.1, hnums]
      exact h.loop c hc
    · rw [hnums] at hzero
      rw [hnext, hmade, hnums]
      exact h.next hzero

theorem spread_of_run {actions : List ReactorAction}
    (hr : (reactorSystem threadNums).Run actions s) : s.threadNums = threadNums ∧ s.Spread := by
  apply hr.invariant (I := fun s => s.threadNums = threadNums ∧ s.Spread)
  · rintro _ rfl
    exact ⟨rfl, by simp, fun _ => by simp⟩
  · rintro s a t ⟨hnums, h⟩ ⟨ha, hact⟩
    refine ⟨?_, h.act ha hact⟩
    by_cases haccept : ∃ fd, a = .accept fd
    · obtain ⟨fd, rfl⟩ := haccept
      obtain rfl := Except.ok.inj hact
      exact (accept_spec fd).2.1.trans hnums
    · have hchoice := choice_act hact fun fd hfd => haccept ⟨fd, hfd⟩
      exact (Prod.mk.inj (Prod.mk.inj hchoice).2).1.trans hnums

/-! ## The share of a sub-reactor -/

/-- How many of the `k` connections from `a` on are on a sub-reactor. -/
def load (s : Reactors) (i a k : ℕ) : ℕ := Nat.count (fun j => (s.conn (a + j)).loop = .sub i) k

/-- Any numbers in a row are spread evenly over the remainders. -/
theorem count_add_mod {n i : ℕ} (hi : i < n) (a k : ℕ) :
    k / n ≤ Nat.count (fun j => (a + j) % n = i) k ∧
      Nat.count (fun j => (a + j) % n = i) k ≤ k / n + 1 := by
  have hpos : 0 < n := by omega
  -- the remainder that the offset from `a` has
  have hcongr : ∀ j, (a + j) % n = i ↔ j ≡ i + (n - a % n) [MOD n] := by
    have hback : a + (i + (n - a % n)) ≡ i [MOD n] := by
      have hdiv := Nat.div_add_mod a n
      have hlt := Nat.mod_lt a hpos
      have hsum : a + (i + (n - a % n)) = i + n * (a / n + 1) := by
        rw [Nat.mul_add, Nat.mul_one]
        omega
      rw [hsum, Nat.ModEq, Nat.add_mul_mod_self_left]
    intro j
    constructor
    · intro h
      have hi' : a + j ≡ i [MOD n] := h.trans (Nat.mod_eq_of_lt hi).symm
      exact Nat.ModEq.add_left_cancel' a (hi'.trans hback.symm)
    · intro h
      have hi' : a + j ≡ i [MOD n] := (h.add_left a).trans hback
      exact Eq.trans hi' (Nat.mod_eq_of_lt hi)
  have hcount := Nat.count_modEq_card k hpos (i + (n - a % n))
  simp only [hcongr, hcount]
  split_ifs <;> omega

theorem Spread.load (h : s.Spread) {i a k : ℕ} (hi : i < s.threadNums) (hmade : a + k ≤ s.made) :
    k / s.threadNums ≤ s.load i a k ∧ s.load i a k ≤ k / s.threadNums + 1 := by
  have hload : s.load i a k = Nat.count (fun j => (a + j) % s.threadNums = i) k := by
    rw [Reactors.load, Nat.count_eq_card_filter_range, Nat.count_eq_card_filter_range]
    congr 1
    refine Finset.filter_congr fun j hj => ?_
    have hlt := Finset.mem_range.mp hj
    rw [h.loop (a + j) (by omega), if_neg (by omega), LoopId.sub.injEq]
  rw [hload]
  exact count_add_mod hi a k

/-- **Each sub-reactor gets its share** of any connections in a row, however they were closed in
between: the `c`-th connection is on the loop that the `c`-th call of `nextloop` returns. -/
theorem reactorSystem_balanced {actions : List ReactorAction}
    (hr : (reactorSystem threadNums).Run actions s) :
    (∀ c < s.made, (s.conn c).loop = if threadNums = 0 then .main else .sub (c % threadNums)) ∧
      ∀ i a k, i < threadNums → a + k ≤ s.made →
        k / threadNums ≤ s.load i a k ∧ s.load i a k ≤ k / threadNums + 1 := by
  obtain ⟨rfl, h⟩ := spread_of_run hr
  exact ⟨h.loop, fun i a k hi hmade => h.load hi hmade⟩

/-- Three connections on two sub-reactors, the first of which is closed before the third one is
accepted. -/
def closeBetween : List ReactorAction :=
  [.accept 5, .accept 6, .handleClose (.sub 0) 0, .onClose (.sub 0) 0, .swapToDoList .main,
    .callNext .main, .endToDoList .main, .accept 7]

theorem reactorSystem_balanced_three : ∃ s : Reactors, (reactorSystem 2).Run closeBetween s ∧
    s.made = 3 ∧ s.load 0 0 3 = 2 ∧ s.load 1 0 3 = 1 ∧
    (∀ c < s.made, (s.conn c).loop = if 2 = 0 then .main else .sub (c % 2)) ∧
      ∀ i a k, i < 2 → a + k ≤ s.made → k / 2 ≤ s.load i a k ∧ s.load i a k ≤ k / 2 + 1 := by
  have hfirst : (reactorSystem 2).Run (closeBetween.take 1) _ :=
    LTS.Run.snoc (.nil rfl)
      ⟨⟨fun ⟨c, hc, _⟩ => absurd hc (Nat.not_lt_zero c), fun _ => List.not_mem_nil, rfl⟩, rfl⟩
  have hsecond : (reactorSystem 2).Run (closeBetween.take 2) _ :=
    hfirst.snoc ⟨⟨fun ⟨c, hc, _, hfd⟩ => by
      obtain rfl : c = 0 := Nat.lt_one_iff.mp hc
      exact absurd hfd (by decide), fun _ => List.not_mem_nil, rfl⟩, rfl⟩
  have hclose : (reactorSystem 2).Run (closeBetween.take 3) _ :=
    hsecond.snoc ⟨⟨by decide, fun _ => List.not_mem_nil⟩, rfl⟩
  have honClose : (reactorSystem 2).Run (closeBetween.take 4) _ :=
    hclose.snoc ⟨List.mem_cons_self, rfl⟩
  have hswap : (reactorSystem 2).Run (closeBetween.take 5) _ :=
    honClose.snoc ⟨⟨fun _ => List.not_mem_nil, rfl⟩, rfl⟩
  have hcall : (reactorSystem 2).Run (closeBetween.take 6) _ :=
    hswap.snoc ⟨⟨fun _ => List.not_mem_nil, _, _, _, rfl⟩, rfl⟩
  have hend : (reactorSystem 2).Run (closeBetween.take 7) _ :=
    hcall.snoc ⟨⟨fun _ => List.not_mem_nil, _, rfl⟩, rfl⟩
  have hthird : (reactorSystem 2).Run closeBetween _ :=
    hend.snoc ⟨⟨fun ⟨c, hc, _, hfd⟩ => by
      change c < 2 at hc
      interval_cases c <;> exact absurd hfd (by decide), fun _ => List.not_mem_nil, rfl⟩, rfl⟩
  exact ⟨_, hthird, rfl, by decide, by decide, reactorSystem_balanced hthird⟩

end Reactors

end CppServerStudio
