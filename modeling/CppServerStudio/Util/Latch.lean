import CppServerStudio.Library.Gates

/-!
# The latch

`Latch::wait` blocks while `count_` is positive; `Latch::notify` takes one off it, and wakes all
that wait when it comes to zero. The count is an integer here; it is an `int` as long as no more
calls of `notify` are made than `count + 2 ^ 31`.

## Main definitions

* `latch count`: the gate of a latch
* `Latch.NoOverflow`: so few calls of `notify` that `--count_` never overflows

## Main results

* `Latch.wait_returns_iff`: a call of `wait` returns if and only if there are enough of `notify`
-/

namespace CppServerStudio

/-- **`Latch`**: `notify` is the update, and `wait` is passed when `count_ > 0` does not hold. -/
def latch (count : ℤ) : Gate ℤ where
  start := count
  update count_ := count_ - 1
  isOpen count_ := !decide (count_ > 0)
  signals count_ := count_ = 0
  stays count_ h := by
    simp only [gt_iff_lt, Bool.not_eq_true', decide_eq_false_iff_not, not_lt] at h ⊢
    omega
  wakes count_ h h' := by
    simp only [gt_iff_lt, Bool.not_eq_true', Bool.not_eq_false', decide_eq_true_eq,
      decide_eq_false_iff_not, not_lt] at h h' ⊢
    omega

namespace Latch

variable {W K : Type} [DecidableEq K] {count : ℤ} {s : GateState W K ℤ}

@[simp] theorem isOpen_iff (count_ : ℤ) : (latch count).isOpen count_ ↔ count_ ≤ 0 := by
  simp [latch]

theorem iterate_update (n : ℕ) : (latch count).update^[n] (latch count).start = count - n := by
  induction n with
  | zero => simp [latch]
  | succ n ih =>
    rw [Function.iterate_succ_apply', ih]
    change count - n - 1 = _
    push_cast
    ring

/-- The calls of `notify` that have returned. -/
theorem exists_notified (h : (latch count).Updated s) {w : W} {v : ℤ}
    (hw : s.waiters w = .passed v) :
    ∃ ks : Finset K, count ≤ ks.card ∧ ∀ k ∈ ks, s.openers k = .done := by
  obtain ⟨hopen, n, hn, hv⟩ := h.passed w v hw
  rw [isOpen_iff, hv, iterate_update] at hopen
  refine ⟨s.updates.toFinset, ?_, fun k hk => (h.done k).mp (List.mem_toFinset.mp hk)⟩
  rw [List.toFinset_card_of_nodup h.nodup]
  omega

theorem isOpen_of_notified (h : (latch count).Updated s) {ks : Finset K} (hcard : count ≤ ks.card)
    (hks : ∀ k ∈ ks, s.openers k = .done) : (latch count).isOpen s.value := by
  have hsub : ks ⊆ s.updates.toFinset :=
    fun k hk => List.mem_toFinset.mpr ((h.done k).mpr (hks k hk))
  have hle := Finset.card_le_card hsub
  rw [List.toFinset_card_of_nodup h.nodup] at hle
  rw [isOpen_iff, h.value, iterate_update]
  omega

variable [DecidableEq W] {e : ((latch count).system W K).Execution}

/-- **The count stays an `int`**: the latch is made with one, and at no time have more calls of
`notify` been made than take it down to the least of them. -/
structure NoOverflow (e : ((latch count).system W K).Execution) : Prop where
  count_lt : count < 2 ^ 31
  calls_le : ∀ m, ∀ ks : Finset K, (∀ k ∈ ks, (e.state m).openers k ≠ .idle) →
    ks.card ≤ count + 2 ^ 31

theorem NoOverflow.value (h : NoOverflow e) (m : ℕ) :
    -2 ^ 31 ≤ (e.state m).value ∧ (e.state m).value < 2 ^ 31 := by
  have hupdated := e.invariant (fun xs s => Gate.updated_of_run) m
  have hcalls := h.calls_le m (e.state m).updates.toFinset fun k hk => by
    rw [(hupdated.done k).mp (List.mem_toFinset.mp hk)]
    rintro ⟨⟩
  rw [List.toFinset_card_of_nodup hupdated.nodup] at hcalls
  have hcount := h.count_lt
  rw [hupdated.value, iterate_update]
  omega

/-- **A call of `wait` returns if and only if `notify` is called often enough**, in any fair
execution of any number of threads in which `--count_` never overflows, with any wakeups for no
reason. -/
theorem wait_returns_iff (hint : NoOverflow e) (hf : Gate.Fair e) {w : W} {n : ℕ}
    (hw : (e.state n).waiters w ≠ .idle) :
    (∀ m, -2 ^ 31 ≤ (e.state m).value ∧ (e.state m).value < 2 ^ 31) ∧
    ((∃ m ≥ n, ∃ v, (e.state m).waiters w = .passed v) ↔
      ∃ m ≥ n, ∃ ks : Finset K, count ≤ ks.card ∧ ∀ k ∈ ks, (e.state m).openers k ≠ .idle) := by
  refine ⟨hint.value, ?_⟩
  have hupdated := e.invariant fun xs s => Gate.updated_of_run
  constructor
  · rintro ⟨m, hm, v, hv⟩
    obtain ⟨ks, hcard, hks⟩ := exists_notified (hupdated m) hv
    exact ⟨m, hm, ks, hcard, fun k hk => by rw [hks k hk]; rintro ⟨⟩⟩
  · rintro ⟨m, hm, ks, hcard, hks⟩
    -- all these calls return, and then the latch is open
    obtain ⟨l, hl, hdone⟩ := hf.exists_all_done ks m hks
    have hopen := isOpen_of_notified (hupdated l) hcard hdone
    have harrived : (e.state l).waiters w ≠ .idle :=
      e.stays (P := fun s => s.waiters w ≠ .idle) (fun n x h hx => (e.step n x hx).arrived h) hw
        (hm.trans hl)
    obtain ⟨j, hj, hpassed⟩ := hf.leadsTo_passed w l ⟨hopen, harrived⟩
    exact ⟨j, (hm.trans hl).trans hj, hpassed⟩

/-- A call of `wait` that blocks until the one call of `notify` that it needs. -/
theorem wait_returns_iff_one : ∃ e : ((latch 1).system Unit Unit).Execution, ∃ n,
    (∃ m ≥ n, ∃ v, (e.state m).waiters () = .passed v) ∧ ∃ m ≥ n, ∃ ks : Finset Unit,
      (1 : ℤ) ≤ ks.card ∧ ∀ k ∈ ks, (e.state m).openers k ≠ .idle := by
  have hrun : ∃ xs s, ((latch 1).system Unit Unit).Run xs s ∧ s.waiters () = .passed 0 ∧
      s.openers () = .done :=
    ⟨_, _, .snoc (.snoc (.snoc (.snoc (.snoc (.snoc (.snoc (.snoc (.nil rfl)
      (.arrive (w := ()) rfl)) (.lock (w := ()) (.inl rfl) rfl)) (.block (w := ()) rfl rfl))
      (.call (k := ()) rfl)) (.lockUpdate (k := ()) rfl rfl)) (.update (k := ()) rfl))
      (.lock (w := ()) (.inr rfl) rfl)) (.pass (w := ()) rfl rfl), rfl, rfl⟩
  obtain ⟨xs, s, hr, hw, hk⟩ := hrun
  obtain ⟨e, hf, hstate⟩ := Gate.exists_fair hr (fun _ => .inr ⟨0, hw⟩) fun _ => .inr hk
  have hpassed : (e.state xs.length).waiters () = .passed 0 := by rw [hstate _ le_rfl, hw]
  have harrived : (e.state xs.length).waiters () ≠ .idle := by
    rw [hpassed]
    rintro ⟨⟩
  have hint : NoOverflow e := by
    refine ⟨by norm_num, fun m ks _ => ?_⟩
    have hcard : ks.card ≤ 1 := Finset.card_le_univ ks
    norm_num
    omega
  have hreturns : ∃ m ≥ xs.length, ∃ v, (e.state m).waiters () = .passed v :=
    ⟨xs.length, le_rfl, 0, hpassed⟩
  exact ⟨e, xs.length, hreturns, (wait_returns_iff hint hf harrived).2.mp hreturns⟩

end Latch

end CppServerStudio
