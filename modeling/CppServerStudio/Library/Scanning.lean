import Mathlib.Tactic

/-!
# Scanning loops

A scanning loop reads its input one symbol at a time. Each symbol updates a state or fails, and
the loop stops early once the state is final. Its runs compose along concatenation, a span of
symbols of one kind is crossed in one step, and an invariant of the symbols consumed so far holds
where the loop stops.

## Main definitions

* `scan stop step xs s`: the loop over `xs` from the state `s`

## Main results

* `scan_span`: a family of states indexed by the symbols read crosses a span
* `scan_invariant`: an invariant of the consumed symbols holds at the end of a scan
-/

namespace Scanning

universe u

variable {α σ ε : Type*}

@[simp] theorem ok_bind {β γ : Type u} (b : β) (f : β → Except ε γ) :
    (Except.ok b >>= f) = f b := rfl

@[simp] theorem error_bind {β γ : Type u} (e : ε) (f : β → Except ε γ) :
    (Except.error e >>= f) = .error e := rfl

theorem bind_eq_ok {β γ : Type u} {x : Except ε β} {f : β → Except ε γ} {c : γ} :
    x >>= f = .ok c ↔ ∃ b, x = .ok b ∧ f b = .ok c := by
  cases x with
  | error e => simp
  | ok b => simp

theorem bind_ne_error {β γ : Type u} {x : Except ε β} {f : β → Except ε γ} {e : ε}
    (hx : x ≠ .error e) (hf : ∀ b, f b ≠ .error e) : x >>= f ≠ .error e := by
  cases x with
  | error e' => simpa using hx
  | ok b => exact hf b

theorem mapError_eq_ok {ε' : Type*} {β : Type u} {f : ε → ε'} {x : Except ε β} {b : β} :
    x.mapError f = .ok b ↔ x = .ok b := by
  cases x <;> simp [Except.mapError]

/-- **The scanning loop**: `step` consumes one symbol or fails, and the loop ends at a state
satisfying `stop` or with the input. -/
def scan (stop : σ → Bool) (step : α → σ → Except ε σ) : List α → σ → Except ε σ
  | [], s => .ok s
  | a :: as, s => if stop s then .ok s else step a s >>= scan stop step as

variable {stop : σ → Bool} {step : α → σ → Except ε σ}

@[simp] theorem scan_nil (s : σ) : scan stop step [] s = .ok s := rfl

theorem scan_of_stop {s : σ} (h : stop s = true) (xs : List α) :
    scan stop step xs s = .ok s := by
  cases xs <;> simp [scan, h]

theorem scan_cons {s : σ} (h : stop s = false) (a : α) (as : List α) :
    scan stop step (a :: as) s = step a s >>= scan stop step as := by
  simp [scan, h]

/-- One successful step of the loop. -/
theorem scan_cons_ok {s t : σ} {a : α} (h : stop s = false) (hs : step a s = .ok t)
    (as : List α) : scan stop step (a :: as) s = scan stop step as t := by
  rw [scan_cons h, hs, ok_bind]

/-- **Crossing a span.** When the states `f w` step along the symbols with property `P`, a span
`w` of such symbols takes the loop from `f v` to `f (v ++ w)`. -/
theorem scan_span {f : List α → σ} {P : α → Prop} (hstop : ∀ w, stop (f w) = false)
    (hstep : ∀ w a, P a → step a (f w) = .ok (f (w ++ [a]))) {w : List α} (hw : ∀ a ∈ w, P a)
    (v rest : List α) : scan stop step (w ++ rest) (f v) = scan stop step rest (f (v ++ w)) := by
  induction w generalizing v with
  | nil => simp
  | cons a w ih =>
    rw [List.cons_append, scan_cons_ok (hstop v) (hstep v a (hw a (by simp))),
      ih (fun b hb => hw b (by simp [hb])), List.append_assoc, List.singleton_append]

/-- **Invariants of the consumed symbols.** An invariant kept by each step holds where a
successful scan ends, of the symbols it consumed; the rest is left unread only at a final
state. -/
theorem scan_invariant {I : List α → σ → Prop}
    (hstep : ∀ w a s t, I w s → stop s = false → step a s = .ok t → I (w ++ [a]) t)
    {xs v : List α} {s t : σ} (h0 : I v s) (h : scan stop step xs s = .ok t) :
    ∃ w rest, xs = w ++ rest ∧ I (v ++ w) t ∧ (rest = [] ∨ stop t = true) := by
  induction xs generalizing v s with
  | nil =>
    obtain rfl : s = t := by simpa using h
    exact ⟨[], [], rfl, by simpa using h0, Or.inl rfl⟩
  | cons a as ih =>
    by_cases hs : stop s = true
    · obtain rfl : s = t := by simpa [scan_of_stop hs] using h
      exact ⟨[], a :: as, rfl, by simpa using h0, Or.inr hs⟩
    · rw [Bool.not_eq_true] at hs
      rw [scan_cons hs, bind_eq_ok] at h
      obtain ⟨u, hu, h⟩ := h
      obtain ⟨w, rest, rfl, hI, hr⟩ := ih (hstep v a s u h0 hs hu) h
      exact ⟨a :: w, rest, rfl, by simpa using hI, hr⟩

end Scanning
