import Mathlib.Data.List.Basic
import Mathlib.Logic.Function.Basic

/-!
# Output streams

An output stream appends what it is given to a file. It may keep some of it for a while, and takes
only a part of what it is offered, so that a writer offers the rest again. Whatever the stream takes
and keeps, the file and what the stream holds are what was given, in order.

## Main definitions

* `Files`, `OutStream`: files by their paths, and a stream with what it holds
* `OutStream.write`, `OutStream.flush`: one offer, and a flush
* `OutStream.writeAll`: the loop that offers the rest
* `OutStream.Carries`: what was given is in the file or held, and no other file changes

## Main results

* `OutStream.carries_writeAll`: the loop gives all of its data
-/

/-- Files by their paths. -/
abbrev Files (P α : Type*) := P → List α

/-- A stream that appends to a file, and what it holds. -/
structure OutStream (P α : Type*) where
  path : P
  held : List α := []

/-- What comes of an offer: how much of it the stream takes, and how much of what it then holds goes
to the file. -/
structure WriteResult where
  taken : ℕ
  spilled : ℕ

variable {P α : Type*} [DecidableEq P]

/-- More at the end of a file. -/
def Files.append (d : Files P α) (path : P) (s : List α) : Files P α :=
  Function.update d path (d path ++ s)

@[simp] theorem Files.append_self (d : Files P α) (path : P) (s : List α) :
    d.append path s path = d path ++ s := Function.update_self ..

@[simp] theorem Files.append_of_ne {d : Files P α} {path path' : P} (h : path' ≠ path)
    (s : List α) : d.append path s path' = d path' := Function.update_of_ne h _ _

namespace OutStream

variable {f f' f'' : OutStream P α} {d d' d'' : Files P α} {s t : List α}

/-- The first `n` symbols that the stream holds go to the file. -/
def spill (f : OutStream P α) (d : Files P α) (n : ℕ) : OutStream P α × Files P α :=
  ({ f with held := f.held.drop n }, d.append f.path (f.held.take n))

/-- **One offer.** -/
def write (f : OutStream P α) (d : Files P α) (s : List α) (r : WriteResult) :
    OutStream P α × Files P α :=
  { f with held := f.held ++ s.take r.taken }.spill d r.spilled

/-- **A flush.** -/
def flush (f : OutStream P α) (d : Files P α) : OutStream P α × Files P α :=
  f.spill d f.held.length

/-- **The loop** that offers what was not taken until nothing is left. It does not end with results
that leave something, and asks for no more of them once nothing is left. -/
def writeAll : OutStream P α → Files P α → List α → List WriteResult →
    Option (OutStream P α × Files P α)
  | f, d, [], [] => some (f, d)
  | _, _, [], _ :: _ => none
  | _, _, _ :: _, [] => none
  | f, d, a :: s, r :: rs =>
    let (f, d) := f.write d (a :: s) r
    writeAll f d ((a :: s).drop r.taken) rs

/-- **What was given** to a stream is in its file or held, behind what was there before; the file
only grows, and no other file changes. -/
structure Carries (f : OutStream P α) (d : Files P α) (s : List α) (f' : OutStream P α)
    (d' : Files P α) : Prop where
  path : f'.path = f.path
  given : d' f.path ++ f'.held = d f.path ++ f.held ++ s
  grows : d f.path <+: d' f.path
  others : ∀ path ≠ f.path, d' path = d path

omit [DecidableEq P] in
theorem Carries.refl (f : OutStream P α) (d : Files P α) : Carries f d [] f d :=
  ⟨rfl, (List.append_nil _).symm, List.prefix_rfl, fun _ _ => rfl⟩

omit [DecidableEq P] in
theorem Carries.trans (h : Carries f d s f' d') (h' : Carries f' d' t f'' d'') :
    Carries f d (s ++ t) f'' d'' where
  path := h'.path.trans h.path
  given := by
    have hgiven := h'.given
    rw [h.path] at hgiven
    rw [hgiven, h.given, List.append_assoc]
  grows := h.grows.trans (h.path ▸ h'.grows)
  others path hpath := (h'.others path (h.path ▸ hpath)).trans (h.others path hpath)

omit [DecidableEq P] in
/-- No more is held than was held before and given since. -/
theorem Carries.length_held_le (h : Carries f d s f' d') :
    f'.held.length ≤ f.held.length + s.length := by
  obtain ⟨t, ht⟩ := h.grows
  have hlength := congrArg List.length h.given
  rw [← ht] at hlength
  simp only [List.length_append] at hlength
  omega

theorem carries_spill (f : OutStream P α) (d : Files P α) (n : ℕ) :
    Carries f d [] (f.spill d n).1 (f.spill d n).2 where
  path := rfl
  given := by
    rw [spill]
    simp only [Files.append_self, List.append_assoc, List.take_append_drop, List.append_nil]
  grows := by
    rw [spill]
    simp only [Files.append_self, List.prefix_append]
  others _ hpath := Files.append_of_ne hpath _

theorem carries_write (f : OutStream P α) (d : Files P α) (s : List α) (r : WriteResult) :
    Carries f d (s.take r.taken) (f.write d s r).1 (f.write d s r).2 := by
  have htake : Carries f d (s.take r.taken) { f with held := f.held ++ s.take r.taken } d :=
    ⟨rfl, (List.append_assoc ..).symm, List.prefix_rfl, fun _ _ => rfl⟩
  have h := htake.trans (carries_spill _ d r.spilled)
  rwa [List.append_nil] at h

/-- Nothing is held behind a flush. -/
theorem held_flush (f : OutStream P α) (d : Files P α) : (f.flush d).1.held = [] := List.drop_length

theorem carries_flush (f : OutStream P α) (d : Files P α) :
    Carries f d [] (f.flush d).1 (f.flush d).2 := carries_spill f d _

/-- **The loop gives all of its data**, whatever was taken in each of its turns. -/
theorem carries_writeAll {rs : List WriteResult} (h : f.writeAll d s rs = some (f', d')) :
    Carries f d s f' d' := by
  -- Induction on the turns.
  induction rs generalizing f d s with
  | nil =>
    cases s with
    | nil =>
      obtain ⟨rfl, rfl⟩ := Prod.mk.inj (Option.some.inj h)
      exact .refl f d
    | cons a s => cases h
  | cons r rs ih =>
    cases s with
    | nil => cases h
    | cons a s =>
      have hrest := (carries_write f d (a :: s) r).trans (ih h)
      rwa [List.take_append_drop] at hrest

/-- A stream may take all that it is offered. -/
theorem exists_writeAll (f : OutStream P α) (d : Files P α) (s : List α) :
    ∃ rs f' d', f.writeAll d s rs = some (f', d') := by
  cases s with
  | nil => exact ⟨[], f, d, rfl⟩
  | cons a s =>
    let r : WriteResult := ⟨(a :: s).length, 0⟩
    refine ⟨[r], (f.write d (a :: s) r).1, (f.write d (a :: s) r).2, ?_⟩
    rw [writeAll, List.drop_length]
    rfl

end OutStream
