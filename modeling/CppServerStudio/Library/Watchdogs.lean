import CppServerStudio.Library.Runs
import Mathlib.Algebra.Order.Group.Defs

/-!
# Watchdogs

A watchdog watches a subject that is heard from time to time. It sets a timer, and at some time
after that has gone off it looks when the subject was heard last: it gives the subject up if that is
longer ago than the timeout, and otherwise sets the timer again. Neither the timer nor the watchdog
need be in time.

## Main definitions

* `Watchdog`, `WatchStep`: a watchdog with its subject, and what the two do
* `watchdog`: the runs of a watchdog
* `WatchStep.Ordered`: a record whose clock does not go back

## Main results

* `Watchdog.quiet_of_expired`: a subject that is given up was not heard for the timeout
* `Watchdog.exists_heard_of_kept`: a subject that is kept was heard while the timer was set
-/

variable {T : Type*}

/-- Where a watchdog is: its timer was never set, or was set at the time `armed` and has, or has not
yet, gone off; it keeps its subject, has found it gone, or has given it up. -/
inductive WatchPhase (T : Type*)
  | fresh
  | waiting (armed : T)
  | checking (armed : T)
  | kept
  | gone
  | expired

/-- A watchdog, with the time at which its subject was last heard. -/
structure Watchdog (T : Type*) where
  phase : WatchPhase T
  stamp : T

/-- The steps: the timer is set, the subject is heard, the timer has gone off, the subject is gone,
or the watchdog looks when it was heard. -/
inductive WatchStep (T : Type*)
  | arm (now : T)
  | hear (now : T)
  | call (now : T)
  | miss
  | look (now : T)

/-- The time of a step. -/
def WatchStep.time? : WatchStep T → Option T
  | arm now | hear now | call now | look now => some now
  | miss => none

/-- The time that a step reads. That at which the timer had gone off was read before. -/
def WatchStep.reading? : WatchStep T → Option T
  | arm now | hear now | look now => some now
  | call _ | miss => none

section Steps

variable [Add T] [LT T]

/-- What the steps do. -/
inductive Watchdog.Step (timeout : T) (w : Watchdog T) : WatchStep T → Watchdog T → Prop
  | arm (now : T) (h : w.phase = .fresh ∨ w.phase = .kept) :
    Step timeout w (.arm now) { w with phase := .waiting now }
  | hear (now : T) : Step timeout w (.hear now) { w with stamp := now }
  | call {armed : T} (now : T) (h : w.phase = .waiting armed) (hlate : armed + timeout < now) :
    Step timeout w (.call now) { w with phase := .checking armed }
  | miss {armed : T} (h : w.phase = .checking armed) :
    Step timeout w .miss { w with phase := .gone }
  | keep {armed : T} (now : T) (h : w.phase = .checking armed)
    (hrecent : ¬ w.stamp + timeout < now) : Step timeout w (.look now) { w with phase := .kept }
  | expire {armed : T} (now : T) (h : w.phase = .checking armed) (hold : w.stamp + timeout < now) :
    Step timeout w (.look now) { w with phase := .expired }

/-- **A watchdog** whose subject counts as heard at the time `start`. -/
def watchdog (timeout start : T) : LTS (Watchdog T) (WatchStep T) where
  init w := w = ⟨.fresh, start⟩
  step w x w' := w.Step timeout x w'

end Steps

namespace WatchStep

variable [Preorder T] {start : T} {xs ys : List (WatchStep T)} {x : WatchStep T}

/-- **A clock that does not go back**: what a step reads is not before `start`, and not before the
times of the steps in front of it. -/
def Ordered (start : T) (xs : List (WatchStep T)) : Prop :=
  (∀ x ∈ xs, ∀ now ∈ x.reading?, start ≤ now) ∧
    xs.Pairwise fun x y => ∀ t ∈ x.time?, ∀ now ∈ y.reading?, t ≤ now

theorem Ordered.of_append (h : Ordered start (xs ++ ys)) : Ordered start xs :=
  ⟨fun x hx => h.1 x (List.mem_append_left _ hx), (List.pairwise_append.mp h.2).1⟩

/-- What a step reads is not before the times in front of it. -/
theorem Ordered.le_of_snoc (h : Ordered start (xs ++ [x])) {now : T} (hx : x.reading? = some now)
    {t : T} (ht : t ∈ start :: xs.filterMap time?) : t ≤ now := by
  rcases List.mem_cons.mp ht with rfl | ht
  · exact h.1 x (by simp) now hx
  · obtain ⟨y, hy, hyt⟩ := List.mem_filterMap.mp ht
    exact (List.pairwise_append.mp h.2).2.2 y hy x (by simp) t hyt now hx

end WatchStep

namespace Watchdog

open WatchStep

variable [AddCommGroup T] [LinearOrder T] {timeout start : T} {xs : List (WatchStep T)}
  {w w' : Watchdog T} {x : WatchStep T}

/-- What the record of a watchdog says about its state: when the subject was heard, and when the
timer was set. -/
structure Recorded (timeout start : T) (xs : List (WatchStep T)) (w : Watchdog T) : Prop where
  stamp_mem : w.stamp ∈ start :: xs.filterMap time?
  heard : ∀ t, .hear t ∈ xs → t ≤ w.stamp
  waiting : ∀ armed, w.phase = .waiting armed → ∀ t, .arm t ∈ xs → t ≤ armed
  checking : ∀ armed, w.phase = .checking armed → (∀ t, .arm t ∈ xs → t ≤ armed) ∧
    ∃ t ∈ xs.filterMap time?, armed + timeout < t

theorem Recorded.snoc (h : w.Recorded timeout start xs) (hs : w.Step timeout x w')
    (hord : Ordered start (xs ++ [x])) : w'.Recorded timeout start (xs ++ [x]) := by
  have hmem : ∀ t ∈ start :: xs.filterMap time?, t ∈ start :: (xs ++ [x]).filterMap time? := by
    intro t ht
    rw [List.filterMap_append, ← List.cons_append]
    exact List.mem_append_left _ ht
  have hstamp := hmem _ h.stamp_mem
  cases hs with
  | arm now hp =>
    refine ⟨hstamp, ?_, ?_, nofun⟩
    · intro t ht
      exact h.heard t (by simpa using ht)
    · -- every earlier time is at most `now`
      rintro _ ⟨⟩ t ht
      rcases List.mem_append.mp ht with ht | ht
      · apply hord.le_of_snoc rfl
        exact List.mem_cons_of_mem _ (List.mem_filterMap.mpr ⟨_, ht, rfl⟩)
      · obtain ⟨⟩ := List.mem_singleton.mp ht
        exact le_rfl
  | hear now =>
    refine ⟨by simp [time?], ?_, ?_, ?_⟩
    · intro t ht
      rcases List.mem_append.mp ht with ht | ht
      · apply hord.le_of_snoc rfl
        exact List.mem_cons_of_mem _ (List.mem_filterMap.mpr ⟨_, ht, rfl⟩)
      · obtain ⟨⟩ := List.mem_singleton.mp ht
        exact le_rfl
    · intro armed hp t ht
      exact h.waiting armed hp t (by simpa using ht)
    · intro armed hp
      obtain ⟨harms, t, ht, hlt⟩ := h.checking armed hp
      refine ⟨fun t ht => harms t (by simpa using ht), t, ?_, hlt⟩
      rw [List.filterMap_append]
      exact List.mem_append_left _ ht
  | @call armed now hp hlate =>
    refine ⟨hstamp, ?_, nofun, ?_⟩
    · intro t ht
      exact h.heard t (by simpa using ht)
    · rintro _ ⟨⟩
      exact ⟨fun t ht => h.waiting armed hp t (by simpa using ht), now, by simp [time?], hlate⟩
  | miss hp | keep now hp hrecent | expire now hp hold =>
    refine ⟨hstamp, ?_, nofun, nofun⟩
    intro t ht
    exact h.heard t (by simpa using ht)

theorem recorded_of_run (hr : (watchdog timeout start).Run xs w) (hord : Ordered start xs) :
    w.Recorded timeout start xs := by
  induction hr with
  | nil h =>
    obtain rfl := h
    exact ⟨by simp, nofun, nofun, nofun⟩
  | snoc hr hs ih => exact (ih hord.of_append).snoc hs hord

/-- After the timer was set the subject was heard, or is as it was. -/
theorem heard_since {a : T} (hr : (watchdog timeout start).Run xs w) (hord : Ordered start xs) :
    ∀ ys zs, xs = ys ++ .arm a :: zs → .hear w.stamp ∈ zs ∨ w.stamp ≤ a := by
  induction hr with
  | nil h => simp
  | @snoc xs w x w' hr hs ih =>
    intro ys zs heq
    have h := recorded_of_run hr hord.of_append
    rcases List.eq_nil_or_concat zs with rfl | ⟨zs, z, rfl⟩
    · -- the step that sets the timer
      obtain ⟨rfl, hx⟩ := List.append_inj' heq rfl
      obtain rfl := List.singleton_inj.mp hx
      cases hs
      exact .inr (hord.le_of_snoc rfl h.stamp_mem)
    · rw [List.concat_eq_append, ← List.cons_append, ← List.append_assoc] at heq
      obtain ⟨rfl, hx⟩ := List.append_inj' heq rfl
      obtain rfl := List.singleton_inj.mp hx
      rw [List.concat_eq_append]
      have hold := ih hord.of_append ys zs rfl
      cases hs with
      | hear now => exact .inl (by simp)
      | arm | call | miss | keep | expire => exact hold.imp_left (List.mem_append_left _)

variable [IsOrderedAddMonoid T]

/-- **A subject that is given up** was not heard for longer than the timeout, and the watchdog has
watched it for longer than that. -/
theorem quiet_of_expired {now : T} (hr : (watchdog timeout start).Run (xs ++ [.look now]) w)
    (hord : Ordered start (xs ++ [.look now])) (hexpired : w.phase = .expired) :
    (∀ t, .hear t ∈ xs → t + timeout < now) ∧ ∀ t, .arm t ∈ xs → t + timeout < now := by
  obtain ⟨w₀, hrun, hs⟩ := hr.of_snoc
  have h := recorded_of_run hrun hord.of_append
  cases hs with
  | keep => cases hexpired
  | @expire armed _ hp hold =>
    refine ⟨fun t ht => (add_le_add_left (h.heard t ht) _).trans_lt hold, fun t ht => ?_⟩
    obtain ⟨harms, called, hcalled, hlt⟩ := h.checking armed hp
    calc t + timeout ≤ armed + timeout := add_le_add_left (harms t ht) _
      _ < called := hlt
      _ ≤ now := hord.le_of_snoc rfl (List.mem_cons_of_mem _ hcalled)

/-- **A subject that is kept** was heard after the timer was set, within the timeout. -/
theorem exists_heard_of_kept {ys zs : List (WatchStep T)} {a now : T}
    (hr : (watchdog timeout start).Run (ys ++ .arm a :: zs ++ [.look now]) w)
    (hord : Ordered start (ys ++ .arm a :: zs ++ [.look now])) (hkept : w.phase = .kept) :
    ∃ t, .hear t ∈ zs ∧ now ≤ t + timeout := by
  obtain ⟨w₀, hrun, hs⟩ := hr.of_snoc
  have h := recorded_of_run hrun hord.of_append
  cases hs with
  | expire => cases hkept
  | @keep armed _ hp hrecent =>
    rcases heard_since hrun hord.of_append ys zs rfl with hheard | hle
    · exact ⟨w₀.stamp, hheard, not_lt.mp hrecent⟩
    · -- the timer went off after the timeout, so the last time is too long ago
      obtain ⟨harms, called, hcalled, hlt⟩ := h.checking armed hp
      have hcontra : now < now := calc
        now ≤ w₀.stamp + timeout := not_lt.mp hrecent
        _ ≤ a + timeout := add_le_add_left hle _
        _ ≤ armed + timeout := add_le_add_left (harms a (by simp)) _
        _ < called := hlt
        _ ≤ now := hord.le_of_snoc rfl (List.mem_cons_of_mem _ hcalled)
      exact absurd hcontra (lt_irrefl _)

end Watchdog
