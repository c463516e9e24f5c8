import CppServerStudio.Timer.TimerLife

/-!
# What the timer queue keeps

Every timer of the queue lives as `timerLife` says, and the queue holds each one that is not
finished exactly once: in `timers_`, or in the part of `active_timers_` that `ResetTimers` has not
handled.

## Main definitions

* `TimerQueue.Kept`: where the queue holds a timer, and what has become of it

## Main results

* `TimerQueue.Kept.moved`, `TimerQueue.Kept.arrived`, `TimerQueue.Kept.regrouped`: what keeps the
  invariant
* `TimerQueue.kept_of_run`: the invariant of every run
-/

namespace CppServerStudio

namespace HandleReadPhase

/-- The timers whose callbacks are left to call. -/
def unrun : HandleReadPhase → List Entry
  | running _ _ rest => rest
  | inCallback _ _ _ rest => rest
  | _ => []

/-- The timer whose callback runs. -/
def current : HandleReadPhase → List Entry
  | inCallback _ _ entry _ => [entry]
  | _ => []

/-- The timers whose callbacks have run, and which `ResetTimers` has not handled. -/
def toReset : HandleReadPhase → List Entry
  | idle => []
  | running _ ran _ => ran
  | inCallback _ ran _ _ => ran
  | resetting _ rest => rest

theorem active_eq (p : HandleReadPhase) : p.active = p.toReset ++ (p.current ++ p.unrun) := by
  cases p <;> simp [active, toReset, current, unrun]

/-- The time at which `HandleRead` took the timers that it runs. -/
def taken : HandleReadPhase → Option ℤ
  | running now _ _ => some now
  | inCallback now _ _ _ => some now
  | _ => none

end HandleReadPhase

namespace TimerQueue

variable {s t : TimerQueue} {added : List (ℤ × Interval)}

/-- The timer of an entry. -/
def timerOf (s : TimerQueue) (e : Entry) : Timer := s.timer e.timer

/-- **The invariant.** No timer is held twice, and where it is held tells its phase. -/
structure Kept (added : List (ℤ × Interval)) (s : TimerQueue) : Prop where
  made : s.made = added.length
  ids : (s.held.map fun e => (s.timerOf e).id).Nodup
  born : ∀ e ∈ s.held, (s.timerOf e).id < s.made
  logged : ∀ p ∈ s.log, p.1 < s.made
  waiting : ∀ e, e ∈ s.timers ∨ e ∈ s.phase.unrun → (s.timerOf e).Waits added s.log e.expiration
  running : ∀ e ∈ s.phase.current, (s.timerOf e).Runs added s.log
  ran : ∀ e ∈ s.phase.toReset, (s.timerOf e).Ran added s.log
  gone : ∀ c < s.made, (∀ e ∈ s.held, (s.timerOf e).id ≠ c) → ∃ timestamp interval,
    added[c]? = some (timestamp, interval) ∧
      (timerLife timestamp interval).Run (stepsOf s.log c) .finished
  late : ∀ now, s.phase.taken = some now → ∀ e ∈ s.phase.unrun, e.expiration < now

theorem mem_held {e : Entry} : e ∈ s.held ↔ e ∈ s.timers ∨ e ∈ s.phase.active := by
  rw [held, Multiset.mem_add, Finset.mem_val, Multiset.mem_coe]

theorem mem_held_of_waiting {e : Entry} (h : e ∈ s.timers ∨ e ∈ s.phase.unrun) : e ∈ s.held := by
  rw [mem_held, HandleReadPhase.active_eq]
  refine h.imp_right fun he => ?_
  exact List.mem_append_right _ (List.mem_append_right _ he)

theorem mem_held_of_current {e : Entry} (h : e ∈ s.phase.current) : e ∈ s.held := by
  rw [mem_held, HandleReadPhase.active_eq]
  exact .inr (List.mem_append_right _ (List.mem_append_left _ h))

theorem mem_held_of_toReset {e : Entry} (h : e ∈ s.phase.toReset) : e ∈ s.held := by
  rw [mem_held, HandleReadPhase.active_eq]
  exact .inr (List.mem_append_left _ h)

/-- The timers of an entry and of the others are not the same. -/
theorem Kept.id_ne {e : Entry} {others : Multiset Entry} (h : s.Kept added)
    (hheld : s.held = e ::ₘ others) {e' : Entry} (he' : e' ∈ others) :
    (s.timerOf e).id ≠ (s.timerOf e').id := by
  have hnodup := h.ids
  rw [hheld, Multiset.map_cons, Multiset.nodup_cons] at hnodup
  intro heq
  exact hnodup.1 (heq ▸ Multiset.mem_map_of_mem _ he')

/-- The others are at other addresses. -/
theorem Kept.timer_ne {e : Entry} {others : Multiset Entry} (h : s.Kept added)
    (hheld : s.held = e ::ₘ others) {e' : Entry} (he' : e' ∈ others) : e'.timer ≠ e.timer := by
  intro heq
  apply h.id_ne hheld he'
  rw [timerOf, timerOf, heq]

/-- **One timer moves**: the entry `e` gives way to `e'` of the same timer, and the step is
recorded. The others stay where they are. -/
theorem Kept.moved {e e' : Entry} {others : Multiset Entry} {step : TimerStep} (h : s.Kept added)
    (hheld : s.held = e ::ₘ others) (hheld' : t.held = e' ::ₘ others)
    (hid : (t.timerOf e').id = (s.timerOf e).id)
    (hother : ∀ x ∈ others, t.timerOf x = s.timerOf x) (hmade : t.made = s.made)
    (hlog : t.log = s.log ++ [((s.timerOf e).id, step)])
    (hwaiting : ∀ x, x ∈ t.timers ∨ x ∈ t.phase.unrun →
      (x ∈ others ∧ (x ∈ s.timers ∨ x ∈ s.phase.unrun)) ∨
        (t.timerOf x).Waits added t.log x.expiration)
    (hrunning : ∀ x ∈ t.phase.current, (t.timerOf x).Runs added t.log)
    (hran : ∀ x ∈ t.phase.toReset, (x ∈ others ∧ x ∈ s.phase.toReset) ∨
      (t.timerOf x).Ran added t.log)
    (hlate : ∀ now, t.phase.taken = some now → ∀ x ∈ t.phase.unrun, x.expiration < now) :
    t.Kept added := by
  have hmap : (t.held.map fun x => (t.timerOf x).id) = s.held.map fun x => (s.timerOf x).id := by
    rw [hheld, hheld', Multiset.map_cons, Multiset.map_cons, hid]
    congr 1
    exact Multiset.map_congr rfl fun x hx => by rw [hother x hx]
  have hentry : e ∈ s.held := hheld ▸ Multiset.mem_cons_self e others
  -- what has become of the others does not change
  have hkeep : ∀ x ∈ others, ∀ p, (s.timerOf x).Lives added s.log p →
      (t.timerOf x).Lives added t.log p := by
    intro x hx p hl
    rw [hother x hx, hlog]
    exact hl.snoc_ne (h.id_ne hheld hx)
  refine ⟨hmade.trans h.made, hmap ▸ h.ids, ?_, ?_, ?_, hrunning, ?_, ?_, hlate⟩
  · intro x hx
    have hmem := Multiset.mem_map_of_mem (fun x => (t.timerOf x).id) hx
    rw [hmap] at hmem
    obtain ⟨y, hy, heq⟩ := Multiset.mem_map.mp hmem
    rw [hmade, ← heq]
    exact h.born y hy
  · rw [hlog, hmade]
    intro p hp
    rcases List.mem_append.mp hp with hp | hp
    · exact h.logged p hp
    · rw [List.mem_singleton.mp hp]
      exact h.born e hentry
  · intro x hx
    rcases hwaiting x hx with ⟨hmem, hx⟩ | hx
    · have hw := h.waiting x hx
      refine ⟨hkeep x hmem _ hw.lives, ?_, ?_⟩
      · rw [hother x hmem, hw.expiration_eq]
      · rw [hother x hmem, hw.repeats]
    · exact hx
  · intro x hx
    rcases hran x hx with ⟨hmem, hx⟩ | hx
    · have hr := hkeep x hmem _ (h.ran x hx)
      rwa [← hother x hmem] at hr
    · exact hx
  · intro c hc hgone
    have hgone' : ∀ x ∈ s.held, (s.timerOf x).id ≠ c := by
      intro x hx heq
      have hmem := Multiset.mem_map_of_mem (fun x => (s.timerOf x).id) hx
      rw [← hmap] at hmem
      obtain ⟨y, hy, hyx⟩ := Multiset.mem_map.mp hmem
      exact hgone y hy (hyx.trans heq)
    rw [hlog, stepsOf_snoc_ne (hgone' e hentry)]
    exact h.gone c (hmade ▸ hc) hgone'

/-- **One timer is added**, under the next number. -/
theorem Kept.arrived {e : Entry} {interval : Interval} (h : s.Kept added)
    (hheld : t.held = e ::ₘ s.held) (hother : ∀ x ∈ s.held, t.timerOf x = s.timerOf x)
    (hnew : t.timerOf e = .new s.made e.expiration interval) (hmade : t.made = s.made + 1)
    (hlog : t.log = s.log) (hphase : t.phase = s.phase)
    (htimers : ∀ x ∈ t.timers, x = e ∨ x ∈ s.timers) :
    t.Kept (added ++ [(e.expiration, interval)]) := by
  have hid : (t.timerOf e).id = s.made := congrArg Timer.id hnew
  -- The number of the new timer is that of all timers made before it, so no other one has it.
  have hids : (t.held.map fun x => (t.timerOf x).id) =
      s.made ::ₘ s.held.map fun x => (s.timerOf x).id := by
    rw [hheld, Multiset.map_cons, hid]
    congr 1
    exact Multiset.map_congr rfl fun x hx => by rw [hother x hx]
  refine ⟨?_, ?_, ?_, ?_, ?_, ?_, ?_, ?_, ?_⟩
  · rw [hmade, List.length_append, ← h.made]
    rfl
  · rw [hids, Multiset.nodup_cons]
    refine ⟨?_, h.ids⟩
    intro hmem
    obtain ⟨x, hx, heq⟩ := Multiset.mem_map.mp hmem
    exact (h.born x hx).ne heq
  · intro x hx
    rw [hheld, Multiset.mem_cons] at hx
    rw [hmade]
    rcases hx with rfl | hx
    · rw [hid]
      exact Nat.lt_succ_self _
    · rw [hother x hx]
      exact Nat.lt_succ_of_lt (h.born x hx)
  · rw [hlog, hmade]
    intro p hp
    exact Nat.lt_succ_of_lt (h.logged p hp)
  · intro x hx
    have hcases : x = e ∨ x ∈ s.timers ∨ x ∈ s.phase.unrun := by
      rw [hphase] at hx
      rcases hx with hx | hx
      · exact (htimers x hx).imp_right .inl
      · exact .inr (.inr hx)
    rw [hlog]
    rcases hcases with rfl | hx
    · -- the new timer has made no step
      rw [hnew]
      refine ⟨⟨x.expiration, ?_, ?_⟩, rfl, rfl⟩
      · change (added ++ [(x.expiration, interval)])[s.made]? = _
        rw [h.made, List.getElem?_concat_length]
        rfl
      · change (timerLife x.expiration interval).Run (stepsOf s.log s.made) _
        rw [stepsOf_eq_nil h.logged]
        exact .nil rfl
    · have hw := h.waiting x hx
      rw [hother x (mem_held_of_waiting hx)]
      exact ⟨hw.lives.added_snoc _, hw.expiration_eq, hw.repeats⟩
  · rw [hphase, hlog]
    intro x hx
    have hr := h.running x hx
    rw [hother x (mem_held_of_current hx)]
    exact ⟨hr.lives.added_snoc _, hr.repeats⟩
  · rw [hphase, hlog]
    intro x hx
    rw [hother x (mem_held_of_toReset hx)]
    exact (h.ran x hx).added_snoc _
  · intro c hc hgone
    have hne : s.made ≠ c := by
      rw [← hid]
      exact hgone e (hheld ▸ Multiset.mem_cons_self e s.held)
    have hlt : c < s.made := by omega
    obtain ⟨timestamp, interval', hadded, hrun⟩ := h.gone c hlt fun x hx => by
      rw [← hother x hx]
      exact hgone x (hheld ▸ Multiset.mem_cons_of_mem hx)
    refine ⟨timestamp, interval', ?_, hlog ▸ hrun⟩
    rw [List.getElem?_append_left (h.made ▸ hlt)]
    exact hadded
  · rw [hphase]
    exact h.late

/-- **Timers change hands**: what is held, and what has become of it, stays the same. -/
theorem Kept.regrouped (h : s.Kept added) (hheld : t.held = s.held) (htimer : t.timer = s.timer)
    (hmade : t.made = s.made) (hlog : t.log = s.log)
    (hwaiting : ∀ x, x ∈ t.timers ∨ x ∈ t.phase.unrun → x ∈ s.timers ∨ x ∈ s.phase.unrun)
    (hrunning : ∀ x ∈ t.phase.current, x ∈ s.phase.current)
    (hran : ∀ x ∈ t.phase.toReset, x ∈ s.phase.toReset)
    (hlate : ∀ now, t.phase.taken = some now → ∀ x ∈ t.phase.unrun, x.expiration < now) :
    t.Kept added := by
  -- no timer is written
  have hsame : t.timerOf = s.timerOf := by
    funext x
    rw [timerOf, timerOf, htimer]
  refine ⟨hmade.trans h.made, ?_, ?_, ?_, ?_, ?_, ?_, ?_, hlate⟩
  · rw [hheld, hsame]
    exact h.ids
  · rw [hheld, hsame, hmade]
    exact h.born
  · rw [hlog, hmade]
    exact h.logged
  · intro x hx
    rw [hsame, hlog]
    exact h.waiting x (hwaiting x hx)
  · intro x hx
    rw [hsame, hlog]
    exact h.running x (hrunning x hx)
  · intro x hx
    rw [hsame, hlog]
    exact h.ran x (hran x hx)
  · rw [hheld, hsame, hmade, hlog]
    exact h.gone

/-- One entry of `active_timers_`, and the others. -/
theorem held_of_active {before rest : List Entry} {entry : Entry}
    (hp : s.phase.active = before ++ entry :: rest) :
    s.held = entry ::ₘ (s.timers.val + ((before ++ rest : List Entry) : Multiset Entry)) := by
  have hperm : ((before ++ entry :: rest : List Entry) : Multiset Entry) =
      entry ::ₘ ((before ++ rest : List Entry) : Multiset Entry) :=
    Multiset.coe_eq_coe.mpr List.perm_middle
  rw [held, hp, hperm, Multiset.add_cons]

theorem held_running {now : ℤ} {ran rest : List Entry} {entry : Entry}
    (hp : s.phase = .running now ran (entry :: rest)) :
    s.held = entry ::ₘ (s.timers.val + ((ran ++ rest : List Entry) : Multiset Entry)) :=
  held_of_active (congrArg HandleReadPhase.active hp)

theorem held_inCallback {now : ℤ} {ran rest : List Entry} {entry : Entry}
    (hp : s.phase = .inCallback now ran entry rest) :
    s.held = entry ::ₘ (s.timers.val + ((ran ++ rest : List Entry) : Multiset Entry)) :=
  held_of_active (congrArg HandleReadPhase.active hp)

theorem held_resetting {reset rest : List Entry} {entry : Entry}
    (hp : s.phase = .resetting reset (entry :: rest)) :
    s.held = entry ::ₘ (s.timers.val + (rest : Multiset Entry)) :=
  @held_of_active s [] rest entry (congrArg HandleReadPhase.active hp)

/-! ## Steps -/

theorem callNext_cons {now : ℤ} {ran rest : List Entry} {entry : Entry}
    (hp : s.phase = .running now ran (entry :: rest)) :
    s.callNext = { s with
      log := s.log ++ [((s.timerOf entry).id, .run now)]
      phase := .inCallback now ran entry rest } := by
  unfold callNext
  rw [hp]
  rfl

theorem Kept.callNext_cons {now : ℤ} {ran rest : List Entry} {entry : Entry} (h : s.Kept added)
    (hp : s.phase = .running now ran (entry :: rest)) : s.callNext.Kept added := by
  have hunrun : entry ∈ s.phase.unrun := by
    rw [hp]
    exact List.mem_cons_self
  have hheld := held_running hp
  rw [TimerQueue.callNext_cons hp]
  refine h.moved hheld (held_inCallback rfl) rfl (fun _ _ => rfl) rfl rfl ?_ ?_ ?_ ?_
  · rintro x (hx | hx)
    · exact .inl ⟨Multiset.mem_add.mpr (.inl hx), .inl hx⟩
    · refine .inl ⟨Multiset.mem_add.mpr (.inr ?_), .inr ?_⟩
      · exact Multiset.mem_coe.mpr (List.mem_append_right _ hx)
      · rw [hp]
        exact List.mem_cons_of_mem _ hx
  · -- the timer that is called has expired
    intro x hx
    obtain rfl := List.mem_singleton.mp hx
    have hw := h.waiting x (.inr hunrun)
    have hlate := h.late now (by rw [hp]; rfl) x hunrun
    exact ⟨hw.lives.snoc (.run hlate) rfl rfl, hw.repeats⟩
  · intro x hx
    refine .inl ⟨Multiset.mem_add.mpr (.inr ?_), by rw [hp]; exact hx⟩
    exact Multiset.mem_coe.mpr (List.mem_append_left _ hx)
  · intro now' hnow x hx
    refine h.late now' (by rw [hp]; exact hnow) x ?_
    rw [hp]
    exact List.mem_cons_of_mem _ hx

theorem callNext_nil {now : ℤ} {ran : List Entry} (hp : s.phase = .running now ran []) :
    s.callNext = { s with phase := .resetting [] ran } := by
  unfold callNext
  rw [hp]

/-- The loop ends, and `ResetTimers` begins. -/
theorem Kept.callNext_nil {now : ℤ} {ran : List Entry} (h : s.Kept added)
    (hp : s.phase = .running now ran []) : s.callNext.Kept added := by
  have hheld : s.held = s.timers.val + (ran : Multiset Entry) := by
    rw [held, hp, HandleReadPhase.active, List.append_nil]
  rw [TimerQueue.callNext_nil hp]
  refine h.regrouped hheld.symm rfl rfl rfl ?_ ?_ ?_ ?_
  · rintro e (he | he)
    · exact .inl he
    · cases he
  · intro e he
    cases he
  · intro e he
    rw [hp]
    exact he
  · intro now' hnow
    cases hnow

/-- The kernel's timer and what it is set to do not matter to the timers. -/
theorem Kept.withTimerfd (h : s.Kept added) (timerfd : Timerfd) (armings : List Itimerspec) :
    { s with timerfd := timerfd, armings := armings }.Kept added :=
  ⟨h.made, h.ids, h.born, h.logged, h.waiting, h.running, h.ran, h.gone, h.late⟩

theorem Kept.readTimerFd (h : s.Kept added) : s.readTimerFd.Kept added := by
  unfold TimerQueue.readTimerFd
  split
  · exact h.withTimerfd .disarmed s.armings
  · exact h

theorem readTimerFd_phase : s.readTimerFd.phase = s.phase := by
  unfold readTimerFd
  split <;> rfl

theorem handleRead_eq (s : TimerQueue) (now : ℤ) :
    s.handleRead now = { s with
      timerfd := s.readTimerFd.timerfd
      phase := .running now [] ((s.expiredTimers now).sort (· ≤ ·))
      timers := s.timers.filter (¬ · < ⟨now, 0⟩) } := by
  unfold handleRead readTimerFd
  split <;> rfl

/-- `HandleRead` moves the timers that have expired. -/
theorem Kept.handleRead {now : ℤ} (h : s.Kept added) (hp : s.phase = .idle) :
    (s.handleRead now).Kept added := by
  have h := h.readTimerFd
  rw [← readTimerFd_phase] at hp
  unfold TimerQueue.handleRead
  generalize s.readTimerFd = s at h hp
  -- the two parts of the set together
  have hheld : s.held = (s.timers.filter (¬ · < ⟨now, 0⟩)).val +
      (((s.expiredTimers now).sort (· ≤ ·) : List Entry) : Multiset Entry) := by
    rw [held, hp, HandleReadPhase.active, Finset.sort_eq, expiredTimers, Finset.filter_val,
      Finset.filter_val, add_comm (Multiset.filter _ _), Multiset.filter_add_not]
    exact add_zero _
  refine h.regrouped hheld.symm rfl rfl rfl ?_ ?_ ?_ ?_
  · rintro e (he | he)
    · exact .inl (Finset.mem_of_mem_filter e he)
    · have hmem : e ∈ s.expiredTimers now := (Finset.mem_sort _).mp he
      exact .inl (Finset.mem_of_mem_filter e hmem)
  · intro e he
    cases he
  · intro e he
    cases he
  · -- the timers that are taken have expired
    intro now' hnow e he
    obtain rfl := Option.some.inj hnow
    have hmem : e ∈ s.expiredTimers now := (Finset.mem_sort _).mp he
    exact Entry.lt_null.mp (Finset.mem_filter.mp hmem).2

/-- After its callback a timer is to be restarted, or finished. -/
theorem lives_run {t : Timer} {log : List (ℕ × TimerStep)} {again : Bool}
    (hl : t.Lives added log .running) (hrepeats : t.repeats = t.interval.positive) :
    (t.run again).Lives added (log ++ [(t.id, .ret again)])
      (if (t.run again).repeats then .due else .finished) := by
  unfold Timer.run
  split
  · rename_i hstop
    rw [Bool.or_eq_true, Bool.not_eq_true', Bool.not_eq_true'] at hstop
    exact hl.snoc (.last hstop) rfl rfl
  · rename_i hgo
    simp only [Bool.or_eq_true, Bool.not_eq_true', not_or, Bool.not_eq_false] at hgo
    obtain ⟨rfl, hpositive⟩ := hgo
    rw [hrepeats, hpositive, if_pos rfl]
    exact hl.snoc (.again hpositive) rfl rfl

theorem leaveCallback_eq {now : ℤ} {ran rest : List Entry} {entry : Entry} {again : Bool}
    (hp : s.phase = .inCallback now ran entry rest) :
    s.leaveCallback again = { s with
      timer := Function.update s.timer entry.timer ((s.timerOf entry).run again)
      log := s.log ++ [((s.timerOf entry).id, .ret again)]
      phase := .running now (ran ++ [entry]) rest } := by
  unfold leaveCallback
  rw [hp]
  rfl

theorem Kept.leaveCallback {now : ℤ} {ran rest : List Entry} {entry : Entry} {again : Bool}
    (h : s.Kept added) (hp : s.phase = .inCallback now ran entry rest) :
    (s.leaveCallback again).Kept added := by
  have hheld := held_inCallback hp
  have hself : Function.update s.timer entry.timer ((s.timerOf entry).run again) entry.timer =
      (s.timerOf entry).run again := Function.update_self _ _ _
  -- the entry passes from one part of `active_timers_` to the other
  have hheld' : s.timers.val + ((ran ++ [entry] ++ rest : List Entry) : Multiset Entry) =
      entry ::ₘ (s.timers.val + ((ran ++ rest : List Entry) : Multiset Entry)) := by
    rw [← hheld, held, hp, HandleReadPhase.active, List.append_assoc, List.singleton_append]
  rw [leaveCallback_eq hp]
  refine h.moved hheld hheld' ?_ ?_ rfl rfl ?_ ?_ ?_ ?_
  · exact (congrArg Timer.id hself).trans (Timer.run_id _ _)
  · intro x hx
    exact Function.update_of_ne (h.timer_ne hheld hx) _ _
  · rintro x (hx | hx)
    · exact .inl ⟨Multiset.mem_add.mpr (.inl hx), .inl hx⟩
    · refine .inl ⟨Multiset.mem_add.mpr (.inr ?_), .inr (by rw [hp]; exact hx)⟩
      exact Multiset.mem_coe.mpr (List.mem_append_right _ hx)
  · intro x hx
    cases hx
  · intro x hx
    rcases List.mem_append.mp hx with hx | hx
    · refine .inl ⟨Multiset.mem_add.mpr (.inr ?_), by rw [hp]; exact hx⟩
      exact Multiset.mem_coe.mpr (List.mem_append_left _ hx)
    · -- the timer whose callback returns
      obtain rfl := List.mem_singleton.mp hx
      have hr := h.running x (by rw [hp]; exact List.mem_singleton_self x)
      right
      change (Function.update s.timer x.timer _ x.timer).Lives _ _
        (if (Function.update s.timer x.timer _ x.timer).repeats then _ else _)
      rw [hself]
      exact lives_run hr.lives hr.repeats
  · intro now' hnow x hx
    exact h.late now' (by rw [hp]; exact hnow) x (by rw [hp]; exact hx)

/-- Only a timer that repeats is to be restarted. -/
theorem positive_of_due {timestamp : ℤ} {interval : Interval} {steps : List TimerStep}
    {p : TimerPhase} (hr : (timerLife timestamp interval).Run steps p) (hp : p = .due) :
    interval.positive = true := by
  cases hr with
  | nil h =>
    rw [hp] at h
    cases h
  | snoc hr hs =>
    subst hp
    cases hs with
    | again h => exact h

theorem resetNext_cons {reset rest : List Entry} {entry : Entry} {now : ℤ}
    (hp : s.phase = .resetting reset (entry :: rest))
    (hrepeats : (s.timerOf entry).repeats = true) :
    s.resetNext now = .ok { s with
      timers := Insert.insert ⟨now + (s.timerOf entry).interval.micros, entry.timer⟩ s.timers
      timer := Function.update s.timer entry.timer ((s.timerOf entry).reStart now)
      log := s.log ++ [((s.timerOf entry).id, .restart now)]
      phase := .resetting (reset ++ [entry]) rest } := by
  have hself : (Function.update s.timer entry.timer ((s.timerOf entry).reStart now)
      entry.timer).expiration = now + (s.timerOf entry).interval.micros := by
    rw [Function.update_self]
    rfl
  change (s.timer entry.timer).repeats = true at hrepeats
  unfold resetNext
  rw [hp]
  simp only [hrepeats, if_true, insert, setTimer, record]
  rw [← hself]
  rfl

theorem resetNext_of_not_repeats {reset rest : List Entry} {entry : Entry} {now : ℤ}
    (hp : s.phase = .resetting reset (entry :: rest))
    (hrepeats : (s.timerOf entry).repeats = false) :
    s.resetNext now = .ok { s with phase := .resetting (reset ++ [entry]) rest } := by
  change (s.timer entry.timer).repeats = false at hrepeats
  unfold resetNext
  rw [hp]
  simp only [hrepeats, Bool.false_eq_true, if_false]

/-- **One turn of `ResetTimers`**: the timer is put back if it repeats. -/
theorem resetNext_cons_cases {reset rest : List Entry} {entry : Entry} {now : ℤ}
    (hp : s.phase = .resetting reset (entry :: rest)) (h : s.resetNext now = .ok t) :
    ((s.timerOf entry).repeats = true ∧ t = { s with
      timers := Insert.insert ⟨now + (s.timerOf entry).interval.micros, entry.timer⟩ s.timers
      timer := Function.update s.timer entry.timer ((s.timerOf entry).reStart now)
      log := s.log ++ [((s.timerOf entry).id, .restart now)]
      phase := .resetting (reset ++ [entry]) rest }) ∨
    ((s.timerOf entry).repeats = false ∧
      t = { s with phase := .resetting (reset ++ [entry]) rest }) := by
  cases hrepeats : (s.timerOf entry).repeats with
  | true =>
    rw [resetNext_cons hp hrepeats] at h
    exact .inl ⟨rfl, (Except.ok.inj h).symm⟩
  | false =>
    rw [resetNext_of_not_repeats hp hrepeats] at h
    exact .inr ⟨rfl, (Except.ok.inj h).symm⟩

/-- **The end of `ResetTimers`**: the set is empty, or the timer of the kernel is set for the
earliest timer. -/
theorem resetNext_nil_cases {reset : List Entry} {now : ℤ} (hp : s.phase = .resetting reset [])
    (h : s.resetNext now = .ok t) :
    (s.begin = none ∧ t = { s with phase := .idle }) ∨
    ∃ (entry : Entry) (spec : Itimerspec), s.begin = some entry ∧ spec.Valid ∧ spec ≠ ⟨0, 0⟩ ∧
      t = { s with
        phase := .idle
        timerfd := .armed (max (s.timer entry.timer).expiration (now + 100)) now
        armings := s.armings ++ [spec] } := by
  unfold resetNext at h
  rw [hp] at h
  dsimp only at h
  split at h
  next hnone =>
    obtain rfl := Except.ok.inj h
    exact .inl ⟨hnone, rfl⟩
  next entry hsome =>
    obtain ⟨spec, hvalid, hne, hok⟩ := resetTimerFd_ok { s with phase := .idle } entry.timer now
    rw [hok] at h
    obtain rfl := Except.ok.inj h
    exact .inr ⟨entry, spec, hsome, hvalid, hne, rfl⟩

/-- `ResetTimers` puts a timer back that repeats. -/
theorem Kept.resetNext_cons {reset rest : List Entry} {entry : Entry} {now : ℤ} (h : s.Kept added)
    (hp : s.phase = .resetting reset (entry :: rest)) (hrepeats : (s.timerOf entry).repeats = true)
    (ht : s.resetNext now = .ok t) : t.Kept added := by
  have hheld := held_resetting hp
  have hself : Function.update s.timer entry.timer ((s.timerOf entry).reStart now) entry.timer =
      (s.timerOf entry).reStart now := Function.update_self _ _ _
  -- the set holds no timer at this address
  have hnew : (⟨now + (s.timerOf entry).interval.micros, entry.timer⟩ : Entry) ∉ s.timers := by
    intro hmem
    exact h.timer_ne hheld (Multiset.mem_add.mpr (.inl hmem)) rfl
  have hran := h.ran entry (by rw [hp]; exact List.mem_cons_self)
  rw [Timer.Ran, hrepeats, if_pos rfl] at hran
  rw [TimerQueue.resetNext_cons hp hrepeats] at ht
  obtain rfl := Except.ok.inj ht
  have hheld' :
      (Insert.insert ⟨now + (s.timerOf entry).interval.micros, entry.timer⟩ s.timers).val +
      (rest : Multiset Entry) = ⟨now + (s.timerOf entry).interval.micros, entry.timer⟩ ::ₘ
        (s.timers.val + (rest : Multiset Entry)) := by
    rw [Finset.insert_val_of_notMem hnew, Multiset.cons_add]
  refine h.moved hheld hheld' ?_ ?_ rfl rfl ?_ ?_ ?_ ?_
  · exact (congrArg Timer.id hself).trans rfl
  · intro x hx
    exact Function.update_of_ne (h.timer_ne hheld hx) _ _
  · rintro x (hx | hx)
    · rcases Finset.mem_insert.mp hx with rfl | hx
      · -- the timer that is put back
        right
        change (Function.update s.timer entry.timer _ entry.timer).Waits _ _ _
        rw [hself]
        obtain ⟨timestamp, -, hrun⟩ := id hran
        exact ⟨hran.snoc (.restart now) rfl rfl, rfl,
          hrepeats.trans (positive_of_due hrun rfl).symm⟩
      · exact .inl ⟨Multiset.mem_add.mpr (.inl hx), .inl hx⟩
    · cases hx
  · intro x hx
    cases hx
  · intro x hx
    refine .inl ⟨Multiset.mem_add.mpr (.inr (Multiset.mem_coe.mpr hx)), ?_⟩
    rw [hp]
    exact List.mem_cons_of_mem _ hx
  · intro now' hnow
    cases hnow

/-- `ResetTimers` drops a timer that is finished. -/
theorem Kept.resetNext_drop {reset rest : List Entry} {entry : Entry} {now : ℤ} (h : s.Kept added)
    (hp : s.phase = .resetting reset (entry :: rest)) (hrepeats : (s.timerOf entry).repeats = false)
    (ht : s.resetNext now = .ok t) : t.Kept added := by
  have hheld := held_resetting hp
  have hran := h.ran entry (by rw [hp]; exact List.mem_cons_self)
  rw [Timer.Ran, hrepeats, if_neg Bool.false_ne_true] at hran
  have hids := h.ids
  rw [hheld, Multiset.map_cons, Multiset.nodup_cons] at hids
  rw [resetNext_of_not_repeats hp hrepeats] at ht
  obtain rfl := Except.ok.inj ht
  refine ⟨h.made, hids.2, ?_, h.logged, ?_, ?_, ?_, ?_, ?_⟩
  · intro x hx
    exact h.born x (hheld ▸ Multiset.mem_cons_of_mem hx)
  · rintro x (hx | hx)
    · exact h.waiting x (.inl hx)
    · cases hx
  · intro x hx
    cases hx
  · intro x hx
    exact h.ran x (by rw [hp]; exact List.mem_cons_of_mem _ hx)
  · intro c hc hgone
    by_cases hentry : (s.timerOf entry).id = c
    · -- the timer that is dropped
      subst hentry
      obtain ⟨timestamp, hadded, hrun⟩ := hran
      exact ⟨timestamp, _, hadded, hrun⟩
    · refine h.gone c hc fun x hx => ?_
      rw [hheld, Multiset.mem_cons] at hx
      rcases hx with rfl | hx
      · exact hentry
      · exact hgone x hx
  · intro now' hnow
    cases hnow

/-- `ResetTimers` ends. -/
theorem Kept.resetNext_nil {reset : List Entry} {now : ℤ} (h : s.Kept added)
    (hp : s.phase = .resetting reset []) (ht : s.resetNext now = .ok t) : t.Kept added := by
  have hheld : s.held = s.timers.val + (([] : List Entry) : Multiset Entry) := by
    rw [held, hp]
    rfl
  have hidle : { s with phase := .idle }.Kept added := by
    refine h.regrouped hheld.symm rfl rfl rfl ?_ ?_ ?_ ?_
    · rintro x (hx | hx)
      · exact .inl hx
      · cases hx
    · intro x hx
      cases hx
    · intro x hx
      cases hx
    · intro now' hnow
      cases hnow
  rcases resetNext_nil_cases hp ht with ⟨-, rfl⟩ | ⟨entry, spec, -, -, -, rfl⟩
  · exact hidle
  · exact hidle.withTimerfd _ _

/-- A timer is added. -/
theorem Kept.addTimer {address : ℕ} {timestamp : ℤ} {interval : Interval} {now : ℤ}
    (h : s.Kept added) (hfresh : ∀ e ∈ s.held, e.timer ≠ address)
    (ht : s.addTimer address timestamp interval now = .ok t) :
    t.Kept (added ++ [(timestamp, interval)]) := by
  -- the set holds no timer at this address
  have hnotMem : (⟨timestamp, address⟩ : Entry) ∉ s.timers := by
    intro hmem
    exact hfresh _ (mem_held.mpr (.inl hmem)) rfl
  rw [addTimer_ok ht]
  refine h.arrived (e := ⟨timestamp, address⟩) ?_ ?_ (Function.update_self _ _ _) rfl rfl rfl ?_
  · rw [held, Finset.insert_val_of_notMem hnotMem, Multiset.cons_add]
    rfl
  · intro x hx
    exact Function.update_of_ne (hfresh x hx) _ _
  · intro x hx
    exact Finset.mem_insert.mp hx

/-- **Steps** keep the invariant. -/
theorem Kept.step {x : TimerAction} (h : s.Kept added) (hs : timerSystem.step s x t) :
    t.Kept (added ++ x.added.toList) := by
  obtain ⟨he, ha⟩ := hs
  have hsame : added ++ ([] : List (ℤ × Interval)) = added := List.append_nil added
  cases he with
  | addTimer timestamp interval now hfresh hp => exact h.addTimer hfresh ha
  | expire hfd =>
    obtain rfl := Except.ok.inj ha
    exact hsame.symm ▸ h.withTimerfd .expired s.armings
  | handleRead now hp => exact hsame.symm ▸ Except.ok.inj ha ▸ h.handleRead hp
  | @callNext now ran rest hp =>
    cases rest with
    | nil => exact hsame.symm ▸ Except.ok.inj ha ▸ h.callNext_nil hp
    | cons entry rest => exact hsame.symm ▸ Except.ok.inj ha ▸ h.callNext_cons hp
  | leaveCallback again hp => exact hsame.symm ▸ Except.ok.inj ha ▸ h.leaveCallback hp
  | @resetNext reset rest now hp =>
    cases rest with
    | nil => exact hsame.symm ▸ h.resetNext_nil hp ha
    | cons entry rest =>
      cases hrepeats : (s.timerOf entry).repeats with
      | true => exact hsame.symm ▸ h.resetNext_cons hp hrepeats ha
      | false => exact hsame.symm ▸ h.resetNext_drop hp hrepeats ha

theorem kept_init : Kept [] {} := by
  refine ⟨rfl, Multiset.nodup_zero, ?_, ?_, ?_, ?_, ?_, ?_, ?_⟩
  · intro e he
    cases he
  · intro p hp
    cases hp
  · rintro e (he | he) <;> cases he
  · intro e he
    cases he
  · intro e he
    cases he
  · intro c hc
    cases hc
  · intro now hnow
    cases hnow

/-- **Every run** keeps the invariant, for the timers that it adds. -/
theorem kept_of_run {xs : List TimerAction} (hr : timerSystem.Run xs s) :
    s.Kept (xs.filterMap TimerAction.added) := by
  refine hr.history (I := fun xs s => s.Kept (xs.filterMap TimerAction.added)) ?_ ?_
  · rintro s rfl
    exact kept_init
  · intro xs s x t h hs
    have ht := h.step hs
    rw [List.filterMap_append]
    cases x <;> exact ht

/-! ## The time at which timers are taken -/

theorem taken_callNext (s : TimerQueue) :
    s.callNext.phase.taken = s.phase.taken ∨ s.callNext.phase.taken = none := by
  unfold callNext
  split
  case h_1 hp =>
    rw [hp]
    exact .inl rfl
  case h_2 => exact .inr rfl
  case h_3 => exact .inl rfl

theorem taken_leaveCallback (s : TimerQueue) (again : Bool) :
    (s.leaveCallback again).phase.taken = s.phase.taken := by
  unfold leaveCallback
  split
  case h_1 hp =>
    rw [hp]
    rfl
  case h_2 => rfl

theorem taken_resetNext {now : ℤ} (h : s.resetNext now = .ok t) :
    t.phase.taken = s.phase.taken ∨ t.phase.taken = none := by
  cases hp : s.phase with
  | resetting reset rest =>
    refine .inr ?_
    cases rest with
    | nil => rcases resetNext_nil_cases hp h with ⟨-, rfl⟩ | ⟨_, _, -, -, -, rfl⟩ <;> rfl
    | cons entry rest => rcases resetNext_cons_cases hp h with ⟨-, rfl⟩ | ⟨-, rfl⟩ <;> rfl
  | idle | running | inCallback =>
    unfold resetNext at h
    rw [hp] at h
    obtain rfl := Except.ok.inj h
    rw [hp]
    exact .inl rfl

/-- **One step** leaves the time at which `HandleRead` took its timers, or ends the calls, or is
the step that reads it. -/
theorem taken_act {x : TimerAction} (h : s.act x = .ok t) :
    t.phase.taken = s.phase.taken ∨ t.phase.taken = none ∨
      ∃ now, x = .handleRead now ∧ t.phase.taken = some now := by
  cases x with
  | addTimer address timestamp interval now =>
    rw [addTimer_ok h]
    exact .inl rfl
  | expire =>
    obtain rfl := Except.ok.inj h
    exact .inl rfl
  | handleRead now =>
    obtain rfl := Except.ok.inj h
    exact .inr (.inr ⟨now, rfl, rfl⟩)
  | callNext =>
    obtain rfl := Except.ok.inj h
    exact s.taken_callNext.imp_right .inl
  | leaveCallback again =>
    obtain rfl := Except.ok.inj h
    exact .inl (s.taken_leaveCallback again)
  | resetNext now => exact (taken_resetNext h).imp_right .inl

end TimerQueue

end CppServerStudio
