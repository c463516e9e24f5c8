import CppServerStudio.Http.MainThread
import CppServerStudio.Library.Watchdogs

/-!
# Idle connections are closed, and no others

Each connection of a server that closes idle connections has a watchdog: the timers that are set for
it one after the other, whose callback looks at the time stamp that `onMessage` leaves.

## Main definitions

* `AutoCloseStep.watch`: what a step is for the watchdog of a connection
* `AutoCloseServer.Pending`: the timers of a connection that have not run
* `AutoCloseServer.Watched`: where the watchdog of a connection is

## Main results

* `AutoCloseServer.Watched.step`: the server follows the watchdog of each connection
* `autoCloseSystem_watched`: every open connection is watched, by one timer
* `autoCloseSystem_idle`: a connection is closed if it was idle, and kept if it was not
-/

namespace CppServerStudio

open Scanning

/-- What a step is for the watchdog of the connection `c`. -/
def AutoCloseStep.watch (c : ℕ) : AutoCloseStep → Option (WatchStep ℤ)
  | onMessage c' _ now => if c' = c then some (.hear now) else none
  | runAfter c' _ now _ => if c' = c then some (.arm now) else none
  | activeCloseConn c' taken => if c' = c then some (.call taken) else none
  | miss c' => if c' = c then some .miss else none
  | compare c' now => if c' = c then some (.look now) else none
  | _ => none

/-- **What is a step of a watchdog.** -/
theorem AutoCloseStep.watch_cases {c : ℕ} {x : AutoCloseStep} {y : WatchStep ℤ}
    (h : x.watch c = some y) :
    (∃ request now, x = .onMessage c request now ∧ y = .hear now) ∨
    (∃ address now now', x = .runAfter c address now now' ∧ y = .arm now) ∨
    (∃ taken, x = .activeCloseConn c taken ∧ y = .call taken) ∨
    (x = .miss c ∧ y = .miss) ∨ ∃ now, x = .compare c now ∧ y = .look now := by
  cases x with
  | onMessage c' request now =>
    obtain ⟨rfl, ⟨⟩⟩ := Option.ite_none_right_eq_some.mp h
    exact .inl ⟨request, now, rfl, rfl⟩
  | runAfter c' address now now' =>
    obtain ⟨rfl, ⟨⟩⟩ := Option.ite_none_right_eq_some.mp h
    exact .inr (.inl ⟨address, now, now', rfl, rfl⟩)
  | activeCloseConn c' taken =>
    obtain ⟨rfl, ⟨⟩⟩ := Option.ite_none_right_eq_some.mp h
    exact .inr (.inr (.inl ⟨taken, rfl, rfl⟩))
  | miss c' =>
    obtain ⟨rfl, ⟨⟩⟩ := Option.ite_none_right_eq_some.mp h
    exact .inr (.inr (.inr (.inl ⟨rfl, rfl⟩)))
  | compare c' now =>
    obtain ⟨rfl, ⟨⟩⟩ := Option.ite_none_right_eq_some.mp h
    exact .inr (.inr (.inr (.inr ⟨now, rfl, rfl⟩)))
  | http | accept | expire | handleRead | endCalls | lock | handleClose | leave | resetNext =>
    cases h

/-- The times that a step reads. -/
def AutoCloseStep.readings : AutoCloseStep → List ℤ
  | onMessage _ _ now | handleRead now | compare _ now | resetNext now => [now]
  | runAfter _ _ now now' => [now, now']
  | _ => []

theorem AutoCloseStep.mem_readings_of_watch {c : ℕ} {x : AutoCloseStep} {y : WatchStep ℤ}
    (h : x.watch c = some y) : ∀ now ∈ y.reading?, now ∈ x.readings := by
  intro now hnow
  rcases watch_cases h with ⟨_, t, rfl, rfl⟩ | ⟨_, t, _, rfl, rfl⟩ | ⟨_, rfl, rfl⟩ | ⟨rfl, rfl⟩ |
    ⟨t, rfl, rfl⟩
  · obtain rfl : t = now := Option.some.inj hnow
    exact List.mem_cons_self
  · obtain rfl : t = now := Option.some.inj hnow
    exact List.mem_cons_self
  · cases hnow
  · cases hnow
  · obtain rfl : t = now := Option.some.inj hnow
    exact List.mem_cons_self

/-- What the thread of the main reactor does for a connection. -/
inductive CheckStage
  | away
  | connecting
  | checking
  | kept
  | expired
  deriving DecidableEq

/-- The stage of a connection. -/
def CheckPhase.stage (c : ℕ) : CheckPhase → CheckStage
  | connecting c' => if c' = c then .connecting else .away
  | checking c' | locked c' => if c' = c then .checking else .away
  | kept c' => if c' = c then .kept else .away
  | expired c' => if c' = c then .expired else .away
  | leaving _ _ | outside => .away

/-! ## Timers that have not run -/

namespace TimerQueue

variable {s : TimerQueue} {added : List (ℤ × Interval)}

/-- A timer that does not repeat and waits has not run, and waits for its first expiration. -/
theorem Kept.first_of_waits (h : s.Kept added) (hone : ∀ x ∈ added, x.2.positive = false)
    {e : Entry} (he : e ∈ s.timers ∨ e ∈ s.phase.unrun) :
    runCount (stepsOf s.log (s.timerOf e).id) = 0 ∧
      added[(s.timerOf e).id]? = some (e.expiration, (s.timerOf e).interval) := by
  obtain ⟨timestamp, hadded, hrun⟩ := (h.waiting e he).lives
  have hpositive := hone _ (List.mem_of_getElem? hadded)
  rcases runCount_of_oneShot hpositive hrun with ⟨hp, hcount⟩ | ⟨hp | hp, -⟩
  · rw [TimerPhase.waiting.inj hp]
    exact ⟨hcount, hadded⟩
  · cases hp
  · cases hp

/-- A timer that does not repeat and has not run waits. -/
theorem Kept.exists_waits (h : s.Kept added) (hone : ∀ x ∈ added, x.2.positive = false) {i : ℕ}
    (hi : i < s.made) (hcount : runCount (stepsOf s.log i) = 0) :
    ∃ e, (e ∈ s.timers ∨ e ∈ s.phase.unrun) ∧ (s.timerOf e).id = i := by
  obtain ⟨timestamp, interval, p, hadded, hrun, -, hwaits, -⟩ := h.exists_phase hi
  have hpositive := hone _ (List.mem_of_getElem? hadded)
  rcases runCount_of_oneShot hpositive hrun with ⟨hp, -⟩ | ⟨-, hone⟩
  · obtain ⟨e, he, hid, -⟩ := hwaits timestamp hp
    exact ⟨e, he, hid⟩
  · omega

end TimerQueue

namespace AutoCloseServer

variable {s t : AutoCloseServer} {added added' : List (ℤ × Interval)} {c : ℕ}
  {callback : HttpRequest → HttpResponse → HttpResponse}

/-- A timer of the connection `c` that has not run. -/
def Pending (s : AutoCloseServer) (c i : ℕ) : Prop :=
  i < s.timers.made ∧ s.bound i = c ∧ runCount (stepsOf s.timers.log i) = 0

/-- Where the watchdog of a connection is when the main reactor is at some stage of it. -/
inductive Place (added : List (ℤ × Interval)) (c : ℕ) (s : AutoCloseServer) :
    CheckStage → WatchPhase ℤ → Prop
  | unmade (h : s.http.reactors.made ≤ c) (hnone : ∀ i, ¬ s.Pending c i) :
    Place added c s .away .fresh
  | connecting (hnone : ∀ i, ¬ s.Pending c i) : Place added c s .connecting .fresh
  | waiting {armed : ℤ} {i : ℕ} (hone : ∀ j, s.Pending c j ↔ j = i)
    (hadded : added[i]? = some (armed + autoCloseTimeout, ⟨false, 0⟩)) :
    Place added c s .away (.waiting armed)
  | checking (armed : ℤ) (hnone : ∀ i, ¬ s.Pending c i) :
    Place added c s .checking (.checking armed)
  | kept (hnone : ∀ i, ¬ s.Pending c i) : Place added c s .kept .kept
  | expired (hnone : ∀ i, ¬ s.Pending c i) : Place added c s .expired .expired
  | closed {p : WatchPhase ℤ} (hmade : c < s.http.reactors.made)
    (hstate : (s.http.reactors.conn c).state = .disconected) (hnone : ∀ i, ¬ s.Pending c i) :
    Place added c s .away p

/-- **The watchdog of a connection** has the time stamp of the connection, and is in its place. -/
structure Watched (added : List (ℤ × Interval)) (c : ℕ) (s : AutoCloseServer) (w : Watchdog ℤ) :
    Prop where
  stamp : w.stamp = s.timestamp c
  place : s.Place added c (s.phase.stage c) w.phase

/-- Nothing changes for a connection. -/
theorem Place.congr {stage : CheckStage} {p : WatchPhase ℤ} (h : s.Place added c stage p)
    (hmade : t.http.reactors.made = s.http.reactors.made)
    (hstate : c < s.http.reactors.made → (s.http.reactors.conn c).state = .disconected →
      (t.http.reactors.conn c).state = .disconected)
    (hpending : ∀ i, t.Pending c i ↔ s.Pending c i) (hadded : added <+: added') :
    t.Place added' c stage p := by
  have hnone : (∀ i, ¬ s.Pending c i) → ∀ i, ¬ t.Pending c i :=
    fun hnone i hi => hnone i ((hpending i).mp hi)
  cases h with
  | unmade h hn => exact .unmade (hmade ▸ h) (hnone hn)
  | connecting hn => exact .connecting (hnone hn)
  | waiting hone hi =>
    refine .waiting (fun j => (hpending j).trans (hone j)) ?_
    obtain ⟨later, rfl⟩ := hadded
    rwa [List.getElem?_append_left (List.getElem?_eq_some_iff.mp hi).1]
  | checking armed hn => exact .checking armed (hnone hn)
  | kept hn => exact .kept (hnone hn)
  | expired hn => exact .expired (hnone hn)
  | closed hm hs hn => exact .closed (hmade ▸ hm) (hstate hm hs) (hnone hn)

/-- A timer that is left to run is the one its watchdog waits for. -/
theorem Place.waits {stage : CheckStage} {p : WatchPhase ℤ} {i : ℕ} (h : s.Place added c stage p)
    (hi : s.Pending c i) : stage = .away ∧ (∀ j, s.Pending c j ↔ j = i) ∧ ∃ armed,
      p = .waiting armed ∧ added[i]? = some (armed + autoCloseTimeout, ⟨false, 0⟩) := by
  cases h with
  | waiting hone hadded =>
    obtain rfl := (hone i).mp hi
    exact ⟨rfl, hone, _, rfl, hadded⟩
  | unmade _ hn | connecting hn | checking _ hn | kept hn | expired hn | closed _ _ hn =>
    exact absurd hi (hn i)

/-! ## The steps, taken apart -/

theorem doHttp_eq_ok {e : HttpStep} (h : s.doHttp callback e = .ok t) :
    ∃ http, s.http.act callback e = .ok http ∧ t = { s with http := http } := by
  obtain ⟨http, hact, ht⟩ := bind_eq_ok.mp h
  refine ⟨http, ?_, (Except.ok.inj ht).symm⟩
  cases hs : s.http.act callback e with
  | error fault =>
    rw [hs] at hact
    cases hact
  | ok u =>
    rw [hs] at hact
    rw [Except.ok.inj hact]

theorem doTimer_eq_ok {x : TimerAction} (h : s.doTimer x = .ok t) :
    ∃ timers, s.timers.act x = .ok timers ∧ t = { s with timers := timers } := by
  obtain ⟨timers, hact, ht⟩ := bind_eq_ok.mp h
  refine ⟨timers, ?_, (Except.ok.inj ht).symm⟩
  cases hs : s.timers.act x with
  | error fault =>
    rw [hs] at hact
    cases hact
  | ok u =>
    rw [hs] at hact
    rw [Except.ok.inj hact]

/-- A step of the HTTP server changes nothing for a watchdog. -/
theorem Place.doHttp {stage : CheckStage} {p : WatchPhase ℤ} {e : HttpStep} {http : HttpReactors}
    (h : s.Place added c stage p) (hserving : s.http.Serving) (he : s.http.Enabled e)
    (hact : s.http.act callback e = .ok http) (haccept : ∀ fd, e ≠ .reactor (.accept fd))
    (hhttp : t.http = http) (htimers : t.timers = s.timers) (hbound : t.bound = s.bound) :
    t.Place added c stage p := by
  subst hhttp
  apply h.congr
  case hmade => exact HttpReactors.made_act hserving he hact haccept
  case hstate => exact HttpReactors.disconected_act hserving he hact
  case hpending =>
    intro i
    rw [Pending, Pending, htimers, hbound]
  case hadded => exact List.prefix_rfl

/-- A call into the timer queue that runs and adds no timer changes nothing, either. -/
theorem Place.doTimer {stage : CheckStage} {p : WatchPhase ℤ} (h : s.Place added c stage p)
    (hhttp : t.http = s.http) (hbound : t.bound = s.bound) (hmade : t.timers.made = s.timers.made)
    (hcount : ∀ i, runCount (stepsOf t.timers.log i) = runCount (stepsOf s.timers.log i)) :
    t.Place added c stage p := by
  apply h.congr
  case hmade => rw [hhttp]
  case hstate =>
    rw [hhttp]
    exact fun _ => id
  case hpending =>
    intro i
    rw [Pending, Pending, hbound, hmade, hcount]
  case hadded => exact List.prefix_rfl

theorem runCount_resetNext {u v : TimerQueue} {reset rest : List Entry} {now : ℤ}
    (hp : u.phase = .resetting reset rest) (h : u.resetNext now = .ok v) :
    v.made = u.made ∧ ∀ i, runCount (stepsOf v.log i) = runCount (stepsOf u.log i) := by
  cases rest with
  | nil =>
    rcases TimerQueue.resetNext_nil_cases hp h with ⟨-, rfl⟩ | ⟨_, _, -, -, -, rfl⟩ <;>
      exact ⟨rfl, fun _ => rfl⟩
  | cons entry rest =>
    rcases TimerQueue.resetNext_cons_cases hp h with ⟨-, rfl⟩ | ⟨-, rfl⟩
    · exact ⟨rfl, fun i => runCount_snoc (.inr nofun)⟩
    · exact ⟨rfl, fun _ => rfl⟩

/-- `HandleRead` and `ResetTimers` themselves run and add no timer. -/
theorem Watched.timers {w : Watchdog ℤ} {x : AutoCloseStep} (h : s.Watched added c w)
    (hx : x = .expire ∨ (∃ now, x = .handleRead now) ∨ x = .endCalls ∨ ∃ now, x = .resetNext now)
    (henabled : s.Enabled x) (hact : s.act callback x = .ok t) : t.Watched added c w := by
  have hkeep : ∀ {y : TimerAction} {timers : TimerQueue}, s.timers.act y = .ok timers →
      t = { s with timers := timers } → timers.made = s.timers.made ∧
        (∀ i, runCount (stepsOf timers.log i) = runCount (stepsOf s.timers.log i)) →
      t.Watched added c w := by
    rintro y timers - rfl ⟨hmade, hcount⟩
    exact ⟨h.stamp, h.place.doTimer rfl rfl hmade hcount⟩
  rcases hx with rfl | ⟨now, rfl⟩ | rfl | ⟨now, rfl⟩
  · obtain ⟨timers, htimers, ht⟩ := doTimer_eq_ok hact
    obtain rfl := Except.ok.inj htimers
    exact hkeep (y := .expire) rfl ht ⟨rfl, fun _ => rfl⟩
  · obtain ⟨timers, htimers, ht⟩ := doTimer_eq_ok hact
    obtain rfl := Except.ok.inj htimers
    refine hkeep (y := .handleRead now) rfl ht ?_
    rw [TimerQueue.handleRead_eq]
    exact ⟨rfl, fun _ => rfl⟩
  · obtain ⟨-, taken, ran, hp⟩ := henabled
    obtain ⟨timers, htimers, ht⟩ := doTimer_eq_ok hact
    obtain rfl := Except.ok.inj htimers
    refine hkeep (y := .callNext) rfl ht ?_
    rw [TimerQueue.callNext_nil hp]
    exact ⟨rfl, fun _ => rfl⟩
  · obtain ⟨-, henabled⟩ := henabled
    obtain ⟨timers, htimers, ht⟩ := doTimer_eq_ok hact
    cases henabled with
    | resetNext _ hp => exact hkeep htimers ht (runCount_resetNext hp htimers)

/-! ## One step -/

/-- What a step does to a watchdog, if it is one of its steps. -/
def WatchMoves (w : Watchdog ℤ) : Option (WatchStep ℤ) → Watchdog ℤ → Prop
  | none, w' => w' = w
  | some y, w' => w.Step autoCloseTimeout y w'

variable {w : Watchdog ℤ}

/-- The constructor of a connection. -/
theorem Watched.accept (hg : s.Guarded added) (h : s.Watched added c w) {fd : ℕ}
    (hx : s.Enabled (.accept fd)) (hact : s.act callback (.accept fd) = .ok t) :
    t.Watched added c w := by
  obtain ⟨he, hphase, -⟩ := hx
  obtain ⟨u, hdo, ht⟩ := bind_eq_ok.mp hact
  obtain ⟨http, hhttp, rfl⟩ := doHttp_eq_ok hdo
  obtain rfl := Except.ok.inj ht
  have hmade : http.reactors.made = s.http.reactors.made + 1 := by
    obtain rfl := Except.ok.inj (hhttp : (Except.ok _ : Except (ReactorFault ⊕ BufferFault) _) = _)
    exact (s.http.reactors.handleNewConnection_spec fd).1
  refine ⟨h.stamp, ?_⟩
  have hplace := h.place
  rw [hphase] at hplace
  change Place _ _ _ (if s.http.reactors.made = c then _ else _) _
  split_ifs with hc
  · -- the new connection
    have hnone : ∀ i, ¬ s.Pending c i := by
      rintro i ⟨hi, hbound, -⟩
      have := hg.bound i hi
      omega
    generalize w.phase = p at hplace
    cases hplace with
    | unmade _ _ => exact .connecting hnone
    | waiting hone _ => exact absurd ((hone _).mpr rfl) (hnone _)
    | closed hm _ _ => omega
  · generalize w.phase = p at hplace
    cases hplace with
    | unmade hm hn => exact .unmade (by change http.reactors.made ≤ c; omega) hn
    | waiting hone hi => exact .waiting hone hi
    | closed hm hs hn =>
      refine .closed ?_ (HttpReactors.disconected_act hg.serving he hhttp hm hs) hn
      change c < http.reactors.made
      omega

/-- **`RunAfter`** sets the timer of one connection. -/
theorem Watched.runAfter (hg : s.Guarded added) (h : s.Watched added c w) {c' address : ℕ}
    {now now' : ℤ} (hx : s.Enabled (.runAfter c' address now now'))
    (hact : s.act callback (.runAfter c' address now now') = .ok t) :
    ∃ w', WatchMoves w (AutoCloseStep.watch c (.runAfter c' address now now')) w' ∧
      t.Watched (added ++ [(now + autoCloseTimeout, ⟨false, 0⟩)]) c w' := by
  obtain ⟨hphase, -⟩ := hx
  obtain ⟨u, hrun, ht⟩ := bind_eq_ok.mp hact
  obtain ⟨v, hdo, hu⟩ := bind_eq_ok.mp hrun
  obtain ⟨timers, htimers, rfl⟩ := doTimer_eq_ok hdo
  obtain rfl := Except.ok.inj hu
  obtain rfl := Except.ok.inj ht
  have heq := TimerQueue.addTimer_ok htimers
  have hmade : timers.made = s.timers.made + 1 := by rw [heq]
  have hlog : timers.log = s.timers.log := by rw [heq]
  -- the main reactor leaves the connection
  have haway : ∀ d, (if s.phase = .kept c' then .leaving (some c') true else
      .outside : CheckPhase).stage d = .away := by
    intro d
    split_ifs <;> rfl
  have hstage : ∀ d ≠ c', s.phase.stage d = .away := by
    intro d hd
    rcases hphase with hp | hp <;> rw [hp] <;> exact if_neg hd.symm
  by_cases hc : c' = c
  · subst hc
    -- no timer of the connection is left to run
    have hnone : (∀ i, ¬ s.Pending c' i) ∧ (w.phase = .fresh ∨ w.phase = .kept) := by
      have hplace := h.place
      generalize w.phase = p at hplace
      rcases hphase with hp | hp
      · rw [hp, CheckPhase.stage, if_pos rfl] at hplace
        cases hplace with
        | connecting hn => exact ⟨hn, .inl rfl⟩
      · rw [hp, CheckPhase.stage, if_pos rfl] at hplace
        cases hplace with
        | kept hn => exact ⟨hn, .inr rfl⟩
    refine ⟨{ w with phase := .waiting now }, ?_, h.stamp, ?_⟩
    · rw [AutoCloseStep.watch, if_pos rfl]
      exact .arm now hnone.2
    change Place _ _ _ (CheckPhase.stage c' (if s.phase = .kept c' then _ else _)) _
    rw [haway]
    refine .waiting (i := s.timers.made) (fun j => ⟨?_, ?_⟩) ?_
    · rintro ⟨hj, hbound, hcount⟩
      by_contra hne
      have hold : j < s.timers.made := by
        change j < timers.made at hj
        omega
      change Function.update s.bound s.timers.made c' j = c' at hbound
      rw [Function.update_of_ne hne] at hbound
      exact hnone.1 j ⟨hold, hbound, hlog ▸ hcount⟩
    · rintro rfl
      refine ⟨by change _ < timers.made; omega, Function.update_self _ _ _, ?_⟩
      change runCount (stepsOf timers.log _) = 0
      rw [hlog, stepsOf_eq_nil hg.kept.logged]
      rfl
    · rw [hg.kept.made, List.getElem?_concat_length]
  · refine ⟨w, ?_, h.stamp, ?_⟩
    · rw [AutoCloseStep.watch, if_neg hc]
      rfl
    change Place _ _ _ (CheckPhase.stage c (if s.phase = .kept c' then _ else _)) _
    rw [haway]
    have hplace := h.place
    rw [hstage c (Ne.symm hc)] at hplace
    refine hplace.congr rfl (fun _ => id) (fun j => ?_) (List.prefix_append _ _)
    change j < timers.made ∧ Function.update s.bound s.timers.made c' j = c ∧
      runCount (stepsOf timers.log j) = 0 ↔ _
    rw [Pending, hlog, hmade]
    by_cases hj : j = s.timers.made
    · -- the new timer belongs to another connection
      subst hj
      simp [hc]
    · rw [Function.update_of_ne hj]
      have hlt : j < s.timers.made + 1 ↔ j < s.timers.made := by omega
      rw [hlt]

/-- **`HandleRead`** calls `ActiveCloseConn` for a timer that has expired. -/
theorem Watched.activeCloseConn (hg : s.Guarded added)
    (hone : ∀ x ∈ added, x.2 = ⟨false, 0⟩) (h : s.Watched added c w) {c' : ℕ} {taken : ℤ}
    (hx : s.Enabled (.activeCloseConn c' taken))
    (hact : s.act callback (.activeCloseConn c' taken) = .ok t) :
    ∃ w', WatchMoves w (AutoCloseStep.watch c (.activeCloseConn c' taken)) w' ∧
      t.Watched added c w' := by
  obtain ⟨hphase, ran, entry, rest, hp, rfl⟩ := hx
  obtain ⟨u, hdo, ht⟩ := bind_eq_ok.mp hact
  obtain ⟨timers, htimers, rfl⟩ := doTimer_eq_ok hdo
  obtain rfl := Except.ok.inj ht
  obtain rfl : s.timers.callNext = timers := Except.ok.inj htimers
  have hcall := TimerQueue.callNext_cons hp
  have hmem : entry ∈ s.timers.phase.unrun := by
    rw [hp]
    exact List.mem_cons_self
  -- the timer waited for its expiration, which has passed
  obtain ⟨hcount, hadded⟩ := hg.kept.first_of_waits (fun x hx => by rw [hone x hx]) (.inr hmem)
  have hborn := hg.kept.born entry (TimerQueue.mem_held_of_waiting (.inr hmem))
  have hlate := hg.kept.late taken (by rw [hp]; rfl) entry hmem
  have hother : ∀ j, (s.timers.timerOf entry).id ≠ j →
      runCount (stepsOf s.timers.callNext.log j) = runCount (stepsOf s.timers.log j) := by
    intro j hj
    rw [hcall]
    exact runCount_snoc (.inl hj)
  have hplace := h.place
  rw [hphase] at hplace
  by_cases hc : s.bound (s.timers.timerOf entry).id = c
  · obtain ⟨-, honly, armed, hwaiting, hexpires⟩ := hplace.waits ⟨hborn, hc, hcount⟩
    rw [hadded] at hexpires
    have hexpiration := (Prod.mk.inj (Option.some.inj hexpires)).1
    refine ⟨{ w with phase := .checking armed }, ?_, h.stamp, ?_⟩
    · rw [AutoCloseStep.watch, if_pos hc]
      exact .call taken hwaiting (hexpiration ▸ hlate)
    · change Place _ _ _ (if s.bound (s.timers.timerOf entry).id = c then _ else _) _
      rw [if_pos hc]
      refine .checking armed ?_
      rintro j ⟨hj, hbound, hzero⟩
      change runCount (stepsOf s.timers.callNext.log j) = 0 at hzero
      change j < s.timers.callNext.made at hj
      rw [hcall] at hj
      by_cases heq : (s.timers.timerOf entry).id = j
      · subst heq
        rw [hcall, runCount_snoc_run] at hzero
        omega
      · rw [hother j heq] at hzero
        exact heq ((honly j).mp ⟨hj, hbound, hzero⟩).symm
  · refine ⟨w, ?_, h.stamp, ?_⟩
    · rw [AutoCloseStep.watch, if_neg hc]
      rfl
    · change Place _ _ _ (if s.bound (s.timers.timerOf entry).id = c then _ else _) _
      rw [if_neg hc]
      refine hplace.congr rfl (fun _ => id) (fun j => ?_) List.prefix_rfl
      change j < s.timers.callNext.made ∧ s.bound j = c ∧
        runCount (stepsOf s.timers.callNext.log j) = 0 ↔ _
      rw [Pending, show s.timers.callNext.made = s.timers.made by rw [hcall]]
      -- the timers of this connection are not the one that runs
      refine and_congr_right fun _ => and_congr_right fun hbound => ?_
      rw [hother j fun heq => hc (heq ▸ hbound)]

/-- `lock` gives a reference to the connection. -/
theorem Watched.lock (hg : s.Guarded added) (h : s.Watched added c w) {c' : ℕ}
    (hx : s.Enabled (.lock c')) (hact : s.act callback (.lock c') = .ok t) :
    t.Watched added c w := by
  obtain ⟨hphase, hreferenced⟩ := hx
  obtain ⟨u, hdo, ht⟩ := bind_eq_ok.mp hact
  obtain ⟨http, hhttp, rfl⟩ := doHttp_eq_ok hdo
  obtain rfl := Except.ok.inj ht
  have he : s.http.Enabled (.reactor (.acquire c')) := ⟨hreferenced, nofun, nofun⟩
  refine ⟨h.stamp, ?_⟩
  have hplace := h.place
  rw [hphase] at hplace
  exact hplace.doHttp hg.serving he hhttp nofun rfl rfl rfl

/-- A connection that nothing refers to was closed. -/
theorem Guarded.disconected_of_unreferenced (hg : s.Guarded added)
    (hmade : c < s.http.reactors.made) (hc : ¬ s.http.reactors.Referenced c) :
    (s.http.reactors.conn c).state = .disconected := by
  by_contra hstate
  have hlive := hg.serving.orderly.live_of_state hmade hstate
  have hentry : s.http.reactors.connectionsMap (s.http.reactors.conn c).connfd = some c :=
    of_decide_eq_true (congrArg Ledger.entry hlive)
  exact hc (.inr (.inl ⟨_, hentry⟩))

/-- The connection of a timer is gone. -/
theorem Watched.miss (hg : s.Guarded added) (h : s.Watched added c w) {c' : ℕ}
    (hx : s.Enabled (.miss c')) (hact : s.act callback (.miss c') = .ok t) :
    ∃ w', WatchMoves w (AutoCloseStep.watch c (.miss c')) w' ∧ t.Watched added c w' := by
  obtain ⟨hphase, hunreferenced⟩ := hx
  obtain rfl := Except.ok.inj hact
  have hplace := h.place
  rw [hphase, CheckPhase.stage] at hplace
  by_cases hc : c' = c
  · subst hc
    rw [if_pos rfl] at hplace
    generalize hwp : w.phase = p at hplace
    cases hplace with
    | checking armed hn =>
      refine ⟨{ w with phase := .gone }, ?_, h.stamp, ?_⟩
      · rw [AutoCloseStep.watch, if_pos rfl]
        exact .miss hwp
      · have hmade := hg.subject c' (by rw [hphase]; rfl)
        exact .closed hmade (hg.disconected_of_unreferenced hmade hunreferenced) hn
  · refine ⟨w, by rw [AutoCloseStep.watch, if_neg hc]; rfl, h.stamp, ?_⟩
    rw [if_neg hc] at hplace
    exact hplace.doTimer rfl rfl rfl fun _ => rfl

/-- **The time stamp is compared with the clock.** -/
theorem Watched.compare (h : s.Watched added c w) {c' : ℕ} {now : ℤ}
    (hx : s.Enabled (.compare c' now)) (hact : s.act callback (.compare c' now) = .ok t) :
    ∃ w', WatchMoves w (AutoCloseStep.watch c (.compare c' now)) w' ∧ t.Watched added c w' := by
  have hphase : s.phase = .locked c' := hx
  obtain rfl := Except.ok.inj hact
  have hplace := h.place
  rw [hphase, CheckPhase.stage] at hplace
  by_cases hc : c' = c
  · subst hc
    rw [if_pos rfl] at hplace
    generalize hwp : w.phase = p at hplace
    cases hplace with
    | checking armed hn =>
      rw [AutoCloseStep.watch, if_pos rfl]
      split_ifs with hold
      · refine ⟨{ w with phase := .expired }, .expire now hwp (h.stamp ▸ hold), h.stamp, ?_⟩
        change Place _ _ _ (if c' = c' then _ else _) _
        rw [if_pos rfl]
        exact .expired hn
      · refine ⟨{ w with phase := .kept }, .keep now hwp (h.stamp ▸ hold), h.stamp, ?_⟩
        change Place _ _ _ (if c' = c' then _ else _) _
        rw [if_pos rfl]
        exact .kept hn
  · refine ⟨w, by rw [AutoCloseStep.watch, if_neg hc]; rfl, h.stamp, ?_⟩
    rw [if_neg hc] at hplace
    have haway : (if s.timestamp c' + autoCloseTimeout < now then CheckPhase.expired c'
        else .kept c').stage c = .away := by
      split_ifs <;> exact if_neg hc
    change Place _ _ _ (CheckPhase.stage c (if _ then _ else _)) _
    rw [haway]
    exact hplace.doTimer rfl rfl rfl fun _ => rfl

/-- `HandleClose` closes the connection that was given up. -/
theorem Watched.handleClose (hg : s.Guarded added) (h : s.Watched added c w) {c' : ℕ}
    (hx : s.Enabled (.handleClose c')) (hact : s.act callback (.handleClose c') = .ok t) :
    t.Watched added c w := by
  have hphase : s.phase = .expired c' := hx
  obtain ⟨u, hdo, ht⟩ := bind_eq_ok.mp hact
  obtain ⟨http, hhttp, rfl⟩ := doHttp_eq_ok hdo
  obtain rfl := Except.ok.inj ht
  have hbusy : ¬ s.Idle := not_idle_of_inCallback (by rw [hphase]; trivial)
  have hmade := hg.subject c' (by rw [hphase]; rfl)
  have he : s.http.Enabled (.reactor (.handleClose .main c')) := by
    refine ⟨⟨hmade, hg.free hbusy (by rw [hphase]; rintro _ _ ⟨⟩)⟩, ?_, by rintro _ ⟨⟩⟩
    rintro _ ⟨⟩
    exact (hg.resting hbusy).1
  refine ⟨h.stamp, ?_⟩
  have hplace := h.place
  rw [hphase, CheckPhase.stage] at hplace
  by_cases hc : c' = c
  · subst hc
    rw [if_pos rfl] at hplace
    generalize w.phase = p at hplace
    cases hplace with
    | expired hn =>
      refine .closed ?_ ?_ hn
      · exact (HttpReactors.holders_act hg.serving he hhttp hmade).1
      · -- `HandleClose` sets the state, if it is not set
        obtain rfl := Except.ok.inj
          (hhttp : (Except.ok _ : Except (ReactorFault ⊕ BufferFault) _) = _)
        change ((s.http.reactors.handleClose .main c').conn c').state = _
        unfold Reactors.handleClose
        split
        · simp [Reactors.setConn]
        · rename_i hstate
          exact not_not.mp hstate
  · rw [if_neg hc] at hplace
    exact hplace.doHttp hg.serving he hhttp (by rintro _ ⟨⟩) rfl rfl rfl

/-- `ActiveCloseConn` returns. -/
theorem Watched.leave (hg : s.Guarded added) (h : s.Watched added c w)
    (hx : s.Enabled .leave) (hact : s.act callback .leave = .ok t) : t.Watched added c w := by
  obtain ⟨-, held, again, hphase⟩ := hx
  obtain ⟨now, ran, entry, rest, hp⟩ := hg.inCallback.mp (by rw [hphase]; trivial)
  simp only [AutoCloseServer.act, hphase] at hact
  obtain ⟨u, hrelease, hact⟩ := bind_eq_ok.mp hact
  obtain ⟨v, hdo, ht⟩ := bind_eq_ok.mp hact
  obtain ⟨timers, htimers, rfl⟩ := doTimer_eq_ok hdo
  obtain rfl := Except.ok.inj ht
  -- first the reference goes
  have hu : u.Watched added c w ∧ u.timers = s.timers ∧ u.phase = s.phase := by
    cases held with
    | none =>
      obtain rfl := Except.ok.inj hrelease
      exact ⟨h, rfl, rfl⟩
    | some c' =>
      obtain ⟨http, hhttp, rfl⟩ := doHttp_eq_ok hrelease
      have he : s.http.Enabled (.reactor (.release c')) :=
        ⟨hg.held c' (by rw [hphase]; rfl), by rintro _ ⟨⟩, by rintro _ ⟨⟩⟩
      exact ⟨⟨h.stamp, h.place.doHttp hg.serving he hhttp (by rintro _ ⟨⟩) rfl rfl rfl⟩, rfl, rfl⟩
  obtain ⟨hu, hsame, hsamePhase⟩ := hu
  have hplace := hu.place
  rw [hsamePhase, hphase] at hplace
  rw [hsame] at htimers
  obtain rfl : s.timers.leaveCallback again = timers := Except.ok.inj htimers
  refine ⟨hu.stamp, hplace.doTimer rfl rfl ?_ fun i => ?_⟩
  · change (s.timers.leaveCallback again).made = _
    rw [hsame, TimerQueue.leaveCallback_eq hp]
  · change runCount (stepsOf (s.timers.leaveCallback again).log i) = _
    rw [hsame, TimerQueue.leaveCallback_eq hp]
    exact runCount_snoc (.inr (by rintro _ ⟨⟩))

/-- **One step** of the server is a step of the watchdog of a connection, or leaves it alone. -/
theorem Watched.step (hg : s.Guarded added) (hone : ∀ x ∈ added, x.2 = ⟨false, 0⟩)
    (h : s.Watched added c w) {x : AutoCloseStep} (hx : s.Enabled x)
    (hact : s.act callback x = .ok t) :
    ∃ w', WatchMoves w (x.watch c) w' ∧ t.Watched (added ++ x.added.toList) c w' := by
  have hsame : added ++ ([] : List (ℤ × Interval)) = added := List.append_nil added
  cases x with
  | http e =>
    obtain ⟨hplain, he, -⟩ := hx
    obtain ⟨http, hhttp, rfl⟩ := doHttp_eq_ok hact
    have haccept : ∀ fd, e ≠ .reactor (.accept fd) := by
      rintro fd rfl
      exact hplain
    have hplace : Place added c { s with http := http } (s.phase.stage c) w.phase :=
      h.place.doHttp hg.serving he hhttp haccept rfl rfl rfl
    exact ⟨w, rfl, hsame.symm ▸ ⟨h.stamp, hplace⟩⟩
  | accept fd => exact ⟨w, rfl, hsame.symm ▸ h.accept hg hx hact⟩
  | onMessage c' request now =>
    obtain ⟨he, -⟩ := hx
    obtain ⟨u, hdo, ht⟩ := bind_eq_ok.mp hact
    obtain ⟨http, hhttp, rfl⟩ := doHttp_eq_ok hdo
    obtain rfl := Except.ok.inj ht
    have hplace : Place added c _ (s.phase.stage c) w.phase :=
      h.place.doHttp (t := { s with
        http := http
        timestamp := Function.update s.timestamp c' now }) hg.serving he hhttp nofun rfl rfl rfl
    by_cases hc : c' = c
    · subst hc
      refine ⟨{ w with stamp := now }, ?_, hsame.symm ▸ ⟨?_, hplace⟩⟩
      · rw [AutoCloseStep.watch, if_pos rfl]
        exact .hear now
      · change now = Function.update s.timestamp c' now c'
        rw [Function.update_self]
    · refine ⟨w, by rw [AutoCloseStep.watch, if_neg hc]; rfl, hsame.symm ▸ ⟨?_, hplace⟩⟩
      exact h.stamp.trans (Function.update_of_ne (Ne.symm hc) _ _).symm
  | runAfter c' address now now' => exact h.runAfter hg hx hact
  | expire => exact ⟨w, rfl, hsame.symm ▸ h.timers (.inl rfl) hx hact⟩
  | handleRead now => exact ⟨w, rfl, hsame.symm ▸ h.timers (.inr (.inl ⟨now, rfl⟩)) hx hact⟩
  | activeCloseConn c' taken => exact hsame.symm ▸ h.activeCloseConn hg hone hx hact
  | endCalls => exact ⟨w, rfl, hsame.symm ▸ h.timers (.inr (.inr (.inl rfl))) hx hact⟩
  | lock c' => exact ⟨w, rfl, hsame.symm ▸ h.lock hg hx hact⟩
  | miss c' => exact hsame.symm ▸ h.miss hg hx hact
  | compare c' now => exact hsame.symm ▸ h.compare hx hact
  | handleClose c' => exact ⟨w, rfl, hsame.symm ▸ h.handleClose hg hx hact⟩
  | leave => exact ⟨w, rfl, hsame.symm ▸ h.leave hg hx hact⟩
  | resetNext now =>
    exact ⟨w, rfl, hsame.symm ▸ h.timers (.inr (.inr (.inr ⟨now, rfl⟩))) hx hact⟩

end AutoCloseServer

/-! ## Runs -/

section Runs

variable {callback : HttpRequest → HttpResponse → HttpResponse} {threadNums : ℕ}
  {xs : List AutoCloseStep} {s : AutoCloseServer}

open AutoCloseServer

/-- No timer repeats. -/
theorem oneShot_added : ∀ x ∈ xs.filterMap AutoCloseStep.added, x.2 = (⟨false, 0⟩ : Interval) := by
  intro x hx
  obtain ⟨y, -, hy⟩ := List.mem_filterMap.mp hx
  cases y with
  | runAfter =>
    obtain rfl := Option.some.inj hy
    rfl
  | _ => cases hy

/-- **Every run** is one of the watchdog of each connection. -/
theorem watched_of_run (hrun : (autoCloseSystem callback threadNums).Run xs s) (c : ℕ) :
    ∃ w, (watchdog autoCloseTimeout 0).Run (xs.filterMap (AutoCloseStep.watch c)) w ∧
      s.Watched (xs.filterMap AutoCloseStep.added) c w := by
  induction hrun with
  | nil h =>
    obtain rfl := h
    exact ⟨⟨.fresh, 0⟩, .nil rfl, rfl, .unmade (Nat.zero_le c) fun i hi => Nat.not_lt_zero i hi.1⟩
  | snoc hrun hs ih =>
    obtain ⟨w, hw, hwatched⟩ := ih
    obtain ⟨hx, hact⟩ := hs
    obtain ⟨w', hmoves, hwatched'⟩ := hwatched.step (guarded_of_run hrun) oneShot_added hx hact
    rename_i x _
    rw [List.filterMap_append, List.filterMap_append]
    have hadded : [x].filterMap AutoCloseStep.added = x.added.toList := by
      cases x <;> rfl
    rw [hadded]
    refine ⟨w', ?_, hwatched'⟩
    cases hwatch : x.watch c with
    | none =>
      rw [hwatch] at hmoves
      obtain rfl := hmoves
      simpa [hwatch] using hw
    | some y =>
      rw [hwatch] at hmoves
      simpa [hwatch] using hw.snoc hmoves

/-- **Every open connection is watched.** In every interleaving a connection has at most one timer
in `timers_`; and while the main reactor is idle, a connection that is open has one, which was set
`AUTOCLOSETIMEOUT` before its expiration. What happens to the connection is what its watchdog does,
with the time stamp that `onMessage` leaves. -/
theorem autoCloseSystem_watched (hrun : (autoCloseSystem callback threadNums).Run xs s) {c : ℕ}
    (hmade : c < s.http.reactors.made) :
    ∃ w, (watchdog autoCloseTimeout 0).Run (xs.filterMap (AutoCloseStep.watch c)) w ∧
      w.stamp = s.timestamp c ∧
      (∀ e ∈ s.timers.timers, ∀ e' ∈ s.timers.timers, s.bound (s.timers.timerOf e).id = c →
        s.bound (s.timers.timerOf e').id = c → e = e') ∧
      (s.Idle → (s.http.reactors.conn c).state ≠ .disconected → ∃ e ∈ s.timers.timers,
        s.bound (s.timers.timerOf e).id = c ∧
          w.phase = .waiting (e.expiration - autoCloseTimeout)) := by
  obtain ⟨w, hw, hwatched⟩ := watched_of_run hrun c
  have hg := guarded_of_run hrun
  have hone : ∀ x ∈ xs.filterMap AutoCloseStep.added, x.2.positive = false := by
    intro x hx
    rw [oneShot_added x hx]
  refine ⟨w, hw, hwatched.stamp, ?_, ?_⟩
  · intro e he e' he' hc hc'
    -- both timers are left to run, so their numbers are the same
    obtain ⟨hcount, -⟩ := hg.kept.first_of_waits hone (.inl he)
    obtain ⟨hcount', -⟩ := hg.kept.first_of_waits hone (.inl he')
    have hheld := TimerQueue.mem_held_of_waiting (.inl he : _ ∨ e ∈ s.timers.phase.unrun)
    have hheld' := TimerQueue.mem_held_of_waiting (.inl he' : _ ∨ e' ∈ s.timers.phase.unrun)
    obtain ⟨-, honly, -⟩ := hwatched.place.waits ⟨hg.kept.born e hheld, hc, hcount⟩
    have hid := (honly _).mp ⟨hg.kept.born e' hheld', hc', hcount'⟩
    exact Multiset.inj_on_of_nodup_map hg.kept.ids e hheld e' hheld' hid.symm
  · rintro ⟨hphase, hidle⟩ hstate
    have hplace := hwatched.place
    rw [hphase, CheckPhase.stage] at hplace
    generalize hwp : w.phase = p at hplace
    cases hplace with
    | unmade hle _ => omega
    | closed _ hs _ => exact absurd hs hstate
    | @waiting armed i honly hadded =>
      obtain ⟨hi, hc, hcount⟩ := (honly i).mpr rfl
      obtain ⟨e, he, hid⟩ := hg.kept.exists_waits hone hi hcount
      rw [hidle] at he
      have he := he.resolve_right List.not_mem_nil
      obtain ⟨-, hfirst⟩ := hg.kept.first_of_waits hone (.inl he)
      rw [hid, hadded] at hfirst
      have hexpiration := (Prod.mk.inj (Option.some.inj hfirst)).1
      refine ⟨e, he, hid ▸ hc, ?_⟩
      rw [← hexpiration, add_sub_cancel_right]

/-- `ActiveCloseConn` returns in one step of the queue. -/
theorem timers_leave {t : AutoCloseServer} (hact : s.act callback .leave = .ok t) :
    t.timers = s.timers ∨ ∃ again, t.timers = s.timers.leaveCallback again := by
  unfold AutoCloseServer.act at hact
  dsimp only at hact
  split at hact
  case h_1 held again _ =>
    obtain ⟨u, hrelease, hact⟩ := bind_eq_ok.mp hact
    obtain ⟨v, hdo, ht⟩ := bind_eq_ok.mp hact
    obtain ⟨timers, htimers, rfl⟩ := doTimer_eq_ok hdo
    obtain rfl := Except.ok.inj htimers
    obtain rfl := Except.ok.inj ht
    have hsame : u.timers = s.timers := by
      cases held with
      | none =>
        obtain rfl := Except.ok.inj hrelease
        rfl
      | some c =>
        obtain ⟨http, -, rfl⟩ := doHttp_eq_ok hrelease
        rfl
    exact .inr ⟨again, congrArg (TimerQueue.leaveCallback · again) hsame⟩
  case h_2 =>
    obtain rfl := Except.ok.inj hact
    exact .inl rfl

/-- **One step** leaves the timers, or is one step of the queue: a `HandleRead` only if that is what
it is. -/
theorem timers_act {t : AutoCloseServer} {x : AutoCloseStep} (hact : s.act callback x = .ok t) :
    t.timers = s.timers ∨ ∃ y, s.timers.act y = .ok t.timers ∧
      ∀ now, y = .handleRead now → x = .handleRead now := by
  cases x with
  | http e =>
    obtain ⟨http, -, rfl⟩ := doHttp_eq_ok hact
    exact .inl rfl
  | accept | onMessage | lock | handleClose =>
    obtain ⟨u, hdo, ht⟩ := bind_eq_ok.mp hact
    obtain ⟨http, -, rfl⟩ := doHttp_eq_ok hdo
    obtain rfl := Except.ok.inj ht
    exact .inl rfl
  | runAfter =>
    obtain ⟨u, hdo, ht⟩ := bind_eq_ok.mp hact
    obtain ⟨v, hdo, hu⟩ := bind_eq_ok.mp hdo
    obtain ⟨timers, htimers, rfl⟩ := doTimer_eq_ok hdo
    obtain rfl := Except.ok.inj hu
    obtain rfl := Except.ok.inj ht
    exact .inr ⟨_, htimers, by rintro _ ⟨⟩⟩
  | expire | endCalls | resetNext =>
    obtain ⟨timers, htimers, rfl⟩ := doTimer_eq_ok hact
    exact .inr ⟨_, htimers, by rintro _ ⟨⟩⟩
  | handleRead now =>
    obtain ⟨timers, htimers, rfl⟩ := doTimer_eq_ok hact
    exact .inr ⟨_, htimers, by rintro _ ⟨⟩; rfl⟩
  | activeCloseConn =>
    obtain ⟨u, hdo, ht⟩ := bind_eq_ok.mp hact
    obtain ⟨timers, htimers, rfl⟩ := doTimer_eq_ok hdo
    obtain rfl := Except.ok.inj ht
    exact .inr ⟨_, htimers, by rintro _ ⟨⟩⟩
  | miss | compare =>
    obtain rfl := Except.ok.inj hact
    exact .inl rfl
  | leave =>
    rcases timers_leave hact with heq | ⟨again, heq⟩
    · exact .inl heq
    · exact .inr ⟨.leaveCallback again, congrArg Except.ok heq.symm, by rintro _ ⟨⟩⟩

/-- The time at which `HandleRead` took its timers was read. -/
theorem taken_of_run (hrun : (autoCloseSystem callback threadNums).Run xs s) {taken : ℤ}
    (htaken : s.timers.phase.taken = some taken) : taken ∈ xs.flatMap AutoCloseStep.readings := by
  induction hrun with
  | nil h =>
    obtain rfl := h
    cases htaken
  | @snoc xs s x t hrun hs ih =>
    rw [List.flatMap_append, List.mem_append]
    rcases timers_act hs.2 with hsame | ⟨y, hy, hread⟩
    · exact .inl (ih (hsame ▸ htaken))
    · rcases TimerQueue.taken_act hy with heq | hnone | ⟨now, rfl, hnow⟩
      · exact .inl (ih (heq ▸ htaken))
      · rw [hnone] at htaken
        cases htaken
      · obtain rfl := Option.some.inj (hnow.symm.trans htaken)
        obtain rfl := hread now rfl
        exact .inr (by simp [AutoCloseStep.readings])

/-- The steps of a watchdog are in order if the clock does not go back. -/
theorem ordered_watch (hrun : (autoCloseSystem callback threadNums).Run xs s)
    (hclock : (0 :: xs.flatMap AutoCloseStep.readings).Pairwise (· ≤ ·)) (c : ℕ) :
    WatchStep.Ordered 0 (xs.filterMap (AutoCloseStep.watch c)) ∧
      ∀ y ∈ xs.filterMap (AutoCloseStep.watch c), ∀ t ∈ y.time?,
        t ∈ xs.flatMap AutoCloseStep.readings := by
  induction hrun with
  | nil h => exact ⟨⟨nofun, .nil⟩, nofun⟩
  | @snoc xs s x t hrun hs ih =>
    rw [List.flatMap_append, ← List.cons_append] at hclock
    obtain ⟨hclock', -, hlater⟩ := List.pairwise_append.mp hclock
    obtain ⟨hord, htimes⟩ := ih hclock'
    rw [List.filterMap_append, List.flatMap_append]
    have hold : ∀ y ∈ xs.filterMap (AutoCloseStep.watch c), ∀ t ∈ y.time?,
        t ∈ xs.flatMap AutoCloseStep.readings ++ [x].flatMap AutoCloseStep.readings :=
      fun y hy t ht => List.mem_append_left _ (htimes y hy t ht)
    cases hwatch : x.watch c with
    | none =>
      simp only [List.filterMap_cons, hwatch, List.filterMap_nil, List.append_nil]
      exact ⟨hord, hold⟩
    | some y =>
      simp only [List.filterMap_cons, hwatch, List.filterMap_nil]
      -- what the step reads is a reading of the server, and its time was read by then
      have hreading : ∀ now ∈ y.reading?, now ∈ [x].flatMap AutoCloseStep.readings := by
        rw [List.flatMap_singleton]
        exact AutoCloseStep.mem_readings_of_watch hwatch
      have htime : ∀ t ∈ y.time?, t ∈ xs.flatMap AutoCloseStep.readings ++
          [x].flatMap AutoCloseStep.readings := by
        intro t ht
        cases y with
        | call taken =>
          obtain rfl := Option.some.inj ht
          rcases AutoCloseStep.watch_cases hwatch with ⟨_, _, rfl, ⟨⟩⟩ | ⟨_, _, _, rfl, ⟨⟩⟩ |
            ⟨_, rfl, ⟨⟩⟩ | ⟨rfl, ⟨⟩⟩ | ⟨_, rfl, ⟨⟩⟩
          obtain ⟨-, ran, entry, rest, hp, -⟩ := hs.1
          exact List.mem_append_left _ (taken_of_run hrun (by rw [hp]; rfl))
        | arm | hear | look => exact List.mem_append_right _ (hreading t ht)
        | miss => cases ht
      refine ⟨⟨?_, ?_⟩, ?_⟩
      · intro z hz now hnow
        rcases List.mem_append.mp hz with hz | hz
        · exact hord.1 z hz now hnow
        · rw [List.mem_singleton.mp hz] at hnow
          exact hlater 0 List.mem_cons_self now (hreading now hnow)
      · refine List.pairwise_append.mpr ⟨hord.2, List.pairwise_singleton _ _, ?_⟩
        intro z hz z' hz' t ht now hnow
        rw [List.mem_singleton.mp hz'] at hnow
        exact hlater t (List.mem_cons_of_mem _ (htimes z hz t ht)) now (hreading now hnow)
      · intro z hz t ht
        rcases List.mem_append.mp hz with hz | hz
        · exact hold z hz t ht
        · rw [List.mem_singleton.mp hz] at ht
          exact htime t ht

/-- A message that a watchdog hears was handled by `onMessage`. -/
theorem exists_onMessage_of_hear {c : ℕ} {t : ℤ}
    (h : .hear t ∈ xs.filterMap (AutoCloseStep.watch c)) :
    ∃ request, .onMessage c request t ∈ xs := by
  obtain ⟨x, hx, hwatch⟩ := List.mem_filterMap.mp h
  rcases AutoCloseStep.watch_cases hwatch with ⟨request, _, rfl, ⟨⟩⟩ | ⟨_, _, _, rfl, ⟨⟩⟩ |
    ⟨_, rfl, ⟨⟩⟩ | ⟨rfl, ⟨⟩⟩ | ⟨_, rfl, ⟨⟩⟩
  exact ⟨request, hx⟩

/-- **A connection is closed if it was idle, and kept if it was not.** In every interleaving, with a
clock that does not go back, `ActiveCloseConn` gives a connection up only if no message was handled
on it for longer than `AUTOCLOSETIMEOUT`, and all its timers were set before that. It keeps the
connection only if, since each of its timers was set, a message was handled that is not older. -/
theorem autoCloseSystem_idle {c : ℕ} {now : ℤ}
    (hrun : (autoCloseSystem callback threadNums).Run (xs ++ [.compare c now]) s)
    (hclock : (0 :: (xs ++ [AutoCloseStep.compare c now]).flatMap AutoCloseStep.readings).Pairwise
      (· ≤ ·)) :
    (s.phase = .expired c ∧ (∀ request t, .onMessage c request t ∈ xs →
        t + autoCloseTimeout < now) ∧ ∀ address t t', .runAfter c address t t' ∈ xs →
          t + autoCloseTimeout < now) ∨
    (s.phase = .kept c ∧ ∀ ys address a a' zs, xs = ys ++ .runAfter c address a a' :: zs →
      ∃ request t, .onMessage c request t ∈ zs ∧ now ≤ t + autoCloseTimeout) := by
  obtain ⟨w, hw, hwatched⟩ := watched_of_run hrun c
  obtain ⟨hord, -⟩ := ordered_watch hrun hclock c
  have hwatch : (xs ++ [AutoCloseStep.compare c now]).filterMap (AutoCloseStep.watch c) =
      xs.filterMap (AutoCloseStep.watch c) ++ [.look now] := by
    simp [List.filterMap_append, AutoCloseStep.watch]
  rw [hwatch] at hw hord
  -- the outcome of the comparison is the state of the watchdog
  obtain ⟨u, -, -, hact⟩ := hrun.of_snoc
  have hphase : s.phase = .expired c ∨ s.phase = .kept c := by
    obtain rfl := Except.ok.inj hact
    change (if u.timestamp c + autoCloseTimeout < now then CheckPhase.expired c else .kept c) = _ ∨
      (if u.timestamp c + autoCloseTimeout < now then CheckPhase.expired c else .kept c) = _
    split_ifs <;> simp
  have hplace := hwatched.place
  generalize hwp : w.phase = p at hplace
  rcases hphase with hp | hp
  · rw [hp, CheckPhase.stage, if_pos rfl] at hplace
    cases hplace with
    | expired hn =>
      obtain ⟨hheard, harmed⟩ := Watchdog.quiet_of_expired hw hord hwp
      refine .inl ⟨hp, fun request t ht => hheard t ?_, fun address t t' ht => harmed t ?_⟩
      · exact List.mem_filterMap.mpr ⟨_, ht, by simp [AutoCloseStep.watch]⟩
      · exact List.mem_filterMap.mpr ⟨_, ht, by simp [AutoCloseStep.watch]⟩
  · rw [hp, CheckPhase.stage, if_pos rfl] at hplace
    cases hplace with
    | kept hn =>
      refine .inr ⟨hp, ?_⟩
      rintro ys address a a' zs rfl
      have hsplit : (ys ++ AutoCloseStep.runAfter c address a a' :: zs).filterMap
          (AutoCloseStep.watch c) = ys.filterMap (AutoCloseStep.watch c) ++
            .arm a :: zs.filterMap (AutoCloseStep.watch c) := by
        simp [List.filterMap_append, AutoCloseStep.watch]
      rw [hsplit] at hw hord
      obtain ⟨t, ht, hle⟩ := Watchdog.exists_heard_of_kept hw hord hwp
      obtain ⟨request, hmem⟩ := exists_onMessage_of_hear ht
      exact ⟨request, t, hmem, hle⟩

/-- A server, just started. -/
theorem enabled_accept (fd : ℕ) :
    Enabled { http := { reactors := { threadNums := threadNums } } } (.accept fd) := by
  have hopen : ¬ Reactors.Open { threadNums := threadNums } fd := by
    rintro ⟨c, hc, -⟩
    exact absurd hc (Nat.not_lt_zero c)
  refine ⟨⟨⟨hopen, fun _ => List.not_mem_nil, rfl⟩, ?_, nofun⟩, rfl, rfl⟩
  rintro _ ⟨⟩
  rfl

/-- A connection is accepted, and its timer is set. -/
theorem exists_run_armed (callback : HttpRequest → HttpResponse → HttpResponse) (fd : ℕ) (a : ℤ) :
    ∃ s, (autoCloseSystem callback 0).Run [.accept fd, .runAfter 0 1 a a] s ∧ s.Idle ∧
      s.http.reactors.made = 1 ∧ s.timers.timers = {⟨a + autoCloseTimeout, 1⟩} ∧
      s.bound (s.timers.timerOf ⟨a + autoCloseTimeout, 1⟩).id = 0 ∧
      (s.http.reactors.conn 0).state = .connected ∧ s.http.reactors.Free .main ∧
      (s.http.reactors.loop .main).batch = none ∧ s.http.handling .main = none := by
  obtain ⟨s, hrun, hphase, htimers, hmade, hstate, hclosing, hbatch, hhandling⟩ : ∃ s,
      (autoCloseSystem callback 0).Run [.accept fd] s ∧ s.phase = .connecting 0 ∧
        s.timers = {} ∧ s.http.reactors.made = 1 ∧
        (s.http.reactors.conn 0).state = .connected ∧ s.http.reactors.closing = [] ∧
        (s.http.reactors.loop .main).batch = none ∧ s.http.handling .main = none :=
    ⟨_, LTS.Run.snoc (.nil rfl) ⟨enabled_accept fd, rfl⟩, rfl, rfl, rfl, rfl, rfl, rfl, rfl⟩
  have hrunAfter : s.Enabled (.runAfter 0 1 a a) := by
    refine ⟨.inl hphase, ?_⟩
    rw [htimers]
    exact .addTimer _ _ _ (by rintro entry ⟨⟩) (.inl rfl)
  obtain ⟨t, hact, -⟩ := (guarded_of_run hrun).act callback hrunAfter
  refine ⟨t, hrun.snoc ⟨hrunAfter, hact⟩, ?_⟩
  obtain ⟨u, hdo, ht⟩ := bind_eq_ok.mp hact
  obtain ⟨v, hdo, hu⟩ := bind_eq_ok.mp hdo
  obtain ⟨timers, hadd, rfl⟩ := doTimer_eq_ok hdo
  obtain rfl := Except.ok.inj hu
  obtain rfl := Except.ok.inj ht
  have heq := TimerQueue.addTimer_ok hadd
  refine ⟨⟨?_, ?_⟩, hmade, ?_, ?_, hstate, fun c hc => ?_, hbatch, hhandling⟩
  · change (if s.phase = .kept 0 then _ else _) = _
    rw [hphase]
    rfl
  · change timers.phase = _
    rw [heq, htimers]
  · change timers.timers = _
    rw [heq, htimers]
    rfl
  · change Function.update s.bound s.timers.made 0 (timers.timer 1).id = 0
    have htimer : timers.timer 1 =
        .new s.timers.made (a + autoCloseTimeout) ⟨false, 0⟩ := by
      rw [heq]
      simp only [Function.update_self]
    rw [htimer]
    simp [Timer.new]
  · change _ ∈ s.http.reactors.closing at hc
    rw [hclosing] at hc
    cases hc

/-- A connection that was accepted is watched. -/
theorem autoCloseSystem_watched_armed : ∃ s,
    (autoCloseSystem (fun _ response => response) 0).Run [.accept 7, .runAfter 0 1 5 5] s ∧
      ∃ e ∈ s.timers.timers, s.bound (s.timers.timerOf e).id = 0 := by
  obtain ⟨s, hrun, hidle, hmade, -, -, hstate, -⟩ :=
    exists_run_armed (fun _ response => response) 7 5
  obtain ⟨w, -, -, -, hwaits⟩ := autoCloseSystem_watched hrun (c := 0) (by omega)
  obtain ⟨e, he, hbound, -⟩ := hwaits hidle (by rw [hstate]; nofun)
  exact ⟨s, hrun, e, he, hbound⟩

/-- A connection that sends nothing is given up when its first timer has expired. -/
theorem autoCloseSystem_idle_silent : ∃ s,
    (autoCloseSystem (fun _ response => response) 0).Run [.accept 7, .runAfter 0 1 5 5,
      .handleRead 100000006, .activeCloseConn 0 100000006, .lock 0, .compare 0 100000007] s ∧
      s.phase = .expired 0 := by
  obtain ⟨s, hrun, hidle, hmade, htimers, hbound, hstate, hfree, hbatch, hhandling⟩ :=
    exists_run_armed (fun _ response => response) 7 5
  -- `HandleRead` takes the timer
  have hread : s.Enabled (.handleRead 100000006) :=
    ⟨hidle, hfree, hbatch, hhandling, .handleRead _ hidle.2⟩
  have hrun₁ := hrun.snoc ⟨hread, rfl⟩
  have hexpired : s.timers.expiredTimers 100000006 = {⟨100000005, 1⟩} := by
    rw [TimerQueue.expiredTimers, htimers, Finset.filter_singleton, if_pos]
    · rfl
    · rw [Entry.lt_null]
      decide
  have hcall : Enabled { s with timers := s.timers.handleRead 100000006 }
      (.activeCloseConn 0 100000006) := by
    refine ⟨hidle.1, [], ⟨100000005, 1⟩, [], ?_, ?_⟩
    · rw [TimerQueue.handleRead_eq, hexpired, Finset.sort_singleton]
    · rw [TimerQueue.handleRead_eq]
      exact hbound.symm
  obtain ⟨s₂, hrun₂, hphase₂, hhttp₂⟩ : ∃ s₂, (autoCloseSystem (fun _ response => response) 0).Run
      [.accept 7, .runAfter 0 1 5 5, .handleRead 100000006, .activeCloseConn 0 100000006] s₂ ∧
        s₂.phase = .checking 0 ∧ s₂.http = s.http :=
    ⟨_, hrun₁.snoc ⟨hcall, rfl⟩, rfl, rfl⟩
  -- the connection is open, so something refers to it
  have hreferenced : s.http.reactors.Referenced 0 := by
    by_contra hnot
    have hclosed := (guarded_of_run hrun).disconected_of_unreferenced (by omega) hnot
    rw [hstate] at hclosed
    cases hclosed
  have hlock : s₂.Enabled (.lock 0) := ⟨hphase₂, hhttp₂ ▸ hreferenced⟩
  obtain ⟨s₃, hrun₃, hphase₃⟩ : ∃ s₃, (autoCloseSystem (fun _ response => response) 0).Run
      [.accept 7, .runAfter 0 1 5 5, .handleRead 100000006, .activeCloseConn 0 100000006,
        .lock 0] s₃ ∧ s₃.phase = .locked 0 := ⟨_, hrun₂.snoc ⟨hlock, rfl⟩, rfl⟩
  have hcompare : s₃.Enabled (.compare 0 100000007) := hphase₃
  have hrun₄ := hrun₃.snoc ⟨hcompare, rfl⟩
  refine ⟨_, hrun₄, ?_⟩
  rcases autoCloseSystem_idle hrun₄ (by decide) with ⟨hphase, -⟩ | ⟨-, hkept⟩
  · exact hphase
  · -- it is not kept, since it sends nothing
    obtain ⟨request, t, hmem, -⟩ := hkept [.accept 7] 1 5 5 _ rfl
    simp at hmem

end Runs

end CppServerStudio
