import CppServerStudio.Rtsp.Turns

/-!
# The clock of a stream

A call of `readFrame` returns once the media clock has come up to the time. It does so as long as
the stream has a picture, all that is sent by then can be packed, and the product of the time stamp
does not wrap around: from 71 minutes and 35.01 seconds on, no product of 32 bits comes up to the
time any more.

## Main definitions

* `EsSender.KeepsTime`: a call returns with the clock at the time
* `EsStream.RunKeepsTime`: each call of a run keeps time
* `EsStream.Paced`: the times that the clock comes up to
* `EsStream.Due`: the units that are read by some time

## Main results

* `EsReader.OnTime.returns`, `EsReader.OnTime.paced`: what a call reads
* `EsSender.Sent.keepsTime_iff`: a call of a run
* `EsStream.runKeepsTime_iff`: the runs that keep time
-/

namespace CppServerStudio

open Scanning

/-- **A call keeps time**: it returns, the media clock is not behind the time less 50 ms, and if a
unit was read, it is less than 40 ms ahead of that. -/
def EsSender.KeepsTime (fresh : H264Nalu) (nowTime : ℤ) (s : EsSender) : Prop :=
  ∃ s' nalus rtps, Returns fresh nowTime s s' nalus rtps ∧
    nowTime - 50000 ≤ 1000 * (s'.reader.timeStamp.toNat : ℤ) ∧
    (nalus ≠ [] → 1000 * (s'.reader.timeStamp.toNat : ℤ) < nowTime - 50000 + 40000)

namespace EsStream

/-- Some unit is the first slice of a picture. -/
def HasPicture (stream : EsStream) : Prop := ∃ frame ∈ stream.frames, frame.2.decodeAble = true

open EsSender in
/-- Each call keeps time, of those made at these times one after the other. -/
def RunKeepsTime (stream : EsStream) (fresh : H264Nalu) (track : Track) (nows : List ℤ) : Prop :=
  ∀ before nowTime after, nows = before ++ nowTime :: after → ∀ s,
    Played fresh track (annexB stream.frames) before s → KeepsTime fresh nowTime s

/-- **The time of a call** has not come to 50 ms, in which the clock is not late; or the stream has
a picture, and a product of 32 bits can come up to the time. -/
def Paced (stream : EsStream) (nowTime : ℤ) : Prop :=
  nowTime ≤ 50000 ∨ (stream.HasPicture ∧ nowTime ≤ 4295010000)

/-- **The units that are read by some time**: the pictures in front of them take less than the time
less 50 ms. -/
def Due (stream : EsStream) (nowTime : ℤ) (j : ℕ) : Prop :=
  40000 * (Nat.count stream.First j : ℤ) < nowTime - 50000

end EsStream

namespace EsReader

variable {fresh nalu : H264Nalu} {stream : EsStream} {s s' t : EsReader} {nowTime : ℤ} {k j : ℕ}
  {nalus : List H264Nalu} {calls : List PackRtpCall}

theorem toNat_mul_1000 (x : UInt32) : (x * 1000).toNat = x.toNat * 1000 % 2 ^ 32 := by
  rw [UInt32.toNat_mul]
  rfl

theorem toNat_add_40 (x : UInt32) : (x + 40).toNat = (x.toNat + 40) % 2 ^ 32 := by
  rw [UInt32.toNat_add]
  rfl

/-- **On time**: the time stamp is a multiple of 40 ms whose product does not wrap around; without a
picture it is 0. -/
structure OnTime (stream : EsStream) (s : EsReader) (k j : ℕ) : Prop where
  position : At stream s k
  timeStamp : s.timeStamp.toNat = 40 * j
  le : j ≤ 107374
  noPicture : ¬ stream.HasPicture → j = 0

theorem onTime_start (stream : EsStream) : OnTime stream (start (annexB stream.frames)) 0 0 :=
  ⟨at_start stream, rfl, Nat.zero_le _, fun _ => rfl⟩

/-- The condition of the loop, on time. -/
theorem OnTime.late_iff (h : OnTime stream s k j) :
    s.late nowTime = true ↔ 40000 * (j : ℤ) < nowTime - 50000 := by
  have hle := h.le
  have hproduct : (s.timeStamp * 1000).toNat = 40000 * j := by
    rw [toNat_mul_1000, h.timeStamp, Nat.mod_eq_of_lt (by omega)]
    ring
  rw [late, decide_eq_true_eq, hproduct]
  push_cast
  rfl

/-- **A turn** that the condition lets begin moves the clock on by 40 ms if it reads the first slice
of a picture. -/
theorem OnTime.turn (h : OnTime stream s k j) (hlate : s.late nowTime = true)
    (hpaced : stream.Paced nowTime) :
    ∃ frame t nalu calls, stream.frames[k]? = some frame ∧ s.turn fresh = .ok (t, nalu, calls) ∧
      OnTime stream t ((k + 1) % stream.frames.length) (if frame.2.decodeAble then j + 1 else j) ∧
      j < 107374 := by
  rw [h.late_iff] at hlate
  obtain ⟨hpicture, hnow⟩ : stream.HasPicture ∧ nowTime ≤ 4295010000 :=
    hpaced.resolve_left (by omega)
  have hlt : j < 107374 := by omega
  obtain ⟨t, hturn, hat, hstamp, -⟩ := h.position.turn (List.getElem?_eq_getElem h.position.lt)
  refine ⟨_, t, _, _, List.getElem?_eq_getElem h.position.lt, hturn, ⟨hat, ?_, ?_, ?_⟩, hlt⟩
  · rw [hstamp]
    split_ifs
    · rw [toNat_add_40, h.timeStamp, Nat.mod_eq_of_lt (by omega)]
      ring
    · exact h.timeStamp
  · split_ifs <;> omega
  · exact fun hnot => absurd hpicture hnot

/-- The first slice of some picture comes after some units. -/
theorem exists_picture (hpicture : stream.HasPicture) (hk : k < stream.frames.length) :
    ∃ d < stream.frames.length, ∃ frame,
      stream.frames[(k + d) % stream.frames.length]? = some frame ∧ frame.2.decodeAble = true := by
  obtain ⟨frame, hframe, hslice⟩ := hpicture
  obtain ⟨p, hp, hget⟩ := List.getElem_of_mem hframe
  -- the distance from `k` to the picture, around the end of the stream
  refine ⟨(p + stream.frames.length - k) % stream.frames.length, Nat.mod_lt _ (by omega), frame,
    ?_, hslice⟩
  rw [Nat.add_mod_mod, show k + (p + stream.frames.length - k) = p + stream.frames.length by omega,
    Nat.add_mod_right, Nat.mod_eq_of_lt hp, List.getElem?_eq_getElem hp, hget]

theorem Returns.eq_of_nil (h : Returns fresh nowTime s s' [] calls) : s' = s := by
  obtain ⟨fuel, hrun⟩ := h
  cases fuel with
  | zero => cases hrun
  | succ fuel =>
    rcases readFrame_cases hrun with ⟨-, heq, -⟩ | ⟨-, t, nalu, nalus', calls₀, calls', -, -, h, -⟩
    · exact heq
    · cases h

/-- What a call comes to. -/
def Caught (stream : EsStream) (fresh : H264Nalu) (nowTime : ℤ) (s : EsReader) : Prop :=
  ∃ s' nalus calls, Returns fresh nowTime s s' nalus calls ∧ ∃ k' j', OnTime stream s' k' j' ∧
    nowTime - 50000 ≤ 40000 * (j' : ℤ) ∧ (nalus ≠ [] → 40000 * (j' : ℤ) < nowTime - 50000 + 40000)

theorem OnTime.caught_of_not_late (h : OnTime stream s k j) (hlate : s.late nowTime = false) :
    Caught stream fresh nowTime s := by
  have hnot : ¬ 40000 * (j : ℤ) < nowTime - 50000 := by
    rw [← h.late_iff, hlate]
    exact Bool.false_ne_true
  exact ⟨s, [], [], .of_not_late hlate, k, j, h, by omega, fun hne => absurd rfl hne⟩

/-- A turn at the time, and then what the rest of the call comes to. -/
theorem OnTime.caught_of_turn {k' j' : ℕ} (h : OnTime stream s k j) (hlate : s.late nowTime = true)
    (hturn : s.turn fresh = .ok (t, nalu, calls)) (ht : OnTime stream t k' j') (hj : j' ≤ j + 1)
    (hcaught : Caught stream fresh nowTime t) : Caught stream fresh nowTime s := by
  obtain ⟨s', nalus', calls', hrun, k₂, j₂, hend, hge, hlt⟩ := hcaught
  refine ⟨s', _, _, hrun.of_turn hlate hturn, k₂, j₂, hend, hge, fun _ => ?_⟩
  rw [h.late_iff] at hlate
  by_cases hnil : nalus' = []
  · -- the clock was late before this turn, and is not any more
    subst hnil
    obtain rfl := hrun.eq_of_nil
    have hstamp := ht.timeStamp.symm.trans hend.timeStamp
    omega
  · exact hlt hnil

/-- **A call** at the right time returns on time. -/
theorem OnTime.caught (h : OnTime stream s k j) (hpaced : stream.Paced nowTime) :
    Caught stream fresh nowTime s := by
  cases hlate : s.late nowTime with
  | false => exact h.caught_of_not_late hlate
  | true =>
    have hpicture : stream.HasPicture := by
      rw [h.late_iff] at hlate
      exact (hpaced.resolve_left (by omega)).1
    obtain ⟨d, hd, hslice⟩ := exists_picture hpicture h.position.lt
    clear hlate
    -- Induction on the pictures that may still come, and on the units before the next one.
    induction hm : (107374 - j) * stream.frames.length + d using Nat.strong_induction_on
      generalizing s k j d with
    | _ m ih =>
      subst hm
      cases hlate : s.late nowTime with
      | false => exact h.caught_of_not_late hlate
      | true =>
        obtain ⟨frame, t, nalu, calls, hframe, hturn, ht, hlt⟩ := h.turn hlate hpaced
        by_cases hfirst : frame.2.decodeAble = true
        · rw [if_pos hfirst] at ht
          obtain ⟨d', hd', hslice'⟩ := exists_picture hpicture ht.position.lt
          refine h.caught_of_turn hlate hturn ht le_rfl (ih _ ?_ ht d' hd' hslice' rfl)
          -- a picture less: the units before the next one may be many
          obtain ⟨c, hc⟩ : ∃ c, 107374 - j = c + 1 := ⟨107374 - (j + 1), by omega⟩
          rw [show 107374 - (j + 1) = c by omega, hc, Nat.add_mul]
          omega
        · rw [if_neg hfirst] at ht
          obtain ⟨picture, hget, hpic⟩ := hslice
          obtain ⟨d, rfl⟩ : ∃ d', d = d' + 1 := by
            refine Nat.exists_eq_succ_of_ne_zero ?_
            rintro rfl
            rw [Nat.add_zero, Nat.mod_eq_of_lt h.position.lt, hframe] at hget
            obtain rfl := Option.some.inj hget
            exact hfirst hpic
          refine h.caught_of_turn hlate hturn ht (Nat.le_succ j)
            (ih _ (by omega) ht d (by omega) ⟨picture, ?_, hpic⟩ rfl)
          rwa [Nat.mod_add_mod, show k + 1 + d = k + (d + 1) by omega]

/-! ## Calls at other times -/

/-- **The clock after any turns**: a multiple of 8 ms, and 0 without a picture. -/
structure Clock (stream : EsStream) (s : EsReader) : Prop where
  position : ∃ k, At stream s k
  multiple : s.timeStamp.toNat % 8 = 0
  noPicture : ¬ stream.HasPicture → s.timeStamp.toNat = 0

theorem OnTime.clock (h : OnTime stream s k j) : Clock stream s where
  position := ⟨k, h.position⟩
  multiple := by
    rw [h.timeStamp]
    omega
  noPicture hnot := by rw [h.timeStamp, h.noPicture hnot]

theorem Clock.turn (h : Clock stream s) (hturn : s.turn fresh = .ok (t, nalu, calls)) :
    Clock stream t := by
  obtain ⟨k, hk⟩ := h.position
  obtain ⟨t', hturn', hat, hstamp, -⟩ := hk.turn (List.getElem?_eq_getElem hk.lt)
  obtain ⟨rfl, -⟩ := Prod.mk.inj (Except.ok.inj (hturn'.symm.trans hturn))
  have hmultiple := h.multiple
  refine ⟨⟨_, hat⟩, ?_, fun hnot => ?_⟩
  · rw [hstamp]
    split_ifs
    · rw [toNat_add_40]
      omega
    · exact hmultiple
  · -- no unit moves the clock on
    rw [hstamp, if_neg fun hslice => hnot ⟨_, List.getElem_mem hk.lt, hslice⟩]
    exact h.noPicture hnot

/-- **Only a call at the right time** keeps time. -/
theorem OnTime.paced (h : OnTime stream s k j) (hrun : Returns fresh nowTime s s' nalus calls)
    (hge : nowTime - 50000 ≤ 1000 * (s'.timeStamp.toNat : ℤ))
    (hlt : nalus ≠ [] → 1000 * (s'.timeStamp.toNat : ℤ) < nowTime - 50000 + 40000) :
    stream.Paced nowTime := by
  obtain ⟨hclock, hnot⟩ := hrun.invariant (fun s t nalu calls hs _ hturn => hs.turn hturn) h.clock
  by_contra hpaced
  rw [EsStream.Paced, not_or, not_and] at hpaced
  by_cases hpicture : stream.HasPicture
  · have hlate := hpaced.2 hpicture
    have hj := h.le
    have hne : nalus ≠ [] := by
      rintro rfl
      obtain rfl := hrun.eq_of_nil
      rw [Bool.eq_false_iff, Ne, h.late_iff] at hnot
      omega
    -- the product has wrapped around, or is too small
    have hbound := hlt hne
    have hmultiple := hclock.multiple
    rw [late, decide_eq_false_iff_not, toNat_mul_1000] at hnot
    omega
  · have hzero := hclock.noPicture hpicture
    omega

/-! ## The turns of a call -/

/-- The state behind `n` turns, on time. -/
def OnTimeAt (stream : EsStream) (s : EsReader) (n : ℕ) : Prop :=
  OnTime stream s (n % stream.frames.length) (Nat.count stream.First n)

theorem OnTimeAt.turn {n : ℕ} (h : OnTimeAt stream s n) (hlate : s.late nowTime = true)
    (hpaced : stream.Paced nowTime) (hturn : s.turn fresh = .ok (t, nalu, calls)) :
    OnTimeAt stream t (n + 1) ∧ stream.Due nowTime n := by
  obtain ⟨frame, t', nalu', calls', hframe, hturn', ht, -⟩ := OnTime.turn h hlate hpaced
  obtain ⟨rfl, -⟩ := Prod.mk.inj (Except.ok.inj (hturn'.symm.trans hturn))
  have hunit : stream.unitAt n = frame.2 := by
    rw [List.getElem?_eq_getElem (OnTime.position h).lt, Option.some.injEq] at hframe
    rw [← hframe]
    rfl
  refine ⟨?_, (OnTime.late_iff h).mp hlate⟩
  rw [OnTimeAt, ← Nat.mod_add_mod, Nat.count_succ]
  rw [← hunit] at ht
  by_cases hfirst : stream.First n
  · rw [if_pos hfirst]
    rwa [if_pos (show (stream.unitAt n).decodeAble = true from hfirst)] at ht
  · rw [if_neg hfirst]
    rwa [if_neg (show ¬ (stream.unitAt n).decodeAble = true from hfirst)] at ht

/-- **The turns of a call** at the right time are those of the units that are due. -/
theorem OnTimeAt.returns {steps : List (H264Nalu × List PackRtpCall)}
    (h : OnTimeAt stream s steps.length) (hsteps : Streamed fresh (annexB stream.frames) s steps)
    (hpaced : stream.Paced nowTime) (hread : Returns fresh nowTime s t nalus calls) :
    ∃ steps', Streamed fresh (annexB stream.frames) t (steps ++ steps') ∧
      steps'.map Prod.fst = nalus ∧ steps'.flatMap Prod.snd = calls ∧
      OnTimeAt stream t (steps ++ steps').length ∧
      ∀ j, steps.length ≤ j → j < (steps ++ steps').length → stream.Due nowTime j := by
  refine (@readFrame_invariant _ _ _ _ _ _ (fun t nalus calls => ∃ steps',
    Streamed fresh (annexB stream.frames) t (steps ++ steps') ∧ steps'.map Prod.fst = nalus ∧
      steps'.flatMap Prod.snd = calls ∧ OnTimeAt stream t (steps ++ steps').length ∧
      ∀ j, steps.length ≤ j → j < (steps ++ steps').length → stream.Due nowTime j)
    ?_ hread [] [] ⟨[], by simpa using hsteps, rfl, rfl, by simpa using h, ?_⟩).1
  · rintro u _ _ v nalu calls' ⟨steps', hsteps', rfl, rfl, hon, hdue⟩ hlate hturn
    obtain ⟨hon', hnext⟩ := hon.turn hlate hpaced hturn
    refine ⟨steps' ++ [(nalu, calls')], ?_, by simp, by simp, ?_, fun j hj hlt => ?_⟩
    · rw [← List.append_assoc]
      exact hsteps'.snoc hlate hturn
    · rwa [← List.append_assoc, List.length_append, List.length_singleton]
    · rw [← List.append_assoc, List.length_append, List.length_singleton] at hlt
      rcases Nat.lt_succ_iff_lt_or_eq.mp hlt with hlt | rfl
      · exact hdue j hj hlt
      · exact hnext
  · intro j hj hlt
    rw [List.append_nil] at hlt
    omega

end EsReader

/-! ## Calls of a run -/

namespace EsSender

open EsReader

variable {fresh : H264Nalu} {track : Track} {stream : EsStream} {s : EsSender} {nowTime : ℤ}
  {steps : List (H264Nalu × List PackRtpCall)} {nows : List ℤ}

/-- A call that keeps time is made at the right one, and what is due by then could be packed. -/
theorem Sent.due_of_keepsTime (h : Sent stream fresh s steps)
    (hon : OnTimeAt stream s.reader steps.length) (hkeeps : KeepsTime fresh nowTime s) :
    stream.Paced nowTime ∧ ∀ j, stream.Due nowTime j → stream.PackableAt j := by
  obtain ⟨s', nalus, rtps, hs, hge, hlt⟩ := hkeeps
  obtain ⟨calls, hread, fuel, hsend⟩ := returns_iff.mp hs
  have hpaced := OnTime.paced hon hread hge hlt
  refine ⟨hpaced, fun j hj => ?_⟩
  obtain ⟨steps', hsteps, -, rfl, hend, -⟩ := hon.returns h.streamed hpaced hread
  -- the clock has come up to the time, so this unit has been read
  refine (h.append hsteps hsend).packable j ?_
  by_contra hout
  have hcount : Nat.count stream.First (steps ++ steps').length ≤ Nat.count stream.First j :=
    Nat.count_monotone _ (not_lt.mp hout)
  have hstamp := OnTime.timeStamp hend
  rw [EsStream.Due] at hj
  omega

/-- A call at the right time keeps it, if what is due by then can be packed. -/
theorem Sent.keepsTime_of_due (h : Sent stream fresh s steps)
    (hon : OnTimeAt stream s.reader steps.length) (hpaced : stream.Paced nowTime)
    (hdue : ∀ j, stream.Due nowTime j → stream.PackableAt j) : KeepsTime fresh nowTime s := by
  obtain ⟨r, nalus, calls, hread, k', j', hend, hge, hlt⟩ :
      Caught stream fresh nowTime s.reader := OnTime.caught hon hpaced
  obtain ⟨steps', hsteps, -, rfl, -, hnew⟩ := hon.returns h.streamed hpaced hread
  have hsendable : ∀ call ∈ steps'.flatMap Prod.snd, call.Sendable 1400 := by
    intro call hcall
    obtain ⟨entry, hentry, hcall⟩ := List.mem_flatMap.mp hcall
    obtain ⟨i, hi, rfl⟩ := List.getElem_of_mem hentry
    have hget : (steps ++ steps')[steps.length + i]? = some (steps'[i].1, steps'[i].2) := by
      rw [List.getElem?_append_right (Nat.le_add_right _ _), Nat.add_sub_cancel_left]
      exact List.getElem?_eq_getElem hi
    refine (hsteps.traced.sendable_iff hget).mpr (hdue _ (hnew _ (Nat.le_add_right _ _) ?_)) call
      hcall
    rw [List.length_append]
    omega
  obtain ⟨fuel, e, rtps, hsend⟩ := PackRtpCall.sendAll_of_sendable
    (show 16 ≤ s.encoder.mtuSize by rw [h.mtuSize]; decide) (by rwa [h.mtuSize])
  have hstamp := hend.timeStamp
  exact ⟨⟨r, e⟩, nalus, rtps, returns_iff.mpr ⟨_, hread, fuel, hsend⟩, by dsimp only; omega,
    fun hne => by have := hlt hne; dsimp only; omega⟩

/-- **A call of a run** keeps time exactly if it is made at the right one, and what is due by then
can be packed. -/
theorem Sent.keepsTime_iff (h : Sent stream fresh s steps)
    (hon : OnTimeAt stream s.reader steps.length) :
    KeepsTime fresh nowTime s ↔
      stream.Paced nowTime ∧ ∀ j, stream.Due nowTime j → stream.PackableAt j :=
  ⟨h.due_of_keepsTime hon, fun hgood => h.keepsTime_of_due hon hgood.1 hgood.2⟩

/-- Calls at the right times lead to a state that is on time. -/
theorem sent_of_played (h : Played fresh track (annexB stream.frames) nows s)
    (hpaced : ∀ nowTime ∈ nows, stream.Paced nowTime) :
    ∃ steps, Sent stream fresh s steps ∧ OnTimeAt stream s.reader steps.length := by
  generalize hbytes : annexB stream.frames = bytes at h
  induction h with
  | nil =>
    subst hbytes
    refine ⟨[], sent_start stream fresh track, ?_⟩
    rw [OnTimeAt, List.length_nil, Nat.zero_mod, Nat.count_zero]
    exact onTime_start stream
  | @snoc nows s nowTime s' nalus rtps _ hs ih =>
    obtain ⟨steps, hsent, hon⟩ := ih fun nowTime hmem => hpaced nowTime
      (List.mem_append_left _ hmem)
    obtain ⟨calls, hread, fuel, hsend⟩ := returns_iff.mp hs
    obtain ⟨steps', hsteps, -, rfl, hend, -⟩ :=
      hon.returns hsent.streamed (hpaced nowTime (by simp)) hread
    exact ⟨steps ++ steps', hsent.append hsteps hsend, hend⟩

/-- Calls that keep time lead to some state. -/
theorem exists_played (fresh : H264Nalu) (track : Track)
    (hgood : ∀ nowTime ∈ nows,
      stream.Paced nowTime ∧ ∀ j, stream.Due nowTime j → stream.PackableAt j) :
    ∃ s, Played fresh track (annexB stream.frames) nows s := by
  induction nows using List.reverseRecOn with
  | nil => exact ⟨_, .nil⟩
  | append_singleton nows nowTime ih =>
    rw [List.forall_mem_append, List.forall_mem_singleton] at hgood
    obtain ⟨s, hplayed⟩ := ih hgood.1
    obtain ⟨steps, hsent, hon⟩ := sent_of_played hplayed fun now hmem => (hgood.1 now hmem).1
    obtain ⟨s', nalus, rtps, hs, -⟩ : KeepsTime fresh nowTime s :=
      (hsent.keepsTime_iff hon).mpr hgood.2
    exact ⟨s', hplayed.snoc hs⟩

end EsSender

/-! ## Runs -/

namespace EsStream

open EsSender

variable {fresh : H264Nalu} {track : Track} {stream : EsStream} {nows : List ℤ}

theorem runKeepsTime_snoc (nowTime : ℤ) :
    stream.RunKeepsTime fresh track (nows ++ [nowTime]) ↔ stream.RunKeepsTime fresh track nows ∧
      ∀ s, Played fresh track (annexB stream.frames) nows s → KeepsTime fresh nowTime s := by
  constructor
  · intro h
    refine ⟨fun before now after hsplit => ?_, h nows nowTime [] rfl⟩
    exact h before now (after ++ [nowTime]) (by rw [hsplit]; simp)
  · rintro ⟨hbefore, hlast⟩ before now after hsplit
    rcases List.eq_nil_or_concat after with rfl | ⟨after, now', rfl⟩
    · obtain ⟨rfl, hnow⟩ := List.append_inj' hsplit rfl
      obtain rfl := List.singleton_inj.mp hnow
      exact hlast
    -- the call is one of those before the last one
    · rw [List.concat_eq_append, ← List.cons_append, ← List.append_assoc] at hsplit
      exact hbefore before now after (List.append_inj' hsplit rfl).1

/-- **The runs that keep time** are those whose calls are made at the right times, in the first
50 ms or, on a stream with a picture, up to 71 minutes and 35.01 seconds; and by then nothing is due
that cannot be packed. -/
theorem runKeepsTime_iff (stream : EsStream) (fresh : H264Nalu) (track : Track) (nows : List ℤ) :
    stream.RunKeepsTime fresh track nows ↔ ∀ nowTime ∈ nows,
      stream.Paced nowTime ∧ ∀ j, stream.Due nowTime j → stream.PackableAt j := by
  -- Induction on the calls, from the last one.
  induction nows using List.reverseRecOn with
  | nil =>
    refine iff_of_true (fun before nowTime after hsplit => ?_) (by simp)
    exact absurd hsplit (by simp)
  | append_singleton nows nowTime ih =>
    rw [runKeepsTime_snoc, ih, List.forall_mem_append, List.forall_mem_singleton]
    refine and_congr_right fun hgood => ⟨fun hkeeps => ?_, fun hnow s hplayed => ?_⟩
    · obtain ⟨s, hplayed⟩ := exists_played fresh track hgood
      obtain ⟨steps, hsent, hon⟩ := sent_of_played hplayed fun now hmem => (hgood now hmem).1
      exact (hsent.keepsTime_iff hon).mp (hkeeps s hplayed)
    · obtain ⟨steps, hsent, hon⟩ := sent_of_played hplayed fun now hmem => (hgood now hmem).1
      exact (hsent.keepsTime_iff hon).mpr hnow

/-- An SPS, a PPS and a picture. -/
def onePicture : EsStream where
  frames := [(true, ⟨[0x67, 0x42], by decide, by decide, by decide, by decide⟩),
    (true, ⟨[0x68, 0xCE], by decide, by decide, by decide, by decide⟩),
    (true, ⟨[0x65, 0x88], by decide, by decide, by decide, by decide⟩)]
  fits := by
    simp only [List.forall_mem_cons, NalUnit.Fits]
    decide
  nonempty := List.cons_ne_nil _ _

/-- A call made one microsecond too late does not come to its end, or not on time. -/
theorem not_runKeepsTime_late :
    ¬ ∀ (stream : EsStream) (fresh : H264Nalu) (track : Track) (nows : List ℤ),
      stream.RunKeepsTime fresh track nows := by
  intro h
  have hkeeps := h onePicture {} ⟨96, 90000, 0, 0, 0, 0, 0⟩ [4295010001] [] 4295010001 [] rfl _ .nil
  obtain ⟨steps, hsent, hon⟩ := sent_of_played
    (.nil : Played {} ⟨96, 90000, 0, 0, 0, 0, 0⟩ (annexB onePicture.frames) [] _) (by simp)
  have hpaced := ((hsent.keepsTime_iff hon).mp hkeeps).1
  rw [Paced] at hpaced
  omega

end EsStream

end CppServerStudio
