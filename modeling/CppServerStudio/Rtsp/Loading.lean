import CppServerStudio.Rtsp.FileScan
import CppServerStudio.Rtsp.SessionSafety

/-!
# Sessions that load their files

A `DESCRIBE` loads the file of its stream, and is answered only when that has come to its end. For a
file without a start code at its front it never does, so the session never answers again.

## Main definitions

* `RtspMediaStream.Loads`, `RtspMediaStream.LoadCrashes`: what the loading of a file comes to
* `FileEnv`, `FileEvent`: what a request takes from outside, with the bytes of the file
* `RtspSession.Serves`, `fileSystem`: the calls that return, and the runs of a session
* `NoCrash`: no call of a run crashes

## Main results

* `RtspMediaStream.loads_iff`: the files whose loading comes to its end
* `fileSystem_refines`: the runs of a session that loads its files are runs of a session
-/

namespace CppServerStudio

open Scanning

/-! ## Loading a file -/

namespace EsScan

variable {fresh : H264Nalu} {stream : Bytes} {s t : EsScan} {fuel fuel' r : ℕ}

/-- A loop that was not stopped by its fuel is the same with more. -/
theorem loop_of_ne (h : loop fresh fuel s ≠ .error .outOfFuel) (hle : fuel ≤ fuel') :
    loop fresh fuel' s = loop fresh fuel s := by
  induction fuel generalizing s fuel' with
  | zero => exact absurd rfl h
  | succ fuel ih =>
    cases fuel' with
    | zero => exact absurd hle (Nat.not_succ_le_zero fuel)
    | succ fuel' =>
      rw [loop] at h
      rw [loop, loop]
      split_ifs at h ⊢ with hgo
      · cases hturn : s.turn fresh with
        | error fault => rfl
        | ok t =>
          rw [hturn, ok_bind] at h
          exact ih h (Nat.le_of_succ_le_succ hle)
      · rfl

/-- **Without a start code at the front** the loop does not come to an end: each call takes no
bytes, and whatever a new object holds is one type only. -/
theorem loop_of_not_begins (hne : stream ≠ []) (hnot : ¬ Begins stream)
    (hdata : s.reader.data = stream) (hsps : s.gotSps = true → fresh.nalUnitType = nalSps)
    (hpps : s.gotPps = true → fresh.nalUnitType = nalPps) (fuel : ℕ) :
    ∃ fault, loop fresh fuel s = .error fault := by
  have htypes : nalSps ≠ nalPps := by decide
  induction fuel generalizing s with
  | zero => exact ⟨_, rfl⟩
  | succ fuel ih =>
    have hgo : s.going = true := by
      rw [going, hdata, Bool.and_eq_true, decide_eq_true_eq, Bool.not_eq_true',
        Bool.and_eq_false_iff]
      refine ⟨List.length_pos_of_ne_nil hne, ?_⟩
      by_contra hboth
      rw [not_or, Bool.not_eq_false, Bool.not_eq_false] at hboth
      exact htypes ((hsps hboth.1).symm.trans (hpps hboth.2))
    rw [loop, if_pos hgo]
    rcases fresh.getAnnexbNalu_of_not_begins (hdata ▸ hnot) with hcall | ⟨fault, hcall⟩
    · rw [turn_eq hcall, ok_bind]
      refine ih ?_ ?_ ?_
      · rw [keep, List.drop_zero, hdata]
      · intro h
        rw [keep, Bool.or_eq_true, decide_eq_true_eq] at h
        exact h.elim hsps id
      · intro h
        rw [keep, Bool.or_eq_true, decide_eq_true_eq] at h
        exact h.elim hpps id
    · rw [turn_eq_error hcall]
      exact ⟨fault, rfl⟩

/-- **With a start code at the front** the loop comes to an end, or to a fault. -/
theorem Scanned.loop_cases (h : Scanned fresh stream s r) (hfuel : stream.length < r + fuel) :
    (∃ t, EsScan.loop fresh fuel s = .ok t) ∨
      ∃ fault : NalFault, fault ≠ .outOfFuel ∧ EsScan.loop fresh fuel s = .error fault := by
  -- Induction on the turns left; each one takes at least the bytes of a start code.
  induction fuel generalizing s r with
  | zero => exact absurd h.le (by omega)
  | succ fuel ih =>
    rw [EsScan.loop]
    by_cases hgo : s.going = true
    · rw [if_pos hgo]
      obtain ⟨long, hcode, ⟨e, hcall, hend⟩ | ⟨hcall, -⟩ | ⟨hcall, -⟩⟩ := h.call hgo
      · have hthree := three_le_length_startCode long
        have hpos := hend.le
        rw [turn_eq hcall, ok_bind]
        exact ih (h.keep hgo hcode hcall hend) (by omega)
      · rw [turn_eq_error hcall]
        exact .inr ⟨_, by decide, rfl⟩
      · rw [turn_eq_error hcall]
        exact .inr ⟨_, by decide, rfl⟩
    · rw [if_neg hgo]
      exact .inl ⟨s, rfl⟩

end EsScan

/-- A description has no loop that fuel could stop. -/
theorem h264SdpCreate_ne (sps pps : Bytes) (spsLen ppsLen payloadType timeBase : ℤ) :
    h264SdpCreate sps spsLen pps ppsLen payloadType timeBase ≠ .error .outOfFuel := by
  have hchar : ∀ i, charAt sps i ≠ .error .outOfFuel := by
    intro i
    rw [charAt]
    split_ifs <;> simp
  have hencode : ∀ data inSize, avBase64Encode 100 data inSize ≠ .error .outOfFuel := by
    intro data inSize
    rw [avBase64Encode, readChars]
    split_ifs <;> simp
  have hlevel : profileLevelId sps spsLen ≠ .error .outOfFuel := by
    rw [profileLevelId]
    split_ifs
    · exact bind_ne_error (hchar 1) fun _ => bind_ne_error (hchar 2) fun _ =>
        bind_ne_error (hchar 3) fun _ => by simp
    · simp
  rw [h264SdpCreate]
  exact bind_ne_error hlevel fun _ => bind_ne_error (hencode sps spsLen) fun _ =>
    bind_ne_error (hencode pps ppsLen) fun _ => by simp

namespace RtspMediaStream

/-- The loading of a file, as `handleDescribe` asks for it, comes to an end. -/
def Loads (fresh : H264Nalu) (file : Bytes) (outcome : LoadOutcome) : Prop :=
  ∃ fuel, loadEs fresh fuel file 96 90000 = .ok outcome

/-- The loading of a file crashes: something else than its fuel ends it. -/
def LoadCrashes (fresh : H264Nalu) (file : Bytes) : Prop :=
  ∃ fuel fault, fault ≠ .outOfFuel ∧ loadEs fresh fuel file 96 90000 = .error fault

variable {fresh : H264Nalu} {file : Bytes} {fuel fuel' : ℕ} {pt rate : ℤ}

theorem loadEs_of_ne (h : loadEs fresh fuel file pt rate ≠ .error .outOfFuel) (hle : fuel ≤ fuel') :
    loadEs fresh fuel' file pt rate = loadEs fresh fuel file pt rate := by
  rw [loadEs] at h
  rw [loadEs, loadEs]
  split_ifs at h ⊢ with hnil
  · rfl
  · rw [EsScan.loop_of_ne ?_ hle]
    intro hloop
    rw [hloop] at h
    exact h rfl

/-- A file that is loaded is loaded in one way, and does not crash. -/
theorem Loads.not_crashes {outcome : LoadOutcome} (h : Loads fresh file outcome) :
    ¬ LoadCrashes fresh file := by
  rintro ⟨fuel', fault, hne, hcrash⟩
  obtain ⟨fuel, hload⟩ := h
  -- with the fuel of both, the results are the same
  have hone := loadEs_of_ne (by rw [hload]; simp) (le_max_left fuel fuel')
  have htwo := loadEs_of_ne (by rw [hcrash]; simpa using hne) (le_max_right fuel fuel')
  rw [hone, hload, hcrash] at htwo
  cases htwo

/-- **The files whose loading comes to its end**, of those that do not crash: the empty one, and
those with a start code at the front. -/
theorem loads_iff (hcrash : ¬ LoadCrashes fresh file) :
    (∃ outcome, Loads fresh file outcome) ↔ file = [] ∨ Begins file := by
  constructor
  · rintro ⟨outcome, fuel, hload⟩
    by_contra hnot
    rw [not_or] at hnot
    obtain ⟨fault, hloop⟩ := EsScan.loop_of_not_begins hnot.1 hnot.2
      (show (EsScan.start fresh file).reader.data = file from rfl) (by simp [EsScan.start])
      (by simp [EsScan.start]) fuel
    rw [loadEs, if_neg hnot.1, hloop] at hload
    cases hload
  · intro hfile
    by_cases hnil : file = []
    · exact ⟨.failed, 0, by rw [loadEs, if_pos hnil]⟩
    · have hscanned : EsScan.Scanned fresh file (.start fresh file) 0 :=
        EsScan.scanned_start (hfile.resolve_left hnil)
      have hload : loadEs fresh (file.length + 1) file 96 90000 =
          EsScan.loop fresh (file.length + 1) (.start fresh file) >>= fun s =>
            h264SdpCreate s.sps.buffer (toInt s.sps.len) s.pps.buffer (toInt s.pps.len) 96 90000 >>=
              fun sdp => .ok (.loaded sdp) := if_neg hnil
      rcases hscanned.loop_cases (show file.length < 0 + (file.length + 1) by omega) with
        ⟨t, ht⟩ | ⟨fault, hne, hfault⟩
      · rw [ht, ok_bind] at hload
        cases hsdp : h264SdpCreate t.sps.buffer (toInt t.sps.len) t.pps.buffer (toInt t.pps.len)
            96 90000 with
        | ok sdp =>
          rw [hsdp, ok_bind] at hload
          exact ⟨.loaded sdp, _, hload⟩
        | error fault =>
          rw [hsdp] at hload
          refine absurd ⟨_, fault, ?_, hload⟩ hcrash
          rintro rfl
          exact h264SdpCreate_ne _ _ _ _ _ _ hsdp
      · rw [hfault] at hload
        exact absurd ⟨_, fault, hne, hload⟩ hcrash

end RtspMediaStream

/-! ## Sessions -/

/-- What the handler of a request takes from outside. -/
structure FileEnv where
  /-- The bytes that `File::loadFile` gives for a `DESCRIBE`. -/
  file : Bytes
  /-- What a new `H264Nalu` holds. -/
  fresh : H264Nalu
  ssrc : UInt32
  sessionid : Bytes
  date : Bytes

/-- The file comes to this outcome. -/
def FileEnv.loaded (env : FileEnv) (outcome : LoadOutcome) : RequestEnv where
  file := outcome
  ssrc := env.ssrc
  sessionid := env.sessionid
  date := env.date

/-- What happens to a session: it is given a request, or the timer reads frames of its stream. -/
inductive FileEvent
  | request (req : HttpRequest) (env : FileEnv)
  | frames (timeStamp : UInt32) (seq : UInt16)

namespace RtspSession

/-- **A call of `onWholeRtspPacket` returns**: a `DESCRIBE` loads its file first. -/
def Serves (s : RtspSession) (req : HttpRequest) (env : FileEnv) (s' : RtspSession)
    (acts : List SessionAction) : Prop :=
  ∃ outcome, (req.method = ofString "DESCRIBE" →
      RtspMediaStream.Loads env.fresh env.file outcome) ∧
    s.onWholeRtspPacket req (env.loaded outcome) = .ok (s', acts)

/-- A call crashes, in the loading of the file or in the handler. -/
def Crashes (s : RtspSession) (req : HttpRequest) (env : FileEnv) : Prop :=
  (req.method = ofString "DESCRIBE" ∧ RtspMediaStream.LoadCrashes env.fresh env.file) ∨
    ∃ outcome fault, s.onWholeRtspPacket req (env.loaded outcome) = .error fault

variable {s : RtspSession} {req : HttpRequest} {env : FileEnv}

/-- A call that does not crash returns, if the file of a `DESCRIBE` is empty or begins with a start
code. -/
theorem exists_serves (hcrash : ¬ s.Crashes req env)
    (hfile : req.method = ofString "DESCRIBE" → env.file = [] ∨ Begins env.file) :
    ∃ s' acts, s.Serves req env s' acts := by
  obtain ⟨hload, hcall⟩ := not_or.mp hcrash
  obtain ⟨outcome, houtcome⟩ : ∃ outcome, req.method = ofString "DESCRIBE" →
      RtspMediaStream.Loads env.fresh env.file outcome := by
    by_cases hm : req.method = ofString "DESCRIBE"
    · obtain ⟨outcome, hloads⟩ :=
        (RtspMediaStream.loads_iff fun hcrash => hload ⟨hm, hcrash⟩).mpr (hfile hm)
      exact ⟨outcome, fun _ => hloads⟩
    · exact ⟨.failed, fun h => absurd h hm⟩
  cases hrun : s.onWholeRtspPacket req (env.loaded outcome) with
  | error fault => exact absurd ⟨outcome, fault, hrun⟩ hcall
  | ok r => exact ⟨r.1, r.2, outcome, houtcome, hrun⟩

end RtspSession

/-- Sessions that load their files. -/
def fileSystem : LTS RtspSession FileEvent where
  init s := s = {}
  step s e s' := match e with
    | .request req env => ∃ acts, s.Serves req env s' acts
    | .frames timeStamp seq => s.handle (.frames timeStamp seq) = .ok (s', [])

/-- **No call crashes** in the states that these events lead to. -/
def NoCrash (events : List FileEvent) : Prop :=
  ∀ before req env later, events = before ++ .request req env :: later →
    ∀ s, fileSystem.Run before s → ¬ s.Crashes req env

/-- **Refinement**: what happens to a session that loads its files may happen to a session. -/
theorem fileSystem_refines {events : List FileEvent} {s : RtspSession}
    (h : fileSystem.Run events s) : ∃ events', sessionSystem.Run events' s := by
  refine LTS.Run.project (M := fileSystem) (N := sessionSystem) (f := id) (fun _ hs => hs) ?_ h
  rintro events s (⟨req, env⟩ | ⟨timeStamp, seq⟩) t - hstep
  · obtain ⟨acts, outcome, -, hcall⟩ := hstep
    exact .inr ⟨.request req (env.loaded outcome), acts, hcall⟩
  · exact .inr ⟨.frames timeStamp seq, [], hstep⟩

end CppServerStudio
