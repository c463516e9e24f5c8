import CppServerStudio.Library.Runs
import CppServerStudio.Rtsp.Session

/-!
# Safety of RTSP sessions

The state of a session lies in its nullable pointers: it has no stream before the first `DESCRIBE`,
and after one that did not load its file it has a stream without an encoder. A run of a session is
safe when no handler dereferences a null pointer and each request that is not valid in the state it
meets is answered with an error. Which runs are safe depends on the order of the requests alone.

## Main definitions

* `RtspSession.Valid`: the requests that are valid in a state
* `sessionSystem`, `SessionSafe`: the runs of a session, and their safety
* `InOrder`: the orders of requests that the handlers can serve

## Main results

* `RtspSession.Reflects.handle`: the state reflects the last `DESCRIBE`, an invariant of the runs
* `RtspSession.answered_iff`: which requests are answered in a state
* `sessionSafe_iff`: a run is safe exactly when its requests are in order
-/

namespace CppServerStudio

open Scanning

/-- What happens to a session: it is given a request, or the timer reads frames of its stream. -/
inductive SessionEvent
  | request (req : HttpRequest) (env : RequestEnv)
  | frames (timeStamp : UInt32) (seq : UInt16)

namespace LoadOutcome

def isLoaded : LoadOutcome → Bool
  | .failed => false
  | .loaded _ => true

end LoadOutcome

namespace RtspSession

/-- One event of a session. -/
def handle (s : RtspSession) :
    SessionEvent → Except NullPointer (RtspSession × List SessionAction)
  | .request req env => s.onWholeRtspPacket req env
  | .frames timeStamp seq =>
    .ok ({ s with stream := s.stream.map fun stream => stream.streamed timeStamp seq }, [])

/-- The session has a stream whose file is loaded. -/
def Ready (s : RtspSession) : Prop := ∃ stream, s.stream = some stream ∧ stream.encoder.isSome

/-- **Valid requests**: `SETUP` and `PLAY` need a stream that is ready, and `PLAY` names the
session. -/
def Valid (s : RtspSession) (req : HttpRequest) : Prop :=
  req.method = ofString "OPTIONS" ∨ req.method = ofString "DESCRIBE" ∨
    req.method = ofString "SETUP" ∧ s.Ready ∨
    req.method = ofString "PLAY" ∧ s.Ready ∧
      req.getRequestValue (ofString "Session") = s.sessionid

/-- The only answer is a response whose status is a client error. -/
def ErrorResponse (acts : List SessionAction) : Prop :=
  ∃ rest, acts = [.send (ofString "RTSP/1.0 4" ++ rest)]

/-- **A request is answered**: its handler dereferences no null pointer, and sends an error when
the request is not valid. -/
def Answered (s : RtspSession) (req : HttpRequest) (env : RequestEnv) : Prop :=
  ∃ s' acts, s.onWholeRtspPacket req env = .ok (s', acts) ∧ (¬ s.Valid req → ErrorResponse acts)

end RtspSession

/-- Sessions under the events of a connection. -/
def sessionSystem : LTS RtspSession SessionEvent where
  init s := s = {}
  step s e s' := ∃ acts, s.handle e = .ok (s', acts)

/-- **Safety** of the events of a session: each request is answered in the state it meets. -/
def SessionSafe (events : List SessionEvent) : Prop :=
  ∀ before req env later, events = before ++ .request req env :: later →
    ∀ s, sessionSystem.Run before s → s.Answered req env

/-! ## The order of the requests -/

/-- The environment of the last `DESCRIBE`, after one more event. -/
def described (d : Option RequestEnv) : SessionEvent → Option RequestEnv
  | .request req env => if req.method = ofString "DESCRIBE" then some env else d
  | .frames _ _ => d

/-- The environment of the last `DESCRIBE`. -/
def lastDescribe (events : List SessionEvent) : Option RequestEnv := events.foldl described none

/-- A request that may follow the last `DESCRIBE`: `SETUP` follows one that loaded its file, and
`PLAY` follows one that loaded its file or has another session id. -/
def Allowed (d : Option RequestEnv) (req : HttpRequest) : Prop :=
  (req.method = ofString "SETUP" → ∃ env, d = some env ∧ env.file.isLoaded) ∧
  (req.method = ofString "PLAY" → ∃ env, d = some env ∧
    (req.getRequestValue (ofString "Session") = env.sessionid → env.file.isLoaded))

/-- **Requests in order**: each may follow the last `DESCRIBE` before it. -/
def InOrder (events : List SessionEvent) : Prop :=
  ∀ before req env later, events = before ++ .request req env :: later →
    Allowed (lastDescribe before) req

theorem lastDescribe_snoc (events : List SessionEvent) (e : SessionEvent) :
    lastDescribe (events ++ [e]) = described (lastDescribe events) e := by
  simp [lastDescribe]

namespace RtspSession

/-! ## What the handlers change -/

section Frame

variable {s s' : RtspSession} {req : HttpRequest} {env : RequestEnv} {acts : List SessionAction}

@[simp] theorem stream_parse (url : Bytes) : (s.parse url).stream = s.stream := by
  unfold parse
  cases find (ofString "://") url <;> simp only <;> split <;> (try rfl) <;> split <;> rfl

@[simp] theorem sessionid_parse (url : Bytes) : (s.parse url).sessionid = s.sessionid := by
  unfold parse
  cases find (ofString "://") url <;> simp only <;> split <;> (try rfl) <;> split <;> rfl

@[simp] theorem stream_prepare : (s.prepare req).stream = s.stream := by
  unfold prepare
  simp only
  split <;> simp

@[simp] theorem sessionid_prepare : (s.prepare req).sessionid = s.sessionid := by
  unfold prepare
  simp only
  split <;> simp

/-- `DESCRIBE` makes a new stream, with an encoder when the file is loaded. -/
theorem handleDescribe_spec : ∃ stream, (s.handleDescribe env).1.stream = some stream ∧
    stream.encoder.isSome = env.file.isLoaded ∧
    (s.handleDescribe env).1.sessionid = env.sessionid := by
  unfold handleDescribe
  cases env.file with
  | failed => exact ⟨_, rfl, rfl, rfl⟩
  | loaded sdp => exact ⟨_, rfl, rfl, rfl⟩

/-- A response whose code begins with the digit four is an error. -/
theorem errorResponse_of_code {code : Bytes} (h : ofString "4" <+: code) (date : Bytes)
    (headers : StringMap) : ErrorResponse [.send (s.getRtspResponse date code headers)] := by
  obtain ⟨rest, rfl⟩ := h
  have hstatus : ∀ tail, ofString "RTSP/1.0" ++ ofString " " ++ (ofString "4" ++ rest) ++ tail =
      ofString "RTSP/1.0 4" ++ (rest ++ tail) := by
    intro tail
    simp [ofString]
  unfold getRtspResponse
  simp only [List.append_assoc] at hstatus ⊢
  exact ⟨_, by rw [hstatus]⟩

/-- A response with the code of success is not an error. -/
theorem not_errorResponse_ok (date : Bytes) (headers : StringMap) (sdp : Bytes) :
    ¬ ErrorResponse [.send (s.getRtspResponse date (ofString "200 OK") headers sdp)] := by
  rintro ⟨rest, h⟩
  simp only [List.cons.injEq, SessionAction.send.injEq, and_true] at h
  have hdigit := congrArg (fun msg : Bytes => msg[9]?) h
  simp [getRtspResponse, ofString] at hdigit

theorem handleSetup_error (h : s.stream = none) : s.handleSetup req env = .error .stream := by
  rw [handleSetup, h]

/-- `SETUP` needs a stream only, keeps it, and never answers with an error. -/
theorem handleSetup_ok (req : HttpRequest) (env : RequestEnv) {stream : RtspMediaStream}
    (h : s.stream = some stream) :
    ∃ s' acts, s.handleSetup req env = .ok (s', acts) ∧ s'.stream = s.stream ∧
      s'.sessionid = s.sessionid ∧ ¬ ErrorResponse acts := by
  unfold handleSetup
  simp only [h]
  split
  · refine ⟨_, _, rfl, ?_, ?_, not_errorResponse_ok _ _ _⟩
    · split <;> simp [h]
    · split <;> rfl
  all_goals
    refine ⟨_, _, rfl, ?_, ?_, by rintro ⟨rest, hrest⟩; cases hrest⟩
    · split <;> simp [h]
    · split <;> rfl

theorem handlePlay_error (h : s.stream = none) : s.handlePlay req env = .error .stream := by
  rw [handlePlay, h]

/-- `PLAY` for another session answers with an error and changes nothing. -/
theorem handlePlay_other (env : RequestEnv) {stream : RtspMediaStream} (h : s.stream = some stream)
    (hother : req.getRequestValue (ofString "Session") ≠ s.sessionid) :
    ∃ acts, s.handlePlay req env = .ok (s, acts) ∧ ErrorResponse acts := by
  unfold handlePlay
  simp only [h, if_pos hother]
  exact ⟨_, rfl, errorResponse_of_code (by decide) _ _⟩

/-- `PLAY` for the session starts the sending when there is an encoder. -/
theorem handlePlay_ready (env : RequestEnv) {stream : RtspMediaStream} (h : s.stream = some stream)
    (hsession : req.getRequestValue (ofString "Session") = s.sessionid)
    (hencoder : stream.encoder.isSome) :
    ∃ s' acts, s.handlePlay req env = .ok (s', acts) ∧
      s'.stream = some { stream with sending := true } ∧ s'.sessionid = s.sessionid := by
  obtain ⟨encoder, hencoder⟩ := Option.isSome_iff_exists.mp hencoder
  unfold handlePlay
  simp only [h, hsession, ne_eq, not_true_eq_false, if_false, RtspMediaStream.setEncoderSendCB,
    hencoder, ok_bind]
  exact ⟨_, _, rfl, rfl, rfl⟩

/-- `PLAY` for the session dereferences the encoder. -/
theorem handlePlay_null {stream : RtspMediaStream} (h : s.stream = some stream)
    (hsession : req.getRequestValue (ofString "Session") = s.sessionid)
    (hencoder : stream.encoder.isSome = false) :
    s.handlePlay req env = .error .encoder := by
  rw [Option.isSome_eq_false_iff, Option.isNone_iff_eq_none] at hencoder
  unfold handlePlay
  simp only [h, hsession, ne_eq, not_true_eq_false, if_false, RtspMediaStream.setEncoderSendCB,
    hencoder, error_bind]

end Frame

/-! ## The state reflects the last `DESCRIBE` -/

/-- The stream and the session id are those of the last `DESCRIBE`. -/
def Reflects (s : RtspSession) : Option RequestEnv → Prop
  | none => s.stream = none
  | some env => ∃ stream, s.stream = some stream ∧ stream.encoder.isSome = env.file.isLoaded ∧
      s.sessionid = env.sessionid

variable {s s' : RtspSession} {d : Option RequestEnv} {acts : List SessionAction}

/-- What a session reflects depends on whether it has an encoder, and on its session id. -/
theorem Reflects.congr (hd : s.Reflects d)
    (hstream : s'.stream.map (fun m => m.encoder.isSome) = s.stream.map fun m => m.encoder.isSome)
    (hid : s'.sessionid = s.sessionid) : s'.Reflects d := by
  cases d with
  | none =>
    rw [Reflects] at hd ⊢
    simpa [hd] using hstream
  | some env =>
    obtain ⟨stream, hs, hencoder, hsession⟩ := hd
    rw [hs, Option.map_some, Option.map_eq_some_iff] at hstream
    obtain ⟨stream', hs', heq⟩ := hstream
    exact ⟨stream', hs', heq.trans hencoder, hid.trans hsession⟩

theorem Reflects.prepare (hd : s.Reflects d) (req : HttpRequest) : (s.prepare req).Reflects d :=
  hd.congr (by rw [stream_prepare]) sessionid_prepare

theorem Reflects.ready_iff (hd : s.Reflects d) :
    s.Ready ↔ ∃ env, d = some env ∧ env.file.isLoaded := by
  cases d with
  | none =>
    rw [Reflects] at hd
    simp [Ready, hd]
  | some env =>
    obtain ⟨stream, hs, hencoder, -⟩ := hd
    simp [Ready, hs, hencoder]

section Dispatch

variable {req : HttpRequest} {env : RequestEnv}

theorem onWholeRtspPacket_describe (hm : req.method = ofString "DESCRIBE") :
    s.onWholeRtspPacket req env = .ok ((s.prepare req).handleDescribe env) := by
  unfold onWholeRtspPacket
  rw [hm]
  exact (if_neg (by decide)).trans (if_pos rfl)

theorem onWholeRtspPacket_setup (hm : req.method = ofString "SETUP") :
    s.onWholeRtspPacket req env = (s.prepare req).handleSetup req env := by
  unfold onWholeRtspPacket
  rw [hm]
  exact (if_neg (by decide)).trans ((if_neg (by decide)).trans (if_pos rfl))

theorem onWholeRtspPacket_play (hm : req.method = ofString "PLAY") :
    s.onWholeRtspPacket req env = (s.prepare req).handlePlay req env := by
  unfold onWholeRtspPacket
  rw [hm]
  exact (if_neg (by decide)).trans
    ((if_neg (by decide)).trans ((if_neg (by decide)).trans (if_pos rfl)))

/-- The other methods are answered in every state, and keep the stream. -/
theorem onWholeRtspPacket_other (s : RtspSession) (env : RequestEnv)
    (hsetup : req.method ≠ ofString "SETUP")
    (hplay : req.method ≠ ofString "PLAY") (hdescribe : req.method ≠ ofString "DESCRIBE") :
    ∃ acts, s.onWholeRtspPacket req env = .ok (s.prepare req, acts) ∧
      (¬ s.Valid req → ErrorResponse acts) := by
  unfold onWholeRtspPacket
  simp only [if_neg hsetup, if_neg hplay, if_neg hdescribe]
  by_cases hoptions : req.method = ofString "OPTIONS"
  · rw [if_pos hoptions]
    exact ⟨_, rfl, fun hinvalid => absurd (Or.inl hoptions) hinvalid⟩
  · rw [if_neg hoptions]
    exact ⟨_, rfl, fun _ => errorResponse_of_code (by decide) _ _⟩

/-- **One event keeps the state reflecting the last `DESCRIBE`.** -/
theorem Reflects.handle (hd : s.Reflects d) {e : SessionEvent} (h : s.handle e = .ok (s', acts)) :
    s'.Reflects (described d e) := by
  cases e with
  | frames timeStamp seq =>
    rw [RtspSession.handle, Except.ok.injEq, Prod.mk.injEq] at h
    obtain ⟨rfl, -⟩ := h
    refine hd.congr ?_ rfl
    simp [Function.comp_def]
  | request req env =>
    rw [RtspSession.handle] at h
    have hprep := hd.prepare req
    -- Only `DESCRIBE` changes what the state reflects; the other handlers keep the stream.
    by_cases hdescribe : req.method = ofString "DESCRIBE"
    · rw [onWholeRtspPacket_describe hdescribe, Except.ok.injEq] at h
      obtain rfl : ((s.prepare req).handleDescribe env).1 = s' := congrArg Prod.fst h
      rw [described, if_pos hdescribe]
      exact handleDescribe_spec
    · rw [described, if_neg hdescribe]
      by_cases hsetup : req.method = ofString "SETUP"
      · rw [onWholeRtspPacket_setup hsetup] at h
        cases hs : (s.prepare req).stream with
        | none => rw [handleSetup_error hs] at h; cases h
        | some stream =>
          obtain ⟨t, acts', hrun, hstream, hid, -⟩ := handleSetup_ok req env hs
          obtain ⟨rfl, -⟩ := Prod.mk.inj (Except.ok.inj (hrun.symm.trans h))
          exact hprep.congr (by rw [hstream]) hid
      · by_cases hplay : req.method = ofString "PLAY"
        · rw [onWholeRtspPacket_play hplay] at h
          cases hs : (s.prepare req).stream with
          | none => rw [handlePlay_error hs] at h; cases h
          | some stream =>
            by_cases hsession :
                req.getRequestValue (ofString "Session") = (s.prepare req).sessionid
            · cases hencoder : stream.encoder.isSome with
              | false => rw [handlePlay_null hs hsession hencoder] at h; cases h
              | true =>
                obtain ⟨t, acts', hrun, hstream, hid⟩ :=
                  handlePlay_ready env hs hsession hencoder
                obtain ⟨rfl, -⟩ := Prod.mk.inj (Except.ok.inj (hrun.symm.trans h))
                exact hprep.congr (by rw [hstream, hs]; rfl) hid
            · obtain ⟨acts', hrun, -⟩ := handlePlay_other env hs hsession
              obtain ⟨rfl, -⟩ := Prod.mk.inj (Except.ok.inj (hrun.symm.trans h))
              exact hprep
        · obtain ⟨acts', hrun, -⟩ :=
            onWholeRtspPacket_other s env hsetup hplay hdescribe
          obtain ⟨rfl, -⟩ := Prod.mk.inj (Except.ok.inj (hrun.symm.trans h))
          exact hprep

/-! ## Which requests are answered -/

/-- `SETUP` is answered only when the stream is ready: otherwise it dereferences null, or is
answered as if the stream were ready. -/
theorem answered_setup_iff (hm : req.method = ofString "SETUP") :
    s.Answered req env ↔ s.Ready := by
  constructor
  · rintro ⟨s', acts, hrun, herror⟩
    by_contra hready
    -- of the requests that are valid only `SETUP` has this method
    have hinvalid : ¬ s.Valid req := by
      rintro (h | h | ⟨-, h⟩ | ⟨h, -⟩)
      · rw [hm] at h; exact absurd h (by decide)
      · rw [hm] at h; exact absurd h (by decide)
      · exact hready h
      · rw [hm] at h; exact absurd h (by decide)
    rw [onWholeRtspPacket_setup hm] at hrun
    cases hs : (s.prepare req).stream with
    | none => rw [handleSetup_error hs] at hrun; cases hrun
    | some stream =>
      obtain ⟨t, acts', hrun', -, -, hno⟩ := handleSetup_ok req env hs
      obtain ⟨-, rfl⟩ := Prod.mk.inj (Except.ok.inj (hrun'.symm.trans hrun))
      exact hno (herror hinvalid)
  · intro hready
    obtain ⟨stream, hs, hencoder⟩ := id hready
    obtain ⟨t, acts, hrun, -⟩ := handleSetup_ok req env
      (stream_prepare.trans hs)
    refine ⟨t, acts, by rw [onWholeRtspPacket_setup hm, hrun], fun hinvalid => ?_⟩
    exact absurd (Or.inr (Or.inr (Or.inl ⟨hm, hready⟩))) hinvalid

/-- `PLAY` is answered only when there is a stream, which is ready if the session is named. -/
theorem answered_play_iff (hm : req.method = ofString "PLAY") :
    s.Answered req env ↔ ∃ stream, s.stream = some stream ∧
      (req.getRequestValue (ofString "Session") = s.sessionid → stream.encoder.isSome) := by
  constructor
  · rintro ⟨s', acts, hrun, -⟩
    rw [onWholeRtspPacket_play hm] at hrun
    cases hs : (s.prepare req).stream with
    | none => rw [handlePlay_error hs] at hrun; cases hrun
    | some stream =>
      refine ⟨stream, stream_prepare.symm.trans hs, fun hsession => ?_⟩
      have hsession' : req.getRequestValue (ofString "Session") = (s.prepare req).sessionid :=
        hsession.trans sessionid_prepare.symm
      cases hencoder : stream.encoder.isSome with
      | true => rfl
      | false => rw [handlePlay_null hs hsession' hencoder] at hrun; cases hrun
  · rintro ⟨stream, hs, hready⟩
    have hs' : (s.prepare req).stream = some stream := stream_prepare.trans hs
    by_cases hsession : req.getRequestValue (ofString "Session") = s.sessionid
    -- the session is named, and the stream has an encoder
    · obtain ⟨t, acts, hrun, -⟩ := handlePlay_ready env hs'
        (hsession.trans sessionid_prepare.symm) (hready hsession)
      refine ⟨t, acts, by rw [onWholeRtspPacket_play hm, hrun], fun hinvalid => ?_⟩
      exact absurd (Or.inr (Or.inr (Or.inr ⟨hm, ⟨stream, hs, hready hsession⟩, hsession⟩))) hinvalid
    -- another session is answered with 454
    · obtain ⟨acts, hrun, herror⟩ := handlePlay_other env hs'
        (by rwa [sessionid_prepare])
      exact ⟨_, acts, by rw [onWholeRtspPacket_play hm, hrun], fun _ => herror⟩

/-- **The requests that are answered** in a state are those that may follow the last
`DESCRIBE`. -/
theorem answered_iff (hd : s.Reflects d) (req : HttpRequest) (env : RequestEnv) :
    s.Answered req env ↔ Allowed d req := by
  by_cases hsetup : req.method = ofString "SETUP"
  · have hplay : req.method ≠ ofString "PLAY" := by rw [hsetup]; decide
    rw [answered_setup_iff hsetup, hd.ready_iff]
    exact ⟨fun h => ⟨fun _ => h, fun h => absurd h hplay⟩, fun h => h.1 hsetup⟩
  · by_cases hplay : req.method = ofString "PLAY"
    · rw [answered_play_iff hplay]
      cases d with
      | none =>
        rw [Reflects] at hd
        simp [Allowed, hplay, hd]
      | some last =>
        obtain ⟨stream, hs, hencoder, hid⟩ := hd
        simp [Allowed, hplay, hs, hencoder, hid, show ofString "PLAY" ≠ ofString "SETUP" by decide]
    -- the other methods are always answered
    · refine ⟨fun _ => ⟨fun h => absurd h hsetup, fun h => absurd h hplay⟩, fun _ => ?_⟩
      by_cases hdescribe : req.method = ofString "DESCRIBE"
      · refine ⟨_, _, onWholeRtspPacket_describe hdescribe, fun hinvalid => ?_⟩
        exact absurd (Or.inr (Or.inl hdescribe)) hinvalid
      · obtain ⟨acts, hrun, herror⟩ :=
          onWholeRtspPacket_other s env hsetup hplay hdescribe
        exact ⟨_, acts, hrun, herror⟩

end Dispatch

end RtspSession

/-! ## Safe runs -/

/-- Along a run the state reflects the last `DESCRIBE`. -/
theorem reflects_of_run {events : List SessionEvent} {s : RtspSession}
    (hrun : sessionSystem.Run events s) : s.Reflects (lastDescribe events) := by
  refine hrun.history (I := fun events s => s.Reflects (lastDescribe events)) ?_ ?_
  · rintro s rfl
    rfl
  · rintro events s e t hreflects ⟨acts, hstep⟩
    rw [lastDescribe_snoc]
    exact hreflects.handle hstep

theorem SessionSafe.of_append {xs ys : List SessionEvent} (h : SessionSafe (xs ++ ys)) :
    SessionSafe xs := by
  intro before req env later hxs
  exact h before req env (later ++ ys) (by simp [hxs])

/-- Safe events can be taken to the end. -/
theorem SessionSafe.exists_run {events : List SessionEvent} (h : SessionSafe events) :
    ∃ s, sessionSystem.Run events s := by
  induction events using List.reverseRecOn with
  | nil => exact ⟨{}, .nil rfl⟩
  | append_singleton before e ih =>
    obtain ⟨s, hrun⟩ := ih h.of_append
    cases e with
    | frames timeStamp seq => exact ⟨_, hrun.snoc ⟨_, rfl⟩⟩
    | request req env =>
      obtain ⟨s', acts, hstep, -⟩ := h before req env [] rfl s hrun
      exact ⟨s', hrun.snoc ⟨acts, hstep⟩⟩

/-- **A run is safe exactly when its requests are in order**: each `SETUP` and each `PLAY` comes
after some `DESCRIBE`, and the last one loaded its file, except before a `PLAY` that does not name
the session it made. -/
theorem sessionSafe_iff (events : List SessionEvent) : SessionSafe events ↔ InOrder events := by
  constructor
  · rintro hsafe before req env later rfl
    obtain ⟨s, hrun⟩ := hsafe.of_append.exists_run
    exact (RtspSession.answered_iff (reflects_of_run hrun) req env).mp
      (hsafe before req env later rfl s hrun)
  · intro horder before req env later hevents s hrun
    exact (RtspSession.answered_iff (reflects_of_run hrun) req env).mpr
      (horder before req env later hevents)

/-- A first request of `SETUP` dereferences the null stream. -/
theorem not_sessionSafe_setup : ¬ ∀ events, SessionSafe events := by
  intro h
  have hanswered := h [.request { method := ofString "SETUP" } ⟨.failed, 0, [], []⟩] []
    { method := ofString "SETUP" } ⟨.failed, 0, [], []⟩ [] rfl {} (.nil rfl)
  obtain ⟨stream, hstream, -⟩ := (RtspSession.answered_setup_iff rfl).mp hanswered
  cases hstream

end CppServerStudio
