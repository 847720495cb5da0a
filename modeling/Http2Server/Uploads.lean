import Http2Server.Requests
import Http2Server.Steps

/-!
# Request bodies

A completed header block leaves its stream half-closed, whether or not the
client has ended it, and DATA is taken on open streams only.

- `dispatch_other`: a frame leaves the other streams alone.
- `upload_iff`: a request's body is taken exactly where there is none.
-/

namespace Http2Server.FrameHandler

open Hpack

/-! ## Frames of other streams -/

theorem sendFrame_streams (env : Env) (s : Session) (f : Frame) (weight : Int) :
    (sendFrame env s f weight).2.streams = s.streams := by
  unfold sendFrame
  split <;> rfl

theorem ackSettings_streams (env : Env) (s : Session) (f : Frame) :
    (ackSettings env s f).2.streams = s.streams := by
  obtain ⟨settings, _, taken⟩ | ⟨_, dropped⟩ := ackSettings_cases env s f
  · rw [taken]
    exact sendFrame_streams env { s with settings } _ 0
  · rw [dropped]

theorem kept_other {s s' : Session} {own sid : Nat} (h : Kept s own s') (other : sid ≠ own) :
    s'.streams sid = s.streams sid := by
  cases h with
  | stored strm => exact Session.setStream_other s other strm
  | erased => exact Session.eraseStream_other s other

/-- A frame other than GOAWAY leaves the other streams alone. -/
theorem dispatch_other (env : Env) (s : Session) (f : Frame) {sid : Nat} (other : sid ≠ f.sid)
    (stay : f.type ≠ FrameType.goAway.code) :
    (dispatch env s f).2.streams sid = s.streams sid := by
  have effect := dispatch_effect env s f
  generalize dispatch env s f = r at effect
  cases effect with
  | nothing ok => rfl
  | stream kept => exact kept_other kept other
  | @block strm completes s' e kept =>
    rcases kept with rfl | kept
    · rw [processEndHeader_streams]
    · rw [kept_other kept other, processEndHeader_streams]
  | settings => rw [ackSettings_streams]
  | ping => rw [sendFrame_streams]
  | goAway type => exact absurd type stay

/-! ## Runs -/

/-- Frames handled one after the other, each with its result. -/
inductive Run (env : Env) : Session → List (Frame × Bool) → Session → Prop
  | nil (s : Session) : Run env s [] s
  | step {s s' s'' : Session} {f : Frame} {ok : Bool} {rest : List (Frame × Bool)} :
      handleFrame env s f = (.returned ok, s') → Run env s' rest s'' →
        Run env s ((f, ok) :: rest) s''

/-- The frames of a run on one stream. -/
def onStream (sid : Nat) (trace : List (Frame × Bool)) : List Frame :=
  (trace.map Prod.fst).filter (·.sid = sid)

/-- What may follow the header block of an upload: DATA on its stream, of which
only the last ends it, and frames of other streams but RST_STREAM and GOAWAY. -/
structure Body (sid : Nat) (trace : List (Frame × Bool)) : Prop where
  data : ∀ f ∈ onStream sid trace, f.type = FrameType.data.code
  ends : ∀ f ∈ (onStream sid trace).dropLast, f.hasFlag Flag.endStream = false
  others : ∀ e ∈ trace, e.1.type ≠ FrameType.rstStream.code ∧ e.1.type ≠ FrameType.goAway.code

/-- A HEADERS frame that opens a stream with a whole block and leaves it to the
client to end it. -/
structure Opens (s : Session) (sid : Nat) (f : Frame) : Prop where
  fresh : s.streams sid = none
  type : f.type = FrameType.headers.code
  id : f.sid = sid
  whole : f.hasFlag Flag.endHeaders = true
  unended : f.hasFlag Flag.endStream = false
  decodes : (decoded s (openStream s f)).verdict = .accepted

/-- The body arrived: every DATA frame was accepted, and the stream holds their
payloads. -/
def Arrived (sid : Nat) (trace : List (Frame × Bool)) (s : Session) : Prop :=
  (∀ e ∈ trace, e.1.sid = sid → e.2 = true) ∧
    ∃ strm, s.streams sid = some strm ∧
      strm.data = (onStream sid trace).flatMap Frame.payload

/-- A stream that takes no DATA. -/
def Deaf (s : Session) (sid : Nat) : Prop :=
  ∃ strm, s.streams sid = some strm ∧ strm.state = .halfClosedRemote ∧ strm.data = []

/-- The block that opens a stream half-closes it. -/
theorem opens_deaf {env : Env} {s s' : Session} {sid : Nat} {f : Frame} {ok : Bool}
    (opens : Opens s sid f) (h : handleFrame env s f = (.returned ok, s')) :
    ok = true ∧ Deaf s' sid := by
  obtain ⟨fresh, type, rfl, whole, unended, decodes⟩ := opens
  have same : openStream (s.log (.handleFrame f)) f = openStream s f := rfl
  have kept := processEndHeader_stream env (s.log (.handleFrame f)) (openStream s f)
  have block : decoded (s.log (.handleFrame f)) (openStream s f) = decoded s (openStream s f) :=
    rfl
  simp only [handleFrame, dispatch, type, FrameType.ofCode_code, handleHeadersFrame, whole,
    unended, ↓reduceIte, Bool.false_eq_true, same] at h
  generalize processEndHeader env (s.log (.handleFrame f)) (openStream s f) = r at h kept
  split at h
  · cases h
  · simp only [Prod.mk.injEq, Exit.returned.injEq] at h
    obtain ⟨rfl, rfl⟩ := h
    refine ⟨rfl, r.2.1, Session.setStream_same _ _ _, ?_, ?_⟩
    · rw [kept, received_state _ _ (by rw [block, decodes]; decide)]
    · rw [kept, received_data, openStream, fresh]
      rfl

/-- Such a stream stays as it is, and its DATA frames fail. -/
theorem step_deaf {env : Env} {s s' : Session} {sid : Nat} {f : Frame} {ok : Bool}
    (deaf : Deaf s sid) (data : f.sid = sid → f.type = FrameType.data.code)
    (stay : f.type ≠ FrameType.goAway.code) (h : handleFrame env s f = (.returned ok, s')) :
    Deaf s' sid ∧ (f.sid = sid → ok = false) := by
  by_cases own : f.sid = sid
  · obtain ⟨strm, found, state, _⟩ := deaf
    have known : (s.log (.handleFrame f)).streams f.sid = some strm := own ▸ found
    simp only [handleFrame, dispatch, data own, FrameType.ofCode_code, handleDataFrame, known,
      state, ne_eq, reduceCtorEq, not_false_eq_true, ↓reduceIte, Prod.mk.injEq,
      Exit.returned.injEq] at h
    obtain ⟨rfl, rfl⟩ := h
    exact ⟨⟨strm, found, state, ‹_›⟩, fun _ => rfl⟩
  · have kept := dispatch_other env (s.log (.handleFrame f)) f (Ne.symm own) stay
    rw [← handleFrame, h] at kept
    obtain ⟨strm, found, rest⟩ := deaf
    exact ⟨⟨strm, kept.trans found, rest⟩, fun same => absurd same own⟩

/-- Over a whole run: the stream holds no data, and every DATA frame failed. -/
theorem run_deaf {env : Env} {s s' : Session} {sid : Nat} {trace : List (Frame × Bool)}
    (run : Run env s trace s') (deaf : Deaf s sid)
    (data : ∀ f ∈ onStream sid trace, f.type = FrameType.data.code)
    (others : ∀ e ∈ trace, e.1.type ≠ FrameType.goAway.code) :
    Deaf s' sid ∧ ∀ e ∈ trace, e.1.sid = sid → e.2 = false := by
  induction run with
  | nil => exact ⟨deaf, by simp⟩
  | @step _ _ _ f ok rest handled _ ih =>
    have typed : f.sid = sid → f.type = FrameType.data.code := fun own =>
      data f (by simp [onStream, own])
    obtain ⟨deaf, failed⟩ := step_deaf deaf typed (others (f, ok) (by simp)) handled
    obtain ⟨final, each⟩ := ih deaf
      (fun g hg => data g (by
        simp only [onStream, List.map_cons, List.filter_cons] at hg ⊢
        split
        · exact List.mem_cons_of_mem _ hg
        · exact hg))
      (fun e he => others e (by simp [he]))
    refine ⟨final, ?_⟩
    intro e he own
    rcases List.mem_cons.mp he with rfl | he
    · exact failed own
    · exact each e he own

/-- **Bodies.** In a run that opens a stream and goes on with its body, the body
arrives exactly where there is none. -/
theorem upload_iff (env : Env) (s s' : Session) (sid : Nat) (opening : Frame) (ok : Bool)
    (trace : List (Frame × Bool)) (opens : Opens s sid opening) (body : Body sid trace)
    (run : Run env s ((opening, ok) :: trace) s') :
    Arrived sid trace s' ↔ onStream sid trace = [] := by
  cases run with
  | step handled rest =>
    obtain ⟨_, deaf⟩ := opens_deaf opens handled
    obtain ⟨⟨strm, found, _, empty⟩, failed⟩ :=
      run_deaf rest deaf body.data fun e he => (body.others e he).2
    constructor
    · rintro ⟨accepted, _⟩
      rw [onStream, List.filter_eq_nil_iff]
      intro f hf own
      obtain ⟨e, he, rfl⟩ := List.mem_map.mp hf
      have own : e.1.sid = sid := by simpa using own
      have both := accepted e he own
      rw [failed e he own] at both
      cases both
    · intro none
      refine ⟨?_, strm, found, by rw [none, empty]; rfl⟩
      intro e he own
      have : e.1 ∈ onStream sid trace := by
        simp only [onStream, List.mem_filter, List.mem_map]
        exact ⟨⟨e, he, rfl⟩, by simpa using own⟩
      rw [none] at this
      cases this

/-- A POST, its stream left open, -/
def postOpening : Frame :=
  { type := FrameType.headers.code, flags := Flag.endHeaders, sid := 1, payload := [0x83] }

/-- and its body. -/
def postBody : Frame :=
  { type := FrameType.data.code, flags := Flag.endStream, sid := 1, payload := ascii "a=1" }

theorem postOpening_opens : Opens {} 1 postOpening :=
  ⟨rfl, rfl, rfl, by decide, by decide, by decide +kernel⟩

theorem postBody_body (ok : Bool) : Body 1 [(postBody, ok)] :=
  ⟨by simp [onStream, postBody], by simp [onStream, postBody], by simp [postBody, FrameType.code]⟩

theorem handleFrame_eta {env : Env} {s : Session} {f : Frame} {ok : Bool}
    (h : (handleFrame env s f).1 = .returned ok) :
    handleFrame env s f = (.returned ok, (handleFrame env s f).2) := Prod.ext h rfl

theorem postRun : ∃ s', Run siteEnv {} [(postOpening, true), (postBody, false)] s' :=
  ⟨_, .step (handleFrame_eta (by decide +kernel))
    (.step (handleFrame_eta (by decide +kernel)) (.nil _))⟩

theorem postBody_lost :
    ∃ s' ok trace, Opens {} 1 postOpening ∧ Body 1 trace ∧
      Run siteEnv {} ((postOpening, ok) :: trace) s' ∧ ¬ Arrived 1 trace s' := by
  obtain ⟨s', run⟩ := postRun
  refine ⟨s', _, _, postOpening_opens, postBody_body false, run, ?_⟩
  rintro ⟨accepted, _⟩
  exact absurd (accepted (postBody, false) (by simp) rfl) (by decide)

theorem upload_iff_post :
    ∃ s', Run siteEnv {} [(postOpening, true), (postBody, false)] s' ∧
      (Arrived 1 [(postBody, false)] s' ↔ onStream 1 [(postBody, false)] = []) := by
  obtain ⟨s', run⟩ := postRun
  exact ⟨s', run, upload_iff siteEnv {} s' 1 postOpening true [(postBody, false)] postOpening_opens
    (postBody_body false) run⟩

end Http2Server.FrameHandler
