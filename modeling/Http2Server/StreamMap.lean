import Http2Server.Client
import Http2Server.Uploads

/-!
# The map of streams

A stream's state and its place in the map are changed apart from each other.

- `handled_live`: in between frames a stream of the map is open or half-closed, under
  its own id.
- `handleFrame_isolated`: a frame leaves the streams with other ids as they are.
-/

namespace Http2Server.FrameHandler

open Hpack

/-- A stream as it stands in the map. -/
structure Live (sid : Nat) (strm : Stream) : Prop where
  id : strm.id = sid
  state : strm.state = .open ∨ strm.state = .halfClosedRemote

def AllLive (s : Session) : Prop := ∀ sid strm, s.streams sid = some strm → Live sid strm

/-! ## A frame on its own stream -/

section
variable {s : Session} {sid : Nat} {strm : Stream}

/-- A block that raises an exception leaves the state, any other half-closes the
stream. -/
theorem Live.received (live : Live sid strm) : Live sid (received s strm) := by
  refine ⟨(received_id s strm).trans live.id, ?_⟩
  by_cases threw : (decoded s strm).verdict = .threw
  · rw [FrameHandler.received, if_pos threw]
    exact live.state
  · exact .inr (received_state s strm threw)

theorem AllLive.same {s' : Session} (all : AllLive s) (same : s'.streams = s.streams) :
    AllLive s' := by
  intro sid strm found
  rw [same] at found
  exact all sid strm found

theorem AllLive.processed (all : AllLive s) (env : Env) (strm : Stream) :
    AllLive (processEndHeader env s strm).2.2 :=
  all.same (processEndHeader_streams env s strm)

theorem AllLive.stored (all : AllLive s) (live : Live sid strm) :
    AllLive (s.setStream sid strm) := by
  intro other strm' found
  by_cases own : other = sid
  · subst own
    rw [Session.setStream_same] at found
    cases found
    exact live
  · rw [Session.setStream_other s own] at found
    exact all other strm' found

theorem AllLive.erased (all : AllLive s) (sid : Nat) : AllLive (s.eraseStream sid) := by
  intro other strm found
  by_cases own : other = sid
  · subst own
    rw [Session.eraseStream_same] at found
    cases found
  · rw [Session.eraseStream_other s own] at found
    exact all other strm found

/-- HEADERS open their stream, whatever its state was. -/
theorem openStream_live (all : AllLive s) (f : Frame) : Live f.sid (openStream s f) := by
  refine ⟨?_, .inl rfl⟩
  unfold openStream
  dsimp only
  cases found : s.streams f.sid with
  | none => rfl
  | some strm => exact (all f.sid strm found).id

theorem handleHeadersFrame_live (env : Env) (all : AllLive s) (f : Frame) :
    AllLive (handleHeadersFrame env s f).2 := by
  have opened := openStream_live all f
  unfold handleHeadersFrame
  by_cases ends : f.hasFlag Flag.endHeaders = true
  · have block := processEndHeader_stream env s (openStream s f)
    have processed := all.processed env (openStream s f)
    simp only [ends, ↓reduceIte]
    generalize processEndHeader env s (openStream s f) = r at block processed
    split
    · exact processed
    · dsimp only
      split
      · exact processed.erased f.sid
      · rw [block]
        exact processed.stored opened.received
  · simp only [ends, Bool.false_eq_true, ↓reduceIte, reduceCtorEq]
    split
    · exact all.erased f.sid
    · exact all.stored opened

theorem handleContinuationFrame_live (env : Env) (all : AllLive s) (f : Frame) :
    AllLive (handleContinuationFrame env s f).2 := by
  unfold handleContinuationFrame
  split
  · exact all
  · next strm found =>
    have known := all f.sid strm found
    have continued : Live f.sid (continueStream strm f) := ⟨known.id, known.state⟩
    split
    · exact all
    · split
      · dsimp only
        rw [processEndHeader_stream]
        exact (all.processed env _).stored continued.received
      · exact all.stored continued

theorem dispatch_live (env : Env) (all : AllLive s) (f : Frame) :
    AllLive (dispatch env s f).2 := by
  unfold dispatch
  split
  · unfold handleDataFrame
    split
    · exact all
    · next strm found =>
      have known := all f.sid strm found
      split
      · exact all
      · exact all.stored ⟨known.id, known.state⟩
  · exact handleHeadersFrame_live env all f
  · unfold handlePriorityFrame
    split
    · exact all
    · next strm found =>
      have known := all f.sid strm found
      split
      · exact all
      · exact all.stored ⟨known.id, known.state⟩
  · unfold handleResetFrame
    split
    · exact all
    · split
      · exact all
      · exact all.erased f.sid
  · unfold handleSettingsFrame
    split
    · exact all
    · split
      · exact all.same (ackSettings_streams env s f)
      · exact all
  · exact all
  · unfold handlePingFrame
    split
    · exact all
    · exact all.same (sendFrame_streams env s _ 0)
  · intro sid strm found
    cases found
  · exact all
  · exact handleContinuationFrame_live env all f
  · exact all

end

/-! ## Runs -/

/-- Sessions that any frames lead to from one without streams, whatever else changes
in between and however a frame ends. -/
inductive Handled : Session → Prop
  | new {s : Session} (empty : ∀ sid, s.streams sid = none) : Handled s
  | frame {s : Session} (env : Env) (f : Frame) (before : Handled s) :
      Handled (handleFrame env s f).2
  | between {s s' : Session} (before : Handled s) (same : s'.streams = s.streams) : Handled s'

/-- The sessions of a connection are among them. -/
theorem handled_of_reachable {s : Session} (h : Reachable s) : Handled s := by
  apply h.invariant (P := Handled)
  · intro s state fdState errorCode before
    exact before.between rfl
  · intro env s before
    exact before.between (sendFrame_streams env s _ 0)
  · intro env s f _ before
    exact before.frame env f
  · exact .new fun _ => rfl

/-- The branch of `handleResetFrame` for a stream that is closed already. -/
def ResetsClosed (s : Session) (f : Frame) : Prop :=
  ∃ strm, s.streams f.sid = some strm ∧ strm.state = .closed

/-- The branch of `handleContinuationFrame` for a stream in another state. -/
def ContinuesOther (s : Session) (f : Frame) : Prop :=
  ∃ strm, s.streams f.sid = some strm ∧ strm.state ≠ .open ∧ strm.state ≠ .halfClosedRemote

theorem Handled.live {s : Session} (h : Handled s) : AllLive s := by
  induction h with
  | new empty =>
    intro sid strm found
    cases (empty sid).symm.trans found
  | @frame s env f before ih =>
    have logged : AllLive (s.log (.handleFrame f)) := ih.same rfl
    exact dispatch_live env logged f
  | between before same ih => exact ih.same same

/-- **Streams.** In every session reached, each stream of the map has its key as its
id and is open or half-closed, so that two branches of the handlers are never taken. -/
theorem handled_live {s : Session} (h : Handled s) :
    (∀ sid strm, s.streams sid = some strm →
      strm.id = sid ∧ (strm.state = .open ∨ strm.state = .halfClosedRemote)) ∧
    ∀ f, ¬ ResetsClosed s f ∧ ¬ ContinuesOther s f := by
  refine ⟨fun sid strm found => ⟨(h.live sid strm found).id, (h.live sid strm found).state⟩, ?_⟩
  intro f
  constructor
  · rintro ⟨strm, found, closed⟩
    rcases (h.live f.sid strm found).state with state | state
    · cases closed.symm.trans state
    · cases closed.symm.trans state
  · rintro ⟨strm, found, notOpen, notHalf⟩
    rcases (h.live f.sid strm found).state with state | state
    · exact notOpen state
    · exact notHalf state

/-- The session with a POST on stream 1. -/
def afterPost : Session := (handleFrame siteEnv {} postOpening).2

/-- The body of the POST amid a GET on stream 3, whose block comes in two frames, and then a
reset of the POST's stream. -/
def afterMixed : Session :=
  (handleFrames siteEnv [{ postOpening with flags := 0, sid := 3, payload := [0x82] }, postBody,
    { type := FrameType.continuation.code, flags := Flag.endHeaders, sid := 3, payload := [0x84] },
    { type := FrameType.rstStream.code, sid := 1 }] afterPost).2

theorem handled_live_mixed :
    (∃ strm, afterMixed.streams 3 = some strm) ∧
    (∀ sid strm, afterMixed.streams sid = some strm →
      strm.id = sid ∧ (strm.state = .open ∨ strm.state = .halfClosedRemote)) ∧
    ∀ f, ¬ ResetsClosed afterMixed f ∧ ¬ ContinuesOther afterMixed f := by
  refine ⟨Option.isSome_iff_exists.mp (by decide +kernel), handled_live ?_⟩
  apply handleFrames_invariant
  · exact fun s f _ before => before.frame siteEnv f
  · exact .frame siteEnv postOpening (.new fun _ => rfl)

/-- **Isolation.** A frame other than GOAWAY leaves every stream with another id as it
was. -/
theorem handleFrame_isolated (env : Env) (s : Session) (f : Frame)
    (stay : f.type ≠ FrameType.goAway.code) {sid : Nat} (other : sid ≠ f.sid) :
    (handleFrame env s f).2.streams sid = s.streams sid := by
  have logged : (s.log (.handleFrame f)).streams sid = s.streams sid := rfl
  rw [handleFrame, dispatch_other env _ f other stay, logged]

/-- A GET on stream 3 leaves the POST on stream 1. -/
theorem handleFrame_isolated_post :
    (∃ strm, afterPost.streams 1 = some strm) ∧
      (handleFrame siteEnv afterPost
        { postOpening with sid := 3, payload := [0x82, 0x84] }).2.streams 1 =
        afterPost.streams 1 :=
  ⟨Option.isSome_iff_exists.mp (by decide +kernel),
    handleFrame_isolated siteEnv afterPost _ (by decide) (by decide)⟩

/-- Over a run, where none of the frames is the stream's. -/
theorem run_isolated {env : Env} {s s' : Session} {sid : Nat} {trace : List (Frame × Bool)}
    (run : Run env s trace s') (stay : ∀ e ∈ trace, e.1.type ≠ FrameType.goAway.code)
    (others : ∀ e ∈ trace, sid ≠ e.1.sid) : s'.streams sid = s.streams sid := by
  induction run with
  | nil => rfl
  | @step s s' s'' f ok rest handled _ ih =>
    rw [List.forall_mem_cons] at stay others
    have first := dispatch_other env (s.log (.handleFrame f)) f others.1 stay.1
    rw [← handleFrame, handled] at first
    exact (ih stay.2 others.2).trans first

end Http2Server.FrameHandler
