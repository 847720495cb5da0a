import Http2Server.StreamMap
import Http2Server.TakesData

/-!
# Streams that are known

A stream comes into the map with a HEADERS frame. That its request is answered does not take it
out again, nor does an error: only the peer does.

- `known_handleFrame`: what one frame puts in and takes out.
- `known_iff`: the streams that are known after any run.
-/

namespace Http2Server.FrameHandler

open Lib.Since

/-- A HEADERS frame of the stream that does not end it. -/
def Introduces (sid : Nat) (f : Frame) : Prop :=
  f.sid = sid ∧ f.type = FrameType.headers.code ∧ f.hasFlag Flag.endStream = false

/-- GOAWAY, or a frame of the stream that ends it. -/
def Dismisses (sid : Nat) (f : Frame) : Prop :=
  f.type = FrameType.goAway.code ∨ f.sid = sid ∧ Ends f

section
variable {env : Env} {s : Session} {f : Frame}

/-! ## One frame -/

theorem known_headers (live : (handleHeadersFrame env s f).1 ≠ .aborted) :
    (handleHeadersFrame env s f).2.streams f.sid ≠ none ↔
      f.hasFlag Flag.endStream = false := by
  have kept (s' : Session) (strm : Stream) :
      (if f.hasFlag Flag.endStream then s'.eraseStream f.sid
        else s'.setStream f.sid strm).streams f.sid ≠ none ↔ f.hasFlag Flag.endStream = false := by
    split
    · next last => simp [last, Session.eraseStream_same]
    · next more => simp [more, Session.setStream_same]
  unfold handleHeadersFrame at live ⊢
  by_cases ends : f.hasFlag Flag.endHeaders = true
  · simp only [ends, ↓reduceIte] at live ⊢
    split at live
    · exact absurd rfl live
    · next going =>
      rw [if_neg going]
      exact kept _ _
  · simp only [ends, Bool.false_eq_true, ↓reduceIte, reduceCtorEq]
    exact kept _ _

theorem reset_gone (all : AllLive s) : (handleResetFrame s f).2.streams f.sid = none := by
  unfold handleResetFrame
  cases found : s.streams f.sid with
  | none => exact found
  | some strm =>
    have open_ : strm.state ≠ .closed := by
      rcases (all f.sid strm found).state with state | state <;> rw [state] <;> decide
    dsimp only
    rw [if_neg open_]
    exact Session.eraseStream_same ..

/-- A frame that neither opens its stream nor ends it. -/
theorem known_turns {left : Option Stream} (turns : Turns s f left) (lasts : ¬ Ends f)
    (other : f.type ≠ FrameType.headers.code) : left ≠ none ↔ s.streams f.sid ≠ none := by
  cases turns with
  | same => exact Iff.rfl
  | data type found => simp [found]
  | priority type read found => simp [found]
  | opened type => exact absurd type other
  | continued type found => simp [found]
  | block completes =>
    obtain ⟨_, ⟨type, _⟩ | ⟨_, old, found, _⟩⟩ := completed_cases completes
    · exact absurd type other
    · simp [found]
  | ended ends => exact absurd ends lasts

/-- The frame's own stream. -/
theorem known_own (live : (dispatch env s f).1 ≠ .aborted) (all : AllLive s) :
    (dispatch env s f).2.streams f.sid ≠ none ↔
      Introduces f.sid f ∨ s.streams f.sid ≠ none ∧ ¬ Dismisses f.sid f := by
  by_cases headers : f.type = FrameType.headers.code
  · have handler : dispatch env s f = handleHeadersFrame env s f := by
      rw [dispatch, headers, FrameType.ofCode_code]
    rw [handler] at live ⊢
    rw [known_headers live]
    constructor
    · exact fun more => .inl ⟨rfl, headers, more⟩
    · rintro (⟨_, _, more⟩ | ⟨_, lasts⟩)
      · exact more
      · by_contra last
        exact lasts (.inr ⟨rfl, .inl ⟨headers, Bool.eq_true_of_not_eq_false last⟩⟩)
  · have introduces : ¬ Introduces f.sid f := fun introduces => headers introduces.2.1
    rw [or_iff_right introduces]
    by_cases ends : Ends f
    · have dismisses : Dismisses f.sid f := .inr ⟨rfl, ends⟩
      have gone : (dispatch env s f).2.streams f.sid = none := by
        rcases ends with ⟨type, _⟩ | type | type
        · exact absurd type headers
        · rw [dispatch, type, FrameType.ofCode_code]
          exact reset_gone all
        · rw [dispatch, type, FrameType.ofCode_code]
          rfl
      simp [gone, dismisses]
    · have lasts : ¬ Dismisses f.sid f := by
        rintro (away | ⟨_, ended⟩)
        · exact ends (.inr (.inr away))
        · exact ends ended
      rw [known_turns (dispatch_turns env s f) ends headers]
      exact (and_iff_left lasts).symm

/-- **One frame.** What it puts in and takes out, short of an end of the process. -/
theorem known_handleFrame (sid : Nat) (live : (handleFrame env s f).1 ≠ .aborted)
    (all : AllLive s) :
    (handleFrame env s f).2.streams sid ≠ none ↔
      Introduces sid f ∨ s.streams sid ≠ none ∧ ¬ Dismisses sid f := by
  by_cases own : f.sid = sid
  · subst own
    exact known_own (s := s.log (.handleFrame f)) live all
  · have introduces : ¬ Introduces sid f := fun introduces => own introduces.1
    rw [or_iff_right introduces]
    by_cases away : f.type = FrameType.goAway.code
    · have gone : (handleFrame env s f).2.streams sid = none := by
        rw [handleFrame, dispatch, away, FrameType.ofCode_code]
        rfl
      have dismisses : Dismisses sid f := .inl away
      simp [gone, dismisses]
    · have lasts : ¬ Dismisses sid f := by
        rintro (goes | ⟨mine, _⟩)
        · exact away goes
        · exact own mine
      have same : (handleFrame env s f).2.streams sid = s.streams sid :=
        dispatch_other env (s.log (.handleFrame f)) f (Ne.symm own) away
      rw [same]
      exact (and_iff_left lasts).symm

/-! ## Runs -/

theorem run_live {s' : Session} {trace : List (Frame × Bool)} (run : Run env s trace s')
    (all : AllLive s) :
    Along (fun s f => (handleFrame env s f).2)
      (fun s f => (handleFrame env s f).1 ≠ .aborted ∧ AllLive s) s (trace.map Prod.fst) := by
  induction run with
  | nil => trivial
  | @step s s' s'' f ok rest handled _ ih =>
    have next : AllLive (handleFrame env s f).2 :=
      dispatch_live (s := s.log (.handleFrame f)) env all f
    rw [List.map_cons, Along, handled] at *
    exact ⟨⟨by simp, all⟩, ih next⟩

/-- **Known streams.** After any run of a connection, a stream is known exactly where one of the
frames was HEADERS on it without END_STREAM, and since then neither RST_STREAM on it has come, nor
HEADERS with END_STREAM, nor GOAWAY. -/
theorem known_iff {s' : Session} {trace : List (Frame × Bool)} (run : Run env {} trace s')
    (sid : Nat) :
    s'.streams sid ≠ none ↔ ∃ before f after, trace.map Prod.fst = before ++ f :: after ∧
      Introduces sid f ∧ ∀ g ∈ after, ¬ Dismisses sid g := by
  have new : ¬ ({} : Session).streams sid ≠ none := not_not.mpr rfl
  have live := run_live run (fun _ _ found => by cases found)
  have law (s : Session) (f : Frame)
      (allowed : (handleFrame env s f).1 ≠ .aborted ∧ AllLive s) :
      (handleFrame env s f).2.streams sid ≠ none ↔
        Introduces sid f ∨ s.streams sid ≠ none ∧ ¬ Dismisses sid f :=
    known_handleFrame sid allowed.1 allowed.2
  have known := holds_iff (P := fun s => s.streams sid ≠ none) law live
  rw [(run_foldl run).2, or_iff_left fun both => new both.1] at known
  rw [known, begun_iff]

end

/-- A request that has been answered is still known. -/
theorem known_iff_answered : ∃ s', Run siteEnv {} [(headersFrame 1 [0x82, 0x84], true)] s' ∧
    (s'.streams 1 ≠ none ↔ ∃ before f after,
      [headersFrame 1 [0x82, 0x84]] = before ++ f :: after ∧
        Introduces 1 f ∧ ∀ g ∈ after, ¬ Dismisses 1 g) := by
  have returned : (handleFrame siteEnv {} (headersFrame 1 [0x82, 0x84])).1 = .returned true := by
    decide +kernel
  have run : Run siteEnv {} [(headersFrame 1 [0x82, 0x84], true)] _ :=
    .step (handleFrame_eta returned) (.nil _)
  exact ⟨_, run, known_iff run 1⟩

end Http2Server.FrameHandler
