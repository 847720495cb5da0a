import Http2Server.Lib.Since
import Http2Server.OwnStream

/-!
# Streams that take data

`handleDataFrame` looks at the state of its stream, which the header handlers and
`processEndHeader` have set. What it comes to over a connection is told by frames alone.

- `takes_handleFrame`: what one frame begins and ends.
- `data_accepted_iff`: the DATA frames that are accepted.
-/

namespace Http2Server.FrameHandler

open Hpack Lib.Since

/-- The stream is there and open. -/
def Takes (sid : Nat) (s : Session) : Prop :=
  ∃ strm, s.streams sid = some strm ∧ strm.state = .open

/-- The frame completes a header block, and decoding it does not throw. -/
def Closes (s : Session) (f : Frame) : Prop :=
  ∃ strm, completed s f = some strm ∧ (decoded s strm).verdict ≠ .threw

/-- A HEADERS frame that is not the end of its stream, and does not complete its block, or one
whose decoding throws. -/
def Begins (sid : Nat) (s : Session) (f : Frame) : Prop :=
  f.sid = sid ∧ f.type = FrameType.headers.code ∧ f.hasFlag Flag.endStream = false ∧ ¬ Closes s f

/-- A frame that ends the stream, or half-closes it. -/
def Stops (sid : Nat) (s : Session) (f : Frame) : Prop :=
  f.type = FrameType.goAway.code ∨ f.sid = sid ∧ (Ends f ∨ Closes s f)

section
variable {env : Env} {s : Session} {f : Frame}

theorem not_closes (headers : f.type ≠ FrameType.headers.code)
    (continuation : f.type ≠ FrameType.continuation.code) : ¬ Closes s f := by
  rintro ⟨strm, completes, _⟩
  obtain ⟨type, _⟩ | ⟨type, _⟩ := (completed_cases completes).2
  · exact headers type
  · exact continuation type

theorem takes_found {sid : Nat} {strm : Stream} (found : s.streams sid = some strm) :
    Takes sid s ↔ strm.state = .open := by
  simp [Takes, found]

theorem takes_unknown {sid : Nat} (unknown : s.streams sid = none) : ¬ Takes sid s := by
  simp [Takes, unknown]

theorem takes_congr {s s' : Session} {sid : Nat} (same : s'.streams sid = s.streams sid) :
    Takes sid s' ↔ Takes sid s := by
  rw [Takes, same, Takes]

theorem closes_iff {strm : Stream} (completes : completed s f = some strm) :
    Closes s f ↔ (decoded s strm).verdict ≠ .threw := by
  simp [Closes, completes]

theorem received_open {strm : Stream} :
    (received s strm).state = .open ↔ strm.state = .open ∧ (decoded s strm).verdict = .threw := by
  by_cases threw : (decoded s strm).verdict = .threw
  · simp [received, threw]
  · rw [received_state s strm threw]
    simp [threw]

/-! ## One frame -/

theorem takes_headers (type : f.type = FrameType.headers.code)
    (live : (handleHeadersFrame env s f).1 ≠ .aborted) :
    Takes f.sid (handleHeadersFrame env s f).2 ↔
      f.hasFlag Flag.endStream = false ∧ ¬ Closes s f := by
  have opened : (openStream s f).state = .open := rfl
  unfold handleHeadersFrame at live ⊢
  by_cases ends : f.hasFlag Flag.endHeaders = true
  · have completes : completed s f = some (openStream s f) := by
      simp only [completed, ends, type, FrameType.ofCode_code, ↓reduceIte]
    rw [closes_iff completes, not_not]
    simp only [ends, ↓reduceIte] at live ⊢
    split at live
    · exact absurd rfl live
    · next going =>
      rw [if_neg going]
      dsimp only
      split
      · next last => simp [last, takes_unknown (Session.eraseStream_same ..)]
      · next more =>
        rw [takes_found (Session.setStream_same ..), processEndHeader_stream, received_open]
        simp [more, opened]
  · have incomplete : completed s f = none := if_neg ends
    have open_ : ¬ Closes s f := by simp [Closes, incomplete]
    simp only [ends, Bool.false_eq_true, ↓reduceIte, reduceCtorEq, open_, not_false_eq_true,
      and_true]
    split
    · next last => simp [last, takes_unknown (Session.eraseStream_same ..)]
    · next more =>
      rw [takes_found (Session.setStream_same ..)]
      simp [more, opened]

theorem takes_continuation (type : f.type = FrameType.continuation.code) :
    Takes f.sid (handleContinuationFrame env s f).2 ↔ Takes f.sid s ∧ ¬ Closes s f := by
  unfold handleContinuationFrame
  cases found : s.streams f.sid with
  | none => simp [takes_unknown found]
  | some strm =>
    dsimp only
    split
    · next other =>
      have shut : ¬ strm.state = .open := other.1
      rw [takes_found found]
      simp [shut]
    · next ready =>
      split
      · next ends =>
        have completes : completed s f = some (continueStream strm f) := by
          simp only [completed, ends, type, FrameType.ofCode_code, found, ready, ↓reduceIte]
        have state : (continueStream strm f).state = strm.state := rfl
        dsimp only
        rw [takes_found (Session.setStream_same ..), processEndHeader_stream, received_open,
          takes_found found, closes_iff completes, state, not_not]
      · next more =>
        have incomplete : completed s f = none := if_neg more
        have open_ : ¬ Closes s f := by simp [Closes, incomplete]
        rw [takes_found (Session.setStream_same ..), takes_found found]
        simp [open_, continueStream]

theorem takes_data : Takes f.sid (handleDataFrame s f).2 ↔ Takes f.sid s := by
  unfold handleDataFrame
  cases found : s.streams f.sid with
  | none => rfl
  | some strm =>
    dsimp only
    split
    · rfl
    · rw [takes_found (Session.setStream_same ..), takes_found found]

theorem takes_priority : Takes f.sid (handlePriorityFrame s f).2 ↔ Takes f.sid s := by
  unfold handlePriorityFrame
  cases found : s.streams f.sid with
  | none => rfl
  | some strm =>
    dsimp only
    split
    · rfl
    · rw [takes_found (Session.setStream_same ..), takes_found found]

theorem takes_reset : ¬ Takes f.sid (handleResetFrame s f).2 := by
  unfold handleResetFrame
  cases found : s.streams f.sid with
  | none => exact takes_unknown found
  | some strm =>
    dsimp only
    split
    · next shut =>
      rw [takes_found found, shut]
      decide
    · exact takes_unknown (Session.eraseStream_same ..)

theorem type_ne {t : FrameType} (other : FrameType.ofCode f.type ≠ some t) : f.type ≠ t.code := by
  rintro same
  rw [same, FrameType.ofCode_code] at other
  exact other rfl

/-- A frame of a type that is no part of a header block and ends nothing. -/
theorem aside {sid : Nat} (plain : ∀ t ∈ [FrameType.headers, .continuation, .rstStream, .goAway],
    FrameType.ofCode f.type ≠ some t) :
    Begins sid s f ∨ Takes sid s ∧ ¬ Stops sid s f ↔ Takes sid s := by
  have headers := type_ne (plain .headers (by simp))
  have goAway := type_ne (plain .goAway (by simp))
  have begins : ¬ Begins sid s f := fun begins => headers begins.2.1
  have stops : ¬ Stops sid s f := by
    rintro (away | ⟨_, (⟨type, _⟩ | type | type) | closes⟩)
    · exact goAway away
    · exact headers type
    · exact type_ne (plain .rstStream (by simp)) type
    · exact goAway type
    · exact not_closes headers (type_ne (plain .continuation (by simp))) closes
  simp [begins, stops]

/-- The frame's own stream. -/
theorem takes_own (live : (dispatch env s f).1 ≠ .aborted) :
    Takes f.sid (dispatch env s f).2 ↔ Begins f.sid s f ∨ Takes f.sid s ∧ ¬ Stops f.sid s f := by
  unfold dispatch at live ⊢
  cases type : FrameType.ofCode f.type with
  | none => rw [aside (by simp [type])]
  | some t =>
    have code := FrameType.code_of_ofCode type
    have differs {t' : FrameType} (other : t ≠ t') : f.type ≠ t'.code :=
      type_ne (by simpa [type] using other)
    rw [type] at live
    cases t with
    | data =>
      rw [aside (by simp [type])]
      exact takes_data
    | headers =>
      dsimp only at live ⊢
      rw [takes_headers code live]
      constructor
      · rintro ⟨more, goes⟩
        exact .inl ⟨rfl, code, more, goes⟩
      · rintro (⟨_, _, more, goes⟩ | ⟨_, lasts⟩)
        · exact ⟨more, goes⟩
        · refine ⟨?_, fun closes => lasts (.inr ⟨rfl, .inr closes⟩)⟩
          by_contra last
          exact lasts (.inr ⟨rfl, .inl (.inl ⟨code, Bool.eq_true_of_not_eq_false last⟩)⟩)
    | priority =>
      rw [aside (by simp [type])]
      exact takes_priority
    | rstStream =>
      refine iff_of_false takes_reset ?_
      rintro (begins | ⟨_, lasts⟩)
      · exact differs (by decide) begins.2.1
      · exact lasts (.inr ⟨rfl, .inl (.inr (.inl code))⟩)
    | settings =>
      rw [aside (by simp [type])]
      apply takes_congr
      dsimp only
      unfold handleSettingsFrame
      split_ifs
      · rfl
      · rw [ackSettings_streams]
      · rfl
    | ping =>
      rw [aside (by simp [type])]
      apply takes_congr
      dsimp only
      unfold handlePingFrame
      split_ifs
      · rfl
      · rw [sendFrame_streams]
    | pushPromise | windowUpdate =>
      rw [aside (by simp [type])]
    | goAway =>
      refine iff_of_false (takes_unknown rfl) ?_
      rintro (begins | ⟨_, lasts⟩)
      · exact differs (by decide) begins.2.1
      · exact lasts (.inl code)
    | continuation =>
      dsimp only
      rw [takes_continuation code]
      constructor
      · rintro ⟨takes, goes⟩
        refine .inr ⟨takes, ?_⟩
        rintro (away | ⟨_, (⟨other, _⟩ | other | other) | closes⟩)
        · exact differs (by decide) away
        · exact differs (by decide) other
        · exact differs (by decide) other
        · exact differs (by decide) other
        · exact goes closes
      · rintro (begins | ⟨takes, lasts⟩)
        · exact absurd begins.2.1 (differs (by decide))
        · exact ⟨takes, fun closes => lasts (.inr ⟨rfl, .inr closes⟩)⟩

/-- **One frame.** What it begins and what it ends, short of an end of the process. -/
theorem takes_handleFrame (sid : Nat) (live : (handleFrame env s f).1 ≠ .aborted) :
    Takes sid (handleFrame env s f).2 ↔ Begins sid s f ∨ Takes sid s ∧ ¬ Stops sid s f := by
  by_cases own : f.sid = sid
  · subst own
    exact takes_own (s := s.log (.handleFrame f)) live
  · have begins : ¬ Begins sid s f := fun begins => own begins.1
    by_cases away : f.type = FrameType.goAway.code
    · have gone : (handleFrame env s f).2.streams sid = none := by
        rw [handleFrame, dispatch, away, FrameType.ofCode_code]
        rfl
      have stops : Stops sid s f := .inl away
      simp [takes_unknown gone, begins, stops]
    · have stops : ¬ Stops sid s f := by
        rintro (goes | ⟨mine, _⟩)
        · exact away goes
        · exact own mine
      have same : (handleFrame env s f).2.streams sid = s.streams sid :=
        dispatch_other env (s.log (.handleFrame f)) f (Ne.symm own) away
      rw [takes_congr same]
      simp [begins, stops]

/-! ## Runs -/

/-- A DATA frame is accepted where its stream is open. -/
theorem handleFrame_data (type : f.type = FrameType.data.code) :
    (handleFrame env s f).1 = .returned true ↔ Takes f.sid s := by
  simp only [handleFrame, dispatch, type, FrameType.ofCode_code, handleDataFrame]
  have same : (s.log (.handleFrame f)).streams f.sid = s.streams f.sid := rfl
  rw [same]
  cases found : s.streams f.sid with
  | none => simp [takes_unknown found]
  | some strm =>
    rw [takes_found found]
    by_cases takes : strm.state = .open
    · simp [takes]
    · simp [takes]

/-- The sessions of a run are those of its frames, one after the other. -/
theorem run_foldl {s' : Session} {trace : List (Frame × Bool)} (run : Run env s trace s') :
    Along (fun s f => (handleFrame env s f).2) (fun s f => (handleFrame env s f).1 ≠ .aborted) s
        (trace.map Prod.fst) ∧
      (trace.map Prod.fst).foldl (fun s f => (handleFrame env s f).2) s = s' := by
  induction run with
  | nil s => exact ⟨trivial, rfl⟩
  | step handled _ ih =>
    rw [List.map_cons, Along, List.foldl_cons, handled]
    exact ⟨⟨by simp, ih.1⟩, ih.2⟩

/-- **DATA.** After any run of a connection, a DATA frame is accepted exactly where its stream was
begun by a HEADERS frame that neither ended it nor completed its header block, short of an
exception of the decoder, and where since then no block of the stream has been completed, and
neither RST_STREAM, nor GOAWAY, nor the end of the stream in a HEADERS frame has come. -/
theorem data_accepted_iff {s' : Session} {trace : List (Frame × Bool)} (run : Run env {} trace s')
    (type : f.type = FrameType.data.code) :
    (handleFrame env s' f).1 = .returned true ↔
      Begun (fun s f => (handleFrame env s f).2) (Begins f.sid) (Stops f.sid) {}
        (trace.map Prod.fst) := by
  obtain ⟨along, rfl⟩ := run_foldl run
  rw [handleFrame_data type, holds_iff (fun s g live => takes_handleFrame f.sid live) along]
  have new : ¬ Takes f.sid ({} : Session) := takes_unknown rfl
  exact or_iff_left fun both => new both.1

end

/-- HEADERS without the rest of the block, and data before it. -/
def early : Frame := { type := FrameType.headers.code, sid := 1, payload := [0x83] }

theorem data_accepted_iff_early : ∃ s', Run siteEnv {} [(early, true)] s' ∧
    (handleFrame siteEnv s' postBody).1 = .returned true := by
  have run : Run siteEnv {} [(early, true)] _ := .step (handleFrame_eta rfl) (.nil _)
  have open_ : ¬ Closes {} early := by
    rintro ⟨strm, completes, _⟩
    cases completes
  exact ⟨_, run, (data_accepted_iff (f := postBody) run rfl).mpr
    (.inl ⟨⟨rfl, rfl, by decide, open_⟩, trivial⟩)⟩

end Http2Server.FrameHandler
