import Http2Server.Uploads

/-!
# What a frame does to its own stream

Every other stream a frame leaves alone, unless it is GOAWAY. `Turns` has the ways it can
leave its own; what holds of streams over a whole connection is proved from there.

- `dispatch_turns`: one of these is what any frame does.
- `Lasting.turns`, `Lasting.handleFrame`: what all of them keep, a frame keeps of every stream.
-/

namespace Http2Server.FrameHandler

/-- A frame that can take its stream out of the map. -/
def Ends (f : Frame) : Prop :=
  f.type = FrameType.headers.code ∧ f.hasFlag Flag.endStream = true ∨
    f.type = FrameType.rstStream.code ∨ f.type = FrameType.goAway.code

/-- The stream of a frame's id, after the frame. -/
inductive Turns (s : Session) (f : Frame) : Option Stream → Prop
  | same : Turns s f (s.streams f.sid)
  | data {strm : Stream} (type : f.type = FrameType.data.code)
      (found : s.streams f.sid = some strm) : Turns s f (some { strm with
        data := strm.data ++ f.payload
        endStream := f.hasFlag Flag.endStream
        endHeader := f.hasFlag Flag.endHeaders })
  | priority {strm : Stream} (type : f.type = FrameType.priority.code)
      (read : f.hasPriority = true) (found : s.streams f.sid = some strm) :
      Turns s f (some { strm with
        weight := toChar f.weight
        dependency := toInt f.streamDependency
        exclusive := f.exclusive })
  | opened (type : f.type = FrameType.headers.code) : Turns s f (some (openStream s f))
  | continued {strm : Stream} (type : f.type = FrameType.continuation.code)
      (found : s.streams f.sid = some strm) : Turns s f (some (continueStream strm f))
  | block {strm : Stream} (completes : completed s f = some strm) :
      Turns s f (some (received s strm))
  | ended (ends : Ends f) : Turns s f none

section
variable (env : Env) (s : Session) {f : Frame}

theorem handleHeadersFrame_turns (type : f.type = FrameType.headers.code) :
    Turns s f ((handleHeadersFrame env s f).2.streams f.sid) := by
  unfold handleHeadersFrame
  by_cases ends : f.hasFlag Flag.endHeaders = true
  · have completes : completed s f = some (openStream s f) := by
      simp only [completed, ends, type, FrameType.ofCode_code, ↓reduceIte]
    have block := processEndHeader_stream env s (openStream s f)
    have streams := processEndHeader_streams env s (openStream s f)
    simp only [ends, ↓reduceIte]
    split
    · rw [streams]
      exact .same
    · dsimp only
      split
      · next last =>
        rw [Session.eraseStream_same]
        exact .ended (.inl ⟨type, last⟩)
      · rw [Session.setStream_same, block]
        exact .block completes
  · simp only [ends, Bool.false_eq_true, ↓reduceIte, reduceCtorEq]
    split
    · next last =>
      rw [Session.eraseStream_same]
      exact .ended (.inl ⟨type, last⟩)
    · rw [Session.setStream_same]
      exact .opened type

theorem handleContinuationFrame_turns (type : f.type = FrameType.continuation.code) :
    Turns s f ((handleContinuationFrame env s f).2.streams f.sid) := by
  unfold handleContinuationFrame
  split
  · exact .same
  · next strm found =>
    split
    · exact .same
    · next ready =>
      split
      · next ends =>
        have completes : completed s f = some (continueStream strm f) := by
          simp only [completed, ends, type, FrameType.ofCode_code, found, ready, ↓reduceIte]
        dsimp only
        rw [Session.setStream_same, processEndHeader_stream]
        exact .block completes
      · rw [Session.setStream_same]
        exact .continued type found

/-- **Turns.** What any frame does to its own stream. -/
theorem dispatch_turns (f : Frame) : Turns s f ((dispatch env s f).2.streams f.sid) := by
  unfold dispatch
  split
  · next type =>
    unfold handleDataFrame
    split
    · exact .same
    · next strm found =>
      split
      · exact .same
      · rw [Session.setStream_same]
        exact .data (FrameType.code_of_ofCode type) found
  · next type => exact handleHeadersFrame_turns env s (FrameType.code_of_ofCode type)
  · next type =>
    unfold handlePriorityFrame
    split
    · exact .same
    · next strm found =>
      split
      · exact .same
      · next read =>
        rw [Session.setStream_same]
        exact .priority (FrameType.code_of_ofCode type) (Bool.eq_true_of_not_eq_false read) found
  · next type =>
    unfold handleResetFrame
    split
    · exact .same
    · split
      · exact .same
      · rw [Session.eraseStream_same]
        exact .ended (.inr (.inl (FrameType.code_of_ofCode type)))
  · unfold handleSettingsFrame
    split_ifs
    · exact .same
    · rw [ackSettings_streams]
      exact .same
    · exact .same
  · exact .same
  · unfold handlePingFrame
    split_ifs
    · exact .same
    · rw [sendFrame_streams]
      exact .same
  · next type => exact .ended (.inr (.inr (FrameType.code_of_ofCode type)))
  · exact .same
  · next type => exact handleContinuationFrame_turns env s (FrameType.code_of_ofCode type)
  · exact .same

end

/-! ## What streams keep -/

/-- Every stream of the map. -/
def Every (P : Stream → Prop) (s : Session) : Prop :=
  ∀ sid strm, s.streams sid = some strm → P strm

/-- A property of streams that no frame of some kind breaks. -/
structure Lasting (frame : Frame → Prop) (P : Stream → Prop) : Prop where
  data : ∀ f strm, frame f → P strm → P { strm with
    data := strm.data ++ f.payload
    endStream := f.hasFlag Flag.endStream
    endHeader := f.hasFlag Flag.endHeaders }
  priority : ∀ f strm, frame f → f.type = FrameType.priority.code → f.hasPriority = true →
    P strm → P { strm with
      weight := toChar f.weight
      dependency := toInt f.streamDependency
      exclusive := f.exclusive }
  opened : ∀ s f, frame f → Every P s → P (openStream s f)
  continued : ∀ f strm, frame f → P strm → P (continueStream strm f)
  received : ∀ s strm, P strm → P (received s strm)

section
variable {env : Env} {s : Session} {f : Frame} {frame : Frame → Prop} {P : Stream → Prop}

/-- The stream whose block is completed has it too. -/
theorem Lasting.completed (lasting : Lasting frame P) (fits : frame f) (every : Every P s)
    {strm : Stream} (completes : completed s f = some strm) : P strm := by
  obtain ⟨_, ⟨_, rfl⟩ | ⟨_, old, found, _, rfl⟩⟩ := completed_cases completes
  · exact lasting.opened s f fits every
  · exact lasting.continued f old fits (every f.sid old found)

theorem Lasting.turns (lasting : Lasting frame P) (fits : frame f) (every : Every P s)
    {left : Option Stream} (turns : Turns s f left) : ∀ strm ∈ left, P strm := by
  intro strm stands
  cases turns with
  | same => exact every f.sid strm stands
  | @data old type found =>
    obtain rfl := Option.some.inj stands
    exact lasting.data f old fits (every f.sid old found)
  | @priority old type read found =>
    obtain rfl := Option.some.inj stands
    exact lasting.priority f old fits type read (every f.sid old found)
  | opened type =>
    obtain rfl := Option.some.inj stands
    exact lasting.opened s f fits every
  | @continued old type found =>
    obtain rfl := Option.some.inj stands
    exact lasting.continued f old fits (every f.sid old found)
  | @block old completes =>
    obtain rfl := Option.some.inj stands
    exact lasting.received s old (lasting.completed fits every completes)
  | ended ends => cases stands

/-- One frame. -/
theorem Lasting.handleFrame (lasting : Lasting frame P) (fits : frame f) (every : Every P s) :
    Every P (handleFrame env s f).2 := by
  intro sid strm stands
  by_cases own : sid = f.sid
  · rw [own] at stands
    have turns := dispatch_turns env (s.log (.handleFrame f)) f
    exact lasting.turns (s := s.log (.handleFrame f)) fits every turns strm stands
  · by_cases away : f.type = FrameType.goAway.code
    · have gone : (FrameHandler.handleFrame env s f).2.streams sid = none := by
        rw [FrameHandler.handleFrame, dispatch, away, FrameType.ofCode_code]
        rfl
      cases gone.symm.trans stands
    · have other : (FrameHandler.handleFrame env s f).2.streams sid = s.streams sid :=
        dispatch_other env (s.log (.handleFrame f)) f own away
      rw [other] at stands
      exact every sid strm stands

end

end Http2Server.FrameHandler
