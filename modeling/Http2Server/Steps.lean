import Http2Server.FrameHandler

/-!
# What a frame can do

`dispatch_effect` says it once, for all handlers: a frame is refused or has
nothing done for it, changes or erases its own stream, completes a header block,
is acknowledged, or closes the connection. What holds of every frame is proved
from there.
-/

namespace Http2Server.FrameHandler

/-- The stream whose block a frame completes, the whole block in its fragments. -/
def completed (s : Session) (f : Frame) : Option Stream :=
  if f.hasFlag Flag.endHeaders then
    match FrameType.ofCode f.type, s.streams f.sid with
    | some .headers, _ => some (openStream s f)
    | some .continuation, some strm =>
      if strm.state ≠ .open ∧ strm.state ≠ .halfClosedRemote then none
      else some (continueStream strm f)
    | _, _ => none
  else none

theorem completed_cases {s : Session} {f : Frame} {strm : Stream}
    (h : completed s f = some strm) :
    f.hasFlag Flag.endHeaders = true ∧
      (f.type = FrameType.headers.code ∧ strm = openStream s f ∨
        f.type = FrameType.continuation.code ∧ ∃ old, s.streams f.sid = some old ∧
          ¬ (old.state ≠ .open ∧ old.state ≠ .halfClosedRemote) ∧
          strm = continueStream old f) := by
  unfold completed at h
  split at h
  · next ends =>
    refine ⟨ends, ?_⟩
    split at h
    · next _ _ type => exact .inl ⟨FrameType.code_of_ofCode type, (Option.some.inj h).symm⟩
    · next _ _ old type found =>
      split at h
      · cases h
      · next ready =>
        exact .inr ⟨FrameType.code_of_ofCode type, old, found, ready, (Option.some.inj h).symm⟩
    · cases h
  · cases h

/-- How a frame leaves its own stream: as it was, or known again under its id. -/
inductive Kept (s : Session) (sid : Nat) : Session → Prop
  | stored (strm : Stream) : Kept s sid (s.setStream sid strm)
  | erased : Kept s sid (s.eraseStream sid)

/-- The ways a frame is dealt with. -/
inductive Effect (env : Env) (s : Session) (f : Frame) : Exit × Session → Prop
  | nothing (ok : Bool) : Effect env s f (.returned ok, s)
  | stream {s' : Session} (kept : Kept s f.sid s') : Effect env s f (.returned true, s')
  | block {strm : Stream} (completes : completed s f = some strm) {s' : Session} (e : Exit)
      (kept : s' = (processEndHeader env s strm).2.2 ∨
        Kept (processEndHeader env s strm).2.2 f.sid s') : Effect env s f (e, s')
  | settings (zero : f.sid = 0) (type : f.type = FrameType.settings.code)
      (asked : f.hasFlag Flag.ack = false) : Effect env s f (ackSettings env s f)
  | ping (zero : f.sid = 0) (type : f.type = FrameType.ping.code) :
      Effect env s f (sendFrame env s
        { type := FrameType.ping.code, flags := Flag.ack, payload := f.payload } 0)
  | goAway (type : f.type = FrameType.goAway.code) : Effect env s f (handleGoAwayFrame s)

section
variable (env : Env) (s : Session) {f : Frame}

theorem handleHeadersFrame_effect (type : f.type = FrameType.headers.code) :
    Effect env s f (handleHeadersFrame env s f) := by
  unfold handleHeadersFrame
  by_cases ends : f.hasFlag Flag.endHeaders = true
  · have completes : completed s f = some (openStream s f) := by
      simp only [completed, ends, type, FrameType.ofCode_code, ↓reduceIte]
    simp only [ends, ↓reduceIte]
    split
    · exact .block completes _ (.inl rfl)
    · split
      · exact .block completes _ (.inr .erased)
      · exact .block completes _ (.inr (.stored _))
  · simp only [ends, Bool.false_eq_true, ↓reduceIte, reduceCtorEq]
    split
    · exact .stream .erased
    · exact .stream (.stored _)

theorem handleContinuationFrame_effect (type : f.type = FrameType.continuation.code) :
    Effect env s f (handleContinuationFrame env s f) := by
  unfold handleContinuationFrame
  split
  · exact .nothing false
  · next strm found =>
    split
    · exact .nothing false
    · next ready =>
      split
      · next ends =>
        have completes : completed s f = some (continueStream strm f) := by
          simp only [completed, ends, type, FrameType.ofCode_code, found, ready, ↓reduceIte]
        exact .block completes _ (.inr (.stored _))
      · exact .stream (.stored _)

end

/-- **Effects.** One of these is what any frame does. -/
theorem dispatch_effect (env : Env) (s : Session) (f : Frame) :
    Effect env s f (dispatch env s f) := by
  unfold dispatch
  split
  · unfold handleDataFrame
    split
    · exact .nothing false
    · split
      · exact .nothing false
      · exact .stream (.stored _)
  · next type => exact handleHeadersFrame_effect env s (FrameType.code_of_ofCode type)
  · unfold handlePriorityFrame
    split
    · exact .nothing false
    · split
      · exact .nothing false
      · exact .stream (.stored _)
  · unfold handleResetFrame
    split
    · exact .nothing false
    · split
      · exact .nothing false
      · exact .stream .erased
  · next type =>
    unfold handleSettingsFrame
    split
    · exact .nothing false
    · next zero =>
      split
      · next asked => exact .settings (not_not.mp zero) (FrameType.code_of_ofCode type) asked
      · exact .nothing true
  · exact .nothing true
  · next type =>
    unfold handlePingFrame
    split
    · exact .nothing false
    · next zero => exact .ping (not_not.mp zero) (FrameType.code_of_ofCode type)
  · next type => exact .goAway (FrameType.code_of_ofCode type)
  · exact .nothing true
  · next type => exact handleContinuationFrame_effect env s (FrameType.code_of_ofCode type)
  · exact .nothing false

/-- What holds of a session after a frame, if it holds after what the frame can
do, and does not depend on the streams. -/
theorem Effect.invariant {env : Env} {s : Session} {f : Frame} {r : Exit × Session}
    (effect : Effect env s f r) {P : Session → Prop} (start : P s)
    (streams : ∀ s streams, P s → P { s with streams })
    (block : ∀ strm, completed s f = some strm → P (processEndHeader env s strm).2.2)
    (settings : f.sid = 0 → f.type = FrameType.settings.code → f.hasFlag Flag.ack = false →
      P (ackSettings env s f).2)
    (ping : f.sid = 0 → f.type = FrameType.ping.code → P (sendFrame env s
      { type := FrameType.ping.code, flags := Flag.ack, payload := f.payload } 0).2)
    (goAway : P (handleGoAwayFrame s).2) : P r.2 := by
  have stays {s s' : Session} (h : P s) (kept : Kept s f.sid s') : P s' := by
    cases kept <;> exact streams s _ h
  cases effect with
  | nothing ok => exact start
  | stream kept => exact stays start kept
  | @block strm completes s' e kept =>
    obtain rfl | kept := kept
    · exact block strm completes
    · exact stays (block strm completes) kept
  | settings zero type asked => exact settings zero type asked
  | ping zero type => exact ping zero type
  | goAway => exact goAway

/-- Settings are taken over and acknowledged if they decode, and dropped if not. -/
theorem ackSettings_cases (env : Env) (s : Session) (f : Frame) :
    (∃ settings, ({} : Settings).decode f.payload = (.noError, settings) ∧
        ackSettings env s f = (.returned true, (sendFrame env { s with settings }
          { type := FrameType.settings.code, flags := Flag.ack } 0).2)) ∨
      (({} : Settings).decode f.payload).1 ≠ .noError ∧
        ackSettings env s f = (.returned false, s) := by
  have small (s : Session) : ∃ ok s', sendFrame env s
      { type := FrameType.settings.code, flags := Flag.ack } 0 = (.returned ok, s') := by
    rw [sendFrame, Frame.encode_small (by decide)]
    exact ⟨_, _, rfl⟩
  unfold ackSettings
  split
  · next settings decodes =>
    obtain ⟨ok, s', sent⟩ := small { s with settings }
    rw [sent]
    exact .inl ⟨settings, decodes, by rw [sent]⟩
  · next other =>
    refine .inr ⟨?_, rfl⟩
    intro ok
    exact other _ (Prod.ext ok rfl)

end Http2Server.FrameHandler
