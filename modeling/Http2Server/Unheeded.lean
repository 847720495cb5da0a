import Http2Server.Conversation

/-!
# Frames that make no difference

Request bodies, priorities, the peer's settings and its flow control are taken in, and
never looked at again.

- `handleFrame_alike`: sessions that differ in these alone do the same for a frame.
- `unheeded`: the frames that bring them can be left out, put in, or be others.
-/

namespace Http2Server

open FrameHandler

/-! ## What is looked at -/

/-- A stream without its body, its priority and the two flags. -/
def Stream.core (strm : Stream) : Stream :=
  { strm with
    weight := 0, data := [], exclusive := false, dependency := -1
    endHeader := false, endStream := false }

theorem Stream.core_state (strm : Stream) : strm.core.state = strm.state := rfl

def Sent.core (e : Sent) : Sent := { e with weight := 0 }

namespace Session

/-- A session without the peer's settings, the weights of its writes and the log of calls,
and with the cores of its streams. -/
def core (s : Session) : Session :=
  { s with
    streams := fun sid => (s.streams sid).map Stream.core
    settings := {}
    sent := s.sent.map Sent.core
    calls := [] }

variable (s : Session)

theorem core_core : s.core.core = s.core := by
  simp only [core, Option.map_map, List.map_map]
  rfl

theorem core_streams (sid : Nat) : s.core.streams sid = (s.streams sid).map Stream.core := rfl

theorem length_core_sent : s.core.sent.length = s.sent.length := List.length_map ..

theorem core_log (c : Call) : (s.log c).core = s.core := rfl

/-- The bytes that went out are part of the core. -/
theorem core_written : s.core.written = s.written := by
  rw [written, core, List.flatMap_map]
  rfl

theorem core_setStream (sid : Nat) (strm : Stream) :
    (s.setStream sid strm).core = s.core.setStream sid strm.core := by
  simp only [core, setStream, Session.mk.injEq, and_self, and_true]
  funext k
  split <;> rfl

theorem core_eraseStream (sid : Nat) : (s.eraseStream sid).core = s.core.eraseStream sid := by
  simp only [core, eraseStream, Session.mk.injEq, and_self, and_true]
  funext k
  split <;> rfl

theorem attempts_core (env : Env) (weight : Int) (n : Nat) (buffers : List Bytes) :
    (attempts env weight n buffers).map Sent.core = attempts env 0 n buffers := by
  induction buffers generalizing n with
  | nil => rfl
  | cons buffer rest ih =>
    rcases Int.lt_or_le (env.sslWrite n buffer) 0 with failed | passed
    · rw [attempts_failed failed, attempts_failed failed]
      rfl
    · rw [attempts_passed passed, attempts_passed passed, List.map_cons, ih]
      rfl

theorem core_afterSend (env : Env) (weight : Int) (buffers : List Bytes) :
    (s.afterSend env weight buffers).core = s.core.afterSend env 0 buffers := by
  have sent : (s.afterSend env weight buffers).core.sent =
      (s.core.afterSend env 0 buffers).sent := by
    simp only [core, afterSend, List.map_append, List.length_map, attempts_core]
  simp only [core, afterSend] at sent ⊢
  rw [sent]

end Session

/-! ## Handlers look at the core alone -/

namespace FrameHandler

/-- A result, as far as it is looked at. -/
def seen (r : Exit × Session) : Exit × Session := (r.1, r.2.core)

section
open Session
variable (env : Env) (s : Session) (strm : Stream) (f : Frame)

theorem seen_sendFrame (weight : Int) :
    seen (sendFrame env s.core f weight) = seen (sendFrame env s f weight) := by
  unfold sendFrame
  cases f.encode with
  | none => simp only [seen, core_core]
  | some bytes =>
    simp only [seen, sendData, length_core_sent, Prod.mk.injEq, true_and]
    have again := s.core_core
    simp only [core, Session.mk.injEq, List.map_append] at again ⊢
    simp only [again, and_self]

variable {strm} in
theorem seen_serve {path : Bytes} (h : strm.headers.first (ascii ":path") = some path) :
    seen (serve env s.core strm.core) = seen (serve env s strm) := by
  rw [serve_eq env s strm h, serve_eq env s.core strm.core h]
  dsimp only
  have packed (content : ResponseData) : okBuffers strm.core path content =
      okBuffers strm path content := rfl
  cases env.binder.getContent env.files path with
  | none => simp only [seen, core_log, core_core]
  | some content =>
    dsimp only
    rw [packed]
    split
    · simp only [seen, core_afterSend, core_log, core_core]
      rfl
    · cases okBuffers strm path content with
      | none => simp only [seen, core_log, core_core]
      | some buffers =>
        have same : (s.core.log (.respondGet strm.core.id)).sent.length =
            (s.log (.respondGet strm.id)).sent.length := s.length_core_sent
        simp only [same]
        split
        · simp only [seen, core_afterSend, core_log, core_core]
        · simp only [seen, core_afterSend, core_log, core_core]
          rfl

theorem seen_processEndHeader :
    let r := processEndHeader env s.core strm.core
    let r' := processEndHeader env s strm
    seen (r.1, r.2.2) = seen (r'.1, r'.2.2) ∧ r.2.1.core = r'.2.1.core := by
  have read : decoded s.core strm.core = decoded s strm := rfl
  have asked : requestPath s.core strm.core = requestPath s strm := rfl
  have left : (received s.core strm.core).core = (received s strm).core := by
    unfold received
    rw [read]
    dsimp only
    split <;> rfl
  have same : Session.core { s.core with hpackDecoder := (decoded s strm).table } =
      Session.core { s with hpackDecoder := (decoded s strm).table } :=
    core_core { s with hpackDecoder := (decoded s strm).table }
  dsimp only
  rw [processEndHeader_eq, processEndHeader_eq, asked, read]
  cases requested : requestPath s strm with
  | none => exact ⟨Prod.ext rfl same, left⟩
  | some path =>
    have first := first_received requested
    have first' := first_received (asked.trans requested)
    simp only [reduceCtorEq, ↓reduceIte]
    refine ⟨?_, left⟩
    exact (seen_serve env _ first').symm.trans
      ((congrArg₂ (fun s strm => seen (serve env s strm)) same left).trans
        (seen_serve env _ first))

/-! Streams that are equal at their core are stored and erased as such. -/

variable {s strm} in
theorem seen_setStream {s' : Session} {strm' : Stream} (alike : s.core = s'.core)
    (same : strm.core = strm'.core) (e : Exit) (sid : Nat) :
    seen (e, s.setStream sid strm) = seen (e, s'.setStream sid strm') := by
  rw [seen, seen, core_setStream, core_setStream, alike, same]

variable {s} in
theorem seen_eraseStream {s' : Session} (alike : s.core = s'.core) (e : Exit) (sid : Nat) :
    seen (e, s.eraseStream sid) = seen (e, s'.eraseStream sid) := by
  rw [seen, seen, core_eraseStream, core_eraseStream, alike]

theorem seen_core (e : Exit) : seen (e, s.core) = seen (e, s) := by
  rw [seen, seen, core_core]

theorem seen_handleDataFrame : seen (handleDataFrame s.core f) = seen (handleDataFrame s f) := by
  unfold handleDataFrame
  rw [core_streams]
  cases s.streams f.sid with
  | none => exact seen_core s _
  | some strm =>
    rw [Option.map_some]
    dsimp only
    rw [strm.core_state]
    split
    · exact seen_core s _
    · apply seen_setStream s.core_core
      rfl

theorem seen_handlePriorityFrame :
    seen (handlePriorityFrame s.core f) = seen (handlePriorityFrame s f) := by
  unfold handlePriorityFrame
  rw [core_streams]
  cases s.streams f.sid with
  | none => exact seen_core s _
  | some strm =>
    rw [Option.map_some]
    dsimp only
    split
    · exact seen_core s _
    · apply seen_setStream s.core_core
      rfl

theorem seen_handleResetFrame : seen (handleResetFrame s.core f) = seen (handleResetFrame s f) := by
  unfold handleResetFrame
  rw [core_streams]
  cases s.streams f.sid with
  | none => exact seen_core s _
  | some strm =>
    rw [Option.map_some]
    dsimp only
    rw [strm.core_state]
    split
    · exact seen_core s _
    · exact seen_eraseStream s.core_core _ _

theorem core_openStream : (openStream s.core f).core = (openStream s f).core := by
  unfold openStream
  rw [core_streams]
  cases s.streams f.sid <;> rfl

/-- A block is completed alike on streams that are equal at their core. -/
theorem processEndHeader_alike {s' : Session} {strm' : Stream} (alike : s.core = s'.core)
    (same : strm.core = strm'.core) :
    let r := processEndHeader env s strm
    let r' := processEndHeader env s' strm'
    r.1 = r'.1 ∧ r.2.1.core = r'.2.1.core ∧ r.2.2.core = r'.2.2.core := by
  have first := seen_processEndHeader env s strm
  have second := seen_processEndHeader env s' strm'
  rw [← alike, ← same] at second
  dsimp only at first second ⊢
  obtain ⟨exit, core⟩ := Prod.ext_iff.mp (first.1.symm.trans second.1)
  exact ⟨exit, first.2.symm.trans second.2, core⟩

theorem seen_handleHeadersFrame :
    seen (handleHeadersFrame env s.core f) = seen (handleHeadersFrame env s f) := by
  unfold handleHeadersFrame
  by_cases ends : f.hasFlag Flag.endHeaders = true
  · obtain ⟨exit, stream, core⟩ := processEndHeader_alike env s.core (openStream s.core f)
      s.core_core (core_openStream s f)
    simp only [ends, ↓reduceIte, exit]
    split
    · exact Prod.ext rfl core
    · split
      · exact seen_eraseStream core _ _
      · exact seen_setStream core stream _ _
  · simp only [ends, Bool.false_eq_true, reduceCtorEq, ↓reduceIte]
    split
    · exact seen_eraseStream s.core_core _ _
    · exact seen_setStream s.core_core (core_openStream s f) _ _

theorem seen_handleContinuationFrame :
    seen (handleContinuationFrame env s.core f) = seen (handleContinuationFrame env s f) := by
  unfold handleContinuationFrame
  rw [core_streams]
  cases s.streams f.sid with
  | none => exact seen_core s _
  | some strm =>
    have grown : (continueStream strm.core f).core = (continueStream strm f).core := rfl
    rw [Option.map_some]
    dsimp only
    rw [strm.core_state]
    split
    · exact seen_core s _
    · split
      · obtain ⟨exit, stream, core⟩ := processEndHeader_alike env s.core
          (continueStream strm.core f) s.core_core grown
        rw [exit]
        exact seen_setStream core stream _ _
      · exact seen_setStream s.core_core grown _ _

theorem seen_ackSettings : seen (ackSettings env s.core f) = seen (ackSettings env s f) := by
  obtain ⟨settings, decodes, taken⟩ | ⟨refused, dropped⟩ := ackSettings_cases env s f
  · obtain ⟨settings', _, taken'⟩ | ⟨refused', _⟩ := ackSettings_cases env s.core f
    · have core : Session.core { s.core with settings := settings' } =
          Session.core { s with settings } := s.core_core
      have sent := (seen_sendFrame env { s.core with settings := settings' } settingsAck 0).symm
      rw [core, seen_sendFrame] at sent
      rw [taken, taken']
      exact Prod.ext rfl (Prod.ext_iff.mp sent).2
    · rw [decodes] at refused'
      exact absurd rfl refused'
  · obtain ⟨settings', decodes', taken'⟩ | ⟨_, dropped'⟩ := ackSettings_cases env s.core f
    · rw [decodes'] at refused
      exact absurd rfl refused
    · rw [dropped, dropped']
      exact seen_core s _

theorem seen_dispatch : seen (dispatch env s.core f) = seen (dispatch env s f) := by
  unfold dispatch
  split
  · exact seen_handleDataFrame s f
  · exact seen_handleHeadersFrame env s f
  · exact seen_handlePriorityFrame s f
  · exact seen_handleResetFrame s f
  · unfold handleSettingsFrame
    split_ifs
    · exact seen_core s _
    · exact seen_ackSettings env s f
    · exact seen_core s _
  · exact seen_core s _
  · unfold handlePingFrame
    split_ifs
    · exact seen_core s _
    · exact seen_sendFrame env s _ 0
  · have same (s : Session) : (handleGoAwayFrame s).2.core = (handleGoAwayFrame s.core).2 := rfl
    rw [seen, seen, same, same s, core_core]
    rfl
  · exact seen_core s _
  · exact seen_handleContinuationFrame env s f
  · exact seen_core s _

variable {s} in
/-- Sessions that are equal at their core do the same for a frame, and stay equal there. -/
theorem handleFrame_alike {s' : Session} (alike : s.core = s'.core) :
    seen (handleFrame env s f) = seen (handleFrame env s' f) := by
  rw [handleFrame, handleFrame, ← seen_dispatch, ← seen_dispatch env (s'.log _), core_log, core_log,
    alike]

end

/-! ## Frames without a trace -/

section
open Session
variable (env : Env) {s : Session} {f : Frame}

/-- A stream is put back with the core it had. -/
theorem core_put {sid : Nat} {strm strm' : Stream} (found : s.streams sid = some strm)
    (same : strm'.core = strm.core) : (s.setStream sid strm').core = s.core := by
  rw [core_setStream]
  have streams : (s.core.setStream sid strm'.core).streams = s.core.streams := by
    funext k
    by_cases own : k = sid
    · rw [own, setStream_same, core_streams, found, same, Option.map_some]
    · rw [setStream_other _ own]
  calc s.core.setStream sid strm'.core
      = { s.core with streams := (s.core.setStream sid strm'.core).streams } := rfl
    _ = s.core := by rw [streams]

variable (s) in
/-- A frame that is not answered leaves the core as it was. -/
theorem handleFrame_unanswerable (plain : Unanswerable f) :
    ∃ ok, seen (handleFrame env s f) = (.returned ok, s.core) := by
  have logged (s' : Session) (same : s'.core = (s.log (.handleFrame f)).core) (ok : Bool) :
      ∃ ok', seen (.returned ok, s') = (.returned ok', s.core) :=
    ⟨ok, Prod.ext rfl (same.trans (core_log s _))⟩
  rw [handleFrame]
  unfold dispatch
  split
  · unfold handleDataFrame
    split
    · exact logged _ rfl _
    · next strm found =>
      split
      · exact logged _ rfl _
      · refine logged _ (core_put found ?_) _
        rfl
  · next type => exact absurd (FrameType.code_of_ofCode type) plain.headers
  · unfold handlePriorityFrame
    split
    · exact logged _ rfl _
    · next strm found =>
      split
      · exact logged _ rfl _
      · refine logged _ (core_put found ?_) _
        rfl
  · next type => exact absurd (FrameType.code_of_ofCode type) plain.reset
  · next type =>
    unfold handleSettingsFrame
    split
    · exact logged _ rfl _
    · next zero =>
      split
      · next asked =>
        rw [ackSettings_invalid env _ (not_not.mp zero) (FrameType.code_of_ofCode type) asked
          plain.settings]
        exact logged _ rfl _
      · exact logged _ rfl _
  · exact logged _ rfl _
  · next type =>
    unfold handlePingFrame
    split
    · exact logged _ rfl _
    · next zero => exact absurd ⟨not_not.mp zero, FrameType.code_of_ofCode type⟩ plain.ping
  · next type => exact absurd (FrameType.code_of_ofCode type) plain.goAway
  · exact logged _ rfl _
  · next type => exact absurd (FrameType.code_of_ofCode type) plain.continuation
  · exact logged _ rfl _

/-- Which valid settings are sent makes no difference. -/
theorem handleFrame_whichever {g : Frame} (first : ValidSettings f) (second : ValidSettings g) :
    seen (handleFrame env s f) = seen (handleFrame env s g) := by
  have handled {f : Frame} (valid : ValidSettings f) : seen (handleFrame env s f) =
      (.returned true, (sendFrame env s.core settingsAck 0).2.core) := by
    have taken : handleFrame env s f = (.returned true, (sendFrame env
        { s.log (.handleFrame f) with settings := settingsOf f } settingsAck 0).2) :=
      dispatch_valid env _ valid
    have sent := seen_sendFrame env
      { s.log (.handleFrame f) with settings := settingsOf f } settingsAck 0
    rw [taken]
    exact Prod.ext rfl (Prod.ext_iff.mp sent).2.symm
  rw [handled first, handled second]

end

/-! ## Runs -/

/-- Frame lists that differ in frames without an answer, and in what valid settings they
bring. -/
inductive Indifferent : List Frame → List Frame → Prop
  | nil : Indifferent [] []
  | left {f : Frame} {fs gs : List Frame} (plain : Unanswerable f) (rest : Indifferent fs gs) :
      Indifferent (f :: fs) gs
  | right {g : Frame} {fs gs : List Frame} (plain : Unanswerable g) (rest : Indifferent fs gs) :
      Indifferent fs (g :: gs)
  | settings {f g : Frame} {fs gs : List Frame} (first : ValidSettings f)
      (second : ValidSettings g) (rest : Indifferent fs gs) : Indifferent (f :: fs) (g :: gs)
  | same (f : Frame) {fs gs : List Frame} (rest : Indifferent fs gs) :
      Indifferent (f :: fs) (f :: gs)

section
variable {env : Env} {s s' : Session} {f : Frame} {fs gs : List Frame}

variable (env s) in
/-- One frame less, where it has left nothing behind. -/
theorem handleFrames_skip (plain : Unanswerable f) :
    ∃ s', s'.core = s.core ∧ handleFrames env (f :: fs) s = handleFrames env fs s' := by
  obtain ⟨ok, same⟩ := handleFrame_unanswerable env s plain
  rcases handled : handleFrame env s f with ⟨e, s'⟩
  rw [handled] at same
  obtain ⟨exit, core⟩ := Prod.ext_iff.mp same
  obtain rfl : e = .returned ok := exit
  exact ⟨s', core, by rw [handleFrames, handled]⟩

/-- The first frame of either list, where both leave the same. -/
theorem handleFrames_both {g : Frame}
    (first : seen (handleFrame env s f) = seen (handleFrame env s' g))
    (rest : ∀ {s s' : Session}, s.core = s'.core →
      seen (handleFrames env fs s) = seen (handleFrames env gs s')) :
    seen (handleFrames env (f :: fs) s) = seen (handleFrames env (g :: gs) s') := by
  rcases handled : handleFrame env s f with ⟨e, t⟩
  rcases handled' : handleFrame env s' g with ⟨e', t'⟩
  rw [handled, handled'] at first
  obtain ⟨exit, core⟩ := Prod.ext_iff.mp first
  obtain rfl : e = e' := exit
  rw [handleFrames, handleFrames, handled, handled']
  cases e with
  | returned ok => exact rest core
  | threw => exact Prod.ext rfl core
  | aborted => exact Prod.ext rfl core

variable (env) in
theorem handleFrames_indifferent (indifferent : Indifferent fs gs) (alike : s.core = s'.core) :
    seen (handleFrames env fs s) = seen (handleFrames env gs s') := by
  induction indifferent generalizing s s' with
  | nil => exact Prod.ext rfl alike
  | left plain rest ih =>
    obtain ⟨t, core, same⟩ := handleFrames_skip env s plain
    rw [same]
    exact ih (core.trans alike)
  | right plain rest ih =>
    obtain ⟨t, core, same⟩ := handleFrames_skip env s' plain
    rw [same]
    exact ih (alike.trans core.symm)
  | @settings f g fs gs first second rest ih =>
    refine handleFrames_both ?_ ih
    exact (handleFrame_alike env f alike).trans (handleFrame_whichever env first second)
  | same f rest ih => exact handleFrames_both (handleFrame_alike env f alike) ih

/-- **Unheeded.** Whatever comes in frames that are not answered, and whatever settings the
peer gives, as much is written, byte for byte, every stream is as far, and the connection ends
where it would without. -/
theorem unheeded (indifferent : Indifferent fs gs) (alike : s.core = s'.core) :
    (handleFrames env fs s).1 = (handleFrames env gs s').1 ∧
      (handleFrames env fs s).2.written = (handleFrames env gs s').2.written ∧
      (handleFrames env fs s).2.core = (handleFrames env gs s').2.core := by
  obtain ⟨exit, core⟩ := Prod.ext_iff.mp (handleFrames_indifferent env indifferent alike)
  refine ⟨exit, ?_, core⟩
  have same : (handleFrames env fs s).2.core = (handleFrames env gs s').2.core := core
  rw [← Session.core_written, same, Session.core_written]

end

/-- A body and settings, or other settings and no body. -/
theorem unheeded_post :
    (handleFrames siteEnv [postBody, largeFrames] {}).2.written =
      (handleFrames siteEnv [noPush] {}).2.written := by
  have body : Unanswerable postBody :=
    ⟨by decide, by decide, by decide, by decide, by decide, by decide⟩
  have differ : Indifferent [postBody, largeFrames] [noPush] :=
    .left body (.settings (by decide +kernel) (by decide +kernel) .nil)
  exact (unheeded differ rfl).2.1

end FrameHandler

end Http2Server
