import Http2Server.Acknowledgements
import Http2Server.Epoller
import Http2Server.Hpack.Conformance
import Http2Server.OkResponse
import Mathlib.Data.Finset.Insert

/-!
# Conversations

What a client asks for on a connection, told without the server's state, and what it is
answered.

- `handleFrame_said`: one frame is answered by what it asks for.
- `conversation_answered`: the frames of a conversation are answered in order.
-/

namespace Http2Server.FrameHandler

open Hpack Hpack.Reference

/-! ## What is asked and answered -/

inductive Message where
  | request (sid : Nat) (path : Bytes)
  | settings
  | ping (payload : Bytes)
  | silence
  deriving DecidableEq, Repr

/-- The compression table, the streams whose header block is not complete yet with what has
come of it, and the stream ids that have been used. -/
structure Talk where
  table : State
  pending : Nat → Option Bytes := fun _ => none
  used : Finset Nat := ∅

/-- A conversation that has not begun. -/
def Talk.new : Talk := { table := ⟨[], 4096⟩ }

/-- The header block is a list of representations with a `:path`. -/
def Asks (table : State) (block path : Bytes) (after : State) : Prop :=
  ∃ (reps : List Rep) (headers : Headers), block = reps.flatMap Rep.serialise ∧
    (∀ r ∈ reps, r.Fits) ∧ table.run reps = some (headers, after) ∧
    headers.first (ascii ":path") = some path

/-- A frame that is neither part of a header block nor ends anything, and has no answer. -/
structure Unanswerable (f : Frame) : Prop where
  headers : f.type ≠ FrameType.headers.code
  continuation : f.type ≠ FrameType.continuation.code
  reset : f.type ≠ FrameType.rstStream.code
  goAway : f.type ≠ FrameType.goAway.code
  settings : ¬ ValidSettings f
  ping : ¬ Ping f

/-- What a frame says in a conversation. A header block begins on a stream that is new, and
one in more than one frame is not the end of its stream. -/
inductive Says (t : Talk) (f : Frame) : Message → Talk → Prop
  | request {path : Bytes} {table : State} (type : f.type = FrameType.headers.code)
      (ends : f.hasFlag Flag.endHeaders = true) (fresh : f.sid ∉ t.used)
      (asks : Asks t.table f.payload path table) :
      Says t f (.request f.sid path) { t with table, used := insert f.sid t.used }
  | opening (type : f.type = FrameType.headers.code)
      (more : f.hasFlag Flag.endHeaders = false) (stays : f.hasFlag Flag.endStream = false)
      (fresh : f.sid ∉ t.used) :
      Says t f .silence { t with
        pending := Function.update t.pending f.sid (some f.payload)
        used := insert f.sid t.used }
  | fragment {part : Bytes} (type : f.type = FrameType.continuation.code)
      (more : f.hasFlag Flag.endHeaders = false) (begun : t.pending f.sid = some part) :
      Says t f .silence { t with
        pending := Function.update t.pending f.sid (some (part ++ f.payload)) }
  | complete {part path : Bytes} {table : State} (type : f.type = FrameType.continuation.code)
      (ends : f.hasFlag Flag.endHeaders = true) (begun : t.pending f.sid = some part)
      (asks : Asks t.table (part ++ f.payload) path table) :
      Says t f (.request f.sid path) { t with
        table, pending := Function.update t.pending f.sid none }
  | reset (type : f.type = FrameType.rstStream.code) :
      Says t f .silence { t with pending := Function.update t.pending f.sid none }
  | settings (valid : ValidSettings f) : Says t f .settings t
  | ping (ping : Ping f) : Says t f (.ping f.payload) t
  | other (unanswerable : Unanswerable f) : Says t f .silence t

/-- A conversation, one frame after the other. -/
inductive Talks : Talk → List Frame → List Message → Talk → Prop
  | nil (t : Talk) : Talks t [] [] t
  | cons {t t' t'' : Talk} {f : Frame} {fs : List Frame} {m : Message} {ms : List Message}
      (said : Says t f m t') (rest : Talks t' fs ms t'') : Talks t (f :: fs) (m :: ms) t''

/-- What is answered, as the bytes of it: to a request the content of its path, or the error
page, or nothing if the file system raises an error. -/
inductive Answered (env : Env) : Message → Bytes → Prop
  | content {sid : Nat} {path bytes : Bytes} {content : ResponseData}
      (found : env.binder.getContent env.files path = some content) (some : content.data ≠ [])
      (arrives : Arrives sid bytes (okHeaders path content) content.data) :
      Answered env (.request sid path) bytes
  | errorPage {sid : Nat} {path bytes : Bytes} {content : ResponseData}
      (found : env.binder.getContent env.files path = some content) (blank : content.data = [])
      (arrives : Arrives sid bytes (errorHeaders 404 (WebBinder.getErrorPage 404))
        (WebBinder.getErrorPage 404).data) : Answered env (.request sid path) bytes
  | error {sid : Nat} {path : Bytes} (error : env.binder.getContent env.files path = none) :
      Answered env (.request sid path) []
  | settings : Answered env .settings settingsAck.bytes
  | ping (payload : Bytes) : Answered env (.ping payload) (pingAck payload).bytes
  | silence : Answered env .silence []

/-- What the path of a request leads to can be sent with it. -/
def Bearable (env : Env) : Message → Prop
  | .request _ path => ∀ content ∈ env.binder.getContent env.files path, content.data ≠ [] →
      path.length < 127 ∧ content.data.length < 2 ^ 64
  | _ => True

/-! ## What is sent -/

section
variable {env : Env} (full : FullWrites env)

include full

theorem sendFrame_written (s : Session) {f : Frame} (small : f.payload.length < 2 ^ 24)
    (weight : Int) : (sendFrame env s f weight).1 = .returned true ∧
      (sendFrame env s f weight).2.written = s.written ++ f.bytes := by
  have whole : env.sslWrite s.sent.length f.bytes = f.bytes.length := full _ _
  simp [sendFrame, Frame.encode_small small, sendData, Session.written, Sent.written, whole]

/-- A block that asks for something is answered. -/
theorem processEndHeader_asks {s : Session} {strm : Stream} {path : Bytes} {after : State}
    (hid : strm.id < 2 ^ 31) (new : strm.headers = [])
    (asks : Asks (view s.hpackDecoder) strm.headerFragments path after)
    (bearable : Bearable env (.request strm.id path)) :
    ∃ ok bytes, (processEndHeader env s strm).1 = .returned ok ∧
      (processEndHeader env s strm).2.2.written = s.written ++ bytes ∧
      view (processEndHeader env s strm).2.2.hpackDecoder = after ∧
      Answered env (.request strm.id path) bytes := by
  obtain ⟨reps, headers, block, fits, run, hpath⟩ := asks
  obtain ⟨t', decodes, table⟩ := decodeLowmem_serialise reps _ _ _ fits run
  rw [← block] at decodes
  have whole : decoded s strm = ⟨.accepted, headers, t'⟩ := decodes
  have requested : requestPath s strm = some path := by
    simp [requestPath, whole, new, hpath]
  have first := first_received requested
  rw [processEndHeader_eq, if_neg (by simp [requested]), whole]
  dsimp only
  rw [(serve_keeps env _ _ first).2.1, serve_eq env _ _ first]
  simp only [okBuffers, received_id, received_weight]
  cases found : env.binder.getContent env.files path with
  | none => exact ⟨false, [], rfl, (List.append_nil _).symm, table, .error found⟩
  | some content =>
    by_cases blank : content.data = []
    · obtain ⟨buffers, packed, arrives⟩ :=
        responseBuffers_arrive hid (WebBinder.getErrorPage 404).data short_errorHeaders (by decide)
      rw [errorBuffers_some, Option.some.injEq] at packed
      rw [← packed] at arrives
      simp only [blank, ↓reduceIte]
      exact ⟨false, _, rfl, full.written _ _ _, table, .errorPage found blank arrives⟩
    · obtain ⟨shortPath, size⟩ := bearable content found blank
      obtain ⟨file, mime⟩ := WebBinder.getContent_mimeType found
      have short := short_okHeaders shortPath (mime ▸ ResponseData.length_getMimeType file) size
      obtain ⟨buffers, packed, arrives⟩ :=
        responseBuffers_arrive hid content.data short (by simp [okHeaders])
      simp only [blank, packed, full.succeed, ↓reduceIte]
      exact ⟨true, _, rfl, full.written _ _ _, table, .content found blank arrives⟩

end

/-! ## Following a conversation -/

/-- A stream with a part of its header block. -/
structure Waits (sid : Nat) (part : Bytes) (strm : Stream) : Prop where
  id : strm.id = sid
  state : strm.state = .open
  headers : strm.headers = []
  fragments : strm.headerFragments = part

/-- The session knows of a conversation what there is to know. -/
structure Follows (s : Session) (t : Talk) : Prop where
  table : view s.hpackDecoder = t.table
  unused : ∀ sid, sid ∉ t.used → s.streams sid = none
  pending : ∀ sid part, t.pending sid = some part →
    ∃ strm, s.streams sid = some strm ∧ Waits sid part strm

theorem follows_new : Follows {} .new :=
  ⟨rfl, fun _ _ => rfl, fun _ _ waiting => absurd waiting (by simp [Talk.new])⟩

section
variable (env : Env) {s : Session} {f : Frame}

/-- A frame without an answer. -/
theorem dispatch_unanswerable (plain : Unanswerable f) :
    ∃ ok s', dispatch env s f = (.returned ok, s') ∧ s'.sent = s.sent ∧
      s'.hpackDecoder = s.hpackDecoder := by
  have effect := dispatch_effect env s f
  generalize dispatch env s f = r at effect
  cases effect with
  | nothing ok => exact ⟨ok, s, rfl, rfl, rfl⟩
  | stream kept =>
    cases kept
    · exact ⟨true, _, rfl, rfl, rfl⟩
    · exact ⟨true, _, rfl, rfl, rfl⟩
  | block completes =>
    obtain ⟨type, _⟩ | ⟨type, _⟩ := (completed_cases completes).2
    · exact absurd type plain.headers
    · exact absurd type plain.continuation
  | settings zero type asked =>
    rw [ackSettings_invalid env s zero type asked plain.settings]
    exact ⟨false, s, rfl, rfl, rfl⟩
  | ping zero type => exact absurd ⟨zero, type⟩ plain.ping
  | goAway type => exact absurd type plain.goAway

/-- No frame but HEADERS makes a stream. -/
theorem dispatch_unknown (other : f.type ≠ FrameType.headers.code)
    (unknown : s.streams f.sid = none) : (dispatch env s f).2.streams f.sid = none := by
  unfold dispatch
  split
  · rw [handleDataFrame, unknown]
    exact unknown
  · next type => exact absurd (FrameType.code_of_ofCode type) other
  · rw [handlePriorityFrame, unknown]
    exact unknown
  · rw [handleResetFrame, unknown]
    exact unknown
  · unfold handleSettingsFrame
    split_ifs
    · exact unknown
    · rw [ackSettings_streams]
      exact unknown
    · exact unknown
  · exact unknown
  · unfold handlePingFrame
    split_ifs
    · exact unknown
    · rw [sendFrame_streams]
      exact unknown
  · rfl
  · exact unknown
  · rw [handleContinuationFrame, unknown]
    exact unknown
  · exact unknown

/-- A frame that neither is part of a header block nor ends anything leaves one that is not
complete as it is. -/
theorem dispatch_waits {sid : Nat} {part : Bytes} {strm : Stream}
    (headers : f.type ≠ FrameType.headers.code)
    (continuation : f.type ≠ FrameType.continuation.code)
    (reset : f.type ≠ FrameType.rstStream.code) (goAway : f.type ≠ FrameType.goAway.code)
    (found : s.streams sid = some strm) (waits : Waits sid part strm) :
    ∃ strm', (dispatch env s f).2.streams sid = some strm' ∧ Waits sid part strm' := by
  by_cases own : sid = f.sid
  · subst own
    unfold dispatch
    split
    · rw [handleDataFrame, found]
      dsimp only
      split
      · exact ⟨strm, found, waits⟩
      · exact ⟨_, Session.setStream_same .., ⟨waits.id, waits.state, waits.headers, waits.fragments⟩⟩
    · next type => exact absurd (FrameType.code_of_ofCode type) headers
    · rw [handlePriorityFrame, found]
      dsimp only
      split
      · exact ⟨strm, found, waits⟩
      · exact ⟨_, Session.setStream_same .., ⟨waits.id, waits.state, waits.headers, waits.fragments⟩⟩
    · next type => exact absurd (FrameType.code_of_ofCode type) reset
    · unfold handleSettingsFrame
      split_ifs
      · exact ⟨strm, found, waits⟩
      · rw [ackSettings_streams]
        exact ⟨strm, found, waits⟩
      · exact ⟨strm, found, waits⟩
    · exact ⟨strm, found, waits⟩
    · unfold handlePingFrame
      split_ifs
      · exact ⟨strm, found, waits⟩
      · rw [sendFrame_streams]
        exact ⟨strm, found, waits⟩
    · next type => exact absurd (FrameType.code_of_ofCode type) goAway
    · exact ⟨strm, found, waits⟩
    · next type => exact absurd (FrameType.code_of_ofCode type) continuation
    · exact ⟨strm, found, waits⟩
  · rw [dispatch_other env s f own goAway]
    exact ⟨strm, found, waits⟩

end

section
variable {env : Env} {s : Session} {f : Frame} {t t' : Talk}

/-- After a frame, only its own stream is to be looked at. -/
theorem Follows.step (follows : Follows s t) (stay : f.type ≠ FrameType.goAway.code)
    (table : view (handleFrame env s f).2.hpackDecoder = t'.table) (used : t.used ⊆ t'.used)
    (unused : f.sid ∉ t'.used → (handleFrame env s f).2.streams f.sid = none)
    (others : ∀ sid, sid ≠ f.sid → t'.pending sid = t.pending sid)
    (own : ∀ part, t'.pending f.sid = some part →
      ∃ strm, (handleFrame env s f).2.streams f.sid = some strm ∧ Waits f.sid part strm) :
    Follows (handleFrame env s f).2 t' := by
  have same {sid : Nat} (other : sid ≠ f.sid) :
      (handleFrame env s f).2.streams sid = s.streams sid :=
    dispatch_other env (s.log (.handleFrame f)) f other stay
  refine ⟨table, ?_, ?_⟩
  · intro sid fresh
    by_cases mine : sid = f.sid
    · rw [mine] at fresh ⊢
      exact unused fresh
    · rw [same mine]
      exact follows.unused sid fun before => fresh (used before)
  · intro sid part waiting
    by_cases mine : sid = f.sid
    · rw [mine] at waiting ⊢
      exact own part waiting
    · rw [same mine]
      rw [others sid mine] at waiting
      exact follows.pending sid part waiting

/-- A frame that leaves the conversation's own data alone. -/
theorem Follows.aside (follows : Follows s t) (headers : f.type ≠ FrameType.headers.code)
    (continuation : f.type ≠ FrameType.continuation.code)
    (reset : f.type ≠ FrameType.rstStream.code) (goAway : f.type ≠ FrameType.goAway.code)
    (table : (handleFrame env s f).2.hpackDecoder = s.hpackDecoder) :
    Follows (handleFrame env s f).2 t := by
  apply follows.step goAway
  · rw [table]
    exact follows.table
  · exact Finset.Subset.refl _
  · intro fresh
    exact dispatch_unknown env headers (follows.unused f.sid fresh)
  · exact fun _ _ => rfl
  · intro part waiting
    obtain ⟨strm, found, waits⟩ := follows.pending f.sid part waiting
    exact dispatch_waits env headers continuation reset goAway found waits

/-- The frame that completes a block which asks for something. -/
theorem handleFrame_completes (full : FullWrites env) {strm : Stream} {path : Bytes}
    {after : State} (block : completed s f = some strm) (hid : f.sid < 2 ^ 31)
    (id : strm.id = f.sid) (new : strm.headers = [])
    (asks : Asks (view s.hpackDecoder) strm.headerFragments path after)
    (bearable : Bearable env (.request f.sid path)) :
    ∃ ok bytes, (handleFrame env s f).1 = .returned ok ∧
      (handleFrame env s f).2.written = s.written ++ bytes ∧
      view (handleFrame env s f).2.hpackDecoder = after ∧
      Answered env (.request f.sid path) bytes := by
  obtain ⟨exit, sent, table⟩ := handleFrame_completed env block
  rw [← id] at hid bearable ⊢
  obtain ⟨ok, bytes, returned, written, view, answered⟩ :=
    processEndHeader_asks (s := s.log (.handleFrame f)) full hid new asks bearable
  have wrote : (handleFrame env s f).2.written = s.written ++ bytes := by
    rw [Session.written, sent]
    exact written
  rw [exit, table, returned]
  by_cases last : f.type = FrameType.continuation.code
  · exact ⟨ok, bytes, by simp [last], wrote, view, answered⟩
  · exact ⟨true, bytes, by simp [last], wrote, view, answered⟩

/-! One lemma for each thing a frame can say. -/

theorem said_request (full : FullWrites env) (follows : Follows s t) {path : Bytes} {after : State}
    (type : f.type = FrameType.headers.code) (ends : f.hasFlag Flag.endHeaders = true)
    (fresh : f.sid ∉ t.used) (asks : Asks t.table f.payload path after) (hid : f.sid < 2 ^ 31)
    (bearable : Bearable env (.request f.sid path)) :
    ∃ ok bytes, (handleFrame env s f).1 = .returned ok ∧
      (handleFrame env s f).2.written = s.written ++ bytes ∧
      Answered env (.request f.sid path) bytes ∧
      Follows (handleFrame env s f).2 { t with table := after, used := insert f.sid t.used } := by
  have unknown := follows.unused f.sid fresh
  have block : completed s f = some (openStream s f) := by
    simp only [completed, ends, type, FrameType.ofCode_code, ↓reduceIte]
  have id : (openStream s f).id = f.sid := by simp [openStream, unknown]
  have new : (openStream s f).headers = [] := by simp [openStream, unknown]
  have fragments : (openStream s f).headerFragments = f.payload := by simp [openStream, unknown]
  rw [← follows.table, ← fragments] at asks
  obtain ⟨ok, bytes, returned, written, table, answered⟩ :=
    handleFrame_completes full block hid id new asks bearable
  refine ⟨ok, bytes, returned, written, answered, ?_⟩
  apply follows.step
  · rw [type]
    decide
  · exact table
  · exact Finset.subset_insert _ _
  · exact fun fresh => absurd (Finset.mem_insert_self _ _) fresh
  · exact fun _ _ => rfl
  · intro part waiting
    obtain ⟨strm, found, _⟩ := follows.pending f.sid part waiting
    cases unknown.symm.trans found

variable (env) in
theorem said_opening (follows : Follows s t) (type : f.type = FrameType.headers.code)
    (more : f.hasFlag Flag.endHeaders = false) (stays : f.hasFlag Flag.endStream = false)
    (fresh : f.sid ∉ t.used) :
    (handleFrame env s f).1 = .returned true ∧ (handleFrame env s f).2.sent = s.sent ∧
      Follows (handleFrame env s f).2 { t with
        pending := Function.update t.pending f.sid (some f.payload)
        used := insert f.sid t.used } := by
  have unknown : (s.log (.handleFrame f)).streams f.sid = none := follows.unused f.sid fresh
  have handled : handleFrame env s f = (.returned true,
      (s.log (.handleFrame f)).setStream f.sid (openStream (s.log (.handleFrame f)) f)) := by
    simp only [handleFrame, dispatch, type, FrameType.ofCode_code, handleHeadersFrame, more, stays,
      Bool.false_eq_true, ↓reduceIte, reduceCtorEq]
  have stay : f.type ≠ FrameType.goAway.code := by
    rw [type]
    decide
  refine ⟨by rw [handled], by rw [handled]; rfl, ?_⟩
  apply follows.step stay
  · rw [handled]
    exact follows.table
  · exact Finset.subset_insert _ _
  · exact fun fresh => absurd (Finset.mem_insert_self _ _) fresh
  · exact fun sid other => Function.update_of_ne other _ _
  · intro part waiting
    obtain rfl : f.payload = part := by simpa using waiting
    rw [handled]
    refine ⟨_, Session.setStream_same .., ?_⟩
    rw [openStream, unknown]
    exact ⟨rfl, rfl, rfl, rfl⟩

variable (env) in
theorem said_fragment (follows : Follows s t) {part : Bytes}
    (type : f.type = FrameType.continuation.code) (more : f.hasFlag Flag.endHeaders = false)
    (begun : t.pending f.sid = some part) :
    (handleFrame env s f).1 = .returned true ∧ (handleFrame env s f).2.sent = s.sent ∧
      Follows (handleFrame env s f).2 { t with
        pending := Function.update t.pending f.sid (some (part ++ f.payload)) } := by
  obtain ⟨strm, found, waits⟩ := follows.pending f.sid part begun
  have known : (s.log (.handleFrame f)).streams f.sid = some strm := found
  have handled : handleFrame env s f = (.returned true,
      (s.log (.handleFrame f)).setStream f.sid (continueStream strm f)) := by
    simp only [handleFrame, dispatch, type, FrameType.ofCode_code, handleContinuationFrame, known,
      waits.state, more, ne_eq, not_true_eq_false, false_and, Bool.false_eq_true, ↓reduceIte]
  have stay : f.type ≠ FrameType.goAway.code := by
    rw [type]
    decide
  refine ⟨by rw [handled], by rw [handled]; rfl, ?_⟩
  apply follows.step stay
  · rw [handled]
    exact follows.table
  · exact Finset.Subset.refl _
  · intro fresh
    cases (follows.unused f.sid fresh).symm.trans found
  · exact fun sid other => Function.update_of_ne other _ _
  · intro part' waiting
    obtain rfl : part ++ f.payload = part' := by simpa using waiting
    rw [handled]
    refine ⟨_, Session.setStream_same .., ⟨waits.id, waits.state, waits.headers, ?_⟩⟩
    rw [continueStream, waits.fragments]

theorem said_complete (full : FullWrites env) (follows : Follows s t) {part path : Bytes}
    {after : State} (type : f.type = FrameType.continuation.code)
    (ends : f.hasFlag Flag.endHeaders = true) (begun : t.pending f.sid = some part)
    (asks : Asks t.table (part ++ f.payload) path after) (hid : f.sid < 2 ^ 31)
    (bearable : Bearable env (.request f.sid path)) :
    ∃ ok bytes, (handleFrame env s f).1 = .returned ok ∧
      (handleFrame env s f).2.written = s.written ++ bytes ∧
      Answered env (.request f.sid path) bytes ∧
      Follows (handleFrame env s f).2 { t with
        table := after, pending := Function.update t.pending f.sid none } := by
  obtain ⟨strm, found, waits⟩ := follows.pending f.sid part begun
  have block : completed s f = some (continueStream strm f) := by
    simp only [completed, ends, type, FrameType.ofCode_code, found, waits.state, ne_eq,
      not_true_eq_false, false_and, ↓reduceIte]
  have fragments : (continueStream strm f).headerFragments = part ++ f.payload := by
    rw [continueStream, waits.fragments]
  rw [← follows.table, ← fragments] at asks
  obtain ⟨ok, bytes, returned, written, table, answered⟩ :=
    handleFrame_completes full block hid waits.id waits.headers asks bearable
  refine ⟨ok, bytes, returned, written, answered, ?_⟩
  apply follows.step
  · rw [type]
    decide
  · exact table
  · exact Finset.Subset.refl _
  · intro fresh
    cases (follows.unused f.sid fresh).symm.trans found
  · exact fun sid other => Function.update_of_ne other _ _
  · intro part' waiting
    simp at waiting

variable (env) in
theorem said_reset (follows : Follows s t) (type : f.type = FrameType.rstStream.code) :
    ∃ ok, (handleFrame env s f).1 = .returned ok ∧ (handleFrame env s f).2.sent = s.sent ∧
      Follows (handleFrame env s f).2 { t with
        pending := Function.update t.pending f.sid none } := by
  have handled : handleFrame env s f = handleResetFrame (s.log (.handleFrame f)) f := by
    rw [handleFrame, dispatch, type, FrameType.ofCode_code]
  have kept : ∃ ok, (handleFrame env s f).1 = .returned ok ∧
      (handleFrame env s f).2.sent = s.sent ∧
      (handleFrame env s f).2.hpackDecoder = s.hpackDecoder := by
    rw [handled]
    unfold handleResetFrame
    split
    · exact ⟨false, rfl, rfl, rfl⟩
    · split
      · exact ⟨false, rfl, rfl, rfl⟩
      · exact ⟨true, rfl, rfl, rfl⟩
  obtain ⟨ok, returned, sent, table⟩ := kept
  refine ⟨ok, returned, sent, ?_⟩
  apply follows.step
  · rw [type]
    decide
  · rw [table]
    exact follows.table
  · exact Finset.Subset.refl _
  · intro fresh
    refine dispatch_unknown env ?_ (follows.unused f.sid fresh)
    rw [type]
    decide
  · exact fun sid other => Function.update_of_ne other _ _
  · intro part waiting
    simp at waiting

end

section
variable {env : Env} {s : Session} {t t' : Talk}

/-- **One frame.** It is answered by what it says. -/
theorem handleFrame_said (full : FullWrites env) (follows : Follows s t) {f : Frame} {m : Message}
    (hid : f.sid < 2 ^ 31) (small : f.payload.length < 2 ^ 24) (bearable : Bearable env m)
    (said : Says t f m t') :
    ∃ ok bytes, (handleFrame env s f).1 = .returned ok ∧
      (handleFrame env s f).2.written = s.written ++ bytes ∧ Answered env m bytes ∧
      Follows (handleFrame env s f).2 t' := by
  have silent {s' : Session} (same : s'.sent = s.sent) : s'.written = s.written ++ [] := by
    rw [Session.written, same, List.append_nil, Session.written]
  cases said with
  | request type ends fresh asks => exact said_request full follows type ends fresh asks hid bearable
  | opening type more stays fresh =>
    obtain ⟨returned, sent, follows'⟩ := said_opening env follows type more stays fresh
    exact ⟨true, [], returned, silent sent, .silence, follows'⟩
  | fragment type more begun =>
    obtain ⟨returned, sent, follows'⟩ := said_fragment env follows type more begun
    exact ⟨true, [], returned, silent sent, .silence, follows'⟩
  | complete type ends begun asks =>
    exact said_complete full follows type ends begun asks hid bearable
  | reset type =>
    obtain ⟨ok, returned, sent, follows'⟩ := said_reset env follows type
    exact ⟨ok, [], returned, silent sent, .silence, follows'⟩
  | settings valid =>
    have handled : handleFrame env s f = (.returned true, (sendFrame env
        { s.log (.handleFrame f) with settings := settingsOf f } settingsAck 0).2) :=
      dispatch_valid env _ valid
    obtain ⟨_, written⟩ := sendFrame_written full
      { s.log (.handleFrame f) with settings := settingsOf f } (f := settingsAck) (by decide) 0
    refine ⟨true, settingsAck.bytes, by rw [handled], by rw [handled]; exact written, .settings, ?_⟩
    have type : f.type = FrameType.settings.code := valid.2.1
    apply follows.aside
    · rw [type]
      decide
    · rw [type]
      decide
    · rw [type]
      decide
    · rw [type]
      decide
    · rw [handled]
      rfl
  | ping ping =>
    have handled : handleFrame env s f =
        sendFrame env (s.log (.handleFrame f)) (pingAck f.payload) 0 := by
      simp only [handleFrame, dispatch, ping.2, FrameType.ofCode_code, handlePingFrame, ping.1,
        ne_eq, not_true_eq_false, ↓reduceIte, pingAck]
    obtain ⟨returned, written⟩ := sendFrame_written full (s.log (.handleFrame f))
      (f := pingAck f.payload) small 0
    refine ⟨true, (pingAck f.payload).bytes, by rw [handled, returned],
      by rw [handled]; exact written, .ping f.payload, ?_⟩
    have type : f.type = FrameType.ping.code := ping.2
    apply follows.aside
    · rw [type]
      decide
    · rw [type]
      decide
    · rw [type]
      decide
    · rw [type]
      decide
    · rw [handled, sendFrame]
      split <;> rfl
  | other plain =>
    obtain ⟨ok, s', handled, sent, table⟩ := dispatch_unanswerable env
      (s := s.log (.handleFrame f)) plain
    have same : handleFrame env s f = (.returned ok, s') := handled
    refine ⟨ok, [], by rw [same], by rw [same]; exact silent sent, .silence, ?_⟩
    apply follows.aside plain.headers plain.continuation plain.reset plain.goAway
    rw [same]
    exact table

/-- **Conversations.** A session that has followed a conversation follows it on; every
message is answered, in order, and nothing else is sent. -/
theorem conversation_answered (full : FullWrites env) (follows : Follows s t)
    {frames : List Frame} {messages : List Message} (talks : Talks t frames messages t')
    (sized : ∀ f ∈ frames, f.sid < 2 ^ 31 ∧ f.payload.length < 2 ^ 24)
    (bearable : ∀ m ∈ messages, Bearable env m) :
    ∃ s' parts, handleFrames env frames s = (.returned true, s') ∧
      s'.written = s.written ++ parts.flatten ∧ List.Forall₂ (Answered env) messages parts ∧
      Follows s' t' := by
  induction talks generalizing s with
  | nil => exact ⟨s, [], rfl, (List.append_nil _).symm, .nil, follows⟩
  | @cons t t' t'' f fs m ms said rest ih =>
    rw [List.forall_mem_cons] at sized bearable
    obtain ⟨ok, bytes, returned, written, answered, follows'⟩ :=
      handleFrame_said full follows sized.1.1 sized.1.2 bearable.1 said
    obtain ⟨s', parts, handled, wrote, others, last⟩ := ih follows' sized.2 bearable.2
    refine ⟨s', bytes :: parts, ?_, ?_, .cons answered others, last⟩
    · rw [handleFrames]
      rcases first : handleFrame env s f with ⟨e, s₁⟩
      rw [first] at returned handled
      obtain rfl : e = .returned ok := returned
      exact handled
    · rw [wrote, written, List.flatten_cons, List.append_assoc]

end

end Http2Server.FrameHandler
