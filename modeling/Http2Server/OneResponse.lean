import Http2Server.HeaderBlocks

/-!
# One response a stream

What the server submits on a stream id, over a run of frames. Nothing in the
source keeps it from answering a stream twice: neither the stream map nor a
stream's state remembers that an answer was sent, and a failed answer is
followed by an error page. `one_response` is what holds of the runs in which
neither happens.
-/

namespace Http2Server.FrameHandler

open Hpack

/-- The frames submitted on a stream id so far. -/
def submittedOn (s : Session) (id : Nat) : List Frame := s.submitted.filter (·.sid = id)

/-- Nothing, or a HEADERS frame and DATA frames, END_STREAM on the last frame
at most. -/
def OneResponse (fs : List Frame) : Prop :=
  fs = [] ∨ ∃ head body, fs = head :: body ∧ head.type = FrameType.headers.code ∧
    (∀ f ∈ body, f.type = FrameType.data.code) ∧
    ∀ f ∈ fs.dropLast, f.hasFlag Flag.endStream = false

/-! ## The condition on a step -/

/-- Frames that are acknowledged on stream 0: PING, and SETTINGS in order. -/
def Acknowledged (f : Frame) : Prop :=
  f.sid = 0 ∧ (f.type = FrameType.ping.code ∨
    f.type = FrameType.settings.code ∧ f.hasFlag Flag.ack = false ∧
      (({} : Settings).decode f.payload).1 = .noError)

instance : DecidablePred Acknowledged := fun _ => inferInstanceAs (Decidable (_ ∧ _))

/-- A frame that does not spoil a stream id: an acknowledgement is not sent on
it, and is one frame; a block of its stream is answered when nothing has been
submitted on it before, and unbroken. -/
def Clean (env : Env) (id : Nat) (s : Session) (f : Frame) : Prop :=
  (Acknowledged f → id ≠ 0 ∧ f.payload.length < 2 ^ 24) ∧
    ∀ strm ∈ completed s f, strm.id % 2 ^ 31 = id → ∀ answer ∈ answerOf env s strm,
      submittedOn s id = [] ∧ Unbroken env s strm answer

instance (env : Env) (id : Nat) (s : Session) (f : Frame) : Decidable (Clean env id s f) :=
  inferInstanceAs (Decidable (_ ∧ _))

def CleanRun (env : Env) (id : Nat) : Session → List Frame → Prop
  | _, [] => True
  | s, f :: rest => Clean env id s f ∧
    ∀ ok s', handleFrame env s f = (.returned ok, s') → CleanRun env id s' rest

/-! ## What a step submits -/

/-- The beginning of a response is a response, and all on one stream. -/
theorem PartOf.oneResponse {sid : Nat} {part : List Frame} (h : PartOf sid part) :
    OneResponse part ∧ ∀ f ∈ part, f.sid = sid % 2 ^ 31 := by
  obtain ⟨block, body, _, ⟨init, last, rfl, _, each, final⟩, first⟩ := h
  have data : ∀ f ∈ init ++ [last], f.type = FrameType.data.code ∧ f.sid = sid % 2 ^ 31 := by
    intro f hf
    rcases List.mem_append.mp hf with hf | hf
    · rw [each f hf]
      exact ⟨rfl, rfl⟩
    · rw [List.mem_singleton.mp hf, final]
      exact ⟨rfl, rfl⟩
  cases part with
  | nil => exact ⟨.inl rfl, by simp⟩
  | cons head part =>
    obtain ⟨rfl, tail⟩ := List.cons_prefix_cons.mp first
    refine ⟨.inr ⟨_, part, rfl, rfl, fun f hf => (data f (tail.subset hf)).1, ?_⟩, ?_⟩
    · intro f hf
      have before : (headersFrame (sid % 2 ^ 31) block :: part).dropLast <+:
          headersFrame (sid % 2 ^ 31) block :: init := by
        have whole := (List.dropLast_prefix _).trans first
        rw [← List.cons_append] at whole
        rcases List.prefix_concat_iff.mp whole with all | before
        · have count := congrArg List.length all
          have short := first.length_le
          simp only [List.length_dropLast, List.length_cons, List.length_append,
            List.length_nil] at count short
          omega
        · exact before
      rcases List.mem_cons.mp (before.subset hf) with rfl | hf
      · rw [hasFlag_headersFrame]
        decide
      · rw [each f hf, hasFlag_dataFrame]
        decide
    · intro f hf
      rcases List.mem_cons.mp hf with rfl | hf
      · rfl
      · exact (data f (tail.subset hf)).2

theorem sendFrame_submits (env : Env) (s : Session) {f : Frame} (plain : f.Plain)
    (weight : Int) : (sendFrame env s f weight).2.submitted = s.submitted ++ [f.onWire] := by
  have bytes : Frame.toFrames ([f].flatMap Frame.bytes) = some ([f].map Frame.onWire) :=
    Frame.toFrames_bytes (by simpa using plain)
  simp only [List.flatMap_cons, List.flatMap_nil, List.append_nil, List.map_cons,
    List.map_nil] at bytes
  simp only [sendFrame, Frame.encode_small plain.small, sendData, Session.submitted,
    List.flatMap_append, List.flatMap_cons, List.flatMap_nil, List.append_nil, Session.framesOf,
    bytes, Option.getD_some]

/-- The settings are kept and acknowledged when they decode. -/
theorem ackSettings_submits (env : Env) (s : Session) (f : Frame) :
    (ackSettings env s f).2.submitted = s.submitted ∨
      (({} : Settings).decode f.payload).1 = .noError ∧
        ∃ g, g.sid = 0 ∧ (ackSettings env s f).2.submitted = s.submitted ++ [g] := by
  obtain ⟨settings, ok, taken⟩ | ⟨_, dropped⟩ := ackSettings_cases env s f
  · have plain : Frame.Plain { type := FrameType.settings.code, flags := Flag.ack } :=
      Frame.plain_of_flags (by decide) (by decide) (by decide)
    rw [ok, taken]
    exact .inr ⟨rfl, _, rfl, sendFrame_submits env { s with settings } plain 0⟩
  · rw [dropped]
    exact .inl rfl

/-- A frame that completes no block submits an acknowledgement or nothing. -/
theorem dispatch_incomplete (env : Env) (s : Session) (f : Frame) (h : completed s f = none)
    (small : Acknowledged f → f.payload.length < 2 ^ 24) :
    (dispatch env s f).2.submitted = s.submitted ∨
      Acknowledged f ∧ ∃ g, g.sid = 0 ∧ (dispatch env s f).2.submitted = s.submitted ++ [g] := by
  have effect := dispatch_effect env s f
  generalize dispatch env s f = r at effect
  cases effect with
  | nothing ok => exact .inl rfl
  | stream kept => cases kept <;> exact .inl rfl
  | block completes =>
    rw [h] at completes
    cases completes
  | settings zero type asked =>
    rcases ackSettings_submits env s f with same | ⟨ok, sent⟩
    · exact .inl same
    · exact .inr ⟨⟨zero, .inr ⟨type, asked, ok⟩⟩, sent⟩
  | ping zero type =>
    have acked : Acknowledged f := ⟨zero, .inl type⟩
    have plain : Frame.Plain
        { type := FrameType.ping.code, flags := Flag.ack, payload := f.payload } :=
      Frame.plain_of_flags (by decide) (by decide) (small acked)
    exact .inr ⟨acked, _, rfl, sendFrame_submits env s plain 0⟩
  | goAway => exact .inl rfl

/-! ## Steps and runs -/

theorem submittedOn_append {s s' : Session} {more : List Frame}
    (h : s'.submitted = s.submitted ++ more) (id : Nat) :
    submittedOn s' id = submittedOn s id ++ more.filter (·.sid = id) := by
  rw [submittedOn, h, List.filter_append, submittedOn]

/-- Frames of one stream id are all or nothing of what an id gets. -/
theorem filter_sid {more : List Frame} {on : Nat} (h : ∀ f ∈ more, f.sid = on) (id : Nat) :
    more.filter (·.sid = id) = if on = id then more else [] := by
  split
  · next same => exact List.filter_eq_self.mpr fun f hf => by simp [h f hf, same]
  · next other => exact List.filter_eq_nil_iff.mpr fun f hf => by simp [h f hf, other]

/-- Acknowledgements go out on another id. -/
theorem incomplete_oneResponse {env : Env} {id : Nat} {s : Session} {f : Frame}
    (acks : Acknowledged f → id ≠ 0 ∧ f.payload.length < 2 ^ 24) (none : completed s f = none)
    (before : OneResponse (submittedOn s id)) :
    OneResponse (submittedOn (handleFrame env s f).2 id) := by
  rcases dispatch_incomplete env (s.log (.handleFrame f)) f none fun h => (acks h).2 with
    same | ⟨acked, g, zero, submitted⟩
  · rw [submittedOn, handleFrame, same]
    exact before
  · have other : ¬ g.sid = id := by
      rw [zero]
      exact fun h => (acks acked).1 h.symm
    rw [handleFrame, submittedOn_append submitted]
    show OneResponse (submittedOn s id ++ _)
    simpa [other] using before

/-- An answer is the first on its id, or on another id. -/
theorem answered_oneResponse {env : Env} {id : Nat} {s : Session} {f : Frame} {strm : Stream}
    (block : completed s f = some strm) {answer : Bytes × ResponseData}
    (answered : answerOf env s strm = some answer)
    (first : strm.id % 2 ^ 31 = id → submittedOn s id = [] ∧ Unbroken env s strm answer)
    (before : OneResponse (submittedOn s id)) :
    OneResponse (submittedOn (handleFrame env s f).2 id) := by
  obtain ⟨_, sent, _⟩ := handleFrame_completed env block
  have submitted : (handleFrame env s f).2.submitted =
      (processEndHeader env (s.log (.handleFrame f)) strm).2.2.submitted := by
    rw [Session.submitted, sent, Session.submitted]
  rcases processEndHeader_answered (s := s.log (.handleFrame f)) answered with
    ⟨_, same⟩ | ⟨part, page, put, _, response, error, broken⟩
  · rw [submittedOn, submitted, Session.submitted, same]
    exact before
  · rw [put, List.append_assoc] at submitted
    obtain ⟨one, ids⟩ := response.oneResponse
    have ids : ∀ g ∈ part ++ page, g.sid = strm.id % 2 ^ 31 := by
      intro g hg
      rcases List.mem_append.mp hg with hg | hg
      · exact ids g hg
      · exact error.oneResponse.2 g hg
    rw [submittedOn_append (s := s.log (.handleFrame f)) submitted, filter_sid ids]
    split
    · next same =>
      obtain ⟨none, unbroken⟩ := first same
      rw [broken unbroken, List.append_nil]
      show OneResponse (submittedOn s id ++ part)
      rw [none]
      exact one
    · rw [List.append_nil]
      exact before

/-- **Step.** A clean frame leaves one response on the id. -/
theorem handleFrame_oneResponse {env : Env} {id : Nat} {s : Session} {f : Frame}
    (clean : Clean env id s f) (before : OneResponse (submittedOn s id)) :
    OneResponse (submittedOn (handleFrame env s f).2 id) := by
  obtain ⟨acks, blocks⟩ := clean
  rcases block : completed s f with _ | strm
  · exact incomplete_oneResponse acks block before
  · rcases answered : answerOf env s strm with _ | answer
    · obtain ⟨_, sent, _⟩ := handleFrame_completed env block
      have same := (processEndHeader_unanswered (s := s.log (.handleFrame f)) answered).2.1
      rw [submittedOn, Session.submitted, sent, same]
      exact before
    · exact answered_oneResponse block answered
        (fun own => blocks strm block own answer answered) before

/-- **Run.** By induction on the frames. -/
theorem handleFrames_oneResponse {env : Env} {id : Nat} {fs : List Frame} {s : Session}
    (clean : CleanRun env id s fs) (before : OneResponse (submittedOn s id)) :
    OneResponse (submittedOn (handleFrames env fs s).2 id) := by
  induction fs generalizing s with
  | nil => exact before
  | cons f fs ih =>
    have step := handleFrame_oneResponse clean.1 before
    rw [handleFrames]
    rcases handled : handleFrame env s f with ⟨ok | _ | _, s'⟩
    · rw [handled] at step
      exact ih (clean.2 ok s' handled) step
    · rw [handled] at step
      exact step
    · rw [handled] at step
      exact step

theorem CleanRun.upTo {env : Env} {id : Nat} {pre fs : List Frame} {s : Session}
    (clean : CleanRun env id s fs) (first : pre <+: fs) : CleanRun env id s pre := by
  induction pre generalizing fs s with
  | nil => trivial
  | cons f pre ih =>
    obtain ⟨rest, rfl⟩ := first
    exact ⟨clean.1, fun ok s' handled => ih (clean.2 ok s' handled) ⟨rest, rfl⟩⟩

/-- **One response.** In a run of clean frames, every state reached has submitted
one response at most on the id. -/
theorem one_response (env : Env) (id : Nat) (fs : List Frame) (clean : CleanRun env id {} fs) :
    ∀ pre, pre <+: fs → OneResponse (submittedOn (handleFrames env pre {}).2 id) :=
  fun _ first => handleFrames_oneResponse (clean.upTo first) (.inl rfl)

/-- A GET for `/`, its stream left open. -/
def getRequest : Frame :=
  { type := FrameType.headers.code, flags := Flag.endHeaders, sid := 1, payload := [0x82, 0x84] }

theorem getRequest_clean : CleanRun siteEnv 1 {} [getRequest] :=
  ⟨by decide +kernel, fun _ _ _ => trivial⟩

theorem one_response_get :
    OneResponse (submittedOn (handleFrames siteEnv [getRequest] {}).2 1) :=
  one_response siteEnv 1 [getRequest] getRequest_clean [getRequest] (List.prefix_refl _)

/-- The same request twice on one stream is answered twice. -/
theorem getRequest_twice :
    ¬ OneResponse (submittedOn (handleFrames siteEnv [getRequest, getRequest] {}).2 1) := by
  have types : (submittedOn (handleFrames siteEnv [getRequest, getRequest] {}).2 1).map
      Frame.type = [1, 0, 1, 0] := by decide +kernel
  rintro (empty | ⟨head, body, split, _, data, _⟩)
  · rw [empty] at types
    cases types
  · rw [split, List.map_cons, List.cons.injEq] at types
    obtain ⟨f, hf, type⟩ := List.mem_map.mp (show 1 ∈ body.map Frame.type by simp [types.2])
    rw [data f hf] at type
    exact absurd type (by decide)

end Http2Server.FrameHandler
