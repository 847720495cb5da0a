import Http2Server.Acknowledgements
import Http2Server.Crashes

/-!
# What is submitted for a frame

Every frame the server sends is for one that it was sent, and those for one frame are not
broken up by those for another.

- `Due.unique`: what is due for a frame is settled by the frame, the session and the writes.
- `handleFrame_due`: what is submitted for one frame is what is due.
- `run_due`: for all frames of a run, one group after the other.
-/

namespace Http2Server.FrameHandler

open Hpack

/-- What goes out of a response on a stream, from a write of the connection on: the frames of
the writes that are made for its buffers. It begins, and it is whole unless a write fails. -/
structure GoesOut (env : Env) (strm : Stream) (n : Nat) (headers : Headers) (body : Bytes)
    (buffers : List Bytes) (out : List Frame) : Prop where
  packed : responseBuffers strm.id headers body = some buffers
  made : out = (Session.attempts env strm.weight n buffers).flatMap Session.framesOf
  begun : out ≠ []
  response : ∃ block fs, Encoder.new.encodeAll headers = some block ∧
    IsResponse (strm.id % 2 ^ 31) block body fs ∧ out <+: fs ∧
    (Session.Succeed env n buffers → out = fs)

/-- What a completed block is answered with: nothing, its content, or the error page. A content
of which a write fails has the error page behind it. -/
inductive BlockDue (env : Env) (s : Session) (strm : Stream) : List Frame → Prop
  | nothing (silent : Unanswered env s strm ∨ Overlong env s strm) : BlockDue env s strm []
  | content {path : Bytes} {content : ResponseData} {buffers : List Bytes} {out : List Frame}
      (answer : answerOf env s strm = some (path, content)) (held : content.data ≠ [])
      (goes : GoesOut env strm s.sent.length (okHeaders path content) content.data buffers out)
      (ok : Session.Succeed env s.sent.length buffers) : BlockDue env s strm out
  | broken {path : Bytes} {content : ResponseData} {buffers pages : List Bytes}
      {part page : List Frame} (answer : answerOf env s strm = some (path, content))
      (held : content.data ≠ [])
      (goes : GoesOut env strm s.sent.length (okHeaders path content) content.data buffers part)
      (failed : ¬ Session.Succeed env s.sent.length buffers)
      (error : GoesOut env strm
        (s.sent.length + (Session.attempts env strm.weight s.sent.length buffers).length)
        (errorHeaders 404 (WebBinder.getErrorPage 404)) (WebBinder.getErrorPage 404).data
        pages page) : BlockDue env s strm (part ++ page)
  | errorPage {path : Bytes} {content : ResponseData} {pages : List Bytes} {page : List Frame}
      (answer : answerOf env s strm = some (path, content)) (blank : content.data = [])
      (error : GoesOut env strm s.sent.length (errorHeaders 404 (WebBinder.getErrorPage 404))
        (WebBinder.getErrorPage 404).data pages page) : BlockDue env s strm page

/-- What is submitted for a frame: an acknowledgement, the answer to the block it completes, or
nothing. -/
inductive Due (env : Env) (s : Session) (f : Frame) : List Frame → Prop
  | settings (valid : ValidSettings f) : Due env s f [settingsAck.onWire]
  | ping (ping : Ping f) : Due env s f [(pingAck f.payload).onWire]
  | block {strm : Stream} {out : List Frame} (completes : completed s f = some strm)
      (due : BlockDue env s strm out) : Due env s f out
  | nothing (settings : ¬ ValidSettings f) (ping : ¬ Ping f)
      (incomplete : completed s f = none) : Due env s f []

/-! ## One thing is due -/

section
variable {env : Env} {s : Session} {f : Frame} {strm : Stream}

theorem GoesOut.unique {n : Nat} {headers : Headers} {body : Bytes} {buffers buffers' : List Bytes}
    {out out' : List Frame} (goes : GoesOut env strm n headers body buffers out)
    (goes' : GoesOut env strm n headers body buffers' out') : buffers = buffers' ∧ out = out' := by
  obtain rfl := Option.some.inj (goes.packed.symm.trans goes'.packed)
  exact ⟨rfl, goes.made.trans goes'.made.symm⟩

/-- Where nothing is answered though there is something to answer, it cannot be packed. -/
theorem silent_cases {path : Bytes} {content : ResponseData}
    (silent : Unanswered env s strm ∨ Overlong env s strm)
    (answer : answerOf env s strm = some (path, content)) :
    content.data ≠ [] ∧ responseBuffers strm.id (okHeaders path content) content.data = none := by
  obtain unanswered | ⟨⟨path', content'⟩, answered, held, long⟩ := silent
  · cases answer.symm.trans unanswered
  · cases answer.symm.trans answered
    refine ⟨held, ?_⟩
    obtain ⟨_, _, h⟩ := Option.bind_eq_some_iff.mp answer
    obtain ⟨_, found, same⟩ := Option.map_eq_some_iff.mp h
    cases same
    obtain ⟨file, mime⟩ := WebBinder.getContent_mimeType found
    rw [← okBuffers_iff strm (mime ▸ ResponseData.length_getMimeType file), not_not] at long
    exact long

theorem BlockDue.unique {out out' : List Frame} (h : BlockDue env s strm out)
    (h' : BlockDue env s strm out') : out = out' := by
  cases h with
  | nothing silent =>
    cases h' with
    | nothing => rfl
    | content answer _ goes _ | broken answer _ goes _ _ =>
      cases goes.packed.symm.trans (silent_cases silent answer).2
    | errorPage answer blank _ => exact absurd blank (silent_cases silent answer).1
  | content answer held goes ok =>
    cases h' with
    | nothing silent => cases goes.packed.symm.trans (silent_cases silent answer).2
    | content answer' _ goes' _ =>
      cases answer.symm.trans answer'
      exact (goes.unique goes').2
    | broken answer' _ goes' failed _ =>
      cases answer.symm.trans answer'
      exact absurd ((goes.unique goes').1 ▸ ok) failed
    | errorPage answer' blank _ =>
      cases answer.symm.trans answer'
      exact absurd blank held
  | broken answer held goes failed error =>
    cases h' with
    | nothing silent => cases goes.packed.symm.trans (silent_cases silent answer).2
    | content answer' _ goes' ok =>
      cases answer.symm.trans answer'
      exact absurd ((goes'.unique goes).1 ▸ ok) failed
    | broken answer' _ goes' _ error' =>
      cases answer.symm.trans answer'
      obtain ⟨rfl, rfl⟩ := goes.unique goes'
      rw [(error.unique error').2]
    | errorPage answer' blank _ =>
      cases answer.symm.trans answer'
      exact absurd blank held
  | errorPage answer blank error =>
    cases h' with
    | nothing silent => exact absurd blank (silent_cases silent answer).1
    | content answer' held _ _ | broken answer' held _ _ _ =>
      cases answer.symm.trans answer'
      exact absurd blank held
    | errorPage _ _ error' => exact (error.unique error').2

/-- A frame that completes a block is no acknowledged one. -/
theorem completed_plain (completes : completed s f = some strm) :
    ¬ ValidSettings f ∧ ¬ Ping f := by
  obtain ⟨_, ⟨type, _⟩ | ⟨type, _⟩⟩ := completed_cases completes
  · exact ⟨fun valid => absurd (type.symm.trans valid.2.1) (by decide),
      fun ping => absurd (type.symm.trans ping.2) (by decide)⟩
  · exact ⟨fun valid => absurd (type.symm.trans valid.2.1) (by decide),
      fun ping => absurd (type.symm.trans ping.2) (by decide)⟩

/-- **One thing is due.** For a frame, in a session, with the results of the writes. -/
theorem Due.unique {due due' : List Frame} (h : Due env s f due) (h' : Due env s f due') :
    due = due' := by
  cases h with
  | settings valid =>
    cases h' with
    | settings => rfl
    | ping ping => exact absurd (valid.2.1.symm.trans ping.2) (by decide)
    | block completes => exact absurd valid (completed_plain completes).1
    | nothing settings => exact absurd valid settings
  | ping ping =>
    cases h' with
    | settings valid => exact absurd (valid.2.1.symm.trans ping.2) (by decide)
    | ping => rfl
    | block completes => exact absurd ping (completed_plain completes).2
    | nothing _ other => exact absurd ping other
  | block completes answered =>
    cases h' with
    | settings valid => exact absurd valid (completed_plain completes).1
    | ping ping => exact absurd ping (completed_plain completes).2
    | block completes' answered' =>
      cases completes.symm.trans completes'
      exact answered.unique answered'
    | nothing _ _ incomplete => cases completes.symm.trans incomplete
  | nothing settings other incomplete =>
    cases h' with
    | settings valid => exact absurd valid settings
    | ping ping => exact absurd ping other
    | block completes => cases completes.symm.trans incomplete
    | nothing => rfl

end

/-! ## Responses -/

section
variable (env : Env) (s : Session)

/-- Sending the buffers of a response. -/
theorem submitted_buffers (strm : Stream) {headers : Headers} {body : Bytes} {buffers : List Bytes}
    (packed : responseBuffers strm.id headers body = some buffers) (few : headers.length ≤ 16) :
    ∃ out, GoesOut env strm s.sent.length headers body buffers out ∧
      (s.afterSend env strm.weight buffers).submitted = s.submitted ++ out := by
  have made : (s.afterSend env strm.weight buffers).submitted = s.submitted ++
      (Session.attempts env strm.weight s.sent.length buffers).flatMap Session.framesOf :=
    List.flatMap_append
  obtain ⟨block, groups, encoded, rfl, response, full, plain⟩ := responseBuffers_some packed few
  obtain ⟨part, begins, some, _⟩ := submitted_response s env strm.weight response full plain
  obtain ⟨tried, first, _, goes, whole⟩ :=
    s.submitted_afterSend env strm.weight response.groups_ne_nil plain
  rw [made, List.append_cancel_left_eq] at begins goes
  refine ⟨_, ⟨packed, rfl, ?_, block, _, encoded, response.onWire, ?_, ?_⟩, made⟩
  · rwa [begins]
  · rw [goes]
    exact first.flatten.map Frame.onWire
  · intro ok
    rw [goes, whole ok]

/-- **Answers.** What is submitted for a completed block is its answer. -/
theorem processEndHeader_answers (strm : Stream) (call : Call) :
    ∃ out, BlockDue env s strm out ∧
      (processEndHeader env (s.log call) strm).2.2.submitted = s.submitted ++ out := by
  by_cases unanswered : Unanswered env s strm
  · have unsent := (processEndHeader_unanswered (s := s.log call) unanswered).2.1
    refine ⟨[], .nothing (.inl unanswered), ?_⟩
    rw [Session.submitted, unsent, List.append_nil]
    rfl
  obtain ⟨answer, answered⟩ := Option.ne_none_iff_exists'.mp unanswered
  obtain ⟨path, hpath, h⟩ := Option.bind_eq_some_iff.mp answered
  obtain ⟨content, found, rfl⟩ := Option.map_eq_some_iff.mp h
  have requested : requestPath (s.log call) strm = some path := hpath
  rw [processEndHeader_eq, requested]
  simp only [reduceCtorEq, ↓reduceIte]
  rw [serve_eq env _ _ (first_received requested), found]
  simp only [okBuffers, received_id, received_weight]
  generalize hs : Session.log
    { s.log call with hpackDecoder := (decoded (s.log call) strm).table } _ = s'
  have same : s'.submitted = s.submitted ∧ s'.sent = s.sent := by
    rw [← hs]
    exact ⟨rfl, rfl⟩
  have few : (errorHeaders 404 (WebBinder.getErrorPage 404)).length ≤ 16 := by decide
  by_cases blank : content.data = []
  · obtain ⟨page, error, submitted⟩ :=
      submitted_buffers env s' strm (errorBuffers_some strm.id) few
    rw [same.2] at error
    simp only [blank, ↓reduceIte]
    exact ⟨page, .errorPage answered blank error, by rw [submitted, same.1]⟩
  · simp only [blank, ↓reduceIte]
    cases packed : responseBuffers strm.id (okHeaders path content) content.data with
    | none =>
      refine ⟨[], .nothing (.inr ⟨_, answered, blank, ?_⟩), by rw [same.1, List.append_nil]⟩
      obtain ⟨file, mime⟩ := WebBinder.getContent_mimeType found
      rw [← okBuffers_iff strm (mime ▸ ResponseData.length_getMimeType file), not_not]
      exact packed
    | some buffers =>
      obtain ⟨part, goes, submitted⟩ :=
        submitted_buffers env s' strm packed (by simp [okHeaders])
      rw [same.2] at goes
      dsimp only
      split
      · next ok =>
        rw [same.2] at ok
        exact ⟨part, .content answered blank goes ok, by rw [submitted, same.1]⟩
      · next failed =>
        obtain ⟨page, error, put⟩ := submitted_buffers env (s'.afterSend env strm.weight buffers)
          strm (errorBuffers_some strm.id) few
        have writes : (s'.afterSend env strm.weight buffers).sent.length = s.sent.length +
            (Session.attempts env strm.weight s.sent.length buffers).length := by
          rw [Session.afterSend, List.length_append, same.2]
        rw [writes] at error
        rw [same.2] at failed
        refine ⟨part ++ page, .broken answered blank goes failed error, ?_⟩
        rw [put, submitted, same.1, List.append_assoc]

end

/-! ## Frames and runs -/

section
variable {env : Env} {s : Session} {f : Frame}

variable (env s) in
/-- **One frame.** What is submitted for it is what is due for it. -/
theorem handleFrame_due (small : f.payload.length < 2 ^ 24) :
    ∃ due, Due env s f due ∧ (handleFrame env s f).2.submitted = s.submitted ++ due := by
  by_cases valid : ValidSettings f
  · refine ⟨_, .settings valid, ?_⟩
    rw [handleFrame, dispatch_valid env _ valid, sendFrame_submits env _ settingsAck_plain]
    rfl
  by_cases ping : Ping f
  · exact ⟨_, .ping ping, by rw [handleFrame_ping env s ping small]; rfl⟩
  cases block : completed s f with
  | none =>
    refine ⟨[], .nothing valid ping block, ?_⟩
    have incomplete : completed (s.log (.handleFrame f)) f = none := block
    obtain same | ⟨⟨zero, kind⟩, _⟩ := dispatch_incomplete env _ f incomplete fun _ => small
    · rw [handleFrame, same, List.append_nil]
      rfl
    · obtain type | ⟨type, asked, ok⟩ := kind
      · exact absurd ⟨zero, type⟩ ping
      · exact absurd ⟨zero, type, asked, ok⟩ valid
  | some strm =>
    obtain ⟨out, answered, submitted⟩ :=
      processEndHeader_answers env s strm (.handleFrame f)
    refine ⟨out, .block block answered, ?_⟩
    rw [← submitted, Session.submitted, (handleFrame_completed env block).2.1, Session.submitted]

/-- One group for each frame of a run. -/
inductive Dues (env : Env) : Session → List (Frame × Bool) → List (List Frame) → Prop
  | nil (s : Session) : Dues env s [] []
  | cons {s : Session} {f : Frame} {ok : Bool} {rest : List (Frame × Bool)} {due : List Frame}
      {dues : List (List Frame)} (now : Due env s f due)
      (later : Dues env (handleFrame env s f).2 rest dues) :
      Dues env s ((f, ok) :: rest) (due :: dues)

theorem Dues.unique {trace : List (Frame × Bool)} {dues dues' : List (List Frame)}
    (h : Dues env s trace dues) (h' : Dues env s trace dues') : dues = dues' := by
  induction h generalizing dues' with
  | nil s =>
    cases h'
    rfl
  | cons now later ih =>
    cases h' with
    | cons now' later' => rw [now.unique now', ih later']

theorem exists_dues {s' : Session} {trace : List (Frame × Bool)} (run : Run env s trace s')
    (small : ∀ e ∈ trace, e.1.payload.length < 2 ^ 24) :
    ∃ dues, Dues env s trace dues ∧ s'.submitted = s.submitted ++ dues.flatten := by
  induction run with
  | nil s => exact ⟨[], .nil s, (List.append_nil _).symm⟩
  | @step s s' s'' f ok rest handled _ ih =>
    rw [List.forall_mem_cons] at small
    obtain ⟨due, now, submitted⟩ := handleFrame_due env s small.1
    obtain ⟨dues, later, others⟩ := ih small.2
    rw [handled] at submitted
    have onwards : Dues env (handleFrame env s f).2 rest dues := by rwa [handled]
    refine ⟨due :: dues, .cons now onwards, ?_⟩
    rw [others, submitted, List.flatten_cons, List.append_assoc]

/-- **Submissions.** Over a run, what is submitted is what is due for each frame in turn, and
nothing else is due. -/
theorem run_due {s' : Session} {trace : List (Frame × Bool)} (run : Run env s trace s')
    (small : ∀ e ∈ trace, e.1.payload.length < 2 ^ 24) :
    ∃ dues, Dues env s trace dues ∧ (∀ others, Dues env s trace others → others = dues) ∧
      s'.submitted = s.submitted ++ dues.flatten := by
  obtain ⟨dues, due, submitted⟩ := exists_dues run small
  exact ⟨dues, due, fun others due' => due'.unique due, submitted⟩

theorem run_due_get : ∃ s' dues, Run siteEnv {} [(ping, true), (getRequest, true)] s' ∧
    Dues siteEnv {} [(ping, true), (getRequest, true)] dues ∧ s'.submitted = dues.flatten := by
  have run : Run siteEnv {} [(ping, true), (getRequest, true)] _ :=
    .step (handleFrame_eta (by decide +kernel))
      (.step (handleFrame_eta (by decide +kernel)) (.nil _))
  obtain ⟨dues, due, _, submitted⟩ := run_due run (by decide)
  exact ⟨_, dues, run, due, submitted⟩

end

end Http2Server.FrameHandler
