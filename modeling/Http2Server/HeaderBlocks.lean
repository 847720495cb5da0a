import Http2Server.Requests
import Http2Server.Steps

/-!
# Completed header blocks, seen from `handleFrame`

A HEADERS or CONTINUATION frame with END_HEADERS completes a block.

- `refused_iff`: when a block the decoder does not accept is refused.
- `served_only_get_iff`: when content is served for GET only.
-/

namespace Http2Server.FrameHandler

open Hpack

/-- What `handleFrame` does with a completed block: the work of
`processEndHeader`, whose result only a CONTINUATION frame passes on. -/
theorem handleFrame_completed (env : Env) {s : Session} {f : Frame} {strm : Stream}
    (h : completed s f = some strm) :
    let r := processEndHeader env (s.log (.handleFrame f)) strm
    (handleFrame env s f).1 =
        (if f.type = FrameType.continuation.code ∨ r.1 = .aborted then r.1 else .returned true) ∧
      (handleFrame env s f).2.sent = r.2.2.sent ∧
      (handleFrame env s f).2.hpackDecoder = r.2.2.hpackDecoder := by
  obtain ⟨ends, ⟨type, rfl⟩ | ⟨type, old, found, ready, rfl⟩⟩ := completed_cases h
  · have same : openStream (s.log (.handleFrame f)) f = openStream s f := rfl
    simp only [handleFrame, dispatch, type, FrameType.ofCode_code, handleHeadersFrame, ends,
      ↓reduceIte, same]
    generalize processEndHeader env (s.log (.handleFrame f)) (openStream s f) = r
    have other : FrameType.headers.code ≠ FrameType.continuation.code := by decide
    by_cases aborted : r.1 = .aborted
    · simp only [aborted, ↓reduceIte, or_true, and_self]
    · simp only [aborted, other, ↓reduceIte, or_self, true_and]
      split <;> exact ⟨rfl, rfl⟩
  · have same : (s.log (.handleFrame f)).streams f.sid = some old := found
    simp only [handleFrame, dispatch, type, FrameType.ofCode_code, handleContinuationFrame, same,
      ready, ends, ↓reduceIte, true_or, true_and]
    exact ⟨rfl, rfl⟩

/-! ## Blocks the decoder does not accept -/

/-- No HEADERS or DATA frame is submitted between two sessions. -/
def Silent (s s' : Session) : Prop :=
  ∃ more, s'.submitted = s.submitted ++ more ∧
    ∀ g ∈ more, g.type ≠ FrameType.headers.code ∧ g.type ≠ FrameType.data.code

/-- The frame fails and its block is not answered. -/
def Refused (env : Env) (s : Session) (f : Frame) : Prop :=
  (handleFrame env s f).1 = .returned false ∧ Silent s (handleFrame env s f).2

/-- **Refusal.** A block the decoder does not accept is refused exactly where a
CONTINUATION frame completes it and nothing is there to answer: the decoder
threw, no `:path` came before the error, or looking it up throws. -/
theorem refused_iff (env : Env) (s : Session) (f : Frame) (strm : Stream)
    (block : completed s f = some strm) (_bad : (decoded s strm).verdict ≠ .accepted) :
    Refused env s f ↔ f.type = FrameType.continuation.code ∧ Unanswered env s strm := by
  obtain ⟨exit, sent, _⟩ := handleFrame_completed env block
  have submitted : (handleFrame env s f).2.submitted =
      (processEndHeader env (s.log (.handleFrame f)) strm).2.2.submitted := by
    rw [Session.submitted, sent, Session.submitted]
  constructor
  · rintro ⟨failed, more, after, silent⟩
    have answered : Unanswered env s strm := by
      by_contra some
      obtain ⟨answer, answered⟩ := Option.ne_none_iff_exists'.mp some
      rcases processEndHeader_answered (s := s.log (.handleFrame f)) answered with
        ⟨aborted, _⟩ | ⟨part, page, put, some, response, _⟩
      · rw [exit, aborted] at failed
        simp at failed
      · rw [submitted, put, List.append_assoc] at after
        have all : part ++ page = more := List.append_cancel_left after
        obtain ⟨g, hg, type⟩ := response.head some
        exact (silent g (by simp [← all, hg])).1 type
    refine ⟨?_, answered⟩
    by_contra other
    obtain ⟨returned, _⟩ := processEndHeader_unanswered (s := s.log (.handleFrame f)) answered
    rw [exit, returned] at failed
    simp [other] at failed
  · rintro ⟨type, unanswered⟩
    obtain ⟨returned, same, _⟩ :=
      processEndHeader_unanswered (s := s.log (.handleFrame f)) unanswered
    refine ⟨by rw [exit, if_pos (.inl type), returned], [], ?_, by simp⟩
    rw [submitted, Session.submitted, same, List.append_nil]
    rfl

/-- `:path: /` and then an index that does not exist. -/
def badBlock : Frame :=
  { type := FrameType.headers.code, flags := Flag.endHeaders, sid := 1, payload := [0x84, 0x80] }

theorem badBlock_not_refused :
    completed {} badBlock = some (openStream {} badBlock) ∧
      (decoded {} (openStream {} badBlock)).verdict = .rejected ∧
      ¬ Refused siteEnv {} badBlock := by
  refine ⟨rfl, by decide +kernel, ?_⟩
  rintro ⟨failed, _⟩
  have served : (handleFrame siteEnv {} badBlock).1 = .returned true := by decide +kernel
  rw [served] at failed
  cases failed

theorem refused_iff_badBlock :
    Refused siteEnv {} badBlock ↔ badBlock.type = FrameType.continuation.code ∧
      Unanswered siteEnv {} (openStream {} badBlock) :=
  refused_iff siteEnv {} badBlock _ rfl (by decide +kernel)

/-! ## The method of a request -/

/-- The block is answered with content: `respondGet` is called for it. -/
def Served (env : Env) (s : Session) (strm : Stream) : Prop :=
  .respondGet strm.id ∈ (processEndHeader env s strm).2.2.calls.drop s.calls.length

/-- **GET only.** Content is served for GET only exactly where the block has no
path, or its method is GET. -/
theorem served_only_get_iff (env : Env) (s : Session) (strm : Stream)
    (first : strm.headers = []) (accepted : (decoded s strm).verdict = .accepted) :
    (Served env s strm →
      Headers.first (decoded s strm).headers (ascii ":method") = some (ascii "GET")) ↔
    (Headers.first (decoded s strm).headers (ascii ":path") = none ∨
      Headers.first (decoded s strm).headers (ascii ":method") = some (ascii "GET")) := by
  have request : requestPath s strm =
      Headers.first (decoded s strm).headers (ascii ":path") := by
    simp [requestPath, accepted, first]
  have served : Served env s strm ↔
      Headers.first (decoded s strm).headers (ascii ":path") ≠ none := by
    rw [← request, Served, processEndHeader_eq]
    split
    · next none => simp [none]
    · next some =>
      obtain ⟨path, hpath⟩ := Option.ne_none_iff_exists'.mp some
      rw [(serve_keeps env _ _ (first_received hpath)).1, received_id]
      simp [some]
  rw [served]
  tauto

/-- A POST for `/`. -/
def postRequest : Stream := { id := 1, headerFragments := [0x83, 0x84] }

theorem postRequest_served :
    postRequest.headers = [] ∧ (decoded {} postRequest).verdict = .accepted ∧
      ¬ (Served siteEnv {} postRequest →
        Headers.first (decoded {} postRequest).headers (ascii ":method") =
          some (ascii "GET")) := by
  refine ⟨rfl, by decide +kernel, fun only => ?_⟩
  have served : Served siteEnv {} postRequest := by
    unfold Served
    decide +kernel
  have post : Headers.first (decoded {} postRequest).headers (ascii ":method") =
      some (ascii "POST") := by decide +kernel
  rw [post] at only
  exact absurd (only served) (by decide)

theorem served_only_get_iff_post :
    (Served siteEnv {} postRequest →
      Headers.first (decoded {} postRequest).headers (ascii ":method") = some (ascii "GET")) ↔
    (Headers.first (decoded {} postRequest).headers (ascii ":path") = none ∨
      Headers.first (decoded {} postRequest).headers (ascii ":method") = some (ascii "GET")) :=
  served_only_get_iff siteEnv {} postRequest rfl (by decide +kernel)

end Http2Server.FrameHandler
