import Http2Server.HeaderBlocks

/-!
# Header blocks in fragments

A header block may arrive in one HEADERS frame or cut into fragments, with
CONTINUATION frames after the first. `delivered_alike_iff` says when the server
cannot tell: the fragments gather in the stream, unless END_STREAM on the
HEADERS frame has the stream erased before they are complete.
-/

namespace Http2Server.FrameHandler

open Hpack

def headersFragment (sid : Nat) (flags : Byte) (fragment : Bytes) : Frame :=
  { type := FrameType.headers.code, flags, sid, payload := fragment }

def continuationFrame (sid : Nat) (flags : Byte) (fragment : Bytes) : Frame :=
  { type := FrameType.continuation.code, flags, sid, payload := fragment }

/-- CONTINUATION frames with the fragments after the first, END_HEADERS on the
last of them. -/
def continuations (sid : Nat) : List Bytes → List Frame
  | [] => []
  | [fragment] => [continuationFrame sid Flag.endHeaders fragment]
  | fragment :: next :: rest =>
    continuationFrame sid 0 fragment :: continuations sid (next :: rest)

/-- A header block in fragments, with END_STREAM or without. -/
def blockFrames (sid : Nat) (endStream : Bool) (first : Bytes) (rest : List Bytes) : List Frame :=
  let flags := if endStream then Flag.endStream else 0
  match rest with
  | [] => [headersFragment sid (flags ||| Flag.endHeaders) first]
  | _ => headersFragment sid flags first :: continuations sid rest

/-- What a run makes the server send, and the decoder's table it leaves; `none`
when it ends the process. -/
def outcome (r : Exit × Session) : Option (List Sent × Table) :=
  if r.1 = .aborted then none else some (r.2.sent, r.2.hpackDecoder)

def delivered (env : Env) (s : Session) (fs : List Frame) : Option (List Sent × Table) :=
  outcome (handleFrames env fs s)

/-- What completing a block does, by the same measure. -/
def blockOutcome (env : Env) (s : Session) (strm : Stream) : Option (List Sent × Table) :=
  let r := processEndHeader env s strm
  outcome (r.1, r.2.2)

/-- It depends on the decoder, the writes so far, and four fields of the stream. -/
theorem blockOutcome_congr (env : Env) {s s' : Session} {strm strm' : Stream}
    (sent : s.sent = s'.sent) (table : s.hpackDecoder = s'.hpackDecoder)
    (id : strm.id = strm'.id) (weight : strm.weight = strm'.weight)
    (headers : strm.headers = strm'.headers)
    (fragments : strm.headerFragments = strm'.headerFragments) :
    blockOutcome env s strm = blockOutcome env s' strm' := by
  have block : decoded s strm = decoded s' strm' := by
    rw [decoded, table, fragments, decoded]
  have request : requestPath s strm = requestPath s' strm' := by
    rw [requestPath, block, headers, requestPath]
  simp only [blockOutcome, processEndHeader_eq, request]
  split
  · simp only [outcome, sent, block]
  · next some =>
    obtain ⟨path, hpath⟩ := Option.ne_none_iff_exists'.mp some
    have first := first_received hpath
    have first' := first_received (request ▸ hpath)
    have writes : ({ s with hpackDecoder := (decoded s strm).table } : Session).sent =
        ({ s' with hpackDecoder := (decoded s' strm').table } : Session).sent := sent
    obtain ⟨exit, wrote⟩ := serve_congr env first' first (by rw [received_id, received_id, id])
      (by rw [received_weight, received_weight, weight]) writes
    rw [block] at exit wrote
    simp only [outcome, block, (serve_keeps env _ _ first).2.1, (serve_keeps env _ _ first').2.1]
    rw [exit, wrote]

/-! ## Frame by frame -/

theorem delivered_single (env : Env) (s : Session) (f : Frame) :
    delivered env s [f] = outcome (handleFrame env s f) := by
  rw [delivered, handleFrames]
  rcases handleFrame env s f with ⟨ok | _ | _, s'⟩ <;> rfl

theorem delivered_cons {env : Env} {s s' : Session} {f : Frame} {ok : Bool}
    (h : handleFrame env s f = (.returned ok, s')) (rest : List Frame) :
    delivered env s (f :: rest) = delivered env s' rest := by
  rw [delivered, handleFrames, h, delivered]

theorem delivered_completed {env : Env} {s : Session} {f : Frame} {strm : Stream}
    (h : completed s f = some strm) : delivered env s [f] = blockOutcome env s strm := by
  obtain ⟨exit, sent, table⟩ := handleFrame_completed env h
  have log : blockOutcome env s strm = blockOutcome env (s.log (.handleFrame f)) strm :=
    blockOutcome_congr env rfl rfl rfl rfl rfl rfl
  rw [delivered_single, log]
  have aborted : (handleFrame env s f).1 = .aborted ↔
      (processEndHeader env (s.log (.handleFrame f)) strm).1 = .aborted := by
    rw [exit]
    split
    · rfl
    · next passed =>
      constructor
      · rintro ⟨⟩
      · exact fun h => absurd (.inr h) passed
  simp only [outcome, blockOutcome, aborted, sent, table]

/-- A fragment that is not the last waits in the stream. -/
theorem handleFrame_continuation (env : Env) {s : Session} {sid : Nat} {strm : Stream}
    (found : s.streams sid = some strm) (ready : strm.state = .open) (fragment : Bytes) :
    handleFrame env s (continuationFrame sid 0 fragment) =
      (.returned true, (s.log (.handleFrame (continuationFrame sid 0 fragment))).setStream sid
        (continueStream strm (continuationFrame sid 0 fragment))) := by
  have known : (s.log (.handleFrame (continuationFrame sid 0 fragment))).streams sid =
      some strm := found
  have type : (continuationFrame sid 0 fragment).type = FrameType.continuation.code := rfl
  have ends : (continuationFrame sid 0 fragment).hasFlag Flag.endHeaders = false := by
    show ((0 : Byte) &&& Flag.endHeaders == Flag.endHeaders) = false
    decide
  have id : (continuationFrame sid 0 fragment).sid = sid := rfl
  simp only [handleFrame, dispatch, type, FrameType.ofCode_code, handleContinuationFrame, id,
    known, ready, ends, ne_eq, not_true_eq_false, false_and, ↓reduceIte, Bool.false_eq_true]

theorem completed_continuation {s : Session} {sid : Nat} {strm : Stream}
    (found : s.streams sid = some strm) (ready : strm.state = .open) (fragment : Bytes) :
    completed s (continuationFrame sid Flag.endHeaders fragment) =
      some (continueStream strm (continuationFrame sid Flag.endHeaders fragment)) := by
  have type : (continuationFrame sid Flag.endHeaders fragment).type =
      FrameType.continuation.code := rfl
  have ends : (continuationFrame sid Flag.endHeaders fragment).hasFlag Flag.endHeaders =
      true := by
    show (Flag.endHeaders &&& Flag.endHeaders == Flag.endHeaders) = true
    decide
  have id : (continuationFrame sid Flag.endHeaders fragment).sid = sid := rfl
  simp only [completed, ends, type, FrameType.ofCode_code, id, found, ready, ne_eq,
    not_true_eq_false, false_and, ↓reduceIte]

/-- Fragments for an open stream: the block is what is there and what comes. -/
theorem delivered_continuations (env : Env) {s : Session} {sid : Nat} {strm : Stream}
    (found : s.streams sid = some strm) (ready : strm.state = .open) (fragment : Bytes)
    (rest : List Bytes) :
    delivered env s (continuations sid (fragment :: rest)) = blockOutcome env s
      { strm with
        headerFragments := strm.headerFragments ++ (fragment :: rest).flatten } := by
  induction rest generalizing s strm fragment with
  | nil =>
    rw [continuations, delivered_completed (completed_continuation found ready fragment)]
    exact blockOutcome_congr env rfl rfl rfl rfl rfl (by simp [continueStream, continuationFrame])
  | cons next rest ih =>
    have kept := Session.setStream_same (s.log (.handleFrame (continuationFrame sid 0 fragment)))
      sid (continueStream strm (continuationFrame sid 0 fragment))
    rw [continuations, delivered_cons (handleFrame_continuation env found ready fragment),
      ih kept ready]
    exact blockOutcome_congr env rfl rfl rfl rfl rfl
      (by simp [continueStream, continuationFrame])

/-- Frames for a stream that is not there change nothing. -/
theorem delivered_lost (env : Env) {s : Session} {sid : Nat} (lost : s.streams sid = none)
    (fragments : List Bytes) :
    delivered env s (continuations sid fragments) = some (s.sent, s.hpackDecoder) := by
  have ignored : ∀ (s : Session) flags fragment, s.streams sid = none →
      handleFrame env s (continuationFrame sid flags fragment) =
        (.returned false, s.log (.handleFrame (continuationFrame sid flags fragment))) := by
    intro s flags fragment lost
    have unknown : (s.log (.handleFrame (continuationFrame sid flags fragment))).streams sid =
        none := lost
    have type : (continuationFrame sid flags fragment).type = FrameType.continuation.code := rfl
    have id : (continuationFrame sid flags fragment).sid = sid := rfl
    simp only [handleFrame, dispatch, type, FrameType.ofCode_code, handleContinuationFrame, id,
      unknown]
  induction fragments generalizing s with
  | nil => rfl
  | cons fragment rest ih =>
    cases rest with
    | nil =>
      rw [continuations, delivered_cons (ignored s _ fragment lost)]
      rfl
    | cons next rest =>
      rw [continuations, delivered_cons (ignored s _ fragment lost)]
      exact ih (s := s.log _) lost

/-- A HEADERS frame without END_HEADERS opens its stream, and with END_STREAM
loses it at once. -/
theorem handleFrame_headersFragment (env : Env) (s : Session) (sid : Nat) (endStream : Bool)
    (fragment : Bytes) :
    let f := headersFragment sid (if endStream then Flag.endStream else 0) fragment
    handleFrame env s f = (.returned true,
      if endStream then (s.log (.handleFrame f)).eraseStream sid
      else (s.log (.handleFrame f)).setStream sid (openStream s f)) := by
  intro f
  have type : f.type = FrameType.headers.code := rfl
  have id : f.sid = sid := rfl
  have ends : f.hasFlag Flag.endHeaders = false := by
    show ((if endStream then Flag.endStream else 0) &&& Flag.endHeaders == Flag.endHeaders) = false
    cases endStream <;> decide
  have last : f.hasFlag Flag.endStream = endStream := by
    show ((if endStream then Flag.endStream else 0) &&& Flag.endStream == Flag.endStream) = _
    cases endStream <;> decide
  simp only [handleFrame, dispatch, type, FrameType.ofCode_code, handleHeadersFrame, ends, last,
    id, Bool.false_eq_true, ↓reduceIte, reduceCtorEq]
  rfl

theorem completed_headersFragment {s : Session} {sid : Nat} (endStream : Bool)
    (fresh : s.streams sid = none) (block : Bytes) :
    ∃ strm, completed s (headersFragment sid
        ((if endStream then Flag.endStream else 0) ||| Flag.endHeaders) block) = some strm ∧
      strm.id = sid ∧ strm.weight = 0 ∧ strm.headers = [] ∧ strm.headerFragments = block := by
  generalize hf : headersFragment sid
    ((if endStream then Flag.endStream else 0) ||| Flag.endHeaders) block = f
  have type : f.type = FrameType.headers.code := by rw [← hf]; rfl
  have ends : f.hasFlag Flag.endHeaders = true := by
    rw [← hf]
    show (((if endStream then Flag.endStream else 0) ||| Flag.endHeaders) &&& Flag.endHeaders ==
      Flag.endHeaders) = true
    cases endStream <;> decide
  have id : f.sid = sid := by rw [← hf]; rfl
  have payload : f.payload = block := by rw [← hf]; rfl
  refine ⟨openStream s f, ?_, ?_⟩
  · simp only [completed, ends, type, FrameType.ofCode_code, ↓reduceIte]
  · simp [openStream, id, fresh, payload]

/-! ## The two deliveries -/

/-- One HEADERS frame with a whole block. -/
theorem delivered_whole (env : Env) {s : Session} {sid : Nat} (fresh : s.streams sid = none)
    (endStream : Bool) (block : Bytes) :
    delivered env s (blockFrames sid endStream block []) =
      blockOutcome env s { id := sid, headerFragments := block } := by
  obtain ⟨strm, complete, id, weight, headers, fragments⟩ :=
    completed_headersFragment endStream fresh block
  rw [blockFrames, delivered_completed complete]
  exact blockOutcome_congr env rfl rfl id weight headers fragments

/-- A block's frames leave no trace exactly where it is not answered and the
decoder's table stays. -/
theorem blockOutcome_unchanged_iff (env : Env) (s : Session) (strm : Stream) :
    blockOutcome env s strm = some (s.sent, s.hpackDecoder) ↔
      Unanswered env s strm ∧ (decoded s strm).table = s.hpackDecoder := by
  constructor
  · intro unchanged
    rw [blockOutcome, outcome] at unchanged
    split at unchanged
    · cases unchanged
    · next alive =>
      simp only [Option.some.injEq, Prod.mk.injEq] at unchanged
      have unanswered : Unanswered env s strm := by
        by_contra some
        obtain ⟨answer, answered⟩ := Option.ne_none_iff_exists'.mp some
        rcases processEndHeader_answered answered with
          ⟨aborted, _⟩ | ⟨part, page, put, some, _⟩
        · exact alive aborted
        · rw [Session.submitted, unchanged.1, List.append_assoc] at put
          exact absurd (List.self_eq_append_right.mp put) (by simp [some])
      exact ⟨unanswered, (processEndHeader_unanswered unanswered).2.2 ▸ unchanged.2⟩
  · rintro ⟨unanswered, same⟩
    obtain ⟨exit, sent, table⟩ := processEndHeader_unanswered unanswered
    simp [blockOutcome, outcome, exit, sent, table, same]

/-- **Fragments.** A block in fragments has the effect of the whole block exactly
where END_STREAM is not set, or there is one fragment, or the whole block leaves
no trace either. -/
theorem delivered_alike_iff (env : Env) (s : Session) (sid : Nat) (fresh : s.streams sid = none)
    (endStream : Bool) (first : Bytes) (rest : List Bytes) :
    delivered env s (blockFrames sid endStream first rest) =
        delivered env s (blockFrames sid endStream (first ++ rest.flatten) []) ↔
      endStream = false ∨ rest = [] ∨
        Unanswered env s { id := sid, headerFragments := first ++ rest.flatten } ∧
          (decodeLowmem s.hpackDecoder (first ++ rest.flatten)).table = s.hpackDecoder := by
  cases rest with
  | nil => simp
  | cons fragment rest =>
    have cut : blockFrames sid endStream first (fragment :: rest) =
        headersFragment sid (if endStream then Flag.endStream else 0) first ::
          continuations sid (fragment :: rest) := rfl
    rw [delivered_whole env fresh, cut,
      delivered_cons (handleFrame_headersFragment env s sid endStream first)]
    cases endStream with
    | false =>
      have kept := Session.setStream_same (s.log (.handleFrame (headersFragment sid 0 first)))
        sid (openStream s (headersFragment sid 0 first))
      have opened := delivered_continuations env kept rfl fragment rest
      simp only [Bool.false_eq_true, ↓reduceIte, opened, true_or, iff_true]
      exact blockOutcome_congr env rfl rfl (by simp [openStream, headersFragment, fresh])
        (by simp [openStream, headersFragment, fresh])
        (by simp [openStream, headersFragment, fresh])
        (by simp [openStream, headersFragment, fresh])
    | true =>
      have gone := delivered_lost env (Session.eraseStream_same
        (s.log (.handleFrame (headersFragment sid Flag.endStream first))) sid) (fragment :: rest)
      simp only [↓reduceIte, gone, reduceCtorEq, false_or]
      rw [eq_comm]
      exact blockOutcome_unchanged_iff env s _

/-- A GET for `/` that ends its stream, cut after the first byte. -/
theorem cutRequest_lost :
    ({} : Session).streams 1 = none ∧
      delivered siteEnv {} (blockFrames 1 true [0x82] [[0x84]]) ≠
        delivered siteEnv {} (blockFrames 1 true [0x82, 0x84] []) :=
  ⟨rfl, by decide +kernel⟩

theorem delivered_alike_iff_cutRequest :
    delivered siteEnv {} (blockFrames 1 true [0x82] [[0x84]]) =
        delivered siteEnv {} (blockFrames 1 true ([0x82] ++ [[0x84]].flatten) []) ↔
      true = false ∨ [[0x84]] = ([] : List Bytes) ∨
        Unanswered siteEnv {} { id := 1, headerFragments := [0x82] ++ [[0x84]].flatten } ∧
          (decodeLowmem Table.new ([0x82] ++ [[0x84]].flatten)).table = Table.new :=
  delivered_alike_iff siteEnv {} 1 rfl true [0x82] [[0x84]]

end Http2Server.FrameHandler
