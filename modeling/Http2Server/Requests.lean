import Http2Server.FrameHandler
import Http2Server.Hpack.RoundTrip

/-!
# Answering a request

What `processEndHeader` does with a completed header block, one lemma for each
way it can go, and the frames of the responses it sends.

- `processEndHeader_eq`: a request is answered when its block decodes without
  an exception and there is a `:path`; the method plays no part.
- `responseBuffers_spec`: a response is a HEADERS frame and DATA frames.
- `serve_eq`: what is sent for a request, whichever way it goes.
- `processEndHeader_invariant`: what calling and sending keep, a block keeps.
-/

namespace Http2Server.FrameHandler

open Hpack

/-! ## The method -/

theorem bestMatchName_method (t : Table) : t.bestMatchName (ascii ":method") = 2 := by
  have static : Table.scan (ascii ":method" == ·.name) staticTable.tail 1 = some 2 := by
    decide +kernel
  rw [Table.bestMatchName, static]
  rfl

/-- Whatever was received, the method read is the static table's GET. -/
theorem lookup_method (t : Table) : t.lookup 2 = some (entry ":method" "GET") := rfl

/-! ## A completed block -/

def decoded (s : Session) (strm : Stream) : Decoded :=
  decodeLowmem s.hpackDecoder strm.headerFragments

/-- The `:path` a completed block is answered with, if it is: no exception from
the decoder, and a `:path` among the stream's headers. -/
def requestPath (s : Session) (strm : Stream) : Option Bytes :=
  if (decoded s strm).verdict = .threw then none
  else Headers.first (strm.headers ++ (decoded s strm).headers) (ascii ":path")

/-- The stream after its block. -/
def received (s : Session) (strm : Stream) : Stream :=
  let d := decoded s strm
  if d.verdict = .threw then { strm with headers := strm.headers ++ d.headers }
  else
    { strm with
      headers := strm.headers ++ d.headers
      state := .halfClosedRemote
      endHeader := true
      headerFragments := [] }

section
variable (s : Session) (strm : Stream)

theorem received_id : (received s strm).id = strm.id := by
  unfold received
  dsimp only
  split <;> rfl

theorem received_weight : (received s strm).weight = strm.weight := by
  unfold received
  dsimp only
  split <;> rfl

theorem received_data : (received s strm).data = strm.data := by
  unfold received
  dsimp only
  split <;> rfl

theorem received_headers :
    (received s strm).headers = strm.headers ++ (decoded s strm).headers := by
  unfold received
  dsimp only
  split <;> rfl

theorem received_state (h : (decoded s strm).verdict ≠ .threw) :
    (received s strm).state = .halfClosedRemote := by
  unfold received
  dsimp only
  rw [if_neg h]

end

theorem first_received {s : Session} {strm : Stream} {path : Bytes}
    (h : requestPath s strm = some path) :
    (received s strm).headers.first (ascii ":path") = some path := by
  rw [received_headers]
  unfold requestPath at h
  split at h
  · cases h
  · exact h

/-- **The completed block.** The table is the decoder's in any case; the request
is served exactly when it has a path. -/
theorem processEndHeader_eq (env : Env) (s : Session) (strm : Stream) :
    processEndHeader env s strm =
      if requestPath s strm = none then
        (.returned false, received s strm, { s with hpackDecoder := (decoded s strm).table })
      else
        let r := serve env { s with hpackDecoder := (decoded s strm).table } (received s strm)
        (r.1, received s strm, r.2) := by
  simp only [processEndHeader, bestMatchName_method, lookup_method, requestPath,
    received, ← decoded.eq_1]
  split
  · rfl
  · simp only [OfNat.ofNat_ne_zero, ↓reduceIte]
    cases Headers.first (strm.headers ++ (decoded s strm).headers) (ascii ":path") <;> rfl

/-! ## The frames of a response -/

def headersFrame (sid : Nat) (block : Bytes) : Frame :=
  { type := FrameType.headers.code, flags := Flag.endHeaders, sid, payload := block }

def dataFrame (sid : Nat) (flags : Byte) (payload : Bytes) : Frame :=
  { type := FrameType.data.code, flags, sid, payload }

theorem hasFlag_headersFrame (sid : Nat) (block : Bytes) (bit : Byte) :
    (headersFrame sid block).hasFlag bit = (Flag.endHeaders &&& bit == bit) := rfl

theorem hasFlag_dataFrame (sid : Nat) (flags : Byte) (payload : Bytes) (bit : Byte) :
    (dataFrame sid flags payload).hasFlag bit = (flags &&& bit == bit) := rfl

/-- A HEADERS frame with the block, then DATA frames with the body between them,
END_STREAM on the last only. -/
def IsResponse (sid : Nat) (block body : Bytes) (fs : List Frame) : Prop :=
  ∃ init last, fs = headersFrame sid block :: (init ++ [last]) ∧
    (init ++ [last]).flatMap Frame.payload = body ∧
    (∀ g ∈ init, g = dataFrame sid 0 g.payload) ∧
    last = dataFrame sid Flag.endStream last.payload

theorem plain_headersFrame {sid : Nat} {block : Bytes} (small : block.length < 2 ^ 24) :
    (headersFrame sid block).Plain :=
  Frame.plain_of_flags (by decide) (by decide) small

theorem plain_dataFrame {sid : Nat} {flags : Byte} {payload : Bytes}
    (unpadded : flags = 0 ∨ flags = Flag.endStream) (small : payload.length < 2 ^ 24) :
    (dataFrame sid flags payload).Plain := by
  rcases unpadded with rfl | rfl <;> exact Frame.plain_of_flags (by decide) (by decide) small

theorem IsResponse.onWire {sid : Nat} {block body : Bytes} {fs : List Frame}
    (h : IsResponse sid block body fs) :
    IsResponse (sid % 2 ^ 31) block body (fs.map Frame.onWire) := by
  obtain ⟨init, last, rfl, whole, each, final⟩ := h
  refine ⟨init.map Frame.onWire, last.onWire, by simp [headersFrame, Frame.onWire], ?_, ?_, ?_⟩
  · have same : ∀ gs : List Frame, (gs.map Frame.onWire).flatMap Frame.payload =
        gs.flatMap Frame.payload := fun gs => by simp [List.flatMap_map, Frame.onWire]
    rw [← whole, ← same (init ++ [last]), List.map_append]
    rfl
  · intro g hg
    obtain ⟨f, hf, rfl⟩ := List.mem_map.mp hg
    rw [each f hf]
    rfl
  · rw [final]
    rfl

/-- **A response.** Short headers give a response that is packed into buffers of
whole plain frames, none empty, and none longer than a piece. -/
theorem responseBuffers_fits (sid : Nat) {headers : Headers} (body : Bytes)
    (short : ∀ h ∈ headers, h.Short) (few : headers.length ≤ 16) :
    ∃ (block : Bytes) (groups : List (List Frame)), Encoder.new.encodeAll headers = some block ∧
      responseBuffers sid headers body = some (groups.map (·.flatMap Frame.bytes)) ∧
      IsResponse sid block body groups.flatten ∧ [] ∉ groups ∧
      ∀ f ∈ groups.flatten, f.Plain ∧ f.payload.length ≤ maxFrameSize := by
  obtain ⟨block, _, enc, _⟩ := Encoder.decode_encodeAll .new Table.new short
  have small : block.length ≤ 15424 :=
    Nat.le_trans (Encoder.length_encodeAll_le enc) (by omega)
  obtain ⟨init, last, split, whole, each, final, bound⟩ :=
    Response.pieces_of FrameType.data.code Flag.endStream sid body rfl
  have frames : (responseFrames sid block body).processFrames =
      ⟨headersFrame sid block :: (init ++ [last])⟩ := by
    have whole : Response.pieces (headersFrame sid block) = [headersFrame sid block] := by
      rw [Response.pieces, if_neg]
      simp only [headersFrame, maxFrameSize]
      omega
    simp only [responseFrames, Response.addFrame, Response.processFrames, List.nil_append,
      List.cons_append, List.flatMap_cons, List.flatMap_nil, List.append_nil, split]
    rw [← headersFrame.eq_1, whole]
    rfl
  have fits : ∀ f ∈ headersFrame sid block :: (init ++ [last]),
      f.payload.length ≤ maxFrameSize := by
    intro f hf
    rcases List.mem_cons.mp hf with rfl | hf
    · simp only [headersFrame, maxFrameSize]
      omega
    · exact bound f hf
  have plain : ∀ f ∈ headersFrame sid block :: (init ++ [last]), f.Plain := by
    intro f hf
    have small : f.payload.length < 2 ^ 24 := by
      have := fits f hf
      simp only [maxFrameSize] at this
      omega
    rcases List.mem_cons.mp hf with rfl | hf
    · exact plain_headersFrame small
    · rcases List.mem_append.mp hf with hg | hg
      · rw [each f hg]
        exact plain_dataFrame (.inl rfl) small
      · rw [List.mem_singleton.mp hg] at small ⊢
        rw [final]
        exact plain_dataFrame (.inr rfl) small
  obtain ⟨groups, all, packed, full⟩ := Response.encodeFrames_groups (headersFrame sid block)
    (init ++ [last]) (fun g hg => (plain g hg).small) (by
      simp only [headersFrame, maxFrameSize]
      omega)
  refine ⟨block, groups, enc, ?_, ⟨init, last, all, whole, each, final⟩, full, ?_⟩
  · rw [responseBuffers, enc, Option.bind_some, frames, packed]
  · intro f hf
    rw [all] at hf
    exact ⟨plain f hf, fits f hf⟩

theorem responseBuffers_spec (sid : Nat) {headers : Headers} (body : Bytes)
    (short : ∀ h ∈ headers, h.Short) (few : headers.length ≤ 16) :
    ∃ (block : Bytes) (groups : List (List Frame)), Encoder.new.encodeAll headers = some block ∧
      responseBuffers sid headers body = some (groups.map (·.flatMap Frame.bytes)) ∧
      IsResponse sid block body groups.flatten ∧ [] ∉ groups ∧
      ∀ f ∈ groups.flatten, f.Plain := by
  obtain ⟨block, groups, enc, packed, response, full, each⟩ :=
    responseBuffers_fits sid body short few
  exact ⟨block, groups, enc, packed, response, full, fun f hf => (each f hf).1⟩

/-- Headers that are too long never get as far as buffers. -/
theorem responseBuffers_some {sid : Nat} {headers : Headers} {body : Bytes}
    {buffers : List Bytes} (h : responseBuffers sid headers body = some buffers)
    (few : headers.length ≤ 16) :
    ∃ (block : Bytes) (groups : List (List Frame)),
      Encoder.new.encodeAll headers = some block ∧
      buffers = groups.map (·.flatMap Frame.bytes) ∧
      IsResponse sid block body groups.flatten ∧ [] ∉ groups ∧
      ∀ f ∈ groups.flatten, f.Plain := by
  obtain ⟨_, enc, _⟩ := Option.bind_eq_some_iff.mp h
  obtain ⟨block, groups, enc, packed, spec⟩ :=
    responseBuffers_spec sid body (Encoder.short_of_encodeAll enc) few
  rw [h] at packed
  exact ⟨block, groups, enc, Option.some.inj packed, spec⟩

theorem IsResponse.groups_ne_nil {sid : Nat} {block body : Bytes} {groups : List (List Frame)}
    (h : IsResponse sid block body groups.flatten) : groups ≠ [] := by
  rintro rfl
  obtain ⟨init, last, empty, _⟩ := h
  simp at empty

/-! ## Serving -/

theorem short_okHeaders {path : Bytes} {content : ResponseData}
    (shortPath : path.length < 127) (mime : content.mimeType.length < 127)
    (size : content.data.length < 2 ^ 64) : ∀ h ∈ okHeaders path content, h.Short := by
  have digits : (decimal content.data.length).length ≤ 20 :=
    length_decimal_le (by omega) (by omega)
  simp only [okHeaders, List.forall_mem_cons, List.not_mem_nil, false_implies, implies_true,
    and_true, Header.Short]
  refine ⟨by decide, by decide, ⟨by decide, mime⟩, ⟨by decide, by omega⟩,
    ⟨by decide, shortPath⟩, by decide⟩

theorem errorPage_ne_nil (errorCode : Nat) :
    (WebBinder.getErrorPage errorCode).data ≠ [] := by
  rw [WebBinder.getErrorPage, show ascii "<!DOCTYPE html><html><head><title>Error " =
    0x3c :: ascii "!DOCTYPE html><html><head><title>Error " from rfl]
  simp

theorem short_errorHeaders :
    ∀ h ∈ errorHeaders 404 (WebBinder.getErrorPage 404), h.Short := by decide +kernel

/-- The buffers of the page for a request without content. -/
def errorBuffers (sid : Nat) : List Bytes :=
  (responseBuffers sid (errorHeaders 404 (WebBinder.getErrorPage 404))
    (WebBinder.getErrorPage 404).data).getD []

theorem errorBuffers_spec (sid : Nat) :
    ∃ (block : Bytes) (groups : List (List Frame)),
      errorBuffers sid = groups.map (·.flatMap Frame.bytes) ∧
      IsResponse sid block (WebBinder.getErrorPage 404).data groups.flatten ∧ [] ∉ groups ∧
      ∀ f ∈ groups.flatten, f.Plain := by
  obtain ⟨block, groups, _, packed, spec⟩ := responseBuffers_spec sid
    (WebBinder.getErrorPage 404).data short_errorHeaders (by decide)
  exact ⟨block, groups, by rw [errorBuffers, packed, Option.getD_some], spec⟩

theorem responseBuffers_ne_nil {sid : Nat} {headers : Headers} {body : Bytes}
    {buffers : List Bytes} (h : responseBuffers sid headers body = some buffers)
    (few : headers.length ≤ 16) : buffers ≠ [] := by
  obtain ⟨_, groups, _, rfl, response, _⟩ := responseBuffers_some h few
  simpa using response.groups_ne_nil

/-- A response that is packed is sent, as far as the writes succeed. -/
theorem sendResponse_eq (env : Env) (s : Session) (strm : Stream) {headers : Headers}
    {body : Bytes} {buffers : List Bytes}
    (packed : responseBuffers strm.id headers body = some buffers) (few : headers.length ≤ 16) :
    sendResponse env s strm headers body =
      (.returned (decide (Session.Succeed env s.sent.length buffers)),
        s.afterSend env strm.weight buffers) := by
  simp only [sendResponse, packed,
    Session.sendAll_eq env strm.weight (responseBuffers_ne_nil packed few)]

theorem errorBuffers_some (sid : Nat) :
    responseBuffers sid (errorHeaders 404 (WebBinder.getErrorPage 404))
      (WebBinder.getErrorPage 404).data = some (errorBuffers sid) := by
  obtain ⟨_, groups, _, packed, _⟩ := responseBuffers_spec sid
    (WebBinder.getErrorPage 404).data short_errorHeaders (by decide)
  rw [errorBuffers, packed, Option.getD_some]

theorem showErrorPage_eq (env : Env) (s : Session) (strm : Stream) :
    showErrorPage env s strm 404 =
      (.returned (decide (Session.Succeed env s.sent.length (errorBuffers strm.id))),
        s.afterSend env strm.weight (errorBuffers strm.id)) := by
  rw [showErrorPage, if_neg (errorPage_ne_nil 404)]
  exact sendResponse_eq env s strm (errorBuffers_some strm.id) (by decide)

/-- The buffers of an answer with content. -/
def okBuffers (strm : Stream) (path : Bytes) (content : ResponseData) : Option (List Bytes) :=
  responseBuffers strm.id (okHeaders path content) content.data

theorem respondGet_eq (env : Env) (s : Session) (strm : Stream) {path : Bytes}
    (h : strm.headers.first (ascii ":path") = some path) :
    respondGet env s strm =
      match env.binder.getContent env.files path with
      | none => (.threw, s.log (.respondGet strm.id))
      | some content =>
        if content.data = [] then (.returned false, s.log (.respondGet strm.id))
        else match okBuffers strm path content with
          | none => (.aborted, s.log (.respondGet strm.id))
          | some buffers =>
            (.returned (decide (Session.Succeed env
                (s.log (.respondGet strm.id)).sent.length buffers)),
              (s.log (.respondGet strm.id)).afterSend env strm.weight buffers) := by
  simp only [respondGet, h]
  cases env.binder.getContent env.files path with
  | none => rfl
  | some content =>
    by_cases empty : content.data = []
    · simp only [empty, ↓reduceIte]
    · simp only [empty, ↓reduceIte]
      cases packed : okBuffers strm path content with
      | none =>
        rw [okBuffers] at packed
        rw [sendResponse, packed]
      | some buffers => exact sendResponse_eq env _ strm packed (by simp [okHeaders])

/-- **Serving.** Without content, or where a write of the answer fails, the error
page is sent; an exception from the file system sends nothing. -/
theorem serve_eq (env : Env) (s : Session) (strm : Stream) {path : Bytes}
    (h : strm.headers.first (ascii ":path") = some path) :
    serve env s strm =
      let s := s.log (.respondGet strm.id)
      match env.binder.getContent env.files path with
      | none => (.returned false, s)
      | some content =>
        if content.data = [] then
          (.returned false, s.afterSend env strm.weight (errorBuffers strm.id))
        else match okBuffers strm path content with
          | none => (.aborted, s)
          | some buffers =>
            if Session.Succeed env s.sent.length buffers then
              (.returned true, s.afterSend env strm.weight buffers)
            else
              (.returned false, (s.afterSend env strm.weight buffers).afterSend env strm.weight
                (errorBuffers strm.id)) := by
  simp only [serve, respondGet_eq env s strm h, showErrorPage_eq]
  cases env.binder.getContent env.files path with
  | none => rfl
  | some content =>
    by_cases empty : content.data = []
    · simp only [empty, ↓reduceIte]
    · simp only [empty, ↓reduceIte]
      cases okBuffers strm path content with
      | none => rfl
      | some buffers =>
        by_cases ok : Session.Succeed env (s.log (.respondGet strm.id)).sent.length buffers
        · simp only [ok, decide_true, ↓reduceIte]
        · simp only [ok, decide_false, ↓reduceIte]

/-- What holds after the call has been logged and does not depend on what is sent
holds when the request has been served. -/
theorem serve_invariant {P : Session → Prop} (env : Env) {s : Session} {strm : Stream}
    {path : Bytes} (h : strm.headers.first (ascii ":path") = some path)
    (called : P (s.log (.respondGet strm.id)))
    (sending : ∀ s headers body buffers, responseBuffers strm.id headers body = some buffers →
      headers.length ≤ 16 → P s → P (s.afterSend env strm.weight buffers)) :
    P (serve env s strm).2 := by
  have failing (s : Session) (before : P s) :
      P (s.afterSend env strm.weight (errorBuffers strm.id)) :=
    sending s _ _ _ (errorBuffers_some strm.id) (by decide) before
  rw [serve_eq env s strm h]
  dsimp only
  split
  · exact called
  · split
    · exact failing _ called
    · split
      · exact called
      · next content _ buffers packed =>
        have answered := sending _ _ _ _ packed (by simp [okHeaders]) called
        split
        · exact answered
        · exact failing _ answered

/-- The same for a completed block, whose table is put in place first. -/
theorem processEndHeader_invariant {P : Session → Prop} (env : Env) {s : Session} (strm : Stream)
    (table : P { s with hpackDecoder := (decoded s strm).table })
    (calling : ∀ s sid, P s → P (s.log (.respondGet sid)))
    (sending : ∀ s sid weight headers body buffers,
      responseBuffers sid headers body = some buffers → headers.length ≤ 16 → P s →
        P (s.afterSend env weight buffers)) :
    P (processEndHeader env s strm).2.2 := by
  rw [processEndHeader_eq]
  split
  · exact table
  · next some =>
    obtain ⟨path, requested⟩ := Option.ne_none_iff_exists'.mp some
    apply serve_invariant env (first_received requested)
    · exact calling _ _ table
    · intro s headers body buffers packed few before
      exact sending s _ _ headers body buffers packed few before

/-- What serving a request does besides sending: one call in the log. -/
theorem serve_keeps (env : Env) (s : Session) (strm : Stream) {path : Bytes}
    (h : strm.headers.first (ascii ":path") = some path) :
    (serve env s strm).2.calls = s.calls ++ [.respondGet strm.id] ∧
      (serve env s strm).2.hpackDecoder = s.hpackDecoder ∧
      (serve env s strm).2.streams = s.streams := by
  apply serve_invariant env h (P := fun s' => s'.calls = s.calls ++ [Call.respondGet strm.id] ∧
    s'.hpackDecoder = s.hpackDecoder ∧ s'.streams = s.streams)
  · exact ⟨rfl, rfl, rfl⟩
  · intro _ _ _ _ _ _ kept
    exact kept

/-- The stream map is left to the caller. -/
theorem processEndHeader_streams (env : Env) (s : Session) (strm : Stream) :
    (processEndHeader env s strm).2.2.streams = s.streams := by
  apply processEndHeader_invariant env strm (P := (·.streams = s.streams)) rfl
  · exact fun _ _ kept => kept
  · exact fun _ _ _ _ _ _ _ _ kept => kept

theorem processEndHeader_stream (env : Env) (s : Session) (strm : Stream) :
    (processEndHeader env s strm).2.1 = received s strm := by
  rw [processEndHeader_eq]
  split <;> rfl

/-- The answer depends on the stream's id and weight and on the writes so far. -/
theorem serve_congr (env : Env) {s s' : Session} {strm strm' : Stream} {path : Bytes}
    (h : strm.headers.first (ascii ":path") = some path)
    (h' : strm'.headers.first (ascii ":path") = some path) (id : strm.id = strm'.id)
    (weight : strm.weight = strm'.weight) (sent : s.sent = s'.sent) :
    (serve env s strm).1 = (serve env s' strm').1 ∧
      (serve env s strm).2.sent = (serve env s' strm').2.sent := by
  rw [serve_eq env s strm h, serve_eq env s' strm' h']
  simp only [okBuffers, id, weight, Session.log, Session.afterSend, sent]
  cases env.binder.getContent env.files path with
  | none => exact ⟨rfl, rfl⟩
  | some content =>
    by_cases empty : content.data = []
    · simp only [empty, ↓reduceIte, and_self]
    · rcases packed : responseBuffers strm'.id (okHeaders path content) content.data with
        _ | buffers
      · simp only [empty, packed, ↓reduceIte, and_self]
      · by_cases ok : Session.Succeed env s'.sent.length buffers
        · simp only [empty, packed, ok, ↓reduceIte, and_self]
        · simp only [empty, packed, ok, ↓reduceIte, and_self]

/-! ## Answers -/

/-- What a completed block is answered with: the path, and its content. -/
def answerOf (env : Env) (s : Session) (strm : Stream) : Option (Bytes × ResponseData) :=
  (requestPath s strm).bind fun path =>
    (env.binder.getContent env.files path).map fun content => (path, content)

/-- Nothing is sent for the block: the decoder threw, there is no path to answer,
or looking it up ends in an exception. -/
def Unanswered (env : Env) (s : Session) (strm : Stream) : Prop := answerOf env s strm = none

/-- One response is sent: there is no content, so that it is the error page, or
every write of the content succeeds. -/
def Unbroken (env : Env) (s : Session) (strm : Stream) (answer : Bytes × ResponseData) : Prop :=
  answer.2.data = [] ∨ ∀ buffers ∈ okBuffers strm answer.1 answer.2,
    Session.Succeed env s.sent.length buffers

instance (env : Env) (s : Session) (strm : Stream) (answer : Bytes × ResponseData) :
    Decidable (Unbroken env s strm answer) :=
  inferInstanceAs (Decidable (_ ∨ _))

/-- An unanswered block ends in false, with nothing sent. -/
theorem processEndHeader_unanswered {env : Env} {s : Session} {strm : Stream}
    (h : Unanswered env s strm) :
    (processEndHeader env s strm).1 = .returned false ∧
      (processEndHeader env s strm).2.2.sent = s.sent ∧
      (processEndHeader env s strm).2.2.hpackDecoder = (decoded s strm).table := by
  rw [processEndHeader_eq]
  split
  · exact ⟨rfl, rfl, rfl⟩
  · next some =>
    obtain ⟨path, hpath⟩ := Option.ne_none_iff_exists'.mp some
    have missing : env.binder.getContent env.files path = none := by
      simpa [Unanswered, answerOf, hpath] using h
    rw [serve_eq env _ _ (first_received hpath), missing]
    exact ⟨rfl, rfl, rfl⟩

/-- The first frames of a response on a stream, as the peer sees them. -/
def PartOf (sid : Nat) (part : List Frame) : Prop :=
  ∃ block body fs, IsResponse (sid % 2 ^ 31) block body fs ∧ part <+: fs

theorem PartOf.nil (sid : Nat) : PartOf sid [] :=
  ⟨[], [], _, ⟨[], dataFrame (sid % 2 ^ 31) Flag.endStream [], rfl, rfl, by simp, rfl⟩,
    List.nil_prefix⟩

/-- Sending a response submits its frames in order, at least the first. -/
theorem submitted_response (s : Session) (env : Env) (weight : Int) {sid : Nat}
    {block body : Bytes} {groups : List (List Frame)}
    (response : IsResponse sid block body groups.flatten) (full : [] ∉ groups)
    (plain : ∀ f ∈ groups.flatten, f.Plain) :
    ∃ part, (s.afterSend env weight (groups.map (·.flatMap Frame.bytes))).submitted =
      s.submitted ++ part ∧ part ≠ [] ∧ PartOf sid part := by
  obtain ⟨tried, first, some, submitted, _⟩ :=
    s.submitted_afterSend env weight response.groups_ne_nil plain
  refine ⟨_, submitted, ?_, block, body, _, response.onWire, first.flatten.map Frame.onWire⟩
  obtain ⟨group, tried, rfl⟩ := List.exists_cons_of_ne_nil some
  have held : group ≠ [] := by
    rintro rfl
    exact full (first.subset (by simp))
  simp [held]

/-- **Answers.** A block that is answered ends the process or submits a response,
and after one that is broken off an error page. -/
theorem processEndHeader_answered {env : Env} {s : Session} {strm : Stream}
    {answer : Bytes × ResponseData} (h : answerOf env s strm = some answer) :
    (processEndHeader env s strm).1 = .aborted ∧
        (processEndHeader env s strm).2.2.sent = s.sent ∨
      ∃ part page, (processEndHeader env s strm).2.2.submitted = s.submitted ++ part ++ page ∧
        part ≠ [] ∧ PartOf strm.id part ∧ PartOf strm.id page ∧
        (Unbroken env s strm answer → page = []) := by
  obtain ⟨path, hpath, h⟩ := Option.bind_eq_some_iff.mp h
  obtain ⟨content, found, rfl⟩ := Option.map_eq_some_iff.mp h
  rw [processEndHeader_eq, hpath]
  simp only [reduceCtorEq, ↓reduceIte]
  rw [serve_eq env _ _ (first_received hpath), found]
  simp only [okBuffers, received_id, received_weight]
  generalize hs : Session.log { s with hpackDecoder := (decoded s strm).table } _ = s'
  have same : s'.submitted = s.submitted ∧ s'.sent = s.sent := by
    rw [← hs]
    exact ⟨rfl, rfl⟩
  obtain ⟨_, pages, packed, response, full, plain⟩ := errorBuffers_spec strm.id
  rw [packed]
  split
  · obtain ⟨part, submitted, some, first⟩ :=
      submitted_response s' env strm.weight response full plain
    refine .inr ⟨part, [], ?_, some, first, .nil _, fun _ => rfl⟩
    rw [submitted, same.1, List.append_nil]
  · next nonempty =>
    split
    · exact .inl ⟨rfl, same.2⟩
    · next buffers hbuffers =>
      obtain ⟨_, groups, _, rfl, response', full', plain'⟩ :=
        responseBuffers_some hbuffers (by simp [okHeaders])
      obtain ⟨part, submitted, some, first⟩ :=
        submitted_response s' env strm.weight response' full' plain'
      split
      · refine .inr ⟨part, [], ?_, some, first, .nil _, fun _ => rfl⟩
        rw [submitted, same.1, List.append_nil]
      · next failed =>
        obtain ⟨page, after, _, error⟩ := submitted_response
          (s'.afterSend env strm.weight (groups.map (·.flatMap Frame.bytes))) env strm.weight
          response full plain
        refine .inr ⟨part, page, ?_, some, first, error, ?_⟩
        · rw [after, submitted, same.1]
        · rintro (empty | unbroken)
          · exact absurd empty nonempty
          · exact absurd (unbroken _ hbuffers) (same.2 ▸ failed)

/-- The first frame of a response is its HEADERS frame. -/
theorem PartOf.head {sid : Nat} {part : List Frame} (h : PartOf sid part) (hne : part ≠ []) :
    ∃ f ∈ part, f.type = FrameType.headers.code := by
  obtain ⟨block, body, _, ⟨init, last, rfl, _⟩, first⟩ := h
  obtain ⟨f, part, rfl⟩ := List.exists_cons_of_ne_nil hne
  obtain ⟨rfl, _⟩ := List.cons_prefix_cons.mp first
  exact ⟨_, List.mem_cons_self, rfl⟩

end Http2Server.FrameHandler
