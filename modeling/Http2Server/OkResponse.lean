import Http2Server.Requests

/-!
# What a peer reads of an answer

The whole way of an answer with content: encoded, split, packed, written, cut
into frames again by `toFrames`, and its header block read by any decoder.
-/

namespace Http2Server.FrameHandler

open Hpack

/-- Writes that take all of their bytes. -/
def FullWrites (env : Env) : Prop := ∀ n data, env.sslWrite n data = data.length

theorem FullWrites.succeed {env : Env} (full : FullWrites env) (n : Nat) (buffers : List Bytes) :
    Session.Succeed env n buffers := by
  induction buffers generalizing n with
  | nil => trivial
  | cons buffer rest ih =>
    refine ⟨?_, ih (n + 1)⟩
    rw [full n buffer]
    omega

theorem FullWrites.written {env : Env} (full : FullWrites env) (s : Session) (weight : Int)
    (buffers : List Bytes) :
    (s.afterSend env weight buffers).written = s.written ++ buffers.flatten := by
  have attempts : ∀ n, (Session.attempts env weight n buffers).flatMap Sent.written =
      buffers.flatten := by
    induction buffers with
    | nil => intro n; rfl
    | cons buffer rest ih =>
      intro n
      have whole : env.sslWrite n buffer = buffer.length := full n buffer
      rw [Session.attempts_passed (by rw [whole]; omega), List.flatMap_cons, ih, Sent.written]
      simp [whole]
  rw [Session.written, Session.afterSend, List.flatMap_append, attempts]
  rfl

/-- To the peer, the bytes are a HEADERS frame that any decoder reads as the
headers, then DATA frames with the body; only the last of them ends the stream. -/
def Arrives (sid : Nat) (bytes : Bytes) (headers : Headers) (body : Bytes) : Prop :=
  ∃ hdr init last, Frame.toFrames bytes = some (hdr :: (init ++ [last])) ∧
    hdr.type = FrameType.headers.code ∧ hdr.hasFlag Flag.endHeaders = true ∧
    hdr.hasFlag Flag.endStream = false ∧ hdr.sid = sid ∧
    (∀ t : Table, ∃ t', decodeLowmem t hdr.payload = ⟨.accepted, headers, t'⟩) ∧
    (∀ f ∈ init ++ [last], f.type = FrameType.data.code ∧ f.sid = sid) ∧
    (init ++ [last]).flatMap Frame.payload = body ∧
    (∀ f ∈ init, f.hasFlag Flag.endStream = false) ∧ last.hasFlag Flag.endStream = true

/-- The same bytes are read in one way only. -/
theorem Arrives.unique {sid : Nat} {bytes body body' : Bytes} {headers headers' : Headers}
    (h : Arrives sid bytes headers body) (h' : Arrives sid bytes headers' body') :
    headers = headers' ∧ body = body' := by
  obtain ⟨hdr, init, last, frames, _, _, _, _, read, _, whole, _⟩ := h
  obtain ⟨hdr', init', last', frames', _, _, _, _, read', _, whole', _⟩ := h'
  rw [frames, Option.some.injEq, List.cons.injEq] at frames'
  obtain ⟨rfl, same⟩ := frames'
  obtain ⟨t, decoded⟩ := read Table.new
  obtain ⟨t', decoded'⟩ := read' Table.new
  rw [decoded, Decoded.mk.injEq] at decoded'
  rw [← whole, ← whole', same]
  exact ⟨decoded'.2.1, rfl⟩

theorem not_arrives_nil {sid : Nat} {headers : Headers} {body : Bytes} :
    ¬ Arrives sid [] headers body := by
  rintro ⟨hdr, init, last, frames, _⟩
  cases frames

/-- The buffers of a response with short headers arrive. -/
theorem responseBuffers_arrive {sid : Nat} (hid : sid < 2 ^ 31) {headers : Headers} (body : Bytes)
    (short : ∀ h ∈ headers, h.Short) (few : headers.length ≤ 16) :
    ∃ buffers, responseBuffers sid headers body = some buffers ∧
      Arrives sid buffers.flatten headers body := by
  obtain ⟨block, groups, enc, packed, response, _, plain⟩ :=
    responseBuffers_spec sid body short few
  have parsed : Frame.toFrames (groups.map (·.flatMap Frame.bytes)).flatten =
      some (groups.flatten.map Frame.onWire) := by
    rw [← Frame.toFrames_bytes plain, ← List.flatMap_def, List.flatten_eq_flatMap,
      List.flatMap_assoc]
    rfl
  obtain ⟨init, last, frames, whole, each, final⟩ := response.onWire
  rw [Nat.mod_eq_of_lt hid] at frames each final
  refine ⟨_, packed, headersFrame sid block, init, last, by rw [parsed, frames], rfl,
    by rw [hasFlag_headersFrame]; decide, by rw [hasFlag_headersFrame]; decide, rfl,
    ?_, ?_, whole, ?_, ?_⟩
  · intro t
    obtain ⟨block', t', enc', read⟩ := Encoder.decode_encodeAll .new t short
    rw [enc] at enc'
    cases enc'
    exact ⟨t', read⟩
  · intro f hf
    rcases List.mem_append.mp hf with hf | hf
    · rw [each f hf]
      exact ⟨rfl, rfl⟩
    · rw [List.mem_singleton.mp hf, final]
      exact ⟨rfl, rfl⟩
  · intro f hf
    rw [each f hf, hasFlag_dataFrame]
    decide
  · rw [final, hasFlag_dataFrame]
    decide

/-- **An answer arrives as it was meant.** The bytes `respondGet` writes are, to
the peer, one HEADERS frame that any decoder reads as the six headers, then DATA
frames with the content; only the last of them ends the stream. -/
theorem respondGet_arrives (env : Env) (s : Session) (strm : Stream) (path : Bytes)
    (content : ResponseData) (hid : strm.id < 2 ^ 31)
    (requested : strm.headers.first (ascii ":path") = some path)
    (shortPath : path.length < 127)
    (found : env.binder.getContent env.files path = some content)
    (nonempty : content.data ≠ []) (size : content.data.length < 2 ^ 64)
    (full : FullWrites env) :
    ∃ s' bytes hdr init last,
      respondGet env s strm = (.returned true, s') ∧
      s'.written = s.written ++ bytes ∧
      Frame.toFrames bytes = some (hdr :: (init ++ [last])) ∧
      hdr.type = FrameType.headers.code ∧ hdr.hasFlag Flag.endHeaders = true ∧
      hdr.hasFlag Flag.endStream = false ∧ hdr.sid = strm.id ∧
      (∀ t : Table, ∃ t', decodeLowmem t hdr.payload = ⟨.accepted,
        [⟨ascii ":status", ascii "200"⟩, ⟨ascii "cache-control", ascii "private"⟩,
         ⟨ascii "content-type", content.mimeType⟩,
         ⟨ascii "content-length", decimal content.data.length⟩,
         ⟨ascii "location", path⟩, ⟨ascii "server", ascii "HTTP2Server/1.0"⟩], t'⟩) ∧
      (∀ f ∈ init ++ [last], f.type = FrameType.data.code ∧ f.sid = strm.id) ∧
      (init ++ [last]).flatMap Frame.payload = content.data ∧
      (∀ f ∈ init, f.hasFlag Flag.endStream = false) ∧ last.hasFlag Flag.endStream = true := by
  obtain ⟨file, mime⟩ := WebBinder.getContent_mimeType found
  have short := short_okHeaders shortPath
    (mime ▸ ResponseData.length_getMimeType file) size
  obtain ⟨buffers, packed, hdr, init, last, arrived⟩ :=
    responseBuffers_arrive hid content.data short (by simp [okHeaders])
  have sent : respondGet env s strm = (.returned true,
      (s.log (.respondGet strm.id)).afterSend env strm.weight buffers) := by
    have hne := responseBuffers_ne_nil packed (by simp [okHeaders])
    simp only [respondGet, requested, found, nonempty, ↓reduceIte, sendResponse, packed,
      Session.sendAll_eq env strm.weight hne, full.succeed, decide_true]
  exact ⟨_, _, hdr, init, last, sent, full.written _ _ _, arrived⟩

theorem respondGet_arrives_site :
    ∃ s' hdr init last,
      respondGet siteEnv {} { id := 1, headers := [entry ":path" "/"] } = (.returned true, s') ∧
      Frame.toFrames s'.written = some (hdr :: (init ++ [last])) ∧
      hdr.hasFlag Flag.endStream = false ∧
      (init ++ [last]).flatMap Frame.payload = ascii "<p>cool</p>" ∧
      last.hasFlag Flag.endStream = true := by
  obtain ⟨s', bytes, hdr, init, last, ok, wrote, parsed, _, _, opened, _, _, _, whole, _, ends⟩ :=
    respondGet_arrives siteEnv {} { id := 1, headers := [entry ":path" "/"] } (ascii "/")
      ⟨ascii "text/html", ascii "<p>cool</p>"⟩ (by decide) (by decide +kernel) (by decide)
      (by decide +kernel) (by decide) (by decide) (fun _ _ => rfl)
  rw [show ({} : Session).written = [] from rfl, List.nil_append] at wrote
  exact ⟨s', hdr, init, last, ok, by rw [wrote, parsed], opened, whole, ends⟩

end Http2Server.FrameHandler
