import Http2Server.Requests

/-!
# Requests that end the process

`Encoder::encode` aborts on a name or a value of 127 bytes, which no `try`
catches. An answer repeats the path of its request in `location`; an error page
does not. `survives_iff` says which requests the server survives.
-/

namespace Http2Server.FrameHandler

open Hpack

theorem length_decimal_iff (n : Nat) : (decimal n).length < 127 ↔ n < 10 ^ 126 := by
  rw [decimal, List.length_map, ← Nat.length_toDigits_le_iff (by decide) (by decide)]
  omega

/-- A path that fits a header, and a length that does, as every length does. -/
def Encodable (answer : Bytes × ResponseData) : Prop :=
  answer.1.length < 127 ∧ answer.2.data.length < 10 ^ 126

theorem short_okHeaders_iff {path : Bytes} {content : ResponseData}
    (mime : content.mimeType.length < 127) :
    (∀ h ∈ okHeaders path content, h.Short) ↔ Encodable (path, content) := by
  constructor
  · intro short
    have location := short ⟨ascii "location", path⟩ (by simp [okHeaders])
    have length := short ⟨ascii "content-length", decimal content.data.length⟩
      (by simp [okHeaders])
    exact ⟨location.2, (length_decimal_iff _).mp length.2⟩
  · rintro ⟨path, size⟩
    simp only [okHeaders, List.forall_mem_cons, List.not_mem_nil, false_implies, implies_true,
      and_true, Header.Short]
    exact ⟨by decide, by decide, ⟨by decide, mime⟩,
      ⟨by decide, (length_decimal_iff _).mpr size⟩, ⟨by decide, path⟩, by decide⟩

/-- An answer is packed unless one of its headers is too long; no frame of it is. -/
theorem okBuffers_iff (strm : Stream) {path : Bytes} {content : ResponseData}
    (mime : content.mimeType.length < 127) :
    okBuffers strm path content ≠ none ↔ Encodable (path, content) := by
  rw [← short_okHeaders_iff mime]
  constructor
  · intro packed
    obtain ⟨buffers, packed⟩ := Option.ne_none_iff_exists'.mp packed
    obtain ⟨block, encoded, _⟩ := Option.bind_eq_some_iff.mp packed
    exact Encoder.short_of_encodeAll encoded
  · intro short
    obtain ⟨_, groups, _, packed, _⟩ :=
      responseBuffers_spec strm.id content.data short (by simp [okHeaders])
    rw [okBuffers, packed]
    exact Option.some_ne_none _

/-- Serving a request does not come to a call to `abort`. -/
def Survived (env : Env) (s : Session) (strm : Stream) : Prop :=
  (processEndHeader env s strm).1 ≠ .aborted

instance (env : Env) (s : Session) (strm : Stream) : Decidable (Survived env s strm) :=
  inferInstanceAs (Decidable (¬ _))

/-- **Aborts.** The server survives a request exactly where it is not answered
with content, or its path is shorter than 127 bytes. -/
theorem survives_iff (env : Env) (s : Session) (strm : Stream) :
    Survived env s strm ↔ ∀ answer, answerOf env s strm = some answer →
      answer.2.data ≠ [] → Encodable answer := by
  rw [Survived, processEndHeader_eq, answerOf]
  split
  · next none => simp [none]
  · next some =>
    obtain ⟨path, requested⟩ := Option.ne_none_iff_exists'.mp some
    dsimp only
    rw [serve_eq env _ _ (first_received requested), requested]
    dsimp only [Option.bind_some]
    cases found : env.binder.getContent env.files path with
    | none => simp
    | some content =>
      obtain ⟨file, mime⟩ := WebBinder.getContent_mimeType found
      have packed : okBuffers (received s strm) path content ≠ none ↔ Encodable (path, content) :=
        okBuffers_iff (received s strm) (mime ▸ ResponseData.length_getMimeType file)
      simp only [Option.map_some, Option.some.injEq, forall_eq']
      by_cases empty : content.data = []
      · simp [empty]
      · rw [← packed]
        simp only [empty, ↓reduceIte]
        split
        · next failed => simp [failed, empty]
        · next buffers ok => split <;> simp [ok]

/-- A GET for the directory behind `/html`, named in 127 bytes. -/
def longRequest : Stream where
  id := 1
  headerFragments :=
    [0x82, 0x04, 0x7f, 0x00] ++ ascii "/html" ++ (List.replicate 61 (ascii "/.")).flatten

theorem longRequest_aborts :
    (decoded {} longRequest).verdict = .accepted ∧ ¬ Survived siteEnv {} longRequest := by
  decide +kernel

end Http2Server.FrameHandler
