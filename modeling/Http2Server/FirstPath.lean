import Http2Server.Client
import Http2Server.OwnStream

/-!
# The first path of a stream

A stream's headers are never taken back, and a request is answered by the first `:path`
among them. A second block on a stream that is still known has the first one answered again.

- `handleFrames_grows`: what a run of frames leaves of a stream that it spares.
- `answered_first_path`: the path that every later block of the stream is answered by.
-/

namespace Http2Server.FrameHandler

/-- The frame leaves the stream in the map. -/
structure Spares (sid : Nat) (f : Frame) : Prop where
  stays : f.type ≠ FrameType.goAway.code
  lasts : f.sid = sid → ¬ Ends f

/-- The stream is the same, and may have got headers behind those it had. -/
structure Grows (strm strm' : Stream) : Prop where
  id : strm'.id = strm.id
  headers : strm.headers <+: strm'.headers

theorem Grows.refl (strm : Stream) : Grows strm strm := ⟨rfl, List.prefix_refl _⟩

theorem Grows.trans {strm strm' strm'' : Stream} (h : Grows strm strm')
    (h' : Grows strm' strm'') : Grows strm strm'' :=
  ⟨h'.id.trans h.id, h.headers.trans h'.headers⟩

theorem grows_received (s : Session) (strm : Stream) : Grows strm (received s strm) := by
  refine ⟨received_id s strm, ?_⟩
  rw [received_headers]
  exact List.prefix_append _ _

section
variable {s : Session} {f : Frame} {strm : Stream}

theorem grows_opened (found : s.streams f.sid = some strm) : Grows strm (openStream s f) := by
  unfold openStream
  rw [found]
  exact ⟨rfl, List.prefix_refl _⟩

/-- The stream whose block is completed has grown from the one that was known. -/
theorem grows_completed (found : s.streams f.sid = some strm) {strm' : Stream}
    (completes : completed s f = some strm') : Grows strm strm' := by
  obtain ⟨_, ⟨_, rfl⟩ | ⟨_, old, known, _, rfl⟩⟩ := completed_cases completes
  · exact grows_opened found
  · cases found.symm.trans known
    exact ⟨rfl, List.prefix_refl _⟩

theorem Turns.grows {left : Option Stream} (turns : Turns s f left) (lasts : ¬ Ends f)
    (found : s.streams f.sid = some strm) : ∃ strm', left = some strm' ∧ Grows strm strm' := by
  have known {old : Stream} (again : s.streams f.sid = some old) : strm = old :=
    Option.some.inj (found.symm.trans again)
  cases turns with
  | same => exact ⟨strm, found, .refl strm⟩
  | data type again =>
    obtain rfl := known again
    exact ⟨_, rfl, ⟨rfl, List.prefix_refl _⟩⟩
  | priority type read again =>
    obtain rfl := known again
    exact ⟨_, rfl, ⟨rfl, List.prefix_refl _⟩⟩
  | opened type => exact ⟨_, rfl, grows_opened found⟩
  | continued type again =>
    obtain rfl := known again
    exact ⟨_, rfl, ⟨rfl, List.prefix_refl _⟩⟩
  | @block old completes =>
    exact ⟨_, rfl, (grows_completed found completes).trans (grows_received s old)⟩
  | ended ends => exact absurd ends lasts

end

section
variable {env : Env} {s : Session} {sid : Nat} {strm : Stream}

variable (env) in
theorem handleFrame_grows {f : Frame} (spares : Spares sid f)
    (found : s.streams sid = some strm) :
    ∃ strm', (handleFrame env s f).2.streams sid = some strm' ∧ Grows strm strm' := by
  by_cases own : f.sid = sid
  · subst own
    have turns := dispatch_turns env (s.log (.handleFrame f)) f
    exact turns.grows (s := s.log (.handleFrame f)) (spares.lasts rfl) found
  · have other : (handleFrame env s f).2.streams sid = s.streams sid :=
      dispatch_other env (s.log (.handleFrame f)) f (Ne.symm own) spares.stays
    exact ⟨strm, other.trans found, .refl strm⟩

variable (env) in
theorem handleFrames_grows {fs : List Frame} (spared : ∀ f ∈ fs, Spares sid f)
    (found : s.streams sid = some strm) :
    ∃ strm', (handleFrames env fs s).2.streams sid = some strm' ∧ Grows strm strm' := by
  apply handleFrames_invariant
    (P := fun s => ∃ strm', s.streams sid = some strm' ∧ Grows strm strm') _
    ⟨strm, found, .refl strm⟩
  rintro s f hf ⟨before, found, grown⟩
  obtain ⟨after, found', more⟩ := handleFrame_grows env (spared f hf) found
  exact ⟨after, found', grown.trans more⟩

/-- The first header of a name stays first. -/
theorem first_append {hs : Headers} {name value : Bytes} (h : hs.first name = some value)
    (more : Headers) : Headers.first (hs ++ more) name = some value := by
  obtain ⟨header, found, rfl⟩ := Option.map_eq_some_iff.mp h
  rw [Headers.first, List.find?_append, found]
  rfl

/-- **First paths.** Once a stream has a `:path`, any frames may follow that leave it known:
whatever block is then completed on it, and decoded without an exception, is a request for the
first path, and answered with what that leads to. -/
theorem answered_first_path {path : Bytes} (found : s.streams sid = some strm)
    (first : strm.headers.first (ascii ":path") = some path) {fs : List Frame}
    (spared : ∀ f ∈ fs, Spares sid f) {s' : Session}
    (handled : handleFrames env fs s = (.returned true, s')) {f : Frame} (own : f.sid = sid)
    {strm' : Stream} (completes : completed s' f = some strm')
    (decodes : (decoded s' strm').verdict ≠ .threw) :
    requestPath s' strm' = some path ∧
      answerOf env s' strm' =
        (env.binder.getContent env.files path).map fun content => (path, content) := by
  obtain ⟨last, known, grown⟩ := handleFrames_grows env spared found
  rw [handled] at known
  rw [← own] at known
  obtain ⟨more, same⟩ := (grown.trans (grows_completed known completes)).headers
  have requested : requestPath s' strm' = some path := by
    rw [requestPath, if_neg decodes, ← same, List.append_assoc, first_append first]
  exact ⟨requested, by rw [answerOf, requested, Option.bind_some]⟩

end

/-- The session after a request for `/` whose stream is left open. -/
def afterRoot : Session := (handleFrame siteEnv {} (headersFrame 1 [0x82, 0x84])).2

/-- A request for `/index.html` on the same stream. -/
def asksIndex : Frame := headersFrame 1 [0x82, 0x85]

theorem answered_first_path_root : ∃ s' strm,
    handleFrames siteEnv [postBody] afterRoot = (.returned true, s') ∧
      completed s' asksIndex = some strm ∧ requestPath s' strm = some (ascii "/") := by
  obtain ⟨known, returned, decodes⟩ :
      (afterRoot.streams 1).map (fun strm => strm.headers.first (ascii ":path")) =
        some (some (ascii "/")) ∧
      (handleFrames siteEnv [postBody] afterRoot).1 = .returned true ∧
      (decoded (handleFrames siteEnv [postBody] afterRoot).2
        (openStream (handleFrames siteEnv [postBody] afterRoot).2 asksIndex)).verdict ≠ .threw := by
    decide +kernel
  obtain ⟨strm, found, first⟩ := Option.map_eq_some_iff.mp known
  have handled : handleFrames siteEnv [postBody] afterRoot =
      (.returned true, (handleFrames siteEnv [postBody] afterRoot).2) := Prod.ext returned rfl
  have spared : ∀ f ∈ [postBody], Spares 1 f := by
    intro f hf
    obtain rfl := List.mem_singleton.mp hf
    exact ⟨by decide, fun _ => by simp [Ends, postBody, FrameType.code]⟩
  have own : asksIndex.sid = 1 := rfl
  exact ⟨_, _, handled, rfl, (answered_first_path found first spared handled own rfl decodes).1⟩

end Http2Server.FrameHandler
