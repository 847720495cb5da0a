import Http2Server.Acknowledgements
import Http2Server.Client

/-!
# Sizes of the frames sent

The peer's `max_frame_size` is never below 16384, since `decode` refuses such
values, and nothing the server sends has a larger payload: a response is cut into
pieces, and a PING comes out of a read.
-/

namespace Http2Server.FrameHandler

open Hpack

/-- The smallest frame size a peer can ask for. -/
def leastFrameSize : Nat := 16384

/-- No frame submitted so far is larger than any peer would take. -/
def Fits (s : Session) : Prop := ∀ f ∈ s.submitted, f.payload.length ≤ leastFrameSize

theorem Fits.append {s s' : Session} {more : List Frame} (h : Fits s)
    (submitted : s'.submitted = s.submitted ++ more)
    (fits : ∀ f ∈ more, f.payload.length ≤ leastFrameSize) : Fits s' := by
  intro f hf
  rw [submitted, List.mem_append] at hf
  obtain before | added := hf
  · exact h f before
  · exact fits f added

theorem Fits.sendFrame {s : Session} (h : Fits s) (env : Env) {f : Frame} (plain : f.Plain)
    (fits : f.payload.length ≤ leastFrameSize) (weight : Int) :
    Fits (sendFrame env s f weight).2 := by
  apply h.append (sendFrame_submits env s plain weight)
  intro g hg
  rw [List.mem_singleton.mp hg]
  exact fits

/-- Buffers of whole frames, none longer than a piece. -/
def Packed (buffers : List Bytes) : Prop :=
  ∃ groups : List (List Frame), groups ≠ [] ∧ buffers = groups.map (·.flatMap Frame.bytes) ∧
    ∀ f ∈ groups.flatten, f.Plain ∧ f.payload.length ≤ maxFrameSize

theorem packed_response {sid : Nat} {headers : Headers} {body : Bytes} {buffers : List Bytes}
    (h : responseBuffers sid headers body = some buffers) (few : headers.length ≤ 16) :
    Packed buffers := by
  obtain ⟨block, enc, _⟩ := Option.bind_eq_some_iff.mp h
  obtain ⟨_, groups, _, packed, response, _, fits⟩ :=
    responseBuffers_fits sid body (Encoder.short_of_encodeAll enc) few
  rw [h] at packed
  exact ⟨groups, response.groups_ne_nil, Option.some.inj packed, fits⟩

theorem Fits.afterSend {s : Session} (h : Fits s) (env : Env) (weight : Int)
    {buffers : List Bytes} (packed : Packed buffers) : Fits (s.afterSend env weight buffers) := by
  obtain ⟨groups, some, rfl, fits⟩ := packed
  obtain ⟨tried, first, _, submitted, _⟩ :=
    s.submitted_afterSend env weight some fun f hf => (fits f hf).1
  apply h.append submitted
  intro g hg
  obtain ⟨f, hf, rfl⟩ := List.mem_map.mp hg
  have piece := (fits f (first.flatten.subset hf)).2
  simp only [Frame.onWire, maxFrameSize, leastFrameSize] at piece ⊢
  omega

section
variable {env : Env} {s : Session}

theorem Fits.processEndHeader (h : Fits s) (strm : Stream) :
    Fits (processEndHeader env s strm).2.2 := by
  apply processEndHeader_invariant env strm (P := Fits) h
  · exact fun _ _ fits => fits
  · exact fun _ _ weight _ _ _ packed few fits =>
      fits.afterSend env weight (packed_response packed few)

/-- **Step.** Every frame of a read is dealt with in frames that fit. -/
theorem Fits.handleFrame (h : Fits s) {f : Frame} (fits : f.payload.length ≤ bufferSize) :
    Fits (handleFrame env s f).2 := by
  have logged : Fits (s.log (.handleFrame f)) := h
  by_cases valid : ValidSettings f
  · rw [FrameHandler.handleFrame, dispatch_valid env _ valid]
    exact Fits.sendFrame (s := { s.log (.handleFrame f) with settings := settingsOf f }) h env
      settingsAck_plain (Nat.zero_le _) 0
  · rw [FrameHandler.handleFrame]
    apply (dispatch_effect env (s.log (.handleFrame f)) f).invariant (P := Fits) logged
    · exact fun _ _ fits => fits
    · exact fun strm _ => logged.processEndHeader strm
    · intro zero type asked
      rw [ackSettings_invalid env _ zero type asked valid]
      exact logged
    · intro _ _
      simp only [bufferSize] at fits
      have small : f.payload.length < 2 ^ 24 := by omega
      apply logged.sendFrame env (pingAck_plain small)
      simp only [pingAck, leastFrameSize]
      omega
    · exact logged

end

/-- What a connection keeps about sizes. -/
structure Sized (s : Session) : Prop where
  fits : Fits s
  least : leastFrameSize ≤ s.settings.maxFrameSize

theorem settingsOf_least {f : Frame} (h : ValidSettings f) :
    leastFrameSize ≤ (settingsOf f).maxFrameSize :=
  (Settings.decode_allowed (decode_settingsOf h) (fun p => (Settings.sendable_default p).1)
    .maxFrameSize).1

/-- **Sizes.** In every session a connection reaches, no frame sent so far has
more payload than the peer's settings allow. -/
theorem frames_fit (s : Session) (h : Reachable s) :
    ∀ f ∈ s.submitted, f.payload.length ≤ s.settings.maxFrameSize := by
  have sized : Sized s := by
    apply h.invariant (P := Sized)
    · exact fun s _ _ _ h => ⟨h.fits, h.least⟩
    · intro env s h
      have plain : Frame.Plain
          { type := FrameType.settings.code, payload := ({} : Settings).encode } :=
        Frame.plain_of_flags (by decide) (by decide) (by rw [Settings.encode_default]; decide)
      refine ⟨h.fits.sendFrame env plain (by rw [Settings.encode_default]; decide) 0, ?_⟩
      rw [applySettings, sendFrame_settings]
      exact h.least
    · intro env s f fits h
      refine ⟨h.fits.handleFrame fits, ?_⟩
      rw [handleFrame_settings]
      split
      · next valid => exact settingsOf_least valid
      · exact h.least
    · exact ⟨by simp [Fits, Session.submitted], by decide⟩
  intro f hf
  exact (sized.fits f hf).trans sized.least

/-- The preface, settings and a GET for `/` in one read. -/
def firstRead : Bytes := prefaceStr ++ noPush.bytes ++ getRequest.bytes

theorem frames_fit_get :
    ∃ s, Reachable s ∧ s.submitted.map Frame.type = [4, 4, 1, 0] ∧
      ∀ f ∈ s.submitted, f.payload.length ≤ s.settings.maxFrameSize := by
  have fits : firstRead.length ≤ bufferSize := by decide +kernel
  have served : (doRequest siteEnv {} (.bytes firstRead)).1 = .returned true ∧
      (doRequest siteEnv {} (.bytes firstRead)).2.session.submitted.map Frame.type =
        [4, 4, 1, 0] := by
    decide +kernel
  rcases done : doRequest siteEnv {} (.bytes firstRead) with ⟨e, c⟩
  rw [done] at served
  dsimp only at served
  obtain ⟨rfl, types⟩ := served
  have reached : Reached c :=
    .read .new (show ReadResult.Fits (.bytes firstRead) from fits) done
  exact ⟨_, .between reached, types, frames_fit _ (.between reached)⟩

end Http2Server.FrameHandler
