import Http2Server.Lib.Blocks
import Http2Server.Response
import Mathlib.Data.List.Forall2

/-!
# The frames and the buffers of a response

What `processFrames` and `encodeFrames` make of any frames that have been added.

- `processFrames_pieces`: every frame is replaced by its pieces.
- `encodeFrames_buffers`: the pieces lie whole in buffers that fit a TLS record.
-/

namespace Http2Server

namespace Response

open Lib Lib.Blocks

/-- A response with the frames that were added, in order. -/
def ofFrames (fs : List Frame) : Response := fs.foldl addFrame {}

theorem ofFrames_frames (fs : List Frame) : (ofFrames fs).frames = fs := by
  have added (gs : List Frame) : (fs.foldl addFrame ⟨gs⟩).frames = gs ++ fs := by
    induction fs generalizing gs with
    | nil => exact (List.append_nil gs).symm
    | cons f fs ih => rw [List.foldl_cons, addFrame, ih, List.append_assoc, List.singleton_append]
  exact added []

/-! ## Pieces -/

/-- What is promised of the frames that stand in the place of one. -/
structure Pieces (f : Frame) (ps : List Frame) : Prop where
  kept : f.payload.length ≤ 16369 → ps = [f]
  fields : ∀ g ∈ ps, g.type = f.type ∧ g.sid = f.sid
  bound : ∀ g ∈ ps, g.payload.length ≤ 16369
  payload : ps.flatMap Frame.payload = f.payload
  flags : ∀ g ∈ ps, g.flags &&& ~~~ Flag.endStream = f.flags &&& ~~~ Flag.endStream
  ends : ∃ init last, ps = init ++ [last] ∧
    last.hasFlag Flag.endStream = f.hasFlag Flag.endStream ∧
    ∀ g ∈ init, g.hasFlag Flag.endStream = false

theorem clear_endStream : ∀ b : Byte, b &&& 0x01 = 0x01 →
    ((b ^^^ 0x01) &&& 0x01 == 0x01) = false ∧ (b ^^^ 0x01) &&& ~~~ 0x01 = b &&& ~~~ 0x01 := by
  decide +kernel

/-- Without END_STREAM the flags are those of the frame. -/
theorem openFlags_spec (f : Frame) :
    (openFlags f &&& Flag.endStream == Flag.endStream) = false ∧
      openFlags f &&& ~~~ Flag.endStream = f.flags &&& ~~~ Flag.endStream := by
  unfold openFlags
  by_cases ends : f.hasFlag Flag.endStream = true
  · rw [if_pos ends]
    exact clear_endStream f.flags (beq_iff_eq.mp ends)
  · rw [if_neg ends]
    exact ⟨Bool.eq_false_iff.mpr ends, rfl⟩

theorem pieces_small {f : Frame} (small : f.payload.length ≤ maxFrameSize) : pieces f = [f] :=
  if_neg (Nat.not_lt.mpr small)

/-- **A frame.** Its pieces keep the promise. -/
theorem pieces_pieces (f : Frame) : Pieces f (pieces f) := by
  by_cases large : f.payload.length > maxFrameSize
  · obtain ⟨chunks, last, split, whole, each⟩ := pieces_large large
    obtain ⟨noEnd, others⟩ := openFlags_spec f
    have members {P : Frame → Prop} (init : ∀ c ∈ chunks, P (piece f (openFlags f) c))
        (back : P (piece f f.flags last)) : ∀ g ∈ pieces f, P g := by
      intro g hg
      rw [split] at hg
      obtain front | final := List.mem_append.mp hg
      · obtain ⟨c, inside, rfl⟩ := List.mem_map.mp front
        exact init c inside
      · rw [List.mem_singleton.mp final]
        exact back
    constructor
    · intro small
      exact absurd large (Nat.not_lt.mpr small)
    · exact members (fun _ _ => ⟨rfl, rfl⟩) ⟨rfl, rfl⟩
    · apply members
      · exact fun c inside => (each c (List.mem_append_left _ inside)).2
      · exact (each last (by simp)).2
    · rw [split, List.flatMap_append, flatMap_piece]
      simpa [piece] using whole
    · exact members (fun _ _ => others) rfl
    · refine ⟨_, _, split, rfl, fun g hg => ?_⟩
      obtain ⟨c, _, rfl⟩ := List.mem_map.mp hg
      exact noEnd
  · have small : f.payload.length ≤ maxFrameSize := Nat.not_lt.mp large
    rw [pieces_small small]
    refine ⟨fun _ => rfl, by simp, fun g hg => ?_, by simp, by simp, [], f, rfl, rfl, by simp⟩
    rw [List.mem_singleton.mp hg]
    exact small

theorem processed_small (r : Response) :
    ∀ g ∈ r.processFrames.frames, g.payload.length ≤ maxFrameSize := by
  intro g hg
  obtain ⟨f, _, inside⟩ := List.mem_flatMap.mp hg
  exact (pieces_pieces f).bound g inside

theorem processFrames_small {r : Response}
    (small : ∀ f ∈ r.frames, f.payload.length ≤ maxFrameSize) : r.processFrames = r := by
  have each : r.frames.flatMap pieces = r.frames.flatMap fun f => [f] := by
    simp only [List.flatMap_def]
    congr 1
    exact List.map_congr_left fun f hf => pieces_small (small f hf)
  rw [processFrames, each, List.flatMap_singleton']

/-- **Pieces.** The frames added are replaced by their pieces, in order, and nothing
is left to split. -/
theorem processFrames_pieces (fs : List Frame) :
    (∃ groups, (ofFrames fs).processFrames.frames = groups.flatten ∧
      List.Forall₂ Pieces fs groups) ∧
    (ofFrames fs).processFrames.processFrames = (ofFrames fs).processFrames := by
  constructor
  · refine ⟨fs.map pieces, ?_, ?_⟩
    · rw [processFrames, ofFrames_frames, List.flatMap_def]
    · rw [List.forall₂_map_right_iff, List.forall₂_same]
      exact fun f _ => pieces_pieces f
  · exact processFrames_small (processed_small (ofFrames fs))

/-! ## Buffers -/

/-- What is promised of the buffers for some frames. -/
structure Buffers (frames : List Frame) (buffers : List Bytes) : Prop where
  encodings : frames.mapM Frame.encode = some (frames.map Frame.bytes)
  text : buffers.flatten = (frames.map Frame.bytes).flatten
  whole : OnBoundaries Frame.bytes frames buffers
  bound : ∀ buffer ∈ buffers, buffer.length ≤ 16378
  filled : [] ∉ buffers.tail

theorem length_flatMap_bytes (fs : List Frame) :
    (fs.flatMap Frame.bytes).length = Eviction.total (fun f : Frame => f.bytes.length) fs := by
  induction fs with
  | nil => rfl
  | cons f fs ih => rw [List.flatMap_cons, List.length_append, ih, Eviction.total_cons]

theorem encodeFrames_small {frames : List Frame}
    (small : ∀ f ∈ frames, f.payload.length ≤ maxFrameSize) :
    ∃ buffers, encodeFrames ⟨frames⟩ = some buffers ∧ Buffers frames buffers := by
  have fits : ∀ f ∈ frames, f.payload.length < 2 ^ 24 := fun f hf =>
    Nat.lt_of_le_of_lt (small f hf) (by decide)
  have all : (packFrom [] [] 0 frames).flatten = frames := by
    rw [packFrom, Packing.pack_flatten]
    rfl
  refine ⟨_, encodeLoop_pack frames fits [] [] 0, Frame.mapM_encode fits, ?_, ⟨_, all, rfl⟩,
    ?_, ?_⟩
  · rw [← List.flatMap_def, ← List.flatMap_def]
    conv => rhs; rw [← all, ← List.flatMap_id, List.flatMap_assoc]
    rfl
  · intro buffer member
    obtain ⟨group, packed, rfl⟩ := List.mem_map.mp member
    rw [length_flatMap_bytes]
    refine Packing.pack_total_le rfl (by decide) (fun f hf => ?_) (by simp) group packed
    have bound := small f hf
    rw [Frame.length_bytes]
    unfold maxFrameSize at bound
    omega
  · rw [← List.map_tail]
    intro member
    obtain ⟨group, packed, empty⟩ := List.mem_map.mp member
    have solid (f : Frame) : f.bytes ≠ [] := by
      intro none
      have length := f.length_bytes
      rw [none, List.length_nil] at length
      omega
    rw [flatMap_eq_nil solid empty] at packed
    exact Packing.pack_tail 0 frames packed

/-- **Buffers.** The frames of a response are written whole, one after the other, into
buffers of no more than 16378 bytes; none but the first can be empty. -/
theorem encodeFrames_buffers (fs : List Frame) :
    ∃ buffers, (ofFrames fs).processFrames.encodeFrames = some buffers ∧
      Buffers (ofFrames fs).processFrames.frames buffers :=
  encodeFrames_small (processed_small (ofFrames fs))

end Response

end Http2Server
