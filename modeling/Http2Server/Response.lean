import Http2Server.Frame
import Http2Server.Lib.Packing

/-!
# Packing a response

`Response` splits the frames that are too large (`processFrames`) and packs the
rest into buffers, one `SSL_write` each (`encodeFrames`).

- `pieces_large`: what the splitting makes of a frame that is too large.
- `encodeFrames_groups`: the buffers hold whole frames, in order.
-/

namespace Http2Server

open Lib

/-- `MAX_FRAME_SIZE` -/
def maxFrameSize : Nat := 16384 - 15

structure Response where
  frames : List Frame := []
  deriving DecidableEq, Repr

namespace Response

def addFrame (r : Response) (f : Frame) : Response := ⟨r.frames ++ [f]⟩

/-- `while (offset < size)` on the payload from `offset` on. -/
def splitLoop (type flags : Byte) (sid : Nat) : Nat → Bytes → List Frame
  | _, [] => []
  | 0, _ :: _ => []
  | fuel + 1, b :: rest =>
    { type, flags, sid, payload := (b :: rest).take maxFrameSize } ::
      splitLoop type flags sid fuel ((b :: rest).drop maxFrameSize)

/-- A change to the last frame, `splitFrames.back()`. -/
def onBack (g : Frame → Frame) : List Frame → List Frame
  | [] => []
  | [f] => [g f]
  | f :: f' :: rest => f :: onBack g (f' :: rest)

def splitFrame (f : Frame) : List Frame :=
  if f.size ≤ maxFrameSize then [f]
  else
    let endStream := f.hasFlag Flag.endStream
    let flags := if endStream then f.flags ^^^ Flag.endStream else f.flags
    let split := splitLoop f.type flags f.sid f.payload.length f.payload
    if endStream then onBack (fun g => { g with flags := g.flags ||| Flag.endStream }) split
    else split

/-- What `processFrames` puts in the place of one frame. -/
def pieces (f : Frame) : List Frame :=
  if f.payload.length > maxFrameSize then splitFrame f else [f]

def processFrames (r : Response) : Response := ⟨r.frames.flatMap pieces⟩

/-- The loop of `encodeFrames`: the buffers before the last, the last one and
`currSize`. `none` is the call to `abort`. -/
def encodeLoop : List Bytes → Bytes → Nat → List Frame → Option (List Bytes)
  | filled, last, _, [] => some (filled ++ [last])
  | filled, last, currSize, f :: rest =>
    if currSize + f.payload.length + 9 > maxFrameSize then
      f.encode.bind fun encoded => encodeLoop (filled ++ [last]) encoded encoded.length rest
    else
      f.encode.bind fun encoded =>
        encodeLoop filled (last ++ encoded) (currSize + encoded.length) rest

def encodeFrames (r : Response) : Option (List Bytes) := encodeLoop [] [] 0 r.frames

/-! ## Splitting -/

/-- A frame that carries a part of another's payload. -/
def piece (f : Frame) (flags : Byte) (payload : Bytes) : Frame :=
  { type := f.type, flags, sid := f.sid, payload }

/-- The flags of the pieces before the last. -/
def openFlags (f : Frame) : Byte :=
  if f.hasFlag Flag.endStream then f.flags ^^^ Flag.endStream else f.flags

theorem flatMap_piece (f : Frame) (flags : Byte) (chunks : List Bytes) :
    (chunks.map (piece f flags)).flatMap Frame.payload = chunks.flatten := by
  rw [List.flatMap_map, List.flatMap_def]
  exact congrArg List.flatten (List.map_id chunks)

/-- Every turn cuts off a chunk that is neither empty nor too large. -/
theorem splitLoop_chunks (f : Frame) (flags : Byte) (fuel : Nat) (payload : Bytes)
    (hfuel : payload.length ≤ fuel) :
    ∃ chunks : List Bytes,
      splitLoop f.type flags f.sid fuel payload = chunks.map (piece f flags) ∧
      chunks.flatten = payload ∧ ∀ c ∈ chunks, c ≠ [] ∧ c.length ≤ maxFrameSize := by
  induction fuel using Nat.strongRecOn generalizing payload with
  | ind fuel ih =>
    cases payload with
    | nil => exact ⟨[], by cases fuel <;> rfl, rfl, by simp⟩
    | cons b rest =>
      cases fuel with
      | zero => simp at hfuel
      | succ fuel =>
        have shorter : ((b :: rest).drop maxFrameSize).length ≤ fuel := by
          simp only [List.length_drop, List.length_cons, maxFrameSize] at hfuel ⊢
          omega
        obtain ⟨chunks, frames, whole, each⟩ := ih fuel (by omega) _ shorter
        refine ⟨(b :: rest).take maxFrameSize :: chunks, ?_, ?_, ?_⟩
        · rw [splitLoop, frames]
          rfl
        · rw [List.flatten_cons, whole, List.take_append_drop]
        · rw [List.forall_mem_cons]
          exact ⟨⟨by simp [maxFrameSize], List.length_take_le _ _⟩, each⟩

theorem onBack_concat (g : Frame → Frame) (init : List Frame) (last : Frame) :
    onBack g (init ++ [last]) = init ++ [g last] := by
  induction init with
  | nil => rfl
  | cons f init ih =>
    cases init with
    | nil => rfl
    | cons f' init => rw [List.cons_append, List.cons_append, onBack, ← List.cons_append, ih]; rfl

theorem restore_endStream : ∀ b : Byte, b &&& 0x01 = 0x01 → (b ^^^ 0x01) ||| 0x01 = b := by
  decide +kernel

/-- **Splitting.** A frame that is too large becomes pieces that carry its payload
between them; the last has the frame's flags, and those before it are without
END_STREAM. -/
theorem pieces_large {f : Frame} (large : f.payload.length > maxFrameSize) :
    ∃ (chunks : List Bytes) (last : Bytes),
      pieces f = chunks.map (piece f (openFlags f)) ++ [piece f f.flags last] ∧
      (chunks ++ [last]).flatten = f.payload ∧
      ∀ c ∈ chunks ++ [last], c ≠ [] ∧ c.length ≤ maxFrameSize := by
  have size : ¬ f.size ≤ maxFrameSize := by
    simp only [Frame.size]
    omega
  obtain ⟨all, frames, whole, each⟩ :=
    splitLoop_chunks f (openFlags f) f.payload.length f.payload (Nat.le_refl _)
  obtain rfl | ⟨chunks, last, rfl⟩ := List.eq_nil_or_concat all
  · rw [List.flatten_nil] at whole
    rw [← whole] at large
    exact absurd large (by simp)
  · rw [List.concat_eq_append] at frames whole each
    rw [List.map_append] at frames
    refine ⟨chunks, last, ?_, whole, each⟩
    have split : pieces f = if f.hasFlag Flag.endStream then
        onBack (fun g => { g with flags := g.flags ||| Flag.endStream })
          (splitLoop f.type (openFlags f) f.sid f.payload.length f.payload)
        else splitLoop f.type (openFlags f) f.sid f.payload.length f.payload := by
      rw [pieces, if_pos large, splitFrame, if_neg size]
      rfl
    rw [split, frames]
    by_cases ends : f.hasFlag Flag.endStream = true
    · have set : f.flags &&& 0x01 = 0x01 := beq_iff_eq.mp ends
      have restored : openFlags f ||| Flag.endStream = f.flags := by
        rw [openFlags, if_pos ends]
        exact restore_endStream f.flags set
      rw [if_pos ends, List.map_singleton, onBack_concat]
      simp only [piece, restored]
    · have same : openFlags f = f.flags := if_neg ends
      rw [if_neg ends, same, List.map_singleton]

/-- A frame that ends its stream, in pieces of which the last does. -/
theorem pieces_of (type flags : Byte) (sid : Nat) (payload : Bytes)
    (ends : flags &&& Flag.endStream = Flag.endStream) :
    ∃ init last, pieces { type, flags, sid, payload } = init ++ [last] ∧
      (init ++ [last]).flatMap Frame.payload = payload ∧
      (∀ g ∈ init, g = { type, flags := flags ^^^ Flag.endStream, sid, payload := g.payload }) ∧
      last = { type, flags, sid, payload := last.payload } ∧
      ∀ g ∈ init ++ [last], g.payload.length ≤ maxFrameSize := by
  by_cases large : payload.length > maxFrameSize
  · obtain ⟨chunks, last, split, whole, each⟩ :=
      pieces_large (f := { type, flags, sid, payload }) large
    have without : openFlags { type, flags, sid, payload } = flags ^^^ Flag.endStream :=
      if_pos (beq_iff_eq.mpr ends)
    rw [without] at split
    refine ⟨_, _, split, ?_, ?_, rfl, ?_⟩
    · rw [List.flatMap_append, flatMap_piece]
      simpa [piece] using whole
    · intro g hg
      obtain ⟨c, _, rfl⟩ := List.mem_map.mp hg
      rfl
    · intro g hg
      rcases List.mem_append.mp hg with hg | hg
      · obtain ⟨c, inside, rfl⟩ := List.mem_map.mp hg
        exact (each c (List.mem_append_left _ inside)).2
      · rw [List.mem_singleton.mp hg]
        exact (each last (by simp)).2
  · refine ⟨[], { type, flags, sid, payload }, ?_, by simp, by simp, rfl, by simpa using large⟩
    simp [pieces, large]

/-! ## Packing -/

/-- The groups of frames that `encodeFrames` packs from some groups on. -/
def packFrom (filled : List (List Frame)) (last : List Frame) (currSize : Nat)
    (frames : List Frame) : List (List Frame) :=
  Packing.pack (fun f : Frame => f.bytes.length) maxFrameSize filled last currSize frames

/-- The loop writes the frames of a group one after the other. -/
theorem encodeLoop_pack (fs : List Frame) (small : ∀ f ∈ fs, f.payload.length < 2 ^ 24)
    (filled : List (List Frame)) (last : List Frame) (n : Nat) :
    encodeLoop (filled.map (·.flatMap Frame.bytes)) (last.flatMap Frame.bytes) n fs =
      some ((packFrom filled last n fs).map (·.flatMap Frame.bytes)) := by
  induction fs generalizing filled last n with
  | nil => simp [encodeLoop, packFrom, Packing.pack]
  | cons f fs ih =>
    rw [List.forall_mem_cons] at small
    have size : n + f.payload.length + 9 = n + f.bytes.length := by
      rw [Frame.length_bytes]
      omega
    rw [encodeLoop, Frame.encode_small small.1, Option.bind_some, Option.bind_some, size, packFrom,
      Packing.pack]
    split
    · simpa [packFrom] using ih small.2 (filled ++ [last]) [f] f.bytes.length
    · simpa [packFrom] using ih small.2 filled (last ++ [f]) (n + f.bytes.length)

/-- **Packing.** Every buffer is a run of whole frames, and the buffers hold the
frames in order; none is empty where the first frame fits the first buffer. -/
theorem encodeFrames_groups (f : Frame) (rest : List Frame)
    (small : ∀ g ∈ f :: rest, g.payload.length < 2 ^ 24)
    (fits : f.payload.length + 9 ≤ maxFrameSize) :
    ∃ groups : List (List Frame), groups.flatten = f :: rest ∧
      encodeFrames ⟨f :: rest⟩ = some (groups.map (·.flatMap Frame.bytes)) ∧ [] ∉ groups := by
  rw [List.forall_mem_cons] at small
  refine ⟨packFrom [] [f] f.bytes.length rest, ?_, ?_, Packing.pack_full _ _ (by simp)⟩
  · rw [packFrom, Packing.pack_flatten]
    rfl
  · rw [encodeFrames, encodeLoop, if_neg (by omega), Frame.encode_small small.1]
    simpa using encodeLoop_pack rest small.2 [] [f] f.bytes.length

end Response

end Http2Server
