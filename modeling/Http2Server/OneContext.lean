import Http2Server.HeaderBlocks
import Http2Server.Hpack.Composition
import Http2Server.Hpack.Language

/-!
# One compression context

The header blocks of a connection come in fragments, on any streams and between any other
frames. The decoder reads them in the order in which they are completed, and nothing else
comes near its table.

- `handleFrame_table`: what a frame leaves of the table.
- `one_context`: together they are one block.
- `one_context_spelled`: what RFC 7541 makes of it.
-/

namespace Http2Server.FrameHandler

open Hpack

/-- A completed header block, and what it was decoded to when it was. -/
structure Block where
  bytes : Bytes
  result : Decoded
  deriving DecidableEq, Repr

def blockOf (s : Session) (strm : Stream) : Block := ⟨strm.headerFragments, decoded s strm⟩

/-- The header blocks that frames complete, in the order in which they do, as long as the
process lives. -/
def blocks (env : Env) : Session → List Frame → List Block
  | _, [] => []
  | s, f :: fs =>
    ((completed s f).map (blockOf s)).toList ++
      match handleFrame env s f with
      | (.returned _, s) => blocks env s fs
      | _ => []

/-- A part of a block, the whole of it if the decoder accepts it. -/
def PartOfBlock (part : Bytes) (b : Block) : Prop :=
  part <+: b.bytes ∧ (b.result.verdict = .accepted → part = b.bytes)

/-- What is read of the blocks is one block: a decoder with the one table accepts it, with all
their headers, and is left with the other. -/
def OneBlock (t : Table) (bs : List Block) (t' : Table) : Prop :=
  ∃ parts, List.Forall₂ PartOfBlock parts bs ∧
    decodeLowmem t parts.flatten = ⟨.accepted, bs.flatMap fun b => b.result.headers, t'⟩

theorem OneBlock.append {t t' t'' : Table} {bs bs' : List Block} (before : OneBlock t bs t')
    (behind : OneBlock t' bs' t'') : OneBlock t (bs ++ bs') t'' := by
  obtain ⟨parts, own, read⟩ := before
  obtain ⟨parts', others, rest⟩ := behind
  refine ⟨parts ++ parts', List.rel_append own others, ?_⟩
  rw [List.flatten_append, decodeLowmem_append _ (by rw [read]), read, rest,
    List.flatMap_append]

section
variable {env : Env} {s : Session} {f : Frame}

/-- A frame that completes no block leaves the table. -/
theorem handleFrame_no_block (none : completed s f = none) :
    (handleFrame env s f).2.hpackDecoder = s.hpackDecoder := by
  have effect := dispatch_effect env (s.log (.handleFrame f)) f
  apply effect.invariant (P := fun s' => s'.hpackDecoder = s.hpackDecoder)
  · rfl
  · exact fun _ _ same => same
  · intro strm completes
    have other : completed s f = some strm := completes
    cases none.symm.trans other
  · intro _ _ _
    obtain ⟨settings, _, taken⟩ | ⟨_, dropped⟩ :=
      ackSettings_cases env (s.log (.handleFrame f)) f
    · rw [taken]
      unfold sendFrame
      split <;> rfl
    · rw [dropped]
      rfl
  · intro _ _
    unfold sendFrame
    split <;> rfl
  · rfl

/-- One that does leaves what decoding the block leaves. -/
theorem handleFrame_table {strm : Stream} (completes : completed s f = some strm) :
    (handleFrame env s f).2.hpackDecoder = (decoded s strm).table := by
  obtain ⟨_, _, table⟩ := handleFrame_completed env completes
  rw [table]
  apply processEndHeader_invariant env strm
    (P := fun s' => s'.hpackDecoder = (decoded s strm).table)
  · rfl
  · exact fun _ _ same => same
  · exact fun _ _ _ _ _ _ _ _ same => same

/-- One frame of a run: the block that it completes, and the table that it leaves. -/
theorem handleFrame_oneBlock (env : Env) (s : Session) (f : Frame) :
    OneBlock s.hpackDecoder ((completed s f).map (blockOf s)).toList
      (handleFrame env s f).2.hpackDecoder := by
  cases completes : completed s f with
  | none =>
    refine ⟨[], .nil, ?_⟩
    rw [handleFrame_no_block completes]
    rfl
  | some strm =>
    obtain ⟨part, begins, accepted, whole⟩ :=
      decodeLowmem_read_part s.hpackDecoder strm.headerFragments
    refine ⟨[part], .cons ⟨begins, whole⟩ .nil, ?_⟩
    rw [handleFrame_table completes, List.flatten_singleton, accepted]
    exact congrArg (fun hs => (⟨.accepted, hs, _⟩ : Decoded)) (List.flatMap_singleton ..).symm

theorem handleFrames_oneBlock (env : Env) (s : Session) (fs : List Frame) :
    OneBlock s.hpackDecoder (blocks env s fs) (handleFrames env fs s).2.hpackDecoder := by
  induction fs generalizing s with
  | nil => exact ⟨[], .nil, rfl⟩
  | cons f fs ih =>
    have first := handleFrame_oneBlock env s f
    rw [blocks, handleFrames]
    rcases handled : handleFrame env s f with ⟨⟨ok⟩ | _ | _, s'⟩ <;> rw [handled] at first
    · exact first.append (ih s')
    -- an exception or an abort ends the run with what this frame has left
    · rwa [List.append_nil]
    · rwa [List.append_nil]

/-- **One context.** In whatever fragments, on whatever streams and between whatever frames
header blocks come, what is read of them, in the order of their completion, is one block: a
single `decode_lowmem` accepts it, with the headers of all of them, and leaves the table that
the connection is left with. -/
theorem one_context (env : Env) (s : Session) (fs : List Frame) :
    ∃ parts, List.Forall₂ PartOfBlock parts (blocks env s fs) ∧
      decodeLowmem s.hpackDecoder parts.flatten =
        ⟨.accepted, (blocks env s fs).flatMap fun b => b.result.headers,
          (handleFrames env fs s).2.hpackDecoder⟩ :=
  handleFrames_oneBlock env s fs

/-- So the headers of a connection, and its table, are what the interpreter makes of the
representations that are written in these parts. -/
theorem one_context_spelled (env : Env) (s : Session) (fs : List Frame) :
    ∃ parts reps, List.Forall₂ PartOfBlock parts (blocks env s fs) ∧
      Reference.Spelling Reference.wrapped reps parts.flatten ∧
      (Reference.view s.hpackDecoder).run reps =
        some ((blocks env s fs).flatMap fun b => b.result.headers,
          Reference.view (handleFrames env fs s).2.hpackDecoder) := by
  obtain ⟨parts, own, read⟩ := handleFrames_oneBlock env s fs
  obtain ⟨reps, spelling, run⟩ := Reference.spelling_of_accepts read
  exact ⟨parts, reps, own, spelling, run⟩

end

/-- The block of stream 1 is cut in two, around that of stream 3. What stream 3 adds to the
table is in the rest of it. -/
def interleaved : List Frame :=
  [{ type := FrameType.headers.code, sid := 1, payload := [0x82] },
   { type := FrameType.headers.code, flags := Flag.endHeaders, sid := 3,
     payload := [0x82, 0x84, 0x40, 1, 97, 1, 98] },
   { type := FrameType.continuation.code, flags := Flag.endHeaders, sid := 1,
     payload := [0x84, 0xbe] }]

example : (blocks siteEnv {} interleaved).map Block.bytes =
    [[0x82, 0x84, 0x40, 1, 97, 1, 98], [0x82, 0x84, 0xbe]] := by decide +kernel

end Http2Server.FrameHandler
