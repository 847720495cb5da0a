import Http2Server.FrameHandler
import Http2Server.FrameLayout

/-!
# PRIORITY frames

`handlePriorityFrame` wants a frame whose priority block has been read. `decode`
reads one from HEADERS and PUSH_PROMISE frames alone, so it hands on a PRIORITY
frame without it, and the frame is refused.
-/

namespace Http2Server

open FrameHandler

namespace PriorityBlock

/-- The PRIORITY frame that carries a block for a stream. -/
def frame (p : PriorityBlock) (flags : Byte) (sid : Nat) : Frame :=
  { type := FrameType.priority.code, flags, sid, payload := p.bytes }

/-- A stream with the priority that a block gives it. -/
def onto (p : PriorityBlock) (strm : Stream) : Stream :=
  { strm with weight := p.fullWeight, dependency := p.dependency, exclusive := p.exclusive }

/-- What is promised of the frame: it is accepted, and the stream is as it was but
for the block's weight, dependency and exclusive bit. -/
def Given (env : Env) (s : Session) (p : PriorityBlock) (flags : Byte) (sid : Nat) : Prop :=
  ∃ f, Frame.decode {} (p.frame flags sid).bytes = .accepted f ∧
    (handleFrame env s f).1 = .returned true ∧
    ∃ strm, s.streams sid = some strm ∧
      (handleFrame env s f).2.streams sid = some (p.onto strm)

theorem plain_frame (p : PriorityBlock) (flags : Byte) (sid : Nat) : (p.frame flags sid).Plain where
  unpadded := by simp [Frame.isPadded, frame, FrameType.code]
  unprioritised := by simp [Frame.carriesPriority, frame, FrameType.code]
  small := by
    rw [frame, length_bytes]
    decide

/-- A frame whose block has not been read changes no stream. -/
theorem handlePriorityFrame_unread {s : Session} {f : Frame} (unread : f.hasPriority = false) :
    handlePriorityFrame s f = (.returned false, s) := by
  unfold handlePriorityFrame
  cases s.streams f.sid with
  | none => rfl
  | some strm => exact if_pos unread

theorem handleFrame_onWire (env : Env) (s : Session) (p : PriorityBlock) (flags : Byte)
    (sid : Nat) : handleFrame env s (p.frame flags sid).onWire =
      (.returned false, s.log (.handleFrame (p.frame flags sid).onWire)) :=
  handlePriorityFrame_unread rfl

theorem not_given (env : Env) (s : Session) (p : PriorityBlock) (flags : Byte) (sid : Nat) :
    ¬ p.Given env s flags sid := by
  rintro ⟨f, decoded, accepted, _⟩
  have read := Frame.decode_plain (p.plain_frame flags sid) []
  rw [List.append_nil, decoded, Frame.Decode.accepted.injEq] at read
  rw [read, handleFrame_onWire] at accepted
  cases accepted

/-- **Priorities.** Every PRIORITY frame is parsed and then refused, and every
stream is left as it was. -/
theorem priority_refused (env : Env) (s : Session) (p : PriorityBlock) (flags : Byte)
    (sid : Nat) :
    ¬ p.Given env s flags sid ∧ ∃ f, Frame.decode {} (p.frame flags sid).bytes = .accepted f ∧
      handleFrame env s f = (.returned false, s.log (.handleFrame f)) := by
  refine ⟨not_given env s p flags sid, (p.frame flags sid).onWire, ?_,
    handleFrame_onWire env s p flags sid⟩
  have read := Frame.decode_plain (p.plain_frame flags sid) []
  rwa [List.append_nil] at read

/-- Weight 16 for an open stream. -/
theorem priority_lost :
    ¬ (PriorityBlock.mk false 0 15 (Nat.two_pow_pos 31)).Given siteEnv
      (({} : Session).setStream 1 { id := 1, state := .open }) 0 1 :=
  not_given _ _ _ _ _

end PriorityBlock

end Http2Server
