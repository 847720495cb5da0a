import Http2Server.FrameDecoding
import Http2Server.Requests
import Http2Server.Steps

/-!
# Reading from a client

`Client::doRequest`: one `SSL_read` into a buffer of fixed size, and the frames
found in what was read. Nothing is kept for the next read except the buffer
itself, which that read overwrites from its start.

- `handleFrames_handed`: the frames of a read are handed on in order, all of them
  unless the process ends.
- `doRequest_bytes`: a read, as the frames of a part of it.
- `Reachable.invariant`: what every frame keeps holds on the whole connection.
-/

namespace Http2Server

open FrameHandler

/-- `BUFFER_SIZE` -/
def bufferSize : Nat := 4096

def prefaceStr : Bytes := ascii "PRI * HTTP/2.0\r\n\r\nSM\r\n\r\n"

/-- `EAGAIN`, which `EWOULDBLOCK` is equal to. -/
def eagain : Nat := 11

structure Client where
  session : Session := {}
  recvBuffer : Bytes := List.replicate bufferSize 0

/-- What an `SSL_read` returns: less than zero, with an `errno`; zero; or the
bytes it has read. -/
inductive ReadResult where
  | failed (errno : Nat)
  | closed
  | bytes (data : Bytes)
  deriving DecidableEq, Repr

/-- `std::vector::resize` -/
def resize (buffer : Bytes) (n : Nat) : Bytes :=
  buffer.take n ++ List.replicate (n - buffer.length) 0

/-- From `toFrames` to the end of `doRequest`. -/
def handleBuffer (env : Env) (s : Session) (recvBuffer : Bytes) (bytesRead : Nat) :
    Exit × Client :=
  match Frame.toFrames (recvBuffer.take bytesRead) with
  | none => (.threw, ⟨s, recvBuffer⟩)
  | some frames =>
    let (e, s) := handleFrames env frames s
    (e, ⟨s, recvBuffer⟩)

/-- The preface is looked for in the whole buffer, also behind the bytes just
read; `bytesRead` may go below zero then, and there are no frames. -/
def doRequest (env : Env) (c : Client) (read : ReadResult) : Exit × Client :=
  let recvBuffer := resize c.recvBuffer bufferSize
  let s := { c.session with state := .idle }
  match read with
  | .failed errno =>
    (.returned true, ⟨if errno = eagain then s else { s with errorCode := errno }, recvBuffer⟩)
  | .closed => (.returned true, ⟨{ s with fdState := .closed }, recvBuffer⟩)
  | .bytes data =>
    let recvBuffer := data ++ recvBuffer.drop data.length
    if prefaceStr.isPrefixOf recvBuffer then
      match applySettings env s with
      | (.returned _, s) =>
        handleBuffer env s (recvBuffer.drop prefaceStr.length) (data.length - prefaceStr.length)
      | (e, s) => (e, ⟨s, recvBuffer⟩)
    else handleBuffer env s recvBuffer data.length

/-- Successive calls; an exception ends them, since it has the client removed. -/
def doRequests (env : Env) : List ReadResult → Client → Exit × Client
  | [], c => (.returned true, c)
  | read :: rest, c =>
    match doRequest env c read with
    | (.returned _, c) => doRequests env rest c
    | (e, c) => (e, c)

/-! ## Frames handed on -/

def Call.handedFrame : Call → Option Frame
  | .handleFrame f => some f
  | .respondGet _ => none

/-- The frames `handleFrame` was called with so far. -/
def Session.handed (s : Session) : List Frame := s.calls.filterMap Call.handedFrame

namespace Session

/-- What happens while a frame is handled: no other is, and the client is idle
again after every write. -/
structure Within (s s' : Session) : Prop where
  handed : s'.handed = s.handed
  idle : s.state = .idle → s'.state = .idle

theorem Within.refl (s : Session) : Within s s := ⟨rfl, id⟩

theorem Within.trans {s s' s'' : Session} (h : Within s s') (h' : Within s' s'') : Within s s'' :=
  ⟨h'.handed.trans h.handed, h'.idle ∘ h.idle⟩

theorem within_afterSend (s : Session) (env : Env) (weight : Int) (buffers : List Bytes) :
    Within s (s.afterSend env weight buffers) := ⟨rfl, fun _ => rfl⟩

theorem within_respondGet (s : Session) (sid : Nat) : Within s (s.log (.respondGet sid)) := by
  refine ⟨?_, id⟩
  simp [handed, log, Call.handedFrame]

end Session

section
open Session
variable (env : Env) (s : Session)

theorem within_sendFrame (f : Frame) (weight : Int) : Within s (sendFrame env s f weight).2 := by
  unfold sendFrame
  split
  · exact .refl s
  · exact ⟨rfl, fun _ => rfl⟩

/-- The server's settings are a frame without payload, which goes out or does not. -/
theorem applySettings_returns :
    ∃ ok s', applySettings env s = (.returned ok, s') ∧ Within s s' := by
  have within := within_sendFrame env s
    { type := FrameType.settings.code, payload := ({} : Settings).encode } 0
  rw [← applySettings] at within
  have returns : ∃ ok s', applySettings env s = (.returned ok, s') := by
    rw [applySettings, sendFrame, Frame.encode_small (by rw [Settings.encode_default]; decide)]
    exact ⟨_, _, rfl⟩
  obtain ⟨ok, s', sent⟩ := returns
  rw [sent] at within
  exact ⟨ok, s', sent, within⟩

theorem within_ackSettings (f : Frame) : Within s (ackSettings env s f).2 := by
  obtain ⟨settings, _, taken⟩ | ⟨_, dropped⟩ := ackSettings_cases env s f
  · have sent := within_sendFrame env { s with settings }
      { type := FrameType.settings.code, flags := Flag.ack } 0
    rw [taken]
    exact ⟨sent.handed, sent.idle⟩
  · rw [dropped]
    exact .refl s

theorem within_processEndHeader (strm : Stream) : Within s (processEndHeader env s strm).2.2 := by
  apply processEndHeader_invariant env strm (P := Within s)
  · exact ⟨rfl, id⟩
  · exact fun s' sid within => within.trans (within_respondGet s' sid)
  · exact fun s' _ weight _ _ _ _ _ within => within.trans (within_afterSend s' env weight _)

/-- Whatever the frame, only itself has been handed on. -/
theorem within_dispatch (f : Frame) : Within s (dispatch env s f).2 := by
  apply (dispatch_effect env s f).invariant (P := Within s) (.refl s)
  · exact fun _ _ within => ⟨within.handed, within.idle⟩
  · exact fun strm _ => within_processEndHeader env s strm
  · exact fun _ _ _ => within_ackSettings env s f
  · exact fun _ _ => within_sendFrame env s _ 0
  · exact ⟨rfl, id⟩

theorem handleFrame_handed (f : Frame) :
    (handleFrame env s f).2.handed = s.handed ++ [f] := by
  rw [handleFrame, (within_dispatch env _ f).handed]
  simp [handed, log, Call.handedFrame]

theorem handleFrame_idle (f : Frame) (h : s.state = .idle) :
    (handleFrame env s f).2.state = .idle :=
  (within_dispatch env (s.log (.handleFrame f)) f).idle h

end

/-! ## The frames of a read -/

section
variable {env : Env} {s : Session}

theorem handleFrames_append (fs gs : List Frame) :
    handleFrames env (fs ++ gs) s =
      match handleFrames env fs s with
      | (.returned _, s) => handleFrames env gs s
      | (e, s) => (e, s) := by
  induction fs generalizing s with
  | nil => rfl
  | cons f fs ih =>
    simp only [List.cons_append, handleFrames]
    rcases handled : handleFrame env s f with ⟨_ | _ | _, s'⟩
    · exact ih
    · rfl
    · rfl

/-- What each of some frames keeps, all of them keep, however handling them ends. -/
theorem handleFrames_invariant {P : Session → Prop} {fs : List Frame}
    (frame : ∀ s, ∀ f ∈ fs, P s → P (handleFrame env s f).2) (h : P s) :
    P (handleFrames env fs s).2 := by
  induction fs generalizing s with
  | nil => exact h
  | cons f fs ih =>
    have next := frame s f List.mem_cons_self h
    rw [handleFrames]
    rcases handled : handleFrame env s f with ⟨_ | _ | _, s'⟩ <;> rw [handled] at next
    · apply ih _ next
      intro s g hg
      exact frame s g (List.mem_cons_of_mem f hg)
    · exact next
    · exact next

theorem handleFrames_idle (env : Env) {s : Session} (fs : List Frame) (h : s.state = .idle) :
    (handleFrames env fs s).2.state = .idle := by
  apply handleFrames_invariant (P := (·.state = .idle)) _ h
  exact fun s f _ => handleFrame_idle env s f

theorem handleFrames_ended {f : Frame} {e : Exit} {s' : Session}
    (h : handleFrame env s f = (e, s')) (ended : ∀ ok, e ≠ .returned ok) (fs : List Frame) :
    handleFrames env (f :: fs) s = (e, s') := by
  rw [handleFrames, h]
  cases e with
  | returned ok => exact absurd rfl (ended ok)
  | threw => rfl
  | aborted => rfl

theorem handleFrames_returned {ok : Bool} {fs : List Frame}
    (h : (handleFrames env fs s).1 = .returned ok) : ok = true := by
  induction fs generalizing s with
  | nil => exact (Exit.returned.inj h).symm
  | cons f fs ih =>
    rcases handled : handleFrame env s f with ⟨e, s'⟩
    by_cases ended : ∃ ok, e = .returned ok
    · obtain ⟨_, rfl⟩ := ended
      rw [handleFrames, handled] at h
      exact ih h
    · rw [not_exists] at ended
      rw [handleFrames_ended handled ended] at h
      exact absurd h (ended ok)

/-- **Handing on.** The frames are handed on in order, as long as handling them
returns; the last of them need not. -/
theorem handleFrames_handed (env : Env) (s : Session) (fs : List Frame) :
    ∃ handed, (handleFrames env fs s).2.handed = s.handed ++ handed ∧ handed <+: fs ∧
      ((handleFrames env fs s).1 = .returned true → handed = fs) ∧
      (handed = fs ↔ (handleFrames env fs.dropLast s).1 = .returned true) := by
  induction fs generalizing s with
  | nil =>
    refine ⟨[], ?_, List.prefix_refl [], fun _ => rfl, iff_of_true rfl rfl⟩
    rw [handleFrames, List.append_nil]
  | cons f fs ih =>
    have logged := handleFrame_handed env s f
    rcases handled : handleFrame env s f with ⟨e, s'⟩
    rw [handled] at logged
    by_cases ended : ∃ ok, e = .returned ok
    · obtain ⟨_, rfl⟩ := ended
      obtain ⟨handed, log, pre, all, last⟩ := ih s'
      have step (gs : List Frame) : handleFrames env (f :: gs) s = handleFrames env gs s' := by
        rw [handleFrames, handled]
      refine ⟨f :: handed, ?_, (List.prefix_cons_inj f).mpr pre, ?_, ?_⟩
      · rw [step, log, logged, List.append_assoc, List.singleton_append]
      · rw [step]
        intro returned
        rw [all returned]
      · rw [List.cons_inj_right, last]
        cases fs with
        | nil => exact Iff.rfl
        | cons g fs => rw [List.dropLast_cons_cons, step]
    · rw [not_exists] at ended
      refine ⟨[f], ?_, ⟨fs, rfl⟩, ?_, ?_⟩
      · rw [handleFrames_ended handled ended, logged]
      · rw [handleFrames_ended handled ended]
        intro returned
        exact absurd returned (ended true)
      · cases fs with
        | nil => exact iff_of_true rfl rfl
        | cons g fs =>
          rw [List.dropLast_cons_cons, handleFrames_ended handled ended]
          exact iff_of_false (by simp) (ended true)

end

/-! ## Reachable sessions -/

/-- What a read of some bytes has `toFrames` work on, and the session at that
point: the bytes, or what stands behind the preface. -/
def region (env : Env) (c : Client) (data : Bytes) : Session × Bytes :=
  let s := { c.session with state := .idle }
  if prefaceStr.isPrefixOf (data ++ (resize c.recvBuffer bufferSize).drop data.length) then
    ((applySettings env s).2, data.drop prefaceStr.length)
  else (s, data)

/-- **A read.** The frames of its region are handled in the session it leaves. -/
theorem doRequest_bytes (env : Env) (c : Client) (data : Bytes) :
    ∃ buffer, doRequest env c (.bytes data) =
      match Frame.toFrames (region env c data).2 with
      | none => (.threw, ⟨(region env c data).1, buffer⟩)
      | some frames =>
        ((handleFrames env frames (region env c data).1).1,
          ⟨(handleFrames env frames (region env c data).1).2, buffer⟩) := by
  unfold doRequest region
  dsimp only
  generalize (resize c.recvBuffer bufferSize).drop data.length = left
  split
  · obtain ⟨ok, s', sent, _⟩ := applySettings_returns env { c.session with state := .idle }
    have cut : ((data ++ left).drop prefaceStr.length).take (data.length - prefaceStr.length) =
        data.drop prefaceStr.length := by
      rw [← List.drop_take, List.take_left]
    refine ⟨(data ++ left).drop prefaceStr.length, ?_⟩
    rw [sent]
    simp only [handleBuffer, cut]
  · refine ⟨data ++ left, ?_⟩
    simp only [handleBuffer, List.take_left]

/-- A read gives no more than the buffer holds. -/
def ReadResult.Fits : ReadResult → Prop
  | .bytes data => data.length ≤ bufferSize
  | _ => True

/-- The clients any reads lead to that return. The files may be others at each. -/
inductive Reached : Client → Prop
  | new : Reached {}
  | read {env : Env} {c c' : Client} {read : ReadResult} {ok : Bool} (before : Reached c)
      (fits : read.Fits) (done : doRequest env c read = (.returned ok, c')) : Reached c'

/-- The sessions of a connection: between two reads, and after any of the frames
of one. -/
inductive Reachable : Session → Prop
  | between {c : Client} (reached : Reached c) : Reachable c.session
  | within {env : Env} {c : Client} {data : Bytes} {frames handled : List Frame}
      (reached : Reached c) (fits : data.length ≤ bufferSize)
      (parsed : Frame.toFrames (region env c data).2 = some frames) (first : handled <+: frames) :
      Reachable (handleFrames env handled (region env c data).1).2

/-! What is kept by reading, by the server's settings and by every frame that
fits a read, is kept by a read, and holds of every session reached. -/

section
variable {P : Session → Prop}
  (flags : ∀ s state fdState errorCode, P s → P { s with state, fdState, errorCode })
  (settings : ∀ env s, P s → P (applySettings env s).2)
  (frame : ∀ env s f, f.payload.length ≤ bufferSize → P s → P (handleFrame env s f).2)

include flags settings in
theorem region_invariant (env : Env) {c : Client} (data : Bytes) (h : P c.session) :
    P (region env c data).1 := by
  have idle : P { c.session with state := .idle } := flags c.session .idle _ _ h
  unfold region
  dsimp only
  split
  · exact settings env _ idle
  · exact idle

theorem length_region (env : Env) (c : Client) (data : Bytes) :
    (region env c data).2.length ≤ data.length := by
  unfold region
  dsimp only
  split
  · rw [List.length_drop]
    omega
  · exact Nat.le_refl _

include flags settings frame

/-- The frames of a read fit it. -/
theorem frames_invariant {env : Env} {c : Client} {data : Bytes} (fits : data.length ≤ bufferSize)
    {frames handled : List Frame} (parsed : Frame.toFrames (region env c data).2 = some frames)
    (first : handled <+: frames) (h : P c.session) :
    P (handleFrames env handled (region env c data).1).2 := by
  apply handleFrames_invariant
  · intro s f hf
    have within := Frame.length_toFrames parsed f (first.subset hf)
    exact frame env s f (within.trans ((length_region env c data).trans fits))
  · exact region_invariant flags settings env data h

theorem doRequest_invariant (env : Env) {c : Client} {read : ReadResult} (fits : read.Fits)
    (h : P c.session) : P (doRequest env c read).2.session := by
  cases read with
  | failed errno =>
    simp only [doRequest]
    split
    · exact flags c.session .idle _ _ h
    · exact flags c.session .idle _ errno h
  | closed => exact flags c.session .idle .closed _ h
  | bytes data =>
    obtain ⟨buffer, read⟩ := doRequest_bytes env c data
    rw [read]
    split
    · exact region_invariant flags settings env data h
    · next frames parsed =>
      exact frames_invariant flags settings frame fits parsed (List.prefix_refl _) h

theorem Reachable.invariant (new : P {}) {s : Session} (h : Reachable s) : P s := by
  have reached {c : Client} (h : Reached c) : P c.session := by
    induction h with
    | new => exact new
    | @read env c c' read ok before fits done ih =>
      have next := doRequest_invariant flags settings frame env fits ih
      rw [done] at next
      exact next
  cases h with
  | between before => exact reached before
  | within before fits parsed first =>
    exact frames_invariant flags settings frame fits parsed first (reached before)

end

end Http2Server
