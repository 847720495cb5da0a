import Http2Server.Hpack.Decode
import Http2Server.Response
import Http2Server.Settings
import Http2Server.WebBinder

/-!
# Streams, sessions and sending

`Session` holds the fields of `Client` that the frame handlers read or write,
and two logs the source does not have: the `SSL_write` calls with their
results, and the calls of `handleFrame` and `respondGet`. The pool runs a task
while its submitter waits, so a `sendData` is one `SSL_write`.
-/

namespace Http2Server

open Hpack

inductive StreamState where
  | idle
  | reservedLocal
  | reservedRemote
  | open
  | halfClosedLocal
  | halfClosedRemote
  | closed
  deriving DecidableEq, Repr

/-- A `char`, signed. -/
def toChar (n : Nat) : Int := if n % 256 < 128 then n % 256 else (n % 256 : Int) - 256

/-- A `uint32_t` as an `int`. -/
def toInt (n : Nat) : Int := if n % 2 ^ 32 < 2 ^ 31 then n % 2 ^ 32 else (n % 2 ^ 32 : Int) - 2 ^ 32

/-- The constructor leaves the two flags unset; whoever makes a stream sets them
at once. Stream ids stay `uint32_t`: the conversions to `int` and back cancel. -/
structure Stream where
  id : Nat
  weight : Int := 0
  state : StreamState := .idle
  data : Bytes := []
  headerFragments : Bytes := []
  headers : Headers := []
  exclusive : Bool := false
  dependency : Int := -1
  endHeader : Bool := false
  endStream : Bool := false
  deriving DecidableEq, Repr

inductive ClientState where
  | idle
  | reading
  | writing
  | closed
  | handshake
  deriving DecidableEq, Repr

/-- The states a client's descriptor is ever given. -/
inductive FdState where
  | new
  | closed
  deriving DecidableEq, Repr

/-- What a connection runs against: the files, the bindings, and the result of
the `SSL_write` after the first `n`, on the bytes given to it. -/
structure Env where
  files : FileSystem
  binder : WebBinder
  sslWrite : Nat → Bytes → Int

/-- The server of `main` on `siteDisk`, every write taking all of its bytes. -/
def siteEnv : Env where
  files := siteDisk.fileSystem
  binder := (WebBinder.ofMain siteDisk.fileSystem).getD {}
  sslWrite _ data := data.length

/-- An `SSL_write`. -/
structure Sent where
  data : Bytes
  weight : Int
  result : Int
  deriving DecidableEq, Repr

/-- The bytes that went out. -/
def Sent.written (e : Sent) : Bytes := e.data.take e.result.toNat

inductive Call where
  | handleFrame (f : Frame)
  | respondGet (sid : Nat)
  deriving DecidableEq, Repr

structure Session where
  streams : Nat → Option Stream := fun _ => none
  hpackDecoder : Table := Table.new
  settings : Settings := {}
  state : ClientState := .handshake
  fdState : FdState := .new
  errorCode : Nat := 0
  sent : List Sent := []
  calls : List Call := []

/-- How a call ends: its result, an exception, or the end of the process. -/
inductive Exit where
  | returned (ok : Bool)
  | threw
  | aborted
  deriving DecidableEq, Repr

namespace Session

def setStream (s : Session) (sid : Nat) (strm : Stream) : Session :=
  { s with streams := fun k => if k = sid then some strm else s.streams k }

def eraseStream (s : Session) (sid : Nat) : Session :=
  { s with streams := fun k => if k = sid then none else s.streams k }

@[simp] theorem setStream_same (s : Session) (sid : Nat) (strm : Stream) :
    (s.setStream sid strm).streams sid = some strm := if_pos rfl

@[simp] theorem eraseStream_same (s : Session) (sid : Nat) :
    (s.eraseStream sid).streams sid = none := if_pos rfl

theorem setStream_other (s : Session) {sid other : Nat} (h : other ≠ sid) (strm : Stream) :
    (s.setStream sid strm).streams other = s.streams other := if_neg h

theorem eraseStream_other (s : Session) {sid other : Nat} (h : other ≠ sid) :
    (s.eraseStream sid).streams other = s.streams other := if_neg h

def log (s : Session) (c : Call) : Session := { s with calls := s.calls ++ [c] }

end Session

def sendData (env : Env) (s : Session) (data : Bytes) (weight : Int) : Bool × Session :=
  let result := env.sslWrite s.sent.length data
  (0 ≤ result, { s with state := .idle, sent := s.sent ++ [⟨data, weight, result⟩] })

def sendFrame (env : Env) (s : Session) (f : Frame) (weight : Int) : Exit × Session :=
  match f.encode with
  | none => (.aborted, s)
  | some bytes =>
    let (ok, s) := sendData env s bytes weight
    (.returned ok, s)

/-- The loop over a response's buffers, left at the first that fails. -/
def sendAll (env : Env) (weight : Int) : List Bytes → Session → Bool × Session
  | [], s => (true, s)
  | buffer :: rest, s =>
    match sendData env s buffer weight with
    | (false, s) => (false, s)
    | (true, s) => sendAll env weight rest s

/-- The result of the acknowledgement's `sendFrame` is dropped. -/
def ackSettings (env : Env) (s : Session) (f : Frame) : Exit × Session :=
  match ({} : Settings).decode f.payload with
  | (.noError, settings) =>
    match sendFrame env { s with settings }
        { type := FrameType.settings.code, flags := Flag.ack } 0 with
    | (.returned _, s) => (.returned true, s)
    | (e, s) => (e, s)
  | _ => (.returned false, s)

def applySettings (env : Env) (s : Session) : Exit × Session :=
  sendFrame env s { type := FrameType.settings.code, payload := ({} : Settings).encode } 0

namespace Session

/-! ## What has been sent -/

/-- The frames of one `sendData`. -/
def framesOf (e : Sent) : List Frame := (Frame.toFrames e.data).getD []

/-- All frames submitted so far. -/
def submitted (s : Session) : List Frame := s.sent.flatMap framesOf

/-- The bytes that went out so far. -/
def written (s : Session) : Bytes := s.sent.flatMap Sent.written

/-- The `SSL_write` calls for a list of buffers, up to the first that fails. -/
def attempts (env : Env) (weight : Int) : Nat → List Bytes → List Sent
  | _, [] => []
  | n, buffer :: rest =>
    let result := env.sslWrite n buffer
    ⟨buffer, weight, result⟩ ::
      if result < 0 then [] else attempts env weight (n + 1) rest

/-- Every write for the buffers succeeds. -/
def Succeed (env : Env) : Nat → List Bytes → Prop
  | _, [] => True
  | n, buffer :: rest => 0 ≤ env.sslWrite n buffer ∧ Succeed env (n + 1) rest

instance decidableSucceed (env : Env) : ∀ n buffers, Decidable (Succeed env n buffers)
  | _, [] => inferInstanceAs (Decidable True)
  | n, buffer :: rest =>
    have := decidableSucceed env (n + 1) rest
    inferInstanceAs (Decidable (0 ≤ env.sslWrite n buffer ∧ Succeed env (n + 1) rest))

section
variable {env : Env} {n : Nat} {buffer : Bytes}

theorem attempts_passed (h : 0 ≤ env.sslWrite n buffer) (weight : Int) (rest : List Bytes) :
    attempts env weight n (buffer :: rest) =
      ⟨buffer, weight, env.sslWrite n buffer⟩ :: attempts env weight (n + 1) rest := by
  rw [attempts, if_neg (by omega)]

theorem attempts_failed (h : env.sslWrite n buffer < 0) (weight : Int) (rest : List Bytes) :
    attempts env weight n (buffer :: rest) = [⟨buffer, weight, env.sslWrite n buffer⟩] := by
  rw [attempts, if_pos h]

theorem succeed_passed (h : 0 ≤ env.sslWrite n buffer) (rest : List Bytes) :
    Succeed env n (buffer :: rest) ↔ Succeed env (n + 1) rest :=
  and_iff_right h

theorem succeed_failed (h : env.sslWrite n buffer < 0) (rest : List Bytes) :
    ¬ Succeed env n (buffer :: rest) :=
  fun ok => absurd ok.1 (by omega)

end

/-- A session after sending buffers: the log has grown by the attempts. -/
def afterSend (s : Session) (env : Env) (weight : Int) (buffers : List Bytes) : Session :=
  { s with state := .idle, sent := s.sent ++ attempts env weight s.sent.length buffers }

theorem sendAll_cons (env : Env) (weight : Int) (buffer : Bytes) (rest : List Bytes)
    (s : Session) :
    sendAll env weight (buffer :: rest) s =
      (decide (Succeed env s.sent.length (buffer :: rest)),
        s.afterSend env weight (buffer :: rest)) := by
  unfold afterSend
  rcases Int.lt_or_le (env.sslWrite s.sent.length buffer) 0 with failed | passed
  · simp only [sendAll, sendData, attempts_failed failed, succeed_failed failed,
      show ¬ 0 ≤ env.sslWrite s.sent.length buffer by omega, decide_false]
  · cases rest with
    | nil =>
      simp only [attempts_passed passed, succeed_passed passed, sendAll, sendData, passed,
        decide_true]
      rfl
    | cons next rest =>
      rw [sendAll, sendData]
      simp only [passed, decide_true, sendAll_cons env weight next rest, afterSend,
        attempts_passed passed, succeed_passed passed, List.length_append, List.length_singleton,
        List.append_assoc, List.cons_append, List.nil_append]

theorem sendAll_eq (env : Env) (weight : Int) {buffers : List Bytes} (hne : buffers ≠ [])
    (s : Session) :
    sendAll env weight buffers s =
      (decide (Succeed env s.sent.length buffers), s.afterSend env weight buffers) := by
  obtain ⟨buffer, rest, rfl⟩ := List.exists_cons_of_ne_nil hne
  exact sendAll_cons env weight buffer rest s

/-- The attempts are those of the first buffers, in order. -/
theorem attempts_prefix (env : Env) (weight : Int) (n : Nat) (buffers : List Bytes) :
    (attempts env weight n buffers).map Sent.data <+: buffers := by
  induction buffers generalizing n with
  | nil => exact List.prefix_refl []
  | cons buffer rest ih =>
    rcases Int.lt_or_le (env.sslWrite n buffer) 0 with failed | passed
    · rw [attempts_failed failed]
      exact ⟨rest, rfl⟩
    · rw [attempts_passed passed]
      exact (List.prefix_cons_inj buffer).mpr (ih (n + 1))

theorem attempts_ne_nil (env : Env) (weight : Int) (n : Nat) {buffers : List Bytes}
    (hne : buffers ≠ []) : attempts env weight n buffers ≠ [] := by
  obtain ⟨buffer, rest, rfl⟩ := List.exists_cons_of_ne_nil hne
  simp [attempts]

theorem attempts_succeed {env : Env} (weight : Int) {n : Nat} {buffers : List Bytes}
    (h : Succeed env n buffers) : (attempts env weight n buffers).map Sent.data = buffers := by
  induction buffers generalizing n with
  | nil => rfl
  | cons buffer rest ih => rw [attempts_passed h.1, List.map_cons, ih h.2]

/-- The frames of writes whose bytes are whole plain frames. -/
theorem framesOf_groups {sent : List Sent} {groups : List (List Frame)}
    (h : sent.map Sent.data = groups.map (·.flatMap Frame.bytes))
    (plain : ∀ f ∈ groups.flatten, f.Plain) :
    sent.flatMap framesOf = groups.flatten.map Frame.onWire := by
  induction sent generalizing groups with
  | nil =>
    rw [List.map_nil, eq_comm, List.map_eq_nil_iff] at h
    simp [h]
  | cons e sent ih =>
    cases groups with
    | nil => simp at h
    | cons group groups =>
      simp only [List.map_cons, List.cons.injEq] at h
      have first : framesOf e = group.map Frame.onWire := by
        rw [framesOf, h.1, Frame.toFrames_bytes fun f hf => plain f (by simp [hf]),
          Option.getD_some]
      rw [List.flatMap_cons, first, ih h.2 fun f hf => plain f (List.mem_append_right _ hf),
        List.flatten_cons, List.map_append]

/-- The frames submitted by sending buffers of whole plain frames: those of the
first buffers, at least one, and of all if every write succeeds. -/
theorem submitted_afterSend (s : Session) (env : Env) (weight : Int)
    {groups : List (List Frame)} (hne : groups ≠ []) (plain : ∀ f ∈ groups.flatten, f.Plain) :
    ∃ tried, tried <+: groups ∧ tried ≠ [] ∧
      (s.afterSend env weight (groups.map (·.flatMap Frame.bytes))).submitted =
        s.submitted ++ tried.flatten.map Frame.onWire ∧
      (Succeed env s.sent.length (groups.map (·.flatMap Frame.bytes)) → tried = groups) := by
  have first := attempts_prefix env weight s.sent.length (groups.map (·.flatMap Frame.bytes))
  rw [List.prefix_iff_eq_take, List.length_map, ← List.map_take] at first
  generalize hk : (attempts env weight s.sent.length
    (groups.map (·.flatMap Frame.bytes))).length = k at first
  refine ⟨groups.take k, List.take_prefix k groups, ?_, ?_, ?_⟩
  · rw [Ne, List.take_eq_nil_iff]
    rintro (rfl | rfl)
    · exact attempts_ne_nil env weight s.sent.length (by simpa using hne)
        (List.eq_nil_of_length_eq_zero hk)
    · exact hne rfl
  · rw [submitted, afterSend, List.flatMap_append, submitted, framesOf_groups first]
    intro f hf
    exact plain f ((List.take_prefix k groups).flatten.subset hf)
  · intro ok
    have whole := congrArg List.length (attempts_succeed weight ok)
    rw [List.length_map, hk, List.length_map] at whole
    rw [whole, List.take_length]

end Session

end Http2Server
