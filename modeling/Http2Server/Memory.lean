import Http2Server.Client
import Http2Server.OwnStream
import Http2Server.WholeFrames
import Mathlib.Algebra.BigOperators.Group.Finset.Piecewise
import Mathlib.Algebra.Order.BigOperators.Group.Finset

/-!
# What a connection holds on to

The code has no limit on streams, bodies or header fragments. What bounds them is what was
received: a stream stands for the nine bytes of a HEADERS frame's header at least, and
every byte it holds came in a payload.

- `fee_toFrames`: no byte of a read is counted twice, whatever the bytes are.
- `handleFrame_held`: what one frame adds is what it costs.
- `held_le_received`: no more is held than was received.
-/

namespace Http2Server

open FrameHandler

/-- What a stream has to be paid with: its place in the map, its body and the fragments
of its header block. -/
def Stream.held (strm : Stream) : Nat := 9 + strm.data.length + strm.headerFragments.length

def Session.held (s : Session) (sid : Nat) : Nat := ((s.streams sid).map Stream.held).getD 0

/-- What a frame pays: its payload, and its header where it can open a stream. -/
def Frame.cost (f : Frame) : Nat :=
  (if f.type = FrameType.headers.code then 9 else 0) + f.payload.length

/-! ## The frames of a read -/

namespace Frame

/-- Nine bytes for a frame of some kind, and its payload. -/
def fee (kind : Frame → Prop) [DecidablePred kind] (f : Frame) : Nat :=
  (if kind f then 9 else 0) + f.payload.length

theorem fee_le (kind : Frame → Prop) [DecidablePred kind] (f : Frame) :
    f.fee kind ≤ 9 + f.payload.length := by
  unfold fee
  split <;> omega

/-- A body that is refused has set no payload. -/
theorem decodeBody_rejected {f g : Frame} {b : Body} (h : decodeBody g b = .rejected f) :
    f.payload = g.payload := by
  unfold decodeBody at h
  split at h
  · cases h
    rfl
  · next b' _ =>
    have kept := (stripPriority_spec g b').1
    split at h
    · next f' failed =>
      cases h
      rwa [failed] at kept
    · next f' b'' found =>
      rw [found] at kept
      split at h
      · cases h
        exact kept
      · split at h <;> cases h

/-- The payload of a frame with its length in the buffer is within that length. -/
theorem payload_filled {f : Frame} {b0 b1 b2 type flags b5 b6 b7 b8 : Byte} {p : Bytes}
    (short : p.length < 2 ^ 62) (inside : bigEndian24 b0 b1 b2 ≤ p.length)
    (h : f ∈ (decode {} (b0 :: b1 :: b2 :: type :: flags :: b5 :: b6 :: b7 :: b8 :: p)).frame) :
    f.payload.length ≤ bigEndian24 b0 b1 b2 := by
  cases decoded : decode {} (b0 :: b1 :: b2 :: type :: flags :: b5 :: b6 :: b7 :: b8 :: p) with
  | accepted g =>
    have first := (decode_accepted_iff (by simp only [List.length_cons]; omega)).mp ⟨g, decoded⟩
    rw [decode_whole {} first] at h
    obtain rfl := Option.some.inj h
    simp only [overwrite, stripped, List.length_take]
    omega
  | rejected g =>
    rw [decoded] at h
    obtain rfl := Option.some.inj h
    rw [decode_filled {} inside] at decoded
    rw [decodeBody_rejected decoded]
    exact Nat.zero_le _
  | threw =>
    rw [decoded] at h
    cases h

section
variable {kind : Frame → Prop} [DecidablePred kind] (other : ¬ kind {})
include other

/-- The frame at the front costs no more than the bytes that are passed over for it. -/
theorem fee_decode {f : Frame} {bytes : Bytes} (short : bytes.length < 2 ^ 62)
    (h : f ∈ (decode {} bytes).frame) : f.fee kind + (next bytes).length ≤ bytes.length := by
  have free : fee kind {} = 0 := by
    rw [fee, if_neg other]
    rfl
  have onwards : (next bytes).length ≤ bytes.length := by
    rw [next, List.length_drop]
    exact Nat.sub_le _ _
  rcases header_cases bytes with few | ⟨b0, b1, b2, type, flags, b5, b6, b7, b8, p, rfl⟩
  · rw [decode_short {} few] at h
    obtain rfl := Option.some.inj h
    omega
  · rcases Nat.lt_or_ge p.length (bigEndian24 b0 b1 b2) with cut | inside
    · rw [decode_truncated {} cut] at h
      obtain rfl := Option.some.inj h
      omega
    · simp only [List.length_cons] at short
      have payload := payload_filled (by omega) inside h
      have cost := f.fee_le kind
      have rest : (next (b0 :: b1 :: b2 :: type :: flags :: b5 :: b6 :: b7 :: b8 :: p)).length =
          p.length - bigEndian24 b0 b1 b2 := by
        rw [next, List.length_drop]
        simp only [List.length_cons, List.getD_cons_zero, List.getD_cons_succ]
        omega
      simp only [rest, List.length_cons]
      omega

theorem fee_toFrames {bytes : Bytes} (short : bytes.length < 2 ^ 62) {fs : List Frame}
    (h : toFrames bytes = some fs) : (fs.map (fee kind)).sum ≤ bytes.length := by
  generalize hn : bytes.length = n
  induction n using Nat.strongRecOn generalizing bytes fs with
  | ind n ih =>
    by_cases empty : bytes = []
    · subst empty
      obtain rfl := Option.some.inj h
      exact Nat.zero_le _
    · obtain ⟨f, gs, rfl, first, rest⟩ := toFrames_pushes empty h
      have shorter := length_next empty
      have front := fee_decode other short first
      have behind := ih _ (hn ▸ shorter) (Nat.lt_trans shorter short) rest rfl
      rw [List.map_cons, List.sum_cons]
      omega

end

theorem cost_toFrames {bytes : Bytes} (short : bytes.length < 2 ^ 62) {fs : List Frame}
    (h : toFrames bytes = some fs) : (fs.map cost).sum ≤ bytes.length :=
  fee_toFrames (by decide : ¬ ({} : Frame).type = FrameType.headers.code) short h

end Frame

/-! ## What a frame adds -/

section
variable {s : Session} {f : Frame}

theorem held_opened (s : Session) (f : Frame) :
    (openStream s f).held ≤ s.held f.sid + 9 + f.payload.length := by
  unfold openStream Session.held
  cases s.streams f.sid with
  | none => simp [Stream.held]
  | some strm =>
    simp only [Stream.held, Option.getD_some, Option.map_some, List.length_append]
    omega

theorem held_received (s : Session) (strm : Stream) : (received s strm).held ≤ strm.held := by
  unfold received Stream.held
  dsimp only
  split
  · exact Nat.le_refl _
  · simp

/-- What a frame leaves of its own stream. -/
theorem held_turns {left : Option Stream} (turns : Turns s f left) :
    (left.map Stream.held).getD 0 ≤ s.held f.sid + f.cost := by
  have known {strm : Stream} (found : s.streams f.sid = some strm) : s.held f.sid = strm.held := by
    rw [Session.held, found, Option.map_some, Option.getD_some]
  have opened (type : f.type = FrameType.headers.code) :
      (openStream s f).held ≤ s.held f.sid + f.cost := by
    have opened := held_opened s f
    rw [Frame.cost, if_pos type]
    omega
  have continued {strm : Stream} (found : s.streams f.sid = some strm) :
      (continueStream strm f).held ≤ s.held f.sid + f.cost := by
    rw [known found]
    simp only [Stream.held, continueStream, List.length_append, Frame.cost]
    omega
  cases turns with
  | same => exact Nat.le_add_right _ _
  | data type found =>
    rw [known found]
    simp only [Stream.held, Option.map_some, Option.getD_some, List.length_append, Frame.cost]
    omega
  | priority type read found =>
    rw [known found]
    exact Nat.le_add_right _ _
  | opened type => exact opened type
  | continued type found => exact continued found
  | @block strm completes =>
    refine (held_received s strm).trans ?_
    obtain ⟨_, ⟨type, rfl⟩ | ⟨_, old, found, _, rfl⟩⟩ := completed_cases completes
    · exact opened type
    · exact continued found
  | ended ends => exact Nat.zero_le _

/-- One frame. -/
theorem handleFrame_held (env : Env) (s : Session) (f : Frame) (sid : Nat) :
    (handleFrame env s f).2.held sid ≤ s.held sid + if sid = f.sid then f.cost else 0 := by
  by_cases own : sid = f.sid
  · rw [if_pos own, own]
    have turns := dispatch_turns env (s.log (.handleFrame f)) f
    exact held_turns (s := s.log (.handleFrame f)) turns
  · rw [if_neg own]
    by_cases away : f.type = FrameType.goAway.code
    · have gone : (handleFrame env s f).2.streams sid = none := by
        rw [handleFrame, dispatch, away, FrameType.ofCode_code]
        rfl
      rw [Session.held, gone]
      exact Nat.zero_le _
    · have other : (handleFrame env s f).2.streams sid = s.streams sid :=
        dispatch_other env (s.log (.handleFrame f)) f own away
      rw [Session.held, other]
      exact Nat.le_refl _

theorem handleFrame_total (env : Env) (s : Session) (f : Frame) (sids : Finset Nat) :
    ∑ sid ∈ sids, (handleFrame env s f).2.held sid ≤ ∑ sid ∈ sids, s.held sid + f.cost := by
  calc ∑ sid ∈ sids, (handleFrame env s f).2.held sid
      ≤ ∑ sid ∈ sids, (s.held sid + if sid = f.sid then f.cost else 0) :=
        Finset.sum_le_sum fun sid _ => handleFrame_held env s f sid
    _ = ∑ sid ∈ sids, s.held sid + if f.sid ∈ sids then f.cost else 0 := by
        rw [Finset.sum_add_distrib, Finset.sum_ite_eq']
    _ ≤ ∑ sid ∈ sids, s.held sid + f.cost := by
        split <;> omega

theorem handleFrames_total (env : Env) (fs : List Frame) (s : Session) (sids : Finset Nat) :
    ∑ sid ∈ sids, (handleFrames env fs s).2.held sid ≤
      ∑ sid ∈ sids, s.held sid + (fs.map Frame.cost).sum := by
  induction fs generalizing s with
  | nil => exact Nat.le_refl _
  | cons f fs ih =>
    have first := handleFrame_total env s f sids
    rw [handleFrames, List.map_cons, List.sum_cons]
    rcases handled : handleFrame env s f with ⟨_ | _ | _, s'⟩ <;> rw [handled] at first
    · have rest := ih s'
      dsimp only at first ⊢
      omega
    · dsimp only at first ⊢
      omega
    · dsimp only at first ⊢
      omega

end

/-! ## Connections -/

/-- The bytes that a read has brought. -/
def ReadResult.received : ReadResult → Nat
  | .bytes data => data.length
  | _ => 0

theorem region_held (env : Env) (c : Client) (data : Bytes) (sid : Nat) :
    (region env c data).1.held sid = c.session.held sid := by
  unfold region
  dsimp only
  split
  · rw [Session.held, applySettings, sendFrame_streams]
    rfl
  · rfl

theorem doRequest_total (env : Env) (c : Client) {read : ReadResult} (fits : read.Fits)
    (sids : Finset Nat) :
    ∑ sid ∈ sids, (doRequest env c read).2.session.held sid ≤
      ∑ sid ∈ sids, c.session.held sid + read.received := by
  cases read with
  | failed errno =>
    rw [doRequest]
    dsimp only
    split <;> exact Nat.le_refl _
  | closed => exact Nat.le_refl _
  | bytes data =>
    obtain ⟨buffer, whole⟩ := doRequest_bytes env c data
    have same : ∑ sid ∈ sids, (region env c data).1.held sid = ∑ sid ∈ sids, c.session.held sid :=
      Finset.sum_congr rfl fun sid _ => region_held env c data sid
    rw [whole]
    split
    · dsimp only
      rw [same]
      exact Nat.le_add_right _ _
    · next frames parsed =>
      have inside := length_region env c data
      have fit : data.length ≤ 4096 := fits
      have cost := Frame.cost_toFrames (by omega) parsed
      have total := handleFrames_total env frames (region env c data).1 sids
      rw [same] at total
      rw [ReadResult.received]
      dsimp only
      omega

theorem doRequests_total (env : Env) {reads : List ReadResult} (fit : ∀ read ∈ reads, read.Fits)
    (c : Client) (sids : Finset Nat) :
    ∑ sid ∈ sids, (doRequests env reads c).2.session.held sid ≤
      ∑ sid ∈ sids, c.session.held sid + (reads.map ReadResult.received).sum := by
  induction reads generalizing c with
  | nil => exact Nat.le_refl _
  | cons read reads ih =>
    rw [List.forall_mem_cons] at fit
    have first := doRequest_total env c fit.1 sids
    rw [doRequests, List.map_cons, List.sum_cons]
    rcases done : doRequest env c read with ⟨_ | _ | _, c'⟩ <;> rw [done] at first
    · have rest := ih fit.2 c'
      dsimp only at first ⊢
      omega
    · dsimp only at first ⊢
      omega
    · dsimp only at first ⊢
      omega

/-- **Memory.** However a connection goes and ends, nine bytes for every stream that is known,
with all bodies and header fragments held, are no more than what was received on it. -/
theorem held_le_received (env : Env) (reads : List ReadResult) (fit : ∀ read ∈ reads, read.Fits)
    (sids : Finset Nat) :
    let s := (doRequests env reads {}).2.session
    ∑ sid ∈ sids, s.held sid ≤ (reads.map ReadResult.received).sum ∧
      ((∀ sid ∈ sids, s.streams sid ≠ none) →
        9 * sids.card ≤ (reads.map ReadResult.received).sum) := by
  intro s
  have total := doRequests_total env fit {} sids
  have empty : ∑ sid ∈ sids, ({} : Session).held sid = 0 := Finset.sum_eq_zero fun _ _ => rfl
  rw [empty, Nat.zero_add] at total
  refine ⟨total, fun known => ?_⟩
  have each : ∀ sid ∈ sids, 9 ≤ s.held sid := by
    intro sid member
    obtain ⟨strm, found⟩ := Option.ne_none_iff_exists'.mp (known sid member)
    rw [Session.held, found, Option.map_some, Option.getD_some, Stream.held]
    omega
  calc 9 * sids.card = ∑ _ ∈ sids, 9 := by rw [Finset.sum_const_nat fun _ _ => rfl, Nat.mul_comm]
    _ ≤ ∑ sid ∈ sids, s.held sid := Finset.sum_le_sum each
    _ ≤ (reads.map ReadResult.received).sum := total

/-- A stream with its header block completed stands for its nine bytes. -/
theorem held_le_received_post :
    (doRequests siteEnv [.bytes postOpening.bytes] {}).2.session.held 1 = 9 ∧
      ∑ sid ∈ {1}, (doRequests siteEnv [.bytes postOpening.bytes] {}).2.session.held sid ≤ 10 := by
  have fit : ∀ read ∈ [ReadResult.bytes postOpening.bytes], read.Fits := by
    intro read member
    rw [List.mem_singleton.mp member]
    show postOpening.bytes.length ≤ bufferSize
    decide +kernel
  exact ⟨by decide +kernel, (held_le_received siteEnv _ fit {1}).1⟩

end Http2Server
