import Http2Server.FrameLayout
import Http2Server.Lib.Blocks

/-!
# Frames on the wire

A well-formed frame as a client writes it, with its padding and priority block,
and what `toFrames` makes of its bytes.

- `toFrames_wire`: a buffer of whole frames is cut where they end.
- `pushed_iff`: the frames that come out as they were meant.
-/

namespace Http2Server

/-- PADDED and PRIORITY stand for what they announce on the types the decoder
reads them on; elsewhere they are flags like any other. -/
structure WireFrame where
  type : Byte
  flags : Byte
  sid : Nat
  padding : Option Bytes
  priority : Option PriorityBlock
  data : Bytes
  sid_lt : sid < 2 ^ 31
  padded : padding.isSome = Frame.isPadded { type, flags }
  prioritised : priority.isSome = Frame.carriesPriority { type, flags }
  padding_le : ∀ pad ∈ padding, pad.length ≤ 255
  ping : type = FrameType.ping.code → data.length = 8
  size_le : (padding.elim 0 fun pad => 1 + pad.length) + (if priority.isSome then 5 else 0) +
    data.length ≤ 16384

namespace WireFrame

/-- The pad length, or nothing. -/
def padByte (f : WireFrame) : Bytes := f.padding.elim [] fun pad => [UInt8.ofNat pad.length]

def priorityBytes (f : WireFrame) : Bytes := f.priority.elim [] PriorityBlock.bytes

def body (f : WireFrame) : Bytes :=
  f.padByte ++ (f.priorityBytes ++ (f.data ++ f.padding.getD []))

/-- Type, flags and stream id. -/
def head (f : WireFrame) : Frame := { type := f.type, flags := f.flags, sid := f.sid }

def bytes (f : WireFrame) : Bytes := f.head.header f.body.length ++ f.body

/-- A frame with the fields of a priority block. -/
def prioritise (f : Frame) (p : PriorityBlock) : Frame :=
  { f with
    hasPriority := true
    exclusive := p.exclusive
    streamDependency := p.dependency
    weight := p.weight.toNat + 1 }

/-- The frame without its padding, the priority block read into its fields. -/
def frame (f : WireFrame) : Frame :=
  { f.priority.elim f.head (prioritise f.head) with payload := f.data }

/-- A header block behind a priority block is of a length the decoder accepts:
it counts the pad length and the priority block as if they still followed. -/
def Arrives (f : WireFrame) : Prop :=
  f.priority = none ∨ 5 + f.padByte.length ≤ f.data.length ∨ f.padding = none ∧ f.data = []

instance : DecidablePred Arrives := fun _ =>
  inferInstanceAs (Decidable (_ ∨ _ ∨ _))

/-- What `toFrames` pushes for the frame. -/
def pushed (f : WireFrame) : Frame :=
  match f.priority with
  | none => f.frame
  | some p =>
    if f.data.length < f.padByte.length then f.head
    else if f.data.length < 5 + f.padByte.length then prioritise f.head p
    else f.frame

theorem pushed_iff (f : WireFrame) : f.pushed = f.frame ↔ f.Arrives := by
  unfold pushed Arrives
  cases hp : f.priority with
  | none => simp
  | some p =>
    simp only [frame, hp, Option.elim_some, reduceCtorEq, false_or]
    have noPad : f.padding = none ↔ f.padByte.length = 0 := by
      cases hpad : f.padding <;> simp [padByte, hpad]
    split
    · next below =>
      refine iff_of_false ?_ ?_
      · intro same
        have := congrArg Frame.hasPriority same
        simp [head, prioritise] at this
      · rintro (long | ⟨absent, empty⟩)
        · omega
        · rw [noPad] at absent
          omega
    · next some =>
      split
      · next short =>
        have plain : (prioritise f.head p = { prioritise f.head p with payload := f.data }) ↔
            f.data = [] :=
          ⟨fun same => (congrArg Frame.payload same).symm, fun empty => by rw [empty]; rfl⟩
        rw [plain, noPad]
        constructor
        · intro empty
          rw [empty, List.length_nil] at some
          exact .inr ⟨by omega, empty⟩
        · rintro (long | ⟨_, empty⟩)
          · omega
          · exact empty
      · next long => exact iff_of_true rfl (.inl (by omega))

/-- No frame is the one pushed for bytes that do not decode. -/
theorem frame_ne_default (f : WireFrame) : f.frame ≠ {} := by
  intro same
  have type : f.type = FrameType.ping.code := by
    have := congrArg Frame.type same
    cases hp : f.priority <;> simpa [frame, hp, prioritise, head] using this
  have empty : f.data = [] := congrArg Frame.payload same
  have := f.ping type
  simp [empty] at this

theorem length_body (f : WireFrame) :
    f.body.length = f.padByte.length + f.priorityBytes.length + f.data.length +
      (f.padding.getD []).length := by
  simp only [body, List.length_append]
  omega

theorem length_body_le (f : WireFrame) : f.body.length ≤ 16384 := by
  have size := f.size_le
  rw [length_body]
  cases hp : f.priority <;> cases hpad : f.padding <;>
    simp_all [padByte, priorityBytes, PriorityBlock.length_bytes] <;> omega

theorem bytes_ne_nil (f : WireFrame) : f.bytes ≠ [] := by simp [bytes, Frame.header]

/-! ## Decoding -/

/-- The decoder reads a priority block as it was written. -/
theorem stripPriority_block (g : Frame) (p : PriorityBlock) (rest : Bytes) {size start : Nat}
    (carries : g.carriesPriority = true) (room : start ≤ size) (small : size < 2 ^ 32) :
    g.stripPriority ⟨p.bytes ++ rest, size + 5, start⟩ =
      (prioritise g p, some ⟨rest, size, start + 5⟩) := by
  have fits : 5 + start ≤ size + 5 := by omega
  rw [Frame.stripPriority_accepts (fun _ => fits) (show size + 5 < 2 ^ 64 by omega),
    p.withPriority_bytes carries]
  simp only [Frame.priorityField, carries, ↓reduceIte, Nat.add_sub_cancel]
  rfl

theorem stripPadding_pad (g : Frame) {pad : Bytes} (rest : Bytes) {size : Nat}
    (padded : g.isPadded = true) (short : pad.length ≤ 255)
    (small : 1 + size + pad.length < 2 ^ 24) :
    g.stripPadding ⟨UInt8.ofNat pad.length :: rest, 1 + size + pad.length, 0⟩ =
      some ⟨rest, size, 1⟩ := by
  have length : g.padLength (UInt8.ofNat pad.length :: rest) = pad.length := by
    rw [Frame.padLength, if_pos padded, List.headD_cons, UInt8.toNat_ofNat']
    omega
  have field : g.padField = 1 := if_pos padded
  have left : 1 + size + pad.length - 1 - pad.length = size := by omega
  rw [Frame.stripPadding_accepts small (by rw [field, length]; omega), field, length, left]
  rfl

theorem stripPadding_wire (f : WireFrame) (rest : Bytes) :
    f.head.stripPadding ⟨f.body ++ rest, f.body.length, 0⟩ =
      some ⟨f.priorityBytes ++ (f.data ++ (f.padding.getD [] ++ rest)),
        f.priorityBytes.length + f.data.length, f.padByte.length⟩ := by
  have padded : f.head.isPadded = f.padding.isSome := f.padded.symm
  have length := f.length_body
  have small := f.length_body_le
  cases hpad : f.padding with
  | none =>
    rw [hpad] at padded
    simp [Frame.stripPadding, padded, body, padByte, hpad]
  | some pad =>
    rw [hpad] at padded
    have size : f.body.length = 1 + (f.priorityBytes.length + f.data.length) + pad.length := by
      rw [length]
      simp [padByte, hpad]
      omega
    have split : f.body ++ rest =
        UInt8.ofNat pad.length :: (f.priorityBytes ++ (f.data ++ (pad ++ rest))) := by
      simp [body, padByte, hpad]
    rw [split, size, stripPadding_pad f.head _ padded (f.padding_le pad hpad) (by omega)]
    simp [padByte, hpad]

theorem length_padByte_le (f : WireFrame) : f.padByte.length ≤ 1 := by
  cases hpad : f.padding <;> simp [padByte, hpad]

/-- Whether or not it decodes, a frame leaves what it has set in the buffer. -/
theorem decodeBody_wire (f : WireFrame) (rest : Bytes) :
    Frame.decodeBody f.head ⟨f.body ++ rest, f.body.length, 0⟩ = .accepted f.pushed ∨
      Frame.decodeBody f.head ⟨f.body ++ rest, f.body.length, 0⟩ = .rejected f.pushed := by
  have carries : f.head.carriesPriority = f.priority.isSome := f.prioritised.symm
  have small := f.length_body_le
  have length := f.length_body
  have start := f.length_padByte_le
  have room : ¬ f.data.length > (f.data ++ (f.padding.getD [] ++ rest)).length := by
    rw [List.length_append]
    omega
  simp only [Frame.decodeBody, stripPadding_wire]
  cases hp : f.priority with
  | none =>
    rw [hp] at carries
    simp only [Frame.stripPriority, carries, Option.isSome_none, Bool.false_eq_true, ↓reduceIte,
      priorityBytes, hp, Option.elim_none, List.nil_append, List.length_nil, Nat.zero_add, room,
      List.take_left, pushed, frame]
    split
    · next short =>
      have empty : f.data = [] := List.eq_nil_of_length_eq_zero (by omega)
      exact .inr (by rw [empty]; rfl)
    · exact .inl rfl
  | some p =>
    rw [hp] at carries
    simp only [priorityBytes, hp, Option.elim_some, PriorityBlock.length_bytes,
      Nat.add_comm 5 f.data.length, pushed]
    by_cases below : f.data.length < f.padByte.length
    · simp only [Frame.stripPriority, carries, Option.isSome_some, ↓reduceIte, below,
        show f.data.length + 5 < 5 + f.padByte.length by omega, or_true]
    · rw [stripPriority_block f.head p _ carries (by omega) (by omega)]
      simp only [below, ↓reduceIte, room, List.take_left]
      by_cases short : f.data.length < 5 + f.padByte.length
      · simp only [short, show f.data.length < f.padByte.length + 5 by omega, ↓reduceIte, or_true]
      · simp only [short, show ¬ f.data.length < f.padByte.length + 5 by omega, ↓reduceIte,
          frame, hp, Option.elim_some, true_or]

/-- Cutting a whole frame off the front of the buffer. -/
theorem toFrames_wire (f : WireFrame) (rest : Bytes) :
    Frame.toFrames (f.bytes ++ rest) = (Frame.toFrames rest).map (f.pushed :: ·) := by
  have small := f.length_body_le
  have head : ({ type := f.head.type, flags := f.head.flags, sid := f.head.sid % 2 ^ 31 } : Frame) =
      f.head := by
    rw [show f.head.sid % 2 ^ 31 = f.sid from Nat.mod_eq_of_lt f.sid_lt]
    rfl
  rw [bytes, List.append_assoc, Frame.toFrames_header f.head f.body rest (by omega), head]
  rcases decodeBody_wire f rest with decoded | decoded <;> rw [decoded]

theorem toFrames_whole (whole : List WireFrame) (rest : Bytes) :
    Frame.toFrames (whole.flatMap bytes ++ rest) =
      (Frame.toFrames rest).map (whole.map pushed ++ ·) := by
  induction whole with
  | nil => simp
  | cons f whole ih =>
    rw [List.flatMap_cons, List.append_assoc, toFrames_wire, ih, Option.map_map]
    rfl

/-- The part of a frame that a buffer ends with is pushed as a default frame. -/
theorem toFrames_part {f : WireFrame} {part left : Bytes} (cut : f.bytes = part ++ left)
    (some : part ≠ []) (notAll : left ≠ []) : Frame.toFrames part = .some [{}] := by
  have small := f.length_body_le
  have length := congrArg List.length cut
  have remains := List.length_pos_of_ne_nil notAll
  rw [bytes, List.length_append, List.length_append, Frame.length_header] at length
  exact Frame.toFrames_cut f.head (s := f.body.length) (by omega) ⟨left, cut.symm⟩ (by omega) some

/-- The size of a frame never needs its first byte. -/
theorem bytes_first (f : WireFrame) : ∃ more, f.bytes = 0 :: more := by
  have small := f.length_body_le
  have first : UInt8.ofNat (f.body.length >>> 16) = 0 := by
    rw [Nat.shiftRight_eq_div_pow, Nat.div_eq_of_lt (by omega)]
    rfl
  rw [bytes, Frame.header, first]
  exact ⟨_, rfl⟩

end WireFrame

end Http2Server
