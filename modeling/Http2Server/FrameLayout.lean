import Http2Server.FrameDecoding

/-!
# The parts of a frame

`decode` takes the pad length and the priority block off a frame before its data,
and compares the size of what is left with that of what it has taken off. So it
takes a frame only if its data are at least as long as what stands before them:
`decodeBody_accepts` and `decodeBody_rejects`.
-/

namespace Http2Server

namespace Frame

/-- The size of the pad length field. -/
def padField (f : Frame) : Nat := if f.isPadded then 1 else 0

/-- The size of the priority block. -/
def priorityField (f : Frame) : Nat := if f.carriesPriority then 5 else 0

/-- What stands before the data. -/
def headerLength (f : Frame) : Nat := f.padField + f.priorityField

/-- The size of the padding behind the data. -/
def padLength (f : Frame) (p : Bytes) : Nat := if f.isPadded then (p.headD 0).toNat else 0

/-- The frame with its priority block, which stands behind the pad length. -/
def withPriority (f : Frame) (p : Bytes) : Frame :=
  if f.carriesPriority then
    { f with
      hasPriority := true
      exclusive := p.getD 0 0 &&& 0x80 != 0
      streamDependency := bigEndian31 (p.getD 0 0) (p.getD 1 0) (p.getD 2 0) (p.getD 3 0)
      weight := (p.getD 4 0).toNat + 1 }
  else f

/-- What is read of a frame of a length of `size`. -/
def stripped (f : Frame) (p : Bytes) (size : Nat) : Frame :=
  { f.withPriority (p.drop f.padField) with
    payload := (p.drop f.headerLength).take (size - f.headerLength - f.padLength p) }

section
variable {f : Frame} {p : Bytes} {size : Nat}

theorem stripPadding_accepts (small : size < 2 ^ 24)
    (room : f.padField + f.padLength p ≤ size) :
    f.stripPadding ⟨p, size, 0⟩ =
      some ⟨p.drop f.padField, size - f.padField - f.padLength p, f.padField⟩ := by
  cases padded : f.isPadded with
  | false => simp [stripPadding, padField, padLength, padded]
  | true =>
    simp only [padField, padLength, padded, ↓reduceIte] at room
    simp only [stripPadding, padField, padLength, padded, ↓reduceIte]
    rw [sizeSub_of_le (show 1 ≤ size by omega) (by omega), if_neg (by omega),
      sizeSub_of_le (by omega) (by omega), Nat.sub_sub, Nat.add_comm 1, List.drop_one]

theorem stripPadding_rejects (small : size < 2 ^ 24) (filled : f.isPadded = true → 0 < size)
    (long : size < f.padField + f.padLength p) : f.stripPadding ⟨p, size, 0⟩ = none := by
  cases padded : f.isPadded with
  | false => simp [padField, padLength, padded] at long
  | true =>
    have some := filled padded
    simp only [padField, padLength, padded, ↓reduceIte] at long
    simp only [stripPadding, padded, ↓reduceIte]
    rw [sizeSub_of_le (show 1 ≤ size by omega) (by omega), if_pos (by omega)]

theorem stripPriority_accepts {b : Body} (room : f.carriesPriority = true →
    5 + b.headerStart ≤ b.payloadSize) (small : b.payloadSize < 2 ^ 64) :
    f.stripPriority b = (f.withPriority b.p, some ⟨b.p.drop f.priorityField,
      b.payloadSize - f.priorityField, b.headerStart + f.priorityField⟩) := by
  cases carries : f.carriesPriority with
  | false => simp [stripPriority, withPriority, priorityField, carries]
  | true =>
    have fits := room carries
    have byte := (b.p.getD 4 0).toNat_lt
    simp only [stripPriority, withPriority, priorityField, carries, ↓reduceIte]
    rw [if_neg (by omega), if_neg, sizeSub_of_le (by omega) small]
    simp only [Bool.or_eq_true, decide_eq_true_eq]
    omega

theorem stripPriority_rejects {b : Body} (carries : f.carriesPriority = true)
    (short : b.payloadSize < 5 + b.headerStart) : f.stripPriority b = (f, none) := by
  simp only [stripPriority, carries, ↓reduceIte]
  rw [if_pos short]

/-- A frame with room enough is taken. -/
theorem decodeBody_accepts (inside : size ≤ p.length) (small : size < 2 ^ 24)
    (whole : 2 * f.headerLength + f.padLength p ≤ size) :
    decodeBody f ⟨p, size, 0⟩ = .accepted (f.stripped p size) := by
  have left : size - f.padField - f.padLength p - f.priorityField =
      size - f.headerLength - f.padLength p := by
    unfold headerLength
    omega
  unfold headerLength at whole
  unfold decodeBody
  rw [stripPadding_accepts small (by omega)]
  dsimp only
  rw [stripPriority_accepts]
  · dsimp only
    rw [List.drop_drop, left, if_neg, if_neg]
    · rfl
    · rw [List.length_drop]
      unfold headerLength
      omega
    · unfold headerLength
      omega
  · intro carries
    simp only [priorityField, carries, ↓reduceIte] at whole
    dsimp only
    omega
  · dsimp only
    omega

/-- One without is not, and no size goes below zero over it. -/
theorem decodeBody_rejects (small : size < 2 ^ 24) (filled : f.isPadded = true → 0 < size)
    (short : size < 2 * f.headerLength + f.padLength p) :
    ∃ g, decodeBody f ⟨p, size, 0⟩ = .rejected g := by
  unfold headerLength at short
  unfold decodeBody
  by_cases padding : f.padField + f.padLength p ≤ size
  · rw [stripPadding_accepts small padding]
    dsimp only
    by_cases room : f.carriesPriority = true →
        5 + f.padField ≤ size - f.padField - f.padLength p
    · rw [stripPriority_accepts room (by dsimp only; omega)]
      dsimp only
      rw [if_pos]
      · exact ⟨_, rfl⟩
      · cases carries : f.carriesPriority with
        | false =>
          simp only [priorityField, carries, Bool.false_eq_true, ↓reduceIte] at short ⊢
          omega
        | true =>
          have fits := room carries
          simp only [priorityField, carries, ↓reduceIte] at short ⊢
          omega
    · obtain ⟨carries, less⟩ := Classical.not_imp.mp room
      rw [stripPriority_rejects carries (Nat.lt_of_not_le less)]
      exact ⟨f, rfl⟩
  · rw [stripPadding_rejects small filled (Nat.lt_of_not_le padding)]
    exact ⟨f, rfl⟩

end

end Frame

/-! ## Frames as RFC 7540 lays them out -/

/-- Exclusive bit, 31-bit dependency, and the weight less one. -/
structure PriorityBlock where
  exclusive : Bool
  dependency : Nat
  weight : Byte
  dependency_lt : dependency < 2 ^ 31
  deriving DecidableEq, Repr

namespace PriorityBlock

def bytes (p : PriorityBlock) : Bytes :=
  bytes32 (p.dependency + if p.exclusive then 2 ^ 31 else 0) ++ [p.weight]

@[simp] theorem length_bytes (p : PriorityBlock) : p.bytes.length = 5 := rfl

/-- The weight itself, 1 to 256. -/
def fullWeight (p : PriorityBlock) : Nat := p.weight.toNat + 1

theorem top_bit {n : Nat} (h : n < 2 ^ 32) :
    (UInt8.ofNat (n >>> 24) &&& 0x80 != 0) = decide (2 ^ 31 ≤ n) := by
  have each : ∀ b : Byte, (b &&& 0x80 != 0) = decide (128 ≤ b.toNat) := by decide +kernel
  rw [each, UInt8.toNat_ofNat', Nat.shiftRight_eq_div_pow]
  exact decide_eq_decide.mpr (by omega)

/-- A block is read as it was written. -/
theorem withPriority_bytes (p : PriorityBlock) {f : Frame} (carries : f.carriesPriority = true)
    (rest : Bytes) : f.withPriority (p.bytes ++ rest) =
      { f with hasPriority := true, exclusive := p.exclusive,
               streamDependency := p.dependency, weight := p.fullWeight } := by
  have dependency := p.dependency_lt
  have exclusive : (UInt8.ofNat ((p.dependency + if p.exclusive then 2 ^ 31 else 0) >>> 24) &&&
      0x80 != 0) = p.exclusive := by
    rw [top_bit (by split <;> omega)]
    cases p.exclusive with
    | false => exact decide_eq_false (by simp only [Bool.false_eq_true, ↓reduceIte]; omega)
    | true => exact decide_eq_true (by simp)
  have low : (p.dependency + if p.exclusive then 2 ^ 31 else 0) % 2 ^ 31 = p.dependency := by
    split <;> omega
  simp only [Frame.withPriority, carries, ↓reduceIte, bytes, bytes32, List.cons_append,
    List.nil_append, List.getD_cons_zero, List.getD_cons_succ, bigEndian31_ofNat, exclusive, low]
  rfl

end PriorityBlock

namespace Frame

/-- `Frame::weight`, whose result is a `uint8_t`. -/
def weightByte (f : Frame) : Byte := UInt8.ofNat f.weight

/-- The parts of a frame. The priority block and the padding are sent with the
frames that have them. -/
structure Parts where
  type : Byte
  flags : Byte
  sid : Nat
  priority : PriorityBlock
  data : Bytes
  padding : Bytes
  sid_lt : sid < 2 ^ 31
  padding_le : padding.length ≤ 255

namespace Parts

/-- DATA, HEADERS and PUSH_PROMISE frames can have padding. -/
def pads (r : Parts) : Bool :=
  r.flags &&& Flag.padded != 0 &&
    (r.type == FrameType.headers.code || r.type == FrameType.pushPromise.code ||
      r.type == FrameType.data.code)

/-- HEADERS frames can have a priority block. -/
def prioritises (r : Parts) : Bool :=
  r.flags &&& Flag.priority != 0 && r.type == FrameType.headers.code

def body (r : Parts) : Bytes :=
  (if r.pads then [UInt8.ofNat r.padding.length] else []) ++
    ((if r.prioritises then r.priority.bytes else []) ++
      (r.data ++ if r.pads then r.padding else []))

def fields (r : Parts) : Frame := { type := r.type, flags := r.flags, sid := r.sid }

def bytes (r : Parts) : Bytes := r.fields.header r.body.length ++ r.body

/-- The frame as it was sent. -/
structure Received (r : Parts) (f : Frame) : Prop where
  type : f.type = r.type
  flags : f.flags = r.flags
  sid : f.sid = r.sid
  payload : f.payload = r.data
  priority : r.prioritises = true → f.exclusive = r.priority.exclusive ∧
    f.streamDependency = r.priority.dependency ∧ f.weight = r.priority.fullWeight

/-- The data are as long as what stands before them, and no flag has the decoder
look for a priority block that is not there. -/
structure Roomy (r : Parts) : Prop where
  data : (if r.pads then 1 else 0) + (if r.prioritises then 5 else 0) ≤ r.data.length
  promise : ¬ (r.type = FrameType.pushPromise.code ∧ r.flags &&& Flag.priority ≠ 0)

variable (r : Parts)

theorem isPadded_fields : r.fields.isPadded = r.pads := rfl

theorem carriesPriority_fields : r.fields.carriesPriority =
    (r.prioritises || (r.type == FrameType.pushPromise.code && r.flags &&& Flag.priority != 0)) := by
  rw [carriesPriority, prioritises, Bool.and_comm (r.type == _), ← Bool.and_or_distrib_left]
  rfl

theorem decode_bytes (short : r.body.length < 2 ^ 24) :
    decode {} r.bytes = decodeBody r.fields ⟨r.body, r.body.length, 0⟩ := by
  have decoded := decode_header {} r.fields r.body [] short
  rwa [List.append_nil, show r.fields.sid % 2 ^ 31 = r.fields.sid from
    Nat.mod_eq_of_lt r.sid_lt] at decoded

theorem padLength_body : r.fields.padLength r.body = if r.pads then r.padding.length else 0 := by
  have small := r.padding_le
  rw [padLength, isPadded_fields]
  cases pads : r.pads with
  | false => rfl
  | true =>
    simp only [body, pads, ↓reduceIte, List.cons_append, List.headD_cons, UInt8.toNat_ofNat']
    omega

theorem length_body : r.body.length = (if r.pads then 1 else 0) +
    (if r.prioritises then 5 else 0) + r.data.length + if r.pads then r.padding.length else 0 := by
  unfold body
  cases r.pads <;> cases r.prioritises <;> simp <;> omega

theorem filled (padded : r.fields.isPadded = true) : 0 < r.body.length := by
  rw [isPadded_fields] at padded
  rw [length_body, padded]
  simp only [↓reduceIte]
  omega

/-- Where the decoder looks for what there is, it reads what was sent. -/
theorem received_stripped (agrees : r.fields.carriesPriority = r.prioritises) :
    r.Received (r.fields.stripped r.body r.body.length) := by
  have header : r.fields.headerLength =
      (if r.pads then 1 else 0) + (if r.prioritises then 5 else 0) := by
    rw [headerLength, padField, priorityField, agrees, isPadded_fields]
  have before : r.body.drop r.fields.headerLength =
      r.data ++ if r.pads then r.padding else [] := by
    rw [header, body]
    cases r.pads <;> cases r.prioritises <;> simp [List.drop_append]
  have priority : r.fields.withPriority (r.body.drop r.fields.padField) =
      if r.prioritises then
        { r.fields with hasPriority := true, exclusive := r.priority.exclusive,
                        streamDependency := r.priority.dependency, weight := r.priority.fullWeight }
      else r.fields := by
    cases prioritised : r.prioritises with
    | false =>
      rw [prioritised] at agrees
      simp [withPriority, agrees]
    | true =>
      rw [prioritised] at agrees
      have block : r.body.drop r.fields.padField =
          r.priority.bytes ++ (r.data ++ if r.pads then r.padding else []) := by
        rw [padField, isPadded_fields, body, prioritised]
        cases r.pads <;> simp
      rw [block, r.priority.withPriority_bytes agrees]
      rfl
  have size : r.body.length - r.fields.headerLength - r.fields.padLength r.body =
      r.data.length := by
    rw [length_body, padLength_body, header]
    omega
  unfold stripped
  rw [priority, before, size, List.take_left]
  cases prioritised : r.prioritises with
  | false => exact ⟨rfl, rfl, rfl, rfl, by simp [prioritised]⟩
  | true => exact ⟨rfl, rfl, rfl, rfl, fun _ => ⟨rfl, rfl, rfl⟩⟩

/-- What is taken off as a priority block that is not there is missing from the data. -/
theorem not_received {f : Frame} (promise : r.type = FrameType.pushPromise.code ∧
      r.flags &&& Flag.priority ≠ 0) (short : r.body.length < 2 ^ 24)
    (accepted : decode {} r.bytes = .accepted f) : ¬ r.Received f := by
  intro received
  have carries : r.fields.carriesPriority = true := by
    rw [carriesPriority_fields]
    simp [promise.1, promise.2]
  have plain : r.prioritises = false := by
    simp [prioritises, promise.1, FrameType.code]
  have header : r.fields.headerLength = (if r.pads then 1 else 0) + 5 := by
    rw [headerLength, padField, priorityField, carries, isPadded_fields]
    rfl
  have length := r.length_body
  rw [plain] at length
  rw [decode_bytes r short] at accepted
  by_cases whole : 2 * r.fields.headerLength + r.fields.padLength r.body ≤ r.body.length
  · rw [decodeBody_accepts (Nat.le_refl _) short whole] at accepted
    cases accepted
    have sizes := congrArg List.length received.payload
    simp only [stripped, List.length_take, List.length_drop] at sizes
    rw [header, padLength_body] at sizes whole
    simp only [Bool.false_eq_true, ↓reduceIte] at length
    omega
  · obtain ⟨g, rejected⟩ := decodeBody_rejects short r.filled (Nat.lt_of_not_le whole)
    rw [rejected] at accepted
    cases accepted

theorem decode_roomy (roomy : r.Roomy) (short : r.body.length < 2 ^ 24) :
    ∃ f, decode {} r.bytes = .accepted f ∧ r.Received f := by
  have agrees : r.fields.carriesPriority = r.prioritises := by
    rw [carriesPriority_fields, Bool.or_eq_left_iff_imp]
    intro promise
    simp only [Bool.and_eq_true, beq_iff_eq, bne_iff_ne] at promise
    exact absurd promise roomy.promise
  refine ⟨r.fields.stripped r.body r.body.length, ?_, received_stripped r agrees⟩
  rw [decode_bytes r short]
  apply decodeBody_accepts (Nat.le_refl _) short
  have data := roomy.data
  rw [length_body, padLength_body, headerLength, padField, priorityField, agrees,
    isPadded_fields]
  omega

theorem roomy_of_received {f : Frame} (accepted : decode {} r.bytes = .accepted f)
    (received : r.Received f) (short : r.body.length < 2 ^ 24) : r.Roomy := by
  refine ⟨?_, fun promise => not_received r promise short accepted received⟩
  by_contra less
  have header : (if r.pads then 1 else 0) + (if r.prioritises then 5 else 0) ≤
      r.fields.headerLength := by
    rw [headerLength, padField, priorityField, carriesPriority_fields, isPadded_fields]
    cases r.prioritises <;> simp
  obtain ⟨g, rejected⟩ := decodeBody_rejects (f := r.fields) (p := r.body) short r.filled (by
    rw [length_body, padLength_body]
    omega)
  rw [decode_bytes r short, rejected] at accepted
  cases accepted

/-- **Layout.** A frame of given parts is taken and read as it was sent exactly if
there is room; its weight is read as a byte, which the largest does not fit. -/
theorem decode_parts_iff (short : r.body.length < 2 ^ 24) :
    ((∃ f, decode {} r.bytes = .accepted f ∧ r.Received f) ↔ r.Roomy) ∧
    ((∃ f, decode {} r.bytes = .accepted f ∧ r.Received f ∧
        (r.prioritises = true → f.weightByte.toNat = r.priority.fullWeight)) ↔
      r.Roomy ∧ (r.prioritises = true → r.priority.fullWeight ≠ 256)) := by
  have range := r.priority.weight.toNat_lt
  have byte {f : Frame} (same : f.weight = r.priority.fullWeight) :
      f.weightByte.toNat = r.priority.fullWeight ↔ r.priority.fullWeight ≠ 256 := by
    rw [weightByte, same, UInt8.toNat_ofNat', PriorityBlock.fullWeight]
    omega
  refine ⟨⟨fun ⟨f, accepted, received⟩ => roomy_of_received r accepted received short,
    fun roomy => decode_roomy r roomy short⟩, ?_, ?_⟩
  · rintro ⟨f, accepted, received, weight⟩
    refine ⟨roomy_of_received r accepted received short, fun prioritised => ?_⟩
    exact (byte (received.priority prioritised).2.2).mp (weight prioritised)
  · rintro ⟨roomy, light⟩
    obtain ⟨f, accepted, received⟩ := decode_roomy r roomy short
    refine ⟨f, accepted, received, fun prioritised => ?_⟩
    exact (byte (received.priority prioritised).2.2).mpr (light prioritised)

/-- A DATA frame with padding around no data. -/
def paddedEnd : Parts where
  type := FrameType.data.code
  flags := Flag.padded
  sid := 3
  priority := ⟨false, 5, 15, by decide⟩
  data := []
  padding := [0, 0]
  sid_lt := by decide
  padding_le := by decide

theorem paddedEnd_lost :
    ¬ ∃ f, decode {} paddedEnd.bytes = .accepted f ∧ paddedEnd.Received f := by
  have rejected : decode {} paddedEnd.bytes = .rejected paddedEnd.fields := by decide
  rintro ⟨f, accepted, -⟩
  rw [rejected] at accepted
  cases accepted

/-- A HEADERS frame with a priority block and padding around six bytes. -/
def paddedHeaders : Parts where
  type := FrameType.headers.code
  flags := Flag.padded ||| Flag.priority ||| Flag.endHeaders
  sid := 3
  priority := ⟨true, 5, 15, by decide⟩
  data := [0x82, 0x84, 0x86, 0x41, 0x01, 0x61]
  padding := [0]
  sid_lt := by decide
  padding_le := by decide

theorem decode_parts_headers : ∃ f, decode {} paddedHeaders.bytes = .accepted f ∧
    paddedHeaders.Received f ∧
    (paddedHeaders.prioritises = true → f.weightByte.toNat = paddedHeaders.priority.fullWeight) :=
  (decode_parts_iff paddedHeaders (by decide)).2.mpr
    ⟨⟨by decide, by decide⟩, fun _ => by decide⟩

end Parts

/-! ## Encoding what was decoded -/

/-- The frame is read again from its encoding, whose size is the frame's own. -/
def ReEncodes (f : Frame) : Prop :=
  ∃ encoding, f.encode = some encoding ∧ decode {} encoding = .accepted f ∧
    f.size = encoding.length

/-- Type, flags and id stay as they were set, and a priority block shows. -/
theorem decodeBody_fields {f g : Frame} {b : Body} (accepted : decodeBody f b = .accepted g) :
    g.type = f.type ∧ g.flags = f.flags ∧
      (f.carriesPriority = true → g.hasPriority = true) := by
  unfold decodeBody at accepted
  split at accepted
  · cases accepted
  · next b' stripped =>
    have fields : (f.stripPriority b').1.type = f.type ∧ (f.stripPriority b').1.flags = f.flags ∧
        (∀ b'', (f.stripPriority b').2 = some b'' → f.carriesPriority = true →
          (f.stripPriority b').1.hasPriority = true) := by
      unfold stripPriority
      cases carries : f.carriesPriority with
      | false => simp
      | true =>
        simp only [↓reduceIte]
        split
        · simp
        · split <;> simp
    split at accepted
    · cases accepted
    · next f' b'' found =>
      rw [found] at fields
      split at accepted
      · cases accepted
      · split at accepted
        · cases accepted
        · cases accepted
          exact ⟨fields.1, fields.2.1, fields.2.2 b'' rfl⟩

theorem length_encode {f : Frame} {encoding : Bytes} (h : f.encode = some encoding) :
    encoding.length = 9 + f.payload.length := by
  unfold encode at h
  dsimp only at h
  split at h
  · cases h
  · cases h
    rw [List.length_append, length_header]

/-- The flags of a region have no padding announced, and no priority block of a
type that the decoder takes one from. -/
def Bare (bytes : Bytes) : Prop :=
  bytes.getD 4 0 &&& Flag.padded = 0 ∧
    ¬ (bytes.getD 4 0 &&& Flag.priority ≠ 0 ∧
      (bytes.getD 3 0 = FrameType.headers.code ∨ bytes.getD 3 0 = FrameType.pushPromise.code))

instance (bytes : Bytes) : Decidable (Bare bytes) := inferInstanceAs (Decidable (_ ∧ _))

theorem Bare.plain {bytes : Bytes} (bare : Bare bytes) {f : Frame}
    (type : f.type = bytes.getD 3 0) (flags : f.flags = bytes.getD 4 0) :
    f.isPadded = false ∧ f.carriesPriority = false := by
  rw [Bare, ← type, ← flags] at bare
  constructor
  · simp [isPadded, bare.1]
  · by_contra carries
    rw [Bool.not_eq_false, carriesPriority] at carries
    simp only [Bool.and_eq_true, Bool.or_eq_true, beq_iff_eq, bne_iff_ne] at carries
    exact bare.2 carries

theorem decodeBody_plain {f : Frame} (plain : f.isPadded = false ∧ f.carriesPriority = false)
    {p : Bytes} {size : Nat} (inside : size ≤ p.length) :
    decodeBody f ⟨p, size, 0⟩ = .accepted { f with payload := p.take size } := by
  simp only [decodeBody, stripPadding, stripPriority, plain.1, plain.2, Bool.false_eq_true,
    ↓reduceIte, Nat.not_lt_zero]
  rw [if_neg (Nat.not_lt.mpr inside)]

/-- A frame that has its data and no more is read from its encoding as it is. -/
theorem reEncodes_plain {f : Frame} (small : f.payload.length < 2 ^ 24) (sid : f.sid < 2 ^ 31)
    (data : f = { type := f.type, flags := f.flags, sid := f.sid, payload := f.payload })
    (unpadded : f.flags &&& Flag.padded = 0) (unprioritised : f.carriesPriority = false) :
    f.ReEncodes := by
  refine ⟨f.bytes, encode_small small, ?_, ?_⟩
  · have alone := decode_header {} f f.payload [] small
    rw [List.append_nil, ← bytes, Nat.mod_eq_of_lt sid] at alone
    have plain : isPadded { type := f.type, flags := f.flags, sid := f.sid } = false ∧
        carriesPriority { type := f.type, flags := f.flags, sid := f.sid } = false :=
      ⟨by simp [isPadded, unpadded], unprioritised⟩
    rw [alone, decodeBody_plain plain (Nat.le_refl _), List.take_length]
    exact congrArg Decode.accepted data.symm
  · have single : f.hasFlag Flag.padded = false := by
      rw [hasFlag_eq f (.inl rfl), unpadded]
      rfl
    rw [size, length_bytes, single, data]
    rfl

/-- A priority block and the padding flag are counted in the size, and not encoded. -/
theorem unstripped_of_reEncodes {f : Frame} (again : f.ReEncodes) :
    f.flags &&& Flag.padded = 0 ∧ f.hasPriority = false := by
  obtain ⟨encoding, encoded, -, same⟩ := again
  rw [length_encode encoded, size] at same
  constructor
  · by_contra padded
    have counted : f.hasFlag Flag.padded = true := by
      rw [hasFlag_eq f (.inl rfl)]
      exact bne_iff_ne.mpr padded
    rw [counted] at same
    simp only [↓reduceIte] at same
    omega
  · by_contra block
    rw [Bool.not_eq_false] at block
    rw [block] at same
    simp only [↓reduceIte] at same
    omega

/-- **Encoding again.** The flags of what was taken off are kept, so a frame comes
back as it was exactly if nothing was to be taken off. -/
theorem reEncodes_iff {bytes : Bytes} {f : Frame} (accepted : decode {} bytes = .accepted f) :
    f.ReEncodes ↔ Bare bytes := by
  rcases header_cases bytes with few | ⟨b0, b1, b2, type, flags, b5, b6, b7, b8, p, rfl⟩
  · rw [decode_short {} few] at accepted
    cases accepted
  rcases Nat.lt_or_ge p.length (bigEndian24 b0 b1 b2) with cut | inside
  · rw [decode_truncated {} cut] at accepted
    cases accepted
  rw [decode_filled {} inside] at accepted
  have kept := decodeBody_fields accepted
  constructor
  · intro again
    obtain ⟨unpadded, block⟩ := unstripped_of_reEncodes again
    rw [kept.2.1] at unpadded
    refine ⟨unpadded, fun priority => ?_⟩
    have carries : carriesPriority { type, flags, sid := bigEndian31 b5 b6 b7 b8 } = true := by
      simpa [carriesPriority] using priority
    cases block.symm.trans (kept.2.2 carries)
  · intro bare
    have plain := bare.plain (f := { type, flags, sid := bigEndian31 b5 b6 b7 b8 }) rfl rfl
    rw [decodeBody_plain plain inside] at accepted
    cases accepted
    apply reEncodes_plain
    · have size := bigEndian24_lt b0 b1 b2
      rw [List.length_take]
      omega
    · exact bigEndian31_lt b5 b6 b7 b8
    · rfl
    · exact bare.1
    · exact plain.2

theorem reEncodes_data : ∃ f, decode {} [0, 0, 2, 0, 1, 0, 0, 0, 1, 65, 66] = .accepted f ∧
    f.ReEncodes := by
  have accepted : decode {} [0, 0, 2, 0, 1, 0, 0, 0, 1, 65, 66] =
      .accepted { type := 0, flags := 1, sid := 1, payload := [65, 66] } := by decide
  exact ⟨_, accepted, (reEncodes_iff accepted).mpr (by decide)⟩

/-- Two bytes of data and one of padding: the pad length is gone, its flag is not. -/
theorem not_reEncodes_padded :
    ∃ f, decode {} [0, 0, 4, 0, 8, 0, 0, 0, 1, 1, 65, 66, 0] = .accepted f ∧
      ¬ f.ReEncodes := by
  have encoded : encode { type := 0, flags := 8, sid := 1, payload := [65, 66] } =
      some [0, 0, 2, 0, 8, 0, 0, 0, 1, 65, 66] := by decide
  have again : decode {} [0, 0, 2, 0, 8, 0, 0, 0, 1, 65, 66] =
      .rejected { type := 0, flags := 8, sid := 1 } := by decide
  refine ⟨{ type := 0, flags := 8, sid := 1, payload := [65, 66] }, by decide, ?_⟩
  rintro ⟨encoding, same, decoded, -⟩
  cases encoded.symm.trans same
  rw [again] at decoded
  cases decoded

end Frame

end Http2Server
