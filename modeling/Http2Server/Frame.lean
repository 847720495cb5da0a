import Http2Server.Bytes
import Mathlib.Tactic.Linarith

/-!
# HTTP/2 frames

`Frame` of `http2/protocol`: encoding, decoding, and cutting a receive buffer
into frames. `decode` works on the bytes from `p` to `q`; it returns the frame
also where it fails, since `toFrames` keeps what a failed decode has set.

- `toFrames_bytes`: frames found again in their bytes, up to 31-bit stream ids.
- `toFrames_encodings`: the frames that `encode` takes are found again as they were.
-/

namespace Http2Server

inductive FrameType where
  | data
  | headers
  | priority
  | rstStream
  | settings
  | pushPromise
  | ping
  | goAway
  | windowUpdate
  | continuation
  deriving DecidableEq, Repr

namespace FrameType

def code : FrameType → Byte
  | data => 0x00
  | headers => 0x01
  | priority => 0x02
  | rstStream => 0x03
  | settings => 0x04
  | pushPromise => 0x05
  | ping => 0x06
  | goAway => 0x07
  | windowUpdate => 0x08
  | continuation => 0x09

/-- The cases of a `switch` over the type byte; `none` is its default. -/
def ofCode : Byte → Option FrameType
  | 0x00 => some data
  | 0x01 => some headers
  | 0x02 => some priority
  | 0x03 => some rstStream
  | 0x04 => some settings
  | 0x05 => some pushPromise
  | 0x06 => some ping
  | 0x07 => some goAway
  | 0x08 => some windowUpdate
  | 0x09 => some continuation
  | _ => none

@[simp] theorem ofCode_code (t : FrameType) : ofCode t.code = some t := by
  cases t <;> rfl

theorem code_of_ofCode {b : Byte} {t : FrameType} (h : ofCode b = some t) : b = t.code := by
  have each : ∀ b : Byte, ∀ t ∈ ofCode b, b = t.code := by decide +kernel
  exact each b t h

end FrameType

namespace Flag

def ack : Byte := 0x01
def endStream : Byte := 0x01
def endHeaders : Byte := 0x04
def padded : Byte := 0x08
def priority : Byte := 0x20

end Flag

structure Frame where
  type : Byte := FrameType.ping.code
  flags : Byte := 0
  sid : Nat := 0
  payload : Bytes := []
  hasPriority : Bool := false
  streamDependency : Nat := 2 ^ 32 - 1
  exclusive : Bool := false
  weight : Nat := 0
  deriving DecidableEq, Repr

/-- Three bytes, the highest first. -/
def bigEndian24 (a b c : Byte) : Nat := (a.toNat <<< 16) ||| (b.toNat <<< 8) ||| c.toNat

/-- Four bytes without the top bit. -/
def bigEndian31 (a b c d : Byte) : Nat :=
  ((a &&& 0x7f).toNat <<< 24) ||| (b.toNat <<< 16) ||| (c.toNat <<< 8) ||| d.toNat

/-- The four bytes of a 32-bit number. -/
def bytes32 (n : Nat) : Bytes :=
  [UInt8.ofNat (n >>> 24), UInt8.ofNat (n >>> 16), UInt8.ofNat (n >>> 8), UInt8.ofNat n]

theorem bigEndian24_eq (a b c : Byte) :
    bigEndian24 a b c = a.toNat * 65536 + b.toNat * 256 + c.toNat := by
  have hb := b.toNat_lt
  have hc := c.toNat_lt
  have low : b.toNat <<< 8 ||| c.toNat = b.toNat * 256 + c.toNat := by
    rw [← Nat.shiftLeft_add_eq_or_of_lt (by omega), Nat.shiftLeft_eq]
  rw [bigEndian24, Nat.lor_assoc, low, ← Nat.shiftLeft_add_eq_or_of_lt (by omega), Nat.shiftLeft_eq]
  omega

theorem bigEndian24_lt (a b c : Byte) : bigEndian24 a b c < 2 ^ 24 := by
  have ha := a.toNat_lt
  have hb := b.toNat_lt
  have hc := c.toNat_lt
  rw [bigEndian24_eq]
  omega

theorem bigEndian31_eq (a b c d : Byte) :
    bigEndian31 a b c d =
      a.toNat % 128 * 16777216 + b.toNat * 65536 + c.toNat * 256 + d.toNat := by
  have hb := b.toNat_lt
  have hc := c.toNat_lt
  have hd := d.toNat_lt
  have top : (a &&& 0x7f).toNat = a.toNat % 128 := by
    rw [UInt8.toNat_and]
    exact Nat.and_two_pow_sub_one_eq_mod a.toNat 7
  have low := bigEndian24_eq b c d
  rw [bigEndian24] at low
  rw [bigEndian31, Nat.lor_assoc, Nat.lor_assoc, ← Nat.lor_assoc (b.toNat <<< 16), low, top,
    ← Nat.shiftLeft_add_eq_or_of_lt (by omega), Nat.shiftLeft_eq]
  omega

theorem bigEndian31_lt (a b c d : Byte) : bigEndian31 a b c d < 2 ^ 31 := by
  have hb := b.toNat_lt
  have hc := c.toNat_lt
  have hd := d.toNat_lt
  rw [bigEndian31_eq]
  omega

theorem bigEndian24_ofNat {n : Nat} (h : n < 2 ^ 24) :
    bigEndian24 (UInt8.ofNat (n >>> 16)) (UInt8.ofNat (n >>> 8)) (UInt8.ofNat n) = n := by
  simp only [bigEndian24_eq, UInt8.toNat_ofNat', Nat.shiftRight_eq_div_pow]
  omega

/-- The top bit of a stream id does not come back. -/
theorem bigEndian31_ofNat (n : Nat) :
    bigEndian31 (UInt8.ofNat (n >>> 24)) (UInt8.ofNat (n >>> 16)) (UInt8.ofNat (n >>> 8))
      (UInt8.ofNat n) = n % 2 ^ 31 := by
  simp only [bigEndian31_eq, UInt8.toNat_ofNat', Nat.shiftRight_eq_div_pow]
  omega

namespace Frame

def hasFlag (f : Frame) (bit : Byte) : Bool := f.flags &&& bit == bit

/-- `Frame::size` -/
def size (f : Frame) : Nat :=
  9 + f.payload.length + (if f.hasPriority then 5 else 0) + (if f.hasFlag Flag.padded then 1 else 0)

/-- The nine bytes before the payload, for a payload size of `s`. -/
def header (f : Frame) (s : Nat) : Bytes :=
  [UInt8.ofNat (s >>> 16), UInt8.ofNat (s >>> 8), UInt8.ofNat s, f.type, f.flags] ++ bytes32 f.sid

/-- `none` is the call to `abort`. -/
def encode (f : Frame) : Option Bytes :=
  let s := wrap32 f.payload.length
  if s > 0x00ffffff then none else some (f.header s ++ f.payload)

/-! ## Decoding -/

/-- The running position after the header: the bytes from `p` on,
`payload_size` and `headerStart`. -/
structure Body where
  p : Bytes
  payloadSize : Nat
  headerStart : Nat
  deriving DecidableEq, Repr

/-- PADDED on the types that can carry it. -/
def isPadded (f : Frame) : Bool :=
  f.flags &&& Flag.padded != 0 &&
    (f.type == FrameType.headers.code || f.type == FrameType.pushPromise.code ||
      f.type == FrameType.data.code)

/-- PRIORITY on the types the decoder looks for it. -/
def carriesPriority (f : Frame) : Bool :=
  f.flags &&& Flag.priority != 0 &&
    (f.type == FrameType.headers.code || f.type == FrameType.pushPromise.code)

/-- `none` is `return false`. With an empty payload the pad length is read past
it and the sizes wrap. -/
def stripPadding (f : Frame) (b : Body) : Option Body :=
  if f.isPadded then
    let padLength := (b.p.headD 0).toNat
    if padLength > sizeSub b.payloadSize 1 then none
    else some ⟨b.p.tail, sizeSub b.payloadSize (padLength + 1), b.headerStart + 1⟩
  else some b

/-- The priority block's first bit, 31-bit dependency and weight byte. -/
def stripPriority (f : Frame) (b : Body) : Frame × Option Body :=
  if f.carriesPriority then
    if b.payloadSize < 5 + b.headerStart then (f, none)
    else
      let p := fun i => b.p.getD i 0
      let f := { f with
        hasPriority := true
        exclusive := p 0 &&& 0x80 != 0
        streamDependency := bigEndian31 (p 0) (p 1) (p 2) (p 3)
        weight := (p 4).toNat + 1 }
      if f.weight < 1 || f.weight > 256 then (f, none)
      else (f, some ⟨b.p.drop 5, sizeSub b.payloadSize 5, b.headerStart + 5⟩)
  else (f, some b)

/-- True, false, or the `std::length_error` of assigning a payload of a size
that has wrapped; with the fields set so far. -/
inductive Decode where
  | accepted (f : Frame)
  | rejected (f : Frame)
  | threw
  deriving DecidableEq, Repr

/-- From `p = p + 9` on, with type, flags and stream id set. -/
def decodeBody (f : Frame) (b : Body) : Decode :=
  match f.stripPadding b with
  | none => .rejected f
  | some b =>
    match f.stripPriority b with
    | (f, none) => .rejected f
    | (f, some b) =>
      if b.payloadSize < b.headerStart then .rejected f
      else if b.payloadSize > b.p.length then .threw
      else .accepted { f with payload := b.p.take b.payloadSize }

def decode (f : Frame) : Bytes → Decode
  | b0 :: b1 :: b2 :: b3 :: b4 :: b5 :: b6 :: b7 :: b8 :: p =>
    let size := bigEndian24 b0 b1 b2
    if size > 0x00ffffff || p.length < size then .rejected f
    else
      decodeBody { f with type := b3, flags := b4, sid := bigEndian31 b5 b6 b7 b8 } ⟨p, size, 0⟩
  | _ => .rejected f

/-- `while (curr < end)`, with the number of bytes as fuel: a turn moves on by
nine or more. A frame is pushed whether or not it decoded. The size is read
from the raw bytes; where there are fewer than three the loop ends whatever
they hold. `none` is the exception from `decode`. -/
def toFramesLoop : Nat → Bytes → Option (List Frame)
  | _, [] => some []
  | 0, _ :: _ => none
  | fuel + 1, b :: rest =>
    let curr := b :: rest
    let size := bigEndian24 (curr.getD 0 0) (curr.getD 1 0) (curr.getD 2 0)
    match decode {} curr with
    | .threw => none
    | .accepted f | .rejected f => (toFramesLoop fuel (curr.drop (9 + size))).map (f :: ·)

def toFrames (bytes : Bytes) : Option (List Frame) := toFramesLoop bytes.length bytes

@[simp] theorem toFrames_nil : toFrames [] = some [] := rfl

/-- A turn of the loop moves on. -/
theorem length_drop_frame {bytes : Bytes} (some : bytes ≠ []) (n : Nat) :
    (bytes.drop (9 + n)).length < bytes.length := by
  have pos := List.length_pos_iff.mpr some
  rw [List.length_drop]
  omega

theorem toFramesLoop_fuel : ∀ fuel bytes, bytes.length ≤ fuel →
    toFramesLoop fuel bytes = toFrames bytes := by
  intro fuel
  induction fuel using Nat.strongRecOn with
  | ind fuel ih =>
    intro bytes hle
    cases bytes with
    | nil => cases fuel <;> rfl
    | cons b rest =>
      cases fuel with
      | zero => simp at hle
      | succ fuel =>
        simp only [List.length_cons, Nat.add_le_add_iff_right] at hle
        simp only [toFrames, toFramesLoop, List.length_cons]
        generalize bigEndian24 ((b :: rest).getD 0 0) ((b :: rest).getD 1 0)
          ((b :: rest).getD 2 0) = size
        have shorter : ((b :: rest).drop (9 + size)).length ≤ rest.length :=
          Nat.le_of_lt_succ (length_drop_frame (List.cons_ne_nil b rest) size)
        rw [ih fuel (by omega) _ (by omega), ih rest.length (by omega) _ shorter]

/-- One turn of the loop, on the frame at the front. -/
theorem toFrames_cons {bytes : Bytes} (h : bytes ≠ []) :
    toFrames bytes =
      match decode {} bytes with
      | .threw => none
      | .accepted f | .rejected f =>
        (toFrames (bytes.drop (9 + bigEndian24 (bytes.getD 0 0) (bytes.getD 1 0)
          (bytes.getD 2 0)))).map (f :: ·) := by
  cases bytes with
  | nil => exact absurd rfl h
  | cons b rest =>
    have shorter (size : Nat) : ((b :: rest).drop (9 + size)).length ≤ rest.length :=
      Nat.le_of_lt_succ (length_drop_frame h size)
    conv => lhs; simp only [toFrames, toFramesLoop, List.length_cons]
    rw [toFramesLoop_fuel _ _ (shorter _)]

/-! ## Whole frames and cut ones -/

theorem length_header (f : Frame) (s : Nat) : (f.header s).length = 9 := rfl

/-- The size in a header just written. -/
theorem header_size (f : Frame) {s : Nat} (hs : s < 2 ^ 24) (rest : Bytes) :
    bigEndian24 ((f.header s ++ rest).getD 0 0) ((f.header s ++ rest).getD 1 0)
      ((f.header s ++ rest).getD 2 0) = s :=
  bigEndian24_ofNat hs

/-- A region is too short for a header, or begins with one. -/
theorem header_cases (bytes : Bytes) : bytes.length < 9 ∨
    ∃ b0 b1 b2 type flags b5 b6 b7 b8 p,
      bytes = b0 :: b1 :: b2 :: type :: flags :: b5 :: b6 :: b7 :: b8 :: p := by
  rcases bytes with _ | ⟨b0, _ | ⟨b1, _ | ⟨b2, _ | ⟨type, _ | ⟨flags, _ | ⟨b5, _ | ⟨b6, _ | ⟨b7,
    _ | ⟨b8, p⟩⟩⟩⟩⟩⟩⟩⟩⟩
  case cons.cons.cons.cons.cons.cons.cons.cons.cons =>
    exact .inr ⟨b0, b1, b2, type, flags, b5, b6, b7, b8, p, rfl⟩
  all_goals exact .inl (by simp)

theorem decode_short (g : Frame) {bytes : Bytes} (few : bytes.length < 9) :
    decode g bytes = .rejected g := by
  unfold decode
  split
  · simp only [List.length_cons] at few
    omega
  · rfl

section
variable {b0 b1 b2 type flags b5 b6 b7 b8 : Byte} {p : Bytes}

/-- A header without all of its payload. -/
theorem decode_truncated (g : Frame) (cut : p.length < bigEndian24 b0 b1 b2) :
    decode g (b0 :: b1 :: b2 :: type :: flags :: b5 :: b6 :: b7 :: b8 :: p) = .rejected g := by
  rw [decode, if_pos]
  simp only [Bool.or_eq_true, decide_eq_true_eq]
  exact .inr cut

/-- A header with its payload. -/
theorem decode_filled (g : Frame) (inside : bigEndian24 b0 b1 b2 ≤ p.length) :
    decode g (b0 :: b1 :: b2 :: type :: flags :: b5 :: b6 :: b7 :: b8 :: p) =
      decodeBody { g with type, flags, sid := bigEndian31 b5 b6 b7 b8 }
        ⟨p, bigEndian24 b0 b1 b2, 0⟩ := by
  have size := bigEndian24_lt b0 b1 b2
  rw [decode, if_neg]
  simp only [Bool.or_eq_true, decide_eq_true_eq]
  omega

end

/-- Decoding what stands after a header just written. -/
theorem decode_header (g f : Frame) (body rest : Bytes) (hb : body.length < 2 ^ 24) :
    decode g (f.header body.length ++ (body ++ rest)) =
      decodeBody { g with type := f.type, flags := f.flags, sid := f.sid % 2 ^ 31 }
        ⟨body ++ rest, body.length, 0⟩ := by
  simp only [header, bytes32, List.cons_append, List.nil_append]
  rw [decode_filled, bigEndian24_ofNat hb, bigEndian31_ofNat]
  rw [bigEndian24_ofNat hb, List.length_append]
  exact Nat.le_add_right _ _

/-- A cut frame ends in the header or after it. -/
theorem cut_cases (f : Frame) (s : Nat) {cut body : Bytes} (hcut : cut <+: f.header s ++ body) :
    cut.length < 9 ∨ ∃ part, cut = f.header s ++ part := by
  by_cases nine : cut.length < 9
  · exact .inl nine
  · have pre : f.header s <+: cut :=
      List.prefix_of_prefix_length_le (List.prefix_append _ body) hcut (by
        rw [length_header]
        omega)
    obtain ⟨part, rfl⟩ := pre
    exact .inr ⟨part, rfl⟩

/-- A frame cut short is rejected before any field is set. -/
theorem decode_cut (g f : Frame) {s : Nat} (hs : s < 2 ^ 24) {cut body : Bytes}
    (hcut : cut <+: f.header s ++ body) (short : cut.length < 9 + s) :
    decode g cut = .rejected g := by
  rcases cut_cases f s hcut with nine | ⟨part, rfl⟩
  · exact decode_short g nine
  · rw [List.length_append, length_header] at short
    apply decode_truncated
    rw [bigEndian24_ofNat hs]
    exact Nat.lt_of_add_lt_add_left short

/-- Cutting a whole frame off the front of the buffer. -/
theorem toFrames_header (f : Frame) (body rest : Bytes) (hb : body.length < 2 ^ 24) :
    toFrames (f.header body.length ++ (body ++ rest)) =
      match decodeBody { type := f.type, flags := f.flags, sid := f.sid % 2 ^ 31 }
        ⟨body ++ rest, body.length, 0⟩ with
      | .threw => none
      | .accepted g | .rejected g => (toFrames rest).map (g :: ·) := by
  rw [toFrames_cons (by simp [header]), decode_header {} f body rest hb,
    header_size f hb (body ++ rest)]
  have next : (f.header body.length ++ (body ++ rest)).drop (9 + body.length) = rest := by
    rw [← List.append_assoc, List.drop_left' (by rw [List.length_append, length_header])]
  rw [next]

/-- A cut frame at the end of the buffer yields one default frame. -/
theorem toFrames_cut (f : Frame) {s : Nat} (hs : s < 2 ^ 24) {cut body : Bytes}
    (hcut : cut <+: f.header s ++ body) (short : cut.length < 9 + s) (hne : cut ≠ []) :
    toFrames cut = some [{}] := by
  rw [toFrames_cons hne, decode_cut {} f hs hcut short]
  simp only
  rw [List.drop_eq_nil_of_le, toFrames_nil]
  · rfl
  · rcases cut_cases f s hcut with nine | ⟨part, rfl⟩
    · omega
    · rw [header_size f hs]
      exact Nat.le_of_lt short

/-! ## Frames without padding or priority -/

/-- A frame whose payload follows its header directly, of a size that fits. -/
structure Plain (f : Frame) : Prop where
  unpadded : f.isPadded = false
  unprioritised : f.carriesPriority = false
  small : f.payload.length < 2 ^ 24

theorem plain_of_flags {type flags : Byte} {sid : Nat} {payload : Bytes}
    (unpadded : flags &&& Flag.padded = 0) (unprioritised : flags &&& Flag.priority = 0)
    (small : payload.length < 2 ^ 24) : Plain { type, flags, sid, payload } :=
  ⟨by simp [isPadded, unpadded], by simp [carriesPriority, unprioritised], small⟩

/-- The frame as the peer sees it: without the stream id's top bit, which the
decoder drops, and with the fields a frame without a priority block has. -/
def onWire (f : Frame) : Frame :=
  { type := f.type, flags := f.flags, sid := f.sid % 2 ^ 31, payload := f.payload }

/-- What `encode` writes. -/
def bytes (f : Frame) : Bytes := f.header f.payload.length ++ f.payload

theorem length_bytes (f : Frame) : f.bytes.length = 9 + f.payload.length := by
  rw [bytes, List.length_append, length_header]

theorem encode_small {f : Frame} (small : f.payload.length < 2 ^ 24) :
    f.encode = some f.bytes := by
  simp only [encode, wrap32_of_lt (show f.payload.length < 2 ^ 32 by omega)]
  rw [if_neg (by omega)]
  rfl

theorem decode_plain {f : Frame} (h : f.Plain) (rest : Bytes) :
    decode {} (f.bytes ++ rest) = .accepted f.onWire := by
  rw [bytes, List.append_assoc, decode_header {} f f.payload rest h.small]
  have padded : isPadded { type := f.type, flags := f.flags, sid := f.sid % 2 ^ 31 } = false :=
    h.unpadded
  have priority :
      carriesPriority { type := f.type, flags := f.flags, sid := f.sid % 2 ^ 31 } = false :=
    h.unprioritised
  simp only [decodeBody, stripPadding, padded, stripPriority, priority, Bool.false_eq_true,
    ↓reduceIte, Nat.not_lt_zero, List.length_append, List.take_left]
  rw [if_neg (by omega)]
  rfl

theorem toFrames_plain {f : Frame} (h : f.Plain) (rest : Bytes) :
    toFrames (f.bytes ++ rest) = (toFrames rest).map (f.onWire :: ·) := by
  have next : (f.bytes ++ rest).drop (9 + f.payload.length) = rest :=
    List.drop_left' (length_bytes f)
  have size := header_size f h.small (f.payload ++ rest)
  rw [← List.append_assoc, ← bytes] at size
  rw [toFrames_cons (by simp [bytes, header]), decode_plain h, size, next]

/-- Plain frames come back as they were sent, one after the other. -/
theorem toFrames_bytes {fs : List Frame} (h : ∀ f ∈ fs, f.Plain) :
    toFrames (fs.flatMap bytes) = some (fs.map onWire) := by
  induction fs with
  | nil => rfl
  | cons f fs ih =>
    rw [List.flatMap_cons, toFrames_plain (h f (by simp)), ih fun g hg => h g (by simp [hg])]
    rfl

/-! ## Any frames without padding or priority -/

/-- What is sent of a frame. -/
def sentFields (f : Frame) : Byte × Byte × Nat × Bytes := (f.type, f.flags, f.sid, f.payload)

/-- A stream id and a payload that fit, and no flag of those the decoder would
look for padding or priority by; other flags may mean anything. -/
structure Direct (f : Frame) : Prop where
  sid : f.sid < 2 ^ 31
  small : f.payload.length < 2 ^ 24
  unpadded : f.type = FrameType.data.code ∨ f.type = FrameType.headers.code ∨
    f.type = FrameType.pushPromise.code → f.hasFlag Flag.padded = false
  unprioritised : f.type = FrameType.headers.code ∨ f.type = FrameType.pushPromise.code →
    f.hasFlag Flag.priority = false

/-- A flag of one bit is there or is not. -/
theorem hasFlag_eq (f : Frame) {bit : Byte} (one : bit = Flag.padded ∨ bit = Flag.priority) :
    f.hasFlag bit = (f.flags &&& bit != 0) := by
  have padded : ∀ b : Byte, (b &&& 0x08 == 0x08) = (b &&& 0x08 != 0) := by decide +kernel
  have priority : ∀ b : Byte, (b &&& 0x20 == 0x20) = (b &&& 0x20 != 0) := by decide +kernel
  rcases one with rfl | rfl
  · exact padded f.flags
  · exact priority f.flags

theorem Direct.plain {f : Frame} (h : f.Direct) : f.Plain := by
  refine ⟨?_, ?_, h.small⟩
  · rw [isPadded, ← hasFlag_eq f (.inl rfl), Bool.and_eq_false_iff]
    by_cases type : f.type = FrameType.data.code ∨ f.type = FrameType.headers.code ∨
        f.type = FrameType.pushPromise.code
    · exact .inl (h.unpadded type)
    · simp only [not_or] at type
      exact .inr (by simp [type])
  · rw [carriesPriority, ← hasFlag_eq f (.inr rfl), Bool.and_eq_false_iff]
    by_cases type : f.type = FrameType.headers.code ∨ f.type = FrameType.pushPromise.code
    · exact .inl (h.unprioritised type)
    · simp only [not_or] at type
      exact .inr (by simp [type])

theorem mapM_encode {fs : List Frame} (small : ∀ f ∈ fs, f.payload.length < 2 ^ 24) :
    fs.mapM encode = some (fs.map bytes) := by
  induction fs with
  | nil => rfl
  | cons f fs ih =>
    rw [List.mapM_cons, encode_small (small f (by simp)), ih fun g hg => small g (by simp [hg])]
    rfl

/-- **Round trip.** Frames of any type are encoded, and found again in the
concatenation of their encodings. -/
theorem toFrames_encodings (fs : List Frame) (h : ∀ f ∈ fs, f.Direct) :
    ∃ encodings frames, fs.mapM encode = some encodings ∧
      toFrames encodings.flatten = some frames ∧
      frames.map sentFields = fs.map sentFields := by
  refine ⟨fs.map bytes, fs.map onWire, mapM_encode fun f hf => (h f hf).small, ?_, ?_⟩
  · rw [← List.flatMap_def]
    exact toFrames_bytes fun f hf => (h f hf).plain
  · rw [List.map_map]
    apply List.map_congr_left
    intro f hf
    simp only [Function.comp, sentFields, onWire, Nat.mod_eq_of_lt (h f hf).sid]

/-- An unknown type with every flag, and an empty DATA frame. -/
theorem toFrames_encodings_unknown :
    ∃ encodings frames,
      [{ type := 0xff, flags := 0xff, sid := 2 ^ 31 - 1, payload := [1, 2] },
        { type := FrameType.data.code, flags := Flag.endStream, sid := 1 }].mapM encode =
          some encodings ∧
      toFrames encodings.flatten = some frames ∧
      frames.map sentFields = [(0xff, 0xff, 2 ^ 31 - 1, [1, 2]), (0x00, 0x01, 1, [])] := by
  refine toFrames_encodings _ ?_
  intro f hf
  rcases List.mem_cons.mp hf with rfl | hf
  · exact ⟨by decide, by decide, by decide, by decide⟩
  · rw [List.mem_singleton.mp hf]
    exact ⟨by decide, by decide, by decide, by decide⟩

end Frame

end Http2Server
