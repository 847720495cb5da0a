import Http2Server.Frame

/-!
# SETTINGS payloads

`Settings` of `http2/protocol`: six parameters, and the bit mask of those set
since the last `mark_clean`, which are the ones `encode` writes.

- `decode_get`: what decoding does to each parameter.
- `decode_encode`: what a receiver makes of the parameters a sender writes.
-/

namespace Http2Server

/-- The codes `Settings::decode` returns. -/
inductive ErrorCode where
  | noError
  | protocolError
  | flowControlError
  | frameSizeError
  deriving DecidableEq, Repr

inductive SettingsType where
  | headerTableSize
  | enablePush
  | maxConcurrentStreams
  | initialWindowSize
  | maxFrameSize
  | maxHeaderListSize
  deriving DecidableEq, Repr

namespace SettingsType

def code : SettingsType → Nat
  | headerTableSize => 0x0001
  | enablePush => 0x0002
  | maxConcurrentStreams => 0x0003
  | initialWindowSize => 0x0004
  | maxFrameSize => 0x0005
  | maxHeaderListSize => 0x0006

theorem code_inj {p q : SettingsType} (h : p.code = q.code) : p = q := by
  cases p <;> cases q <;> first | rfl | cases h

/-- The order in which `encode` writes them. -/
def all : List SettingsType :=
  [headerTableSize, enablePush, maxConcurrentStreams, initialWindowSize, maxFrameSize,
   maxHeaderListSize]

theorem mem_all (p : SettingsType) : p ∈ all := by
  cases p <;> decide

/-- The values `decode` takes; the setters assert the same. -/
def Allowed : SettingsType → Nat → Prop
  | enablePush, value => value ≤ 1
  | initialWindowSize, value => value ≤ 2147483647
  | maxFrameSize, value => 16384 ≤ value ∧ value ≤ 16777215
  | _, _ => True

instance (p : SettingsType) (value : Nat) : Decidable (p.Allowed value) :=
  match p with
  | enablePush => inferInstanceAs (Decidable (value ≤ 1))
  | initialWindowSize => inferInstanceAs (Decidable (value ≤ 2147483647))
  | maxFrameSize => inferInstanceAs (Decidable (16384 ≤ value ∧ value ≤ 16777215))
  | headerTableSize | maxConcurrentStreams | maxHeaderListSize =>
    inferInstanceAs (Decidable True)

end SettingsType

structure Settings where
  headerTableSize : Nat := 4096
  enablePush : Nat := 1
  maxConcurrentStreams : Nat := 2 ^ 32 - 1
  initialWindowSize : Nat := 65535
  maxFrameSize : Nat := 16384
  maxHeaderListSize : Nat := 2 ^ 32 - 1
  dirty : Byte := 0
  deriving DecidableEq, Repr

namespace Settings

/-- The six bytes of one parameter, written where its bit of `dirty` is set. -/
def encodeParameter (s : Settings) (type value : Nat) : Bytes :=
  if s.dirty &&& UInt8.ofNat (1 <<< (type - 1)) != 0 then
    [UInt8.ofNat (type >>> 8), UInt8.ofNat type] ++ bytes32 value
  else []

def encode (s : Settings) : Bytes :=
  s.encodeParameter 0x0001 s.headerTableSize ++
  s.encodeParameter 0x0002 s.enablePush ++
  s.encodeParameter 0x0003 s.maxConcurrentStreams ++
  s.encodeParameter 0x0004 s.initialWindowSize ++
  s.encodeParameter 0x0005 s.maxFrameSize ++
  s.encodeParameter 0x0006 s.maxHeaderListSize

/-- The `switch` over the parameter's type; unknown types are ignored. -/
def apply (s : Settings) (type value : Nat) : ErrorCode × Settings :=
  match type with
  | 0x0001 => (.noError, { s with headerTableSize := value })
  | 0x0002 =>
    if value != 0 && value != 1 then (.protocolError, s)
    else (.noError, { s with enablePush := value })
  | 0x0003 => (.noError, { s with maxConcurrentStreams := value })
  | 0x0004 =>
    if value > 2147483647 then (.flowControlError, s)
    else (.noError, { s with initialWindowSize := value })
  | 0x0005 =>
    if value < 16384 || value > 16777215 then (.protocolError, s)
    else (.noError, { s with maxFrameSize := value })
  | 0x0006 => (.noError, { s with maxHeaderListSize := value })
  | _ => (.noError, s)

/-- The error code, and the settings with the parameters before the error. -/
def decode (s : Settings) : Bytes → ErrorCode × Settings
  | [] => (.noError, s)
  | p0 :: p1 :: p2 :: p3 :: p4 :: p5 :: rest =>
    let type := (p0.toNat <<< 8) ||| p1.toNat
    let value := (p2.toNat <<< 24) ||| (p3.toNat <<< 16) ||| (p4.toNat <<< 8) ||| p5.toNat
    match s.apply type value with
    | (.noError, s) => s.decode rest
    | (e, s) => (e, s)
  | _ => (.frameSizeError, s)

/-! ## Setters -/

/-- The assignment of a setter, -/
def set (s : Settings) (type : SettingsType) (value : Nat) : Settings :=
  match type with
  | .headerTableSize => { s with headerTableSize := value }
  | .enablePush => { s with enablePush := value }
  | .maxConcurrentStreams => { s with maxConcurrentStreams := value }
  | .initialWindowSize => { s with initialWindowSize := value }
  | .maxFrameSize => { s with maxFrameSize := value }
  | .maxHeaderListSize => { s with maxHeaderListSize := value }

/-- and its bit of `dirty`. -/
def markDirty (s : Settings) (type : SettingsType) : Settings :=
  { s with dirty := s.dirty ||| UInt8.ofNat (1 <<< (type.code - 1)) }

def setHeaderTableSize (s : Settings) (value : Nat) : Settings :=
  (s.set .headerTableSize value).markDirty .headerTableSize

def setEnablePush (s : Settings) (enablePush : Bool) : Settings :=
  (s.set .enablePush (if enablePush then 1 else 0)).markDirty .enablePush

def setMaxConcurrentStreams (s : Settings) (value : Nat) : Settings :=
  (s.set .maxConcurrentStreams value).markDirty .maxConcurrentStreams

/-- `none` is a failed `assert`, here and in `setMaxFrameSize`. -/
def setInitialWindowSize (s : Settings) (value : Nat) : Option Settings :=
  if value ≤ 2147483647 then some ((s.set .initialWindowSize value).markDirty .initialWindowSize)
  else none

def setMaxFrameSize (s : Settings) (value : Nat) : Option Settings :=
  if value ≥ 16384 ∧ value ≤ 16777215 then
    some ((s.set .maxFrameSize value).markDirty .maxFrameSize)
  else none

def setMaxHeaderListSize (s : Settings) (value : Nat) : Settings :=
  (s.set .maxHeaderListSize value).markDirty .maxHeaderListSize

def markClean (s : Settings) : Settings := { s with dirty := 0 }

/-! ## Reading the parameters -/

def get (s : Settings) : SettingsType → Nat
  | .headerTableSize => s.headerTableSize
  | .enablePush => s.enablePush
  | .maxConcurrentStreams => s.maxConcurrentStreams
  | .initialWindowSize => s.initialWindowSize
  | .maxFrameSize => s.maxFrameSize
  | .maxHeaderListSize => s.maxHeaderListSize

theorem get_set (s : Settings) (type : SettingsType) (value : Nat) (p : SettingsType) :
    (s.set type value).get p = if p = type then value else s.get p := by
  cases type <;> cases p <;> rfl

@[simp] theorem get_markDirty (s : Settings) (type p : SettingsType) :
    (s.markDirty type).get p = s.get p := by
  cases p <;> rfl

@[simp] theorem get_markClean (s : Settings) (p : SettingsType) : s.markClean.get p = s.get p := by
  cases p <;> rfl

/-- Every parameter has a value that can be sent: in its range and 32 bits wide. -/
def Sendable (s : Settings) : Prop := ∀ p, p.Allowed (s.get p) ∧ s.get p < 2 ^ 32

theorem sendable_default : ({} : Settings).Sendable := by
  intro p
  cases p <;> decide +kernel

/-! ## Decoding -/

/-- The `switch` takes the values in a parameter's range. -/
theorem apply_allowed (s : Settings) {p : SettingsType} {value : Nat} (h : p.Allowed value) :
    s.apply p.code value = (.noError, s.set p value) := by
  cases p with
  | enablePush =>
    have bit : value = 0 ∨ value = 1 := by
      simp only [SettingsType.Allowed] at h
      omega
    rcases bit with rfl | rfl <;> rfl
  | initialWindowSize =>
    simp only [SettingsType.code, apply]
    rw [if_neg (by simp only [SettingsType.Allowed] at h; omega)]
    rfl
  | maxFrameSize =>
    simp only [SettingsType.code, apply]
    rw [if_neg (by
      simp only [SettingsType.Allowed] at h
      simp only [Bool.or_eq_true, decide_eq_true_eq]
      omega)]
    rfl
  | _ => rfl

/-- Values out of a parameter's range are refused, with a code of its own for a window. -/
theorem apply_refused (s : Settings) {p : SettingsType} {value : Nat} (h : ¬ p.Allowed value) :
    (s.apply p.code value).1 =
      if p = .initialWindowSize then .flowControlError else .protocolError := by
  cases p with
  | enablePush =>
    have large : value ≠ 0 ∧ value ≠ 1 := by
      simp only [SettingsType.Allowed] at h
      omega
    simp [SettingsType.code, apply, large]
  | initialWindowSize =>
    have large : value > 2147483647 := by
      simp only [SettingsType.Allowed] at h
      omega
    simp [SettingsType.code, apply, large]
  | maxFrameSize =>
    have out : value < 16384 ∨ value > 16777215 := by
      simp only [SettingsType.Allowed] at h
      omega
    simp [SettingsType.code, apply, out]
  | _ => exact absurd trivial h

theorem apply_unknown (s : Settings) {type : Nat} (value : Nat)
    (unknown : ∀ p : SettingsType, type ≠ p.code) : s.apply type value = (.noError, s) := by
  unfold apply
  split
  · exact absurd rfl (unknown .headerTableSize)
  · exact absurd rfl (unknown .enablePush)
  · exact absurd rfl (unknown .maxConcurrentStreams)
  · exact absurd rfl (unknown .initialWindowSize)
  · exact absurd rfl (unknown .maxFrameSize)
  · exact absurd rfl (unknown .maxHeaderListSize)
  · rfl

/-- A parameter the `switch` took, known or not. -/
theorem apply_cases {s s' : Settings} {type value : Nat} (h : s.apply type value = (.noError, s')) :
    (∃ p : SettingsType, type = p.code ∧ p.Allowed value ∧ s' = s.set p value) ∨
      (∀ p : SettingsType, type ≠ p.code) ∧ s' = s := by
  by_cases known : ∃ p : SettingsType, type = p.code
  · obtain ⟨p, rfl⟩ := known
    by_cases allowed : p.Allowed value
    · rw [apply_allowed s allowed] at h
      exact .inl ⟨p, rfl, allowed, (Prod.mk.inj h).2.symm⟩
    · have refused := apply_refused s allowed
      rw [h] at refused
      split at refused <;> cases refused
  · have unknown := not_exists.mp known
    rw [apply_unknown s value unknown] at h
    exact .inr ⟨unknown, (Prod.mk.inj h).2.symm⟩

/-- The types and values in a payload, in order. -/
def entries : Bytes → List (Nat × Nat)
  | p0 :: p1 :: p2 :: p3 :: p4 :: p5 :: rest =>
    ((p0.toNat <<< 8) ||| p1.toNat,
      (p2.toNat <<< 24) ||| (p3.toNat <<< 16) ||| (p4.toNat <<< 8) ||| p5.toNat) :: entries rest
  | _ => []

/-- The last value given for a parameter. -/
def lastGiven (p : SettingsType) (given : List (Nat × Nat)) : Option Nat :=
  (given.filter (·.1 = p.code)).getLast?.map Prod.snd

theorem lastGiven_append (p : SettingsType) (given more : List (Nat × Nat)) :
    lastGiven p (given ++ more) = (lastGiven p more).or (lastGiven p given) := by
  simp only [lastGiven, List.filter_append, List.getLast?_append, Option.map_or]

theorem lastGiven_cons (p : SettingsType) (type value : Nat) (more : List (Nat × Nat)) :
    lastGiven p ((type, value) :: more) =
      (lastGiven p more).or (if type = p.code then some value else none) := by
  rw [← List.singleton_append, lastGiven_append]
  congr 1
  simp only [lastGiven, List.filter_cons, List.filter_nil]
  split <;> simp_all

/-- **Decoding.** A parameter has the last value the payload gives it, or keeps
the value it had. -/
theorem decode_get {s s' : Settings} {payload : Bytes} (h : s.decode payload = (.noError, s'))
    (p : SettingsType) : s'.get p = (lastGiven p (entries payload)).getD (s.get p) := by
  fun_induction decode s payload with
  | case1 s => 
    obtain ⟨_, rfl⟩ := Prod.mk.inj h
    rfl
  | case2 s p0 p1 p2 p3 p4 p5 rest type value s1 applied ih =>
    rw [ih h, entries, lastGiven_cons]
    rw [← show type = p0.toNat <<< 8 ||| p1.toNat from rfl,
      ← show value = p2.toNat <<< 24 ||| p3.toNat <<< 16 ||| p4.toNat <<< 8 ||| p5.toNat from rfl]
    obtain ⟨q, code, _, rfl⟩ | ⟨unknown, rfl⟩ := apply_cases applied
    · rw [code, get_set]
      by_cases same : p = q
      · subst same
        rw [if_pos rfl, if_pos rfl]
        cases lastGiven p (entries rest) <;> rfl
      · rw [if_neg same, if_neg fun eq => same (SettingsType.code_inj eq).symm, Option.or_none]
    · rw [if_neg (unknown p), Option.or_none]
  | case3 s p0 p1 p2 p3 p4 p5 rest type value e s1 other applied =>
    exact absurd (Prod.mk.inj h).1 other
  | case4 s payload short => cases h

/-- Decoding keeps the values in their ranges. -/
theorem decode_allowed {s s' : Settings} {payload : Bytes}
    (h : s.decode payload = (.noError, s')) (before : ∀ p : SettingsType, p.Allowed (s.get p)) :
    ∀ p : SettingsType, p.Allowed (s'.get p) := by
  fun_induction decode s payload with
  | case1 s =>
    obtain ⟨_, rfl⟩ := Prod.mk.inj h
    exact before
  | case2 s p0 p1 p2 p3 p4 p5 rest type value s1 applied ih =>
    apply ih h
    obtain ⟨q, _, allowed, rfl⟩ | ⟨_, rfl⟩ := apply_cases applied
    · intro p
      rw [get_set]
      split
      · next same => exact same ▸ allowed
      · exact before p
    · exact before
  | case3 s p0 p1 p2 p3 p4 p5 rest type value e s1 other applied =>
    exact absurd (Prod.mk.inj h).1 other
  | case4 s payload short => cases h

/-! ## Encoding -/

/-- The bit of `dirty` for a parameter is set. -/
def isDirty (s : Settings) (p : SettingsType) : Bool :=
  s.dirty &&& UInt8.ofNat (1 <<< (p.code - 1)) != 0

/-- The bits of two parameters are apart unless they are the same. -/
theorem dirtyBit_apart (type p : SettingsType) :
    UInt8.ofNat (1 <<< (type.code - 1)) &&& UInt8.ofNat (1 <<< (p.code - 1)) = 0 ↔ p ≠ type := by
  cases type <;> cases p <;> decide

theorem isDirty_markDirty (s : Settings) (type p : SettingsType) :
    (s.markDirty type).isDirty p = (decide (p = type) || s.isDirty p) := by
  have apart := dirtyBit_apart type p
  have either (a b c : Byte) : (a ||| b) &&& c = a &&& c ||| b &&& c :=
    UInt8.toBitVec_inj.mp BitVec.and_or_distrib_right
  rw [Bool.eq_iff_iff]
  simp only [isDirty, markDirty, either, bne_iff_ne, ne_eq, UInt8.or_eq_zero_iff, apart,
    Bool.or_eq_true, decide_eq_true_eq]
  rw [not_and_or, not_not, or_comm]

/-- A 32-bit number out of its four bytes. -/
theorem value_bytes32 {n : Nat} (h : n < 2 ^ 32) :
    (UInt8.ofNat (n >>> 24)).toNat <<< 24 ||| (UInt8.ofNat (n >>> 16)).toNat <<< 16 |||
      (UInt8.ofNat (n >>> 8)).toNat <<< 8 ||| (UInt8.ofNat n).toNat = n := by
  have low := bigEndian24_eq (UInt8.ofNat (n >>> 16)) (UInt8.ofNat (n >>> 8)) (UInt8.ofNat n)
  rw [bigEndian24] at low
  have h16 := (UInt8.ofNat (n >>> 16)).toNat_lt
  have h8 := (UInt8.ofNat (n >>> 8)).toNat_lt
  have h0 := (UInt8.ofNat n).toNat_lt
  rw [Nat.lor_assoc, Nat.lor_assoc, ← Nat.lor_assoc (_ <<< 16), low,
    ← Nat.shiftLeft_add_eq_or_of_lt (by omega), Nat.shiftLeft_eq]
  simp only [UInt8.toNat_ofNat', Nat.shiftRight_eq_div_pow]
  omega

/-- The encoder goes through the parameters in order. -/
theorem encode_eq (s : Settings) :
    s.encode = SettingsType.all.flatMap fun p => s.encodeParameter p.code (s.get p) := by
  simp only [encode, SettingsType.all, List.flatMap_cons, List.flatMap_nil, List.append_nil,
    List.append_assoc]
  rfl

/-- One parameter read back: taken where it was written. -/
theorem decode_encodeParameter (r s : Settings) {p : SettingsType} (allowed : p.Allowed (s.get p))
    (wide : s.get p < 2 ^ 32) (rest : Bytes) :
    r.decode (s.encodeParameter p.code (s.get p) ++ rest) =
      (if s.isDirty p then r.set p (s.get p) else r).decode rest := by
  unfold encodeParameter isDirty
  split
  · have type : (UInt8.ofNat (p.code >>> 8)).toNat <<< 8 ||| (UInt8.ofNat p.code).toNat =
        p.code := by
      cases p <;> rfl
    simp only [bytes32, List.cons_append, List.nil_append, decode, type, value_bytes32 wide,
      apply_allowed r allowed]
  · rfl

theorem decode_encodeParameters {s : Settings} (sendable : s.Sendable) (ps : List SettingsType)
    (r : Settings) :
    ∃ r', r.decode (ps.flatMap fun p => s.encodeParameter p.code (s.get p)) = (.noError, r') ∧
      ∀ p, r'.get p = if p ∈ ps ∧ s.isDirty p then s.get p else r.get p := by
  induction ps generalizing r with
  | nil => exact ⟨r, rfl, fun p => by simp⟩
  | cons q ps ih =>
    rw [List.flatMap_cons, decode_encodeParameter r s (sendable q).1 (sendable q).2]
    obtain ⟨r', decodes, values⟩ := ih (if s.isDirty q then r.set q (s.get q) else r)
    refine ⟨r', decodes, fun p => ?_⟩
    have one : (if s.isDirty q then r.set q (s.get q) else r).get p =
        if p = q ∧ s.isDirty q then s.get p else r.get p := by
      by_cases dirty : s.isDirty q = true
      · simp only [dirty, and_true, ↓reduceIte, get_set]
        split
        · next same => rw [same]
        · rfl
      · simp [dirty]
    rw [values, one]
    by_cases same : p = q
    · subst same
      by_cases dirty : s.isDirty p = true <;> simp [dirty]
    · simp [same]

/-- **Transmission.** The receiver takes the parameters that are dirty and keeps
its own values for the others. -/
theorem decode_encode (r : Settings) {s : Settings} (sendable : s.Sendable) :
    ∃ r', r.decode s.encode = (.noError, r') ∧
      ∀ p, r'.get p = if s.isDirty p then s.get p else r.get p := by
  obtain ⟨r', decodes, values⟩ := decode_encodeParameters sendable SettingsType.all r
  exact ⟨r', by rw [encode_eq, decodes], fun p => by simpa [p.mem_all] using values p⟩

/-- Settings nobody has changed take no bytes on the wire. -/
theorem encode_default : ({} : Settings).encode = [] := by decide

end Settings

end Http2Server
