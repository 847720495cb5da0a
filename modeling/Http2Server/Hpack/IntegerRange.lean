import Http2Server.Hpack.Integer
import Mathlib.Data.Nat.Digits.Defs

/-!
# What a prefixed integer denotes

The loop of `decode_integer` reads groups for as long as they go on. A whole
encoding at the front of the region is read to its end whatever its value, so a
large one wraps and a long one shifts past the word.

- `reads_iff`: when the output is the integer that the bytes denote.
- `decodeInteger_appended`: what `encode_integer` appends is read back.
-/

namespace Http2Server.Hpack

/-! ## Encodings -/

/-- The prefix, plus the seven bits of each group times a power of 128. -/
def denoted (numbits : Nat) : Bytes → Nat
  | [] => 0
  | first :: groups =>
    (first.toNat &&& (2 ^ numbits - 1)) +
      Nat.ofDigits 128 (groups.map fun byte => (byte &&& 0x7f).toNat)

/-- Groups of which the last alone has its top bit clear. -/
inductive WholeGroups : Bytes → Prop
  | last {byte : Byte} (clear : byte &&& 0x80 = 0) : WholeGroups [byte]
  | more {byte : Byte} {rest : Bytes} (set : byte &&& 0x80 ≠ 0) (later : WholeGroups rest) :
      WholeGroups (byte :: rest)

/-- A prefix that is not all ones, or one that is and the groups it announces. -/
inductive WholeInteger (numbits : Nat) : Bytes → Prop
  | short {first : Byte} (room : first.toNat &&& (2 ^ numbits - 1) ≠ 2 ^ numbits - 1) :
      WholeInteger numbits [first]
  | long {first : Byte} {groups : Bytes}
      (full : first.toNat &&& (2 ^ numbits - 1) = 2 ^ numbits - 1) (later : WholeGroups groups) :
      WholeInteger numbits (first :: groups)

/-- The counts that `1 << shift` is evaluated at. -/
def groupShifts : Bytes → Nat → List Nat
  | [], _ => []
  | byte :: rest, shift =>
    shift :: if byte &&& 0x80 ≠ 0 then groupShifts rest (shift + 7) else []

def integerShifts (numbits : Nat) : Bytes → List Nat
  | [] => []
  | first :: rest =>
    if first.toNat &&& (2 ^ numbits - 1) ≠ 2 ^ numbits - 1 then [] else groupShifts rest 0

/-! ## The loop -/

theorem WholeGroups.length {groups : Bytes} (whole : WholeGroups groups) (rest : Bytes)
    (pos shift output : Nat) :
    (decodeGroups (groups ++ rest) pos shift output).1 = pos + groups.length := by
  induction whole generalizing pos shift output with
  | last clear => simp [decodeGroups, clear]
  | more set later ih =>
    simp only [List.cons_append, decodeGroups, set, ↓reduceIte, ne_eq, not_false_eq_true, ih,
      List.length_cons]
    omega

theorem WholeGroups.shifts {groups : Bytes} (whole : WholeGroups groups) (rest : Bytes)
    (shift : Nat) : groupShifts (groups ++ rest) shift = List.range' shift groups.length 7 := by
  induction whole generalizing shift with
  | last clear => simp [groupShifts, clear]
  | more set later ih => simp [groupShifts, set, ih, List.range'_succ]

/-- Up to five groups below 2^32 are read without a wrap. -/
theorem WholeGroups.value {groups : Bytes} (whole : WholeGroups groups) (rest : Bytes)
    (pos k output : Nat) (few : k + groups.length ≤ 5)
    (small : output + Nat.ofDigits 128 (groups.map fun byte => (byte &&& 0x7f).toNat) *
      2 ^ (7 * k) < 2 ^ 32) :
    (decodeGroups (groups ++ rest) pos (7 * k) output).2 =
      output + Nat.ofDigits 128 (groups.map fun byte => (byte &&& 0x7f).toNat) * 2 ^ (7 * k) := by
  induction whole generalizing pos k output with
  | @last byte clear =>
    simp only [List.map_cons, List.map_nil, Nat.ofDigits_singleton, List.length_singleton] at *
    rw [List.singleton_append, decodeGroups_cons rfl (by omega) small, if_neg (by simp [clear])]
  | @more byte later set whole ih =>
    simp only [List.map_cons, Nat.ofDigits_cons, List.length_cons] at *
    generalize Nat.ofDigits 128 _ = above at *
    have split : output + ((byte &&& 0x7f).toNat + 128 * above) * 2 ^ (7 * k) =
        output + (byte &&& 0x7f).toNat * 2 ^ (7 * k) + above * 2 ^ (7 * (k + 1)) := by
      rw [Nat.mul_add 7, Nat.pow_add]
      ring
    rw [split] at small ⊢
    rw [List.cons_append, decodeGroups_cons rfl (by omega) (by omega), if_pos set]
    exact ih (pos + 1) (k + 1) _ (by omega) small

theorem decodeGroups_whole (bytes : Bytes) (pos shift output : Nat) :
    decodeGroups bytes pos shift output = (0, 0) ∨ ∃ groups, groups <+: bytes ∧
      WholeGroups groups := by
  induction bytes generalizing pos shift output with
  | nil => exact .inl rfl
  | cons byte rest ih =>
    by_cases set : byte &&& 0x80 = 0
    · exact .inr ⟨[byte], ⟨rest, rfl⟩, .last set⟩
    · simp only [decodeGroups, set, ne_eq, not_false_eq_true, ↓reduceIte]
      apply (ih (pos + 1) (shift + 7) _).imp_right
      rintro ⟨groups, front, whole⟩
      exact ⟨byte :: groups, List.prefix_cons_inj byte |>.mpr front, .more set whole⟩

/-! ## One integer -/

theorem WholeInteger.length {numbits : Nat} {encoding : Bytes}
    (whole : WholeInteger numbits encoding) (rest : Bytes) :
    (decodeInteger (encoding ++ rest) numbits).1 = encoding.length := by
  cases whole with
  | short room =>
    simp only [List.singleton_append, decodeInteger, room, ne_eq, not_false_eq_true, ↓reduceIte,
      List.length_singleton]
  | long full later =>
    simp only [List.cons_append, decodeInteger, full, ne_eq, not_true_eq_false, ↓reduceIte,
      later.length, List.length_cons]
    omega

theorem WholeInteger.shifts {numbits : Nat} {encoding : Bytes}
    (whole : WholeInteger numbits encoding) (rest : Bytes) :
    integerShifts numbits (encoding ++ rest) = List.range' 0 (encoding.length - 1) 7 := by
  cases whole with
  | short room =>
    simp only [List.singleton_append, integerShifts, room, ne_eq, not_false_eq_true, ↓reduceIte,
      List.length_singleton, Nat.sub_self, List.range'_zero]
  | long full later =>
    simp only [List.cons_append, integerShifts, full, ne_eq, not_true_eq_false, ↓reduceIte,
      later.shifts, List.length_cons, Nat.add_sub_cancel]

theorem WholeInteger.value {numbits : Nat} {encoding : Bytes}
    (whole : WholeInteger numbits encoding) (rest : Bytes) (few : encoding.length ≤ 6)
    (small : denoted numbits encoding < 2 ^ 32) :
    (decodeInteger (encoding ++ rest) numbits).2 = denoted numbits encoding := by
  cases whole with
  | short room =>
    simp only [List.singleton_append, decodeInteger, room, ne_eq, not_false_eq_true, ↓reduceIte,
      denoted, List.map_nil, Nat.ofDigits_nil, Nat.add_zero]
  | @long first groups full later =>
    simp only [denoted, full, List.length_cons] at small few ⊢
    simp only [List.cons_append, decodeInteger, full, ne_eq, not_true_eq_false, ↓reduceIte]
    have read := later.value rest 1 0 (2 ^ numbits - 1) (by omega) (by simpa using small)
    simpa using read

/-- Bytes that are read start with a whole encoding. -/
theorem decodeInteger_whole (region : Bytes) (numbits : Nat) :
    decodeInteger region numbits = (0, 0) ∨ ∃ encoding, encoding <+: region ∧
      WholeInteger numbits encoding := by
  cases region with
  | nil => exact .inl rfl
  | cons first rest =>
    by_cases full : first.toNat &&& (2 ^ numbits - 1) = 2 ^ numbits - 1
    · simp only [decodeInteger, full, ne_eq, not_true_eq_false, ↓reduceIte]
      apply (decodeGroups_whole rest 1 0 _).imp_right
      rintro ⟨groups, front, whole⟩
      exact ⟨first :: groups, List.prefix_cons_inj first |>.mpr front, .long full whole⟩
    · exact .inr ⟨[first], ⟨rest, rfl⟩, .short full⟩

/-! ## The output -/

/-- What is promised of a region: the output is the integer denoted by the bytes
read, no shift reaches the word size, and a number too large for it fails. -/
structure Reads (numbits : Nat) (region : Bytes) : Prop where
  value : 0 < (decodeInteger region numbits).1 →
    (decodeInteger region numbits).2 =
      denoted numbits (region.take (decodeInteger region numbits).1)
  shifts : 0 < (decodeInteger region numbits).1 → ∀ s ∈ integerShifts numbits region, s < 32
  large : ∀ encoding, encoding <+: region → WholeInteger numbits encoding →
    2 ^ 32 ≤ denoted numbits encoding → decodeInteger region numbits = (0, 0)

/-- **Reading.** The promise is kept exactly where the encoding at the front, if
there is a whole one, has no more than five groups and denotes a number below 2^32. -/
theorem reads_iff (numbits : Nat) (region : Bytes) :
    Reads numbits region ↔ ∀ encoding, encoding <+: region → WholeInteger numbits encoding →
      encoding.length ≤ 6 ∧ denoted numbits encoding < 2 ^ 32 := by
  constructor
  · rintro reads encoding ⟨rest, rfl⟩ whole
    have advanced := whole.length rest
    have pos : 0 < encoding.length := by cases whole <;> simp
    constructor
    · by_contra long
      have past := reads.shifts (by omega) (7 * 5)
      rw [whole.shifts, List.mem_range'] at past
      exact absurd (past ⟨5, by omega, by omega⟩) (by omega)
    · by_contra large
      have failed := reads.large encoding ⟨rest, rfl⟩ whole (by omega)
      rw [failed] at advanced
      omega
  · intro fits
    rcases decodeInteger_whole region numbits with failed | ⟨encoding, front, whole⟩
    · exact ⟨by simp [failed], by simp [failed], fun _ _ _ _ => failed⟩
    · obtain ⟨few, small⟩ := fits encoding front whole
      obtain ⟨rest, rfl⟩ := front
      refine ⟨fun _ => ?_, fun _ s hs => ?_, fun other front' whole' large => ?_⟩
      · rw [whole.length, List.take_left', whole.value rest few small]
        rfl
      · rw [whole.shifts, List.mem_range'] at hs
        obtain ⟨i, bound, rfl⟩ := hs
        omega
      · exact absurd (fits other front' whole').2 (by omega)

/-- An all-ones prefix of seven bits and five groups: 127 + 2^32. -/
theorem reads_wraps : ¬ Reads 7 [0xff, 0x80, 0x80, 0x80, 0x80, 0x10] := by
  intro reads
  exact absurd (reads.value (by decide)) (by decide)

/-- **Round trip.** What is appended for a 32-bit value is read back to its last
byte and no further, and its first byte keeps the bits above the number's. -/
theorem decodeInteger_appended {hibits : Byte} {numbits v : Nat} (rest : Bytes)
    (hn : numbits ≤ 8) (hfree : FreeBelow hibits numbits) (hv : v < 2 ^ 32) :
    decodeInteger (encodeInteger hibits numbits v ++ rest) numbits =
        ((encodeInteger hibits numbits v).length, v) ∧
      ∃ first ∈ (encodeInteger hibits numbits v).head?,
        first.toNat / 2 ^ numbits = hibits.toNat / 2 ^ numbits := by
  refine ⟨decodeInteger_encodeInteger rest hn hfree hv, ?_⟩
  obtain ⟨p, groups, small, appended⟩ := head_encodeInteger hibits numbits v
  refine ⟨UInt8.ofNat p ||| hibits, by rw [appended, List.head?_cons, Option.mem_some], ?_⟩
  have byte : p < 256 := Nat.lt_of_lt_of_le small (Nat.pow_le_pow_right (n := 2) (by omega) hn)
  rw [UInt8.toNat_or, UInt8.toNat_ofNat', Nat.mod_eq_of_lt byte, ← Nat.shiftRight_eq_div_pow,
    Nat.shiftRight_or_distrib, Nat.shiftRight_eq_div_pow, Nat.div_eq_of_lt small, Nat.zero_or,
    Nat.shiftRight_eq_div_pow]

/-- The largest value behind a six-bit prefix. -/
theorem decodeInteger_appended_largest :
    decodeInteger (encodeInteger 0x40 6 4294967295 ++ [0xff]) 6 = (6, 4294967295) :=
  (decodeInteger_appended [0xff] (by decide) (by decide) (by decide)).1

end Http2Server.Hpack
