import Http2Server.Bytes
import Mathlib.Tactic.Ring

/-!
# Prefixed integers

`encode_integer` and `decode_integer`. A number below the all-ones prefix
stands in the prefix itself; otherwise the rest follows in groups of seven
bits, the lowest first, every group but the last with its top bit set.
-/

namespace Http2Server.Hpack

/-- The groups after an all-ones prefix. Five groups hold any 32-bit value, so
the loop's fuel is never used up. -/
def encodeGroups : Nat → Nat → Bytes
  | 0, value => [UInt8.ofNat value]
  | fuel + 1, value =>
    if value ≥ 0x80 then
      UInt8.ofNat (0x80 ||| (value &&& 0x7f)) :: encodeGroups fuel (value >>> 7)
    else [UInt8.ofNat value]

def encodeInteger (hibits : Byte) (numbits value : Nat) : Bytes :=
  let max := 2 ^ numbits - 1
  if value < max then [UInt8.ofNat value ||| hibits]
  else (UInt8.ofNat max ||| hibits) :: encodeGroups 4 (value - max)

/-- The `do { ... } while (byte & 0x80)` loop, with the bytes read so far. The
product and the sum are 32-bit; a shift of 32 or more, undefined in C++, is the
processor's, which looks at the low five bits of the count. -/
def decodeGroups : Bytes → Nat → Nat → Nat → Nat × Nat
  | [], _, _, _ => (0, 0)
  | byte :: rest, pos, shift, output =>
    let output := wrap32 (output + (byte &&& 0x7f).toNat * 2 ^ (shift % 32))
    if byte &&& 0x80 ≠ 0 then decodeGroups rest (pos + 1) (shift + 7) output
    else (pos + 1, output)

/-- The number of bytes to advance and the output; zero for both on failure. -/
def decodeInteger (bytes : Bytes) (numbits : Nat) : Nat × Nat :=
  match bytes with
  | [] => (0, 0)
  | first :: rest =>
    let mask := 2 ^ numbits - 1
    let byte := first.toNat &&& mask
    if byte ≠ mask then (1, byte) else decodeGroups rest 1 0 byte

/-! ## Groups -/

theorem group_more (v : Nat) :
    (UInt8.ofNat (0x80 ||| (v &&& 0x7f)) &&& 0x7f).toNat = v % 128 ∧
    UInt8.ofNat (0x80 ||| (v &&& 0x7f)) &&& 0x80 ≠ 0 := by
  have low : v &&& 0x7f = v % 128 := Nat.and_two_pow_sub_one_eq_mod v 7
  have finite : ∀ i : Fin 128, (UInt8.ofNat (0x80 ||| i.val) &&& 0x7f).toNat = i.val ∧
      UInt8.ofNat (0x80 ||| i.val) &&& 0x80 ≠ 0 := by decide
  rw [low]
  exact finite ⟨v % 128, Nat.mod_lt _ (by omega)⟩

theorem group_last {v : Nat} (h : v < 0x80) :
    (UInt8.ofNat v &&& 0x7f).toNat = v ∧ UInt8.ofNat v &&& 0x80 = 0 := by
  have finite : ∀ i : Fin 128, (UInt8.ofNat i.val &&& 0x7f).toNat = i.val ∧
      UInt8.ofNat i.val &&& 0x80 = 0 := by decide
  exact finite ⟨v, h⟩

theorem length_encodeGroups_le (fuel v : Nat) : (encodeGroups fuel v).length ≤ fuel + 1 := by
  induction fuel generalizing v with
  | zero => simp [encodeGroups]
  | succ fuel ih =>
    simp only [encodeGroups]
    split
    · exact Nat.succ_le_succ (ih _)
    · simp

theorem length_encodeInteger_le (hibits : Byte) (numbits value : Nat) :
    (encodeInteger hibits numbits value).length ≤ 6 := by
  simp only [encodeInteger]
  split
  · simp
  · exact Nat.succ_le_succ (length_encodeGroups_le 4 _)

/-- One group read at the shift it was written for. -/
theorem decodeGroups_cons {byte : Byte} {rest : Bytes} {pos k output group : Nat}
    (hg : (byte &&& 0x7f).toNat = group) (hk : 7 * k < 32)
    (hlt : output + group * 2 ^ (7 * k) < 2 ^ 32) :
    decodeGroups (byte :: rest) pos (7 * k) output =
      if byte &&& 0x80 ≠ 0 then
        decodeGroups rest (pos + 1) (7 * (k + 1)) (output + group * 2 ^ (7 * k))
      else (pos + 1, output + group * 2 ^ (7 * k)) := by
  simp only [decodeGroups, hg, Nat.mod_eq_of_lt hk, wrap32_of_lt hlt]
  rfl

/-- Reading the groups back, at every shift the encoder reaches. -/
theorem decodeGroups_encodeGroups (rest : Bytes) : ∀ fuel v pos k output,
    v < 2 ^ (7 * (fuel + 1)) → k + fuel ≤ 4 → output + v * 2 ^ (7 * k) < 2 ^ 32 →
    decodeGroups (encodeGroups fuel v ++ rest) pos (7 * k) output =
      (pos + (encodeGroups fuel v).length, output + v * 2 ^ (7 * k)) := by
  intro fuel
  induction fuel with
  | zero =>
    intro v pos k output hv hk hlt
    obtain ⟨low, last⟩ := group_last (v := v) (by simpa using hv)
    simp only [encodeGroups, List.singleton_append, List.length_singleton]
    rw [decodeGroups_cons low (by omega) hlt]
    simp [last]
  | succ fuel ih =>
    intro v pos k output hv hk hlt
    by_cases more : v ≥ 0x80
    · obtain ⟨low, cont⟩ := group_more v
      have split : v % 128 * 2 ^ (7 * k) + v / 128 * 2 ^ (7 * (k + 1)) = v * 2 ^ (7 * k) := by
        calc v % 128 * 2 ^ (7 * k) + v / 128 * 2 ^ (7 * (k + 1))
            = (v % 128 + 128 * (v / 128)) * 2 ^ (7 * k) := by
              rw [Nat.mul_add 7, Nat.pow_add]
              ring
          _ = v * 2 ^ (7 * k) := by rw [Nat.mod_add_div]
      have small : v / 128 < 2 ^ (7 * (fuel + 1)) := by
        rw [Nat.div_lt_iff_lt_mul (by omega)]
        rwa [Nat.mul_add 7 (fuel + 1), Nat.pow_add] at hv
      simp only [encodeGroups, more, ↓reduceIte, List.cons_append, List.length_cons,
        Nat.shiftRight_eq_div_pow, Nat.reducePow]
      rw [decodeGroups_cons low (by omega) (by omega)]
      simp only [cont, ne_eq, not_false_eq_true, ↓reduceIte]
      rw [ih (v / 128) (pos + 1) (k + 1) _ small (by omega) (by omega)]
      simp only [Prod.mk.injEq]
      omega
    · obtain ⟨low, last⟩ := group_last (v := v) (by omega)
      simp only [encodeGroups, more, ↓reduceIte, List.singleton_append, List.length_singleton]
      rw [decodeGroups_cons low (by omega) hlt]
      simp [last]

/-! ## The prefix -/

/-- High bits that leave the prefix free do not show in it. -/
def FreeBelow (hibits : Byte) (numbits : Nat) : Prop := hibits.toNat % 2 ^ numbits = 0

instance (hibits : Byte) (numbits : Nat) : Decidable (FreeBelow hibits numbits) :=
  inferInstanceAs (Decidable (hibits.toNat % 2 ^ numbits = 0))

theorem prefix_or {hibits : Byte} {numbits v : Nat} (hn : numbits ≤ 8)
    (hfree : FreeBelow hibits numbits) (hv : v < 2 ^ numbits) :
    (UInt8.ofNat v ||| hibits).toNat &&& (2 ^ numbits - 1) = v := by
  have hv8 : v < 256 := Nat.lt_of_lt_of_le hv (Nat.pow_le_pow_right (n := 2) (by omega) hn)
  rw [Nat.and_two_pow_sub_one_eq_mod, UInt8.toNat_or, UInt8.toNat_ofNat', Nat.mod_eq_of_lt hv8,
    Nat.or_mod_two_pow, hfree, Nat.or_zero, Nat.mod_eq_of_lt hv]

/-- Decoding undoes encoding for every 32-bit value, whatever follows. -/
theorem decodeInteger_encodeInteger {hibits : Byte} {numbits v : Nat} (rest : Bytes)
    (hn : numbits ≤ 8) (hfree : FreeBelow hibits numbits) (hv : v < 2 ^ 32) :
    decodeInteger (encodeInteger hibits numbits v ++ rest) numbits =
      ((encodeInteger hibits numbits v).length, v) := by
  have pos := Nat.two_pow_pos numbits
  by_cases short : v < 2 ^ numbits - 1
  · have kept := prefix_or hn hfree (v := v) (by omega)
    simp only [encodeInteger, short, ↓reduceIte, List.singleton_append, decodeInteger, kept,
      List.length_singleton]
    rw [if_pos (by omega)]
  · have kept := prefix_or hn hfree (v := 2 ^ numbits - 1) (by omega)
    simp only [encodeInteger, short, ↓reduceIte, List.cons_append, decodeInteger, kept,
      List.length_cons, ne_eq, not_true_eq_false]
    have groups := decodeGroups_encodeGroups rest 4 (v - (2 ^ numbits - 1)) 1 0 (2 ^ numbits - 1)
      (by omega) (by omega) (by omega)
    rw [Nat.mul_zero] at groups
    rw [groups]
    simp only [Prod.mk.injEq]
    omega

/-- The first byte keeps the high bits. -/
theorem head_encodeInteger (hibits : Byte) (numbits v : Nat) :
    ∃ p rest, p < 2 ^ numbits ∧
      encodeInteger hibits numbits v = (UInt8.ofNat p ||| hibits) :: rest := by
  have pos := Nat.two_pow_pos numbits
  by_cases short : v < 2 ^ numbits - 1
  · exact ⟨v, [], by omega, by simp [encodeInteger, short]⟩
  · exact ⟨2 ^ numbits - 1, encodeGroups 4 (v - (2 ^ numbits - 1)), by omega,
      by simp only [encodeInteger, short, ↓reduceIte]⟩

end Http2Server.Hpack
