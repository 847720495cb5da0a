import Mathlib.Data.Nat.Bitwise

/-!
# Bytes and machine words

A `std::string` and a `std::vector<uint8_t>` are both lists of bytes. Wider
integers are natural numbers, reduced where the source's type wraps.
-/

namespace Http2Server

abbrev Byte := UInt8

abbrev Bytes := List Byte

/-- A statement about every byte is decided by trying the 256 of them. -/
instance {p : Byte → Prop} [DecidablePred p] : Decidable (∀ b, p b) :=
  decidable_of_iff (∀ i : Fin 256, p (UInt8.ofFin i))
    ⟨fun h b => h b.toFin, fun h i => h (UInt8.ofFin i)⟩

/-- A string literal of the source. -/
def ascii (s : String) : Bytes := s.toList.map fun c => UInt8.ofNat c.toNat

/-- `std::to_string` of an unsigned number. -/
def decimal (n : Nat) : Bytes := (Nat.toDigits 10 n).map fun c => UInt8.ofNat c.toNat

theorem length_decimal_le {n k : Nat} (hk : 0 < k) (hn : n < 10 ^ k) :
    (decimal n).length ≤ k := by
  rw [decimal, List.length_map]
  exact (Nat.length_toDigits_le_iff (by omega) hk).mpr hn

/-- `uint32_t` arithmetic. -/
def wrap32 (n : Nat) : Nat := n % 2 ^ 32

/-- `uint64_t` arithmetic. -/
def wrap64 (n : Nat) : Nat := n % 2 ^ 64

theorem wrap32_of_lt {n : Nat} (h : n < 2 ^ 32) : wrap32 n = n := Nat.mod_eq_of_lt h

theorem wrap64_of_lt {n : Nat} (h : n < 2 ^ 64) : wrap64 n = n := Nat.mod_eq_of_lt h

/-- Subtraction of two `size_t` values wraps below zero. -/
def sizeSub (a b : Nat) : Nat := wrap64 (a + 2 ^ 64 - b)

theorem sizeSub_of_le {a b : Nat} (hab : b ≤ a) (ha : a < 2 ^ 64) : sizeSub a b = a - b := by
  simp only [sizeSub, wrap64]
  omega

end Http2Server
