import Mathlib.Data.Nat.Bitwise
import Mathlib.Tactic.Ring
import Mathlib.Tactic.Linarith

/-!
# Numbers read as bit strings

`bits w v` is the `w` low bits of `v`, most significant first. Shifting and
masking a number is then cutting and joining lists:

* `bits_add`: the high part and the low part of a number, side by side;
* `bits_prefix_iff`: a code in the top bits of an accumulator is a prefix;
* `unpack`: the bits of a byte string, which determine it (`unpack_inj`).
-/

namespace Lib.BitString

/-- The `w` low bits of `v`, the most significant first. -/
def bits : Nat → Nat → List Bool
  | 0, _ => []
  | w + 1, v => v.testBit w :: bits w v

@[simp] theorem length_bits (w v : Nat) : (bits w v).length = w := by
  induction w with
  | zero => rfl
  | succ w ih => simp [bits, ih]

@[simp] theorem bits_zero (v : Nat) : bits 0 v = [] := rfl

/-- The bits read depend only on the bits below the width. -/
theorem bits_congr {w u v : Nat} (h : ∀ i, i < w → u.testBit i = v.testBit i) :
    bits w u = bits w v := by
  induction w with
  | zero => rfl
  | succ w ih =>
    simp only [bits, List.cons.injEq]
    exact ⟨h w (by omega), ih fun i hi => h i (by omega)⟩

theorem bits_mod {w k v : Nat} (h : w ≤ k) : bits w (v % 2 ^ k) = bits w v := by
  apply bits_congr
  intro i hi
  simp [Nat.testBit_mod_two_pow, show i < k by omega]

theorem bits_add (a b v : Nat) : bits (a + b) v = bits a (v >>> b) ++ bits b v := by
  induction a with
  | zero => simp
  | succ a ih =>
    rw [show a + 1 + b = a + b + 1 by omega]
    simp only [bits, List.cons_append, ih, Nat.testBit_shiftRight, List.cons.injEq, and_true]
    rw [Nat.add_comm]

/-- Shifting a code into an accumulator appends its bits. -/
theorem bits_push {w k u v : Nat} (hv : v < 2 ^ k) :
    bits (w + k) ((u <<< k) ||| v) = bits w u ++ bits k v := by
  rw [bits_add]
  congr 1
  · apply bits_congr
    intro i _
    have high : v.testBit (k + i) = false :=
      Nat.testBit_lt_two_pow (Nat.lt_of_lt_of_le hv (Nat.pow_le_pow_right (by omega) (by omega)))
    simp [Nat.testBit_shiftRight, Nat.testBit_or, Nat.testBit_shiftLeft, high]
  · apply bits_congr
    intro i hi
    simp [Nat.testBit_or, Nat.testBit_shiftLeft, show ¬ k ≤ i by omega]

theorem bits_inj {w u v : Nat} (hu : u < 2 ^ w) (hv : v < 2 ^ w) (h : bits w u = bits w v) :
    u = v := by
  induction w generalizing u v with
  | zero => simp at hu hv; omega
  | succ w ih =>
    simp only [bits, List.cons.injEq] at h
    have low : u % 2 ^ w = v % 2 ^ w := by
      apply ih (Nat.mod_lt _ (by positivity)) (Nat.mod_lt _ (by positivity))
      rw [bits_mod (Nat.le_refl w), bits_mod (Nat.le_refl w)]
      exact h.2
    apply Nat.eq_of_testBit_eq
    intro i
    rcases Nat.lt_trichotomy i w with hi | rfl | hi
    · have := congrArg (·.testBit i) low
      simpa [Nat.testBit_mod_two_pow, hi] using this
    · exact h.1
    · have big : 2 ^ (w + 1) ≤ 2 ^ i := Nat.pow_le_pow_right (by omega) (by omega)
      rw [Nat.testBit_lt_two_pow (Nat.lt_of_lt_of_le hu big),
        Nat.testBit_lt_two_pow (Nat.lt_of_lt_of_le hv big)]

/-- A code sits in the top bits of an accumulator exactly when it is a prefix. -/
theorem bits_prefix_iff {a b u v : Nat} (hu : u < 2 ^ a) (hv : v < 2 ^ b) :
    bits a u <+: bits b v ↔ a ≤ b ∧ u = v >>> (b - a) := by
  constructor
  · intro h
    have hab : a ≤ b := by simpa using h.length_le
    refine ⟨hab, ?_⟩
    have split := bits_add a (b - a) v
    rw [show a + (b - a) = b by omega] at split
    rw [split] at h
    have top : bits a u = bits a (v >>> (b - a)) :=
      (List.prefix_of_prefix_length_le h (List.prefix_append _ _) (by simp)).eq_of_length (by simp)
    apply bits_inj hu _ top
    rw [Nat.shiftRight_eq_div_pow, Nat.div_lt_iff_lt_mul (by positivity), ← Nat.pow_add]
    rwa [show a + (b - a) = b by omega]
  · rintro ⟨hab, rfl⟩
    have split := bits_add a (b - a) v
    rw [show a + (b - a) = b by omega] at split
    rw [split]
    exact List.prefix_append _ _

/-- Removing the top `a` bits leaves the rest of the string. -/
theorem bits_mask {n k v : Nat} (h : k ≤ n) : bits k (v % 2 ^ k) = (bits n v).drop (n - k) := by
  rw [bits_mod (Nat.le_refl k)]
  have split := bits_add (n - k) k v
  rw [show n - k + k = n by omega] at split
  rw [split, List.drop_left' (by simp)]

theorem bits_ones (w : Nat) : bits w (2 ^ w - 1) = List.replicate w true := by
  have all : ∀ k, k ≤ w → bits k (2 ^ w - 1) = List.replicate k true := by
    intro k
    induction k with
    | zero => intro _; rfl
    | succ k ih =>
      intro hk
      simp [bits, List.replicate_succ, ih (by omega), Nat.testBit_two_pow_sub_one,
        show k < w by omega]
  exact all w (Nat.le_refl w)

theorem ones_of_bits {w v : Nat} (hv : v < 2 ^ w) (h : bits w v = List.replicate w true) :
    v = 2 ^ w - 1 := by
  apply bits_inj hv (by have := Nat.two_pow_pos w; omega)
  rw [h, bits_ones]

/-- The bits of a byte string, in transmission order. -/
def unpack (bytes : List UInt8) : List Bool :=
  bytes.flatMap fun b => bits 8 b.toNat

@[simp] theorem unpack_nil : unpack [] = [] := rfl

@[simp] theorem unpack_cons (b : UInt8) (rest : List UInt8) :
    unpack (b :: rest) = bits 8 b.toNat ++ unpack rest := rfl

@[simp] theorem unpack_append (x y : List UInt8) : unpack (x ++ y) = unpack x ++ unpack y := by
  simp [unpack]

@[simp] theorem length_unpack (bytes : List UInt8) :
    (unpack bytes).length = 8 * bytes.length := by
  induction bytes with
  | nil => rfl
  | cons b rest ih =>
    rw [unpack_cons, List.length_append, length_bits, ih, List.length_cons]
    ring

/-- Only the low byte of a number is stored. -/
theorem bits_ofNat (v : Nat) : bits 8 (UInt8.ofNat v).toNat = bits 8 v := by
  rw [UInt8.toNat_ofNat', bits_mod (Nat.le_refl 8)]

theorem unpack_inj {x y : List UInt8} (h : unpack x = unpack y) : x = y := by
  induction x generalizing y with
  | nil =>
    cases y with
    | nil => rfl
    | cons b rest => simpa [bits] using congrArg List.length h
  | cons a x ih =>
    cases y with
    | nil => simpa [bits] using congrArg List.length h
    | cons b y =>
      simp only [unpack_cons] at h
      obtain ⟨head, tail⟩ := List.append_inj h (by simp)
      have hab := bits_inj a.toNat_lt b.toNat_lt head
      rw [UInt8.toNat_inj.mp hab, ih tail]

end Lib.BitString
