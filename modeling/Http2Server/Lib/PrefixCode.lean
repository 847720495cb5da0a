import Http2Server.Lib.BitString
import Mathlib.Data.List.Infix
import Mathlib.Data.List.Pairwise
import Mathlib.Order.Basic

/-!
# Prefix codes

A table of symbols, each with a code word over an arbitrary alphabet, no word
a prefix of another. Reading a word off the front of a message is then
unambiguous (`head_unique`), so a greedy reader recovers the message
(`encode_cons_of_prefix`). `prefixFree_of_chain` reduces the pairwise
condition to neighbours in a table ordered by the numbers its words cover.
-/

namespace Lib.PrefixCode

section
variable {σ α : Type} (code : σ → List α)

/-- No code word of the table begins with another one's. -/
def PrefixFree (table : List σ) : Prop :=
  ∀ a ∈ table, ∀ b ∈ table, code a <+: code b → a = b

/-- The code words of a message, one after the other. -/
def encode (message : List σ) : List α := message.flatMap code

@[simp] theorem encode_nil : encode code [] = [] := rfl

@[simp] theorem encode_cons (a : σ) (message : List σ) :
    encode code (a :: message) = code a ++ encode code message := rfl

@[simp] theorem encode_append (x y : List σ) :
    encode code (x ++ y) = encode code x ++ encode code y := by
  simp [encode]

/-- No symbol can be read off the front of `text`. -/
def Settled (table : List σ) (text : List α) : Prop :=
  ∀ a ∈ table, ¬ code a <+: text

variable {code}

/-- Two code words at the front of the same text are the same symbol's. -/
theorem head_unique {table : List σ} (free : PrefixFree code table) {a b : σ}
    (ha : a ∈ table) (hb : b ∈ table) {text : List α}
    (pa : code a <+: text) (pb : code b <+: text) : a = b := by
  rcases Nat.le_total (code a).length (code b).length with h | h
  · exact free a ha b hb (List.prefix_of_prefix_length_le pa pb h)
  · exact (free b hb a ha (List.prefix_of_prefix_length_le pb pa h)).symm

/-- A symbol read off the front of a message's text is the message's first
symbol, unless the message is over and it was read off the tail. -/
theorem encode_cons_of_prefix {table : List σ} (free : PrefixFree code table) {a : σ}
    (ha : a ∈ table) {message : List σ} (hm : ∀ b ∈ message, b ∈ table) {tail : List α}
    (notTail : ¬ code a <+: tail) (h : code a <+: encode code message ++ tail) :
    ∃ rest, message = a :: rest := by
  cases message with
  | nil => exact absurd h notTail
  | cons b rest =>
    have hb : code b <+: encode code (b :: rest) ++ tail := by
      rw [encode_cons, List.append_assoc]
      exact List.prefix_append _ _
    exact ⟨rest, by rw [head_unique free ha (hm b (by simp)) h hb]⟩

/-- A settled front of a message's text is shorter than the next code word. -/
theorem settled_length {table : List σ} {front back tail : List α} {b : σ} {message : List σ}
    (hs : Settled code table front) (hb : b ∈ table)
    (h : front ++ back = encode code (b :: message) ++ tail) :
    front.length < (code b).length := by
  by_contra hlt
  apply hs b hb
  have hp : code b <+: front ++ back := by
    rw [h, encode_cons, List.append_assoc]
    exact List.prefix_append _ _
  exact List.prefix_of_prefix_length_le hp (List.prefix_append _ _) (by omega)

end

/-! ## Code words given as numbers -/

section
variable {σ : Type} (value width : σ → Nat) (total : Nat)

/-- The first number of `total` bits that begins with the code word. -/
def first (a : σ) : Nat := value a <<< (total - width a)

/-- One past the last number of `total` bits that begins with the code word. -/
def past (a : σ) : Nat := (value a + 1) <<< (total - width a)

/-- `b` only covers numbers after those `a` covers. -/
def Before (a b : σ) : Prop := past value width total a ≤ first value width total b

/-- The two words cover no number together. -/
def Apart (a b : σ) : Prop := Before value width total a b ∨ Before value width total b a

instance : DecidableRel (Before value width total) :=
  fun a b => inferInstanceAs (Decidable (past value width total a ≤ first value width total b))

variable {value width total}

theorem first_lt_past (a : σ) : first value width total a < past value width total a := by
  simp only [first, past, Nat.shiftLeft_eq]
  exact Nat.mul_lt_mul_of_pos_right (by omega) (Nat.two_pow_pos _)

theorem before_trans {a b c : σ} (hab : Before value width total a b)
    (hbc : Before value width total b c) : Before value width total a c :=
  Nat.le_trans hab (Nat.le_trans (Nat.le_of_lt (first_lt_past b)) hbc)

/-- A code word that begins with another covers part of what that one covers. -/
theorem prefix_covers {a b : σ} (ha : value a < 2 ^ width a) (hb : value b < 2 ^ width b)
    (hw : width b ≤ total)
    (h : BitString.bits (width a) (value a) <+: BitString.bits (width b) (value b)) :
    first value width total a ≤ first value width total b ∧
    past value width total b ≤ past value width total a := by
  obtain ⟨hab, hv⟩ := (BitString.bits_prefix_iff ha hb).mp h
  have shift : total - width a = (total - width b) + (width b - width a) := by omega
  have low : value a * 2 ^ (width b - width a) ≤ value b := by
    rw [hv, Nat.shiftRight_eq_div_pow]
    exact Nat.div_mul_le_self _ _
  have high : value b + 1 ≤ (value a + 1) * 2 ^ (width b - width a) := by
    rw [hv, Nat.shiftRight_eq_div_pow]
    have := Nat.lt_mul_div_succ (value b) (Nat.two_pow_pos (width b - width a))
    rwa [Nat.mul_comm] at this
  simp only [first, past, Nat.shiftLeft_eq, shift, Nat.pow_add, ← Nat.mul_assoc]
  constructor
  · calc value a * 2 ^ (total - width b) * 2 ^ (width b - width a)
        = value a * 2 ^ (width b - width a) * 2 ^ (total - width b) := by ring
      _ ≤ value b * 2 ^ (total - width b) := Nat.mul_le_mul_right _ low
  · calc (value b + 1) * 2 ^ (total - width b)
        ≤ (value a + 1) * 2 ^ (width b - width a) * 2 ^ (total - width b) :=
          Nat.mul_le_mul_right _ high
      _ = (value a + 1) * 2 ^ (total - width b) * 2 ^ (width b - width a) := by ring

/-- A table in which each word covers numbers after those of the word before
it, in some order of its entries, is prefix-free. -/
theorem prefixFree_of_chain {table sorted : List σ} (hmem : ∀ a ∈ table, a ∈ sorted)
    (hfit : ∀ a ∈ table, value a < 2 ^ width a ∧ width a ≤ total)
    (hchain : sorted.IsChain (Before value width total)) :
    PrefixFree (fun a => BitString.bits (width a) (value a)) table := by
  have : Trans (Before value width total) (Before value width total)
      (Before value width total) := ⟨before_trans⟩
  have : Std.Symm (Apart value width total) := ⟨fun _ _ => Or.symm⟩
  have hpair : sorted.Pairwise (Apart value width total) :=
    (List.isChain_iff_pairwise.mp hchain).imp Or.inl
  intro a ha b hb h
  by_contra hne
  obtain ⟨hlo, hhi⟩ := prefix_covers (hfit a ha).1 (hfit b hb).1 (hfit b hb).2 h
  have apart := hpair.forall (hmem a ha) (hmem b hb) hne
  have pa : first value width total a < past value width total a := first_lt_past a
  have pb : first value width total b < past value width total b := first_lt_past b
  rcases apart with h | h <;> (unfold Before at h; omega)

end

end Lib.PrefixCode
