import Http2Server.Hpack.Decode

/-!
# Lookups that fail

An index that is not in the table makes an indexed field a false result, and the
name of a literal an exception. `Ends` runs the loop without fuel.
-/

namespace Http2Server.Hpack

/-- The index that a literal takes its name from. -/
def nameIndex (p : Byte) (tail : Bytes) : Option Nat :=
  if p &&& 0xe0 = 0x20 then none
  else if p &&& 0x80 ≠ 0 then none
  else
    let shouldAdd : Bool := p &&& 0xc0 = 0x40
    let (n, index) := decodeInteger (p :: tail) (if shouldAdd then 6 else 4)
    if n = 0 then none else if index > 0 then some index else none

/-- The loop ends. -/
inductive Ends : Table → Bytes → Verdict → Prop
  | done (t : Table) : Ends t [] .accepted
  | failed {t : Table} {p : Byte} {tail : Bytes} (turn : decodeField t p tail = .failed) :
      Ends t (p :: tail) .rejected
  | threw {t : Table} {p : Byte} {tail : Bytes} (turn : decodeField t p tail = .threw) :
      Ends t (p :: tail) .threw
  | read {t t' : Table} {p : Byte} {tail rest : Bytes} {header : Option Header} {v : Verdict}
      (turn : decodeField t p tail = .read t' header rest) (later : Ends t' rest v) :
      Ends t (p :: tail) v

/-- The turns of the loop, each with its table and what is left of the block. -/
inductive Turn : Table → Bytes → Table → Bytes → Prop
  | here (t : Table) (block : Bytes) : Turn t block t block
  | next {t t' t'' : Table} {p : Byte} {tail rest left : Bytes} {header : Option Header}
      (turn : decodeField t p tail = .read t' header rest) (later : Turn t' rest t'' left) :
      Turn t (p :: tail) t'' left

/-- Every literal that is come to finds its name in the table of that moment. -/
def NamesFound (t : Table) (block : Bytes) : Prop :=
  ∀ t' p tail, Turn t block t' (p :: tail) → ∀ i ∈ nameIndex p tail, i < 62 + t'.dynamic.length

theorem lookup_none_iff {t : Table} {i : Nat} (pos : 0 < i) :
    t.lookup i = none ↔ ¬ i < 62 + t.dynamic.length := by
  unfold Table.lookup
  rw [if_neg (by omega)]
  split
  · next static =>
    have bound : i < staticTable.length := by rw [length_staticTable]; exact static
    rw [List.getElem?_eq_getElem bound]
    exact iff_of_false (by simp) (by omega)
  · rw [List.getElem?_eq_none_iff]
    omega

theorem nameIndex_pos {p : Byte} {tail : Bytes} {i : Nat} (h : nameIndex p tail = some i) :
    0 < i := by
  unfold nameIndex at h
  split at h
  · cases h
  · split at h
    · cases h
    · dsimp only at h
      generalize decodeInteger (p :: tail) _ = r at h
      by_cases none : r.1 = 0
      · rw [if_pos none] at h
        cases h
      · rw [if_neg none] at h
        by_cases pos : r.2 > 0
        · rw [if_pos pos] at h
          cases h
          exact pos
        · rw [if_neg pos] at h
          cases h

theorem readValue_not_threw (t : Table) (shouldAdd : Bool) (name rest : Bytes) :
    readValue t shouldAdd name rest ≠ .threw := by
  unfold readValue
  split <;> simp

theorem readLiteral_threw_iff (t : Table) (shouldAdd : Bool) (index : Nat) (rest : Bytes) :
    readLiteral t shouldAdd index rest = .threw ↔ 0 < index ∧ t.lookup index = none := by
  unfold readLiteral
  by_cases pos : index > 0
  · rw [if_pos pos]
    cases t.lookup index with
    | none => simpa using pos
    | some h => simp [readValue_not_threw]
  · rw [if_neg pos]
    cases readString rest with
    | none => simp [pos]
    | some read => simp [readValue_not_threw, pos]

/-- A turn throws where it looks for a name that is not there. -/
theorem decodeField_threw_iff (t : Table) (p : Byte) (tail : Bytes) :
    decodeField t p tail = .threw ↔ ∃ i, nameIndex p tail = some i ∧ t.lookup i = none := by
  unfold decodeField nameIndex
  split
  · dsimp only
    split <;> simp
  · split
    · dsimp only
      split
      · simp
      · split
        · simp
        · split <;> simp
    · dsimp only
      generalize decodeInteger (p :: tail) _ = r
      by_cases none : r.1 = 0
      · simp [none]
      · rw [if_neg none, readLiteral_threw_iff, if_neg none]
        by_cases pos : r.2 > 0 <;> simp [pos]

theorem decodeField_not_threw_iff (t : Table) (p : Byte) (tail : Bytes) :
    decodeField t p tail ≠ .threw ↔ ∀ i ∈ nameIndex p tail, i < 62 + t.dynamic.length := by
  rw [Ne, decodeField_threw_iff, not_exists]
  apply forall_congr'
  intro i
  rw [not_and]
  apply imp_congr_right
  intro index
  rw [lookup_none_iff (nameIndex_pos index), not_not]

/-- The loop ends on every block, with the verdict of `decode_lowmem`. -/
theorem ends_decodeLowmem (t : Table) (block : Bytes) :
    Ends t block (decodeLowmem t block).verdict := by
  generalize hn : block.length = n
  induction n using Nat.strongRecOn generalizing t block with
  | ind n ih =>
    cases block with
    | nil => exact .done t
    | cons p tail =>
      cases turn : decodeField t p tail with
      | failed =>
        simp only [decodeLowmem, decodeFields, List.length_cons, turn]
        exact .failed turn
      | threw =>
        simp only [decodeLowmem, decodeFields, List.length_cons, turn]
        exact .threw turn
      | read t' header rest =>
        rw [decodeLowmem_read turn]
        have shorter := decodeField_shorter turn
        rw [List.length_cons] at hn
        exact .read turn (ih rest.length (by omega) t' rest rfl)

theorem ends_returned_iff {t : Table} {block : Bytes} {v : Verdict} (ends : Ends t block v) :
    v ≠ .threw ↔ NamesFound t block := by
  induction ends with
  | done t =>
    refine iff_of_true (by simp) ?_
    intro t' p tail turn
    cases turn
  | @failed t p tail turn =>
    refine iff_of_true (by simp) ?_
    intro t' p' tail' come
    cases come with
    | here => exact (decodeField_not_threw_iff t p tail).mp (by simp [turn])
    | next read => cases turn.symm.trans read
  | @threw t p tail turn =>
    refine iff_of_false (by simp) fun found => ?_
    exact (decodeField_not_threw_iff t p tail).mpr (found t p tail (.here t _)) turn
  | @read t t' p tail rest header v turn later ih =>
    rw [ih]
    constructor
    · intro found t'' p' tail' come
      cases come with
      | here => exact (decodeField_not_threw_iff t p tail).mp (by simp [turn])
      | next read come =>
        cases turn.symm.trans read
        exact found t'' p' tail' come
    · exact fun found t'' p' tail' come => found t'' p' tail' (.next turn come)

/-- **Returning.** `decode_lowmem` ends, and with true or false exactly where every
name that a literal refers to is found. -/
theorem decodeLowmem_returns_iff (t : Table) (block : Bytes) :
    (Ends t block (decodeLowmem t block).verdict ∧ (decodeLowmem t block).verdict ≠ .threw) ↔
      NamesFound t block := by
  have ends := ends_decodeLowmem t block
  rw [and_iff_right ends]
  exact ends_returned_iff ends

/-- A literal with the name of index 62, on a table without entries. -/
theorem decodeLowmem_threw : ¬ (decodeLowmem Table.new [0x7e, 0x01, 0x61]).verdict ≠ .threw := by
  decide +kernel

end Http2Server.Hpack
