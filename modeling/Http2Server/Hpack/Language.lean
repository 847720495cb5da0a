import Http2Server.Hpack.Conformance
import Http2Server.Hpack.IntegerRange

/-!
# The language of the decoder

A representation can be written in more than one way: an integer may have more groups than
it needs. `Rep.Written` tells the bytes that are a representation, for either reading of the
groups: as section 5.1 has it, or in the arithmetic of `decode_integer`.

* `readString_iff`: strings, and what they are read as;
* `decodeField_sound`, `decodeField_complete`: the same of one turn;
* `accepts_iff`: the blocks that `decode_lowmem` accepts, and what it makes of them;
* `accepts_exact`: among them is all that section 6 allows, in any of its spellings.
-/

namespace Http2Server.Hpack

/-! ## Whole integers -/

/-- The groups, each times the power of two that its shift comes to in 32 bits. -/
def shiftedSum : Bytes → Nat → Nat
  | [], _ => 0
  | byte :: rest, shift =>
    (byte &&& 0x7f).toNat * 2 ^ (shift % 32) + shiftedSum rest (shift + 7)

/-- What an integer comes to in 32 bits. -/
def denoted32 (numbits : Nat) : Bytes → Nat
  | [] => 0
  | first :: groups => wrap32 ((first.toNat &&& (2 ^ numbits - 1)) + shiftedSum groups 0)

theorem WholeGroups.decoded {groups : Bytes} (whole : WholeGroups groups) (rest : Bytes)
    (pos shift output : Nat) :
    (decodeGroups (groups ++ rest) pos shift output).2 =
      wrap32 (output + shiftedSum groups shift) := by
  induction whole generalizing pos shift output with
  | last clear => simp [decodeGroups, clear, shiftedSum]
  | more set later ih =>
    simp only [List.cons_append, decodeGroups, set, ne_eq, not_false_eq_true, ↓reduceIte]
    rw [ih, shiftedSum, ← Nat.add_assoc]
    exact Nat.mod_add_mod ..

theorem WholeInteger.decoded {numbits : Nat} {encoding : Bytes}
    (whole : WholeInteger numbits encoding) (rest : Bytes) :
    decodeInteger (encoding ++ rest) numbits = (encoding.length, denoted32 numbits encoding) := by
  rw [← whole.length rest]
  cases whole with
  | @short first room =>
    have small : first.toNat &&& (2 ^ numbits - 1) < 2 ^ 32 :=
      Nat.lt_of_le_of_lt Nat.and_le_left (Nat.lt_trans first.toNat_lt (by decide))
    simp only [List.singleton_append, decodeInteger, room, ne_eq, not_false_eq_true, ↓reduceIte,
      denoted32, shiftedSum, Nat.add_zero, wrap32_of_lt small]
  | long full later =>
    simp only [List.cons_append, decodeInteger, full, ne_eq, not_true_eq_false, ↓reduceIte,
      denoted32]
    exact Prod.ext rfl (later.decoded rest 1 0 _)

theorem WholeInteger.ne_nil {numbits : Nat} {encoding : Bytes}
    (whole : WholeInteger numbits encoding) : encoding ≠ [] := by
  cases whole <;> simp

namespace Reference

/-! ## The grammar -/

/-- Which number the bytes of an integer with a prefix of so many bits stand for. -/
abbrev Reading := Nat → Bytes → Nat → Prop

/-- In 32-bit arithmetic, whatever the length. -/
def wrapped : Reading := fun numbits encoding v => denoted32 numbits encoding = v

/-- Section 5.1, for numbers and lengths that an implementation has to take. -/
def exact : Reading := fun numbits encoding v =>
  denoted numbits encoding = v ∧ v < 2 ^ 32 ∧ encoding.length ≤ 6

section
variable (reads : Reading)

/-- An integer, with a pattern in the bits above its prefix. -/
structure Spells (numbits : Nat) (pattern : Byte) (v : Nat) (encoding : Bytes) : Prop where
  whole : WholeInteger numbits encoding
  marked : ∃ first ∈ encoding.head?, first.toNat / 2 ^ numbits = pattern.toNat / 2 ^ numbits
  value : reads numbits encoding v

def Str.Written (s : Str) (bytes : Bytes) : Prop :=
  ∃ length, Spells reads 7 s.flag s.octets.length length ∧ bytes = length ++ s.octets

/-- The index that stands for a name; zero announces a string. -/
def Name.index : Name → Nat
  | .indexed index => index
  | .literal _ => 0

def Name.Written : Name → Bytes → Prop
  | .indexed _, bytes => bytes = []
  | .literal s, bytes => s.Written reads bytes

def Rep.Written : Rep → Bytes → Prop
  | .indexed index, bytes => Spells reads 7 0x80 index bytes
  | .literal i name value, bytes =>
    ∃ a b c, Spells reads i.prefixBits i.pattern name.index a ∧ name.Written reads b ∧
      value.Written reads c ∧ bytes = a ++ (b ++ c)
  | .sizeUpdate maxSize, bytes => Spells reads 5 0x20 maxSize bytes

end

section
variable {reads reads' : Reading} (weaker : ∀ n e v, WholeInteger n e → reads n e v → reads' n e v)
include weaker

theorem Spells.mono {numbits v : Nat} {pattern : Byte} {encoding : Bytes}
    (spells : Spells reads numbits pattern v encoding) :
    Spells reads' numbits pattern v encoding :=
  ⟨spells.whole, spells.marked, weaker _ _ _ spells.whole spells.value⟩

theorem Str.Written.mono {s : Str} {bytes : Bytes} (written : s.Written reads bytes) :
    s.Written reads' bytes := by
  obtain ⟨length, spells, rfl⟩ := written
  exact ⟨length, spells.mono weaker, rfl⟩

theorem Name.Written.mono {name : Name} {bytes : Bytes} (written : name.Written reads bytes) :
    name.Written reads' bytes := by
  cases name with
  | indexed index => exact written
  | literal s => exact Str.Written.mono weaker written

theorem Rep.Written.mono {r : Rep} {bytes : Bytes} (written : r.Written reads bytes) :
    r.Written reads' bytes := by
  cases r with
  | indexed index => exact Spells.mono weaker written
  | sizeUpdate maxSize => exact Spells.mono weaker written
  | literal i name value =>
    obtain ⟨a, b, c, spells, first, second, rfl⟩ := written
    exact ⟨a, b, c, spells.mono weaker, first.mono weaker, second.mono weaker, rfl⟩

end

/-! ## Integers -/

/-- An integer at the front of the bytes, and what is behind it. -/
theorem spelled_iff {numbits v : Nat} {pattern p : Byte} {tail rest : Bytes} :
    (∃ encoding, Spells wrapped numbits pattern v encoding ∧ p :: tail = encoding ++ rest) ↔
      p.toNat / 2 ^ numbits = pattern.toNat / 2 ^ numbits ∧
      (decodeInteger (p :: tail) numbits).1 ≠ 0 ∧
      (decodeInteger (p :: tail) numbits).2 = v ∧
      (p :: tail).drop (decodeInteger (p :: tail) numbits).1 = rest := by
  constructor
  · rintro ⟨encoding, ⟨whole, ⟨first, head, marked⟩, value⟩, split⟩
    rw [split, whole.decoded]
    cases encoding with
    | nil => exact absurd rfl whole.ne_nil
    | cons byte more =>
      cases head
      obtain ⟨rfl, -⟩ := List.cons.inj split
      exact ⟨marked, by simp, value, List.drop_left⟩
  · rintro ⟨marked, read, value, behind⟩
    rcases decodeInteger_whole (p :: tail) numbits with failed | ⟨encoding, ⟨after, split⟩, whole⟩
    · exact absurd (congrArg Prod.fst failed) read
    · have decoded := whole.decoded after
      rw [split] at decoded
      rw [decoded] at value behind
      rw [← split, List.drop_left] at behind
      refine ⟨encoding, ⟨whole, ⟨p, ?_, marked⟩, value⟩, by rw [← split, behind]⟩
      cases encoding with
      | nil => exact absurd rfl whole.ne_nil
      | cons byte more =>
        obtain ⟨rfl, -⟩ := List.cons.inj split
        rfl

theorem wrapped_of_exact (n : Nat) (e : Bytes) (v : Nat) (whole : WholeInteger n e)
    (reads : exact n e v) : wrapped n e v := by
  obtain ⟨rfl, small, few⟩ := reads
  calc denoted32 n e = (decodeInteger (e ++ []) n).2 := by rw [whole.decoded]
    _ = denoted n e := whole.value [] few small

/-! ## Strings -/

theorem flag_marks : ∀ p : Byte,
    (p &&& 0x80 ≠ 0 ↔ p.toNat / 2 ^ 7 = (0x80 : Byte).toNat / 2 ^ 7) ∧
    (p &&& 0x80 = 0 ↔ p.toNat / 2 ^ 7 = (0x00 : Byte).toNat / 2 ^ 7) := by
  decide +kernel

/-- A string is read off its written forms alone: of the Huffman code there is one for each. -/
theorem readString_iff {bytes text rest : Bytes} :
    readString bytes = some (text, rest) ↔
      ∃ s written, Str.Written wrapped s written ∧ bytes = written ++ rest ∧ s.text = text := by
  constructor
  · intro read
    cases bytes with
    | nil => cases read
    | cons p tail =>
      simp only [readString] at read
      split at read
      · cases read
      · next some =>
        split at read
        · cases read
        · next fits =>
          generalize behind : (p :: tail).drop (decodeInteger (p :: tail) 7).1 = after at *
          generalize length : (decodeInteger (p :: tail) 7).2 = len at *
          have whole : (after.take len).length = len :=
            List.length_take_of_le (Nat.le_of_not_lt fits)
          split at read
          · next huffman =>
            obtain ⟨_, decoded, taken⟩ := Option.map_eq_some_iff.mp read
            cases taken
            have octets := eq_encodeHuffman decoded
            obtain ⟨digits, spells, split⟩ := spelled_iff.mpr
              ⟨(flag_marks p).1.mp huffman, some, length, behind⟩
            refine ⟨.huffman text, digits ++ after.take len, ⟨digits, ?_, ?_⟩, ?_, rfl⟩
            · rwa [Str.octets, ← octets, whole]
            · rw [Str.octets, ← octets]
            · rw [split, List.append_assoc, List.take_append_drop]
          · next raw =>
            cases read
            obtain ⟨digits, spells, split⟩ := spelled_iff.mpr
              ⟨(flag_marks p).2.mp (not_not.mp raw), some, length, behind⟩
            refine ⟨.raw (after.take len), digits ++ after.take len, ⟨digits, ?_, rfl⟩, ?_, rfl⟩
            · rwa [Str.octets, whole]
            · rw [split, List.append_assoc, List.take_append_drop]
  · rintro ⟨s, _, ⟨digits, spells, rfl⟩, rfl, rfl⟩
    cases digits with
    | nil => exact absurd rfl spells.whole.ne_nil
    | cons p more =>
      have split : p :: (more ++ (s.octets ++ rest)) = (p :: more) ++ (s.octets ++ rest) :=
        List.cons_append.symm
      obtain ⟨marked, some, length, behind⟩ := spelled_iff.mp ⟨p :: more, spells, split⟩
      rw [List.append_assoc, List.cons_append, readString]
      simp only [behind, length, some, List.length_append, List.take_left, List.drop_left,
        ↓reduceIte, show ¬ s.octets.length > s.octets.length + rest.length by omega]
      cases s with
      | raw s =>
        rw [if_neg (not_not.mpr ((flag_marks p).2.mpr marked))]
        rfl
      | huffman s =>
        rw [if_pos ((flag_marks p).1.mpr marked), Str.octets, decodeHuffman_encodeHuffman]
        rfl

/-! ## One turn -/

theorem view_surjective (s : State) : ∃ t, view t = s :=
  ⟨⟨_, s.maxSize, s.entries, rfl⟩, rfl⟩

theorem readValue_iff {t t' : Table} {add : Bool} {n bytes rest : Bytes}
    {header : Option Header} :
    readValue t add n bytes = .read t' header rest ↔
      ∃ value written, Str.Written wrapped value written ∧ bytes = written ++ rest ∧
        header = some ⟨n, value.text⟩ ∧ t' = if add then t.add ⟨n, value.text⟩ else t := by
  constructor
  · intro read
    unfold readValue at read
    split at read
    · cases read
    · next text _ found =>
      cases read
      obtain ⟨value, written, spelled, split, rfl⟩ := readString_iff.mp found
      exact ⟨value, written, spelled, split, rfl, rfl⟩
  · rintro ⟨value, written, spelled, split, rfl, rfl⟩
    rw [readValue, readString_iff.mpr ⟨value, written, spelled, split, rfl⟩]

/-- A literal behind its index. -/
theorem readLiteral_iff {t t' : Table} {add : Bool} {index : Nat} {bytes rest : Bytes}
    {header : Option Header} :
    readLiteral t add index bytes = .read t' header rest ↔
      ∃ name value b c n, name.index = index ∧ Name.Written wrapped name b ∧
        Str.Written wrapped value c ∧ bytes = b ++ (c ++ rest) ∧ (view t).nameOf name = some n ∧
        header = some ⟨n, value.text⟩ ∧ t' = if add then t.add ⟨n, value.text⟩ else t := by
  constructor
  · intro read
    unfold readLiteral at read
    split at read
    · split at read
      · cases read
      · next h found =>
        obtain ⟨value, written, spelled, split, header_eq, table⟩ := readValue_iff.mp read
        refine ⟨.indexed index, value, [], written, h.name, rfl, rfl, spelled, split, ?_,
          header_eq, table⟩
        rw [State.nameOf, lookup_view, found, Option.map_some]
    · next zero =>
      split at read
      · cases read
      · next text behind found =>
        obtain ⟨name, first, nameSpelled, split, rfl⟩ := readString_iff.mp found
        obtain ⟨value, second, spelled, rfl, header_eq, table⟩ := readValue_iff.mp read
        exact ⟨.literal name, value, first, second, name.text, by rw [Name.index]; omega,
          nameSpelled, spelled, split, rfl, header_eq, table⟩
  · rintro ⟨name, value, b, c, n, rfl, nameSpelled, spelled, rfl, named, header_eq, table⟩
    have read : readValue t add n (c ++ rest) = .read t' header rest :=
      readValue_iff.mpr ⟨value, c, spelled, rfl, header_eq, table⟩
    cases name with
    | indexed index =>
      simp only [State.nameOf, lookup_view, Option.map_eq_some_iff] at named
      obtain ⟨h, found, rfl⟩ := named
      have positive : index > 0 := by
        cases index with
        | zero => cases found
        | succ k => omega
      cases nameSpelled
      rw [readLiteral, Name.index, if_pos positive, found]
      exact read
    | literal s =>
      cases named
      rw [readLiteral, Name.index, if_neg (by omega),
        readString_iff.mpr ⟨s, b, nameSpelled, rfl, rfl⟩]
      exact read

theorem sizeUpdate_marks : ∀ p : Byte,
    p &&& 0xe0 = 0x20 ↔ p.toNat / 2 ^ 5 = (0x20 : Byte).toNat / 2 ^ 5 := by
  decide +kernel

theorem indexed_marks : ∀ p : Byte,
    p.toNat / 2 ^ 7 = (0x80 : Byte).toNat / 2 ^ 7 → p &&& 0xe0 ≠ 0x20 := by
  decide +kernel

/-- The kind of literal that a first byte announces. -/
def indexingOf (p : Byte) : Indexing :=
  if p &&& 0xc0 = 0x40 then .incremental else if p &&& 0x10 = 0 then .without else .never

theorem indexingOf_marks : ∀ p : Byte, p &&& 0xe0 ≠ 0x20 → p &&& 0x80 = 0 →
    p.toNat / 2 ^ (indexingOf p).prefixBits =
      (indexingOf p).pattern.toNat / 2 ^ (indexingOf p).prefixBits := by
  decide +kernel

theorem literal_marks (i : Indexing) : ∀ p : Byte,
    p.toNat / 2 ^ i.prefixBits = i.pattern.toNat / 2 ^ i.prefixBits →
      p &&& 0xe0 ≠ 0x20 ∧ p &&& 0x80 = 0 ∧ indexingOf p = i := by
  cases i <;> decide +kernel

theorem shouldAdd_eq (p : Byte) :
    decide (p &&& 0xc0 = 0x40) = decide (indexingOf p = .incremental) := by
  simp only [indexingOf]
  split
  · next add => simp [add]
  · next kept => split <;> simp [kept]

theorem view_step_literal {t : Table} {i : Indexing} {name : Name} {value : Str} {n : Bytes}
    (named : (view t).nameOf name = some n) :
    (view t).step (.literal i name value) = some (some ⟨n, value.text⟩,
      view (if decide (i = .incremental) then t.add ⟨n, value.text⟩ else t)) := by
  rw [State.step, named, view_insert]
  rfl

/-- A turn reads the written form of a representation, and does as it means. -/
theorem decodeField_sound {t t' : Table} {p : Byte} {tail rest : Bytes} {header : Option Header}
    (read : decodeField t p tail = .read t' header rest) :
    ∃ r written, Rep.Written wrapped r written ∧ p :: tail = written ++ rest ∧
      (view t).step r = some (header, view t') := by
  unfold decodeField at read
  split at read
  · next update =>
    dsimp only at read
    split at read
    · cases read
    · next some =>
      cases read
      obtain ⟨written, spells, split⟩ := spelled_iff.mpr
        ⟨(sizeUpdate_marks p).mp update, some, rfl, rfl⟩
      exact ⟨.sizeUpdate _, written, spells, split, by rw [State.step, view_setMaxSize]⟩
  · next other =>
    split at read
    · next indexed =>
      dsimp only at read
      split at read
      · cases read
      · next some =>
        split at read
        · cases read
        · split at read
          · cases read
          · next h found =>
            cases read
            obtain ⟨written, spells, split⟩ := spelled_iff.mpr
              ⟨(flag_marks p).1.mp indexed, some, rfl, rfl⟩
            refine ⟨.indexed _, written, spells, split, ?_⟩
            rw [State.step, lookup_view, found]
            rfl
    · next literal =>
      dsimp only at read
      rw [shouldAdd_eq, prefixBits_eq] at read
      split at read
      · cases read
      · next some =>
        obtain ⟨name, value, b, c, n, index, nameSpelled, spelled, behind, named, rfl, rfl⟩ :=
          readLiteral_iff.mp read
        obtain ⟨a, spells, split⟩ := spelled_iff.mpr
          ⟨indexingOf_marks p other (not_not.mp literal), some, index.symm, rfl⟩
        refine ⟨.literal (indexingOf p) name value, a ++ (b ++ c),
          ⟨a, b, c, spells, nameSpelled, spelled, rfl⟩, ?_, view_step_literal named⟩
        rw [split, behind, List.append_assoc, List.append_assoc]

/-- Every written form of a valid representation is read. -/
theorem decodeField_complete {t t' : Table} {r : Rep} {p : Byte} {tail written rest : Bytes}
    {header : Option Header} (spelled : Rep.Written wrapped r written)
    (split : p :: tail = written ++ rest) (step : (view t).step r = some (header, view t')) :
    decodeField t p tail = .read t' header rest := by
  cases r with
  | sizeUpdate maxSize =>
    obtain ⟨marked, some, rfl, rfl⟩ := spelled_iff.mp ⟨written, spelled, split⟩
    rw [State.step, ← view_setMaxSize] at step
    obtain ⟨rfl, table⟩ := Prod.mk.inj (Option.some.inj step)
    rw [← view_injective table]
    simp only [decodeField, (sizeUpdate_marks p).mpr marked, ↓reduceIte, some]
  | indexed index =>
    obtain ⟨marked, some, rfl, rfl⟩ := spelled_iff.mp ⟨written, spelled, split⟩
    rw [State.step, lookup_view] at step
    obtain ⟨h, found, taken⟩ := Option.map_eq_some_iff.mp step
    obtain ⟨rfl, table⟩ := Prod.mk.inj taken
    have positive : (decodeInteger (p :: tail) 7).2 ≠ 0 := by
      intro zero
      rw [zero] at found
      cases found
    have indexed := (flag_marks p).1.mpr marked
    rw [← view_injective table]
    simp only [decodeField, indexed_marks p marked, indexed, some, positive, found, ne_eq,
      not_false_eq_true, ↓reduceIte]
  | literal i name value =>
    obtain ⟨a, b, c, spells, nameSpelled, valueSpelled, rfl⟩ := spelled
    rw [List.append_assoc, List.append_assoc] at split
    obtain ⟨marked, some, index, behind⟩ := spelled_iff.mp ⟨a, spells, split⟩
    obtain ⟨other, literal, rfl⟩ := literal_marks i p marked
    obtain ⟨n, named, -⟩ := Option.map_eq_some_iff.mp step
    rw [view_step_literal named] at step
    obtain ⟨header_eq, table⟩ := Prod.mk.inj (Option.some.inj step)
    have read := readLiteral_iff.mpr ⟨name, value, b, c, n, index.symm, nameSpelled,
      valueSpelled, behind, named, header_eq.symm, (view_injective table).symm⟩
    simp only [decodeField, other, literal, ne_eq, not_true_eq_false, ↓reduceIte]
    rw [shouldAdd_eq, prefixBits_eq, if_neg some]
    exact read

theorem Rep.Written.ne_nil {reads : Reading} {r : Rep} {written : Bytes}
    (spelled : r.Written reads written) : written ≠ [] := by
  cases r with
  | indexed index => exact spelled.whole.ne_nil
  | sizeUpdate maxSize => exact spelled.whole.ne_nil
  | literal i name value =>
    obtain ⟨a, b, c, spells, -, -, rfl⟩ := spelled
    exact List.append_ne_nil_of_left_ne_nil spells.whole.ne_nil _

/-! ## Blocks -/

/-- The representations, and the bytes that each of them is written in. -/
def Spelling (reads : Reading) (reps : List Rep) (block : Bytes) : Prop :=
  ∃ written, List.Forall₂ (Rep.Written reads) reps written ∧ written.flatten = block

theorem accepts_of_spelling {t t' : Table} {reps : List Rep} {block : Bytes} {hs : List Header}
    (spelling : Spelling wrapped reps block) (run : (view t).run reps = some (hs, view t')) :
    decodeLowmem t block = ⟨.accepted, hs, t'⟩ := by
  obtain ⟨written, spelled, rfl⟩ := spelling
  induction spelled generalizing t hs with
  | nil =>
    obtain ⟨rfl, table⟩ := Prod.mk.inj (Option.some.inj run)
    rw [view_injective table]
    rfl
  | @cons r bytes reps written one _ ih =>
    simp only [State.run, Option.bind_eq_some_iff, Option.map_eq_some_iff, Prod.mk.injEq] at run
    obtain ⟨⟨h, s⟩, step, ⟨hs', s'⟩, run', rfl, rfl⟩ := run
    obtain ⟨t₁, rfl⟩ := view_surjective s
    cases bytes with
    | nil => exact absurd rfl one.ne_nil
    | cons p more =>
      have turn : decodeField t p (more ++ written.flatten) = .read t₁ h written.flatten :=
        decodeField_complete one List.cons_append.symm step
      rw [List.flatten_cons, List.cons_append, decodeLowmem_read turn, ih run']

theorem spelling_of_accepts {t t' : Table} {block : Bytes} {hs : List Header}
    (accepted : decodeLowmem t block = ⟨.accepted, hs, t'⟩) :
    ∃ reps, Spelling wrapped reps block ∧ (view t).run reps = some (hs, view t') := by
  generalize size : block.length = n
  induction n using Nat.strongRecOn generalizing t block hs with
  | ind n ih =>
    cases block with
    | nil =>
      cases accepted
      exact ⟨[], ⟨[], .nil, rfl⟩, rfl⟩
    | cons p tail =>
      cases field : decodeField t p tail with
      | failed => simp [decodeLowmem, decodeFields, field] at accepted
      | threw => simp [decodeLowmem, decodeFields, field] at accepted
      | read t₁ header rest =>
        have shorter := decodeField_shorter field
        rw [decodeLowmem_read field] at accepted
        rcases onwards : decodeLowmem t₁ rest with ⟨verdict, hs₁, t₂⟩
        rw [onwards] at accepted
        cases accepted
        obtain ⟨reps, ⟨written, spelled, rfl⟩, run⟩ :=
          ih rest.length (by rw [List.length_cons] at size; omega) onwards rfl
        obtain ⟨r, bytes, one, split, step⟩ := decodeField_sound field
        refine ⟨r :: reps, ⟨bytes :: written, .cons one spelled, split.symm⟩, ?_⟩
        simp only [State.run, step, run, Option.bind_some, Option.map_some]

/-- **The language.** A block is accepted, with these headers and this table, exactly if it is
written in representations of which the interpreter makes them. -/
theorem accepts_iff (t t' : Table) (block : Bytes) (hs : List Header) :
    decodeLowmem t block = ⟨.accepted, hs, t'⟩ ↔
      ∃ reps, Spelling wrapped reps block ∧ (view t).run reps = some (hs, view t') :=
  ⟨spelling_of_accepts, fun ⟨_, spelling, run⟩ => accepts_of_spelling spelling run⟩

/-- In particular, if it is written as section 6 says, in integers of any length up to six
bytes. -/
theorem accepts_exact {t t' : Table} {reps : List Rep} {block : Bytes} {hs : List Header}
    (spelling : Spelling exact reps block) (run : (view t).run reps = some (hs, view t')) :
    decodeLowmem t block = ⟨.accepted, hs, t'⟩ := by
  obtain ⟨written, spelled, rfl⟩ := spelling
  exact accepts_of_spelling
    ⟨written, spelled.imp fun _ _ one => one.mono wrapped_of_exact, rfl⟩ run

/-- An integer of three groups for which one would do. -/
example : decodeLowmem Table.new [0x3f, 0x80, 0x80, 0x00, 0x82] =
    ⟨.accepted, [entry ":method" "GET"], Table.new.setMaxSize 31⟩ := by decide +kernel

end Reference

end Http2Server.Hpack
