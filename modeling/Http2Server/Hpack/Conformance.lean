import Http2Server.Hpack.Reference

/-!
# The decoder follows the reference interpreter

* `decodeField_serialise`: one turn of the loop reads one representation and
  does to the table what the interpreter does;
* `decodeLowmem_serialise`: by induction over the representations, a whole
  block decodes to the interpreter's header list and table;
* `decoder_conforms`: the same, said of the three results of a run.
-/

namespace Http2Server.Hpack.Reference

open Lib

/-- The decoder's table as the interpreter sees it. -/
def view (t : Table) : State := ⟨t.dynamic, t.maxSize⟩

theorem staticTable_tail :
    staticTable.tail = appendixA.map fun e => ⟨ascii e.1, ascii e.2⟩ := by
  decide +kernel

theorem lookup_view (t : Table) (index : Nat) : (view t).lookup index = t.lookup index := by
  cases index with
  | zero => rfl
  | succ i =>
    have static : staticTable[i + 1]? = (appendixA.map fun e =>
        (⟨ascii e.1, ascii e.2⟩ : Header))[i]? := by
      rw [← staticTable_tail, List.getElem?_tail]
    have len : appendixA.length = 61 := rfl
    simp only [State.lookup, Table.lookup, view, Nat.add_one_ne_zero, ↓reduceIte,
      Nat.add_sub_cancel, Nat.lt_one_iff, static, List.getElem?_map]
    by_cases hi : i < 61
    · rw [List.getElem?_eq_getElem (by omega : i < appendixA.length)]
      simp [show i + 1 < 62 by omega]
    · rw [List.getElem?_eq_none (by omega : appendixA.length ≤ i)]
      simp [show ¬ i + 1 < 62 by omega, show i - appendixA.length = i + 1 - 62 by omega]

theorem view_add (t : Table) (h : Header) : view (t.add h) = (view t).insert h := by
  simp only [view, Table.add_dynamic, Table.add_maxSize, State.insert, Eviction.within]
  by_cases fits : h.size ≤ t.maxSize <;> simp [fits]

theorem view_setMaxSize (t : Table) (sz : Nat) : view (t.setMaxSize sz) = (view t).resize sz := by
  simp [view, State.resize]

/-- The byte count is that of the entries, so it tells no more than they do. -/
theorem view_injective {t u : Table} (h : view t = view u) : t = u := by
  obtain ⟨entries, limit⟩ := State.mk.inj h
  obtain ⟨size, maxSize, dynamic, count⟩ := t
  obtain ⟨size', maxSize', dynamic', count'⟩ := u
  dsimp only at entries limit
  subst entries limit count count'
  rfl

/-! ## Bytes -/

/-- Reading an integer just written leaves the bytes after it. -/
theorem read_integer {hibits : Byte} {numbits v : Nat} (rest : Bytes) (hn : numbits ≤ 8)
    (hfree : FreeBelow hibits numbits) (hv : v < 2 ^ 32) :
    ∃ p tail q n, encodeInteger hibits numbits v ++ rest = p :: tail ∧ q < 2 ^ numbits ∧
      p = UInt8.ofNat q ||| hibits ∧ decodeInteger (p :: tail) numbits = (n, v) ∧ n ≠ 0 ∧
      (p :: tail).drop n = rest := by
  obtain ⟨q, more, hq, enc⟩ := head_encodeInteger hibits numbits v
  have split : encodeInteger hibits numbits v ++ rest =
      (UInt8.ofNat q ||| hibits) :: (more ++ rest) := by rw [enc, List.cons_append]
  have read := decodeInteger_encodeInteger rest hn hfree hv
  refine ⟨_, _, q, (encodeInteger hibits numbits v).length, split, hq, rfl, ?_, by simp [enc], ?_⟩
  · rw [← split, read]
  · rw [← split, List.drop_left]

theorem raw_head : ∀ q : Fin 128, (UInt8.ofNat q.val ||| 0x00) &&& 0x80 = 0 := by
  decide

theorem huffman_head : ∀ q : Fin 128, (UInt8.ofNat q.val ||| 0x80) &&& 0x80 ≠ 0 := by
  decide

theorem flag_free (s : Str) : FreeBelow s.flag 7 := by
  cases s with
  | raw => exact (by decide : FreeBelow 0x00 7)
  | huffman => exact (by decide : FreeBelow 0x80 7)

theorem readString_serialise {s : Str} (rest : Bytes) (hs : s.octets.length < 2 ^ 32) :
    readString (s.serialise ++ rest) = some (s.text, rest) := by
  obtain ⟨p, tail, q, n, split, hq, hp, read, hn, left⟩ :=
    read_integer (s.octets ++ rest) (by omega) (flag_free s) hs
  rw [Str.serialise, List.append_assoc, split]
  simp only [readString, read, left, hn, ↓reduceIte, List.length_append, List.take_left,
    List.drop_left, show ¬ s.octets.length > s.octets.length + rest.length by omega]
  rw [hp]
  cases s with
  | raw s =>
    have bit : (UInt8.ofNat q ||| (Str.raw s).flag) &&& 0x80 = 0 := raw_head ⟨q, hq⟩
    rw [if_neg (by simp [bit])]
    rfl
  | huffman s =>
    have bit : (UInt8.ofNat q ||| (Str.huffman s).flag) &&& 0x80 ≠ 0 := huffman_head ⟨q, hq⟩
    rw [if_pos bit, Str.octets, decodeHuffman_encodeHuffman]
    rfl

theorem readValue_serialise {t : Table} {add : Bool} {name : Bytes} {value : Str} (rest : Bytes)
    (hv : value.octets.length < 2 ^ 32) :
    readValue t add name (value.serialise ++ rest) =
      .read (if add then t.add ⟨name, value.text⟩ else t) (some ⟨name, value.text⟩) rest := by
  simp only [readValue, readString_serialise rest hv]

/-! ## The form of the first byte -/

theorem sizeUpdate_head : ∀ q : Fin 32, (UInt8.ofNat q.val ||| 0x20) &&& 0xe0 = 0x20 := by
  decide

theorem indexed_head : ∀ q : Fin 128, (UInt8.ofNat q.val ||| 0x80) &&& 0xe0 ≠ 0x20 ∧
    (UInt8.ofNat q.val ||| 0x80) &&& 0x80 ≠ 0 := by
  decide

theorem pattern_free (i : Indexing) : FreeBelow i.pattern i.prefixBits := by
  cases i <;> decide

theorem literal_head (i : Indexing) : ∀ q : Fin (2 ^ i.prefixBits),
    (UInt8.ofNat q.val ||| i.pattern) &&& 0xe0 ≠ 0x20 ∧
    (UInt8.ofNat q.val ||| i.pattern) &&& 0x80 = 0 ∧
    ((UInt8.ofNat q.val ||| i.pattern) &&& 0xc0 = 0x40 ↔ i = .incremental) := by
  cases i <;> decide

theorem prefixBits_eq (i : Indexing) :
    (if decide (i = .incremental) then 6 else 4) = i.prefixBits := by
  cases i <;> rfl

theorem prefixBits_le (i : Indexing) : i.prefixBits ≤ 8 := by
  cases i <;> decide

/-! ## One representation -/

theorem decodeField_indexed {t : Table} {index : Nat} {h : Header} (rest : Bytes)
    (hi : index < 2 ^ 32) (found : t.lookup index = some h) :
    ∃ p tail, encodeInteger 0x80 7 index ++ rest = p :: tail ∧
      decodeField t p tail = .read t (some h) rest := by
  obtain ⟨p, tail, q, n, split, hq, hp, read, hn, left⟩ :=
    read_integer rest (by omega) (by decide : FreeBelow 0x80 7) hi
  obtain ⟨notUpdate, indexed⟩ := indexed_head ⟨q, hq⟩
  have positive : index ≠ 0 := by
    rintro rfl
    cases found
  refine ⟨p, tail, split, ?_⟩
  rw [← hp] at notUpdate indexed
  simp only [decodeField, notUpdate, indexed, ne_eq, not_false_eq_true, ↓reduceIte, read, hn,
    positive, found, left]

theorem decodeField_sizeUpdate (t : Table) {maxSize : Nat} (rest : Bytes)
    (hm : maxSize < 2 ^ 32) :
    ∃ p tail, encodeInteger 0x20 5 maxSize ++ rest = p :: tail ∧
      decodeField t p tail = .read (t.setMaxSize maxSize) none rest := by
  obtain ⟨p, tail, q, n, split, hq, hp, read, hn, left⟩ :=
    read_integer rest (by omega) (by decide : FreeBelow 0x20 5) hm
  have update := sizeUpdate_head ⟨q, hq⟩
  refine ⟨p, tail, split, ?_⟩
  rw [← hp] at update
  simp only [decodeField, update, ↓reduceIte, read, hn, left]

/-- What the decoder does once it has read the index of a literal. -/
theorem decodeField_literal (t : Table) (i : Indexing) {index : Nat} (rest : Bytes)
    (hi : index < 2 ^ 32) :
    ∃ p tail, encodeInteger i.pattern i.prefixBits index ++ rest = p :: tail ∧
      decodeField t p tail = readLiteral t (decide (i = .incremental)) index rest := by
  obtain ⟨p, tail, q, n, split, hq, hp, read, hn, left⟩ :=
    read_integer rest (prefixBits_le i) (pattern_free i) hi
  obtain ⟨notUpdate, notIndexed, incremental⟩ := literal_head i ⟨q, hq⟩
  refine ⟨p, tail, split, ?_⟩
  rw [← hp] at notUpdate notIndexed incremental
  simp only [decodeField, notUpdate, notIndexed, ne_eq, not_true_eq_false, ↓reduceIte,
    incremental, prefixBits_eq, read, hn, left]

theorem view_insert (t : Table) (i : Indexing) (h : Header) :
    view (if decide (i = .incremental) then t.add h else t) =
      match i with
      | .incremental => (view t).insert h
      | .without => view t
      | .never => view t := by
  cases i <;> simp [view_add]

/-- One turn of the loop reads one representation. -/
theorem decodeField_serialise {t : Table} {r : Rep} {h : Option Header} {s : State}
    (rest : Bytes) (fits : r.Fits) (valid : (view t).step r = some (h, s)) :
    ∃ p tail t', r.serialise ++ rest = p :: tail ∧
      decodeField t p tail = .read t' h rest ∧ view t' = s := by
  cases r with
  | indexed index =>
    simp only [State.step, Option.map_eq_some_iff, Prod.mk.injEq, lookup_view] at valid
    obtain ⟨a, found, rfl, rfl⟩ := valid
    obtain ⟨p, tail, split, turn⟩ := decodeField_indexed rest fits found
    exact ⟨p, tail, t, split, turn, rfl⟩
  | sizeUpdate maxSize =>
    simp only [State.step, Option.some.injEq, Prod.mk.injEq] at valid
    obtain ⟨rfl, rfl⟩ := valid
    obtain ⟨p, tail, split, turn⟩ := decodeField_sizeUpdate t rest fits
    exact ⟨p, tail, _, split, turn, view_setMaxSize t maxSize⟩
  | literal i name value =>
    simp only [State.step, Option.map_eq_some_iff, Prod.mk.injEq] at valid
    obtain ⟨n, named, rfl, rfl⟩ := valid
    suffices turn : ∃ p tail, (Rep.literal i name value).serialise ++ rest = p :: tail ∧
        decodeField t p tail = .read (if decide (i = .incremental) then t.add ⟨n, value.text⟩
          else t) (some ⟨n, value.text⟩) rest by
      obtain ⟨p, tail, split, turn⟩ := turn
      exact ⟨p, tail, _, split, turn, view_insert t i _⟩
    cases name with
    | indexed index =>
      obtain ⟨hi, hv⟩ := fits
      simp only [State.nameOf, lookup_view, Option.map_eq_some_iff] at named
      obtain ⟨a, found, rfl⟩ := named
      obtain ⟨p, tail, split, turn⟩ := decodeField_literal t i (value.serialise ++ rest) hi
      have positive : index > 0 := by
        cases index with
        | zero => cases found
        | succ k => omega
      refine ⟨p, tail, by rw [Rep.serialise, List.append_assoc, split], ?_⟩
      rw [turn, readLiteral, if_pos positive, found]
      exact readValue_serialise rest hv
    | literal str =>
      obtain ⟨hn, hv⟩ := fits
      simp only [State.nameOf, Option.some.injEq] at named
      subst named
      obtain ⟨p, tail, split, turn⟩ := decodeField_literal t i
        (str.serialise ++ (value.serialise ++ rest)) (show 0 < 2 ^ 32 by omega)
      refine ⟨p, tail, by simpa only [Rep.serialise, List.append_assoc] using split, ?_⟩
      rw [turn, readLiteral, if_neg (by omega), readString_serialise _ hn]
      exact readValue_serialise rest hv

/-! ## A whole block -/

theorem decodeLowmem_serialise : ∀ (reps : List Rep) (t : Table) (hs : List Header) (s : State),
    (∀ r ∈ reps, r.Fits) → (view t).run reps = some (hs, s) →
    ∃ t', decodeLowmem t (reps.flatMap Rep.serialise) = ⟨.accepted, hs, t'⟩ ∧ view t' = s := by
  intro reps
  induction reps with
  | nil =>
    intro t hs s _ run
    simp only [State.run, Option.some.injEq, Prod.mk.injEq] at run
    obtain ⟨rfl, rfl⟩ := run
    exact ⟨t, rfl, rfl⟩
  | cons r reps ih =>
    intro t hs s fits run
    simp only [State.run, Option.bind_eq_some_iff, Option.map_eq_some_iff, Prod.mk.injEq] at run
    obtain ⟨⟨h, s'⟩, step, ⟨hs', s''⟩, run', rfl, rfl⟩ := run
    obtain ⟨p, tail, t', split, turn, rfl⟩ :=
      decodeField_serialise (reps.flatMap Rep.serialise) (fits r (by simp)) step
    obtain ⟨t'', block, rfl⟩ := ih t' hs' s'' (fun r hr => fits r (by simp [hr])) run'
    refine ⟨t'', ?_, rfl⟩
    rw [List.flatMap_cons, split, decodeLowmem_read turn, block]

/-- **The decoder conforms.** Any block of valid representations decodes to the
interpreter's headers, in order, and leaves the interpreter's table. -/
theorem decoder_conforms (t : Table) (reps : List Rep) (hs : List Header) (s : State)
    (fits : ∀ r ∈ reps, r.Fits) (valid : (view t).run reps = some (hs, s)) :
    (decodeLowmem t (reps.flatMap Rep.serialise)).verdict = .accepted ∧
    (decodeLowmem t (reps.flatMap Rep.serialise)).headers = hs ∧
    view (decodeLowmem t (reps.flatMap Rep.serialise)).table = s := by
  obtain ⟨t', run, after⟩ := decodeLowmem_serialise reps t hs s fits valid
  rw [run]
  exact ⟨rfl, rfl, after⟩

/-- A block whose second insertion evicts the entry its own name came from. -/
def evictingBlock : List Rep :=
  [.sizeUpdate 70,
   .literal .incremental (.literal (.huffman (ascii "x-a"))) (.raw (ascii "1")),
   .literal .incremental (.indexed 62) (.huffman (ascii "2")),
   .indexed 62,
   .literal .never (.indexed 32) (.raw (ascii "k"))]

theorem evictingBlock_conforms :
    (decodeLowmem Table.new (evictingBlock.flatMap Rep.serialise)).verdict = .accepted ∧
    (decodeLowmem Table.new (evictingBlock.flatMap Rep.serialise)).headers =
      [entry "x-a" "1", entry "x-a" "2", entry "x-a" "2", entry "cookie" "k"] ∧
    view (decodeLowmem Table.new (evictingBlock.flatMap Rep.serialise)).table =
      ⟨[entry "x-a" "2"], 70⟩ :=
  decoder_conforms Table.new evictingBlock _ _ (by decide +kernel) (by decide +kernel)

end Http2Server.Hpack.Reference
