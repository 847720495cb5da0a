import Http2Server.Hpack.BestMatch
import Http2Server.Hpack.Conformance
import Http2Server.Hpack.Encode

/-!
# What the encoder writes, any decoder reads back

The encoder's five wire forms are representations of the reference syntax
(`encode_serialise`), all of them by static index or written out, so they mean
the same header in every table (`repOf_step`). The decoder's conformance does
the rest.
-/

namespace Http2Server.Hpack

open Reference

/-- At most 30 bits for each byte. -/
theorem length_codeWords_le (s : Bytes) : (codeWords s).length ≤ 30 * s.length := by
  induction s with
  | nil => simp
  | cons b s ih =>
    have := (entry_fits _ (entryOf_mem b)).2
    simp only [codeWords_cons, List.length_append, HuffmanEntry.length_code, List.length_cons]
    omega

theorem length_encodeHuffman_le (s : Bytes) :
    8 * (encodeHuffman s).length ≤ 30 * s.length + 7 := by
  obtain ⟨pad, hpad, text⟩ := unpack_encodeHuffman s
  have := congrArg List.length text
  have := length_codeWords_le s
  simp only [Lib.BitString.length_unpack, List.length_append, List.length_replicate] at *
  omega

namespace Encoder

/-! ## Sizes -/

theorem length_encodeString_le {s : Bytes} (h : s.length < 127) :
    (encodeString s).length ≤ 479 := by
  have coded := length_encodeHuffman_le s
  have count := length_encodeInteger_le 0x80 7 (encodeHuffman s).length
  rw [encodeString, List.length_append]
  omega

theorem length_encode_le {e : Encoder} {h : Header} {field : Bytes}
    (hf : e.encode h = some field) : field.length ≤ 964 := by
  unfold encode at hf
  split at hf
  · cases hf
  split at hf
  · cases hf
  next hn hv =>
  have name := length_encodeString_le (Nat.lt_of_not_le hn)
  have value := length_encodeString_le (Nat.lt_of_not_le hv)
  have count := fun hibits numbits => length_encodeInteger_le hibits numbits (e.table.bestMatch h)
  dsimp only at hf
  split at hf
  · rw [← Option.some.inj hf, List.length_cons, List.length_append]
    omega
  · split at hf
    · cases hf
    · split at hf
      · rw [← Option.some.inj hf]
        exact Nat.le_trans (count 0x80 7) (by omega)
      · rw [← Option.some.inj hf, List.length_append]
        have sensitive := count 0x10 4
        have big := count 0x00 4
        have indexed := count 0x40 6
        split
        · omega
        · split <;> omega

theorem length_encodeAll_le {e : Encoder} {hs : List Header} {block : Bytes}
    (hb : e.encodeAll hs = some block) : block.length ≤ 964 * hs.length := by
  induction hs generalizing block with
  | nil => simp [← Option.some.inj hb]
  | cons h hs ih =>
    obtain ⟨field, enc, tail⟩ := Option.bind_eq_some_iff.mp hb
    obtain ⟨rest, encs, rfl⟩ := Option.map_eq_some_iff.mp tail
    have head := length_encode_le enc
    have := ih encs
    rw [List.length_append, List.length_cons]
    omega

/-! ## Forms -/

def indexingOf (e : Encoder) (h : Header) : Indexing :=
  if e.sensitive.contains h.name then .never
  else if h.size > 256 then .without
  else .incremental

/-- The representation the encoder chooses. -/
def repOf (e : Encoder) (h : Header) : Rep :=
  let index := e.table.bestMatch h
  if index = 0 then .literal (e.indexingOf h) (.literal (.huffman h.name)) (.huffman h.value)
  else if e.table.lookup index = some h then .indexed index
  else .literal (e.indexingOf h) (.indexed index) (.huffman h.value)

theorem literal_pattern (e : Encoder) (h : Header) (index : Nat) :
    encodeInteger (e.indexingOf h).pattern (e.indexingOf h).prefixBits index =
      if e.sensitive.contains h.name then encodeInteger 0x10 4 index
      else if h.size > 256 then encodeInteger 0x00 4 index
      else encodeInteger 0x40 6 index := by
  simp only [indexingOf]
  split
  · rfl
  · split <;> rfl

/-- With index 0 the pattern fills the whole byte. -/
theorem literal_zero (e : Encoder) (h : Header) :
    encodeInteger (e.indexingOf h).pattern (e.indexingOf h).prefixBits 0 =
      [if e.sensitive.contains h.name then 0x10 else if h.size > 256 then 0x00 else 0x40] := by
  simp only [indexingOf]
  split
  · rfl
  · split <;> rfl

theorem encode_serialise (e : Encoder) {h : Header} (short : h.Short) :
    e.encode h = some (e.repOf h).serialise := by
  obtain ⟨hn, hv⟩ := short
  simp only [encode, show ¬ h.name.length ≥ 127 by omega, show ¬ h.value.length ≥ 127 by omega,
    ↓reduceIte, repOf]
  by_cases zero : e.table.bestMatch h = 0
  · simp only [zero, ↓reduceIte, Rep.serialise, literal_zero, decide_eq_true_eq]
    rfl
  · obtain ⟨best, found, _⟩ := (e.table.bestMatch_spec h).found zero
    simp only [zero, ↓reduceIte, found, Option.some.injEq]
    by_cases exact : best = h
    · simp only [exact, ↓reduceIte, Rep.serialise]
    · simp only [exact, ↓reduceIte, Rep.serialise, literal_pattern, decide_eq_true_eq]
      rfl

theorem repOf_fits {e : Encoder} (own : e.Own) {h : Header} (short : h.Short) :
    (e.repOf h).Fits := by
  have name := length_encodeHuffman_le h.name
  have value := length_encodeHuffman_le h.value
  obtain ⟨hn, hv⟩ := short
  simp only [repOf]
  by_cases zero : e.table.bestMatch h = 0
  · simp only [zero, ↓reduceIte, Rep.Fits, Str.octets]
    omega
  · obtain ⟨best, found, _⟩ := (e.table.bestMatch_spec h).found zero
    have small := (Table.lookup_of_empty own.dynamic found (u := e.table)).2
    simp only [zero, ↓reduceIte]
    split <;> simp only [Rep.Fits, Str.octets] <;> omega

/-- A header the decoder does not add to its table: it is sensitive, large, or an
entry of the static table. -/
def Unindexed (e : Encoder) (h : Header) : Prop :=
  h.name ∈ e.sensitive ∨ h.size > 256 ∨ h ∈ staticTable.tail

instance (e : Encoder) : DecidablePred e.Unindexed := fun _ => inferInstanceAs (Decidable (_ ∨ _))

/-- Entries of the static table are found as they are, and nothing else is. -/
theorem lookup_bestMatch {e : Encoder} (own : e.Own) (h : Header) :
    e.table.lookup (e.table.bestMatch h) = some h ↔ h ∈ staticTable.tail := by
  have all : e.table.entries = staticTable.tail := by
    rw [Table.entries, own.dynamic, List.append_nil]
  rw [← all]
  constructor
  · exact fun found => Table.mem_entries_iff.mpr ⟨_, found⟩
  · intro static
    obtain ⟨best, found, rfl⟩ := ((e.table.bestMatch_spec h).full static).1
    exact found

theorem indexingOf_incremental (e : Encoder) (h : Header) :
    e.indexingOf h = .incremental ↔ ¬ (h.name ∈ e.sensitive ∨ h.size > 256) := by
  unfold indexingOf
  by_cases sensitive : h.name ∈ e.sensitive
  · simp [sensitive]
  · by_cases large : h.size > 256 <;> simp [sensitive, large]

theorem step_literal {s : State} {i : Indexing} {name : Reference.Name} {n : Bytes}
    (named : s.nameOf name = some n) (value : Str) :
    s.step (.literal i name value) =
      some (some ⟨n, value.text⟩, if i = .incremental then s.insert ⟨n, value.text⟩ else s) := by
  rw [State.step, named, Option.map_some]
  cases i <;> rfl

/-- **A field.** The representation means the header, whatever table it is read
in, and the table gets it unless it is unindexed. -/
theorem repOf_step {e : Encoder} (own : e.Own) (h : Header) (t : Table) :
    (view t).step (e.repOf h) =
      some (some h, if e.Unindexed h then view t else (view t).insert h) := by
  have static := lookup_bestMatch own h
  have literal {name : Reference.Name} (named : (view t).nameOf name = some h.name)
      (member : h ∉ staticTable.tail) :
      (view t).step (.literal (e.indexingOf h) name (.huffman h.value)) =
        some (some h, if e.Unindexed h then view t else (view t).insert h) := by
    rw [step_literal named]
    by_cases unindexed : e.Unindexed h
    · have other : e.indexingOf h ≠ .incremental := by
        rw [Ne, indexingOf_incremental, not_not]
        rw [Unindexed] at unindexed
        tauto
      rw [if_neg other, if_pos unindexed]
      rfl
    · have added : e.indexingOf h = .incremental := by
        rw [indexingOf_incremental]
        rw [Unindexed] at unindexed
        tauto
      rw [if_pos added, if_neg unindexed]
      rfl
  simp only [repOf]
  by_cases zero : e.table.bestMatch h = 0
  · have member : h ∉ staticTable.tail := by
      rw [← static, zero]
      simp [Table.lookup]
    rw [if_pos zero]
    exact literal rfl member
  · obtain ⟨best, found, named, _⟩ := (e.table.bestMatch_spec h).found zero
    obtain ⟨everywhere, _⟩ := Table.lookup_of_empty own.dynamic found (u := t)
    rw [if_neg zero, found]
    rw [found, Option.some.injEq] at static
    by_cases exact : best = h
    · have unindexed : e.Unindexed h := .inr (.inr (static.mp exact))
      rw [if_pos (congrArg some exact), if_pos unindexed, State.step, lookup_view, everywhere,
        exact, Option.map_some]
    · rw [if_neg (mt Option.some.inj exact)]
      apply literal _ (mt static.mpr exact)
      rw [State.nameOf, lookup_view, everywhere, Option.map_some, named]

theorem encodeAll_serialise (e : Encoder) {hs : List Header} (short : ∀ h ∈ hs, h.Short) :
    e.encodeAll hs = some ((hs.map e.repOf).flatMap Rep.serialise) := by
  induction hs with
  | nil => rfl
  | cons h hs ih =>
    rw [encodeAll, encode_serialise e (short h (by simp)),
      ih fun h hm => short h (by simp [hm])]
    rfl

/-- The table after a header has been read. -/
def insertIndexed (e : Encoder) (s : State) (h : Header) : State :=
  if e.Unindexed h then s else s.insert h

/-- A block is read back, and its indexed headers are in the table, in order. -/
theorem repOf_run {e : Encoder} (own : e.Own) (hs : List Header) (t : Table)
    (short : ∀ h ∈ hs, h.Short) :
    ∃ t', decodeLowmem t ((hs.map e.repOf).flatMap Rep.serialise) = ⟨.accepted, hs, t'⟩ ∧
      view t' = hs.foldl e.insertIndexed (view t) := by
  induction hs generalizing t with
  | nil => exact ⟨t, rfl, rfl⟩
  | cons h hs ih =>
    obtain ⟨p, tail, t', split, turn, after⟩ := decodeField_serialise
      ((hs.map e.repOf).flatMap Rep.serialise) (repOf_fits own (short h (by simp)))
      (repOf_step own h t)
    obtain ⟨t'', block, final⟩ := ih t' fun h hm => short h (by simp [hm])
    refine ⟨t'', ?_, ?_⟩
    · rw [List.map_cons, List.flatMap_cons, split, decodeLowmem_read turn, block]
      rfl
    · rw [final, after]
      rfl

/-- One block: what the encoder writes is accepted and read back. -/
theorem decode_encodeAll {e : Encoder} (own : e.Own) {hs : List Header} (t : Table)
    (short : ∀ h ∈ hs, h.Short) :
    ∃ block t', e.encodeAll hs = some block ∧ decodeLowmem t block = ⟨.accepted, hs, t'⟩ := by
  obtain ⟨t', run, _⟩ := repOf_run own hs t short
  exact ⟨_, t', encodeAll_serialise e short, run⟩

/-- A header that is too long ends the process. -/
theorem short_of_encode {e : Encoder} {h : Header} {field : Bytes}
    (hf : e.encode h = some field) : h.Short := by
  unfold encode at hf
  split at hf
  · cases hf
  · split at hf
    · cases hf
    · next hn hv => exact ⟨Nat.lt_of_not_le hn, Nat.lt_of_not_le hv⟩

theorem short_of_encodeAll {e : Encoder} {hs : List Header} {block : Bytes}
    (hb : e.encodeAll hs = some block) : ∀ h ∈ hs, h.Short := by
  induction hs generalizing block with
  | nil => simp
  | cons h hs ih =>
    obtain ⟨field, enc, tail⟩ := Option.bind_eq_some_iff.mp hb
    obtain ⟨rest, encs, _⟩ := Option.map_eq_some_iff.mp tail
    intro g hg
    rcases List.mem_cons.mp hg with rfl | hg
    · exact short_of_encode enc
    · exact ih encs g hg

/-- The blocks for a sequence of header lists. -/
def encodeBlocks (e : Encoder) : List (List Header) → Option (List Bytes)
  | [] => some []
  | hs :: rest => (e.encodeAll hs).bind fun block => (e.encodeBlocks rest).map (block :: ·)

end Encoder

/-- One decoder's runs on a sequence of blocks. -/
def decodeBlocks (t : Table) : List Bytes → List Decoded
  | [] => []
  | block :: rest =>
    let d := decodeLowmem t block
    d :: decodeBlocks d.table rest

/-- **Round trip.** Every decoder, whatever its table holds, reads back every
sequence of header lists an encoder writes. -/
theorem blocks_round_trip (e : Encoder) (own : e.Own) (t : Table) (lists : List (List Header))
    (short : ∀ hs ∈ lists, ∀ h ∈ hs, h.Short) :
    ∃ blocks, e.encodeBlocks lists = some blocks ∧
      (decodeBlocks t blocks).map (fun d => (d.verdict, d.headers)) =
        lists.map fun hs => (.accepted, hs) := by
  induction lists generalizing t with
  | nil => exact ⟨[], rfl, rfl⟩
  | cons hs lists ih =>
    obtain ⟨block, t', enc, run⟩ := Encoder.decode_encodeAll own t (short hs (by simp))
    obtain ⟨blocks, encs, runs⟩ := ih t' fun hs hm => short hs (by simp [hm])
    refine ⟨block :: blocks, by simp [Encoder.encodeBlocks, enc, encs], ?_⟩
    simp only [decodeBlocks, run, List.map_cons, runs]

theorem blocks_round_trip_cookie :
    ∃ blocks, (Encoder.new.sensitiveHeader (ascii "x-key")).encodeBlocks
        [[entry ":method" "GET", entry "x-key" "s"], [entry "cookie" "", entry "vary" "*"]] =
          some blocks ∧
      (decodeBlocks Table.new blocks).map (fun d => (d.verdict, d.headers)) =
        [(.accepted, [entry ":method" "GET", entry "x-key" "s"]),
          (.accepted, [entry "cookie" "", entry "vary" "*"])] :=
  blocks_round_trip _ (.sensitive _ .new) Table.new _ (by decide +kernel)

end Http2Server.Hpack
