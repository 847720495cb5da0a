import Http2Server.Hpack.Decode

/-!
# Blocks one behind the other

What `decode_lowmem` makes of a field depends on the bytes of that field alone. So the fields
that it reads of a block are a block of their own, and what stands behind them could as well
have come later.

- `decodeField_local`: a field does not depend on what stands behind it.
- `decodeLowmem_append`: two blocks in turn are one.
- `decodeLowmem_read_part`: what is read of a block that fails.
-/

namespace Http2Server.Hpack

/-! ## Parts of a field -/

theorem decodeGroups_local {bytes : Bytes} {pos shift output : Nat}
    (read : (decodeGroups bytes pos shift output).1 ≠ 0) :
    ∃ front rest, bytes = front ++ rest ∧
      (decodeGroups bytes pos shift output).1 = pos + front.length ∧
      ∀ more, decodeGroups (front ++ more) pos shift output =
        decodeGroups bytes pos shift output := by
  induction bytes generalizing pos shift output with
  | nil => exact absurd rfl read
  | cons byte rest ih =>
    rw [decodeGroups] at read ⊢
    by_cases continues : byte &&& 0x80 ≠ 0
    · rw [if_pos continues] at read ⊢
      obtain ⟨front, left, rfl, long, same⟩ := ih read
      refine ⟨byte :: front, left, rfl, ?_, fun more => ?_⟩
      · rw [long, List.length_cons]
        omega
      · rw [List.cons_append, decodeGroups, if_pos continues]
        exact same more
    · rw [if_neg continues]
      refine ⟨[byte], rest, rfl, rfl, fun more => ?_⟩
      rw [List.cons_append, decodeGroups, if_neg continues]

/-- An integer in the prefix `p`, and in what follows it. -/
theorem decodeInteger_local {p : Byte} {tail : Bytes} {numbits : Nat}
    (read : (decodeInteger (p :: tail) numbits).1 ≠ 0) :
    ∃ front, tail = front ++ (p :: tail).drop (decodeInteger (p :: tail) numbits).1 ∧
      ∀ more, decodeInteger (p :: (front ++ more)) numbits = decodeInteger (p :: tail) numbits ∧
        (p :: (front ++ more)).drop (decodeInteger (p :: tail) numbits).1 = more := by
  simp only [decodeInteger] at read ⊢
  split at read
  · next short =>
    simp only [if_pos short]
    exact ⟨[], rfl, fun more => ⟨trivial, rfl⟩⟩
  · next long =>
    simp only [if_neg long]
    obtain ⟨front, rest, rfl, length, same⟩ := decodeGroups_local read
    refine ⟨front, ?_, fun more => ⟨same more, ?_⟩⟩
    · rw [length, Nat.add_comm, List.drop_succ_cons, List.drop_left]
    · rw [length, Nat.add_comm, List.drop_succ_cons, List.drop_left]

theorem readString_local {bytes s rest : Bytes} (read : readString bytes = some (s, rest)) :
    ∃ front, bytes = front ++ rest ∧ ∀ more, readString (front ++ more) = some (s, more) := by
  cases bytes with
  | nil => simp [readString] at read
  | cons p tail =>
    simp only [readString] at read
    split at read
    · cases read
    · next some =>
      obtain ⟨front, split, same⟩ := decodeInteger_local some
      split at read
      · cases read
      · next fits =>
        generalize left : (p :: tail).drop (decodeInteger (p :: tail) 7).1 = rest' at *
        generalize length : (decodeInteger (p :: tail) 7).2 = len at *
        have whole : (rest'.take len).length = len :=
          List.length_take_of_le (Nat.le_of_not_lt fits)
        have front_eq : p :: tail = (p :: front) ++ rest'.take len ++ rest'.drop len := by
          rw [List.append_assoc, List.take_append_drop, List.cons_append, ← split]
        have again (more : Bytes) : readString ((p :: front) ++ rest'.take len ++ more) =
            if p &&& 0x80 ≠ 0 then (decodeHuffman (rest'.take len)).map fun s => (s, more)
            else Option.some (rest'.take len, more) := by
          obtain ⟨integer, behind⟩ := same (rest'.take len ++ more)
          rw [List.append_assoc, List.cons_append, readString]
          simp only [integer, behind, length, some, List.length_append, whole, ↓reduceIte,
            List.take_left' whole, List.drop_left' whole]
          rw [if_neg (by omega)]
        split at read
        · next huffman =>
          obtain ⟨text, decoded, taken⟩ := Option.map_eq_some_iff.mp read
          cases taken
          refine ⟨_, front_eq, fun more => ?_⟩
          rw [again, if_pos huffman, decoded]
          rfl
        · next raw =>
          cases read
          refine ⟨_, front_eq, fun more => ?_⟩
          rw [again, if_neg raw]

theorem readValue_local {t t' : Table} {add : Bool} {name bytes rest : Bytes}
    {header : Option Header} (read : readValue t add name bytes = .read t' header rest) :
    ∃ front, bytes = front ++ rest ∧
      ∀ more, readValue t add name (front ++ more) = .read t' header more := by
  unfold readValue at read
  split at read
  · cases read
  · next value rest' found =>
    cases read
    obtain ⟨front, split, same⟩ := readString_local found
    refine ⟨front, split, fun more => ?_⟩
    rw [readValue, same]

theorem readLiteral_local {t t' : Table} {add : Bool} {index : Nat} {bytes rest : Bytes}
    {header : Option Header} (read : readLiteral t add index bytes = .read t' header rest) :
    ∃ front, bytes = front ++ rest ∧
      ∀ more, readLiteral t add index (front ++ more) = .read t' header more := by
  unfold readLiteral at read ⊢
  split at read
  · next indexed =>
    simp only [if_pos indexed]
    split at read
    · cases read
    · exact readValue_local read
  · next literal =>
    simp only [if_neg literal]
    split at read
    · cases read
    · next name rest' found =>
      obtain ⟨one, rfl, first⟩ := readString_local found
      obtain ⟨two, rfl, second⟩ := readValue_local read
      refine ⟨one ++ two, (List.append_assoc ..).symm, fun more => ?_⟩
      rw [List.append_assoc, first]
      exact second more

/-- **Fields.** A field that can be read is read of its own bytes, whatever is behind them. -/
theorem decodeField_local {t t' : Table} {p : Byte} {tail rest : Bytes} {header : Option Header}
    (read : decodeField t p tail = .read t' header rest) :
    ∃ front, tail = front ++ rest ∧
      ∀ more, decodeField t p (front ++ more) = .read t' header more := by
  unfold decodeField at read ⊢
  split at read
  · next update =>
    simp only [if_pos update]
    dsimp only at read
    split at read
    · cases read
    · next some =>
      obtain ⟨front, split, same⟩ := decodeInteger_local some
      cases read
      refine ⟨front, split, fun more => ?_⟩
      obtain ⟨integer, behind⟩ := same more
      rw [integer, if_neg some, behind]
  · next other =>
    simp only [if_neg other]
    split at read
    · next indexed =>
      simp only [if_pos indexed]
      dsimp only at read
      split at read
      · cases read
      · next some =>
        obtain ⟨front, split, same⟩ := decodeInteger_local some
        split at read
        · cases read
        · next known =>
          split at read
          · cases read
          · next h found =>
            cases read
            refine ⟨front, split, fun more => ?_⟩
            obtain ⟨integer, behind⟩ := same more
            rw [integer, if_neg some, if_neg known, found, behind]
    · next literal =>
      simp only [if_neg literal]
      dsimp only at read
      generalize (if decide (p &&& 0xc0 = 0x40) = true then 6 else 4) = numbits at read ⊢
      split at read
      · cases read
      · next some =>
        obtain ⟨one, split, same⟩ := decodeInteger_local some
        obtain ⟨two, rest_eq, second⟩ := readLiteral_local read
        refine ⟨one ++ two, ?_, fun more => ?_⟩
        · rw [List.append_assoc, ← rest_eq]
          exact split
        · obtain ⟨integer, behind⟩ := same (two ++ more)
          rw [List.append_assoc, integer, if_neg some, behind]
          exact second more

/-! ## Blocks -/

/-- **Two blocks.** Behind a block that is accepted, decoding goes on as from its table. -/
theorem decodeLowmem_append {t : Table} {block : Bytes} (more : Bytes)
    (accepted : (decodeLowmem t block).verdict = .accepted) :
    decodeLowmem t (block ++ more) =
      let r := decodeLowmem (decodeLowmem t block).table more
      { r with headers := (decodeLowmem t block).headers ++ r.headers } := by
  generalize size : block.length = n
  induction n using Nat.strongRecOn generalizing t block with
  | ind n ih =>
    cases block with
    | nil => rfl
    | cons p tail =>
      cases field : decodeField t p tail with
      | failed => simp [decodeLowmem, decodeFields, field] at accepted
      | threw => simp [decodeLowmem, decodeFields, field] at accepted
      | read t' header rest =>
        have shorter := decodeField_shorter field
        obtain ⟨front, rfl, same⟩ := decodeField_local field
        rw [decodeLowmem_read field] at accepted ⊢
        rw [List.cons_append, List.append_assoc, decodeLowmem_read (same (rest ++ more))]
        have onwards := ih rest.length (by rw [List.length_cons] at size; omega) accepted rfl
        rw [onwards]
        simp only [List.append_assoc]

/-- **What is read.** Of every block the first part is accepted, up to the field that fails if
one does: the headers and the table are those of this part. -/
theorem decodeLowmem_read_part (t : Table) (block : Bytes) :
    ∃ part, part <+: block ∧
      decodeLowmem t part =
        ⟨.accepted, (decodeLowmem t block).headers, (decodeLowmem t block).table⟩ ∧
      ((decodeLowmem t block).verdict = .accepted → part = block) := by
  generalize size : block.length = n
  induction n using Nat.strongRecOn generalizing t block with
  | ind n ih =>
    cases block with
    | nil => exact ⟨[], List.prefix_refl [], rfl, fun _ => rfl⟩
    | cons p tail =>
      cases field : decodeField t p tail with
      | failed =>
        have failed : decodeLowmem t (p :: tail) = ⟨.rejected, [], t⟩ := by
          simp [decodeLowmem, decodeFields, field]
        rw [failed]
        exact ⟨[], List.nil_prefix, rfl, Verdict.noConfusion⟩
      | threw =>
        have threw : decodeLowmem t (p :: tail) = ⟨.threw, [], t⟩ := by
          simp [decodeLowmem, decodeFields, field]
        rw [threw]
        exact ⟨[], List.nil_prefix, rfl, Verdict.noConfusion⟩
      | read t' header rest =>
        have shorter := decodeField_shorter field
        obtain ⟨front, rfl, same⟩ := decodeField_local field
        obtain ⟨part, begins, accepted, whole⟩ :=
          ih rest.length (by rw [List.length_cons] at size; omega) t' rest rfl
        rw [decodeLowmem_read field]
        refine ⟨p :: (front ++ part), ?_, ?_, ?_⟩
        · rw [List.prefix_cons_inj, List.prefix_append_right_inj]
          exact begins
        · rw [decodeLowmem_read (same part), accepted]
        · intro all
          rw [whole all]

end Http2Server.Hpack
