import Http2Server.Hpack.Decode
import Http2Server.Settings

/-!
# How large a decoder's table gets

The table starts at 4096 bytes, as the server's settings say, and a size update
takes any 32-bit value.

- `decodeField_table`: what one turn of the decoder's loop does to the table.
- `bounded_iff`: when the table stays within 4096 bytes.
-/

namespace Http2Server.Hpack

open Lib

/-- The header table size of the settings the server sends, which it has not
changed. -/
def advertised : Nat := ({} : Settings).headerTableSize

/-! ## One turn -/

/-- The value of the size update that a turn reads, if it reads one. -/
def sizeUpdate (p : Byte) (tail : Bytes) : Option Nat :=
  if p &&& 0xe0 = 0x20 then some (decodeInteger (p :: tail) 5).2 else none

theorem readLiteral_table {t t' : Table} {shouldAdd : Bool} {index : Nat} {bytes rest : Bytes}
    {header : Option Header} (h : readLiteral t shouldAdd index bytes = .read t' header rest) :
    t' = t ∨ ∃ added, t' = t.add added := by
  have value {name bytes : Bytes} (h : readValue t shouldAdd name bytes = .read t' header rest) :
      t' = t ∨ ∃ added, t' = t.add added := by
    unfold readValue at h
    split at h
    · cases h
    · obtain ⟨rfl, _⟩ := Field.read.inj h
      split
      · exact .inr ⟨_, rfl⟩
      · exact .inl rfl
  unfold readLiteral at h
  split at h
  · split at h
    · cases h
    · exact value h
  · split at h
    · cases h
    · exact value h

/-- **A turn.** A size update sets the limit; any other field adds a header to the
table or leaves it. -/
theorem decodeField_table {t t' : Table} {p : Byte} {tail rest : Bytes} {header : Option Header}
    (h : decodeField t p tail = .read t' header rest) :
    (∃ v, sizeUpdate p tail = some v ∧ t' = t.setMaxSize v) ∨
      sizeUpdate p tail = none ∧ (t' = t ∨ ∃ added, t' = t.add added) := by
  unfold decodeField at h
  unfold sizeUpdate
  split at h
  · next update =>
    dsimp only at h
    split at h
    · cases h
    · obtain ⟨rfl, _⟩ := Field.read.inj h
      exact .inl ⟨_, if_pos update, rfl⟩
  · next other =>
    refine .inr ⟨if_neg other, ?_⟩
    split at h
    · dsimp only at h
      split at h
      · cases h
      · split at h
        · cases h
        · split at h
          · cases h
          · exact .inl (Field.read.inj h).1.symm
    · dsimp only at h
      generalize decodeInteger (p :: tail) _ = r at h
      split at h
      · cases h
      · exact readLiteral_table h

/-! ## One block -/

/-- The tables of a run of `decode_lowmem`: the first, and that of every turn. -/
def tables : Nat → Table → Bytes → List Table
  | _, t, [] => [t]
  | 0, t, _ :: _ => [t]
  | fuel + 1, t, p :: tail =>
    t :: match decodeField t p tail with
      | .read t' _ rest => tables fuel t' rest
      | _ => []

/-- The size updates it comes to, in order. -/
def sizeUpdates : Nat → Table → Bytes → List Nat
  | _, _, [] => []
  | 0, _, _ :: _ => []
  | fuel + 1, t, p :: tail =>
    match decodeField t p tail with
    | .read t' _ rest => (sizeUpdate p tail).toList ++ sizeUpdates fuel t' rest
    | _ => []

theorem evict_size_le (t : Table) : t.evict.size ≤ t.maxSize := by
  rw [t.evict.size_eq, Table.evict_dynamic]
  exact Eviction.total_within_le Header.size t.maxSize t.dynamic

/-- Within the limit that was advertised, and within its own. -/
structure Bounded (t : Table) : Prop where
  maxSize : t.maxSize ≤ advertised
  size : t.size ≤ t.maxSize

theorem bounded_new : Bounded Table.new := ⟨Nat.le_refl _, Nat.zero_le _⟩

/-- A turn that is no larger size update keeps to the limits. -/
theorem decodeField_bounded {t t' : Table} {p : Byte} {tail rest : Bytes} {header : Option Header}
    (bounded : Bounded t) (h : decodeField t p tail = .read t' header rest)
    (small : ∀ v ∈ sizeUpdate p tail, v ≤ advertised) : Bounded t' := by
  obtain ⟨v, update, rfl⟩ | ⟨_, rfl | ⟨added, rfl⟩⟩ := decodeField_table h
  · exact ⟨small v update, evict_size_le _⟩
  · exact bounded
  · exact ⟨bounded.maxSize, evict_size_le _⟩

/-- The table left by a block is one of those it went through. -/
theorem table_mem_tables (fuel : Nat) (t : Table) (block : Bytes) :
    (decodeFields fuel t block).table ∈ tables fuel t block := by
  induction fuel generalizing t block with
  | zero => cases block <;> exact List.mem_singleton_self _
  | succ fuel ih =>
    cases block with
    | nil => exact List.mem_singleton_self _
    | cons p tail =>
      rw [decodeFields, tables]
      cases decodeField t p tail with
      | failed => exact List.mem_singleton_self _
      | threw => exact List.mem_singleton_self _
      | read t' header rest => exact List.mem_cons_of_mem _ (ih t' rest)

/-- **A block.** All of its tables keep to the limits where its size updates do. -/
theorem tables_bounded {fuel : Nat} {t : Table} {block : Bytes} (bounded : Bounded t)
    (small : ∀ v ∈ sizeUpdates fuel t block, v ≤ advertised) :
    ∀ t' ∈ tables fuel t block, Bounded t' := by
  induction fuel generalizing t block with
  | zero => cases block <;> simpa [tables] using bounded
  | succ fuel ih =>
    cases block with
    | nil => simpa [tables] using bounded
    | cons p tail =>
      rw [tables, List.forall_mem_cons]
      refine ⟨bounded, ?_⟩
      rw [sizeUpdates] at small
      cases turn : decodeField t p tail with
      | failed => simp
      | threw => simp
      | read t' header rest =>
        rw [turn] at small
        have next := decodeField_bounded bounded turn fun v hv =>
          small v (List.mem_append_left _ (Option.mem_toList.mpr hv))
        exact ih next fun v hv => small v (List.mem_append_right _ hv)

/-- A size update is in force in one of the tables. -/
theorem sizeUpdates_tables {fuel : Nat} {t : Table} {block : Bytes} :
    ∀ v ∈ sizeUpdates fuel t block, ∃ t' ∈ tables fuel t block, t'.maxSize = v := by
  induction fuel generalizing t block with
  | zero => cases block <;> simp [sizeUpdates]
  | succ fuel ih =>
    cases block with
    | nil => simp [sizeUpdates]
    | cons p tail =>
      rw [sizeUpdates, tables]
      cases turn : decodeField t p tail with
      | failed => simp
      | threw => simp
      | read t' header rest =>
        intro v hv
        obtain own | later := List.mem_append.mp hv
        · have first : t' ∈ tables fuel t' rest := by cases fuel <;> cases rest <;> simp [tables]
          obtain ⟨v', update, rfl⟩ | ⟨none, _⟩ := decodeField_table turn
          · rw [update, Option.toList_some, List.mem_singleton] at own
            exact ⟨_, List.mem_cons_of_mem _ first, own.symm⟩
          · simp [none] at own
        · obtain ⟨t'', within, same⟩ := ih v later
          exact ⟨t'', List.mem_cons_of_mem _ within, same⟩

/-! ## A connection's blocks -/

/-- The runs of one decoder: every block with the table it starts from. -/
def runs : Table → List Bytes → List (Table × Bytes)
  | _, [] => []
  | t, block :: rest => (t, block) :: runs (decodeLowmem t block).table rest

/-- What is promised of a run: the table stays within what was advertised, and a
larger size update fails. -/
structure Promised (run : Table × Bytes) : Prop where
  within : ∀ t ∈ tables run.2.length run.1 run.2, t.maxSize ≤ advertised ∧ t.size ≤ advertised
  refused : (∃ v ∈ sizeUpdates run.2.length run.1 run.2, v > advertised) →
    (decodeLowmem run.1 run.2).verdict ≠ .accepted

/-- No size update of a run is larger than was advertised. -/
def SmallUpdates (run : Table × Bytes) : Prop :=
  ∀ v ∈ sizeUpdates run.2.length run.1 run.2, v ≤ advertised

theorem promised_small {run : Table × Bytes} (h : Promised run) : SmallUpdates run := by
  intro v hv
  obtain ⟨t, member, rfl⟩ := sizeUpdates_tables v hv
  exact (h.within t member).1

theorem small_promised {run : Table × Bytes} (bounded : Bounded run.1) (h : SmallUpdates run) :
    Promised run := by
  constructor
  · intro t member
    have bound := tables_bounded bounded h t member
    exact ⟨bound.maxSize, bound.size.trans bound.maxSize⟩
  · rintro ⟨v, hv, large⟩
    exact absurd (h v hv) (Nat.not_le_of_gt large)

/-- **Bounds.** Over any blocks given to a new decoder, its table stays within
4096 bytes, and larger size updates fail, exactly where there are none. -/
theorem bounded_iff (blocks : List Bytes) :
    (∀ run ∈ runs Table.new blocks, Promised run) ↔
      ∀ run ∈ runs Table.new blocks, SmallUpdates run := by
  constructor
  · exact fun promised run hr => promised_small (promised run hr)
  · have start := bounded_new
    generalize Table.new = t at start ⊢
    induction blocks generalizing t with
    | nil => simp [runs]
    | cons block blocks ih =>
      rw [runs, List.forall_mem_cons, List.forall_mem_cons]
      rintro ⟨first, rest⟩
      have left := tables_bounded start first _ (table_mem_tables block.length t block)
      exact ⟨small_promised start first, ih _ left rest⟩

/-- A size update to 16384, then a header that is stored. -/
def growingBlock : Bytes := [0x3f, 0xe1, 0x7f, 0x41, 0x01, 0x61]

theorem growingBlock_unbounded : ¬ ∀ run ∈ runs Table.new [growingBlock], Promised run := by
  intro promised
  have small := promised_small (promised (Table.new, growingBlock) (by simp [runs]))
  exact absurd (small 16384 (by decide +kernel)) (by decide)

end Http2Server.Hpack
