import Http2Server.Hpack.RoundTrip

/-!
# The tables of an encoder and its decoder

The encoder writes fields that the decoder adds to its table, and adds none to
its own. `in_step_iff` says when the two tables are the same all the same.
-/

namespace Http2Server.Hpack

open Reference

namespace Encoder

/-- A header that is added is small enough to stay. -/
theorem insert_indexed {e : Encoder} {s : State} {h : Header} (limit : s.maxSize = 4096)
    (indexed : ¬ e.Unindexed h) : (s.insert h).entries ≠ [] := by
  have small : h.size ≤ 256 := by
    by_contra large
    exact indexed (.inr (.inl (by omega)))
  rw [State.insert, if_pos (by omega)]
  exact List.cons_ne_nil _ _

theorem insertIndexed_maxSize (e : Encoder) (s : State) (h : Header) :
    (e.insertIndexed s h).maxSize = s.maxSize := by
  unfold insertIndexed State.insert
  split
  · rfl
  · split <;> rfl

theorem foldl_maxSize (e : Encoder) (hs : List Header) (s : State) :
    (hs.foldl e.insertIndexed s).maxSize = s.maxSize := by
  induction hs generalizing s with
  | nil => rfl
  | cons h hs ih => rw [List.foldl_cons, ih, insertIndexed_maxSize]

/-- A table that holds something goes on holding something. -/
theorem foldl_filled {e : Encoder} {hs : List Header} {s : State} (limit : s.maxSize = 4096)
    (filled : s.entries ≠ []) : (hs.foldl e.insertIndexed s).entries ≠ [] := by
  induction hs generalizing s with
  | nil => exact filled
  | cons h hs ih =>
    rw [List.foldl_cons]
    apply ih
    · rw [insertIndexed_maxSize, limit]
    · unfold insertIndexed
      split
      · exact filled
      · next indexed => exact insert_indexed limit indexed

/-- **A block.** An empty table stays empty exactly if no header is added. -/
theorem foldl_empty_iff {e : Encoder} {hs : List Header} {s : State} (limit : s.maxSize = 4096)
    (empty : s.entries = []) :
    (hs.foldl e.insertIndexed s).entries = [] ↔ ∀ h ∈ hs, e.Unindexed h := by
  induction hs generalizing s with
  | nil => exact iff_of_true empty (by simp)
  | cons h hs ih =>
    rw [List.foldl_cons, List.forall_mem_cons]
    by_cases unindexed : e.Unindexed h
    · have same : e.insertIndexed s h = s := if_pos unindexed
      rw [same, ih limit empty]
      exact (and_iff_right unindexed).symm
    · have added : e.insertIndexed s h = s.insert h := if_neg unindexed
      rw [added]
      refine iff_of_false ?_ fun all => unindexed all.1
      apply foldl_filled
      · rw [← added, insertIndexed_maxSize, limit]
      · exact insert_indexed limit unindexed

end Encoder

/-- After every block the decoder's table has the encoder's entries. -/
def InStep (e : Encoder) (blocks : List Bytes) : Prop :=
  ∀ d ∈ decodeBlocks Table.new blocks, d.table.dynamic = e.table.dynamic

theorem empty_iff {e : Encoder} (own : e.Own) {lists : List (List Header)} {blocks : List Bytes}
    (encoded : e.encodeBlocks lists = some blocks) {t : Table} (limit : t.maxSize = 4096)
    (empty : t.dynamic = []) :
    (∀ d ∈ decodeBlocks t blocks, d.table.dynamic = []) ↔
      ∀ hs ∈ lists, ∀ h ∈ hs, e.Unindexed h := by
  induction lists generalizing t blocks with
  | nil =>
    obtain rfl := Option.some.inj encoded
    simp [decodeBlocks]
  | cons hs lists ih =>
    obtain ⟨block, first, rest⟩ := Option.bind_eq_some_iff.mp encoded
    obtain ⟨blocks, later, rfl⟩ := Option.map_eq_some_iff.mp rest
    have short := Encoder.short_of_encodeAll first
    obtain ⟨t', run, after⟩ := Encoder.repOf_run own hs t short
    rw [Encoder.encodeAll_serialise e short] at first
    rw [← Option.some.inj first, decodeBlocks, run, List.forall_mem_cons, List.forall_mem_cons]
    have block : (view t').entries = [] ↔ ∀ h ∈ hs, e.Unindexed h := by
      rw [after]
      exact Encoder.foldl_empty_iff limit empty
    by_cases added : ∀ h ∈ hs, e.Unindexed h
    · have left := block.mpr added
      have size : t'.maxSize = 4096 := by
        rw [show t'.maxSize = (view t').maxSize from rfl, after, Encoder.foldl_maxSize]
        exact limit
      rw [ih later size left]
      exact and_congr_left fun _ => iff_of_true left added
    · refine iff_of_false ?_ fun all => added all.1
      exact fun all => added (block.mp all.1)

/-- **In step.** Over blocks that an encoder writes for a new decoder, the two
tables agree after every block exactly if no header is one that gets indexed. -/
theorem in_step_iff (e : Encoder) (own : e.Own) (lists : List (List Header)) (blocks : List Bytes)
    (encoded : e.encodeBlocks lists = some blocks) :
    InStep e blocks ↔ ∀ hs ∈ lists, ∀ h ∈ hs, e.Unindexed h := by
  rw [InStep, own.dynamic]
  exact empty_iff own encoded rfl rfl

theorem in_step_iff_cookie :
    ∃ blocks, Encoder.new.encodeBlocks [[entry ":method" "GET"], [entry "cookie" "a"]] =
        some blocks ∧
      (InStep Encoder.new blocks ↔
        ∀ hs ∈ [[entry ":method" "GET"], [entry "cookie" "a"]], ∀ h ∈ hs,
          Encoder.new.Unindexed h) := by
  have short :
      (Encoder.new.encodeBlocks [[entry ":method" "GET"], [entry "cookie" "a"]]).isSome := by
    decide +kernel
  obtain ⟨blocks, encoded⟩ := Option.isSome_iff_exists.mp short
  exact ⟨blocks, encoded, in_step_iff .new .new _ blocks encoded⟩

/-- `server: x` is stored by the decoder only. -/
theorem server_out_of_step :
    ∃ blocks, Encoder.new.encodeBlocks [[entry "server" "x"]] = some blocks ∧
      ¬ InStep Encoder.new blocks := by
  have short : (Encoder.new.encodeBlocks [[entry "server" "x"]]).isSome := by decide +kernel
  obtain ⟨blocks, encoded⟩ := Option.isSome_iff_exists.mp short
  refine ⟨blocks, encoded, ?_⟩
  intro inStep
  have unindexed := (empty_iff .new encoded rfl rfl).mp inStep
  have stored : ¬ Encoder.new.Unindexed (entry "server" "x") := by decide +kernel
  exact stored (unindexed _ (List.mem_singleton_self _) _ (List.mem_singleton_self _))

end Http2Server.Hpack
