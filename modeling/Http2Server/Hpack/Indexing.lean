import Http2Server.Hpack.Lookups
import Http2Server.Hpack.RoundTrip

/-!
# The headers a peer stores

An encoder's form decides what the decoder at the other end adds to its table.
Headers with sensitive names, large headers and headers of the static table are
sent in forms that add nothing.

- `repOf_turn`: the table at every turn of the decoder's loop.
- `encodeAll_stored`: the table after a block.
-/

namespace Http2Server.Hpack

open Lib Reference

namespace Table

theorem add_mem {t : Table} {h g : Header} (member : g ∈ (t.add h).dynamic) :
    g = h ∨ g ∈ t.dynamic := by
  rw [add_dynamic] at member
  exact List.mem_cons.mp ((Eviction.within_front _ _ _).subset member)

theorem foldl_add_mem {hs : List Header} {t : Table} {g : Header}
    (member : g ∈ (hs.foldl add t).dynamic) : g ∈ hs ∨ g ∈ t.dynamic := by
  induction hs generalizing t with
  | nil => exact .inr member
  | cons h hs ih =>
    obtain later | old := ih member
    · exact .inl (List.mem_cons_of_mem h later)
    · apply (add_mem old).imp_left
      rintro rfl
      exact List.mem_cons_self

end Table

namespace Encoder

/-- The headers that are neither sensitive nor large nor in the static table. -/
def indexed (e : Encoder) (hs : List Header) : List Header :=
  hs.filter fun h => ¬ e.Unindexed h

theorem mem_indexed {e : Encoder} {hs : List Header} {h : Header} (member : h ∈ e.indexed hs) :
    h ∈ hs ∧ h.name ∉ e.sensitive := by
  obtain ⟨sent, unindexed⟩ := List.mem_filter.mp member
  refine ⟨sent, fun sensitive => ?_⟩
  exact of_decide_eq_true unindexed (.inl sensitive)

theorem indexed_cons (e : Encoder) (h : Header) (hs : List Header) (t : Table) :
    (e.indexed (h :: hs)).foldl Table.add t =
      (e.indexed hs).foldl Table.add (if e.Unindexed h then t else t.add h) := by
  by_cases unindexed : e.Unindexed h
  · simp only [indexed, List.filter_cons, unindexed, not_true_eq_false, decide_false,
      Bool.false_eq_true, ↓reduceIte]
  · simp only [indexed, List.filter_cons, unindexed, not_false_eq_true, decide_true, ↓reduceIte,
      List.foldl_cons]

theorem view_indexed (e : Encoder) (h : Header) (t : Table) :
    (if e.Unindexed h then view t else (view t).insert h) =
      view (if e.Unindexed h then t else t.add h) := by
  split
  · rfl
  · exact (view_add t h).symm

theorem foldl_insertIndexed (e : Encoder) (hs : List Header) (t : Table) :
    hs.foldl e.insertIndexed (view t) = view ((e.indexed hs).foldl Table.add t) := by
  induction hs generalizing t with
  | nil => rfl
  | cons h hs ih =>
    rw [List.foldl_cons, insertIndexed, view_indexed, ih, indexed_cons]

/-- **A turn.** At every turn the decoder has read some of the headers, and its
table has got those of them that are indexed. -/
theorem repOf_turn {e : Encoder} (own : e.Own) {hs : List Header} {t t' : Table} {left : Bytes}
    (short : ∀ h ∈ hs, h.Short)
    (turn : Turn t ((hs.map e.repOf).flatMap Rep.serialise) t' left) :
    ∃ read, read <+: hs ∧ t' = (e.indexed read).foldl Table.add t := by
  induction hs generalizing t with
  | nil =>
    cases turn
    exact ⟨[], List.nil_prefix, rfl⟩
  | cons h hs ih =>
    obtain ⟨p, tail, t₁, split, first, after⟩ := decodeField_serialise
      ((hs.map e.repOf).flatMap Rep.serialise) (repOf_fits own (short h (by simp)))
      (repOf_step own h t)
    rw [List.map_cons, List.flatMap_cons, split] at turn
    cases turn with
    | here => exact ⟨[], List.nil_prefix, rfl⟩
    | next read later =>
      cases first.symm.trans read
      obtain ⟨done, front, rfl⟩ := ih (fun g hg => short g (List.mem_cons_of_mem h hg)) later
      refine ⟨h :: done, (List.prefix_cons_inj h).mpr front, ?_⟩
      rw [view_indexed] at after
      rw [indexed_cons, view_injective after]

/-- **Storing.** A block leaves the table as adding the indexed headers does, and
no header with a sensitive name is in it at any turn that was not before. -/
theorem encodeAll_stored {e : Encoder} (own : e.Own) (t : Table) {hs : List Header}
    (short : ∀ h ∈ hs, h.Short) :
    ∃ block, e.encodeAll hs = some block ∧
      (decodeLowmem t block).verdict = .accepted ∧
      (decodeLowmem t block).table = (e.indexed hs).foldl Table.add t ∧
      ∀ t' left, Turn t block t' left →
        ∀ h ∈ t'.dynamic, h ∈ t.dynamic ∨ h ∈ hs ∧ h.name ∉ e.sensitive := by
  obtain ⟨after, run, contents⟩ := repOf_run own hs t short
  refine ⟨_, encodeAll_serialise e short, ?_, ?_, ?_⟩
  · rw [run]
  · rw [run]
    rw [foldl_insertIndexed] at contents
    exact view_injective contents
  · intro t' left turn h member
    obtain ⟨read, front, rfl⟩ := repOf_turn own short turn
    obtain added | old := Table.foldl_add_mem member
    · obtain ⟨sent, plain⟩ := mem_indexed added
      exact .inr ⟨front.subset sent, plain⟩
    · exact .inl old

/-- A cookie and a custom header. -/
theorem encodeAll_stored_cookie :
    ∃ block, Encoder.new.encodeAll [entry "cookie" "id", entry "x-key" "s"] = some block ∧
      (decodeLowmem Table.new block).verdict = .accepted ∧
      (decodeLowmem Table.new block).table = Table.new.add (entry "x-key" "s") := by
  have short : ∀ h ∈ [entry "cookie" "id", entry "x-key" "s"], h.Short := by decide +kernel
  obtain ⟨block, encoded, accepted, table, _⟩ := encodeAll_stored Own.new Table.new short
  have indexed : Encoder.new.indexed [entry "cookie" "id", entry "x-key" "s"] =
      [entry "x-key" "s"] := by decide +kernel
  rw [indexed] at table
  exact ⟨block, encoded, accepted, table⟩

end Encoder

end Http2Server.Hpack
