import Http2Server.Hpack.Table
import Mathlib.Order.Bounds.Defs

/-!
# The index of a header

The static table and the dynamic one are a single list, whose first entry has
index 1. Each pair of scans of `best_match` is one scan of that list.

- `scan_least`: a scan finds the least index there is.
- `bestMatch_spec`, `bestMatchName_spec`: the two overloads.
-/

namespace Http2Server.Hpack

namespace Table

/-- All entries, in the order of their indices. -/
def entries (t : Table) : List Header := staticTable.tail ++ t.dynamic

/-- The indices that `at` accepts, of the entries that satisfy `p`. -/
def indices (t : Table) (p : Header → Prop) : Set Nat := {i | ∃ e, t.lookup i = some e ∧ p e}

theorem lookup_entries (t : Table) (k : Nat) : t.lookup (1 + k) = t.entries[k]? := by
  have static : staticTable.tail.length = 61 := rfl
  rw [lookup, if_neg (by omega), entries]
  split
  · rw [List.getElem?_append_left (by omega), List.getElem?_tail, Nat.add_comm]
  · rw [List.getElem?_append_right (by omega), static]
    congr 1
    omega

theorem lookup_eq_some {t : Table} {i : Nat} {e : Header} (h : t.lookup i = some e) :
    ∃ k, i = 1 + k ∧ t.entries[k]? = some e := by
  have pos : 1 ≤ i := by
    by_contra zero
    rw [lookup, if_pos (by omega)] at h
    cases h
  refine ⟨i - 1, by omega, ?_⟩
  rw [← lookup_entries, Nat.add_sub_cancel' pos, h]

theorem mem_entries_iff {t : Table} {e : Header} : e ∈ t.entries ↔ ∃ i, t.lookup i = some e := by
  rw [List.mem_iff_getElem?]
  constructor
  · rintro ⟨k, at_k⟩
    exact ⟨1 + k, (lookup_entries t k).trans at_k⟩
  · rintro ⟨i, found⟩
    obtain ⟨k, _, at_k⟩ := lookup_eq_some found
    exact ⟨k, at_k⟩

/-! ## Scans -/

theorem scan_entries (t : Table) (p : Header → Bool) :
    (scan p staticTable.tail 1).or (scan p t.dynamic staticTable.length) =
      scan p t.entries 1 := by
  have static : staticTable.tail.length = 61 := rfl
  have shift : (fun i => 1 + (i + 61)) = fun i => 62 + i := by
    funext i
    omega
  rw [scan, scan, scan, entries, List.findIdx?_append, Option.map_or, Option.map_map, static,
    length_staticTable]
  simp only [Function.comp_def, shift]

section
variable {t : Table} {p : Header → Bool} {q : Header → Prop}

/-- **Scans.** What is found is the least index of an entry that satisfies `q`. -/
theorem scan_least (tests : ∀ e, p e = true ↔ q e) {i : Nat}
    (h : scan p t.entries 1 = some i) : IsLeast (t.indices q) i := by
  obtain ⟨k, found, rfl⟩ := Option.map_eq_some_iff.mp h
  obtain ⟨bound, hit, first⟩ := List.findIdx?_eq_some_iff_getElem.mp found
  constructor
  · refine ⟨t.entries[k], ?_, (tests _).mp hit⟩
    rw [lookup_entries, List.getElem?_eq_getElem bound]
  · rintro j ⟨e, at_j, holds⟩
    obtain ⟨m, rfl, at_m⟩ := lookup_eq_some at_j
    apply Nat.add_le_add_left
    apply Nat.le_of_not_gt
    intro before
    obtain ⟨_, rfl⟩ := List.getElem?_eq_some_iff.mp at_m
    exact first m before ((tests _).mpr holds)

theorem scan_none (tests : ∀ e, p e = true ↔ q e) (h : scan p t.entries 1 = none) :
    ∀ e ∈ t.entries, ¬ q e := by
  rw [scan, Option.map_eq_none_iff, List.findIdx?_eq_none_iff] at h
  intro e member holds
  have failed := h e member
  rw [(tests e).mpr holds] at failed
  cases failed

theorem scan_cases (tests : ∀ e, p e = true ↔ q e) :
    (scan p t.entries 1 = none ∧ ∀ e ∈ t.entries, ¬ q e) ∨
      ∃ i, scan p t.entries 1 = some i ∧ IsLeast (t.indices q) i := by
  cases h : scan p t.entries 1 with
  | none => exact .inl ⟨rfl, scan_none tests h⟩
  | some i => exact .inr ⟨i, rfl, scan_least tests h⟩

end

theorem equals_tests (h e : Header) : (h == e) = true ↔ e = h := by
  rw [beq_iff_eq, eq_comm]

theorem name_tests (name : Bytes) (e : Header) : (name == e.name) = true ↔ e.name = name := by
  rw [beq_iff_eq, eq_comm]

theorem bestMatch_scans (t : Table) (h : Header) :
    t.bestMatch h =
      ((scan (h == ·) t.entries 1).or (scan (h.name == ·.name) t.entries 1)).getD 0 := by
  rw [← scan_entries, ← scan_entries, bestMatch, Option.or_assoc]

theorem indices_pos {t : Table} {p : Header → Prop} {i : Nat} (h : i ∈ t.indices p) : i ≠ 0 := by
  obtain ⟨e, found, _⟩ := h
  obtain ⟨k, rfl, _⟩ := lookup_eq_some found
  omega

/-! ## The two overloads -/

/-- What is promised of an index found for a header. -/
structure Best (t : Table) (h : Header) (i : Nat) : Prop where
  zero : i = 0 ↔ ∀ e ∈ t.entries, e.name ≠ h.name
  found : i ≠ 0 → ∃ e, t.lookup i = some e ∧ e.name = h.name ∧ (h ∈ t.entries → e = h)
  full : h ∈ t.entries → IsLeast (t.indices fun e => e = h) i
  name : h ∉ t.entries → i ≠ 0 → IsLeast (t.indices fun e => e.name = h.name) i

theorem best_full {t : Table} {h : Header} {i : Nat}
    (least : IsLeast (t.indices fun e => e = h) i) :
    Best t h i := by
  obtain ⟨e, found, rfl⟩ := least.1
  have member : e ∈ t.entries := mem_entries_iff.mpr ⟨i, found⟩
  constructor
  · exact iff_of_false (indices_pos least.1) fun none => none e member rfl
  · exact fun _ => ⟨e, found, rfl, fun _ => rfl⟩
  · exact fun _ => least
  · exact fun absent => absurd member absent

theorem best_name {t : Table} {h : Header} {i : Nat} (absent : h ∉ t.entries)
    (least : IsLeast (t.indices fun e => e.name = h.name) i) : Best t h i := by
  obtain ⟨e, found, same⟩ := least.1
  constructor
  · refine iff_of_false (indices_pos least.1) fun none => ?_
    exact none e (mem_entries_iff.mpr ⟨i, found⟩) same
  · exact fun _ => ⟨e, found, same, fun member => absurd member absent⟩
  · exact fun member => absurd member absent
  · exact fun _ _ => least

/-- **Headers.** `best_match` of a header. -/
theorem bestMatch_spec (t : Table) (h : Header) : Best t h (t.bestMatch h) := by
  rw [bestMatch_scans]
  obtain ⟨none, other⟩ | ⟨i, found, least⟩ := scan_cases (t := t) (equals_tests h)
  · have absent : h ∉ t.entries := fun member => other h member rfl
    rw [none, Option.none_or]
    obtain ⟨none, other⟩ | ⟨i, found, least⟩ := scan_cases (t := t) (name_tests h.name)
    · rw [none, Option.getD_none]
      exact ⟨iff_of_true rfl other, fun zero => absurd rfl zero,
        fun member => absurd member absent, fun _ zero => absurd rfl zero⟩
    · rw [found, Option.getD_some]
      exact best_name absent least
  · rw [found, Option.some_or, Option.getD_some]
    exact best_full least

/-- **Names.** `best_match` of a name alone. -/
theorem bestMatchName_spec (t : Table) (name : Bytes) :
    (t.bestMatchName name = 0 ∧ ∀ e ∈ t.entries, e.name ≠ name) ∨
      IsLeast (t.indices fun e => e.name = name) (t.bestMatchName name) := by
  rw [bestMatchName, scan_entries]
  apply (scan_cases (name_tests name)).imp
  · rintro ⟨none, other⟩
    exact ⟨by rw [none, Option.getD_none], other⟩
  · rintro ⟨i, found, least⟩
    rwa [found, Option.getD_some]

/-- Both overloads on any table. -/
theorem bestMatch_least (t : Table) :
    (∀ h, Best t h (t.bestMatch h)) ∧ ∀ name,
      (t.bestMatchName name = 0 ∧ ∀ e ∈ t.entries, e.name ≠ name) ∨
        IsLeast (t.indices fun e => e.name = name) (t.bestMatchName name) :=
  ⟨bestMatch_spec t, bestMatchName_spec t⟩

end Table

end Http2Server.Hpack
