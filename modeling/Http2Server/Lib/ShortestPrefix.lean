import Std.Data.TreeMap.Lemmas
import Mathlib.Tactic.ByContra

/-!
# The first key that begins another

A search in the order of the keys for one that begins a given list. Lists that
begin the same list stand in the order of their lengths, so what is found first is
the shortest.

- `find_eq_some_iff`: what the search finds.
- `exists_longest`: what it passes over.
-/

namespace Lib.ShortestPrefix

variable {α β : Type}

/-- Two that begin the same list, neither longer than the other, are one. -/
theorem shortest_unique {list u v : List α} (hu : u <+: list) (hv : v <+: list)
    (le : u.length ≤ v.length) (ge : v.length ≤ u.length) : u = v :=
  (List.prefix_of_prefix_length_le hu hv le).eq_of_length (Nat.le_antisymm le ge)

variable [Ord α]

section
variable [Std.ReflOrd α]

theorem compare_append (u rest : List α) : compare u (u ++ rest) ≠ .gt := by
  induction u with
  | nil => cases rest <;> simp
  | cons a u ih => simpa [List.compare_cons_cons] using ih

theorem compare_begins {u v : List α} (h : u <+: v) : compare u v ≠ .gt := by
  obtain ⟨rest, rfl⟩ := h
  exact compare_append u rest

end

/-- The first entry whose key begins the list. -/
def find [BEq α] (t : Std.TreeMap (List α) β) (list : List α) : Option (List α × β) :=
  t.toList.find? fun entry => entry.1.isPrefixOf list

variable [Std.TransOrd α] [Std.LawfulEqOrd α] {t : Std.TreeMap (List α) β}

theorem listed {u : List α} (held : u ∈ t) : ∃ b, (u, b) ∈ t.toList := by
  obtain ⟨b, found⟩ := Option.isSome_iff_exists.mp (Std.TreeMap.isSome_getElem?_iff_mem.mpr held)
  exact ⟨b, Std.TreeMap.mem_toList_iff_getElem?_eq_some.mpr found⟩

/-- Of the keys that begin a list, if there are any, one is the longest. -/
theorem exists_longest {list u : List α} (held : u ∈ t) (begins : u <+: list) :
    ∃ v b, t[v]? = some b ∧ v <+: list ∧ ∀ other ∈ t, other <+: list → other.length ≤ v.length := by
  generalize hn : list.length - u.length = n
  induction n using Nat.strongRecOn generalizing u with
  | ind n ih =>
    by_cases longer : ∃ other ∈ t, other <+: list ∧ u.length < other.length
    · obtain ⟨other, held', begins', longer⟩ := longer
      have within := begins'.length_le
      exact ih _ (by omega) held' begins' rfl
    · obtain ⟨b, listed⟩ := listed held
      refine ⟨u, b, Std.TreeMap.mem_toList_iff_getElem?_eq_some.mp listed, begins, ?_⟩
      intro other held' begins'
      by_contra more
      exact longer ⟨other, held', begins', Nat.lt_of_not_le more⟩

variable [BEq α] [LawfulBEq α]

theorem find_shortest {list : List α} {entry : List α × β} (h : find t list = some entry) :
    t[entry.1]? = some entry.2 ∧ entry.1 <+: list ∧
      ∀ other ∈ t, other <+: list → entry.1.length ≤ other.length := by
  obtain ⟨begins, before, after, order, skipped⟩ := List.find?_eq_some_iff_append.mp h
  rw [List.isPrefixOf_iff_prefix] at begins
  refine ⟨?_, begins, ?_⟩
  · apply Std.TreeMap.mem_toList_iff_getElem?_eq_some.mp
    rw [order]
    simp
  · intro other held also
    by_contra longer
    obtain ⟨b, listed⟩ := listed held
    have sorted := Std.TreeMap.ordered_keys_toList (t := t)
    rw [order] at listed sorted
    rcases List.mem_append.mp listed with early | late
    · have := skipped _ early
      simp [List.isPrefixOf_iff_prefix.mpr also] at this
    · rcases List.mem_cons.mp late with rfl | late
      · exact longer (Nat.le_refl _)
      · have behind : compare entry.1 other = .lt :=
          (List.pairwise_cons.mp (List.pairwise_append.mp sorted).2.1).1 _ late
        have shorter := List.prefix_of_prefix_length_le also begins (Nat.le_of_not_le longer)
        -- what begins another list comes before it
        apply compare_begins shorter
        have ahead : compare other entry.1 = (compare entry.1 other).swap :=
          Std.OrientedCmp.eq_swap
        rw [ahead, behind]
        rfl

theorem find_none {list : List α} (h : find t list = none) : ∀ other ∈ t, ¬ other <+: list := by
  intro other held begins
  obtain ⟨b, listed⟩ := listed held
  apply List.find?_eq_none.mp h _ listed
  exact List.isPrefixOf_iff_prefix.mpr begins

/-- **Search.** The entry that is found is the one with the shortest key. -/
theorem find_eq_some_iff {list u : List α} {b : β} :
    find t list = some (u, b) ↔
      t[u]? = some b ∧ u <+: list ∧ ∀ other ∈ t, other <+: list → u.length ≤ other.length := by
  have held {v : List α} {c : β} (found : t[v]? = some c) : v ∈ t := by
    rw [Std.TreeMap.mem_iff_isSome_getElem?, found]
    rfl
  constructor
  · exact find_shortest
  · rintro ⟨found, begins, shortest⟩
    cases h : find t list with
    | none => exact absurd begins (find_none h u (held found))
    | some entry =>
      obtain ⟨found', begins', shortest'⟩ := find_shortest h
      obtain rfl := shortest_unique begins begins' (shortest _ (held found') begins')
        (shortest' u (held found) begins)
      rw [← Option.some.inj (found'.symm.trans found)]

end Lib.ShortestPrefix
