import Http2Server.Lib.Eviction

/-!
# Packing in order

Items go into the last bin until one does not fit below the limit; that one opens
the next bin. `pack` is the loop, from any bins it has come to.

- `pack_flatten`: nothing is lost, doubled or moved.
- `pack_total_le`: how full a bin gets.
- `pack_full`, `pack_tail`: the bins that the loop opens hold something.
-/

namespace Lib.Packing

open Eviction

section
variable {α : Type} (size : α → Nat) (limit : Nat)

/-- The bins filled, the last one, what has been used of it, and the items to come. -/
def pack : List (List α) → List α → Nat → List α → List (List α)
  | filled, last, _, [] => filled ++ [last]
  | filled, last, used, a :: rest =>
    if used + size a > limit then pack (filled ++ [last]) [a] (size a) rest
    else pack filled (last ++ [a]) (used + size a) rest

variable {size limit}

theorem pack_flatten (filled : List (List α)) (last : List α) (used : Nat) (items : List α) :
    (pack size limit filled last used items).flatten = filled.flatten ++ last ++ items := by
  induction items generalizing filled last used with
  | nil => simp [pack]
  | cons a rest ih =>
    rw [pack]
    split
    · simp [ih]
    · simp [ih]

/-- A bin is within the limit, or it holds one item that is not. -/
theorem pack_total_le {filled : List (List α)} {last items : List α} {used bound : Nat}
    (count : total size last = used) (below : limit ≤ bound) (each : ∀ a ∈ items, size a ≤ bound)
    (before : ∀ bin ∈ filled ++ [last], total size bin ≤ bound) :
    ∀ bin ∈ pack size limit filled last used items, total size bin ≤ bound := by
  induction items generalizing filled last used with
  | nil => exact before
  | cons a rest ih =>
    rw [List.forall_mem_cons] at each
    have one : total size [a] = size a := by simp
    rw [pack]
    split
    · apply ih one each.2
      intro bin member
      obtain old | new := List.mem_append.mp member
      · exact before bin old
      · rw [List.mem_singleton.mp new, one]
        exact each.1
    · next fits =>
      have sum : total size (last ++ [a]) = used + size a := by rw [total_append, count, one]
      apply ih sum each.2
      intro bin member
      obtain old | new := List.mem_append.mp member
      · exact before bin (List.mem_append_left _ old)
      · rw [List.mem_singleton.mp new, sum]
        omega

/-- What opening a bin and adding to the last one keep, the loop keeps. -/
theorem pack_invariant {P : List (List α) → Prop} (opening : ∀ bins a, P bins → P (bins ++ [[a]]))
    (adding : ∀ filled last a, P (filled ++ [last]) → P (filled ++ [last ++ [a]]))
    {filled : List (List α)} {last : List α} (used : Nat) (items : List α)
    (h : P (filled ++ [last])) : P (pack size limit filled last used items) := by
  induction items generalizing filled last used with
  | nil => exact h
  | cons a rest ih =>
    rw [pack]
    split
    · exact ih _ (opening _ a h)
    · exact ih _ (adding filled last a h)

/-- **Bins.** None is empty if none was. -/
theorem pack_full {filled : List (List α)} {last : List α} (used : Nat) (items : List α)
    (full : [] ∉ filled ++ [last]) : [] ∉ pack size limit filled last used items := by
  apply pack_invariant (P := ([] ∉ ·)) _ _ used items full
  · intro bins a h
    simpa using h
  · intro filled last a h
    simp only [List.mem_append, not_or] at h
    simpa using h.1

/-- The first can stay empty. -/
theorem pack_tail {last : List α} (used : Nat) (items : List α) :
    [] ∉ (pack size limit [] last used items).tail := by
  apply pack_invariant (P := fun bins => [] ∉ bins.tail) _ _ used items (by simp)
  · intro bins a h
    cases bins with
    | nil => simp
    | cons first bins => simpa using h
  · intro filled last a h
    cases filled with
    | nil => simp
    | cons first filled =>
      simp only [List.cons_append, List.tail_cons, List.mem_append, not_or] at h
      simpa using h.1

end

end Lib.Packing
