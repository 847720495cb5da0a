import Mathlib.Data.List.Infix

/-!
# Queues bounded by total weight

Entries stand newest first. `within` is the longest prefix whose total weight
fits a budget; `evict` is the loop that drops the oldest entry while a running
total is over the limit. `evict_eq` shows that the loop computes `within`, and
`safe_total` that it takes nothing from an empty queue.
-/

namespace Lib.Eviction

section
variable {α : Type} (weight : α → Nat)

def total : List α → Nat
  | [] => 0
  | a :: rest => weight a + total rest

@[simp] theorem total_nil : total weight [] = 0 := rfl

@[simp] theorem total_cons (a : α) (rest : List α) :
    total weight (a :: rest) = weight a + total weight rest := by rw [total]

@[simp] theorem total_append (x y : List α) :
    total weight (x ++ y) = total weight x + total weight y := by
  induction x with
  | nil => simp
  | cons a x ih => rw [List.cons_append, total_cons, ih, total_cons, Nat.add_assoc]

@[simp] theorem total_reverse (entries : List α) :
    total weight entries.reverse = total weight entries := by
  induction entries with
  | nil => rfl
  | cons a rest ih =>
    rw [List.reverse_cons, total_append, ih, total_cons, total_cons, total_nil]
    omega

/-- The longest prefix whose total weight fits the budget. -/
def within : Nat → List α → List α
  | _, [] => []
  | budget, a :: rest =>
    if weight a ≤ budget then a :: within (budget - weight a) rest else []

theorem within_of_total_le {budget : Nat} {entries : List α}
    (h : total weight entries ≤ budget) : within weight budget entries = entries := by
  induction entries generalizing budget with
  | nil => rfl
  | cons a rest ih =>
    simp only [total_cons] at h
    simp only [within, show weight a ≤ budget by omega, ↓reduceIte, List.cons.injEq, true_and]
    exact ih (by omega)

theorem total_within_le (budget : Nat) (entries : List α) :
    total weight (within weight budget entries) ≤ budget := by
  induction entries generalizing budget with
  | nil => exact Nat.zero_le _
  | cons a rest ih =>
    rw [within]
    split
    · have tail := ih (budget - weight a)
      rw [total_cons]
      omega
    · exact Nat.zero_le _

/-- The oldest entry of a queue over budget does not survive. -/
theorem within_concat {budget : Nat} {entries : List α} {a : α}
    (h : budget < total weight (entries ++ [a])) :
    within weight budget (entries ++ [a]) = within weight budget entries := by
  induction entries generalizing budget with
  | nil =>
    simp only [List.nil_append, total_cons, total_nil] at h
    simp [within, show ¬ weight a ≤ budget by omega]
  | cons b rest ih =>
    simp only [List.cons_append, total_cons] at h
    simp only [List.cons_append, within]
    split
    · rw [ih (by omega)]
    · rfl

/-- `while (size > limit) { size -= back; pop back; }` over the queue with its
oldest entry first. A running total that is right is never over the limit once
the queue is empty, so the first case is not reached with more to remove. -/
def evict (limit : Nat) : Nat → List α → Nat × List α
  | size, [] => (size, [])
  | size, a :: rest =>
    if size > limit then evict limit (size - weight a) rest else (size, a :: rest)

theorem evict_reverse (limit : Nat) (oldest : List α) :
    evict weight limit (total weight oldest) oldest =
      (total weight (within weight limit oldest.reverse),
        (within weight limit oldest.reverse).reverse) := by
  induction oldest with
  | nil => simp [evict, within]
  | cons a rest ih =>
    simp only [evict, total_cons, List.reverse_cons]
    split
    · next large =>
      rw [Nat.add_sub_cancel_left, ih, within_concat]
      simp only [total_append, total_reverse, total_cons, total_nil]
      omega
    · next fits =>
      rw [within_of_total_le]
      · simp only [total_append, total_reverse, total_cons, total_nil, List.reverse_append,
          List.reverse_reverse, List.reverse_cons, List.reverse_nil, List.nil_append,
          List.cons_append, Prod.mk.injEq, and_true]
        omega
      · simp only [total_append, total_reverse, total_cons, total_nil]
        omega

/-- Run with the right total, the loop leaves the longest prefix that fits. -/
theorem evict_eq (limit : Nat) (entries : List α) :
    evict weight limit (total weight entries) entries.reverse =
      (total weight (within weight limit entries), (within weight limit entries).reverse) := by
  have h := evict_reverse weight limit entries.reverse
  rwa [total_reverse, List.reverse_reverse] at h

/-- No turn of the loop takes from an empty queue, or more than the running total. -/
def Safe (limit : Nat) : Nat → List α → Prop
  | size, [] => size ≤ limit
  | size, a :: rest => size > limit → weight a ≤ size ∧ Safe limit (size - weight a) rest

/-- Run with the right total, the loop is safe. -/
theorem safe_total (limit : Nat) (oldest : List α) :
    Safe weight limit (total weight oldest) oldest := by
  induction oldest with
  | nil => exact Nat.zero_le _
  | cons a rest ih =>
    intro _
    rw [total_cons]
    refine ⟨Nat.le_add_right _ _, ?_⟩
    rwa [Nat.add_sub_cancel_left]

/-- `kept` is the longest prefix of `entries` whose total weight fits the budget. -/
structure Longest (budget : Nat) (entries kept : List α) : Prop where
  front : kept <+: entries
  fits : total weight kept ≤ budget
  longest : ∀ other, other <+: entries → total weight other ≤ budget → other <+: kept

theorem within_front (budget : Nat) (entries : List α) :
    within weight budget entries <+: entries := by
  induction entries generalizing budget with
  | nil => exact List.prefix_refl _
  | cons a rest ih =>
    rw [within]
    split
    · exact (List.prefix_cons_inj a).mpr (ih _)
    · exact List.nil_prefix

theorem front_within {budget : Nat} {entries other : List α} (front : other <+: entries)
    (fits : total weight other ≤ budget) : other <+: within weight budget entries := by
  induction entries generalizing budget other with
  | nil => exact front
  | cons a rest ih =>
    cases other with
    | nil => exact List.nil_prefix
    | cons b other =>
      obtain ⟨rfl, inner⟩ := List.cons_prefix_cons.mp front
      rw [total_cons] at fits
      rw [within, if_pos (by omega)]
      exact (List.prefix_cons_inj b).mpr (ih inner (by omega))

/-- **Eviction.** What is left is the longest prefix that fits. -/
theorem longest_within (budget : Nat) (entries : List α) :
    Longest weight budget entries (within weight budget entries) :=
  ⟨within_front weight budget entries, total_within_le weight budget entries,
    fun _ front fits => front_within weight front fits⟩

end

end Lib.Eviction
