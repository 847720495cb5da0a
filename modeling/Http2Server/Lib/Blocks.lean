import Mathlib.Data.List.Infix

/-!
# Cutting a concatenation of blocks

Blocks written one after the other, and the pieces such a text is cut into.

- `cut_cases`: a cut falls between two blocks or inside one.
- `onBoundaries_between`, `onBoundaries_inside`: what the first cut means for
  pieces that are to hold whole blocks.
-/

namespace Lib.Blocks

variable {α β : Type} (enc : β → List α)

/-- Where the first piece of a concatenation ends. -/
inductive Cut (blocks : List β) (first rest : List α) : Prop
  | between (whole more : List β) (split : blocks = whole ++ more)
      (ends : first = whole.flatMap enc) (starts : rest = more.flatMap enc)
  | inside (whole more : List β) (block : β) (part left : List α)
      (split : blocks = whole ++ block :: more) (cut : enc block = part ++ left)
      (some : part ≠ []) (notAll : left ≠ []) (ends : first = whole.flatMap enc ++ part)

theorem cut_cases {blocks : List β} {first rest : List α}
    (h : first ++ rest = blocks.flatMap enc) : Cut enc blocks first rest := by
  induction blocks generalizing first with
  | nil =>
    obtain ⟨rfl, rfl⟩ := List.append_eq_nil_iff.mp h
    exact .between [] [] rfl rfl rfl
  | cons block blocks ih =>
    rw [List.flatMap_cons, List.append_eq_append_iff] at h
    rcases h with ⟨left, whole, rest⟩ | ⟨more, begins, onwards⟩
    · by_cases some : first = []
      · subst some
        rw [List.nil_append] at whole
        exact .between [] (block :: blocks) rfl rfl (by rw [List.flatMap_cons, whole, rest])
      · by_cases notAll : left = []
        · subst notAll
          rw [List.append_nil] at whole
          exact .between [block] blocks rfl (by simp [whole]) (by simpa using rest)
        · exact .inside [] blocks block first left rfl whole some notAll rfl
    · cases ih onwards.symm with
      | between whole others split ends starts =>
        exact .between (block :: whole) others (by rw [split, List.cons_append])
          (by rw [begins, ends, List.flatMap_cons]) starts
      | inside whole others b part left split cut some notAll ends =>
        exact .inside (block :: whole) others b part left (by rw [split, List.cons_append]) cut some
          notAll (by rw [begins, ends, List.flatMap_cons, List.append_assoc])

/-- Every piece holds whole blocks. -/
def OnBoundaries (blocks : List β) (pieces : List (List α)) : Prop :=
  ∃ groups : List (List β), groups.flatten = blocks ∧ groups.map (·.flatMap enc) = pieces

theorem onBoundaries_nil {blocks : List β} : OnBoundaries enc blocks [] ↔ blocks = [] := by
  constructor
  · rintro ⟨groups, rfl, none⟩
    rw [List.map_eq_nil_iff.mp none, List.flatten_nil]
  · rintro rfl
    exact ⟨[], rfl, rfl⟩

variable {enc}

theorem onBoundaries_inside {whole more : List β} {block : β} {part left : List α}
    {pieces : List (List α)} (cut : enc block = part ++ left) (some : part ≠ [])
    (notAll : left ≠ []) :
    ¬ OnBoundaries enc (whole ++ block :: more) ((whole.flatMap enc ++ part) :: pieces) := by
  rintro ⟨groups, split, texts⟩
  obtain ⟨group, groups, rfl, first, _⟩ := List.map_eq_cons_iff.mp texts
  rw [List.flatten_cons] at split
  rcases List.append_eq_append_iff.mp split with ⟨extra, rfl, _⟩ | ⟨extra, rfl, more⟩
  · rw [List.flatMap_append, List.append_assoc, List.self_eq_append_right] at first
    exact some (List.append_eq_nil_iff.mp first).2
  · rw [List.flatMap_append, List.append_cancel_left_eq] at first
    cases extra with
    | nil => exact some first.symm
    | cons b extra =>
      obtain rfl := (List.cons.inj more).1
      rw [List.flatMap_cons, cut, List.append_assoc, List.append_right_eq_self] at first
      exact notAll (List.append_eq_nil_iff.mp first).1

section
variable (solid : ∀ b, enc b ≠ [])
include solid

theorem flatMap_eq_nil {blocks : List β} (h : blocks.flatMap enc = []) : blocks = [] := by
  cases blocks with
  | nil => rfl
  | cons b _ => exact absurd (List.append_eq_nil_iff.mp h).1 (solid b)

/-- A text is that of one number of leading blocks only. -/
theorem whole_unique {group whole rest more : List β} (same : group ++ rest = whole ++ more)
    (h : group.flatMap enc = whole.flatMap enc) : group = whole := by
  rcases List.append_eq_append_iff.mp same with ⟨extra, rfl, _⟩ | ⟨extra, rfl, _⟩
  · rw [List.flatMap_append, List.self_eq_append_right] at h
    rw [flatMap_eq_nil solid h, List.append_nil]
  · rw [List.flatMap_append, List.append_right_eq_self] at h
    rw [flatMap_eq_nil solid h, List.append_nil]

theorem onBoundaries_between {whole more : List β} {pieces : List (List α)} :
    OnBoundaries enc (whole ++ more) (whole.flatMap enc :: pieces) ↔
      OnBoundaries enc more pieces := by
  constructor
  · rintro ⟨groups, split, texts⟩
    obtain ⟨group, groups, rfl, first, rest⟩ := List.map_eq_cons_iff.mp texts
    rw [List.flatten_cons] at split
    obtain rfl := whole_unique solid split first
    exact ⟨groups, List.append_cancel_left split, rest⟩
  · rintro ⟨groups, rfl, rfl⟩
    exact ⟨whole :: groups, rfl, rfl⟩

end

end Lib.Blocks
