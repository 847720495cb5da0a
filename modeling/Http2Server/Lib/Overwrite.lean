import Mathlib.Data.List.Basic

/-!
# One item in place of all with its key

`Overwritten` says what it means that an item takes the place of the items with
its key: it alone has the key, it stands where the first of them stood, and the
rest is as it was. `overwritten_iff`: only one list is that.
-/

namespace Lib.Overwrite

variable {α κ : Type} [DecidableEq κ] (key : α → κ)

/-- Where the first item with the key stands; the end of the list if there is none. -/
def place (list : List α) (k : κ) : Nat := list.findIdx fun a => key a = k

def before (list : List α) (k : κ) : List α := list.take (place key list k)

def behind (list : List α) (k : κ) : List α := list.drop (place key list k + 1)

/-- The items with other keys. -/
def others (list : List α) (k : κ) : List α := list.filter fun a => key a ≠ k

structure Overwritten (list : List α) (a : α) (result : List α) : Prop where
  once : result.countP (fun b => key b = key a) = 1
  there : result[place key list (key a)]? = some a
  rest : others key result (key a) = others key list (key a)

section
variable {key} {k : κ} {a : α} (list : List α)

theorem place_same (h : key a = k) : place key (a :: list) k = 0 := by
  simp [place, List.findIdx_cons, h]

theorem place_other (h : key a ≠ k) : place key (a :: list) k = place key list k + 1 := by
  simp [place, List.findIdx_cons, h]

theorem before_same (h : key a = k) : before key (a :: list) k = [] := by
  rw [before, place_same list h, List.take_zero]

theorem behind_same (h : key a = k) : behind key (a :: list) k = list := by
  rw [behind, place_same list h, List.drop_succ_cons, List.drop_zero]

theorem before_other (h : key a ≠ k) : before key (a :: list) k = a :: before key list k := by
  rw [before, place_other list h, List.take_succ_cons, before]

theorem behind_other (h : key a ≠ k) : behind key (a :: list) k = behind key list k := by
  rw [behind, place_other list h, List.drop_succ_cons, behind]

end

section
variable {key} {list : List α} {k : κ}

theorem length_before : (before key list k).length = place key list k := by
  rw [before, List.length_take]
  exact Nat.min_eq_left List.findIdx_le_length

theorem before_others : ∀ b ∈ before key list k, key b ≠ k := by
  induction list with
  | nil => simp [before]
  | cons a list ih =>
    by_cases same : key a = k
    · simp [before_same list same]
    · rw [before_other list same, List.forall_mem_cons]
      exact ⟨same, ih⟩

theorem others_eq_self (h : ∀ b ∈ list, key b ≠ k) : others key list k = list :=
  List.filter_eq_self.mpr fun b hb => decide_eq_true (h b hb)

theorem others_append (one two : List α) :
    others key (one ++ two) k = others key one k ++ others key two k := List.filter_append _ _

/-- Without the items of one key or of another the same is left. -/
theorem others_eq_iff {j : κ} :
    others key list j = others key list k ↔ ∀ b ∈ list, key b = j ↔ key b = k := by
  constructor
  · intro same b hb
    have kept : b ∈ others key list j ↔ b ∈ others key list k := by rw [same]
    simpa [others, hb, not_iff_not] using kept
  · intro same
    apply List.filter_congr
    intro b hb
    simp only [ne_eq, same b hb]

/-- All before the first with the key are others. -/
theorem others_split (list : List α) :
    others key list k = before key list k ++ others key (behind key list k) k := by
  induction list with
  | nil => rfl
  | cons a list ih =>
    by_cases same : key a = k
    · rw [before_same list same, behind_same list same, List.nil_append, others,
        List.filter_cons_of_neg (by simp [same]), others]
    · rw [before_other list same, behind_other list same, List.cons_append, ← ih, others,
        List.filter_cons_of_pos (by simp [same]), others]

/-- An item that alone has its key. -/
theorem alone_iff {a : α} {one two : List α} :
    (one ++ a :: two).countP (fun b => key b = key a) = 1 ↔
      (∀ b ∈ one, key b ≠ key a) ∧ ∀ b ∈ two, key b ≠ key a := by
  have none (list : List α) :
      list.countP (fun b => key b = key a) = 0 ↔ ∀ b ∈ list, key b ≠ key a := by
    simp only [List.countP_eq_zero, decide_eq_true_eq, ne_eq]
  rw [List.countP_append, List.countP_cons_of_pos (by simp), ← none, ← none]
  omega

end

/-- **Overwriting.** The three properties leave one list. -/
theorem overwritten_iff {list result : List α} {a : α} :
    Overwritten key list a result ↔
      result = before key list (key a) ++ a :: others key (behind key list (key a)) (key a) := by
  have self : others key [a] (key a) = [] := List.filter_eq_nil_iff.mpr (by simp)
  constructor
  · rintro ⟨once, there, rest⟩
    obtain ⟨inside, stands⟩ := List.getElem?_eq_some_iff.mp there
    have split : result.take (place key list (key a)) ++
        a :: result.drop (place key list (key a) + 1) = result := by
      have next := List.drop_eq_getElem_cons inside
      rw [stands] at next
      rw [← next, List.take_append_drop]
    have long : (result.take (place key list (key a))).length = (before key list (key a)).length := by
      rw [List.length_take_of_le (Nat.le_of_lt inside), length_before]
    generalize result.take (place key list (key a)) = one at split long
    generalize result.drop (place key list (key a) + 1) = two at split
    rw [← split, alone_iff] at once
    rw [← split, List.append_cons, others_append, others_append, self, List.append_nil,
      others_eq_self once.1, others_eq_self once.2, others_split list] at rest
    obtain ⟨front, back⟩ := List.append_inj rest long
    rw [← split, front, back]
  · rintro rfl
    refine ⟨?_, ?_, ?_⟩
    · rw [alone_iff]
      refine ⟨before_others, ?_⟩
      intro b hb
      exact of_decide_eq_true (List.mem_filter.mp hb).2
    · rw [List.getElem?_append_right (Nat.le_of_eq length_before), length_before, Nat.sub_self]
      rfl
    · rw [others_split list, List.append_cons, others_append, others_append, self,
        others_eq_self before_others, List.append_nil, others, others, List.filter_filter]
      simp

end Lib.Overwrite
