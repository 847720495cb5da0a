import Std.Data.TreeMap.Lemmas
import Mathlib.Data.Option.Basic

/-!
# Records looked up by an id of their own

A map whose values carry an id besides their key. `find` is a search through the
values; it is a lookup where no two of them have the same id.
-/

namespace Lib.Registry

variable {κ α ι : Type} {cmp : κ → κ → Ordering} (idOf : α → ι)

/-- No two values have the same id. -/
def Unique (t : Std.TreeMap κ α cmp) : Prop :=
  ∀ (k : κ) (a : α) (k' : κ) (a' : α), t[k]? = some a → t[k']? = some a' →
    idOf a = idOf a' → k = k'

section
variable [DecidableEq ι]

/-- The first entry with the id, in the order of the keys. -/
def find (t : Std.TreeMap κ α cmp) (i : ι) : Option (κ × α) :=
  t.toList.find? fun entry => idOf entry.2 = i

/-- The map without the entry that has the id. -/
def remove (t : Std.TreeMap κ α cmp) (i : ι) : Std.TreeMap κ α cmp :=
  match find idOf t i with
  | none => t
  | some (k, _) => t.erase k

/-- The map with a change to the value that has the id. -/
def assign (t : Std.TreeMap κ α cmp) (i : ι) (f : α → α) : Std.TreeMap κ α cmp :=
  t.map fun _ a => if idOf a = i then f a else a

end

variable {idOf} [Std.TransCmp cmp] {t : Std.TreeMap κ α cmp}

theorem Unique.erase (unique : Unique idOf t) (k : κ) : Unique idOf (t.erase k) := by
  have within (k' : κ) (a : α) (h : (t.erase k)[k']? = some a) : t[k']? = some a := by
    rw [Std.TreeMap.getElem?_erase] at h
    split at h
    · cases h
    · exact h
  intro k₁ a₁ k₂ a₂ h₁ h₂
  exact unique k₁ a₁ k₂ a₂ (within k₁ a₁ h₁) (within k₂ a₂ h₂)

variable [Std.LawfulEqCmp cmp]

/-- A value with a new id. -/
theorem Unique.insert (unique : Unique idOf t) {k : κ} {a : α}
    (fresh : ∀ (k' : κ) (a' : α), t[k']? = some a' → idOf a' ≠ idOf a) :
    Unique idOf (t.insert k a) := by
  intro k₁ a₁ k₂ a₂ h₁ h₂ same
  rw [Std.TreeMap.getElem?_insert] at h₁ h₂
  split at h₁ <;> split at h₂
  · next own own' =>
    rw [← Std.LawfulEqCmp.eq_of_compare own, ← Std.LawfulEqCmp.eq_of_compare own']
  · obtain rfl := Option.some.inj h₁
    exact absurd same.symm (fresh k₂ a₂ h₂)
  · obtain rfl := Option.some.inj h₂
    exact absurd same (fresh k₁ a₁ h₁)
  · exact unique k₁ a₁ k₂ a₂ h₁ h₂ same

variable [DecidableEq ι] {i : ι}

theorem find_some {k : κ} {a : α} (h : find idOf t i = some (k, a)) :
    t[k]? = some a ∧ idOf a = i := by
  refine ⟨Std.TreeMap.mem_toList_iff_getElem?_eq_some.mp (List.mem_of_find?_eq_some h), ?_⟩
  simpa using List.find?_some h

theorem find_none (h : find idOf t i = none) {k : κ} {a : α} (found : t[k]? = some a) :
    idOf a ≠ i := by
  have absent := List.find?_eq_none.mp h _ (Std.TreeMap.mem_toList_iff_getElem?_eq_some.mpr found)
  simpa using absent

/-- The search finds the entry there is. -/
theorem find_eq_some (unique : Unique idOf t) {k : κ} {a : α} (found : t[k]? = some a) :
    find idOf t (idOf a) = some (k, a) := by
  cases search : find idOf t (idOf a) with
  | none => exact absurd rfl (find_none search found)
  | some entry =>
    obtain ⟨k', a'⟩ := entry
    obtain ⟨other, same⟩ := find_some search
    obtain rfl := unique k' a' k a other found same
    rw [found] at other
    rw [Option.some.inj other]

theorem getElem?_remove (unique : Unique idOf t) (k : κ) :
    (remove idOf t i)[k]? = t[k]?.filter (idOf · ≠ i) := by
  have kept (apart : ∀ a, t[k]? = some a → idOf a ≠ i) : t[k]? = t[k]?.filter (idOf · ≠ i) := by
    cases found : t[k]? with
    | none => rfl
    | some a => simp [Option.filter, apart a found]
  unfold remove
  cases search : find idOf t i with
  | none =>
    apply kept
    exact fun a found => find_none search found
  | some entry =>
    obtain ⟨k', a'⟩ := entry
    obtain ⟨other, own⟩ := find_some search
    rw [Std.TreeMap.getElem?_erase]
    split
    · next same =>
      obtain rfl := Std.LawfulEqCmp.eq_of_compare same
      simp [Option.filter, other, own]
    · next different =>
      apply kept
      intro a found same
      apply different
      rw [unique k' a' k a other found (own.trans same.symm)]
      exact Std.ReflCmp.compare_self

theorem getElem?_assign (f : α → α) (k : κ) :
    (assign idOf t i f)[k]? = t[k]?.map fun a => if idOf a = i then f a else a :=
  Std.TreeMap.getElem?_map

omit [Std.LawfulEqCmp cmp] in
theorem Unique.remove (unique : Unique idOf t) (i : ι) :
    Unique idOf (Registry.remove idOf t i) := by
  unfold Registry.remove
  split
  · exact unique
  · exact unique.erase _

theorem Unique.assign (unique : Unique idOf t) {f : α → α} (keeps : ∀ a, idOf (f a) = idOf a) :
    Unique idOf (Registry.assign idOf t i f) := by
  have within (k : κ) (a : α) (h : (Registry.assign idOf t i f)[k]? = some a) :
      ∃ old, t[k]? = some old ∧ idOf a = idOf old := by
    rw [getElem?_assign] at h
    obtain ⟨old, found, rfl⟩ := Option.map_eq_some_iff.mp h
    refine ⟨old, found, ?_⟩
    split
    · exact keeps old
    · rfl
  intro k₁ a₁ k₂ a₂ h₁ h₂ same
  obtain ⟨old₁, found₁, id₁⟩ := within k₁ a₁ h₁
  obtain ⟨old₂, found₂, id₂⟩ := within k₂ a₂ h₂
  exact unique k₁ old₁ k₂ old₂ found₁ found₂ (by rw [← id₁, ← id₂, same])

end Lib.Registry
