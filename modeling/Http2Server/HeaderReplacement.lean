import Http2Server.Header
import Http2Server.Lib.Overwrite

/-!
# Replacing a header

`replace` goes on comparing with the header after it has moved from it, and so drops
the later headers with an empty name instead of those with the header's.
`replace_iff` says when that makes no difference.
-/

namespace Http2Server.Headers

open Lib.Overwrite

/-- Once the header has been moved from, headers without a name are erased. -/
theorem replaceLoop_moved (hs : Headers) :
    replaceLoop hs {} true = (others Header.name hs [], {}, true) := by
  induction hs with
  | nil => rfl
  | cons it rest ih =>
    by_cases blank : it.name = []
    · have gone : others Header.name (it :: rest) [] = others Header.name rest [] :=
        List.filter_cons_of_neg (by simp [blank])
      simp only [replaceLoop, blank, ↓reduceIte, ih, gone]
    · have kept : others Header.name (it :: rest) [] = it :: others Header.name rest [] :=
        List.filter_cons_of_pos (by simp [blank])
      simp only [replaceLoop, blank, ↓reduceIte, ih, kept]

/-- Up to the first header of the name the list stays as it is. -/
theorem replace_eq (hs : Headers) (h : Header) :
    hs.replace h =
      before Header.name hs h.name ++ h :: others Header.name (behind Header.name hs h.name) [] := by
  induction hs with
  | nil => rfl
  | cons it rest ih =>
    by_cases same : it.name = h.name
    · rw [before_same rest same, behind_same rest same]
      simp only [replace, replaceLoop, same, ↓reduceIte, Bool.false_eq_true, replaceLoop_moved,
        List.nil_append]
    · rw [before_other rest same, behind_other rest same, List.cons_append, ← ih]
      simp only [replace, replaceLoop, same, ↓reduceIte]
      split
      · rfl
      · rfl

theorem others_iff {hs : Headers} {name : Bytes} :
    others Header.name hs [] = others Header.name hs name ↔
      name = [] ∨ ∀ x ∈ hs, x.name ≠ [] ∧ x.name ≠ name := by
  rw [others_eq_iff]
  by_cases blank : name = []
  · simp [blank]
  · rw [or_iff_right blank]
    apply forall₂_congr
    intro x _
    constructor
    · intro both
      have apart : x.name ≠ [] := fun empty => blank ((both.mp empty).symm.trans empty)
      exact ⟨apart, fun same => apart (both.mpr same)⟩
    · rintro ⟨apart, other⟩
      exact iff_of_false apart other

/-- **Replacing.** The header takes the place of those with its name exactly if its
name is empty, or neither the name nor an empty one comes again after it. -/
theorem replace_iff (hs : Headers) (h : Header) :
    Overwritten Header.name hs h (hs.replace h) ↔
      h.name = [] ∨ ∀ x ∈ behind Header.name hs h.name, x.name ≠ [] ∧ x.name ≠ h.name := by
  rw [overwritten_iff, replace_eq, List.append_cancel_left_eq, List.cons.injEq, others_iff]
  simp only [true_and]

/-- Two headers of the name, where the second is left. -/
def cookies : Headers := [⟨ascii "cookie", ascii "a=1"⟩, ⟨ascii "cookie", ascii "b=2"⟩]

theorem replace_cookies :
    cookies.replace ⟨ascii "cookie", ascii "c=3"⟩ =
        [⟨ascii "cookie", ascii "c=3"⟩, ⟨ascii "cookie", ascii "b=2"⟩] ∧
      ¬ Overwritten Header.name cookies ⟨ascii "cookie", ascii "c=3"⟩
        (cookies.replace ⟨ascii "cookie", ascii "c=3"⟩) := by
  refine ⟨by decide, ?_⟩
  intro overwritten
  exact absurd overwritten.once (by decide)

end Http2Server.Headers
