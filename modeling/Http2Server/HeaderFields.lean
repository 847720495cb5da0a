import Http2Server.HeaderReplacement
import Mathlib.Data.List.Induction
import Mathlib.Logic.Function.Basic

/-!
# The values under each name

A header list holds a list of values for each name. `run_fields`: what any calls of `add`,
`replace` and `remove` make of them, and what `first`, `last` and `every` then find.
-/

namespace Http2Server

inductive HeaderCall where
  | add (h : Header)
  | replace (h : Header)
  | remove (name : Bytes)
  deriving DecidableEq, Repr

/-- The headers that are put in have a name. -/
def HeaderCall.Named : HeaderCall → Prop
  | add h => h.name ≠ []
  | replace h => h.name ≠ []
  | remove _ => True

/-! ## What the calls are about -/

/-- The values of a header list by their names. -/
abbrev Fields := Bytes → List Bytes

/-- A replaced header takes the place of one other and no more. -/
def Fields.call (fields : Fields) : HeaderCall → Fields
  | .add h => Function.update fields h.name (fields h.name ++ [h.value])
  | .replace h => Function.update fields h.name (h.value :: (fields h.name).tail)
  | .remove name => Function.update fields name []

def Fields.run (calls : List HeaderCall) : Fields := calls.foldl call fun _ => []

namespace Headers

def call (hs : Headers) : HeaderCall → Headers
  | .add h => hs.add h.name h.value
  | .replace h => hs.replace h
  | .remove name => hs.remove name

def run (calls : List HeaderCall) : Headers := calls.foldl call []

/-- Every header has a name. -/
def AllNamed (hs : Headers) : Prop := ∀ x ∈ hs, x.name ≠ []

/-! ## Reading -/

theorem first_every (hs : Headers) (name : Bytes) : hs.first name = (hs.every name).head? := by
  induction hs with
  | nil => rfl
  | cons h rest ih =>
    by_cases same : h.name = name
    · simp [first, every, same]
    · have next : Headers.first (h :: rest) name = Headers.first rest name := by
        simp [first, same]
      rw [next, ih, every, if_neg same]

theorem lastLoop_every (hs : Headers) (name : Bytes) (result : Option Bytes) :
    lastLoop hs name result = (hs.every name).getLast?.or result := by
  induction hs generalizing result with
  | nil => rfl
  | cons h rest ih =>
    rw [lastLoop, ih, every]
    by_cases same : h.name = name
    · rw [if_pos same, if_pos same, List.getLast?_cons]
      cases (Headers.every rest name).getLast? <;> rfl
    · rw [if_neg same, if_neg same]

theorem last_every (hs : Headers) (name : Bytes) : hs.last name = (hs.every name).getLast? := by
  rw [last, lastLoop_every, Option.or_none]

/-! ## One call -/

theorem every_add (hs : Headers) (h : Header) (name : Bytes) :
    (hs.add h.name h.value).every name =
      if h.name = name then hs.every name ++ [h.value] else hs.every name := by
  induction hs with
  | nil =>
    simp only [add, List.nil_append, every]
  | cons x rest ih =>
    have next : Headers.add (x :: rest) h.name h.value = x :: Headers.add rest h.name h.value := rfl
    rw [next, every, ih, every]
    split_ifs <;> rfl

theorem every_remove (hs : Headers) (gone name : Bytes) :
    (hs.remove gone).every name = if gone = name then [] else hs.every name := by
  induction hs with
  | nil => simp [remove, every]
  | cons x rest ih =>
    by_cases same : x.name = gone
    · rw [remove, if_pos same, ih, every, same]
      split_ifs <;> rfl
    · rw [remove, if_neg same, every, ih, every]
      by_cases hit : gone = name
      · subst hit
        rw [if_neg same, if_pos rfl, if_pos rfl]
      · rw [if_neg hit, if_neg hit]

theorem replace_same {x h : Header} {rest : Headers} (named : AllNamed rest)
    (same : x.name = h.name) : Headers.replace (x :: rest) h = h :: rest := by
  rw [replace_eq, Lib.Overwrite.before_same rest same, Lib.Overwrite.behind_same rest same,
    Lib.Overwrite.others_eq_self named, List.nil_append]

theorem replace_other {x h : Header} (rest : Headers) (other : x.name ≠ h.name) :
    Headers.replace (x :: rest) h = x :: rest.replace h := by
  rw [replace_eq, replace_eq, Lib.Overwrite.before_other rest other,
    Lib.Overwrite.behind_other rest other, List.cons_append]

/-- Among headers with names, only the first of the name is replaced. -/
theorem every_replace {hs : Headers} (named : AllNamed hs) (h : Header) (name : Bytes) :
    (hs.replace h).every name =
      if h.name = name then h.value :: (hs.every name).tail else hs.every name := by
  induction hs with
  | nil =>
    have alone : Headers.replace [] h = [h] := rfl
    simp only [alone, every, List.tail_nil]
  | cons x rest ih =>
    have others : AllNamed rest := fun y hy => named y (List.mem_cons_of_mem x hy)
    by_cases same : x.name = h.name
    · rw [replace_same others same, every, every, same]
      split_ifs <;> rfl
    · rw [replace_other rest same, every, ih others, every]
      by_cases hit : h.name = name
      · subst hit
        rw [if_neg same, if_pos rfl, if_pos rfl, if_neg same]
      · rw [if_neg hit, if_neg hit]

theorem call_every {hs : Headers} (named : AllNamed hs) (c : HeaderCall) :
    (hs.call c).every = Fields.call hs.every c := by
  funext name
  cases c with
  | add h =>
    rw [call, every_add, Fields.call, Function.update_apply]
    split_ifs with same hit hit
    · rw [same]
    · exact absurd same.symm hit
    · exact absurd hit.symm same
    · rfl
  | replace h =>
    rw [call, every_replace named, Fields.call, Function.update_apply]
    split_ifs with same hit hit
    · rw [same]
    · exact absurd same.symm hit
    · exact absurd hit.symm same
    · rfl
  | remove gone =>
    rw [call, every_remove, Fields.call, Function.update_apply]
    simp only [eq_comm]

/-! ## Runs -/

theorem allNamed_add {hs : Headers} {h : Header} (named : AllNamed hs) (name : h.name ≠ []) :
    AllNamed (hs.add h.name h.value) := by
  intro x member
  rcases List.mem_append.mp member with old | new
  · exact named x old
  · rw [List.mem_singleton.mp new]
    exact name

theorem allNamed_remove {hs : Headers} (named : AllNamed hs) (gone : Bytes) :
    AllNamed (hs.remove gone) := by
  induction hs with
  | nil => exact named
  | cons x rest ih =>
    obtain ⟨first, others⟩ := List.forall_mem_cons.mp named
    rw [remove]
    split
    · exact ih others
    · exact List.forall_mem_cons.mpr ⟨first, ih others⟩

theorem allNamed_replace {hs : Headers} {h : Header} (named : AllNamed hs) (name : h.name ≠ []) :
    AllNamed (hs.replace h) := by
  induction hs with
  | nil => exact List.forall_mem_cons.mpr ⟨name, named⟩
  | cons x rest ih =>
    obtain ⟨first, others⟩ := List.forall_mem_cons.mp named
    by_cases same : x.name = h.name
    · rw [replace_same others same]
      exact List.forall_mem_cons.mpr ⟨name, others⟩
    · rw [replace_other rest same]
      exact List.forall_mem_cons.mpr ⟨first, ih others⟩

theorem allNamed_call {hs : Headers} {c : HeaderCall} (named : AllNamed hs) (name : c.Named) :
    AllNamed (hs.call c) := by
  cases c with
  | add h => exact allNamed_add named name
  | replace h => exact allNamed_replace named name
  | remove gone => exact allNamed_remove named gone

theorem run_every {calls : List HeaderCall} (named : ∀ c ∈ calls, c.Named) :
    AllNamed (run calls) ∧ (run calls).every = Fields.run calls := by
  induction calls using List.reverseRecOn with
  | nil => exact ⟨fun _ none => absurd none List.not_mem_nil, rfl⟩
  | append_singleton calls c ih =>
    obtain ⟨all, same⟩ := ih fun c hc => named c (List.mem_append_left _ hc)
    have last : c.Named := named c (List.mem_append_right _ (List.mem_singleton_self c))
    rw [run, Fields.run, List.foldl_concat, List.foldl_concat]
    refine ⟨allNamed_call all last, ?_⟩
    rw [← run, ← Fields.run, call_every all c, same]

/-- **Fields.** Over any calls that put in headers with names, a list keeps for each name the
values that the calls for it alone have left: added behind the others, all taken away, or the
first exchanged. `first`, `last` and `every` are the ends and the whole of these. -/
theorem run_fields (calls : List HeaderCall) (named : ∀ c ∈ calls, c.Named) (name : Bytes) :
    (run calls).every name = Fields.run calls name ∧
      (run calls).first name = (Fields.run calls name).head? ∧
      (run calls).last name = (Fields.run calls name).getLast? := by
  have same : (run calls).every name = Fields.run calls name :=
    congrFun (run_every named).2 name
  rw [first_every, last_every, same]
  exact ⟨rfl, rfl, rfl⟩

/-- Two cookies, of which the first is replaced and the other stays. -/
theorem run_fields_cookies :
    (run [.add ⟨ascii "cookie", ascii "a=1"⟩, .add ⟨ascii "cookie", ascii "b=2"⟩,
        .replace ⟨ascii "cookie", ascii "c=3"⟩]).every (ascii "cookie") =
      [ascii "c=3", ascii "b=2"] :=
  (run_fields _ (by simp [HeaderCall.Named, ascii]) _).1.trans (by decide)

end Headers

end Http2Server
