import Mathlib.Data.List.Infix

/-!
# Trees of named nodes

A tree without links, as a map from locations (the names from the root down) to
nodes, and the walk along a path of steps.

- `walk_append`: a path is walked one part after the other.
- `walk_lands`: where a walk arrives can be read off its steps: it leaves the
  start by the steps up that no name before them cancels, and goes down by the
  names that are left.
-/

namespace Lib.FileTree

inductive Node (κ : Type) where
  | directory
  | leaf (content : κ)
  deriving DecidableEq, Repr

inductive Step (ν : Type) where
  | stay
  | up
  | down (name : ν)
  deriving DecidableEq, Repr

structure Tree (ν κ : Type) where
  node : List ν → Option (Node κ)
  root : node [] = some .directory
  parent : ∀ loc name, node (loc ++ [name]) ≠ none → node loc = some .directory

variable {ν κ : Type}

/-- Every step, also one that stays, starts in a directory. The root is its own
parent. -/
def Tree.walk [DecidableEq κ] (t : Tree ν κ) : List ν → List (Step ν) → Option (List ν)
  | loc, [] => some loc
  | loc, s :: rest =>
    if t.node loc = some .directory then
      match s with
      | .stay => t.walk loc rest
      | .up => t.walk loc.dropLast rest
      | .down name =>
        if (t.node (loc ++ [name])).isSome then t.walk (loc ++ [name]) rest else none
    else none

/-- Levels up from the start, and the names down from there. -/
structure Offset (ν : Type) where
  above : Nat := 0
  names : List ν := []
  deriving DecidableEq, Repr

namespace Offset

def step (d : Offset ν) : Step ν → Offset ν
  | .stay => d
  | .up => if d.names = [] then { d with above := d.above + 1 } else ⟨d.above, d.names.dropLast⟩
  | .down name => { d with names := d.names ++ [name] }

/-- The offset of a path: each step up cancels the name before it, if any. -/
def ofSteps (steps : List (Step ν)) : Offset ν := steps.foldl step {}

/-- The location at an offset from `loc`. -/
def land (d : Offset ν) (loc : List ν) : List ν := loc.take (loc.length - d.above) ++ d.names

theorem land_up (d : Offset ν) (loc : List ν) : (d.step .up).land loc = (d.land loc).dropLast := by
  simp only [step]
  split
  · next empty =>
    simp only [land, empty, List.append_nil, List.dropLast_eq_take, List.length_take,
      List.take_take]
    congr 1
    omega
  · next named => simp only [land, List.dropLast_append_of_ne_nil named]

theorem land_down (d : Offset ν) (name : ν) (loc : List ν) :
    (d.step (.down name)).land loc = d.land loc ++ [name] := by
  simp only [step, land, List.append_assoc]

/-- Landing inside `base`, which leaves `loc` only at its end: what the way has
climbed out of it is what its names bring back. -/
theorem inside_land {d : Offset ν} {base loc : List ν} (h : base.take loc.length <+: loc) :
    base <+: d.land loc ↔ base.drop (loc.length - d.above) <+: d.names := by
  unfold land
  generalize hk : loc.length - d.above = k
  have kept : base.take k <+: loc.take k := by
    have := h.take k
    rwa [List.take_take, Nat.min_eq_left (by omega)] at this
  rcases Nat.lt_or_ge k base.length with longer | shorter
  · have whole : base.take k = loc.take k :=
      kept.eq_of_length (by simp only [List.length_take]; omega)
    conv => lhs; rw [← List.take_append_drop k base, whole]
    exact List.prefix_append_right_inj _
  · rw [List.take_of_length_le shorter] at kept
    rw [List.drop_of_length_le shorter]
    exact iff_of_true (kept.trans (List.prefix_append _ _)) (List.nil_prefix)

end Offset

namespace Tree

variable [DecidableEq κ] (t : Tree ν κ)

theorem walk_append (loc : List ν) (first second : List (Step ν)) :
    t.walk loc (first ++ second) = (t.walk loc first).bind fun mid => t.walk mid second := by
  induction first generalizing loc with
  | nil => rfl
  | cons s first ih =>
    simp only [List.cons_append, walk]
    split
    · cases s with
      | stay => exact ih loc
      | up => exact ih loc.dropLast
      | down name =>
        dsimp only
        split
        · exact ih (loc ++ [name])
        · rfl
    · rfl

theorem walk_from {d : Offset ν} {loc arrived : List ν} {steps : List (Step ν)}
    (h : t.walk (d.land loc) steps = some arrived) :
    arrived = (steps.foldl Offset.step d).land loc := by
  induction steps generalizing d with
  | nil => exact (Option.some.inj h).symm
  | cons s steps ih =>
    simp only [walk] at h
    split at h
    · cases s with
      | stay => exact ih h
      | up =>
        dsimp only at h
        rw [← Offset.land_up] at h
        exact ih h
      | down name =>
        dsimp only at h
        split at h
        · rw [← Offset.land_down] at h
          exact ih h
        · cases h
    · cases h

/-- **Landing.** A walk that arrives does so at its path's offset from the start. -/
theorem walk_lands {loc arrived : List ν} {steps : List (Step ν)}
    (h : t.walk loc steps = some arrived) : arrived = (Offset.ofSteps steps).land loc := by
  have start : ({} : Offset ν).land loc = loc := by simp [Offset.land]
  rw [← start] at h
  exact t.walk_from h

/-- One step goes no further than to a child or the parent. -/
theorem walk_step {loc arrived : List ν} {s : Step ν} (h : t.walk loc [s] = some arrived) :
    arrived.take loc.length <+: loc := by
  simp only [walk] at h
  split at h
  · cases s with
    | stay =>
      obtain rfl := Option.some.inj h
      exact List.take_prefix _ _
    | up =>
      obtain rfl := Option.some.inj h
      exact (List.take_prefix _ _).trans (List.dropLast_prefix loc)
    | down name =>
      dsimp only at h
      split at h
      · obtain rfl := Option.some.inj h
        rw [List.take_left]
      · cases h
  · cases h

end Tree

/-! ## Finite trees -/

section
variable [BEq ν] [LawfulBEq ν] (entries : List (List ν × Node κ))

theorem lookup_mem {loc : List ν} {n : Node κ} (h : entries.lookup loc = some n) :
    (loc, n) ∈ entries := by
  obtain ⟨_, _, split, _⟩ := List.lookup_eq_some_iff.mp h
  rw [split]
  simp

/-- The tree of a list of locations and nodes; every node but the root stands in
a directory of the list. -/
def ofEntries (root : entries.lookup [] = some .directory)
    (parents : ∀ e ∈ entries, e.1 = [] ∨ entries.lookup e.1.dropLast = some .directory) :
    Tree ν κ where
  node loc := entries.lookup loc
  root := root
  parent loc name h := by
    obtain ⟨n, found⟩ := Option.ne_none_iff_exists'.mp h
    rcases parents _ (lookup_mem entries found) with empty | dir
    · simp at empty
    · simpa using dir

/-- The names of the entries in a directory. -/
def namesIn (loc : List ν) : List ν :=
  entries.filterMap fun e => if e.1.dropLast == loc then e.1.getLast? else none

theorem mem_namesIn {loc : List ν} {name : ν} :
    name ∈ namesIn entries loc ↔ entries.lookup (loc ++ [name]) ≠ none := by
  simp only [namesIn, List.mem_filterMap]
  constructor
  · rintro ⟨e, he, found⟩ absent
    split at found
    · next same =>
      obtain ⟨front, split⟩ := List.getLast?_eq_some_iff.mp found
      rw [split, List.dropLast_concat, beq_iff_eq] at same
      subst same
      have apart := List.lookup_eq_none_iff.mp absent e he
      simp [split] at apart
    · cases found
  · intro present
    obtain ⟨n, found⟩ := Option.ne_none_iff_exists'.mp present
    exact ⟨_, lookup_mem entries found, by simp⟩

end

end Lib.FileTree
