import Http2Server.Bytes
import Http2Server.Lib.FileTree
import Mathlib.Data.List.TakeWhile

/-!
# The file system

`FileSystem` is what the server asks of `std::filesystem` and `std::ifstream`.
`Disk` is one that has no links: a tree, a working directory, and paths looked
up component by component.

- `components_append`: text behind a path continues its last component.
- `Disk.resolve_entry`: a name behind a slash leads to the entry of the directory.
-/

namespace Http2Server

inductive FileType where
  | notFound
  | directory
  | regular
  | other
  deriving DecidableEq, Repr

/-- `none` is a `filesystem_error`, for `status` and `entries`; for `read`, a
file that does not open. -/
structure FileSystem where
  status : Bytes → Option FileType
  read : Bytes → Option Bytes
  entries : Bytes → Option (List (Bytes × FileType))

/-- Splits a path at every slash. -/
def components : Bytes → List Bytes
  | [] => [[]]
  | c :: rest =>
    if c = 0x2f then [] :: components rest
    else match components rest with
      | [] => [[c]]
      | first :: more => (c :: first) :: more

/-- A path as the system call gets it: up to the first NUL. -/
def cString (path : Bytes) : Bytes := path.takeWhile (· != 0)

open Lib.FileTree

def stepOf (component : Bytes) : Step Bytes :=
  if component = [] ∨ component = ascii "." then .stay
  else if component = ascii ".." then .up
  else .down component

/-- What stands at a leaf; a regular file with its bytes. -/
inductive Leaf where
  | regular (content : Bytes)
  | other
  deriving DecidableEq, Repr

/-- A component that names an entry of a directory. -/
def IsName (component : Bytes) : Prop :=
  stepOf component = .down component ∧ 0x2f ∉ component ∧ 0 ∉ component

instance : DecidablePred IsName := fun c =>
  inferInstanceAs (Decidable (stepOf c = .down c ∧ 0x2f ∉ c ∧ 0 ∉ c))

structure Disk where
  tree : Tree Bytes Leaf
  cwd : List Bytes
  listing : List Bytes → List Bytes
  mem_listing : ∀ loc name, name ∈ listing loc ↔ tree.node (loc ++ [name]) ≠ none
  named : ∀ loc name, tree.node (loc ++ [name]) ≠ none → IsName name
  cwd_directory : tree.node cwd = some .directory

namespace Disk

/-- Where the lookup of a path starts. -/
def start (d : Disk) (path : Bytes) : List Bytes :=
  if path.head? = some 0x2f then [] else d.cwd

/-- The location a path leads to, if anything is there. -/
def resolve (d : Disk) (path : Bytes) : Option (List Bytes) :=
  let path := cString path
  if path = [] then none else d.tree.walk (d.start path) ((components path).map stepOf)

def typeAt (d : Disk) (loc : List Bytes) : FileType :=
  match d.tree.node loc with
  | none => .notFound
  | some .directory => .directory
  | some (.leaf (.regular _)) => .regular
  | some (.leaf .other) => .other

def contentAt (d : Disk) (loc : List Bytes) : Option Bytes :=
  match d.tree.node loc with
  | some (.leaf (.regular content)) => some content
  | _ => none

def fileSystem (d : Disk) : FileSystem where
  status path := some (((d.resolve path).map d.typeAt).getD .notFound)
  read path := (d.resolve path).bind d.contentAt
  entries path := (d.resolve path).map fun loc =>
    (d.listing loc).map fun name => (name, d.typeAt (loc ++ [name]))

/-- A disk of finitely many entries. -/
def ofEntries (entries : List (List Bytes × Node Leaf)) (cwd : List Bytes)
    (root : entries.lookup [] = some .directory)
    (parents : ∀ e ∈ entries, e.1 = [] ∨ entries.lookup e.1.dropLast = some .directory)
    (names : ∀ e ∈ entries, ∀ name ∈ e.1, IsName name)
    (inside : entries.lookup cwd = some .directory) : Disk where
  tree := Lib.FileTree.ofEntries entries root parents
  cwd := cwd
  listing := namesIn entries
  mem_listing _ _ := mem_namesIn entries
  named loc name h := by
    obtain ⟨n, found⟩ := Option.ne_none_iff_exists'.mp h
    exact names _ (lookup_mem entries found) name (by simp)
  cwd_directory := inside

end Disk

/-! ## Joining paths -/

theorem components_ne_nil (path : Bytes) : components path ≠ [] := by
  cases path with
  | nil => simp [components]
  | cons c rest =>
    rw [components]
    split
    · simp
    · split <;> simp

/-- The part of a path after its last slash. -/
def lastComponent (path : Bytes) : Bytes := (components path).getLast (components_ne_nil path)

/-- Text written after a path continues its last component. -/
theorem components_append (p q : Bytes) :
    components (p ++ q) = (components p).dropLast ++ components (lastComponent p ++ q) := by
  induction p with
  | nil => simp [components, lastComponent]
  | cons c p ih =>
    obtain ⟨first, more, split⟩ := List.exists_cons_of_ne_nil (components_ne_nil p)
    by_cases slash : c = 0x2f
    · subst slash
      simp only [lastComponent] at ih ⊢
      simp only [List.cons_append, components, ↓reduceIte, ih, split, List.dropLast_cons_cons,
        List.getLast_cons_cons]
    · simp only [lastComponent, List.cons_append, components, slash, ↓reduceIte, split] at ih ⊢
      rw [ih]
      cases more with
      | nil => simp [components, slash]
      | cons second more => simp

/-! ## Paths behind a slash -/

theorem components_slash (p q : Bytes) :
    components (p ++ 0x2f :: q) = components p ++ components q := by
  induction p with
  | nil => simp [components]
  | cons c p ih =>
    by_cases slash : c = 0x2f
    · simp only [List.cons_append, components, slash, ↓reduceIte, ih]
    · obtain ⟨first, more, split⟩ := List.exists_cons_of_ne_nil (components_ne_nil p)
      simp only [List.cons_append, components, slash, ↓reduceIte, ih, split]

theorem components_name {name : Bytes} (h : 0x2f ∉ name) : components name = [name] := by
  induction name with
  | nil => rfl
  | cons c name ih =>
    rw [List.mem_cons, not_or] at h
    rw [components, if_neg (Ne.symm h.1), ih h.2]

theorem slash_notMem_components (path : Bytes) : ∀ c ∈ components path, 0x2f ∉ c := by
  induction path with
  | nil => simp [components]
  | cons c path ih =>
    obtain ⟨first, more, split⟩ := List.exists_cons_of_ne_nil (components_ne_nil path)
    rw [split, List.forall_mem_cons] at ih
    by_cases slash : c = 0x2f
    · simp only [components, slash, ↓reduceIte, split, List.forall_mem_cons]
      exact ⟨List.not_mem_nil, ih⟩
    · have own : 0x2f ∉ c :: first := by
        rw [List.mem_cons, not_or]
        exact ⟨Ne.symm slash, ih.1⟩
      simp only [components, slash, ↓reduceIte, split]
      rw [List.forall_mem_cons]
      exact ⟨own, ih.2⟩

theorem slash_notMem_last (path : Bytes) : 0x2f ∉ lastComponent path :=
  slash_notMem_components path _ (List.getLast_mem _)

/-- A path that does not end in a slash ends in its last component. -/
theorem last_ne_nil {path : Bytes} (some : path ≠ []) (open' : path.getLast? ≠ .some 0x2f) :
    lastComponent path ≠ [] := by
  rcases List.eq_nil_or_concat path with rfl | ⟨front, c, rfl⟩
  · exact absurd rfl some
  · rw [List.concat_eq_append] at open' ⊢
    have whole : 0x2f ∉ lastComponent front ++ [c] := by
      simp only [List.mem_append, slash_notMem_last, List.mem_singleton, false_or]
      rintro rfl
      simp at open'
    have last := components_append front [c]
    rw [components_name whole] at last
    simp [lastComponent, last]

theorem bne_nul {path : Bytes} (plain : 0 ∉ path) : ∀ c ∈ path, (c != 0) = true := by
  intro c hc
  rw [bne_iff_ne]
  rintro rfl
  exact plain hc

theorem cString_self {path : Bytes} (plain : 0 ∉ path) : cString path = path :=
  List.takeWhile_eq_self_iff.mpr (bne_nul plain)

theorem IsName.ne_nil {name : Bytes} (h : IsName name) : name ≠ [] := by
  rintro rfl
  exact absurd h.1 (by decide)

/-- Text before a name makes no other step of it. -/
theorem IsName.behind {name front : Bytes} (h : IsName name) (some : front ≠ []) :
    stepOf (front ++ name) = .down (front ++ name) := by
  have long : 1 < (front ++ name).length := by
    have := List.length_pos_iff.mpr some
    have := List.length_pos_iff.mpr h.ne_nil
    rw [List.length_append]
    omega
  rw [stepOf, if_neg, if_neg]
  · intro dots
    have lengths := congrArg List.length dots
    rw [List.length_append] at lengths
    have one : name = ascii "." := by
      have behind := congrArg (List.drop front.length) dots
      rw [List.drop_left] at behind
      have := List.length_pos_iff.mpr some
      have := List.length_pos_iff.mpr h.ne_nil
      have front : front.length = 1 := by
        have : (ascii "..").length = 2 := rfl
        omega
      rw [behind, front]
      rfl
    exact absurd h.1 (by rw [one]; decide)
  · rintro (empty | dot)
    · rw [empty] at long
      exact absurd long (by decide)
    · rw [dot] at long
      exact absurd long (by decide)

namespace Disk

variable {d : Disk}

/-- The entries of a directory, as they are listed. -/
theorem mem_entries {path : Bytes} {loc : List Bytes} (found : d.resolve path = some loc)
    {entries : List (Bytes × FileType)} (listed : d.fileSystem.entries path = some entries)
    {entry : Bytes × FileType} (h : entry ∈ entries) :
    IsName entry.1 ∧ d.tree.node (loc ++ [entry.1]) ≠ none ∧
      entry.2 = d.typeAt (loc ++ [entry.1]) := by
  simp only [fileSystem, found, Option.map_some, Option.some.injEq] at listed
  subst listed
  obtain ⟨name, member, rfl⟩ := List.mem_map.mp h
  have stands := (d.mem_listing loc name).mp member
  exact ⟨d.named loc name stands, stands, rfl⟩

theorem node_directory {loc : List Bytes} (h : d.typeAt loc = .directory) :
    d.tree.node loc = some .directory := by
  unfold typeAt at h
  split at h
  · cases h
  · assumption
  · cases h
  · cases h

/-- A slash behind a directory's path changes nothing. -/
theorem resolve_slash {path : Bytes} {loc : List Bytes} (plain : 0 ∉ path)
    (found : d.resolve path = some loc) (directory : d.tree.node loc = some .directory) :
    d.resolve (path ++ [0x2f]) = some loc := by
  have whole : cString (path ++ [0x2f]) = path ++ [0x2f] := cString_self (by simp [plain])
  rw [resolve, cString_self plain] at found
  split at found
  · cases found
  · next some =>
    rw [resolve, whole, if_neg (by simp), components_slash, List.map_append, Tree.walk_append,
      start, List.head?_append_of_ne_nil _ some, ← start, found]
    simp [components, stepOf, Tree.walk, directory]

/-- An entry's name behind it leads to the entry. -/
theorem resolve_entry {path name : Bytes} {loc : List Bytes} (plain : 0 ∉ path)
    (isName : IsName name) (found : d.resolve (path ++ [0x2f]) = some loc)
    (stands : d.tree.node (loc ++ [name]) ≠ none) :
    d.resolve (path ++ 0x2f :: name) = some (loc ++ [name]) := by
  have whole : cString (path ++ [0x2f]) = path ++ [0x2f] := cString_self (by simp [plain])
  have longer : cString (path ++ 0x2f :: name) = path ++ 0x2f :: name :=
    cString_self (by simp [plain, isName.2.2])
  have same : d.start (path ++ 0x2f :: name) = d.start (path ++ [0x2f]) := by
    cases path <;> rfl
  rw [resolve, whole, if_neg (by simp), components_slash, List.map_append, Tree.walk_append,
    Option.bind_eq_some_iff] at found
  obtain ⟨reached, before, last⟩ := found
  have directory := d.tree.parent loc name stands
  rw [resolve, longer, if_neg (by simp), components_slash, components_name isName.2.1,
    List.map_append, Tree.walk_append, same, before]
  obtain ⟨-, rfl⟩ : d.tree.node reached = some .directory ∧ reached = loc := by
    simpa [components, stepOf, Tree.walk] using last
  have present := Option.isSome_iff_ne_none.mpr stands
  simp [Tree.walk, isName.1, directory, present]

end Disk

end Http2Server
