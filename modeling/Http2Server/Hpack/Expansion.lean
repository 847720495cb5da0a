import Http2Server.Hpack.Composition
import Http2Server.Hpack.Language

/-!
# How far a block expands

A byte of a block can stand for a header of any length, as the table has it. But there is no
more than one header for a byte, and a name or a value in the table was once spelled out.

- `Str.Written.length`: what a string comes to, at five bits for each byte at least.
- `run_within`: the interpreter makes no string longer than those it has been given.
- `decodeLowmem_within`: neither does the decoder, whatever it is given.
-/

namespace Http2Server

/-- Name and value are no longer than so many fifths of a byte. -/
def Header.Within (limit : Nat) (h : Header) : Prop :=
  5 * h.name.length ≤ limit ∧ 5 * h.value.length ≤ limit

instance (limit : Nat) : DecidablePred (Header.Within limit) := fun h =>
  inferInstanceAs (Decidable (5 * h.name.length ≤ limit ∧ 5 * h.value.length ≤ limit))

theorem Header.Within.mono {limit limit' : Nat} {h : Header} (within : h.Within limit)
    (wider : limit ≤ limit') : h.Within limit' :=
  ⟨within.1.trans wider, within.2.trans wider⟩

namespace Hpack

/-! ## Strings -/

theorem length_codeWords_ge (s : Bytes) : 5 * s.length ≤ (codeWords s).length := by
  induction s with
  | nil => exact Nat.le_refl _
  | cons b s ih =>
    have wide := entry_wide _ (entryOf_mem b)
    simp only [codeWords_cons, List.length_append, HuffmanEntry.length_code, List.length_cons]
    omega

theorem length_encodeHuffman_ge (s : Bytes) : 5 * s.length ≤ 8 * (encodeHuffman s).length := by
  obtain ⟨k, _, text⟩ := unpack_encodeHuffman s
  have bits := congrArg List.length text
  have words := length_codeWords_ge s
  rw [Lib.BitString.length_unpack, List.length_append] at bits
  omega

namespace Reference

theorem Str.Written.length {reads : Reading} {s : Str} {bytes : Bytes}
    (written : s.Written reads bytes) : 5 * s.text.length ≤ 8 * bytes.length := by
  obtain ⟨digits, _, rfl⟩ := written
  rw [List.length_append]
  cases s with
  | raw s =>
    rw [Str.text, Str.octets]
    omega
  | huffman s =>
    have longer := length_encodeHuffman_ge s
    rw [Str.text, Str.octets]
    omega

/-! ## Representations -/

/-- The strings of a representation. -/
def Name.Within (limit : Nat) : Name → Prop
  | .indexed _ => True
  | .literal s => 5 * s.text.length ≤ limit

def Rep.Within (limit : Nat) : Rep → Prop
  | .literal _ name value => name.Within limit ∧ 5 * value.text.length ≤ limit
  | _ => True

/-- The entries of a dynamic table. -/
def State.Within (limit : Nat) (s : State) : Prop := ∀ h ∈ s.entries, h.Within limit

theorem Rep.Written.within {reads : Reading} {r : Rep} {bytes : Bytes} {limit : Nat}
    (written : r.Written reads bytes) (small : 8 * bytes.length ≤ limit) : r.Within limit := by
  cases r with
  | indexed index => trivial
  | sizeUpdate maxSize => trivial
  | literal i name value =>
    obtain ⟨a, b, c, -, first, second, rfl⟩ := written
    simp only [List.length_append] at small
    have valueLength := second.length
    refine ⟨?_, by omega⟩
    cases name with
    | indexed index => trivial
    | literal s =>
      have nameLength := Str.Written.length first
      show 5 * s.text.length ≤ limit
      omega

theorem Spelling.within {reads : Reading} {reps : List Rep} {block : Bytes} {limit : Nat}
    (spelling : Spelling reads reps block) (small : 8 * block.length ≤ limit) :
    (∀ r ∈ reps, r.Within limit) ∧ reps.length ≤ block.length := by
  obtain ⟨written, spelled, rfl⟩ := spelling
  induction spelled with
  | nil => simp
  | @cons r bytes reps written one _ ih =>
    rw [List.flatten_cons, List.length_append] at small ⊢
    obtain ⟨others, few⟩ := ih (by omega)
    have some := List.length_pos_of_ne_nil one.ne_nil
    refine ⟨List.forall_mem_cons.mpr ⟨one.within (by omega), others⟩, ?_⟩
    rw [List.length_cons]
    omega

/-! ## The interpreter -/

theorem appendixA_within : ∀ e ∈ appendixA, Header.Within 135 ⟨ascii e.1, ascii e.2⟩ := by
  decide +kernel

section
variable {limit : Nat} {s s' : State} (static : 135 ≤ limit)
include static

theorem lookup_within {index : Nat} {h : Header} (within : s.Within limit)
    (found : s.lookup index = some h) : h.Within limit := by
  unfold State.lookup at found
  split at found
  · cases found
  · split at found
    · next name value entry =>
      cases found
      exact (appendixA_within _ (List.mem_of_getElem? entry)).mono static
    · exact within h (List.mem_of_getElem? found)

theorem nameOf_within {name : Name} {n : Bytes} (within : s.Within limit)
    (spelled : name.Within limit) (named : s.nameOf name = some n) : 5 * n.length ≤ limit := by
  cases name with
  | indexed index =>
    obtain ⟨h, found, rfl⟩ := Option.map_eq_some_iff.mp named
    exact (lookup_within static within found).1
  | literal str =>
    cases named
    exact spelled

omit static in
theorem insert_within {h : Header} (within : s.Within limit) (new : h.Within limit) :
    (s.insert h).Within limit := by
  unfold State.insert
  split
  · intro h' member
    obtain rfl | older := List.mem_cons.mp member
    · exact new
    · exact within h' ((Lib.Eviction.within_front ..).subset older)
  · intro h' member
    cases member

theorem step_within {r : Rep} {header : Option Header} (within : s.Within limit)
    (spelled : r.Within limit) (step : s.step r = some (header, s')) :
    (∀ h ∈ header, h.Within limit) ∧ s'.Within limit := by
  cases r with
  | indexed index =>
    obtain ⟨h, found, taken⟩ := Option.map_eq_some_iff.mp step
    cases taken
    refine ⟨fun h' same => ?_, within⟩
    cases same
    exact lookup_within static within found
  | sizeUpdate maxSize =>
    cases step
    refine ⟨fun h none => (by cases none), fun h member => ?_⟩
    exact within h ((Lib.Eviction.within_front ..).subset member)
  | literal i name value =>
    obtain ⟨n, named, taken⟩ := Option.map_eq_some_iff.mp step
    have new : Header.Within limit ⟨n, value.text⟩ :=
      ⟨nameOf_within static within spelled.1 named, spelled.2⟩
    cases taken
    refine ⟨fun h same => (by cases same; exact new), ?_⟩
    cases i with
    | incremental => exact insert_within within new
    | without => exact within
    | never => exact within

/-- The headers of a block, and the table after it. -/
theorem run_within {reps : List Rep} {hs : List Header} (within : s.Within limit)
    (spelled : ∀ r ∈ reps, r.Within limit) (run : s.run reps = some (hs, s')) :
    (∀ h ∈ hs, h.Within limit) ∧ s'.Within limit ∧ hs.length ≤ reps.length := by
  induction reps generalizing s hs with
  | nil =>
    cases run
    exact ⟨by simp, within, Nat.le_refl _⟩
  | cons r reps ih =>
    simp only [State.run, Option.bind_eq_some_iff, Option.map_eq_some_iff, Prod.mk.injEq] at run
    obtain ⟨⟨h, s₁⟩, step, ⟨hs₁, s₂⟩, later, rfl, rfl⟩ := run
    rw [List.forall_mem_cons] at spelled
    obtain ⟨first, table⟩ := step_within static within spelled.1 step
    obtain ⟨others, last, few⟩ := ih table spelled.2 later
    have one : h.toList.length ≤ 1 := by cases h <;> simp
    refine ⟨fun h' member => ?_, last, ?_⟩
    · obtain own | other := List.mem_append.mp member
      · exact first h' (Option.mem_toList.mp own)
      · exact others h' other
    · simp only [List.length_append, List.length_cons]
      omega

end

end Reference

/-- **Expansion.** Of any block, accepted or not, no more headers come than it has bytes, and
they and the table have no string longer than the block can spell, the table had before, or the
static table has. -/
theorem decodeLowmem_within {limit : Nat} {t : Table} {block : Bytes} (static : 135 ≤ limit)
    (small : 8 * block.length ≤ limit) (within : ∀ h ∈ t.dynamic, h.Within limit) :
    (∀ h ∈ (decodeLowmem t block).headers, h.Within limit) ∧
      (∀ h ∈ (decodeLowmem t block).table.dynamic, h.Within limit) ∧
      (decodeLowmem t block).headers.length ≤ block.length := by
  obtain ⟨part, front, accepted, _⟩ := decodeLowmem_read_part t block
  have shorter := front.length_le
  obtain ⟨reps, spelling, run⟩ := Reference.spelling_of_accepts accepted
  have smaller : 8 * part.length ≤ limit := by omega
  obtain ⟨spelled, few⟩ := spelling.within smaller
  have start : (Reference.view t).Within limit := within
  obtain ⟨headers, table, many⟩ := Reference.run_within static start spelled run
  exact ⟨headers, table, by omega⟩

end Hpack

end Http2Server
