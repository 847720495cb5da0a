import Http2Server.FrameLayout

/-!
# What decoding examines

The bytes that `decode` reads, the range it copies and the subtractions of its
`size_t` values, on each of its branches. `decode_safe_iff` says when none of them
leaves the region or goes below zero.
-/

namespace Http2Server.Frame

/-- Offsets are from the start of the region. -/
inductive Access where
  | read (offset : Nat)
  | copy (offset count : Nat)
  | subtract (a b : Nat)
  deriving DecidableEq, Repr

/-- Inside a region of a length of `n`, and not below zero. -/
def Access.Safe (n : Nat) : Access → Prop
  | read offset => offset < n
  | copy offset count => offset + count ≤ n
  | subtract a b => b ≤ a

def reads (offset count : Nat) : List Access := (List.range count).map fun i => .read (offset + i)

theorem reads_safe {n offset count : Nat} (inside : offset + count ≤ n) :
    ∀ a ∈ reads offset count, a.Safe n := by
  intro a mem
  obtain ⟨i, lt, rfl⟩ := List.mem_map.mp mem
  rw [List.mem_range] at lt
  exact Nat.lt_of_lt_of_le (Nat.add_lt_add_left lt offset) inside

/-- In `stripPadding`. -/
def paddingAccesses (f : Frame) (b : Body) : List Access :=
  if f.isPadded then
    let padLength := (b.p.headD 0).toNat
    .read (9 + b.headerStart) :: .subtract b.payloadSize 1 ::
      if padLength > sizeSub b.payloadSize 1 then []
      else [.subtract b.payloadSize (padLength + 1)]
  else []

/-- In `stripPriority`. -/
def priorityAccesses (f : Frame) (b : Body) : List Access :=
  if f.carriesPriority then
    if b.payloadSize < 5 + b.headerStart then []
    else
      let weight := (b.p.getD 4 0).toNat + 1
      reads (9 + b.headerStart) 5 ++
        if weight < 1 || weight > 256 then [] else [.subtract b.payloadSize 5]
  else []

/-- In `decodeBody`. -/
def bodyAccesses (f : Frame) (b : Body) : List Access :=
  paddingAccesses f b ++
    match f.stripPadding b with
    | none => []
    | some b =>
      priorityAccesses f b ++
        match f.stripPriority b with
        | (_, none) => []
        | (_, some b) =>
          if b.payloadSize < b.headerStart then [] else [.copy (9 + b.headerStart) b.payloadSize]

/-- In `decode`. -/
def accesses (g : Frame) : Bytes → List Access
  | b0 :: b1 :: b2 :: b3 :: b4 :: b5 :: b6 :: b7 :: b8 :: p =>
    let size := bigEndian24 b0 b1 b2
    reads 0 3 ++
      if size > 0x00ffffff || p.length < size then []
      else
        reads 3 6 ++
          bodyAccesses { g with type := b3, flags := b4, sid := bigEndian31 b5 b6 b7 b8 }
            ⟨p, size, 0⟩
  | _ => []

section
variable {f : Frame} {p : Bytes} {size n : Nat}

theorem paddingAccesses_safe (inside : 9 + size ≤ n) (small : size < 2 ^ 24)
    (filled : f.isPadded = true → 0 < size) :
    ∀ a ∈ paddingAccesses f ⟨p, size, 0⟩, a.Safe n := by
  unfold paddingAccesses
  cases padded : f.isPadded with
  | false => simp
  | true =>
    have pos := filled padded
    simp only [↓reduceIte, List.mem_cons, forall_eq_or_imp, Access.Safe]
    refine ⟨by omega, pos, ?_⟩
    rw [sizeSub_of_le pos (by omega)]
    split
    · simp
    · simp only [List.mem_singleton, forall_eq]
      omega

theorem priorityAccesses_safe {b : Body} (inside : 9 + b.headerStart + b.payloadSize ≤ n) :
    ∀ a ∈ priorityAccesses f b, a.Safe n := by
  unfold priorityAccesses
  split
  · split
    · simp
    · simp only [List.forall_mem_append]
      refine ⟨reads_safe (by omega), ?_⟩
      split
      · simp
      · simp only [List.mem_singleton, forall_eq, Access.Safe]
        omega
  · simp

theorem bodyAccesses_safe (inside : 9 + size ≤ n) (small : size < 2 ^ 24)
    (filled : f.isPadded = true → 0 < size) :
    ∀ a ∈ bodyAccesses f ⟨p, size, 0⟩, a.Safe n := by
  unfold bodyAccesses
  rw [List.forall_mem_append]
  refine ⟨paddingAccesses_safe inside small filled, ?_⟩
  by_cases padding : f.padField + f.padLength p ≤ size
  · rw [stripPadding_accepts small padding, List.forall_mem_append]
    refine ⟨priorityAccesses_safe (by dsimp only; omega), ?_⟩
    by_cases room : f.carriesPriority = true →
        5 + f.padField ≤ size - f.padField - f.padLength p
    · rw [stripPriority_accepts room (by dsimp only; omega)]
      dsimp only
      split
      · simp
      · simp only [List.mem_singleton, forall_eq, Access.Safe]
        cases carries : f.carriesPriority with
        | false =>
          simp only [priorityField, carries, Bool.false_eq_true, ↓reduceIte]
          omega
        | true =>
          have fits := room carries
          simp only [priorityField, carries, ↓reduceIte]
          omega
    · obtain ⟨carries, less⟩ := Classical.not_imp.mp room
      rw [stripPriority_rejects carries (Nat.lt_of_not_le less)]
      simp
  · rw [stripPadding_rejects small filled (Nat.lt_of_not_le padding)]
    simp

/-- The payload stands between what is taken off in front and the padding. -/
theorem stripped_payload (f : Frame) (p : Bytes) (size : Nat) :
    (f.stripped p size).payload <:+: p.take size := by
  have part : (f.stripped p size).payload <+: (p.take size).drop f.headerLength := by
    rw [stripped, List.drop_take]
    exact List.take_prefix_take_left (Nat.sub_le _ _)
  exact part.isInfix.trans (List.drop_suffix _ _).isInfix

theorem body_safe_iff (inside : size ≤ p.length) (small : size < 2 ^ 24) :
    ((∀ a ∈ bodyAccesses f ⟨p, size, 0⟩, a.Safe (9 + p.length)) ∧
      ∀ g, decodeBody f ⟨p, size, 0⟩ = .accepted g → g.payload <:+: p.take size) ↔
    ¬ (size = 0 ∧ f.isPadded = true) := by
  constructor
  · rintro ⟨safe, -⟩ ⟨rfl, padded⟩
    have below : Access.subtract 0 1 ∈ bodyAccesses f ⟨p, 0, 0⟩ := by
      simp [bodyAccesses, paddingAccesses, padded]
    exact absurd (safe _ below) (by simp [Access.Safe])
  · intro other
    have filled (padded : f.isPadded = true) : 0 < size :=
      Nat.pos_of_ne_zero fun zero => other ⟨zero, padded⟩
    refine ⟨bodyAccesses_safe (by omega) small filled, fun g accepted => ?_⟩
    by_cases whole : 2 * f.headerLength + f.padLength p ≤ size
    · rw [decodeBody_accepts inside small whole] at accepted
      cases accepted
      exact stripped_payload f p size
    · obtain ⟨g', rejected⟩ := decodeBody_rejects small filled (Nat.lt_of_not_le whole)
      cases rejected.symm.trans accepted

end

section
variable {b0 b1 b2 type flags b5 b6 b7 b8 : Byte} {p : Bytes} (g : Frame)

theorem accesses_short {bytes : Bytes} (few : bytes.length < 9) : accesses g bytes = [] := by
  unfold accesses
  split
  · simp only [List.length_cons] at few
    omega
  · rfl

/-- Without its payload, a header is read as far as its length. -/
theorem accesses_truncated (cut : p.length < bigEndian24 b0 b1 b2) :
    accesses g (b0 :: b1 :: b2 :: type :: flags :: b5 :: b6 :: b7 :: b8 :: p) = reads 0 3 := by
  rw [accesses, if_pos, List.append_nil]
  simp only [Bool.or_eq_true, decide_eq_true_eq]
  exact .inr cut

theorem accesses_filled (inside : bigEndian24 b0 b1 b2 ≤ p.length) :
    accesses g (b0 :: b1 :: b2 :: type :: flags :: b5 :: b6 :: b7 :: b8 :: p) =
      reads 0 3 ++ (reads 3 6 ++
        bodyAccesses { g with type, flags, sid := bigEndian31 b5 b6 b7 b8 }
          ⟨p, bigEndian24 b0 b1 b2, 0⟩) := by
  have size := bigEndian24_lt b0 b1 b2
  rw [accesses, if_neg]
  simp only [Bool.or_eq_true, decide_eq_true_eq]
  omega

end

/-- **Safety.** Nothing but the region is examined, no size goes below zero, and a
payload is part of the bytes that the header counts, except where a padded frame of
length zero stands at the front. -/
theorem decode_safe_iff (g : Frame) (bytes : Bytes) :
    ((∀ a ∈ accesses g bytes, a.Safe bytes.length) ∧
      ∀ f, decode g bytes = .accepted f → f.payload <:+: (bytes.drop 9).take
        (bigEndian24 (bytes.getD 0 0) (bytes.getD 1 0) (bytes.getD 2 0))) ↔
    emptyPadded bytes = false := by
  rcases header_cases bytes with few | ⟨b0, b1, b2, type, flags, b5, b6, b7, b8, p, rfl⟩
  · rw [accesses_short g few, decode_short g few, emptyPadded_short few]
    exact iff_of_true ⟨by simp, by simp⟩ rfl
  have length : (b0 :: b1 :: b2 :: type :: flags :: b5 :: b6 :: b7 :: b8 :: p).length =
      9 + p.length := by
    simp only [List.length_cons]
    omega
  have empty : emptyPadded (b0 :: b1 :: b2 :: type :: flags :: b5 :: b6 :: b7 :: b8 :: p) = false ↔
      ¬ (bigEndian24 b0 b1 b2 = 0 ∧ isPadded { type, flags } = true) := by
    simp [emptyPadded]
  rw [length, empty]
  rcases Nat.lt_or_ge p.length (bigEndian24 b0 b1 b2) with cut | inside
  · rw [accesses_truncated g cut, decode_truncated g cut]
    refine iff_of_true ⟨reads_safe (by omega), ?_⟩ ?_
    · intro f accepted
      cases accepted
    · rintro ⟨zero, -⟩
      omega
  · rw [accesses_filled g inside, decode_filled g inside]
    have size : ∀ a ∈ reads 0 3, a.Safe (9 + p.length) := reads_safe (by omega)
    have fields : ∀ a ∈ reads 3 6, a.Safe (9 + p.length) := reads_safe (by omega)
    have body := body_safe_iff (f := { g with type, flags, sid := bigEndian31 b5 b6 b7 b8 })
      inside (bigEndian24_lt b0 b1 b2)
    simp only [List.forall_mem_append]
    constructor
    · rintro ⟨⟨-, -, safe⟩, part⟩
      exact body.mp ⟨safe, part⟩
    · intro other
      obtain ⟨safe, part⟩ := body.mpr other
      exact ⟨⟨size, fields, safe⟩, part⟩

/-- A padded DATA frame of length zero at the end of a region. -/
theorem decode_unsafe :
    ¬ ((∀ a ∈ accesses {} [0, 0, 0, 0, 8, 0, 0, 0, 1], a.Safe 9) ∧
      ∀ f, decode {} [0, 0, 0, 0, 8, 0, 0, 0, 1] = .accepted f →
        f.payload <:+: (([0, 0, 0, 0, 8, 0, 0, 0, 1] : Bytes).drop 9).take (bigEndian24 0 0 0)) := by
  rintro ⟨safe, -⟩
  have behind : Access.read 9 ∈ accesses {} [0, 0, 0, 0, 8, 0, 0, 0, 1] := by decide
  exact absurd (safe _ behind) (Nat.lt_irrefl 9)

end Http2Server.Frame
