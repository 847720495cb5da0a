import Http2Server.Frame

/-!
# Decoding any bytes

What `decode` and `toFrames` do whatever they are given.

- `length_toFrames`: a payload is part of the bytes.
- `toFrames_none_iff`: the one kind of frame that has them throw.
-/

namespace Http2Server.Frame

/-! ## The size of a payload -/

theorem length_stripPadding {f : Frame} {b b' : Body} (h : f.stripPadding b = some b') :
    b'.p.length ≤ b.p.length := by
  unfold stripPadding at h
  split at h
  · dsimp only at h
    split at h
    · cases h
    · obtain rfl := Option.some.inj h
      rw [List.length_tail]
      omega
  · obtain rfl := Option.some.inj h
    exact Nat.le_refl _

/-- The priority block moves on by five bytes; the payload is not set yet. -/
theorem stripPriority_spec (f : Frame) (b : Body) :
    (f.stripPriority b).1.payload = f.payload ∧
      ∀ b' ∈ (f.stripPriority b).2, b'.p.length ≤ b.p.length := by
  unfold stripPriority
  split
  · split
    · exact ⟨rfl, by simp⟩
    · dsimp only
      split
      · exact ⟨rfl, by simp⟩
      · refine ⟨rfl, ?_⟩
        intro b' hb
        obtain rfl := Option.some.inj hb
        rw [List.length_drop]
        omega
  · refine ⟨rfl, ?_⟩
    intro b' hb
    obtain rfl := Option.some.inj hb
    exact Nat.le_refl _

/-- The frame of a decoding that did not throw. -/
def Decode.frame : Decode → Option Frame
  | accepted f => some f
  | rejected f => some f
  | threw => none

theorem length_decodeBody {f g : Frame} {b : Body} (empty : g.payload = [])
    (h : f ∈ (decodeBody g b).frame) : f.payload.length ≤ b.p.length := by
  unfold decodeBody at h
  split at h
  · obtain rfl := Option.some.inj h
    simp [empty]
  · next b' stripped =>
    have padding := length_stripPadding stripped
    have priority := stripPriority_spec g b'
    split at h
    · next f' failed =>
      obtain rfl := Option.some.inj h
      rw [failed] at priority
      rw [show f'.payload = [] from priority.1.trans empty]
      exact Nat.zero_le _
    · next f' b'' found =>
      rw [found] at priority
      split at h
      · obtain rfl := Option.some.inj h
        rw [show f'.payload = [] from priority.1.trans empty]
        exact Nat.zero_le _
      · split at h
        · cases h
        · obtain rfl := Option.some.inj h
          have shorter := priority.2 b'' rfl
          simp only [List.length_take]
          omega

/-- A payload is part of the bytes that are decoded. -/
theorem length_decode {bytes : Bytes} {f : Frame} (h : f ∈ (decode {} bytes).frame) :
    f.payload.length ≤ bytes.length := by
  rcases header_cases bytes with few | ⟨b0, b1, b2, type, flags, b5, b6, b7, b8, p, rfl⟩
  · rw [decode_short {} few] at h
    obtain rfl := Option.some.inj h
    exact Nat.zero_le _
  · rcases Nat.lt_or_ge p.length (bigEndian24 b0 b1 b2) with cut | inside
    · rw [decode_truncated {} cut] at h
      obtain rfl := Option.some.inj h
      exact Nat.zero_le _
    · rw [decode_filled {} inside] at h
      have body := length_decodeBody rfl h
      simp only [List.length_cons] at body ⊢
      omega

theorem toFrames_step {bytes : Bytes} (h : bytes ≠ []) :
    toFrames bytes = (decode {} bytes).frame.bind fun f =>
      (toFrames (bytes.drop (9 + bigEndian24 (bytes.getD 0 0) (bytes.getD 1 0)
        (bytes.getD 2 0)))).map (f :: ·) := by
  rw [toFrames_cons h]
  cases decode {} bytes <;> rfl

theorem length_toFrames {bytes : Bytes} {fs : List Frame} (h : toFrames bytes = some fs) :
    ∀ f ∈ fs, f.payload.length ≤ bytes.length := by
  generalize hn : bytes.length = n
  induction n using Nat.strongRecOn generalizing bytes fs with
  | ind n ih =>
    cases bytes with
    | nil =>
      obtain rfl := Option.some.inj h
      exact fun f hf => absurd hf List.not_mem_nil
    | cons b rest =>
      rw [toFrames_step (List.cons_ne_nil b rest)] at h
      obtain ⟨f, decoded, h⟩ := Option.bind_eq_some_iff.mp h
      obtain ⟨gs, tail, rfl⟩ := Option.map_eq_some_iff.mp h
      have shorter := hn ▸ length_drop_frame (List.cons_ne_nil b rest)
        (bigEndian24 ((b :: rest).getD 0 0) ((b :: rest).getD 1 0) ((b :: rest).getD 2 0))
      rw [List.forall_mem_cons]
      constructor
      · exact hn ▸ length_decode decoded
      · intro g hg
        exact (ih _ shorter tail rfl g hg).trans (Nat.le_of_lt shorter)

/-- What decoding gives its frames, all frames of a region have. -/
theorem toFrames_all {P : Frame → Prop} (each : ∀ bytes, ∀ f ∈ (decode {} bytes).frame, P f)
    {bytes : Bytes} {fs : List Frame} (h : toFrames bytes = some fs) : ∀ f ∈ fs, P f := by
  generalize hn : bytes.length = n
  induction n using Nat.strongRecOn generalizing bytes fs with
  | ind n ih =>
    cases bytes with
    | nil =>
      obtain rfl := Option.some.inj h
      exact fun f hf => absurd hf List.not_mem_nil
    | cons b rest =>
      rw [toFrames_step (List.cons_ne_nil b rest)] at h
      obtain ⟨f, decoded, h⟩ := Option.bind_eq_some_iff.mp h
      obtain ⟨gs, tail, rfl⟩ := Option.map_eq_some_iff.mp h
      have shorter := hn ▸ length_drop_frame (List.cons_ne_nil b rest)
        (bigEndian24 ((b :: rest).getD 0 0) ((b :: rest).getD 1 0) ((b :: rest).getD 2 0))
      rw [List.forall_mem_cons]
      exact ⟨each _ f decoded, ih _ shorter tail rfl⟩

/-! ## Priority blocks -/

/-- A block is read from the types that carry it, and the type stays. -/
theorem stripPriority_reads (f : Frame) (b : Body) :
    (f.stripPriority b).1.type = f.type ∧
      ((f.stripPriority b).1.hasPriority = true → f.hasPriority = true ∨ f.carriesPriority = true) := by
  unfold stripPriority
  split
  · next carries =>
    split
    · exact ⟨rfl, .inl⟩
    · dsimp only
      split <;> exact ⟨rfl, fun _ => .inr carries⟩
  · exact ⟨rfl, .inl⟩

/-- A frame's block has not been read. -/
def Unread (f : Frame) : Prop :=
  f.type = FrameType.priority.code → f.hasPriority = false

theorem decodeBody_unread {f g : Frame} {b : Body} (unread : g.hasPriority = false)
    (h : f ∈ (decodeBody g b).frame) : f.Unread := by
  have read (b : Body) : (g.stripPriority b).1.Unread := by
    obtain ⟨type, reads⟩ := stripPriority_reads g b
    intro priority
    by_contra some
    rcases reads (Bool.eq_true_of_not_eq_false some) with before | carries
    · cases unread.symm.trans before
    · rw [type] at priority
      simp [carriesPriority, priority, FrameType.code] at carries
  unfold decodeBody at h
  split at h
  · obtain rfl := Option.some.inj h
    exact fun _ => unread
  · next b' _ =>
    specialize read b'
    split at h
    · next f' failed =>
      obtain rfl := Option.some.inj h
      rwa [failed] at read
    · next f' b'' found =>
      rw [found] at read
      split at h
      · obtain rfl := Option.some.inj h
        exact read
      · split at h
        · cases h
        · obtain rfl := Option.some.inj h
          exact read

theorem decode_unread {bytes : Bytes} {f : Frame} (h : f ∈ (decode {} bytes).frame) :
    f.Unread := by
  have default : Unread {} := fun _ => rfl
  rcases header_cases bytes with few | ⟨b0, b1, b2, type, flags, b5, b6, b7, b8, p, rfl⟩
  · rw [decode_short {} few] at h
    obtain rfl := Option.some.inj h
    exact default
  · rcases Nat.lt_or_ge p.length (bigEndian24 b0 b1 b2) with cut | inside
    · rw [decode_truncated {} cut] at h
      obtain rfl := Option.some.inj h
      exact default
    · rw [decode_filled {} inside] at h
      exact decodeBody_unread rfl h

/-! ## Where decoding throws -/

/-- A padded frame without payload at the front: its pad length is read from
behind it. -/
def emptyPadded : Bytes → Bool
  | b0 :: b1 :: b2 :: type :: flags :: _ :: _ :: _ :: _ :: _ =>
    bigEndian24 b0 b1 b2 == 0 && isPadded { type, flags }
  | _ => false

theorem emptyPadded_short {bytes : Bytes} (few : bytes.length < 9) :
    emptyPadded bytes = false := by
  unfold emptyPadded
  split
  · simp only [List.length_cons] at few
    omega
  · rfl

theorem stripPriority_cases (f : Frame) (b : Body) :
    (f.stripPriority b).2 = none ∧ b.payloadSize < 5 + b.headerStart ∨
      (f.stripPriority b).2 = some b ∨
      5 + b.headerStart ≤ b.payloadSize ∧ (f.stripPriority b).2 =
        some ⟨b.p.drop 5, sizeSub b.payloadSize 5, b.headerStart + 5⟩ := by
  unfold stripPriority
  split
  · split
    · next short => exact .inl ⟨rfl, short⟩
    · next room =>
      dsimp only
      rw [if_neg]
      · exact .inr (.inr ⟨Nat.le_of_not_lt room, rfl⟩)
      · have byte := (b.p.getD 4 0).toNat_lt
        simp only [Bool.or_eq_true, decide_eq_true_eq]
        omega
  · exact .inr (.inl rfl)

theorem decodeBody_threw (f : Frame) (b : Body) :
    decodeBody f b = .threw ↔ ∃ b', f.stripPadding b = some b' ∧
      ∃ b'', (f.stripPriority b').2 = some b'' ∧ b''.headerStart ≤ b''.payloadSize ∧
        b''.p.length < b''.payloadSize := by
  unfold decodeBody
  cases f.stripPadding b with
  | none => simp
  | some b' =>
    simp only [Option.some.injEq, exists_eq_left']
    rcases f.stripPriority b' with ⟨f', _ | b''⟩
    · simp
    · dsimp only
      by_cases start : b''.payloadSize < b''.headerStart
      · simp [start]
      · by_cases large : b''.payloadSize > b''.p.length <;> simp [start, large]
        omega

/-- Sizes that do not go beyond the bytes there are never throw. -/
theorem decodeBody_fits {f : Frame} {b b' : Body} (padding : f.stripPadding b = some b')
    (fits : b'.payloadSize ≤ b'.p.length) (short : b'.p.length < 2 ^ 63) :
    decodeBody f b ≠ .threw := by
  rw [Ne, decodeBody_threw]
  rintro ⟨_, stripped, b'', found, start, large⟩
  rw [padding] at stripped
  obtain rfl := Option.some.inj stripped
  obtain ⟨none, _⟩ | same | ⟨room, moved⟩ := stripPriority_cases f b'
  · rw [none] at found
    cases found
  · rw [same] at found
    obtain rfl := Option.some.inj found
    omega
  · rw [moved] at found
    obtain rfl := Option.some.inj found
    simp only [List.length_drop, sizeSub_of_le (show 5 ≤ b'.payloadSize by omega)
      (show b'.payloadSize < 2 ^ 64 by omega)] at large
    omega

/-- A size that has wrapped does. -/
theorem decodeBody_wrapped {f : Frame} {b b' : Body} (padding : f.stripPadding b = some b')
    (wrapped : 2 ^ 63 ≤ b'.payloadSize) (range : b'.payloadSize < 2 ^ 64)
    (start : b'.headerStart < 2 ^ 32) (short : b'.p.length < 2 ^ 63) :
    decodeBody f b = .threw := by
  rw [decodeBody_threw]
  refine ⟨b', padding, ?_⟩
  obtain ⟨_, failed⟩ | same | ⟨room, moved⟩ := stripPriority_cases f b'
  · omega
  · exact ⟨b', same, by omega, by omega⟩
  · refine ⟨_, moved, ?_, ?_⟩ <;>
      simp only [List.length_drop, sizeSub_of_le (show 5 ≤ b'.payloadSize by omega) range] <;>
      omega

theorem decodeBody_threw_iff (f : Frame) {p : Bytes} {size : Nat} (inside : size ≤ p.length)
    (short : p.length < 2 ^ 63) :
    decodeBody f ⟨p, size, 0⟩ = .threw ↔ size = 0 ∧ f.isPadded = true := by
  by_cases padded : f.isPadded = true
  · have byte := (p.headD 0).toNat_lt
    have tail : p.tail.length = p.length - 1 := List.length_tail
    cases size with
    | zero =>
      have stripped : f.stripPadding ⟨p, 0, 0⟩ =
          some ⟨p.tail, sizeSub 0 ((p.headD 0).toNat + 1), 1⟩ := by
        simp only [stripPadding, padded, ↓reduceIte]
        rw [if_neg]
        simp only [sizeSub, wrap64]
        omega
      refine iff_of_true
        (decodeBody_wrapped stripped ?_ ?_ (show 1 < 2 ^ 32 by decide) ?_) ⟨rfl, padded⟩
      · simp only [sizeSub, wrap64]
        omega
      · exact Nat.mod_lt _ (by decide)
      · dsimp only
        omega
    | succ size =>
      refine iff_of_false ?_ fun both => absurd both.1 (Nat.succ_ne_zero size)
      have left : sizeSub (size + 1) 1 = size := by
        rw [sizeSub_of_le (by omega) (by omega)]
        omega
      by_cases long : (p.headD 0).toNat > size
      · have none : f.stripPadding ⟨p, size + 1, 0⟩ = none := by
          simp only [stripPadding, padded, ↓reduceIte, left, if_pos long]
        rw [decodeBody_threw, none]
        simp
      · have stripped : f.stripPadding ⟨p, size + 1, 0⟩ =
            some ⟨p.tail, size - (p.headD 0).toNat, 1⟩ := by
          simp only [stripPadding, padded, ↓reduceIte, left, if_neg long,
            sizeSub_of_le (show (p.headD 0).toNat + 1 ≤ size + 1 by omega)
              (show size + 1 < 2 ^ 64 by omega), Nat.add_sub_add_right]
        apply decodeBody_fits stripped <;> dsimp only <;> omega
  · have stripped : f.stripPadding ⟨p, size, 0⟩ = some ⟨p, size, 0⟩ := if_neg padded
    exact iff_of_false (decodeBody_fits stripped inside short) fun both => padded both.2

/-- Decoding throws exactly on an empty padded frame, whatever the frame object held:
in every other frame the sizes are those of parts of it. -/
theorem decode_threw_iff (g : Frame) {bytes : Bytes} (short : bytes.length < 2 ^ 63) :
    decode g bytes = .threw ↔ emptyPadded bytes = true := by
  rcases header_cases bytes with few | ⟨b0, b1, b2, type, flags, b5, b6, b7, b8, p, rfl⟩
  · rw [decode_short g few, emptyPadded_short few]
    simp
  · simp only [List.length_cons] at short
    simp only [emptyPadded, Bool.and_eq_true, beq_iff_eq]
    rcases Nat.lt_or_ge p.length (bigEndian24 b0 b1 b2) with cut | inside
    · rw [decode_truncated g cut]
      refine iff_of_false (by simp) ?_
      rintro ⟨zero, _⟩
      omega
    · rw [decode_filled g inside]
      exact decodeBody_threw_iff _ inside (by omega)

/-- The frames of a buffer start at its beginning, and after the size that is
written in each. -/
inductive Boundary : Bytes → Bytes → Prop
  | here (bytes : Bytes) : Boundary bytes bytes
  | next {bytes rest : Bytes} (some : bytes ≠ [])
      (later : Boundary (bytes.drop (9 + bigEndian24 (bytes.getD 0 0) (bytes.getD 1 0)
        (bytes.getD 2 0))) rest) : Boundary bytes rest

/-- Cutting a buffer into frames throws exactly if it comes to an empty padded
frame. -/
theorem toFrames_none_iff {bytes : Bytes} (short : bytes.length < 2 ^ 63) :
    toFrames bytes = none ↔ ∃ rest, Boundary bytes rest ∧ emptyPadded rest = true := by
  generalize hn : bytes.length = n
  induction n using Nat.strongRecOn generalizing bytes with
  | ind n ih =>
    cases bytes with
    | nil =>
      refine iff_of_false (by simp) ?_
      rintro ⟨rest, boundary, empty⟩
      cases boundary with
      | here => cases empty
      | next some => exact some rfl
    | cons b tail =>
      have shorter := hn ▸ length_drop_frame (List.cons_ne_nil b tail)
        (bigEndian24 ((b :: tail).getD 0 0) ((b :: tail).getD 1 0) ((b :: tail).getD 2 0))
      have later := ih _ shorter (by omega) rfl
      rw [toFrames_step (List.cons_ne_nil b tail)]
      have first := decode_threw_iff {} short
      by_cases empty : emptyPadded (b :: tail) = true
      · rw [first.mpr empty]
        exact iff_of_true rfl ⟨_, .here _, empty⟩
      · obtain ⟨f, decoded⟩ : ∃ f, (decode {} (b :: tail)).frame = some f := by
          cases found : decode {} (b :: tail) with
          | threw => exact absurd (first.mp found) empty
          | accepted f => exact ⟨f, rfl⟩
          | rejected f => exact ⟨f, rfl⟩
        rw [decoded, Option.bind_some, Option.map_eq_none_iff, later]
        constructor
        · rintro ⟨rest, boundary, found⟩
          exact ⟨rest, .next (List.cons_ne_nil b tail) boundary, found⟩
        · rintro ⟨rest, boundary, found⟩
          cases boundary with
          | here => exact absurd found empty
          | next _ boundary => exact ⟨rest, boundary, found⟩

end Http2Server.Frame
