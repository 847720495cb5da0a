import Http2Server.FrameLayout

/-!
# Frames that were not sent

`toFrames` pushes a frame for every place it comes to, also where `decode` fails.
`toFrames_taken_iff` says when all it pushes are frames that `decode` took.
-/

namespace Http2Server.Frame

/-- A whole frame at the front: its length is there, and leaves room for data as
long as what stands before them. -/
def whole : Bytes → Bool
  | b0 :: b1 :: b2 :: type :: flags :: _ :: _ :: _ :: _ :: p =>
    let f : Frame := { type, flags }
    bigEndian24 b0 b1 b2 ≤ p.length && 2 * f.headerLength + f.padLength p ≤ bigEndian24 b0 b1 b2
  | _ => false

theorem whole_short {bytes : Bytes} (few : bytes.length < 9) : whole bytes = false := by
  unfold whole
  split
  · simp only [List.length_cons] at few
    omega
  · rfl

theorem whole_of_emptyPadded {bytes : Bytes} (empty : emptyPadded bytes = true) :
    whole bytes = false := by
  unfold emptyPadded at empty
  split at empty
  · next b0 b1 b2 type flags b5 b6 b7 b8 p =>
    rw [Bool.and_eq_true, beq_iff_eq] at empty
    obtain ⟨zero, padded⟩ := empty
    have header : 1 ≤ headerLength { type, flags } := by
      rw [headerLength, padField, padded]
      exact Nat.le_add_right 1 _
    simp only [whole, zero, Bool.and_eq_false_iff, decide_eq_false_iff_not]
    exact .inr (by omega)
  · cases empty

/-- What `decode` makes of a frame object, from a whole frame. -/
def overwrite (g : Frame) : Bytes → Frame
  | b0 :: b1 :: b2 :: type :: flags :: b5 :: b6 :: b7 :: b8 :: p =>
    stripped { g with type, flags, sid := bigEndian31 b5 b6 b7 b8 } p (bigEndian24 b0 b1 b2)
  | _ => g

section
variable (g : Frame) {bytes : Bytes}

/-! Whatever the frame object held, a whole frame is taken, and one that is neither
whole nor empty and padded is refused. -/

theorem decode_whole (first : whole bytes = true) :
    decode g bytes = .accepted (g.overwrite bytes) := by
  rcases header_cases bytes with few | ⟨b0, b1, b2, type, flags, b5, b6, b7, b8, p, rfl⟩
  · rw [whole_short few] at first
    cases first
  · simp only [whole, Bool.and_eq_true, decide_eq_true_eq] at first
    rw [decode_filled g first.1]
    exact decodeBody_accepts first.1 (bigEndian24_lt b0 b1 b2) first.2

theorem decode_not_whole (first : whole bytes = false) (filled : emptyPadded bytes = false) :
    ∃ f, decode g bytes = .rejected f := by
  rcases header_cases bytes with few | ⟨b0, b1, b2, type, flags, b5, b6, b7, b8, p, rfl⟩
  · exact ⟨g, decode_short g few⟩
  have size := bigEndian24_lt b0 b1 b2
  simp only [whole, Bool.and_eq_false_iff, decide_eq_false_iff_not] at first
  simp only [emptyPadded, Bool.and_eq_false_iff, beq_eq_false_iff_ne] at filled
  rcases Nat.lt_or_ge p.length (bigEndian24 b0 b1 b2) with cut | inside
  · exact ⟨g, decode_truncated g cut⟩
  · rw [decode_filled g inside]
    apply decodeBody_rejects size
    · intro padded
      rcases filled with some | unpadded
      · exact Nat.pos_of_ne_zero some
      · cases unpadded.symm.trans padded
    · rcases first with outside | cramped
      · exact absurd inside outside
      · exact Nat.lt_of_not_le cramped

end

/-- A region is no longer than a difference of two pointers can say. -/
theorem decode_accepted_iff {bytes : Bytes} (short : bytes.length < 2 ^ 63) :
    (∃ f, decode {} bytes = .accepted f) ↔ whole bytes = true := by
  cases first : whole bytes with
  | true => exact iff_of_true ⟨_, decode_whole {} first⟩ rfl
  | false =>
    cases empty : emptyPadded bytes with
    | true =>
      rw [(decode_threw_iff {} short).mpr empty]
      simp
    | false =>
      obtain ⟨f, refused⟩ := decode_not_whole {} first empty
      rw [refused]
      simp

/-- Where the next frame is looked for. -/
def next (bytes : Bytes) : Bytes :=
  bytes.drop (9 + bigEndian24 (bytes.getD 0 0) (bytes.getD 1 0) (bytes.getD 2 0))

theorem length_next {bytes : Bytes} (some : bytes ≠ []) : (next bytes).length < bytes.length :=
  length_drop_frame some _

/-- The frames that `decode` takes at the places of a region, in order. -/
inductive Taken : Bytes → List Frame → Prop
  | nil : Taken [] []
  | taken {bytes : Bytes} {f : Frame} {fs : List Frame} (accepted : decode {} bytes = .accepted f)
      (rest : Taken (next bytes) fs) : Taken bytes (f :: fs)
  | skipped {bytes : Bytes} {fs : List Frame} (some : bytes ≠ [])
      (refused : ∀ f, decode {} bytes ≠ .accepted f) (rest : Taken (next bytes) fs) :
      Taken bytes fs

/-- All frames that are handed on were taken. -/
def OnlyTaken (bytes : Bytes) : Prop := ∀ frames, toFrames bytes = some frames → Taken bytes frames

/-- A frame is pushed for every place that is not empty. -/
theorem toFrames_pushes {bytes : Bytes} (some : bytes ≠ []) {frames : List Frame}
    (cut : toFrames bytes = .some frames) : ∃ f fs, frames = f :: fs ∧
      (decode {} bytes).frame = .some f ∧ toFrames (next bytes) = .some fs := by
  rw [toFrames_step some] at cut
  obtain ⟨f, decoded, cut⟩ := Option.bind_eq_some_iff.mp cut
  obtain ⟨fs, tail, rfl⟩ := Option.map_eq_some_iff.mp cut
  exact ⟨f, fs, rfl, decoded, tail⟩

theorem decode_nil : decode {} [] = .rejected {} := rfl

/-- No more frames are taken than are pushed. -/
theorem Taken.length_le {bytes : Bytes} {taken : List Frame} (h : Taken bytes taken) :
    ∀ {frames : List Frame}, toFrames bytes = some frames → taken.length ≤ frames.length := by
  induction h with
  | nil => exact fun _ => Nat.zero_le _
  | @taken bytes f fs accepted rest ih =>
    intro frames cut
    have some : bytes ≠ [] := by
      rintro rfl
      rw [decode_nil] at accepted
      cases accepted
    obtain ⟨g, gs, rfl, -, tail⟩ := toFrames_pushes some cut
    exact Nat.succ_le_succ (ih tail)
  | skipped some refused rest ih =>
    intro frames cut
    obtain ⟨g, gs, rfl, -, tail⟩ := toFrames_pushes some cut
    exact Nat.le_succ_of_le (ih tail)

/-- An empty padded frame is come to, or whole frames only. -/
def Clean (bytes : Bytes) : Prop :=
  (∃ rest, Boundary bytes rest ∧ emptyPadded rest = true) ∨
    ∀ rest, Boundary bytes rest → rest ≠ [] → whole rest = true

theorem boundary_iff {bytes rest : Bytes} (some : bytes ≠ []) :
    Boundary bytes rest ↔ rest = bytes ∨ Boundary (next bytes) rest := by
  constructor
  · intro boundary
    cases boundary with
    | here => exact .inl rfl
    | next _ later => exact .inr later
  · rintro (rfl | later)
    · exact .here _
    · exact .next some later

/-- Past a whole frame nothing changes. -/
theorem clean_of_whole {bytes : Bytes} (some : bytes ≠ []) (first : whole bytes = true) :
    Clean bytes ↔ Clean (next bytes) := by
  have filled : emptyPadded bytes = false := by
    by_contra empty
    cases first.symm.trans (whole_of_emptyPadded (Bool.not_eq_false _ ▸ empty))
  simp only [Clean, boundary_iff some, or_and_right, exists_or, exists_eq_left, filled,
    Bool.false_eq_true, false_or, forall_eq_or_imp, first, implies_true, true_and]

/-- Past any other, no more than an empty padded frame can help. -/
theorem clean_of_not_whole {bytes : Bytes} (some : bytes ≠ []) (first : whole bytes = false)
    (filled : emptyPadded bytes = false) :
    Clean bytes ↔ ∃ rest, Boundary (next bytes) rest ∧ emptyPadded rest = true := by
  simp only [Clean, boundary_iff some, or_and_right, exists_or, exists_eq_left, filled,
    Bool.false_eq_true, false_or, forall_eq_or_imp, first, imp_false, not_true_eq_false,
    false_and, or_false, ne_eq, some, not_false_eq_true]

theorem onlyTaken_of_accepted {bytes : Bytes} {f : Frame}
    (accepted : decode {} bytes = .accepted f) :
    OnlyTaken bytes ↔ OnlyTaken (next bytes) := by
  have some : bytes ≠ [] := by
    rintro rfl
    rw [decode_nil] at accepted
    cases accepted
  constructor
  · intro only frames cut
    have pushed : toFrames bytes = .some (f :: frames) := by
      rw [toFrames_step some, accepted]
      exact congrArg (Option.map (f :: ·)) cut
    cases only _ pushed with
    | taken _ rest => exact rest
    | skipped _ refused rest => exact absurd accepted (refused f)
  · intro only frames cut
    obtain ⟨g, gs, rfl, decoded, tail⟩ := toFrames_pushes some cut
    rw [accepted] at decoded
    cases decoded
    exact .taken accepted (only gs tail)

theorem onlyTaken_of_rejected {bytes : Bytes} {f : Frame} (some : bytes ≠ [])
    (rejected : decode {} bytes = .rejected f) :
    OnlyTaken bytes ↔ toFrames (next bytes) = none := by
  have refused (g : Frame) : decode {} bytes ≠ .accepted g := by
    rw [rejected]
    exact nofun
  constructor
  · intro only
    cases cut : toFrames (next bytes) with
    | none => rfl
    | some fs =>
      have pushed : toFrames bytes = .some (f :: fs) := by
        rw [toFrames_step some, rejected]
        exact congrArg (Option.map (f :: ·)) cut
      -- one frame more is pushed than can have been taken
      cases only _ pushed with
      | taken accepted _ => exact absurd accepted (refused f)
      | skipped _ _ rest => exact absurd (rest.length_le cut) (Nat.not_succ_le_self _)
  · intro threw frames cut
    obtain ⟨g, gs, rfl, -, tail⟩ := toFrames_pushes some cut
    cases threw.symm.trans tail

/-- **Frames taken.** What is handed on is what was taken exactly if every frame is
whole, or an empty padded one has `toFrames` throw. -/
theorem toFrames_taken_iff {bytes : Bytes} (short : bytes.length < 2 ^ 63) :
    OnlyTaken bytes ↔ Clean bytes := by
  generalize hn : bytes.length = n
  induction n using Nat.strongRecOn generalizing bytes with
  | ind n ih =>
    by_cases some : bytes ≠ []
    · have less := Nat.lt_trans (length_next some) short
      have accepts := decode_accepted_iff short
      have threw := decode_threw_iff {} short
      cases decoded : decode {} bytes with
      | threw =>
        refine iff_of_true (fun frames cut => ?_) (.inl ⟨bytes, .here bytes, threw.mp decoded⟩)
        obtain ⟨f, fs, -, pushed, -⟩ := toFrames_pushes some cut
        rw [decoded] at pushed
        cases pushed
      | accepted f =>
        have first := accepts.mp ⟨f, decoded⟩
        rw [onlyTaken_of_accepted decoded, clean_of_whole some first]
        exact ih _ (hn ▸ length_next some) less rfl
      | rejected f =>
        have first : whole bytes = false := by
          by_contra first
          obtain ⟨g, accepted⟩ := accepts.mpr (Bool.not_eq_false _ ▸ first)
          cases decoded.symm.trans accepted
        have filled : emptyPadded bytes = false := by
          by_contra empty
          cases decoded.symm.trans (threw.mpr (Bool.not_eq_false _ ▸ empty))
        rw [onlyTaken_of_rejected some decoded, clean_of_not_whole some first filled]
        exact toFrames_none_iff less
    · obtain rfl := not_not.mp some
      refine iff_of_true ?_ (.inr ?_)
      · intro frames cut
        cases cut
        exact .nil
      · intro rest boundary some
        cases boundary with
        | here => exact absurd rfl some
        | next other => exact absurd rfl other

/-- An empty SETTINGS frame. -/
theorem onlyTaken_settings : OnlyTaken [0, 0, 0, 4, 0, 0, 0, 0, 0] := by
  refine (toFrames_taken_iff (by decide)).mpr (.inr fun rest boundary some => ?_)
  rw [boundary_iff (by decide), show next [0, 0, 0, 4, 0, 0, 0, 0, 0] = [] by decide] at boundary
  rcases boundary with rfl | later
  · decide
  · cases later with
    | here => exact absurd rfl some
    | next other => exact absurd rfl other

/-- A GOAWAY frame that is cut behind its header is handed on as a PING frame. -/
theorem not_onlyTaken_cut : ¬ OnlyTaken [0, 0, 8, 7, 0, 0, 0, 0, 0] := by
  intro only
  have cut : toFrames [0, 0, 8, 7, 0, 0, 0, 0, 0] = some [{}] := by decide
  cases only _ cut with
  | taken accepted _ =>
    rw [show decode {} [0, 0, 8, 7, 0, 0, 0, 0, 0] = .rejected {} by decide] at accepted
    cases accepted
  | skipped _ _ rest =>
    rw [show next [0, 0, 8, 7, 0, 0, 0, 0, 0] = [] by decide] at rest
    cases rest with
    | taken accepted _ =>
      rw [decode_nil] at accepted
      cases accepted
    | skipped some _ _ => exact some rfl

end Http2Server.Frame
