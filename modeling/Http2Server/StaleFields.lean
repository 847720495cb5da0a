import Http2Server.WholeFrames

/-!
# Frames decoded into used objects

`decode` sets the type, the flags, the stream id and the payload of every frame it
takes, and the fields of the priority block only from a block. `forgets_iff` says when
nothing of what the frame object held before is left.
-/

namespace Http2Server.Frame

/-- The fields of the priority block. -/
structure Priority where
  hasPriority : Bool
  streamDependency : Nat
  exclusive : Bool
  weight : Nat
  deriving DecidableEq, Repr

def priority (f : Frame) : Priority := ⟨f.hasPriority, f.streamDependency, f.exclusive, f.weight⟩

/-- A region that begins with the header of a frame with a priority block. -/
def prioritised : Bytes → Bool
  | _ :: _ :: _ :: type :: flags :: _ :: _ :: _ :: _ :: _ => carriesPriority { type, flags }
  | _ => false

/-- What `decode` returns; nothing for an exception. -/
def Decode.result : Decode → Option Bool
  | accepted _ => some true
  | rejected _ => some false
  | threw => none

/-- From two frame objects the same is decoded, and no field tells them apart after. -/
def Forgets (g h : Frame) (bytes : Bytes) : Prop :=
  (decode g bytes).result = (decode h bytes).result ∧
    ∀ f k, decode g bytes = .accepted f → decode h bytes = .accepted k → f = k

section
variable (g h : Frame) {bytes : Bytes}

/-- The result is that of the region. -/
theorem decode_result (short : bytes.length < 2 ^ 63) :
    (decode g bytes).result = (decode h bytes).result := by
  cases first : whole bytes with
  | true => rw [decode_whole g first, decode_whole h first, Decode.result, Decode.result]
  | false =>
    cases empty : emptyPadded bytes with
    | true => rw [(decode_threw_iff g short).mpr empty, (decode_threw_iff h short).mpr empty]
    | false =>
      obtain ⟨f, refused⟩ := decode_not_whole g first empty
      obtain ⟨k, refused'⟩ := decode_not_whole h first empty
      rw [refused, refused', Decode.result, Decode.result]

theorem stripped_inj {type flags : Byte} {sid size : Nat} {p : Bytes} :
    stripped { g with type, flags, sid } p size = stripped { h with type, flags, sid } p size ↔
      carriesPriority { type, flags } = true ∨ g.priority = h.priority := by
  have carries (f : Frame) : carriesPriority { f with type, flags, sid } =
      carriesPriority { type, flags } := rfl
  have header (f : Frame) : headerLength { f with type, flags, sid } =
      headerLength { type, flags } := rfl
  have field (f : Frame) : padField { f with type, flags, sid } = padField { type, flags } := rfl
  have padding (f : Frame) (p : Bytes) : padLength { f with type, flags, sid } p =
      padLength { type, flags } p := rfl
  cases block : carriesPriority { type, flags } with
  | true => simp only [stripped, withPriority, carries, header, field, padding, block, ↓reduceIte,
      true_or]
  | false =>
    simp only [stripped, withPriority, carries, header, padding, block, Bool.false_eq_true,
      ↓reduceIte, false_or, mk.injEq, true_and, priority, Priority.mk.injEq]

/-- The fields of the priority block stay, where there is none. -/
theorem overwrite_inj (first : whole bytes = true) :
    g.overwrite bytes = h.overwrite bytes ↔
      prioritised bytes = true ∨ g.priority = h.priority := by
  rcases header_cases bytes with few | ⟨b0, b1, b2, type, flags, b5, b6, b7, b8, p, rfl⟩
  · rw [whole_short few] at first
    cases first
  · exact stripped_inj g h

/-- **Used frame objects.** Decoding forgets what two frame objects held exactly if the
region has no whole frame, or one with a priority block, or they agree on the fields
of the block. -/
theorem forgets_iff (short : bytes.length < 2 ^ 63) :
    Forgets g h bytes ↔
      whole bytes = false ∨ prioritised bytes = true ∨ g.priority = h.priority := by
  rw [Forgets, and_iff_right (decode_result g h short)]
  cases first : whole bytes with
  | true =>
    rw [← overwrite_inj g h first, or_iff_right (by simp)]
    constructor
    · intro same
      exact same _ _ (decode_whole g first) (decode_whole h first)
    · intro same f k accepted accepted'
      cases accepted.symm.trans (decode_whole g first)
      cases accepted'.symm.trans (decode_whole h first)
      exact same
  | false =>
    refine iff_of_true ?_ (.inl rfl)
    intro f k accepted
    cases empty : emptyPadded bytes with
    | true => cases accepted.symm.trans ((decode_threw_iff g short).mpr empty)
    | false =>
      obtain ⟨j, refused⟩ := decode_not_whole g first empty
      cases accepted.symm.trans refused

end

/-- HEADERS with a priority block. -/
def prioritisedHeaders : Bytes := [0, 0, 10, 1, 0x20, 0, 0, 0, 1, 0, 0, 0, 3, 15, 1, 2, 3, 4, 5]

/-- What they are decoded to. -/
def usedFrame : Frame :=
  { type := FrameType.headers.code, flags := Flag.priority, sid := 1, payload := [1, 2, 3, 4, 5],
    hasPriority := true, streamDependency := 3, weight := 16 }

/-- An empty DATA frame, decoded into the same object, has their block. -/
theorem block_left :
    decode {} prioritisedHeaders = .accepted usedFrame ∧
      decode {} [0, 0, 0, 0, 0, 0, 0, 0, 1] = .accepted { type := 0, sid := 1 } ∧
      decode usedFrame [0, 0, 0, 0, 0, 0, 0, 0, 1] = .accepted
        { type := 0, sid := 1, hasPriority := true, streamDependency := 3, weight := 16 } ∧
      ¬ Forgets {} usedFrame [0, 0, 0, 0, 0, 0, 0, 0, 1] := by
  have fresh : decode {} [0, 0, 0, 0, 0, 0, 0, 0, 1] = .accepted { type := 0, sid := 1 } := by
    decide
  have used : decode usedFrame [0, 0, 0, 0, 0, 0, 0, 0, 1] = .accepted
      { type := 0, sid := 1, hasPriority := true, streamDependency := 3, weight := 16 } := by
    decide
  refine ⟨by decide, fresh, used, ?_⟩
  intro forgets
  exact absurd (forgets.2 _ _ fresh used) (by decide)

/-- The other way round nothing is left. -/
theorem forgets_iff_headers : Forgets { hasPriority := true, weight := 7 } {} prioritisedHeaders :=
  (forgets_iff _ _ (by decide)).mpr (.inr (.inl (by decide)))

end Http2Server.Frame
