import Http2Server.Settings

/-!
# A SETTINGS payload as a whole

`Settings::decode` stops in the middle of a payload at an entry it does not take.
Read as a list of entries, the payload is taken when there is no such entry and
nothing is left over.

- `decode_error`: the code it returns.
- `decode_payload`: the code and the parameters.
-/

namespace Http2Server

namespace Settings

/-- The values that an entry may have, by its id. -/
def Acceptable (e : Nat × Nat) : Prop :=
  (e.1 = 2 → e.2 = 0 ∨ e.2 = 1) ∧ (e.1 = 4 → e.2 ≤ 2 ^ 31 - 1) ∧
    (e.1 = 5 → 16384 ≤ e.2 ∧ e.2 ≤ 16777215)

instance (e : Nat × Nat) : Decidable (Acceptable e) := inferInstanceAs (Decidable (_ ∧ _ ∧ _))

/-- The error that an entry is refused with. -/
def offence (e : Nat × Nat) : Option ErrorCode :=
  if Acceptable e then none
  else if e.1 = 4 then some .flowControlError
  else some .protocolError

theorem offence_eq_none_iff {e : Nat × Nat} : offence e = none ↔ Acceptable e := by
  unfold offence
  split
  · next taken => exact iff_of_true rfl taken
  · next refused => split <;> exact iff_of_false (by simp) refused

theorem offence_ne_noError {e : Nat × Nat} {error : ErrorCode} (h : offence e = some error) :
    error ≠ .noError := by
  unfold offence at h
  rintro rfl
  split at h
  · cases h
  · split at h <;> cases h

/-! ## One entry -/

theorem acceptable_code {p : SettingsType} {value : Nat} :
    Acceptable (p.code, value) ↔ p.Allowed value := by
  cases p with
  | enablePush =>
    simp only [Acceptable, SettingsType.code, SettingsType.Allowed, true_implies]
    omega
  | _ => simp [Acceptable, SettingsType.code, SettingsType.Allowed]

theorem acceptable_unknown {type : Nat} (value : Nat)
    (unknown : ∀ p : SettingsType, type ≠ p.code) : Acceptable (type, value) :=
  ⟨fun is => absurd is (unknown .enablePush), fun is => absurd is (unknown .initialWindowSize),
    fun is => absurd is (unknown .maxFrameSize)⟩

/-- The code of a value that is refused is that of its entry. -/
theorem apply_offence {s : Settings} {p : SettingsType} {value : Nat}
    (refused : ¬ p.Allowed value) :
    some (s.apply p.code value).1 = offence (p.code, value) := by
  rw [apply_refused s refused, offence, if_neg (mt acceptable_code.mp refused)]
  cases p <;> rfl

/-- **An entry.** The code that the `switch` returns for it. -/
theorem apply_error (s : Settings) (type value : Nat) :
    (s.apply type value).1 = (offence (type, value)).getD .noError := by
  by_cases known : ∃ p : SettingsType, type = p.code
  · obtain ⟨p, rfl⟩ := known
    by_cases allowed : p.Allowed value
    · rw [apply_allowed s allowed, offence_eq_none_iff.mpr (acceptable_code.mpr allowed)]
      rfl
    · rw [← apply_offence allowed]
      rfl
  · have unknown := not_exists.mp known
    rw [apply_unknown s value unknown, offence_eq_none_iff.mpr (acceptable_unknown value unknown)]
    rfl

theorem apply_dirty (s : Settings) (type value : Nat) :
    (s.apply type value).2.dirty = s.dirty := by
  unfold apply
  split <;> first | rfl | (split <;> rfl)

/-! ## A payload -/

/-- Fewer than six bytes are left. -/
theorem short_tail {payload : Bytes} (some : payload ≠ [])
    (short : ∀ p0 p1 p2 p3 p4 p5 rest, payload ≠ p0 :: p1 :: p2 :: p3 :: p4 :: p5 :: rest) :
    entries payload = [] ∧ payload.length % 6 ≠ 0 := by
  rcases payload with _ | ⟨a, _ | ⟨b, _ | ⟨c, _ | ⟨d, _ | ⟨e, _ | ⟨f, rest⟩⟩⟩⟩⟩⟩
  · exact absurd rfl some
  · exact ⟨rfl, by simp⟩
  · exact ⟨rfl, by simp⟩
  · exact ⟨rfl, by simp⟩
  · exact ⟨rfl, by simp⟩
  · exact ⟨rfl, by simp⟩
  · exact absurd rfl (short a b c d e f rest)

/-- **The code.** That of the first entry refused, or else what is left decides. -/
theorem decode_error (s : Settings) (payload : Bytes) :
    (s.decode payload).1 = ((entries payload).findSome? offence).getD
      (if payload.length % 6 = 0 then .noError else .frameSizeError) := by
  fun_induction decode s payload with
  | case1 s => rfl
  | case2 s p0 p1 p2 p3 p4 p5 rest type value s1 applied ih =>
    have taken := apply_error s type value
    rw [applied] at taken
    have none : offence (type, value) = none := by
      cases h : offence (type, value) with
      | none => rfl
      | some error =>
        rw [h] at taken
        exact absurd taken.symm (offence_ne_noError h)
    rw [ih, entries, List.findSome?_cons, none]
    simp only [List.length_cons, Nat.add_assoc, Nat.reduceAdd, Nat.add_mod_right]
  | case3 s p0 p1 p2 p3 p4 p5 rest type value e s1 other applied =>
    have refused := apply_error s type value
    rw [applied] at refused
    cases h : offence (type, value) with
    | none =>
      rw [h] at refused
      exact absurd refused other
    | some error =>
      rw [h, Option.getD_some] at refused
      rw [entries, List.findSome?_cons, h, refused, Option.getD_some]
  | case4 s payload some short =>
    obtain ⟨empty, odd⟩ := short_tail some short
    rw [empty, if_neg odd]
    rfl

theorem decode_dirty (s : Settings) (payload : Bytes) :
    (s.decode payload).2.dirty = s.dirty := by
  fun_induction decode s payload with
  | case1 s => rfl
  | case2 s p0 p1 p2 p3 p4 p5 rest type value s1 applied ih =>
    have kept := apply_dirty s type value
    rw [applied] at kept
    rw [ih, kept]
  | case3 s p0 p1 p2 p3 p4 p5 rest type value e s1 other applied =>
    have kept := apply_dirty s type value
    rwa [applied] at kept
  | case4 s payload some short => rfl

theorem decode_noError_iff (s : Settings) (payload : Bytes) :
    (s.decode payload).1 = .noError ↔
      payload.length % 6 = 0 ∧ ∀ e ∈ entries payload, Acceptable e := by
  have none_iff : (entries payload).findSome? offence = none ↔
      ∀ e ∈ entries payload, Acceptable e := by
    rw [List.findSome?_eq_none_iff]
    exact forall₂_congr fun e _ => offence_eq_none_iff
  rw [decode_error, ← none_iff]
  cases h : (entries payload).findSome? offence with
  | none =>
    rw [Option.getD_none]
    split
    · next whole => exact iff_of_true rfl ⟨whole, rfl⟩
    · next odd => exact iff_of_false (by simp) fun both => odd both.1
  | some error =>
    obtain ⟨e, _, refused⟩ := List.exists_of_findSome?_eq_some h
    exact iff_of_false (offence_ne_noError refused) (by simp)

/-- **Decoding.** A payload is taken when it is made of acceptable entries. Each
parameter then has the last value given for it, or the one it had. Otherwise the
code is that of the first entry refused, and of the short tail if none is. -/
theorem decode_payload (s : Settings) (payload : Bytes) :
    ((s.decode payload).1 = .noError ↔
      payload.length % 6 = 0 ∧ ∀ e ∈ entries payload, Acceptable e) ∧
    ((s.decode payload).1 = .noError →
      (∀ p, (s.decode payload).2.get p = (lastGiven p (entries payload)).getD (s.get p)) ∧
        (s.decode payload).2.dirty = s.dirty) ∧
    ((s.decode payload).1 ≠ .noError →
      (s.decode payload).1 = ((entries payload).findSome? offence).getD .frameSizeError) := by
  refine ⟨decode_noError_iff s payload, fun taken => ⟨?_, decode_dirty s payload⟩, fun refused => ?_⟩
  · exact decode_get (Prod.ext taken rfl)
  · rw [decode_error] at refused ⊢
    cases h : (entries payload).findSome? offence with
    | none =>
      rw [h, Option.getD_none, ne_eq, ite_eq_left_iff, not_forall] at refused
      obtain ⟨odd, _⟩ := refused
      rw [Option.getD_none, if_neg odd, Option.getD_none]
    | some error => rfl

end Settings

end Http2Server
