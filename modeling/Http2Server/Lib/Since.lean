/-!
# What has begun and not ended

A property of states that some events begin and others end is told by the events: it holds
where one of them has begun it and none since has ended it. `holds_iff` takes a law for one
event to a run.
-/

namespace Lib.Since

variable {σ ε : Type} (next : σ → ε → σ) (begins ends : σ → ε → Prop)

/-- None of the events ends it. -/
def Untouched : σ → List ε → Prop
  | _, [] => True
  | s, e :: events => ¬ ends s e ∧ Untouched (next s e) events

/-- One of the events begins it, and none of those behind ends it. -/
def Begun : σ → List ε → Prop
  | _, [] => False
  | s, e :: events =>
    begins s e ∧ Untouched next ends (next s e) events ∨ Begun (next s e) events

/-- Every event is as required, where it comes. -/
def Along (allowed : σ → ε → Prop) : σ → List ε → Prop
  | _, [] => True
  | s, e :: events => allowed s e ∧ Along allowed (next s e) events

variable {next begins ends} {P : σ → Prop} {allowed : σ → ε → Prop}

/-- **Since.** What an event begins, ends or leaves is known after a run. -/
theorem holds_iff (law : ∀ s e, allowed s e → (P (next s e) ↔ begins s e ∨ P s ∧ ¬ ends s e))
    {s : σ} {events : List ε} (along : Along next allowed s events) :
    P (events.foldl next s) ↔
      Begun next begins ends s events ∨ P s ∧ Untouched next ends s events := by
  induction events generalizing s with
  | nil =>
    rw [List.foldl_nil, Begun, Untouched, false_or, and_true]
  | cons e events ih =>
    rw [List.foldl_cons, ih along.2, law s e along.1, Begun, Untouched, or_and_right, and_assoc,
      or_left_comm, or_assoc]

/-- Where the events alone tell, one of them begins it, and none of those behind it ends it. -/
theorem begun_iff {starts stops : ε → Prop} {s : σ} {events : List ε} :
    Begun next (fun _ => starts) (fun _ => stops) s events ↔
      ∃ before e after, events = before ++ e :: after ∧ starts e ∧ ∀ x ∈ after, ¬ stops x := by
  have untouched (s : σ) (events : List ε) :
      Untouched next (fun _ => stops) s events ↔ ∀ x ∈ events, ¬ stops x := by
    induction events generalizing s with
    | nil => simp [Untouched]
    | cons e events ih => rw [Untouched, ih, List.forall_mem_cons]
  induction events generalizing s with
  | nil => simp [Begun]
  | cons e events ih =>
    rw [Begun, untouched, or_congr_right ih]
    constructor
    · rintro (⟨first, kept⟩ | ⟨before, x, after, rfl, later, kept⟩)
      · exact ⟨[], e, events, rfl, first, kept⟩
      · exact ⟨e :: before, x, after, rfl, later, kept⟩
    · rintro ⟨before, x, after, split, begins, kept⟩
      cases before with
      | nil =>
        obtain ⟨rfl, rfl⟩ := List.cons.inj split
        exact .inl ⟨begins, kept⟩
      | cons y before =>
        obtain ⟨rfl, rfl⟩ := List.cons.inj split
        exact .inr ⟨before, x, after, rfl, begins, kept⟩

end Lib.Since
