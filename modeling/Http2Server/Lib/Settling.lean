/-!
# Steps that come to an end

Where every step lowers a measure, a run is no longer than the measure says, and can be
continued until there is no further step.
-/

namespace Lib.Settling

variable {σ : Type}

/-- A run of so many steps. -/
inductive Steps (r : σ → σ → Prop) : Nat → σ → σ → Prop
  | nil (s : σ) : Steps r 0 s s
  | cons {n : Nat} {s t u : σ} (first : r s t) (rest : Steps r n t u) : Steps r (n + 1) s u

/-- No step is left. -/
def Settled (r : σ → σ → Prop) (s : σ) : Prop := ∀ t, ¬ r s t

variable {r : σ → σ → Prop} {n : Nat} {s t : σ}

theorem Steps.invariant {P : σ → Prop} (keep : ∀ s t, P s → r s t → P t) (run : Steps r n s t)
    (start : P s) : P t := by
  induction run with
  | nil s => exact start
  | cons first rest ih => exact ih (keep _ _ start first)

variable {measure : σ → Nat} (lower : ∀ s t, r s t → measure t < measure s)

include lower

theorem Steps.measured (run : Steps r n s t) : n + measure t ≤ measure s := by
  induction run with
  | nil s => exact Nat.le_of_eq (Nat.zero_add _)
  | cons first rest ih =>
    have less := lower _ _ first
    omega

/-- **Settling.** From every state a run comes to its end. -/
theorem exists_settled (s : σ) : ∃ n t, Steps r n s t ∧ Settled r t := by
  generalize bound : measure s = m
  induction m using Nat.strongRecOn generalizing s with
  | ind m ih =>
    by_cases settled : Settled r s
    · exact ⟨0, s, .nil s, settled⟩
    · obtain ⟨t, first⟩ := Classical.not_forall_not.mp settled
      obtain ⟨n, u, rest, last⟩ := ih (measure t) (bound ▸ lower s t first) t rfl
      exact ⟨n + 1, u, .cons first rest, last⟩

end Lib.Settling
