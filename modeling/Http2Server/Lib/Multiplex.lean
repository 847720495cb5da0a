import Mathlib.Data.List.Induction
import Mathlib.Logic.Function.Basic

/-!
# Components that share a table

Components are put into a table under a key, are given events, and are taken out.

- `run_own`: a component is what its own actions make of it.
- `life`: a component that is there is what its events made of it since it was put in.
-/

namespace Lib.Multiplex

variable {ι σ ε : Type}

inductive Action (ι σ ε : Type) where
  | enter (i : ι) (a : σ)
  | event (i : ι) (e : ε)
  | leave (i : ι)

def Action.key : Action ι σ ε → ι
  | enter i _ => i
  | event i _ => i
  | leave i => i

/-! `next` is what an event makes of a component: its next state, or nothing. -/

variable (next : ε → σ → Option σ)

/-- One component under an action of its own. -/
def stepOne (s : Option σ) : Action ι σ ε → Option σ
  | .enter _ a => some a
  | .event _ e => s.bind (next e)
  | .leave _ => none

variable [DecidableEq ι]

def step (t : ι → Option σ) (x : Action ι σ ε) : ι → Option σ :=
  Function.update t x.key (stepOne next (t x.key) x)

def run (t : ι → Option σ) (xs : List (Action ι σ ε)) : ι → Option σ := xs.foldl (step next) t

/-- The actions of one component. -/
def own (i : ι) (xs : List (Action ι σ ε)) : List (Action ι σ ε) := xs.filter (·.key = i)

theorem run_append (t : ι → Option σ) (xs ys : List (Action ι σ ε)) :
    run next t (xs ++ ys) = run next (run next t xs) ys := List.foldl_append

/-- **Isolation.** Whatever the others do, a component is what its own actions make of it. -/
theorem run_own (t : ι → Option σ) (xs : List (Action ι σ ε)) (i : ι) :
    run next t xs i = (own i xs).foldl (stepOne next) (t i) := by
  induction xs generalizing t with
  | nil => rfl
  | cons x xs ih =>
    have first : run next t (x :: xs) i = run next (step next t x) xs i := rfl
    rw [first, ih, own, own]
    by_cases mine : x.key = i
    · rw [List.filter_cons_of_pos (by simpa using mine), List.foldl_cons, step, mine,
        Function.update_self]
    · rw [List.filter_cons_of_neg (by simpa using mine), step,
        Function.update_of_ne (Ne.symm mine)]

omit [DecidableEq ι] in
/-- A component that is there was put in, and its events since then have made it what it is. -/
theorem life {xs : List (Action ι σ ε)} {s : σ}
    (h : xs.foldl (stepOne next) none = some s) :
    ∃ (before : List (Action ι σ ε)) (i : ι) (a : σ) (events : List (ι × ε)),
      xs = before ++ .enter i a :: events.map (fun e => .event e.1 e.2) ∧
        events.foldlM (fun s e => next e.2 s) a = some s := by
  induction xs using List.reverseRecOn generalizing s with
  | nil => cases h
  | append_singleton xs x ih =>
    rw [List.foldl_append] at h
    cases x with
    | enter i a =>
      obtain rfl := Option.some.inj h
      exact ⟨xs, i, a, [], rfl, rfl⟩
    | event i e =>
      obtain ⟨s', there, became⟩ := Option.bind_eq_some_iff.mp h
      obtain ⟨before, j, a, events, rfl, made⟩ := ih there
      refine ⟨before, j, a, events ++ [(i, e)], by simp, ?_⟩
      rw [List.foldlM_append, made]
      simpa using became
    | leave i => cases h

omit [DecidableEq ι] in
/-- What components begin with, and every event keeps, holds of a component that is there. -/
theorem stepOne_invariant {P : σ → Prop} {xs : List (Action ι σ ε)}
    (enter : ∀ i a, .enter i a ∈ xs → P a)
    (event : ∀ e s s', P s → next e s = some s' → P s') {s : σ}
    (h : xs.foldl (stepOne next) none = some s) : P s := by
  obtain ⟨before, i, a, events, rfl, made⟩ := life next h
  have kept (events : List (ι × ε)) {a : σ} (first : P a)
      (made : events.foldlM (fun s e => next e.2 s) a = some s) : P s := by
    induction events generalizing a with
    | nil => exact Option.some.inj made ▸ first
    | cons e events ih =>
      obtain ⟨a', became, onwards⟩ := Option.bind_eq_some_iff.mp made
      exact ih (event e.2 a a' first became) onwards
  exact kept events (enter i a (by simp)) made

end Lib.Multiplex
