import Http2Server.Lib.Settling
import Http2Server.ThreadPool
import Mathlib.Algebra.Ring.Nat
import Mathlib.Data.Finset.Card
import Mathlib.Data.Finset.Range

/-!
# Waking the workers

`enqueue` and the destructor let go of `queue_mutex` before they call `notify_one` and
`notify_all`, so a call can be due while the workers go on. Beside the pool, it is kept
which calls are due, and which sleepers a call has reached.

- `reachable_pool`: the pool takes no other steps for that.
- `reachable_heard`: no wakeup is lost.
- `runs_out`: every task that was accepted is run, and the destructor returns.
-/

namespace Http2Server

open Lib Lib.Dispatch Lib.Settling

namespace ThreadPool

variable {α : Type}

def Worker.asleep : Worker α → Bool
  | .waiting => true
  | _ => false

/-- The workers asleep on the condition. -/
def sleepers (p : ThreadPool α) : Finset Nat :=
  (Finset.range p.workers.length).filter fun w => p.workers[w]?.any Worker.asleep

theorem mem_sleepers {p : ThreadPool α} {w : Nat} :
    w ∈ p.sleepers ↔ p.workers[w]? = some .waiting := by
  rw [sleepers, Finset.mem_filter, Finset.mem_range]
  constructor
  · rintro ⟨inside, asleep⟩
    cases stands : p.workers[w]? with
    | none => simp [stands] at asleep
    | some q =>
      rw [stands] at asleep
      cases q with
      | waiting => rfl
      | ready | holding _ | running _ | returned => cases asleep
  · intro stands
    refine ⟨(List.getElem?_eq_some_iff.mp stands).1, ?_⟩
    rw [stands]
    rfl

theorem sleepers_congr {p p' : ThreadPool α} (same : p'.workers = p.workers) :
    p'.sleepers = p.sleepers := by
  rw [sleepers, sleepers, same]

/-- What a worker does in its loop, apart from being woken. -/
def Action.own : Action α → Bool
  | .sleep _ | .take _ _ | .leave _ | .start _ | .finish _ => true
  | _ => false

/-- How much a worker has before it, until it sleeps or leaves. -/
def Worker.rank : Worker α → Nat
  | .ready => 1
  | .waiting => 0
  | .holding _ => 3
  | .running _ => 2
  | .returned => 0

/-- A step of one worker that is not asleep. It stops only where nothing is queued, sleeps only
before the destructor, and a task that it takes is more than it has got before it by that. -/
structure Move (p p' : ThreadPool α) (w : Nat) (a b : Worker α) : Prop where
  stands : p.workers[w]? = some a
  workers : p'.workers = p.workers.set w b
  stop : p'.stop = p.stop
  joined : p'.joined = p.joined
  accepted : p'.accepted = p.accepted
  awake : a ≠ .waiting
  stays : p'.tasks ≠ 0 → b ≠ .waiting ∧ b ≠ .returned
  live : b = .waiting → p.stop = false
  lower : 3 * p'.tasks.card + b.rank < 3 * p.tasks.card + a.rank

theorem step_moves {p p' : ThreadPool α} {a : Action α} (own : a.own = true) (step : Step p a p') :
    ∃ w before after, Move p p' w before after := by
  cases step with
  | @sleep w stands live empty =>
    refine ⟨w, .ready, .waiting, stands, rfl, rfl, rfl, rfl, nofun, ?_, fun _ => live, ?_⟩
    · exact fun queued => absurd empty queued
    · exact Nat.lt_succ_self _
  | @take w t rest stands top pop =>
    refine ⟨w, .ready, .holding t, stands, rfl, rfl, rfl, rfl, nofun, fun _ => ⟨nofun, nofun⟩,
      nofun, ?_⟩
    rw [pop, Multiset.card_cons]
    simp only [Worker.rank]
    omega
  | @leave w stands stopped empty =>
    refine ⟨w, .ready, .returned, stands, rfl, rfl, rfl, rfl, nofun, ?_, nofun, ?_⟩
    · exact fun queued => absurd empty queued
    · exact Nat.lt_succ_self _
  | @start w t stands =>
    exact ⟨w, .holding t, .running t, stands, rfl, rfl, rfl, rfl, nofun, fun _ => ⟨nofun, nofun⟩,
      nofun, Nat.lt_succ_self _⟩
  | @finish w t stands =>
    exact ⟨w, .running t, .ready, stands, rfl, rfl, rfl, rfl, nofun, fun _ => ⟨nofun, nofun⟩,
      nofun, Nat.lt_succ_self _⟩
  | enqueue | wake | shutdown | join => cases own

section
variable {p p' : ThreadPool α} {w v : Nat} {a b : Worker α}

theorem Move.own (move : Move p p' w a b) : p'.workers[w]? = some b := by
  rw [move.workers, List.getElem?_set_self (List.getElem?_eq_some_iff.mp move.stands).1]

theorem Move.other (move : Move p p' w a b) (other : w ≠ v) :
    p'.workers[v]? = p.workers[v]? := by
  rw [move.workers, List.getElem?_set_ne other]

end

/-- A worker that wakes. -/
theorem sleepers_wake {p p' : ThreadPool α} {w : Nat} (step : Step p (.wake w) p') :
    p'.sleepers = p.sleepers.erase w := by
  cases step with
  | wake stands =>
    ext v
    rw [Finset.mem_erase, mem_sleepers, mem_sleepers, move]
    dsimp only
    by_cases same : w = v
    · subst same
      rw [List.getElem?_set_self (List.getElem?_eq_some_iff.mp stands).1]
      simp
    · rw [List.getElem?_set_ne same]
      exact (and_iff_right (Ne.symm same)).symm

end ThreadPool

open ThreadPool

/-- `owed` counts the calls of `notify_one` that are due, `all` is that of the destructor. -/
structure Signals (α : Type) where
  pool : ThreadPool α
  notified : Finset Nat := ∅
  owed : Nat := 0
  all : Bool := false

namespace Signals

variable {α : Type}

def new (n : Nat) : Signals α := { pool := .new n }

/-- What goes on without a new call or a spurious wakeup. A `notify_one` reaches one of those
asleep, or nobody where nobody is left to reach. -/
inductive Advance : Signals α → Signals α → Prop
  | notifyOne {s : Signals α} {w : Nat} (due : 0 < s.owed) (asleep : w ∈ s.pool.sleepers)
      (fresh : w ∉ s.notified) :
      Advance s { s with owed := s.owed - 1, notified := insert w s.notified }
  | unheard {s : Signals α} (due : 0 < s.owed) (reached : s.pool.sleepers ⊆ s.notified) :
      Advance s { s with owed := s.owed - 1 }
  | notifyAll {s : Signals α} (due : s.all = true) :
      Advance s { s with all := false, notified := s.pool.sleepers }
  | wake {s : Signals α} {w : Nat} {p : ThreadPool α} (reached : w ∈ s.notified)
      (step : Step s.pool (.wake w) p) :
      Advance s { s with pool := p, notified := s.notified.erase w }
  | own {s : Signals α} {a : Action α} {p : ThreadPool α} (own : a.own = true)
      (step : Step s.pool a p) : Advance s { s with pool := p }
  | join {s : Signals α} {p : ThreadPool α} (called : s.all = false)
      (step : Step s.pool .join p) : Advance s { s with pool := p }

/-- What comes from outside: a call of `enqueue`, a worker that wakes without being notified,
and the destructor. -/
inductive Disturb : Signals α → Signals α → Prop
  | enqueue (s : Signals α) (t : Task α) : Disturb s
      { s with
        pool := (s.pool.enqueue t).2
        owed := if (s.pool.enqueue t).1.isSome then s.owed + 1 else s.owed }
  | spurious {s : Signals α} {w : Nat} {p : ThreadPool α} (step : Step s.pool (.wake w) p) :
      Disturb s { s with pool := p, notified := s.notified.erase w }
  | shutdown {s : Signals α} {p : ThreadPool α} (step : Step s.pool .shutdown p) :
      Disturb s { s with pool := p, all := true }

inductive Reachable (n : Nat) : Signals α → Prop
  | new : Reachable n (new n)
  | advance {s s' : Signals α} (before : Reachable n s) (step : Advance s s') : Reachable n s'
  | disturb {s s' : Signals α} (before : Reachable n s) (step : Disturb s s') : Reachable n s'

/-- **Refinement.** Calls that are due are no steps of the pool, and all others are its own. -/
theorem reachable_pool {n : Nat} {s : Signals α} (run : Reachable n s) :
    ThreadPool.Reachable n s.pool := by
  induction run with
  | new => exact .new
  | advance before step ih =>
    cases step with
    | notifyOne | unheard | notifyAll => exact ih
    | wake _ step | own _ step | join _ step => exact ih.step step
  | disturb before step ih =>
    cases step with
    | enqueue t => exact ih.step (.enqueue _ t)
    | spurious step | shutdown step => exact ih.step step

/-! ## No wakeup is lost -/

/-- A worker in its loop that is not asleep, or has been reached. -/
def Stirring (s : Signals α) (w : Nat) : Prop :=
  ∃ p, s.pool.workers[w]? = some p ∧ p ≠ .returned ∧ (p = .waiting → w ∈ s.notified)

structure Heard (s : Signals α) : Prop where
  asleep : s.notified ⊆ s.pool.sleepers
  stirred : s.pool.tasks ≠ 0 → 0 < s.owed ∨ ∃ w, s.Stirring w
  told : s.pool.stop = true → s.all = true ∨ s.pool.sleepers ⊆ s.notified

section
variable {s s' : Signals α}

theorem Heard.own (heard : Heard s) {a : Action α} {p : ThreadPool α} (own : a.own = true)
    (step : Step s.pool a p) : Heard { s with pool := p } := by
  obtain ⟨w, before, after, move⟩ := step_moves own step
  refine ⟨?_, ?_, ?_⟩
  · intro v reached
    have sleeps := mem_sleepers.mp (heard.asleep reached)
    have other : w ≠ v := by
      rintro rfl
      exact move.awake (Option.some.inj (move.stands.symm.trans sleeps))
    exact mem_sleepers.mpr ((move.other other).trans sleeps)
  · intro queued
    obtain ⟨awake, stays⟩ := move.stays queued
    exact .inr ⟨w, after, move.own, stays, fun waits => absurd waits awake⟩
  · intro stopped
    dsimp only at stopped
    rw [move.stop] at stopped
    refine (heard.told stopped).imp_right fun reached => ?_
    intro v sleeps
    apply reached
    rw [mem_sleepers] at sleeps ⊢
    by_cases same : w = v
    · subst same
      have waits := Option.some.inj (move.own.symm.trans sleeps)
      cases stopped.symm.trans (move.live waits)
    · rwa [move.other same] at sleeps

theorem Heard.woken (heard : Heard s) {w : Nat} {p : ThreadPool α}
    (step : Step s.pool (.wake w) p) :
    Heard { s with pool := p, notified := s.notified.erase w } := by
  have sleepers := sleepers_wake step
  refine ⟨?_, ?_, ?_⟩
  · dsimp only
    rw [sleepers]
    exact Finset.erase_subset_erase w heard.asleep
  · intro _
    cases step with
    | wake stands =>
      refine .inr ⟨w, .ready, ?_, nofun, nofun⟩
      exact List.getElem?_set_self (List.getElem?_eq_some_iff.mp stands).1
  · intro stopped
    have same : p.stop = s.pool.stop := by
      cases step
      rfl
    dsimp only at stopped ⊢
    rw [same] at stopped
    rw [sleepers]
    exact (heard.told stopped).imp_right (Finset.erase_subset_erase w)

/-- A pool that has workers, and something to do for them, has one that has not left. -/
theorem stirring_of_reached {n : Nat} (workers : 0 < n) (run : ThreadPool.Reachable n s.pool)
    (queued : s.pool.tasks ≠ 0) (reached : s.pool.sleepers ⊆ s.notified) : ∃ w, s.Stirring w := by
  have closing := reachable_closing run
  have inside : 0 < s.pool.workers.length := closing.size.symm ▸ workers
  have stands := List.getElem?_eq_getElem inside
  refine ⟨0, _, stands, ?_, ?_⟩
  · intro left
    rw [left] at stands
    exact queued (closing.gone 0 stands).2
  · intro waits
    rw [waits] at stands
    exact reached (mem_sleepers.mpr stands)

theorem Heard.advance {n : Nat} (workers : 0 < n) (run : ThreadPool.Reachable n s.pool)
    (heard : Heard s) (step : Advance s s') : Heard s' := by
  cases step with
  | @notifyOne w due asleep fresh =>
    refine ⟨Finset.insert_subset asleep heard.asleep, ?_, ?_⟩
    · intro _
      exact .inr ⟨w, .waiting, mem_sleepers.mp asleep, nofun, fun _ => Finset.mem_insert_self w _⟩
    · intro stopped
      refine (heard.told stopped).imp_right fun reached => ?_
      exact reached.trans (Finset.subset_insert w _)
  | unheard due reached =>
    refine ⟨heard.asleep, ?_, heard.told⟩
    intro queued
    exact .inr (stirring_of_reached workers run queued reached)
  | notifyAll due =>
    refine ⟨Finset.Subset.refl _, ?_, fun _ => .inr (Finset.Subset.refl _)⟩
    intro queued
    refine (heard.stirred queued).imp_right ?_
    rintro ⟨w, p, stands, stays, _⟩
    refine ⟨w, p, stands, stays, ?_⟩
    rintro rfl
    exact mem_sleepers.mpr stands
  | wake reached step => exact heard.woken step
  | own own step => exact heard.own own step
  | join called step =>
    cases step with
    | join others stands => exact ⟨heard.asleep, heard.stirred, heard.told⟩

theorem Heard.disturb (heard : Heard s) (step : Disturb s s') : Heard s' := by
  cases step with
  | enqueue t =>
    cases taken : (s.pool.enqueue t).1 with
    | none =>
      rw [enqueue_threw taken]
      exact heard
    | some number =>
      -- What is taken in is owed a call.
      have workers : (s.pool.enqueue t).2.workers = s.pool.workers := by
        unfold ThreadPool.enqueue
        split <;> rfl
      have stop : (s.pool.enqueue t).2.stop = s.pool.stop := by
        unfold ThreadPool.enqueue
        split <;> rfl
      have sleepers := sleepers_congr workers
      refine ⟨?_, fun _ => .inl (Nat.succ_pos _), ?_⟩
      · dsimp only
        rw [sleepers]
        exact heard.asleep
      · dsimp only
        rw [stop, sleepers]
        exact heard.told
  | spurious step => exact heard.woken step
  | shutdown step =>
    cases step with
    | shutdown first => exact ⟨heard.asleep, heard.stirred, fun _ => .inl rfl⟩

theorem reachable_heard {n : Nat} (workers : 0 < n) (run : Reachable n s) : Heard s := by
  induction run with
  | new => exact ⟨Finset.empty_subset _, fun queued => absurd rfl queued, nofun⟩
  | advance before step ih => exact ih.advance workers (reachable_pool before) step
  | disturb before step ih => exact ih.disturb step

end

/-! ## Every run comes to its end -/

/-- How much is left to do without anything coming from outside. A sleeper that has been reached
has two steps to go, a call that is due may reach one more, or all. -/
def work (s : Signals α) : Nat :=
  3 * s.pool.tasks.card + (s.pool.workers.map Worker.rank).sum + 2 * s.notified.card + 3 * s.owed +
    (if s.all then 2 * s.pool.workers.length + 1 else 0) +
    (s.pool.workers.length - s.pool.joined.getD 0)

/-- One slot changes a sum by what it changes itself. -/
theorem sum_set {slots : List (Worker α)} {w : Nat} {a : Worker α} (stands : slots[w]? = some a)
    (b : Worker α) : ((slots.set w b).map Worker.rank).sum + a.rank =
      (slots.map Worker.rank).sum + b.rank := by
  induction slots generalizing w with
  | nil => cases stands
  | cons c rest ih =>
    cases w with
    | zero =>
      obtain rfl : c = a := Option.some.inj stands
      simp only [List.set_cons_zero, List.map_cons, List.sum_cons]
      omega
    | succ w =>
      have shorter := ih (w := w) stands
      simp only [List.set_cons_succ, List.map_cons, List.sum_cons]
      omega

theorem card_sleepers_le (p : ThreadPool α) : p.sleepers.card ≤ p.workers.length := by
  have within := Finset.card_filter_le (Finset.range p.workers.length)
    fun w => p.workers[w]?.any Worker.asleep
  rwa [Finset.card_range] at within

theorem advance_work {s s' : Signals α} (step : Advance s s') : s'.work < s.work := by
  unfold work
  cases step with
  | notifyOne due asleep fresh =>
    dsimp only
    rw [Finset.card_insert_of_notMem fresh]
    omega
  | unheard due reached =>
    dsimp only
    omega
  | notifyAll due =>
    have few := card_sleepers_le s.pool
    simp only [due, Bool.false_eq_true, ↓reduceIte]
    omega
  | @wake w p reached step =>
    have fewer := Finset.card_erase_add_one reached
    cases step with
    | wake stands =>
      have ranks := sum_set stands .ready
      simp only [ThreadPool.move, List.length_set, Worker.rank] at ranks ⊢
      omega
  | own own step =>
    obtain ⟨w, before, after, move⟩ := step_moves own step
    have ranks := sum_set move.stands after
    have lower := move.lower
    dsimp only
    rw [move.workers, move.joined, List.length_set]
    omega
  | join called step =>
    cases step with
    | @join k others stands =>
      have inside := (List.getElem?_eq_some_iff.mp stands).1
      simp only [others, Option.getD_some]
      omega

section
variable {n : Nat} {s s' : Signals α}

/-- Where nothing goes on by itself, every worker sleeps or has left. -/
theorem settled_resting (settled : Settled Advance s) {w : Nat} {p : Worker α}
    (stands : s.pool.workers[w]? = some p) : p = .waiting ∨ p = .returned := by
  cases p with
  | waiting => exact .inl rfl
  | returned => exact .inr rfl
  | ready =>
    by_cases empty : s.pool.tasks = 0
    · cases stop : s.pool.stop with
      | false => exact absurd (.own rfl (.sleep stands stop empty)) (settled _)
      | true => exact absurd (.own rfl (.leave stands stop empty)) (settled _)
    · obtain ⟨t, _, step⟩ := take_possible stands empty
      exact absurd (.own rfl step) (settled _)
  | holding t => exact absurd (.own rfl (.start stands)) (settled _)
  | running t => exact absurd (.own rfl (.finish stands)) (settled _)

theorem settled_owed (settled : Settled Advance s) : s.owed = 0 := by
  by_contra due
  by_cases reached : s.pool.sleepers ⊆ s.notified
  · exact settled _ (.unheard (Nat.pos_of_ne_zero due) reached)
  · obtain ⟨w, asleep, fresh⟩ := Finset.not_subset.mp reached
    exact settled _ (.notifyOne (Nat.pos_of_ne_zero due) asleep fresh)

theorem settled_notified (heard : Heard s) (settled : Settled Advance s) : s.notified = ∅ := by
  apply Finset.eq_empty_of_forall_notMem
  intro w reached
  have stands := mem_sleepers.mp (heard.asleep reached)
  exact settled _ (.wake reached (.wake stands))

/-- Nothing is queued either, since somebody would be up for it. -/
theorem settled_tasks (heard : Heard s) (settled : Settled Advance s) : s.pool.tasks = 0 := by
  by_contra queued
  obtain due | ⟨w, p, stands, stays, waits⟩ := heard.stirred queued
  · rw [settled_owed settled] at due
    exact Nat.lt_irrefl 0 due
  · obtain rfl | rfl := settled_resting settled stands
    · have reached := waits rfl
      rw [settled_notified heard settled] at reached
      exact absurd reached (Finset.notMem_empty w)
    · exact stays rfl

theorem settled_finished (run : Reachable n s) (heard : Heard s) (settled : Settled Advance s) :
    ∀ t ∈ s.pool.accepted, t ∈ s.pool.finished := by
  have places := reachable_places (reachable_pool run)
  have idle : contents Worker.task s.pool.workers = 0 := by
    refine Multiset.eq_zero_of_forall_notMem fun t held => ?_
    obtain ⟨w, p, stands, has⟩ := mem_contents.mp held
    obtain rfl | rfl := settled_resting settled stands <;> cases has
  rw [settled_tasks heard settled, idle, add_zero, zero_add] at places
  intro t accepted
  rw [← Multiset.mem_coe, ← places] at accepted
  exact accepted

/-- After the destructor's call nobody sleeps on, so it finds every worker gone. -/
theorem settled_joined (run : Reachable n s) (heard : Heard s) (settled : Settled Advance s)
    {k : Nat} (joined : s.pool.joined = some k) : k = n := by
  have closing := reachable_closing (reachable_pool run)
  have called : s.all = false := by
    by_contra due
    exact settled _ (.notifyAll (Bool.eq_true_of_not_eq_false due))
  have stopped : s.pool.stop = true := by
    rw [closing.stopped, joined]
    rfl
  have gone {w : Nat} (inside : w < n) : s.pool.workers[w]? = some .returned := by
    rw [← closing.size] at inside
    have stands := List.getElem?_eq_getElem inside
    obtain waits | left := settled_resting settled stands
    · obtain due | reached := heard.told stopped
      · cases called.symm.trans due
      · rw [waits] at stands
        have sleeps := reached (mem_sleepers.mpr stands)
        rw [settled_notified heard settled] at sleeps
        exact absurd sleeps (Finset.notMem_empty w)
    · rw [stands, left]
  rcases Nat.lt_trichotomy k n with before | same | past
  · exact absurd (.join called (.join joined (gone before))) (settled _)
  · exact same
  · have last := closing.joins k joined n past
    have inside := (List.getElem?_eq_some_iff.mp last).1
    rw [closing.size] at inside
    exact absurd inside (Nat.lt_irrefl n)

/-- Nothing is taken in on the way, and the destructor does not begin again. -/
theorem advance_keeps (step : Advance s s') : s'.pool.accepted = s.pool.accepted ∧
    (s.pool.joined ≠ none → s'.pool.joined ≠ none) := by
  cases step with
  | notifyOne | unheard | notifyAll => exact ⟨rfl, id⟩
  | wake reached step =>
    cases step
    exact ⟨rfl, id⟩
  | own own step =>
    obtain ⟨_, _, _, move⟩ := step_moves own step
    exact ⟨move.accepted, fun begun => move.joined.symm ▸ begun⟩
  | join called step =>
    cases step
    exact ⟨rfl, fun _ => nofun⟩

/-- **Running out.** Left to itself, the pool goes on for a bounded number of steps. However the
workers are scheduled, every task that was taken in has then been run, and the destructor, if it
has begun, has joined all workers. -/
theorem runs_out (workers : 0 < n) (run : Reachable n s) :
    (∀ k s', Steps Advance k s s' → k ≤ s.work) ∧
    (∃ k s', Steps Advance k s s' ∧ Settled Advance s') ∧
    ∀ k s', Steps Advance k s s' → Settled Advance s' →
      (∀ t ∈ s.pool.accepted, t ∈ s'.pool.finished) ∧
        (s.pool.joined ≠ none → s'.pool.joined = some n) := by
  have lower : ∀ s s' : Signals α, Advance s s' → s'.work < s.work := fun _ _ => advance_work
  refine ⟨?_, exists_settled lower s, ?_⟩
  · intro k s' steps
    have bound := steps.measured lower
    omega
  · intro k s' steps settled
    have kept := steps.invariant (P := fun s' => Reachable n s' ∧
      s'.pool.accepted = s.pool.accepted ∧ (s.pool.joined ≠ none → s'.pool.joined ≠ none)) ?_
      ⟨run, rfl, id⟩
    · obtain ⟨run', accepted, begun⟩ := kept
      have heard := reachable_heard workers run'
      rw [← accepted]
      refine ⟨settled_finished run' heard settled, ?_⟩
      intro joining
      obtain ⟨k, joined⟩ := Option.ne_none_iff_exists'.mp (begun joining)
      rw [joined, settled_joined run' heard settled joined]
    · rintro s₁ s₂ ⟨run₁, accepted, begun⟩ step
      have keeps := advance_keeps step
      exact ⟨run₁.advance step, keeps.1.trans accepted, keeps.2 ∘ begun⟩

end

/-- A task is taken in, and the destructor begins before a worker has seen it. -/
theorem runs_out_one : ∃ s s' : Signals Nat, Reachable 1 s ∧ s.pool.finished = [] ∧
    ∃ k, Steps Advance k s s' ∧ s'.pool.joined = some 1 ∧
      ∀ t ∈ s.pool.accepted, t ∈ s'.pool.finished := by
  have queued := (Reachable.new (α := Nat) (n := 1)).disturb (.enqueue _ ⟨7, 0⟩)
  have stopped := queued.disturb (.shutdown (.shutdown rfl))
  obtain ⟨_, ⟨k, s', steps, settled⟩, finished⟩ := runs_out Nat.one_pos stopped
  have done := finished k s' steps settled
  exact ⟨_, s', stopped, rfl, k, steps, done.2 nofun, done.1⟩

end Signals

end Http2Server
