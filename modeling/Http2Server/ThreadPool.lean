import Http2Server.Lib.Dispatch
import Mathlib.Data.Multiset.Range
import Mathlib.Data.List.Nodup

/-!
# The pool of workers

What a thread does under `queue_mutex` is one step. Besides the members of the
source, the pool keeps every task it took in, under the number of its future, and
the order in which tasks began and ended. `step_ledger` reads a step as a step of
the ledger of these tasks.
-/

namespace Http2Server

open Lib Lib.Dispatch

structure Task (α : Type) where
  task : α
  weight : Int
  deriving DecidableEq, Repr

namespace ThreadPool

/-- A task that `enqueue` took in, with the number of its future. -/
structure Ticket (α : Type) where
  number : Nat
  task : Task α
  deriving DecidableEq, Repr

/-- `Task::operator<` on what is in the queue. -/
def Ticket.lt {α : Type} (t u : Ticket α) : Prop := t.task.weight < u.task.weight

/-- Where a worker is in its loop: about to lock and test the condition, asleep on
it, with a task in its hand, in the call `task()`, or past the `return`. -/
inductive Worker (α : Type) where
  | ready
  | waiting
  | holding (t : Ticket α)
  | running (t : Ticket α)
  | returned
  deriving DecidableEq, Repr

namespace Worker

variable {α : Type}

def inHand : Worker α → Option (Ticket α)
  | .holding t => some t
  | _ => none

def inCall : Worker α → Option (Ticket α)
  | .running t => some t
  | _ => none

def task : Worker α → Option (Ticket α)
  | .holding t | .running t => some t
  | _ => none

theorem inHand_idle {p : Worker α} (idle : p.task = none) : p.inHand = none := by
  cases p with
  | holding t => cases idle
  | ready | waiting | running t | returned => rfl

theorem inCall_idle {p : Worker α} (idle : p.task = none) : p.inCall = none := by
  cases p with
  | running t => cases idle
  | ready | waiting | holding t | returned => rfl

end Worker

end ThreadPool

open ThreadPool

/-- `joined` counts the workers that the destructor has joined, once it runs. -/
structure ThreadPool (α : Type) where
  workers : List (Worker α)
  tasks : Multiset (Ticket α) := 0
  stop : Bool := false
  joined : Option Nat := none
  accepted : List (Ticket α) := []
  log : List (Event (Ticket α)) := []

namespace ThreadPool

variable {α : Type}

/-- The constructor. -/
def new (n : Nat) : ThreadPool α := { workers := List.replicate n .ready }

/-- The number of the future, `none` for the exception. -/
def enqueue (s : ThreadPool α) (t : Task α) : Option Nat × ThreadPool α :=
  if s.stop then (none, s)
  else
    let ticket : Ticket α := ⟨s.accepted.length, t⟩
    (some ticket.number,
      { s with tasks := ticket ::ₘ s.tasks, accepted := s.accepted ++ [ticket] })

/-- A future's number is the place of its task among those taken in. -/
theorem enqueue_taken {s : ThreadPool α} {t : Task α} {number : Nat}
    (taken : (s.enqueue t).1 = some number) :
    (s.enqueue t).2.accepted = s.accepted ++ [⟨number, t⟩] := by
  unfold enqueue at taken ⊢
  split at taken
  · cases taken
  · next live =>
    cases taken
    simp [live]

theorem enqueue_threw {s : ThreadPool α} {t : Task α} (threw : (s.enqueue t).1 = none) :
    (s.enqueue t).2 = s := by
  unfold enqueue at threw ⊢
  split
  · rfl
  · next live => simp [live] at threw

/-- The pool with worker `w` elsewhere in its loop. -/
def move (s : ThreadPool α) (w : Nat) (p : Worker α) : ThreadPool α :=
  { s with workers := s.workers.set w p }

inductive Action (α : Type) where
  | enqueue (t : Task α)
  | sleep (w : Nat)
  | wake (w : Nat)
  | take (w : Nat) (t : Ticket α)
  | leave (w : Nat)
  | start (w : Nat)
  | finish (w : Nat)
  | shutdown
  | join

/-- One step of any thread. A sleeping worker can wake at any time, notified or not. -/
inductive Step : ThreadPool α → Action α → ThreadPool α → Prop where
  | enqueue (s : ThreadPool α) (t : Task α) : Step s (.enqueue t) (s.enqueue t).2
  | sleep {s : ThreadPool α} {w : Nat} (stands : s.workers[w]? = some .ready)
      (live : s.stop = false) (empty : s.tasks = 0) : Step s (.sleep w) (s.move w .waiting)
  | wake {s : ThreadPool α} {w : Nat} (stands : s.workers[w]? = some .waiting) :
      Step s (.wake w) (s.move w .ready)
  | take {s : ThreadPool α} {w : Nat} {t : Ticket α} {rest : Multiset (Ticket α)}
      (stands : s.workers[w]? = some .ready) (top : Top Ticket.lt s.tasks t)
      (pop : s.tasks = t ::ₘ rest) :
      Step s (.take w t) { s.move w (.holding t) with tasks := rest }
  | leave {s : ThreadPool α} {w : Nat} (stands : s.workers[w]? = some .ready)
      (stopped : s.stop = true) (empty : s.tasks = 0) : Step s (.leave w) (s.move w .returned)
  | start {s : ThreadPool α} {w : Nat} {t : Ticket α}
      (stands : s.workers[w]? = some (.holding t)) :
      Step s (.start w) { s.move w (.running t) with log := s.log ++ [.began t] }
  | finish {s : ThreadPool α} {w : Nat} {t : Ticket α}
      (stands : s.workers[w]? = some (.running t)) :
      Step s (.finish w) { s.move w .ready with log := s.log ++ [.ended t] }
  | shutdown {s : ThreadPool α} (first : s.joined = none) :
      Step s .shutdown { s with stop := true, joined := some 0 }
  | join {s : ThreadPool α} {k : Nat} (others : s.joined = some k)
      (stands : s.workers[k]? = some .returned) : Step s .join { s with joined := some (k + 1) }

/-- Where something is queued, a worker that tests the condition has a task to take. -/
theorem take_possible {s : ThreadPool α} {w : Nat} (stands : s.workers[w]? = some .ready)
    (queued : s.tasks ≠ 0) : ∃ t s', Step s (.take w t) s' := by
  obtain ⟨t, top⟩ := exists_top (fun t : Ticket α => t.task.weight) queued
  obtain ⟨rest, pop⟩ := Multiset.exists_cons_of_mem top.1
  exact ⟨t, _, .take stands top pop⟩

theorem step_accepted {s s' : ThreadPool α} {a : Action α} (step : Step s a s')
    (other : ∀ t, a ≠ .enqueue t) :
    s'.accepted = s.accepted := by
  cases step with
  | enqueue t => exact absurd rfl (other t)
  | sleep | wake | take | leave | start | finish | shutdown | join => rfl

inductive Reachable (n : Nat) : ThreadPool α → Prop where
  | new : Reachable n (new n)
  | step {s s' : ThreadPool α} {a : Action α} :
      Reachable n s → Step s a s' → Reachable n s'

/-! ## The ledger of tasks -/

def ledger (s : ThreadPool α) : Ledger (Ticket α) where
  accepted := s.accepted
  queued := s.tasks
  held := contents Worker.inHand s.workers
  running := contents Worker.inCall s.workers
  log := s.log

/-- A worker that comes from no task and goes to none leaves the ledger alone. -/
theorem ledger_move {s : ThreadPool α} {w : Nat} {a b : Worker α}
    (stands : s.workers[w]? = some a) (before : a.task = none) (after : b.task = none) :
    (s.move w b).ledger = s.ledger := by
  have hand : a.inHand = b.inHand :=
    (Worker.inHand_idle before).trans (Worker.inHand_idle after).symm
  have call : a.inCall = b.inCall :=
    (Worker.inCall_idle before).trans (Worker.inCall_idle after).symm
  simp only [ledger, move, contents_kept stands hand, contents_kept stands call]

theorem step_ledger {s s' : ThreadPool α} {a : Action α} (step : Step s a s') :
    Ledger.Step s.ledger s'.ledger := by
  cases step with
  | enqueue t =>
    unfold enqueue
    split
    · exact .idle s.ledger
    · exact .accept s.ledger ⟨s.accepted.length, t⟩
  | sleep stands live empty => rw [ledger_move stands rfl rfl]; exact .idle _
  | wake stands => rw [ledger_move stands rfl rfl]; exact .idle _
  | @take w t rest stands top pop =>
    have hand : contents Worker.inHand (s.workers.set w (.holding t)) =
        t ::ₘ contents Worker.inHand s.workers := contents_filled stands rfl rfl
    have call : contents Worker.inCall (s.workers.set w (.holding t)) =
        contents Worker.inCall s.workers := contents_kept stands rfl
    have step := Ledger.Step.take (l := s.ledger) pop
    simpa only [ledger, move, hand, call] using step
  | leave stands stopped empty => rw [ledger_move stands rfl rfl]; exact .idle _
  | @start w t stands =>
    have hand : contents Worker.inHand s.workers =
        t ::ₘ contents Worker.inHand (s.workers.set w (.running t)) :=
      contents_freed stands rfl rfl
    have call : contents Worker.inCall (s.workers.set w (.running t)) =
        t ::ₘ contents Worker.inCall s.workers := contents_filled stands rfl rfl
    have step := Ledger.Step.start (l := s.ledger) hand
    simpa only [ledger, move, call] using step
  | @finish w t stands =>
    have hand : contents Worker.inHand (s.workers.set w .ready) =
        contents Worker.inHand s.workers := contents_kept stands rfl
    have call : contents Worker.inCall s.workers =
        t ::ₘ contents Worker.inCall (s.workers.set w .ready) := contents_freed stands rfl rfl
    have step := Ledger.Step.finish (l := s.ledger) call
    simpa only [ledger, move, hand] using step
  | shutdown first => exact .idle s.ledger
  | join others stands => exact .idle s.ledger

theorem ledger_new (n : Nat) : (new n : ThreadPool α).ledger = ⟨[], 0, 0, 0, []⟩ := by
  have hand : contents Worker.inHand (List.replicate n (.ready : Worker α)) = 0 := by
    simp [contents, Worker.inHand]
  have call : contents Worker.inCall (List.replicate n (.ready : Worker α)) = 0 := by
    simp [contents, Worker.inCall]
  simp only [ledger, new, hand, call]

theorem reachable_balanced {n : Nat} {s : ThreadPool α} (run : Reachable n s) :
    s.ledger.Balanced := by
  induction run with
  | new =>
    rw [ledger_new]
    exact ⟨rfl, rfl⟩
  | step run step ih => exact Ledger.step_balanced (step_ledger step) ih

/-! ## Shutdown -/

/-- A worker past its `return` saw the flag and an empty queue, and joining goes
through the workers from the first. -/
structure Closing (n : Nat) (s : ThreadPool α) : Prop where
  size : s.workers.length = n
  stopped : s.stop = s.joined.isSome
  gone : ∀ w : Nat, s.workers[w]? = some Worker.returned → s.stop = true ∧ s.tasks = 0
  joins : ∀ k, s.joined = some k → ∀ w < k, s.workers[(w : Nat)]? = some Worker.returned

/-- A worker that moves within its loop leaves the others where they are. -/
theorem returned_move {s : ThreadPool α} {w v : Nat} {a b : Worker α}
    (stands : s.workers[w]? = some a) (stayed : a ≠ .returned) (stays : b ≠ .returned) :
    (s.move w b).workers[v]? = some .returned ↔ s.workers[v]? = some .returned := by
  simp only [move, List.getElem?_set]
  by_cases same : w = v
  · subst same
    have inside : w < s.workers.length := (List.getElem?_eq_some_iff.mp stands).1
    rw [stands]
    simp [inside, stayed, stays]
  · simp [same]

theorem Closing.move {n : Nat} {s : ThreadPool α} (closing : Closing n s) {w : Nat}
    {a b : Worker α} (stands : s.workers[w]? = some a) (stayed : a ≠ .returned)
    (stays : b ≠ .returned) : Closing n (s.move w b) where
  size := by simpa [ThreadPool.move] using closing.size
  stopped := closing.stopped
  gone v returned := closing.gone v ((returned_move stands stayed stays).mp returned)
  joins k joined v earlier :=
    (returned_move stands stayed stays).mpr (closing.joins k joined v earlier)

theorem step_closing {n : Nat} {s s' : ThreadPool α} {a : Action α} (step : Step s a s')
    (closing : Closing n s) : Closing n s' := by
  cases step with
  | enqueue t =>
    cases stop : s.stop with
    | true => simpa [enqueue, stop] using closing
    | false =>
      simp only [enqueue, stop, Bool.false_eq_true, ↓reduceIte]
      refine ⟨closing.size, stop ▸ closing.stopped, fun w returned => ?_, closing.joins⟩
      cases stop.symm.trans (closing.gone w returned).1
  | sleep stands live empty => exact closing.move (b := .waiting) stands nofun nofun
  | wake stands => exact closing.move (b := .ready) stands nofun nofun
  | @take w t rest stands top pop =>
    have moved := closing.move (b := .holding t) stands nofun nofun
    refine ⟨moved.size, moved.stopped, fun v returned => ?_, moved.joins⟩
    have empty : s.tasks = 0 := (moved.gone v returned).2
    rw [empty] at pop
    exact absurd pop Multiset.zero_ne_cons
  | @leave w stands stopped empty =>
    refine ⟨by simpa [move] using closing.size, closing.stopped,
      fun v returned => ⟨stopped, empty⟩, fun k joined v earlier => ?_⟩
    simp only [move, List.getElem?_set]
    split
    · simpa using (List.getElem?_eq_some_iff.mp stands).1
    · exact closing.joins k joined v earlier
  | @start w t stands =>
    have moved := closing.move (b := .running t) stands nofun nofun
    exact ⟨moved.size, moved.stopped, moved.gone, moved.joins⟩
  | finish stands =>
    have moved := closing.move (b := .ready) stands nofun nofun
    exact ⟨moved.size, moved.stopped, moved.gone, moved.joins⟩
  | shutdown first =>
    refine ⟨closing.size, rfl, fun w returned => ⟨rfl, (closing.gone w returned).2⟩, ?_⟩
    intro k joined w earlier
    cases joined
    exact absurd earlier (Nat.not_lt_zero w)
  | @join k others stands =>
    refine ⟨closing.size, ?_, closing.gone, fun j joined w earlier => ?_⟩
    · simpa [others] using closing.stopped
    · cases joined
      rcases Nat.lt_succ_iff_lt_or_eq.mp earlier with before | rfl
      · exact closing.joins k others w before
      · exact stands

theorem reachable_closing {n : Nat} {s : ThreadPool α} (run : Reachable n s) :
    Closing n s := by
  induction run with
  | new =>
    refine ⟨by simp [new], rfl, fun w returned => ?_, nofun⟩
    simp [new, List.getElem?_replicate] at returned
  | step run step ih => exact step_closing step ih

/-! ## Every task once -/

def Holds (s : ThreadPool α) (w : Nat) (t : Ticket α) : Prop :=
  ∃ p, s.workers[w]? = some p ∧ p.task = some t

def began (s : ThreadPool α) : List (Ticket α) := Event.begun s.log

def finished (s : ThreadPool α) : List (Ticket α) := Event.done s.log

/-- Queued, held by one worker, or finished, and only one of the three. -/
def InOnePlace (s : ThreadPool α) (t : Ticket α) : Prop :=
  (t ∈ s.tasks ∧ (∀ w, ¬ s.Holds w t) ∧ t ∉ s.finished) ∨
  (t ∉ s.tasks ∧ (∃! w, s.Holds w t) ∧ t ∉ s.finished) ∨
  (t ∉ s.tasks ∧ (∀ w, ¬ s.Holds w t) ∧ t ∈ s.finished)

theorem reachable_numbered {n : Nat} {s : ThreadPool α} (run : Reachable n s) :
    s.accepted.map Ticket.number = List.range s.accepted.length := by
  induction run with
  | new => rfl
  | step run step ih =>
    cases step with
    | enqueue t =>
      unfold enqueue
      split
      · exact ih
      · simp [ih, List.range_succ]
    | sleep | wake | take | leave | start | finish | shutdown | join => exact ih

theorem reachable_distinct {n : Nat} {s : ThreadPool α} (run : Reachable n s) :
    s.accepted.Nodup := by
  apply List.Nodup.of_map Ticket.number
  rw [reachable_numbered run]
  exact List.nodup_range

theorem held_eq (s : ThreadPool α) :
    contents Worker.task s.workers = s.ledger.held + s.ledger.running := by
  apply contents_add
  intro p
  cases p <;> simp [Worker.task, Worker.inHand, Worker.inCall]

theorem mem_held {s : ThreadPool α} {t : Ticket α} :
    t ∈ contents Worker.task s.workers ↔ ∃ w, s.Holds w t := mem_contents

theorem reachable_places {n : Nat} {s : ThreadPool α} (run : Reachable n s) :
    s.tasks + contents Worker.task s.workers + s.finished = (s.accepted : Multiset (Ticket α)) := by
  rw [held_eq, ← add_assoc]
  exact (reachable_balanced run).1

theorem finished_accepted {n : Nat} {s : ThreadPool α} (run : Reachable n s) {t : Ticket α}
    (done : t ∈ s.finished) : t ∈ s.accepted := by
  rw [← Multiset.mem_coe, ← reachable_places run]
  exact Multiset.mem_add.mpr (.inr done)

theorem number_inj {n : Nat} {s : ThreadPool α} (run : Reachable n s) {t u : Ticket α}
    (one : t ∈ s.accepted) (other : u ∈ s.accepted) (same : t.number = u.number) : t = u := by
  refine List.inj_on_of_nodup_map ?_ one other same
  rw [reachable_numbered run]
  exact List.nodup_range

theorem in_one_place {n : Nat} {s : ThreadPool α} (run : Reachable n s) {t : Ticket α}
    (accepted : t ∈ s.accepted) : s.InOnePlace t := by
  have places := reachable_places run
  have distinct : (s.tasks + contents Worker.task s.workers + s.finished).Nodup := by
    rw [places]
    exact Multiset.coe_nodup.mpr (reachable_distinct run)
  have somewhere : t ∈ s.tasks + contents Worker.task s.workers + s.finished := by
    rw [places]
    exact accepted
  rw [Multiset.nodup_add, Multiset.nodup_add] at distinct
  obtain ⟨⟨-, once, queued_held⟩, -, finished_apart⟩ := distinct
  rw [Multiset.disjoint_add_left] at finished_apart
  obtain ⟨queued_finished, held_finished⟩ := finished_apart
  rw [Multiset.mem_add, Multiset.mem_add, mem_held] at somewhere
  have free (away : t ∉ contents Worker.task s.workers) (w : Nat) : ¬ s.Holds w t :=
    fun holds => away (mem_held.mpr ⟨w, holds⟩)
  rcases somewhere with (queued | ⟨w, holds⟩) | done
  · have away := Multiset.disjoint_left.mp queued_held queued
    exact .inl ⟨queued, free away, Multiset.disjoint_left.mp queued_finished queued⟩
  · have held := mem_held.mpr ⟨w, holds⟩
    refine .inr (.inl ⟨fun queued => Multiset.disjoint_left.mp queued_held queued held,
      ⟨w, holds, ?_⟩, Multiset.disjoint_left.mp held_finished held⟩)
    rintro v ⟨q, there, too⟩
    obtain ⟨p, here, has⟩ := holds
    exact slot_unique once there here too has
  · refine .inr (.inr ⟨fun queued => Multiset.disjoint_left.mp queued_finished queued done,
      free fun held => Multiset.disjoint_left.mp held_finished held done, done⟩)

theorem began_once {n : Nat} {s : ThreadPool α} (run : Reachable n s) :
    (s.began.map Ticket.number).Nodup := by
  obtain ⟨places, begun⟩ := reachable_balanced run
  have within : (Event.begun s.ledger.log : Multiset (Ticket α)) ≤ s.ledger.accepted := by
    rw [begun, ← places]
    exact add_le_add_left (Multiset.le_add_left _ _) _
  have numbers := Multiset.map_le_map (f := Ticket.number) within
  rw [Multiset.map_coe, Multiset.map_coe] at numbers
  change _ ≤ (s.accepted.map Ticket.number : Multiset Nat) at numbers
  rw [reachable_numbered run] at numbers
  exact Multiset.coe_nodup.mp (Multiset.nodup_of_le numbers
    (Multiset.coe_nodup.mpr List.nodup_range))

theorem joined_finished {n : Nat} (workers : 0 < n) {s : ThreadPool α} (run : Reachable n s)
    (joined : s.joined = some n) : ∀ t ∈ s.accepted, t ∈ s.finished := by
  obtain ⟨size, stopped, gone, joins⟩ := reachable_closing run
  have returned := joins n joined
  have empty : s.tasks = 0 := (gone 0 (returned 0 workers)).2
  have idle : contents Worker.task s.workers = 0 := by
    refine Multiset.eq_zero_of_forall_notMem fun t held => ?_
    obtain ⟨w, p, stands, has⟩ := mem_contents.mp held
    have inside : w < n := size ▸ (List.getElem?_eq_some_iff.mp stands).1
    cases (returned w inside).symm.trans stands
    cases has
  have places := reachable_places run
  rw [empty, idle, add_zero, zero_add] at places
  intro t accepted
  rw [← Multiset.mem_coe, ← places] at accepted
  exact accepted

theorem every_task_once {n : Nat} (workers : 0 < n) {s : ThreadPool α} (run : Reachable n s) :
    s.tasks + contents Worker.task s.workers + s.finished = (s.accepted : Multiset (Ticket α)) ∧
    (∀ t ∈ s.accepted, s.InOnePlace t) ∧
    (∀ w t s', Step s (.take w t) s' → ∀ u ∈ s.tasks, u.task.weight ≤ t.task.weight) ∧
    (s.began.map Ticket.number).Nodup ∧
    (∀ t, (s.enqueue t).1 = none → (s.enqueue t).2 = s) ∧
    (s.joined = some n → ∀ t ∈ s.accepted, t ∈ s.finished) := by
  refine ⟨reachable_places run, fun t => in_one_place run, ?_, began_once run, ?_,
    joined_finished workers run⟩
  · intro w t s' step u queued
    cases step with
    | take stands top pop => exact Int.not_lt.mp (top.2 u queued)
  · intro t threw
    exact enqueue_threw threw

/-- Two workers and two tasks: the one that came second is the heavier, and is taken first. -/
theorem every_task_once_joined : ∃ s : ThreadPool Nat, Reachable 2 s ∧ s.joined = some 2 ∧
    s.accepted.map (fun t => t.task.weight) = [16, 200] ∧
    s.began.map (fun t => t.task.weight) = [200, 16] ∧ ∀ t ∈ s.accepted, t ∈ s.finished := by
  let t : Ticket Nat := ⟨0, ⟨7, 16⟩⟩
  let u : Ticket Nat := ⟨1, ⟨8, 200⟩⟩
  have queued := (Reachable.new (α := Nat)).step (.enqueue (new 2) t.task)
  have both := queued.step (.enqueue _ u.task)
  have first := both.step (.take (w := 1) (t := u) rfl
    ⟨Multiset.mem_cons_self u (t ::ₘ 0), by simp [new, ThreadPool.enqueue, t, u, Ticket.lt]⟩
    (show _ = u ::ₘ t ::ₘ 0 from rfl))
  have second := first.step (.take (w := 0) (t := t) rfl
    ⟨Multiset.mem_cons_self t 0, by simp [t, Ticket.lt]⟩ (show _ = t ::ₘ 0 from rfl))
  have began := (second.step (.start (w := 1) (t := u) rfl)).step (.start (w := 0) (t := t) rfl)
  have ended := (began.step (.finish (w := 0) (t := t) rfl)).step (.finish (w := 1) (t := u) rfl)
  have stopped := ended.step (.shutdown rfl)
  have left := (stopped.step (.leave (w := 0) rfl rfl rfl)).step (.leave (w := 1) rfl rfl rfl)
  have joined := (left.step (.join (k := 0) rfl rfl)).step (.join (k := 1) rfl rfl)
  exact ⟨_, joined, rfl, rfl, rfl, (every_task_once Nat.two_pos joined).2.2.2.2.2 rfl⟩

end ThreadPool

end Http2Server
