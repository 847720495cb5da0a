import Http2Server.Bytes
import Http2Server.ThreadPool

/-!
# The order of writes

`Client::sendData` gives its `SSL_write` to the pool, where tasks of greater weight
go first, and waits for the future. All its callers run on the event loop's thread.
-/

namespace Http2Server

open Lib Lib.Dispatch

/-- What the task of a `sendData` captures. -/
structure SendCall where
  client : Nat
  data : Bytes
  deriving DecidableEq, Repr

/-- The thread of the event loop, beside the pool. `future` is what a `sendData`
waits for, while one does. `calls` are those that did not end in an exception. -/
structure EventLoop where
  pool : ThreadPool SendCall
  future : Option Nat := none
  calls : List SendCall := []

namespace EventLoop

def start (n : Nat) : EventLoop := { pool := .new n }

inductive Step : EventLoop → EventLoop → Prop where
  | sendData {l : EventLoop} {number : Nat} (call : SendCall) (weight : Int)
      (idle : l.future = none)
      (taken : (l.pool.enqueue ⟨call, weight⟩).1 = some number) :
      Step l { pool := (l.pool.enqueue ⟨call, weight⟩).2, future := some number,
               calls := l.calls ++ [call] }
  | threw {l : EventLoop} (call : SendCall) (weight : Int) (idle : l.future = none)
      (stopped : (l.pool.enqueue ⟨call, weight⟩).1 = none) :
      Step l { l with pool := (l.pool.enqueue ⟨call, weight⟩).2 }
  | get {l : EventLoop} {t : ThreadPool.Ticket SendCall} (waits : l.future = some t.number)
      (done : t ∈ l.pool.finished) : Step l { l with future := none }
  | pool {l : EventLoop} {a : ThreadPool.Action SendCall} {p : ThreadPool SendCall}
      (other : ∀ t, a ≠ .enqueue t) (step : ThreadPool.Step l.pool a p) :
      Step l { l with pool := p }

inductive Reachable (n : Nat) : EventLoop → Prop where
  | start : Reachable n (start n)
  | step {l l' : EventLoop} : Reachable n l → Step l l' → Reachable n l'

/-- The `SSL_write` calls: a task begins with its call and ends with its return. -/
def writes (l : EventLoop) : List (Event SendCall) :=
  l.pool.log.map (Event.map fun t => t.task.task)

/-- The last task taken in is the one waited for; while none is, the pool is quiet. -/
structure Waiting (n : Nat) (l : EventLoop) : Prop where
  pool : ThreadPool.Reachable n l.pool
  turn : l.pool.ledger.InTurn
  calls : l.calls = l.pool.accepted.map fun t => t.task.task
  idle : l.future = none → l.pool.ledger.Quiet
  waits : ∀ number, l.future = some number →
    ∃ t, l.pool.accepted.getLast? = some t ∧ t.number = number

theorem waiting_start (n : Nat) : Waiting n (start n) := by
  have empty : (start n).pool.ledger = ⟨[], 0, 0, 0, []⟩ := ThreadPool.ledger_new n
  refine ⟨.new, ?_, rfl, fun _ => ?_, nofun⟩
  · rw [empty]
    exact .quiet []
  · rw [empty]
    exact ⟨rfl, rfl, rfl⟩

theorem step_waiting {n : Nat} {l l' : EventLoop} (step : Step l l') (waiting : Waiting n l) :
    Waiting n l' := by
  obtain ⟨pool, turn, calls, idle, waits⟩ := waiting
  cases step with
  | @sendData number call weight free taken =>
    have step := ThreadPool.Step.enqueue l.pool ⟨call, weight⟩
    have accepted := ThreadPool.enqueue_taken taken
    refine ⟨pool.step step, ?_, ?_, nofun, ?_⟩
    · exact Ledger.step_inTurn (ThreadPool.step_ledger step) turn fun _ => idle free
    · simp [accepted, calls]
    · intro number same
      cases same
      exact ⟨_, by rw [accepted]; exact List.getLast?_concat, rfl⟩
  | threw call weight free stopped =>
    rw [ThreadPool.enqueue_threw stopped]
    exact ⟨pool, turn, calls, idle, waits⟩
  | @get t waiting done =>
    obtain ⟨u, last, number⟩ := waits _ waiting
    have accepted : u ∈ l.pool.accepted := List.mem_of_getLast? last
    have same : t = u :=
      ThreadPool.number_inj pool (ThreadPool.finished_accepted pool done) accepted number.symm
    refine ⟨pool, turn, calls, fun _ => ?_, nofun⟩
    subst same
    exact turn.quiet_of_done (ThreadPool.reachable_distinct pool) last done
  | @pool a p other step =>
    have accepted := ThreadPool.step_accepted step other
    refine ⟨pool.step step, ?_, ?_, fun free => ?_, fun number waiting => ?_⟩
    · exact Ledger.step_inTurn (ThreadPool.step_ledger step) turn fun changed =>
        absurd accepted changed
    · rw [accepted]
      exact calls
    · exact Ledger.step_quiet (ThreadPool.step_ledger step) accepted (idle free)
    · rw [accepted]
      exact waits number waiting

theorem reachable_waiting {n : Nat} {l : EventLoop} (run : Reachable n l) : Waiting n l := by
  induction run with
  | start => exact waiting_start n
  | step run step ih => exact step_waiting step ih

/-- One write after the other, each with the data of its own call, in the order of
the calls. -/
theorem writes_in_order {n : Nat} {l : EventLoop} (run : Reachable n l) :
    l.writes <+: l.calls.flatMap Event.both ∧
    (l.future = none → l.writes = l.calls.flatMap Event.both) := by
  obtain ⟨pool, turn, calls, idle, waits⟩ := reachable_waiting run
  rw [calls, ← Event.map_both]
  constructor
  · exact turn.log.map _
  · intro free
    exact congrArg _ (turn.log_of_quiet (idle free))

/-- Two calls, the second with the greater weight and for the other worker. -/
theorem writes_in_order_two : ∃ l : EventLoop, Reachable 2 l ∧ l.future = none ∧
    l.writes =
      [.began ⟨1, [0, 4]⟩, .ended ⟨1, [0, 4]⟩, .began ⟨2, [0, 6]⟩, .ended ⟨2, [0, 6]⟩] := by
  let t : ThreadPool.Ticket SendCall := ⟨0, ⟨⟨1, [0, 4]⟩, 16⟩⟩
  let u : ThreadPool.Ticket SendCall := ⟨1, ⟨⟨2, [0, 6]⟩, 200⟩⟩
  have called := (Reachable.start (n := 2)).step (.sendData t.task.task 16 rfl rfl)
  have taken := called.step (.pool (a := .take 1 t) (by simp) (.take rfl
    ⟨Multiset.mem_cons_self t 0, by simp [start, ThreadPool.new, ThreadPool.enqueue, t,
      ThreadPool.Ticket.lt]⟩ (show _ = t ::ₘ 0 from rfl)))
  have started := taken.step (.pool (a := .start 1) (by simp) (.start (t := t) rfl))
  have finished := started.step (.pool (a := .finish 1) (by simp) (.finish (t := t) rfl))
  have returned := finished.step (.get (t := t) rfl (List.mem_singleton_self t))
  have called := returned.step (.sendData u.task.task 200 rfl rfl)
  have taken := called.step (.pool (a := .take 0 u) (by simp) (.take rfl
    ⟨Multiset.mem_cons_self u 0, by simp [start, ThreadPool.new, ThreadPool.enqueue, u,
      ThreadPool.move, ThreadPool.Ticket.lt]⟩ (show _ = u ::ₘ 0 from rfl)))
  have started := taken.step (.pool (a := .start 0) (by simp) (.start (t := u) rfl))
  have finished := started.step (.pool (a := .finish 0) (by simp) (.finish (t := u) rfl))
  have returned := finished.step (.get (t := u) rfl
    (List.mem_cons_of_mem t (List.mem_singleton_self u)))
  exact ⟨_, returned, rfl, (writes_in_order returned).2 rfl⟩

end EventLoop

end Http2Server
