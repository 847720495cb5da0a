import Http2Server.SendOrder
import Http2Server.Signals

/-!
# Calls of sendData return

`Client::sendData` waits for its future, and only the pool can end the wait. Here the thread of
the event loop stands beside the pool with the wakeups that are due.

- `reachable_loop`: the wakeups set apart, it is the event loop of `SendOrder`.
- `sendData_returns`: no call waits for ever.
-/

namespace Http2Server

open Lib Lib.Dispatch Lib.Settling

structure Sender where
  signals : Signals SendCall
  future : Option Nat := none
  calls : List SendCall := []

namespace Sender

def start (n : Nat) : Sender := { signals := .new n }

/-- The event loop, without the wakeups. -/
def loop (s : Sender) : EventLoop where
  pool := s.signals.pool
  future := s.future
  calls := s.calls

/-- What goes on once a call has been made: the pool, until the call returns. -/
inductive Onward : Sender → Sender → Prop
  | pool {s : Sender} {signals : Signals SendCall} (step : Signals.Advance s.signals signals) :
      Onward s { s with signals }
  | get {s : Sender} {t : ThreadPool.Ticket SendCall} (waits : s.future = some t.number)
      (done : t ∈ s.signals.pool.finished) : Onward s { s with future := none }

inductive Step : Sender → Sender → Prop
  | onward {s s' : Sender} (step : Onward s s') : Step s s'
  | sendData {s : Sender} {number : Nat} (call : SendCall) (weight : Int) (idle : s.future = none)
      (taken : (s.signals.pool.enqueue ⟨call, weight⟩).1 = some number) :
      Step s {
        signals := { s.signals with
          pool := (s.signals.pool.enqueue ⟨call, weight⟩).2
          owed := s.signals.owed + 1 }
        future := some number
        calls := s.calls ++ [call] }
  | threw {s : Sender} (call : SendCall) (weight : Int) (idle : s.future = none)
      (stopped : (s.signals.pool.enqueue ⟨call, weight⟩).1 = none) : Step s s
  | spurious {s : Sender} {w : Nat} {p : ThreadPool SendCall}
      (step : ThreadPool.Step s.signals.pool (.wake w) p) :
      Step s { s with signals := { s.signals with
        pool := p, notified := s.signals.notified.erase w } }
  | shutdown {s : Sender} {p : ThreadPool SendCall}
      (step : ThreadPool.Step s.signals.pool .shutdown p) :
      Step s { s with signals := { s.signals with pool := p, all := true } }

inductive Reachable (n : Nat) : Sender → Prop
  | start : Reachable n (start n)
  | step {s s' : Sender} (before : Reachable n s) (step : Step s s') : Reachable n s'

variable {n : Nat} {s s' : Sender}

/-! ## The two accounts -/

theorem reachable_signals (run : Reachable n s) : Signals.Reachable n s.signals := by
  induction run with
  | start => exact .new
  | step before step ih =>
    cases step with
    | onward step =>
      cases step with
      | pool step => exact ih.advance step
      | get => exact ih
    | sendData call weight idle taken =>
      have called := ih.disturb (.enqueue _ ⟨call, weight⟩)
      rw [taken] at called
      exact called
    | threw => exact ih
    | spurious step => exact ih.disturb (.spurious step)
    | shutdown step => exact ih.disturb (.shutdown step)

/-- Reaching a sleeper is nothing to the pool, and the rest are steps of it. -/
theorem advance_pool {g g' : Signals SendCall} (step : Signals.Advance g g') :
    g'.pool = g.pool ∨ ∃ a, (∀ t, a ≠ .enqueue t) ∧ ThreadPool.Step g.pool a g'.pool := by
  cases step with
  | notifyOne | unheard | notifyAll => exact .inl rfl
  | wake _ step => exact .inr ⟨_, by simp, step⟩
  | @own a _ own step =>
    refine .inr ⟨a, ?_, step⟩
    rintro t rfl
    cases own
  | join _ step => exact .inr ⟨_, by simp, step⟩

/-- **Refinement.** The wakeups set apart, every step is one of the event loop, or none. -/
theorem reachable_loop (run : Reachable n s) : EventLoop.Reachable n s.loop := by
  induction run with
  | start => exact .start
  | @step s s' before step ih =>
    cases step with
    | onward step =>
      cases step with
      | @pool signals step =>
        obtain same | ⟨a, other, step⟩ := advance_pool step
        · have idle : ({ s with signals } : Sender).loop = s.loop := by
            rw [loop, loop, same]
          rw [idle]
          exact ih
        · exact ih.step (.pool other step)
      | get waits done => exact ih.step (.get waits done)
    | sendData call weight idle taken => exact ih.step (.sendData call weight idle taken)
    | threw => exact ih
    | spurious step => exact ih.step (.pool (by simp) step)
    | shutdown step => exact ih.step (.pool (by simp) step)

theorem steps_reachable {k : Nat} (run : Reachable n s) (steps : Steps Onward k s s') :
    Reachable n s' :=
  steps.invariant (fun _ _ before step => before.step (.onward step)) run

/-! ## The end of a wait -/

/-- How much is left to do, the return among it. -/
def work (s : Sender) : Nat := s.signals.work + if s.future.isSome then 1 else 0

theorem onward_work (step : Onward s s') : s'.work < s.work := by
  cases step with
  | pool step => exact Nat.add_lt_add_right (Signals.advance_work step) _
  | get waits done =>
    simp only [work, waits, Option.isSome_some, Option.isSome_none, ↓reduceIte, Bool.false_eq_true]
    omega

/-- Where nothing goes on any more, the pool has run what was waited for. -/
theorem settled_returned (workers : 0 < n) (run : Reachable n s) (settled : Settled Onward s) :
    s.future = none := by
  by_contra waits
  obtain ⟨number, waits⟩ := Option.ne_none_iff_exists'.mp waits
  have resting : Settled Signals.Advance s.signals := fun _ step => settled _ (.pool step)
  obtain ⟨t, last, rfl⟩ := (EventLoop.reachable_waiting (reachable_loop run)).waits _ waits
  have heard := Signals.reachable_heard workers (reachable_signals run)
  have done := Signals.settled_finished (reachable_signals run) heard resting t
    (List.mem_of_getLast? last)
  exact settled _ (.get waits done)

/-- While no call waits, the writes are those of the calls. -/
theorem writes_idle (run : Reachable n s) (idle : s.future = none) :
    s.loop.writes = s.calls.flatMap Event.both := by
  obtain ⟨_, turn, calls, quiet, _⟩ := EventLoop.reachable_waiting (reachable_loop run)
  have same : s.calls = s.signals.pool.accepted.map fun t => t.task.task := calls
  rw [same, ← Event.map_both]
  exact congrArg _ (turn.log_of_quiet (quiet idle))

/-- **Returns.** However the workers are scheduled, after a bounded number of steps the call that
is made has returned, its bytes and those of all calls before it written, each call's at once. -/
theorem sendData_returns (workers : 0 < n) (run : Reachable n s) :
    (∀ k s', Steps Onward k s s' → k ≤ s.work) ∧
    (∃ k s', Steps Onward k s s' ∧ Settled Onward s') ∧
    ∀ k s', Steps Onward k s s' → Settled Onward s' →
      s'.future = none ∧ s'.calls = s.calls ∧ s'.loop.writes = s.calls.flatMap Event.both := by
  have lower : ∀ s s' : Sender, Onward s s' → s'.work < s.work := fun _ _ => onward_work
  refine ⟨?_, exists_settled lower s, ?_⟩
  · intro k s' steps
    have bound := steps.measured lower
    omega
  · intro k s' steps settled
    have run' := steps_reachable run steps
    have returned := settled_returned workers run' settled
    have same : s'.calls = s.calls := by
      refine steps.invariant (P := fun s' => s'.calls = s.calls) ?_ rfl
      rintro s₁ s₂ same step
      cases step <;> exact same
    refine ⟨returned, same, ?_⟩
    rw [← same]
    exact writes_idle run' returned

/-- One worker, and a second call that is made once the first has returned. -/
theorem sendData_returns_two : ∃ s s' : Sender, Reachable 1 s ∧ s.future = some 1 ∧
    ∃ k, Steps Onward k s s' ∧ s'.future = none ∧ s'.loop.writes =
      [.began ⟨1, [0, 4]⟩, .ended ⟨1, [0, 4]⟩, .began ⟨2, [0, 6]⟩, .ended ⟨2, [0, 6]⟩] := by
  let t : ThreadPool.Ticket SendCall := ⟨0, ⟨⟨1, [0, 4]⟩, 16⟩⟩
  have called := (Reachable.start (n := 1)).step (.sendData t.task.task 16 rfl rfl)
  have taken := called.step (.onward (.pool (.own (a := .take 0 t) rfl (.take rfl
    ⟨Multiset.mem_cons_self t 0, by simp [start, Signals.new, ThreadPool.new, ThreadPool.enqueue, t,
      ThreadPool.Ticket.lt]⟩ (show _ = t ::ₘ 0 from rfl)))))
  have started := taken.step (.onward (.pool (.own (a := .start 0) rfl (.start (t := t) rfl))))
  have finished := started.step (.onward (.pool (.own (a := .finish 0) rfl (.finish (t := t) rfl))))
  have returned := finished.step (.onward (.get (t := t) rfl (List.mem_singleton_self t)))
  have again := returned.step (.sendData ⟨2, [0, 6]⟩ 200 rfl rfl)
  obtain ⟨_, ⟨k, s', steps, settled⟩, last⟩ := sendData_returns Nat.one_pos again
  obtain ⟨free, _, written⟩ := last k s' steps settled
  exact ⟨_, s', again, rfl, k, steps, free, written⟩

end Sender

end Http2Server
