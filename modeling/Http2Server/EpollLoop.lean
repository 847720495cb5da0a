import Http2Server.Epoller
import Http2Server.Visits
import Mathlib.Data.Finset.Card

/-!
# The event loop

`main` and `Epoller::epollLoop`, with the descriptors the kernel keeps for the process:
those that are open and those epoll watches. The results of system calls come from
outside, and so does what is read through the pointer to a deleted client.

- `turn_turned`: what one event of the loop can do.
- `Run.invariant`: what every event keeps, a run keeps.
-/

namespace Http2Server

open Lib

/-- `TIMEOUT`, in seconds. -/
def timeout : Nat := 600

/-- The results of the system calls of one `acceptClient`. -/
structure AcceptCalls where
  accept : Option Nat
  getFlags : Bool
  setFlags : Bool
  deriving DecidableEq, Repr

/-- What the loop reads through its pointer to a client. -/
structure Seen where
  fdState : FdState
  fd : Nat
  id : Nat
  deriving DecidableEq, Repr

/-- What an event of the loop meets outside the process, the time included. `stale` is
what a client that has been deleted is read as. -/
structure Occasion where
  now : Nat
  calls : AcceptCalls
  added : Bool
  env : Env
  accept : SslAccept
  read : ReadResult
  fits : read.Fits
  stale : Seen

/-- The event of a client that was accepted at a time. -/
def Occasion.event (o : Occasion) (start : Nat) : ClientEvent where
  env := o.env
  timedOut := start + timeout < o.now
  accept := o.accept
  read := o.read
  fits := o.fits

inductive EpollFdType where
  | none
  | socket
  | client
  | server
  deriving DecidableEq, Repr

/-- `start` of each client is kept by its id. -/
structure Process where
  manager : ClientManager := .empty
  start : Nat → Nat := fun _ => 0
  sockets : List Nat
  epollFD : Nat
  opened : Finset Nat
  interest : Finset Nat := ∅

/-- What a run is told by. -/
inductive Label where
  | accepted (id now : Nat)
  | handled (id now : Nat) (e : ClientEvent)
  | removed (id : Nat)

namespace Process

/-- `epoll_ctl` refuses a descriptor that is not open or is watched already, and may
fail otherwise. -/
def addFD (p : Process) (fd : Nat) (added : Bool) : Bool × Process :=
  if added = true ∧ fd ∈ p.opened ∧ fd ∉ p.interest then
    (true, { p with interest := insert fd p.interest })
  else (false, p)

def removeFD (p : Process) (fd : Nat) : Bool × Process :=
  (fd ∈ p.interest, { p with interest := p.interest.erase fd })

def getType (p : Process) (fd : Nat) : EpollFdType :=
  if Epoller.isClient p.manager fd then .client
  else if fd ∈ p.sockets then .socket
  else if fd = p.epollFD then .server
  else .none

/-- The descriptor of a new client; one whose flags cannot be set is closed again. -/
def acceptClient (p : Process) (o : Occasion) : Option Nat × Process :=
  match o.calls.accept with
  | none => (none, p)
  | some fd =>
    if o.calls.getFlags = false ∨ o.calls.setFlags = false then (none, p)
    else (some fd, { p with
      manager := p.manager.acceptClient fd
      start := Function.update p.start (p.manager.ctr + 1) o.now
      opened := insert fd p.opened })

/-- An event of a listening socket. The result of `addFD` is dropped. -/
def socketTurn (p : Process) (o : Occasion) : List Label × Process :=
  match p.acceptClient o with
  | (none, p) => ([], p)
  | (some fd, p) => ([.accepted p.manager.ctr o.now], (p.addFD fd o.added).2)

/-- What the loop does behind `handleClient`, by what it reads through its pointer. -/
def closeTurn (p : Process) (seen : Seen) : List Label × Process :=
  if seen.fdState = .closed then
    ([.removed seen.id],
      { (p.removeFD seen.fd).2 with manager := p.manager.removeClient seen.id })
  else ([], p)

/-- What the loop reads of a client once `handleClient` is done with it. -/
def seen (m : ClientManager) (id : Nat) (o : Occasion) : Seen :=
  match m.getClient id with
  | some c => ⟨c.client.session.fdState, c.fd, c.id⟩
  | none => o.stale

/-- An event of a client. -/
def clientTurn (p : Process) (c : ClientRecord) (o : Occasion) :
    Option (List Label × Process) :=
  let e := o.event (p.start c.id)
  (p.manager.handleClient c e).map fun m =>
    let (labels, p) := closeTurn { p with manager := m } (seen m c.id o)
    (.handled c.id o.now e :: labels, p)

/-- One event of the loop. -/
def turn (p : Process) (fd : Nat) (o : Occasion) : Option (List Label × Process) :=
  match p.getType fd with
  | .client =>
    match p.manager.clients[fd]? with
    | some c => p.clientTurn c o
    | none => some ([], p)
  | .socket => some (p.socketTurn o)
  | .server => some ([], p)
  | .none => some ([], p)

/-- The events of one `epoll_wait`; none if it fails. -/
def epollLoop (p : Process) : List (Nat × Occasion) → Option (List Label × Process)
  | [] => some ([], p)
  | (fd, o) :: rest =>
    match p.turn fd o with
    | none => none
    | some (labels, p) => (p.epollLoop rest).map fun r => (labels ++ r.1, r.2)

end Process

/-! ## Startup -/

/-- The results of the calls `main` makes before its loop. -/
structure Startup where
  epollCreate : Option Nat
  context : Bool
  certificate : Bool
  privateKey : Bool
  socket : Option Nat
  setsockopt : Bool
  bind : Bool
  listen : Bool
  getFlags : Bool
  added : Bool
  deriving DecidableEq, Repr

namespace Startup

/-- The constructor of `Socket`: its descriptor, which it has even if a later call fails,
and whether the socket came to be listed. A call that fails has the descriptor closed. -/
def construct (s : Startup) : Option Nat × Bool :=
  if s.context = false ∨ s.certificate = false ∨ s.privateKey = false then (none, false)
  else match s.socket with
    | none => (none, false)
    | some fd => (some fd, s.setsockopt && s.bind && s.listen && s.getFlags)

/-- `main` up to its loop. Without epoll it ends in `Logger::fatal`. -/
def start (s : Startup) (inherited : Finset Nat) : Option Process :=
  s.epollCreate.map fun epollFD =>
    let (sockFD, listening) := s.construct
    let sockets := if listening then sockFD.toList else []
    let p : Process :=
      { sockets, epollFD, opened := sockets.toFinset ∪ insert epollFD inherited }
    match sockFD with
    | none => p
    | some fd => (p.addFD fd s.added).2

end Startup

/-! ## What the kernel promises -/

/-- A new descriptor is below the limit of the process and was not open. -/
def Promised (limit : Nat) (opened : Finset Nat) (fd : Nat) : Prop := fd < limit ∧ fd ∉ opened

structure Startup.Kept (limit : Nat) (inherited : Finset Nat) (s : Startup) : Prop where
  below : ∀ fd ∈ inherited, fd < limit
  epoll : ∀ fd ∈ s.epollCreate, Promised limit inherited fd
  socket : ∀ fd ∈ s.socket, ∀ epollFD ∈ s.epollCreate, Promised limit (insert epollFD inherited) fd

namespace Process

/-- A descriptor that is accepted is new. -/
def Fair (limit : Nat) (p : Process) (_ : Nat) (o : Occasion) : Prop :=
  ∀ new ∈ o.calls.accept, Promised limit p.opened new

/-- Each event of a loop is as required of the events, where the loop comes to it. -/
def Each (allowed : Process → Nat → Occasion → Prop) : Process → List (Nat × Occasion) → Prop
  | _, [] => True
  | p, (fd, o) :: rest =>
    allowed p fd o ∧ ∀ labels p', p.turn fd o = some (labels, p') → Each allowed p' rest

/-- Any number of turns of `main`'s loop, as long as the process lives. -/
inductive Run (allowed : Process → Nat → Occasion → Prop) (p : Process) :
    List Label → Process → Prop
  | start : Run allowed p [] p
  | loop {labels more : List Label} {p' p'' : Process} (before : Run allowed p labels p')
      {events : List (Nat × Occasion)} (each : Each allowed p' events)
      (done : p'.epollLoop events = some (more, p'')) : Run allowed p (labels ++ more) p''

/-! ## One event -/

theorem addFD_snd (p : Process) (fd : Nat) (added : Bool) :
    (p.addFD fd added).2 = { p with
      interest := if added = true ∧ fd ∈ p.opened then insert fd p.interest else p.interest } := by
  unfold addFD
  by_cases watched : fd ∈ p.interest
  · rw [if_neg fun all => all.2.2 watched, Finset.insert_eq_of_mem watched, ite_self]
  · simp only [watched, not_false_eq_true, and_true]
    split <;> rfl

/-- What an event of the loop can do. The loop goes on with what it has read of its
client, or of what was its client. -/
inductive Turned (p : Process) (fd : Nat) (o : Occasion) : List Label → Process → Prop
  | nothing : Turned p fd o [] p
  | accepted {new : Nat} (listening : fd ∈ p.sockets) (accept : o.calls.accept = some new) :
      Turned p fd o [.accepted (p.manager.ctr + 1) o.now]
        { p with
          manager := p.manager.acceptClient new
          start := Function.update p.start (p.manager.ctr + 1) o.now
          opened := insert new p.opened
          interest := if o.added then insert new p.interest else p.interest }
  | kept {c : ClientRecord} {m : ClientManager} (found : p.manager.clients[fd]? = some c)
      (handled : p.manager.handleClient c (o.event (p.start c.id)) = some m)
      (still : (seen m c.id o).fdState ≠ .closed) :
      Turned p fd o [.handled c.id o.now (o.event (p.start c.id))] { p with manager := m }
  | removed {c : ClientRecord} {m : ClientManager} (found : p.manager.clients[fd]? = some c)
      (handled : p.manager.handleClient c (o.event (p.start c.id)) = some m)
      (closed : (seen m c.id o).fdState = .closed) :
      Turned p fd o
        [.handled c.id o.now (o.event (p.start c.id)), .removed (seen m c.id o).id]
        { p with
          manager := m.removeClient (seen m c.id o).id
          interest := p.interest.erase (seen m c.id o).fd }

theorem socketTurn_turned {p : Process} {fd : Nat} (listening : fd ∈ p.sockets) (o : Occasion) :
    Turned p fd o (p.socketTurn o).1 (p.socketTurn o).2 := by
  unfold socketTurn acceptClient
  split
  · next p' none =>
    split at none
    · obtain rfl := congrArg Prod.snd none
      exact .nothing
    · split at none
      · obtain rfl := congrArg Prod.snd none
        exact .nothing
      · cases none
  · next new p' accepted =>
    split at accepted
    · cases accepted
    · next new' accept =>
      split at accepted
      · cases accepted
      · cases accepted
        rw [addFD_snd]
        simp only [Finset.mem_insert_self, and_true]
        exact .accepted listening accept

theorem clientTurn_turned {p p' : Process} {fd : Nat} {c : ClientRecord} {o : Occasion}
    {labels : List Label} (found : p.manager.clients[fd]? = some c)
    (h : p.clientTurn c o = some (labels, p')) : Turned p fd o labels p' := by
  obtain ⟨m, handled, step⟩ := Option.map_eq_some_iff.mp h
  by_cases closed : (seen m c.id o).fdState = .closed
  · rw [closeTurn, if_pos closed] at step
    cases step
    exact .removed found handled closed
  · rw [closeTurn, if_neg closed] at step
    cases step
    exact .kept found handled closed

/-- An event on the descriptor of a client is the client's. -/
theorem turn_found {p : Process} {fd : Nat} {c : ClientRecord}
    (found : p.manager.clients[fd]? = some c) (o : Occasion) : p.turn fd o = p.clientTurn c o := by
  rw [turn, getType, if_pos (Epoller.isClient_of_fd found), found]

/-- **Turns.** An event of the loop does one of these things, if it does not end the process. -/
theorem turn_turned {p p' : Process} {fd : Nat} {o : Occasion} {labels : List Label}
    (h : p.turn fd o = some (labels, p')) : Turned p fd o labels p' := by
  unfold turn at h
  split at h
  · split at h
    · next c found => exact clientTurn_turned found h
    · cases h
      exact .nothing
  · next type =>
    have listening : fd ∈ p.sockets := by
      unfold getType at type
      split_ifs at type
      assumption
    have turned := socketTurn_turned listening o
    rw [Option.some.inj h] at turned
    exact turned
  · cases h
    exact .nothing
  · cases h
    exact .nothing

theorem Each.mono {allowed allowed' : Process → Nat → Occasion → Prop}
    (weaker : ∀ {p fd o}, allowed p fd o → allowed' p fd o) {p : Process}
    {events : List (Nat × Occasion)} (each : Each allowed p events) : Each allowed' p events := by
  induction events generalizing p with
  | nil => trivial
  | cons event events ih =>
    exact ⟨weaker each.1, fun labels p' step => ih (each.2 labels p' step)⟩

theorem Run.mono {allowed allowed' : Process → Nat → Occasion → Prop}
    (weaker : ∀ {p fd o}, allowed p fd o → allowed' p fd o) {p p' : Process}
    {labels : List Label} (run : Run allowed p labels p') : Run allowed' p labels p' := by
  induction run with
  | start => exact .start
  | loop _ each done ih => exact .loop ih (each.mono weaker) done

section
variable {allowed : Process → Nat → Occasion → Prop} {P : List Label → Process → Prop}
  (turn : ∀ {labels more : List Label} {p p' : Process} {fd : Nat} {o : Occasion}, P labels p →
    allowed p fd o → p.turn fd o = some (more, p') → P (labels ++ more) p')

include turn

/-- What every event keeps, the events of a loop keep. -/
theorem epollLoop_invariant {events : List (Nat × Occasion)} {labels more : List Label}
    {p p' : Process} (before : P labels p) (each : Each allowed p events)
    (done : p.epollLoop events = some (more, p')) : P (labels ++ more) p' := by
  induction events generalizing labels more p with
  | nil =>
    cases done
    rwa [List.append_nil]
  | cons event events ih =>
    obtain ⟨fd, o⟩ := event
    rw [epollLoop] at done
    split at done
    · cases done
    · next first next step =>
      obtain ⟨⟨rest, last⟩, onwards, same⟩ := Option.map_eq_some_iff.mp done
      cases same
      rw [← List.append_assoc]
      exact ih (turn before each.1 step) (each.2 first next step) onwards

/-- **Runs.** What every event keeps, a run keeps. -/
theorem Run.invariant {p p' : Process} {labels : List Label} (start : P [] p)
    (run : Run allowed p labels p') : P labels p' := by
  induction run with
  | start => exact start
  | loop _ each done ih => exact epollLoop_invariant turn ih each done

end

end Process

end Http2Server
