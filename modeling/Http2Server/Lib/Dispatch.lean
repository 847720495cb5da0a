import Mathlib.Algebra.Order.Group.Multiset
import Mathlib.Data.List.MinMax

/-!
# Items handed from a queue to slots

A priority queue promises no more of its `top` than that nothing in it is greater:
between equals any may come first. A slot holds at most one item, read off it by
`item`. A `Ledger` says where every item is that was taken in, and what has begun
and ended:

* `Ledger.Balanced`, `step_balanced`: nothing is lost and nothing comes twice;
* `Ledger.InTurn`, `step_inTurn`: where an item comes in only when all before it
  have ended, items begin and end one at a time in the order they came.
-/

namespace Lib.Dispatch

section
variable {α : Type} (lt : α → α → Prop)

/-- What a queue ordered by `lt` promises of the item it gives out. -/
def Top (queue : Multiset α) (t : α) : Prop := t ∈ queue ∧ ∀ u ∈ queue, ¬ lt t u

end

/-- A queue that is not empty has something to give out. -/
theorem exists_top {α κ : Type} [LinearOrder κ] (key : α → κ) {queue : Multiset α}
    (some : queue ≠ 0) : ∃ t, Top (fun a b => key a < key b) queue t := by
  induction queue using Quotient.inductionOn with
  | h items =>
    cases greatest : items.argmax key with
    | none =>
      rw [List.argmax_eq_none] at greatest
      exact absurd (congrArg Multiset.ofList greatest) some
    | some t =>
      have mem : t ∈ items := List.argmax_mem greatest
      exact ⟨t, mem, fun u queued => List.not_lt_of_mem_argmax queued greatest⟩

/-! ## Slots -/

section
variable {σ α : Type} (item : σ → Option α)

/-- The items in the slots. -/
def contents (slots : List σ) : Multiset α := slots.filterMap item

variable {item} {slots : List σ}

theorem contents_cons (s : σ) (rest : List σ) :
    contents item (s :: rest) = ((item s).toList : Multiset α) + contents item rest := by
  unfold contents
  cases holds : item s with
  | none => simp [holds]
  | some x => simp [holds]

theorem mem_contents {x : α} :
    x ∈ contents item slots ↔ ∃ (i : Nat) (s : σ), slots[i]? = some s ∧ item s = some x := by
  rw [contents, Multiset.mem_coe, List.mem_filterMap]
  simp only [List.mem_iff_getElem?]
  constructor
  · rintro ⟨s, ⟨i, stands⟩, holds⟩
    exact ⟨i, s, stands, holds⟩
  · rintro ⟨i, s, stands, holds⟩
    exact ⟨s, ⟨i, stands⟩, holds⟩

variable (item) in
/-- A change to one slot: its old item goes, its new one comes. -/
theorem contents_set {i : Nat} {a : σ} (stands : slots[i]? = some a) (b : σ) :
    ((item a).toList : Multiset α) + contents item (slots.set i b) =
      (item b).toList + contents item slots := by
  induction slots generalizing i with
  | nil => cases stands
  | cons c rest ih =>
    cases i with
    | zero =>
      obtain rfl : c = a := Option.some.inj stands
      simp only [List.set_cons_zero, contents_cons]
      exact add_left_comm _ _ _
    | succ i =>
      simp only [List.set_cons_succ, contents_cons]
      rw [add_left_comm, ih stands, add_left_comm]

theorem contents_kept {i : Nat} {a b : σ} (stands : slots[i]? = some a)
    (same : item a = item b) : contents item (slots.set i b) = contents item slots := by
  have change := contents_set item stands b
  rw [same] at change
  exact add_left_cancel change

theorem contents_filled {i : Nat} {a b : σ} {x : α} (stands : slots[i]? = some a)
    (free : item a = none) (filled : item b = some x) :
    contents item (slots.set i b) = x ::ₘ contents item slots := by
  have change := contents_set item stands b
  rwa [free, filled, Option.toList_none, Option.toList_some, Multiset.coe_nil, zero_add,
    Multiset.coe_singleton, Multiset.singleton_add] at change

theorem contents_freed {i : Nat} {a b : σ} {x : α} (stands : slots[i]? = some a)
    (filled : item a = some x) (free : item b = none) :
    contents item slots = x ::ₘ contents item (slots.set i b) := by
  have change := contents_set item stands b
  rw [free, filled, Option.toList_none, Option.toList_some, Multiset.coe_nil, zero_add,
    Multiset.coe_singleton, Multiset.singleton_add] at change
  exact change.symm

theorem contents_add {one other : σ → Option α}
    (split : ∀ s, ((item s).toList : Multiset α) = (one s).toList + (other s).toList)
    (slots : List σ) : contents item slots = contents one slots + contents other slots := by
  induction slots with
  | nil => rfl
  | cons s rest ih =>
    rw [contents_cons, contents_cons, contents_cons, split, ih]
    exact add_add_add_comm _ _ _ _

/-- The slot of an item, where no two slots hold the same. -/
theorem slot_unique (distinct : (contents item slots).Nodup) {i j : Nat} {a b : σ} {x : α}
    (first : slots[i]? = some a) (second : slots[j]? = some b)
    (holds : item a = some x) (too : item b = some x) : i = j := by
  have apart := List.pairwise_iff_getElem.mp
    (List.pairwise_filterMap.mp (Multiset.coe_nodup.mp distinct))
  obtain ⟨low, rfl⟩ := List.getElem?_eq_some_iff.mp first
  obtain ⟨high, rfl⟩ := List.getElem?_eq_some_iff.mp second
  rcases Nat.lt_trichotomy i j with before | same | after
  · exact absurd rfl (apart i j low high before x holds x too)
  · exact same
  · exact absurd rfl (apart j i high low after x too x holds)

end

/-! ## Ledgers -/

inductive Event (α : Type) where
  | began (a : α)
  | ended (a : α)
  deriving DecidableEq, Repr

namespace Event

variable {α β : Type}

def map (f : α → β) : Event α → Event β
  | .began a => .began (f a)
  | .ended a => .ended (f a)

def start : Event α → Option α
  | .began a => some a
  | .ended _ => none

def finish : Event α → Option α
  | .began _ => none
  | .ended a => some a

/-- Both events of one item, nothing between them. -/
def both (a : α) : List (Event α) := [.began a, .ended a]

def begun (log : List (Event α)) : List α := log.filterMap start

def done (log : List (Event α)) : List α := log.filterMap finish

section
variable (log : List (Event α)) (a : α)

@[simp] theorem begun_began : begun (log ++ [.began a]) = begun log ++ [a] := by
  simp [begun, start]

@[simp] theorem begun_ended : begun (log ++ [.ended a]) = begun log := by
  simp [begun, List.filterMap_cons, start]

@[simp] theorem done_began : done (log ++ [.began a]) = done log := by
  simp [done, List.filterMap_cons, finish]

@[simp] theorem done_ended : done (log ++ [.ended a]) = done log ++ [a] := by
  simp [done, finish]

theorem done_both (items : List α) : done (items.flatMap both) = items := by
  induction items with
  | nil => rfl
  | cons a rest ih =>
    rw [List.flatMap_cons, done, List.filterMap_append]
    exact congrArg (a :: ·) ih

theorem map_both {f : α → β} (items : List α) :
    (items.flatMap both).map (map f) = (items.map f).flatMap both := by
  induction items with
  | nil => rfl
  | cons a rest ih =>
    rw [List.flatMap_cons, List.map_append, List.map_cons, List.flatMap_cons, ih]
    rfl

end

end Event

structure Ledger (α : Type) where
  accepted : List α
  queued : Multiset α
  held : Multiset α
  running : Multiset α
  log : List (Event α)

namespace Ledger

variable {α : Type}

inductive Step : Ledger α → Ledger α → Prop where
  | idle (l : Ledger α) : Step l l
  | accept (l : Ledger α) (a : α) :
      Step l { l with accepted := l.accepted ++ [a], queued := a ::ₘ l.queued }
  | take {l : Ledger α} {a : α} {rest : Multiset α} (top : l.queued = a ::ₘ rest) :
      Step l { l with queued := rest, held := a ::ₘ l.held }
  | start {l : Ledger α} {a : α} {rest : Multiset α} (taken : l.held = a ::ₘ rest) :
      Step l { l with held := rest, running := a ::ₘ l.running, log := l.log ++ [.began a] }
  | finish {l : Ledger α} {a : α} {rest : Multiset α} (started : l.running = a ::ₘ rest) :
      Step l { l with running := rest, log := l.log ++ [.ended a] }

/-- What was taken in is queued, held, running or finished, and what has begun is
running or finished, each item as often on the one side as on the other. -/
def Balanced (l : Ledger α) : Prop :=
  l.queued + l.held + l.running + Event.done l.log = (l.accepted : Multiset α) ∧
  (Event.begun l.log : Multiset α) = l.running + Event.done l.log

theorem step_balanced {l l' : Ledger α} (step : Step l l') (balanced : l.Balanced) :
    l'.Balanced := by
  obtain ⟨places, begun⟩ := balanced
  have snoc (items : List α) (a : α) : ((items ++ [a] : List α) : Multiset α) = a ::ₘ items := by
    rw [← Multiset.coe_add, Multiset.coe_singleton, add_comm, Multiset.singleton_add]
  cases step with
  | idle => exact ⟨places, begun⟩
  | accept a =>
    refine ⟨?_, begun⟩
    simp only [snoc, ← places, Multiset.cons_add]
  | take top =>
    refine ⟨?_, begun⟩
    simp only [← places, top, Multiset.cons_add, Multiset.add_cons]
  | start taken =>
    constructor
    · simp only [Event.done_began, ← places, taken, Multiset.cons_add, Multiset.add_cons]
    · simp only [Event.done_began, Event.begun_began, snoc, begun, Multiset.cons_add]
  | finish started =>
    constructor
    · simp only [Event.done_ended, snoc, ← places, started, Multiset.cons_add,
        Multiset.add_cons]
    · simp only [Event.begun_ended, Event.done_ended, snoc, begun, started, Multiset.cons_add,
        Multiset.add_cons]

/-- Nothing is on its way. -/
def Quiet (l : Ledger α) : Prop := l.queued = 0 ∧ l.held = 0 ∧ l.running = 0

/-- Items taken in one at a time, each after the end of the one before: only the
last of them can be on its way. -/
inductive InTurn : Ledger α → Prop where
  | quiet (accepted : List α) : InTurn ⟨accepted, 0, 0, 0, accepted.flatMap Event.both⟩
  | queued (before : List α) (a : α) :
      InTurn ⟨before ++ [a], {a}, 0, 0, before.flatMap Event.both⟩
  | held (before : List α) (a : α) :
      InTurn ⟨before ++ [a], 0, {a}, 0, before.flatMap Event.both⟩
  | running (before : List α) (a : α) :
      InTurn ⟨before ++ [a], 0, 0, {a}, before.flatMap Event.both ++ [.began a]⟩

theorem InTurn.log {l : Ledger α} (turn : l.InTurn) :
    l.log <+: l.accepted.flatMap Event.both := by
  cases turn with
  | quiet accepted => exact List.prefix_rfl
  | queued before a | held before a => simp
  | running before a => simp [Event.both]

theorem InTurn.log_of_quiet {l : Ledger α} (turn : l.InTurn) (quiet : l.Quiet) :
    l.log = l.accepted.flatMap Event.both := by
  obtain ⟨queued, held, running⟩ := quiet
  cases turn with
  | quiet accepted => rfl
  | queued before a => simp at queued
  | held before a => simp at held
  | running before a => simp at running

theorem step_inTurn {l l' : Ledger α} (step : Step l l') (turn : l.InTurn)
    (patient : l'.accepted ≠ l.accepted → l.Quiet) : l'.InTurn := by
  cases step with
  | idle => exact turn
  | accept a =>
    obtain ⟨queued, held, running⟩ := patient (by simp)
    cases turn with
    | quiet accepted => exact .queued accepted a
    | queued before b => simp at queued
    | held before b => simp at held
    | running before b => simp at running
  | @take a rest top =>
    cases turn with
    | queued before b =>
      obtain ⟨rfl, rfl⟩ := (Multiset.singleton_eq_cons_iff rest).mp top
      exact .held before _
    | quiet | held | running => simp at top
  | @start a rest taken =>
    cases turn with
    | held before b =>
      obtain ⟨rfl, rfl⟩ := (Multiset.singleton_eq_cons_iff rest).mp taken
      exact .running before _
    | quiet | queued | running => simp at taken
  | @finish a rest started =>
    cases turn with
    | running before b =>
      obtain ⟨rfl, rfl⟩ := (Multiset.singleton_eq_cons_iff rest).mp started
      have quiet := InTurn.quiet (before ++ [b])
      rw [List.flatMap_append] at quiet
      simpa [Event.both] using quiet
    | quiet | queued | held => simp at started

/-- The end of the last item taken in is the end of all. -/
theorem InTurn.quiet_of_done {l : Ledger α} (turn : l.InTurn) (distinct : l.accepted.Nodup)
    {a : α} (last : l.accepted.getLast? = some a) (ended : a ∈ Event.done l.log) :
    l.Quiet := by
  have fresh (before : List α) (b : α) (nodup : (before ++ [b]).Nodup) : b ∉ before :=
    fun mem => (List.nodup_append.mp nodup).2.2 b mem b (List.mem_singleton_self b) rfl
  cases turn with
  | quiet accepted => exact ⟨rfl, rfl, rfl⟩
  | queued before b | held before b =>
    obtain rfl : b = a := by simpa using last
    rw [Event.done_both] at ended
    exact absurd ended (fresh before b distinct)
  | running before b =>
    obtain rfl : b = a := by simpa using last
    rw [Event.done_began, Event.done_both] at ended
    exact absurd ended (fresh before b distinct)

theorem step_quiet {l l' : Ledger α} (step : Step l l') (same : l'.accepted = l.accepted)
    (quiet : l.Quiet) : l'.Quiet := by
  obtain ⟨queued, held, running⟩ := quiet
  cases step with
  | idle => exact ⟨queued, held, running⟩
  | accept a => simp at same
  | take top => exact absurd (queued.symm.trans top) Multiset.zero_ne_cons
  | start taken => exact absurd (held.symm.trans taken) Multiset.zero_ne_cons
  | finish started => exact absurd (running.symm.trans started) Multiset.zero_ne_cons

end Ledger

end Lib.Dispatch
