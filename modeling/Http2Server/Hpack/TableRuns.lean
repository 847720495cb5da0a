import Http2Server.Hpack.Table

/-!
# What a table holds

Runs of `add`, `set_max_size` and `reset` from a new table. Every one of them ends
with `evict`, whose loop is safe because the byte count is that of the entries.

- `run_front`: the entries are the most recently added headers.
- `run_holds`: the whole account.
-/

namespace Http2Server.Hpack

open Lib

inductive TableCall where
  | add (h : Header)
  | setMaxSize (sz : Nat)
  | reset
  deriving DecidableEq, Repr

namespace Table

def call (t : Table) : TableCall → Table
  | .add h => t.add h
  | .setMaxSize sz => t.setMaxSize sz
  | .reset => t.reset

def run (calls : List TableCall) : Table := calls.foldl call new

/-- The headers that were added, the newest first. -/
def added (calls : List TableCall) : List Header :=
  (calls.filterMap fun | .add h => some h | _ => none).reverse

/-- The limit, the byte count and the entries at which a call starts `evict`. -/
def evictsFrom (t : Table) : TableCall → Nat × Nat × List Header
  | .add h => (t.maxSize, h.size + t.size, h :: t.dynamic)
  | .setMaxSize sz => (sz, t.size, t.dynamic)
  | .reset => (0, t.size, t.dynamic)

/-- The loop of `evict` neither pops an empty deque nor wraps `size_`. -/
def EvictsSafely (t : Table) (c : TableCall) : Prop :=
  Eviction.Safe Header.size (t.evictsFrom c).1 (t.evictsFrom c).2.1 (t.evictsFrom c).2.2.reverse

theorem reset_dynamic (t : Table) :
    t.reset.dynamic = Eviction.within Header.size 0 t.dynamic :=
  evict_dynamic _

/-! ## One call -/

theorem evictsSafely (t : Table) (c : TableCall) : t.EvictsSafely c := by
  have count : (t.evictsFrom c).2.1 =
      Eviction.total Header.size (t.evictsFrom c).2.2.reverse := by
    rw [Eviction.total_reverse]
    cases c with
    | add h => rw [evictsFrom, Eviction.total_cons, ← t.size_eq]
    | setMaxSize sz => exact t.size_eq
    | reset => exact t.size_eq
  rw [EvictsSafely, count]
  exact Eviction.safe_total _ _ _

/-- What a call leaves is what the loop leaves. -/
theorem call_evicts (t : Table) (c : TableCall) :
    Eviction.evict Header.size (t.evictsFrom c).1 (t.evictsFrom c).2.1
      (t.evictsFrom c).2.2.reverse = ((t.call c).size, (t.call c).dynamic.reverse) := by
  apply Prod.ext
  · cases c <;> rfl
  · cases c <;> exact (List.reverse_reverse _).symm

/-- They are the longest prefix of the entries that `evict` starts from. -/
theorem call_longest (t : Table) (c : TableCall) :
    Eviction.Longest Header.size (t.evictsFrom c).1 (t.evictsFrom c).2.2 (t.call c).dynamic := by
  cases c with
  | add h =>
    rw [call, add_dynamic]
    exact Eviction.longest_within _ _ _
  | setMaxSize sz =>
    rw [call, setMaxSize_dynamic]
    exact Eviction.longest_within _ _ _
  | reset =>
    rw [call, reset_dynamic]
    exact Eviction.longest_within _ _ _

theorem call_size_le (t : Table) (c : TableCall) : (t.call c).size ≤ (t.call c).maxSize := by
  have fits := (call_longest t c).fits
  rw [(t.call c).size_eq]
  cases c with
  | add h => exact fits
  | setMaxSize sz => exact fits
  | reset => exact fits.trans (Nat.zero_le _)

theorem added_concat (calls : List TableCall) (c : TableCall) :
    added (calls ++ [c]) = match c with
      | .add h => h :: added calls
      | _ => added calls := by
  cases c <;> simp [added]

/-! ## A run -/

theorem run_concat (calls : List TableCall) (c : TableCall) :
    run (calls ++ [c]) = (run calls).call c := by
  rw [run, List.foldl_append]
  rfl

theorem run_size_le (calls : List TableCall) : (run calls).size ≤ (run calls).maxSize := by
  induction calls using List.reverseRecOn with
  | nil => exact Nat.zero_le _
  | append_singleton calls c _ =>
    rw [run_concat]
    exact call_size_le _ c

/-- **Order.** The entries are the most recent of the headers added. -/
theorem run_front (calls : List TableCall) : (run calls).dynamic <+: added calls := by
  induction calls using List.reverseRecOn with
  | nil => exact List.prefix_refl _
  | append_singleton calls c ih =>
    have front := (call_longest (run calls) c).front
    rw [run_concat, added_concat]
    apply front.trans
    cases c with
    | add h => exact (List.prefix_cons_inj h).mpr ih
    | setMaxSize sz => exact ih
    | reset => exact ih

theorem lookup_recent (t : Table) (i : Nat) : t.lookup (62 + i) = t.dynamic[i]? := by
  rw [lookup, if_neg (by omega), if_neg (by omega), Nat.add_sub_cancel_left]

/-- The account of a table: its byte count, its limit and its entries, and what any
next call does. -/
structure Holds (calls : List TableCall) (t : Table) : Prop where
  size_eq : t.size = (t.dynamic.map fun h => 32 + h.name.length + h.value.length).sum
  size_le : t.size ≤ t.maxSize
  recent : ∀ i, t.lookup (62 + i) = t.dynamic[i]?
  front : t.dynamic <+: added calls
  safe : ∀ c, t.EvictsSafely c ∧ Eviction.evict Header.size (t.evictsFrom c).1
    (t.evictsFrom c).2.1 (t.evictsFrom c).2.2.reverse =
      ((t.call c).size, (t.call c).dynamic.reverse)
  add : ∀ h, (t.add h).maxSize = t.maxSize ∧
    Eviction.Longest Header.size t.maxSize (h :: t.dynamic) (t.add h).dynamic
  setMaxSize : ∀ sz, (t.setMaxSize sz).maxSize = sz ∧
    Eviction.Longest Header.size sz t.dynamic (t.setMaxSize sz).dynamic
  reset : t.reset.dynamic = []

theorem total_size (entries : List Header) : Eviction.total Header.size entries =
    (entries.map fun h => 32 + h.name.length + h.value.length).sum := by
  induction entries with
  | nil => rfl
  | cons h rest ih =>
    rw [Eviction.total_cons, ih, List.map_cons, List.sum_cons]
    rfl

theorem reset_empty (t : Table) : t.reset.dynamic = [] := by
  rw [reset_dynamic]
  cases t.dynamic with
  | nil => rfl
  | cons h rest => simp [Eviction.within, Header.size]

/-- **The table.** After any calls on a new table its account holds. -/
theorem run_holds (calls : List TableCall) : Holds calls (run calls) where
  size_eq := (run calls).size_eq.trans (total_size _)
  size_le := run_size_le calls
  recent := lookup_recent _
  front := run_front calls
  safe c := ⟨evictsSafely _ c, call_evicts _ c⟩
  add h := ⟨add_maxSize _ h, call_longest _ (.add h)⟩
  setMaxSize sz := ⟨setMaxSize_maxSize _ sz, call_longest _ (.setMaxSize sz)⟩
  reset := reset_empty _

end Table

end Http2Server.Hpack
