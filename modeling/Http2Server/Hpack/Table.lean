import Http2Server.Header
import Http2Server.Lib.Eviction

/-!
# The HPACK table

`Table` keeps its byte count apart from its entries, as the source does; the
field `size_eq` says that the two agree, so `evict` never pops an empty deque.
The static table stands before the dynamic one in one index space.
-/

namespace Http2Server.Hpack

open Lib

def entry (name value : String) : Header := ⟨ascii name, ascii value⟩

/-- Entry 0 is a placeholder. -/
def staticTable : List Header :=
  [{},
   entry ":authority" "", entry ":method" "GET", entry ":method" "POST", entry ":path" "/",
   entry ":path" "/index.html", entry ":scheme" "http", entry ":scheme" "https",
   entry ":status" "200", entry ":status" "204", entry ":status" "206", entry ":status" "304",
   entry ":status" "400", entry ":status" "404", entry ":status" "500",
   entry "accept-charset" "", entry "accept-encoding" "gzip, deflate",
   entry "accept-language" "", entry "accept-ranges" "", entry "accept" "",
   entry "access-control-allow-origin" "", entry "age" "", entry "allow" "",
   entry "authorization" "", entry "cache-control" "", entry "content-disposition" "",
   entry "content-encoding" "", entry "content-language" "", entry "content-length" "",
   entry "content-location" "", entry "content-range" "", entry "content-type" "",
   entry "cookie" "", entry "date" "", entry "etag" "", entry "expect" "", entry "expires" "",
   entry "from" "", entry "host" "", entry "if-match" "", entry "if-modified-since" "",
   entry "if-none-match" "", entry "if-range" "", entry "if-unmodified-since" "",
   entry "last-modified" "", entry "link" "", entry "location" "", entry "max-forwards" "",
   entry "proxy-authenticate" "", entry "proxy-authorization" "", entry "range" "",
   entry "referer" "", entry "refresh" "", entry "retry-after" "", entry "server" "",
   entry "set-cookie" "", entry "strict-transport-security" "", entry "transfer-encoding" "",
   entry "user-agent" "", entry "vary" "", entry "via" "", entry "www-authenticate" ""]

theorem length_staticTable : staticTable.length = 62 := rfl

/-- The dynamic table holds its newest entry first. -/
structure Table where
  size : Nat
  maxSize : Nat
  dynamic : List Header
  size_eq : size = Eviction.total Header.size dynamic
  deriving DecidableEq, Repr

namespace Table

def new : Table := ⟨0, 4096, [], rfl⟩

/-- Drops the oldest entries while the size is over the limit. -/
def evict (t : Table) : Table :=
  let r := Eviction.evict Header.size t.maxSize t.size t.dynamic.reverse
  ⟨r.1, t.maxSize, r.2.reverse, by
    simp only [r, t.size_eq, Eviction.evict_eq, List.reverse_reverse]⟩

def setMaxSize (t : Table) (sz : Nat) : Table := evict { t with maxSize := sz }

def add (t : Table) (h : Header) : Table :=
  evict ⟨h.size + t.size, t.maxSize, h :: t.dynamic, by simp [t.size_eq]⟩

def reset (t : Table) : Table := { evict { t with maxSize := 0 } with maxSize := 4096 }

/-- `none` where the source throws `std::out_of_range`. -/
def lookup (t : Table) (index : Nat) : Option Header :=
  if index < 1 then none
  else if index < 62 then staticTable[index]?
  else t.dynamic[index - 62]?

/-- The first position in `entries` that satisfies `p`, counted from `start`. -/
def scan (p : Header → Bool) (entries : List Header) (start : Nat) : Option Nat :=
  (entries.findIdx? p).map (start + ·)

def bestMatch (t : Table) (h : Header) : Nat :=
  ((scan (h == ·) staticTable.tail 1).or
    ((scan (h == ·) t.dynamic staticTable.length).or
      ((scan (h.name == ·.name) staticTable.tail 1).or
        (scan (h.name == ·.name) t.dynamic staticTable.length)))).getD 0

/-- The overload for a name alone. -/
def bestMatchName (t : Table) (name : Bytes) : Nat :=
  ((scan (name == ·.name) staticTable.tail 1).or
    (scan (name == ·.name) t.dynamic staticTable.length)).getD 0

theorem evict_dynamic (t : Table) :
    t.evict.dynamic = Eviction.within Header.size t.maxSize t.dynamic := by
  simp only [evict, t.size_eq, Eviction.evict_eq, List.reverse_reverse]

@[simp] theorem evict_maxSize (t : Table) : t.evict.maxSize = t.maxSize := rfl

@[simp] theorem setMaxSize_maxSize (t : Table) (sz : Nat) : (t.setMaxSize sz).maxSize = sz := rfl

@[simp] theorem add_maxSize (t : Table) (h : Header) : (t.add h).maxSize = t.maxSize := rfl

@[simp] theorem setMaxSize_dynamic (t : Table) (sz : Nat) :
    (t.setMaxSize sz).dynamic = Eviction.within Header.size sz t.dynamic :=
  evict_dynamic _

@[simp] theorem add_dynamic (t : Table) (h : Header) :
    (t.add h).dynamic = Eviction.within Header.size t.maxSize (h :: t.dynamic) :=
  evict_dynamic _

/-- What an empty dynamic table resolves, every table resolves alike. -/
theorem lookup_of_empty {t u : Table} {i : Nat} {e : Header} (empty : t.dynamic = [])
    (h : t.lookup i = some e) : u.lookup i = some e ∧ i < 62 := by
  simp only [lookup, empty, List.getElem?_nil] at h ⊢
  split at h
  · cases h
  · split at h
    · next low small => exact ⟨by rw [if_neg low, if_pos small, h], small⟩
    · cases h

end Table

end Http2Server.Hpack
