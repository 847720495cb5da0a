import Http2Server.Bytes

/-!
# Header lists

`Header` and `Headers` of `http2/headers`.
-/

namespace Http2Server

structure Header where
  name : Bytes := []
  value : Bytes := []
  deriving DecidableEq, Repr

namespace Header

/-- The bytes used, as RFC 7541 section 4.1 counts them. -/
def size (h : Header) : Nat := 32 + h.name.length + h.value.length

/-- Name and value are within the encoder's limit of 126 bytes. -/
def Short (h : Header) : Prop := h.name.length < 127 ∧ h.value.length < 127

instance : DecidablePred Short := fun h =>
  inferInstanceAs (Decidable (h.name.length < 127 ∧ h.value.length < 127))

end Header

abbrev Headers := List Header

namespace Headers

def add (hs : Headers) (name value : Bytes) : Headers := hs ++ [⟨name, value⟩]

/-- The value of the first header of that name. -/
def first (hs : Headers) (name : Bytes) : Option Bytes :=
  (hs.find? fun h => h.name == name).map Header.value

/-- The values of all headers of that name. -/
def every : Headers → Bytes → List Bytes
  | [], _ => []
  | h :: rest, name => if h.name = name then h.value :: every rest name else every rest name

/-- The loop of `last`, with its result so far. -/
def lastLoop : Headers → Bytes → Option Bytes → Option Bytes
  | [], _, result => result
  | h :: rest, name, result => lastLoop rest name (if h.name = name then some h.value else result)

def last (hs : Headers) (name : Bytes) : Option Bytes := lastLoop hs name none

def remove : Headers → Bytes → Headers
  | [], _ => []
  | it :: rest, name => if it.name = name then remove rest name else it :: remove rest name

/-- The loop of `replace` over what is left of the list, with `h` and `found` as they
stand; what it leaves of the three. Once `h` has been moved from, its strings are
empty. -/
def replaceLoop : Headers → Header → Bool → Headers × Header × Bool
  | [], h, found => ([], h, found)
  | it :: rest, h, found =>
    if it.name = h.name then
      if found then replaceLoop rest h found
      else
        let (rest, moved, found) := replaceLoop rest {} true
        (h :: rest, moved, found)
    else
      let (rest, h, found) := replaceLoop rest h found
      (it :: rest, h, found)

def replace (hs : Headers) (h : Header) : Headers :=
  let (hs, h, found) := replaceLoop hs h false
  if found then hs else hs ++ [h]

end Headers

end Http2Server
