import Http2Server.Hpack.Decode

/-!
# A reference interpreter for HPACK

RFC 7541 read directly: field representations as a syntax tree, their wire
form, and what each one means for the list of headers and the dynamic table.
Nothing here mentions how the decoder computes.
-/

namespace Http2Server.Hpack.Reference

open Lib

/-- Appendix A. -/
def appendixA : List (String × String) :=
  [(":authority", ""), (":method", "GET"), (":method", "POST"), (":path", "/"),
   (":path", "/index.html"), (":scheme", "http"), (":scheme", "https"), (":status", "200"),
   (":status", "204"), (":status", "206"), (":status", "304"), (":status", "400"),
   (":status", "404"), (":status", "500"), ("accept-charset", ""),
   ("accept-encoding", "gzip, deflate"), ("accept-language", ""), ("accept-ranges", ""),
   ("accept", ""), ("access-control-allow-origin", ""), ("age", ""), ("allow", ""),
   ("authorization", ""), ("cache-control", ""), ("content-disposition", ""),
   ("content-encoding", ""), ("content-language", ""), ("content-length", ""),
   ("content-location", ""), ("content-range", ""), ("content-type", ""), ("cookie", ""),
   ("date", ""), ("etag", ""), ("expect", ""), ("expires", ""), ("from", ""), ("host", ""),
   ("if-match", ""), ("if-modified-since", ""), ("if-none-match", ""), ("if-range", ""),
   ("if-unmodified-since", ""), ("last-modified", ""), ("link", ""), ("location", ""),
   ("max-forwards", ""), ("proxy-authenticate", ""), ("proxy-authorization", ""),
   ("range", ""), ("referer", ""), ("refresh", ""), ("retry-after", ""), ("server", ""),
   ("set-cookie", ""), ("strict-transport-security", ""), ("transfer-encoding", ""),
   ("user-agent", ""), ("vary", ""), ("via", ""), ("www-authenticate", "")]

/-- A string literal, as the sender chose to write it (section 5.2). -/
inductive Str where
  | raw (s : Bytes)
  | huffman (s : Bytes)
  deriving DecidableEq, Repr

/-- The name of a literal: by index, or written out. -/
inductive Name where
  | indexed (index : Nat)
  | literal (s : Str)
  deriving DecidableEq, Repr

/-- The three kinds of literal header fields (section 6.2). -/
inductive Indexing where
  | incremental
  | without
  | never
  deriving DecidableEq, Repr

/-- A field representation (section 6). -/
inductive Rep where
  | indexed (index : Nat)
  | literal (indexing : Indexing) (name : Name) (value : Str)
  | sizeUpdate (maxSize : Nat)
  deriving DecidableEq, Repr

def Str.text : Str → Bytes
  | .raw s => s
  | .huffman s => s

/-! ## Wire form -/

/-- The bytes that carry the string, after its length. -/
def Str.octets : Str → Bytes
  | .raw s => s
  | .huffman s => encodeHuffman s

/-- The bit that tells the two forms apart. -/
def Str.flag : Str → Byte
  | .raw _ => 0x00
  | .huffman _ => 0x80

def Str.serialise (s : Str) : Bytes := encodeInteger s.flag 7 s.octets.length ++ s.octets

def Indexing.pattern : Indexing → Byte
  | .incremental => 0x40
  | .without => 0x00
  | .never => 0x10

def Indexing.prefixBits : Indexing → Nat
  | .incremental => 6
  | .without => 4
  | .never => 4

def Rep.serialise : Rep → Bytes
  | .indexed index => encodeInteger 0x80 7 index
  | .literal i (.indexed index) value =>
    encodeInteger i.pattern i.prefixBits index ++ value.serialise
  | .literal i (.literal name) value =>
    encodeInteger i.pattern i.prefixBits 0 ++ (name.serialise ++ value.serialise)
  | .sizeUpdate maxSize => encodeInteger 0x20 5 maxSize

/-- Every integer of the representation is a 32-bit value. -/
def Rep.Fits : Rep → Prop
  | .indexed index => index < 2 ^ 32
  | .literal _ (.indexed index) value => index < 2 ^ 32 ∧ value.octets.length < 2 ^ 32
  | .literal _ (.literal name) value =>
    name.octets.length < 2 ^ 32 ∧ value.octets.length < 2 ^ 32
  | .sizeUpdate maxSize => maxSize < 2 ^ 32

instance : DecidablePred Rep.Fits := fun r =>
  match r with
  | .indexed index => inferInstanceAs (Decidable (index < 2 ^ 32))
  | .literal _ (.indexed index) value =>
    inferInstanceAs (Decidable (index < 2 ^ 32 ∧ value.octets.length < 2 ^ 32))
  | .literal _ (.literal name) value =>
    inferInstanceAs (Decidable (name.octets.length < 2 ^ 32 ∧ value.octets.length < 2 ^ 32))
  | .sizeUpdate maxSize => inferInstanceAs (Decidable (maxSize < 2 ^ 32))

/-! ## Meaning -/

/-- A dynamic table: entries newest first, and the maximum size. -/
structure State where
  entries : List Header
  maxSize : Nat
  deriving DecidableEq, Repr

/-- The index space of section 2.3.3: the static table, then the dynamic one. -/
def State.lookup (s : State) (index : Nat) : Option Header :=
  if index = 0 then none
  else match appendixA[index - 1]? with
    | some (name, value) => some ⟨ascii name, ascii value⟩
    | none => s.entries[index - 1 - appendixA.length]?

/-- Section 4.4: entries are evicted from the end until the new one fits; one
that is larger than the whole table leaves it empty. -/
def State.insert (s : State) (h : Header) : State :=
  if h.size ≤ s.maxSize then
    { s with entries := h :: Eviction.within Header.size (s.maxSize - h.size) s.entries }
  else { s with entries := [] }

/-- Section 4.3. -/
def State.resize (s : State) (maxSize : Nat) : State :=
  ⟨Eviction.within Header.size maxSize s.entries, maxSize⟩

def State.nameOf (s : State) : Name → Option Bytes
  | .indexed index => (s.lookup index).map Header.name
  | .literal str => some str.text

/-- What one representation adds to the header list and does to the table;
`none` when it uses an index that is not valid at this point. -/
def State.step (s : State) : Rep → Option (Option Header × State)
  | .indexed index => (s.lookup index).map fun h => (some h, s)
  | .literal i name value => (s.nameOf name).map fun n =>
    (some ⟨n, value.text⟩, match i with
      | .incremental => s.insert ⟨n, value.text⟩
      | .without => s
      | .never => s)
  | .sizeUpdate maxSize => some (none, s.resize maxSize)

/-- The header list of a whole block and the table after it. -/
def State.run (s : State) : List Rep → Option (List Header × State)
  | [] => some ([], s)
  | r :: rest => (s.step r).bind fun (h, s') =>
    (s'.run rest).map fun (hs, s'') => (h.toList ++ hs, s'')

end Http2Server.Hpack.Reference
