import Http2Server.Hpack.Huffman
import Http2Server.Hpack.Integer
import Http2Server.Hpack.Table

/-!
# Encoding a header block

`Encoder::encode` picks one of five wire forms. It reads the encoder's table
and sensitive names and leaves both as they were.
-/

namespace Http2Server.Hpack

structure Encoder where
  table : Table
  sensitive : List Bytes
  deriving DecidableEq, Repr

namespace Encoder

def reset (e : Encoder) : Encoder :=
  { table := e.table.reset
    sensitive := [ascii "cookie", ascii "proxy-authenticate", ascii "set-cookie",
      ascii "www-authenticate"] }

def new : Encoder := reset ⟨Table.new, []⟩

def sensitiveHeader (e : Encoder) (name : Bytes) : Encoder :=
  { e with sensitive := name :: e.sensitive }

/-- A string Huffman-coded after its length. -/
def encodeString (s : Bytes) : Bytes :=
  encodeInteger 0x80 7 (encodeHuffman s).length ++ encodeHuffman s

/-- The bytes appended to the output. `none` is the call to `abort`; the index
`bestMatch` returns is one that the lookup accepts. -/
def encode (e : Encoder) (h : Header) : Option Bytes :=
  if h.name.length ≥ 127 then none
  else if h.value.length ≥ 127 then none
  else
    let isSensitive := e.sensitive.contains h.name
    let isBig : Bool := h.size > 256
    let index := e.table.bestMatch h
    if index = 0 then
      let first : Byte := if isSensitive then 0x10 else if isBig then 0x00 else 0x40
      some (first :: (encodeString h.name ++ encodeString h.value))
    else match e.table.lookup index with
      | none => none
      | some best =>
        if best = h then some (encodeInteger 0x80 7 index)
        else some ((if isSensitive then encodeInteger 0x10 4 index
          else if isBig then encodeInteger 0x00 4 index
          else encodeInteger 0x40 6 index) ++ encodeString h.value)

def encodeAll (e : Encoder) : List Header → Option Bytes
  | [] => some []
  | h :: rest => (e.encode h).bind fun field => (e.encodeAll rest).map (field ++ ·)

/-- An encoder whose table nobody else has touched. Encoding changes nothing,
so it adds no case. -/
inductive Own : Encoder → Prop
  | new : Own new
  | reset {e : Encoder} : Own e → Own e.reset
  | sensitive {e : Encoder} (name : Bytes) : Own e → Own (e.sensitiveHeader name)

/-- The encoder never adds to its own table. -/
theorem Own.dynamic {e : Encoder} (h : Own e) : e.table.dynamic = [] := by
  induction h with
  | new => rfl
  | reset _ ih => simp [Encoder.reset, Table.reset, Table.evict_dynamic, ih, Lib.Eviction.within]
  | sensitive _ _ ih => exact ih

end Encoder

end Http2Server.Hpack
