import Http2Server.Hpack.Huffman
import Http2Server.Hpack.Integer
import Http2Server.Hpack.Table

/-!
# Decoding a header block

`Decoder::decode_lowmem`, one turn of its loop at a time. A lookup that fails
for an indexed field is a false result; for the name of a literal the exception
leaves the function.
-/

namespace Http2Server.Hpack

/-- How `decode_lowmem` ends: true, false, or an exception. -/
inductive Verdict where
  | accepted
  | rejected
  | threw
  deriving DecidableEq, Repr

/-- A run of `decode_lowmem`: how it ended, the headers given to the callback,
and the table it left. -/
structure Decoded where
  verdict : Verdict
  headers : List Header
  table : Table
  deriving DecidableEq, Repr

/-- One turn of the loop: `return false`, an exception, or the header read, if
any, with the table and the bytes after it. -/
inductive Field where
  | failed
  | threw
  | read (table : Table) (header : Option Header) (rest : Bytes)
  deriving DecidableEq, Repr

/-- A length-prefixed string, raw or Huffman-coded, and the bytes after it. -/
def readString : Bytes → Option (Bytes × Bytes)
  | [] => none
  | p :: tail =>
    let huff := p &&& 0x80 ≠ 0
    let (n, len) := decodeInteger (p :: tail) 7
    let rest := (p :: tail).drop n
    if n = 0 then none
    else if len > rest.length then none
    else if huff then (decodeHuffman (rest.take len)).map fun s => (s, rest.drop len)
    else some (rest.take len, rest.drop len)

/-- From the label `have_name` on. -/
def readValue (t : Table) (shouldAdd : Bool) (name rest : Bytes) : Field :=
  match readString rest with
  | none => .failed
  | some (value, rest) =>
    .read (if shouldAdd then t.add ⟨name, value⟩ else t) (some ⟨name, value⟩) rest

/-- A literal after its index. The name's lookup stands outside any `try`. -/
def readLiteral (t : Table) (shouldAdd : Bool) (index : Nat) (rest : Bytes) : Field :=
  if index > 0 then
    match t.lookup index with
    | none => .threw
    | some h => readValue t shouldAdd h.name rest
  else match readString rest with
    | none => .failed
    | some (name, rest) => readValue t shouldAdd name rest

/-- One turn of the loop on the bytes `p :: tail`. -/
def decodeField (t : Table) (p : Byte) (tail : Bytes) : Field :=
  if p &&& 0xe0 = 0x20 then
    let (n, newMaxSize) := decodeInteger (p :: tail) 5
    if n = 0 then .failed
    else .read (t.setMaxSize newMaxSize) none ((p :: tail).drop n)
  else if p &&& 0x80 ≠ 0 then
    let (n, index) := decodeInteger (p :: tail) 7
    if n = 0 then .failed
    else if index = 0 then .failed
    else match t.lookup index with
      | none => .failed
      | some h => .read t (some h) ((p :: tail).drop n)
  else
    let shouldAdd : Bool := p &&& 0xc0 = 0x40
    let (n, index) := decodeInteger (p :: tail) (if shouldAdd then 6 else 4)
    if n = 0 then .failed
    else readLiteral t shouldAdd index ((p :: tail).drop n)

/-- `while (p != q)`. A turn reads at least one byte, so the number of bytes is
fuel enough. -/
def decodeFields : Nat → Table → Bytes → Decoded
  | _, t, [] => ⟨.accepted, [], t⟩
  | 0, t, _ :: _ => ⟨.rejected, [], t⟩
  | fuel + 1, t, p :: tail =>
    match decodeField t p tail with
    | .failed => ⟨.rejected, [], t⟩
    | .threw => ⟨.threw, [], t⟩
    | .read t' header rest =>
      let r := decodeFields fuel t' rest
      { r with headers := header.toList ++ r.headers }

def decodeLowmem (t : Table) (block : Bytes) : Decoded := decodeFields block.length t block

theorem readString_shorter {bytes s rest : Bytes} (h : readString bytes = some (s, rest)) :
    rest.length < bytes.length := by
  cases bytes with
  | nil => simp [readString] at h
  | cons p tail =>
    simp only [readString] at h
    generalize decodeInteger (p :: tail) 7 = r at h
    obtain ⟨n, len⟩ := r
    simp only at h
    have short : n ≠ 0 → (((p :: tail).drop n).drop len).length < (p :: tail).length := by
      intro hn
      simp only [List.length_drop, List.length_cons]
      omega
    split at h
    · cases h
    · next hn =>
      split at h
      · cases h
      · split at h
        · obtain ⟨_, _, eq⟩ := Option.map_eq_some_iff.mp h
          simp only [Prod.mk.injEq] at eq
          rw [← eq.2]
          exact short hn
        · simp only [Option.some.injEq, Prod.mk.injEq] at h
          rw [← h.2]
          exact short hn

theorem readValue_shorter {t t' : Table} {add : Bool} {name bytes rest : Bytes}
    {header : Option Header} (h : readValue t add name bytes = .read t' header rest) :
    rest.length < bytes.length := by
  unfold readValue at h
  split at h
  · cases h
  · next s rest' hs =>
    simp only [Field.read.injEq] at h
    rw [← h.2.2]
    exact readString_shorter hs

theorem readLiteral_shorter {t t' : Table} {add : Bool} {index : Nat} {bytes rest : Bytes}
    {header : Option Header} (h : readLiteral t add index bytes = .read t' header rest) :
    rest.length < bytes.length := by
  unfold readLiteral at h
  split at h
  · split at h
    · cases h
    · exact readValue_shorter h
  · split at h
    · cases h
    · next hs => exact Nat.lt_trans (readValue_shorter h) (readString_shorter hs)

/-- A turn of the loop reads at least one byte. -/
theorem decodeField_shorter {t t' : Table} {p : Byte} {tail rest : Bytes}
    {header : Option Header} (h : decodeField t p tail = .read t' header rest) :
    rest.length ≤ tail.length := by
  have advance : ∀ n, n ≠ 0 → ((p :: tail).drop n).length ≤ tail.length := by
    intro n hn
    simp only [List.length_drop, List.length_cons]
    omega
  unfold decodeField at h
  split at h
  · generalize decodeInteger (p :: tail) 5 = r at h
    simp only at h
    split at h
    · cases h
    · next hn =>
      simp only [Field.read.injEq] at h
      rw [← h.2.2]
      exact advance _ hn
  · split at h
    · generalize decodeInteger (p :: tail) 7 = r at h
      simp only at h
      split at h
      · cases h
      · next hn =>
        split at h
        · cases h
        · split at h
          · cases h
          · simp only [Field.read.injEq] at h
            rw [← h.2.2]
            exact advance _ hn
    · simp only at h
      generalize decodeInteger (p :: tail) _ = r at h
      split at h
      · cases h
      · next hn => exact Nat.le_trans (Nat.le_of_lt (readLiteral_shorter h)) (advance _ hn)

theorem decodeFields_fuel : ∀ fuel t bytes, bytes.length ≤ fuel →
    decodeFields fuel t bytes = decodeLowmem t bytes := by
  intro fuel
  induction fuel using Nat.strongRecOn with
  | ind fuel ih =>
    intro t bytes hle
    cases bytes with
    | nil => cases fuel <;> rfl
    | cons p tail =>
      cases fuel with
      | zero => simp at hle
      | succ fuel =>
        simp only [List.length_cons, Nat.add_le_add_iff_right] at hle
        simp only [decodeLowmem, decodeFields, List.length_cons]
        split
        · rfl
        · rfl
        · next t' header rest hf =>
          have shorter := decodeField_shorter hf
          rw [ih fuel (by omega) t' rest (by omega),
            ih tail.length (by omega) t' rest (by omega)]

@[simp] theorem decodeLowmem_nil (t : Table) : decodeLowmem t [] = ⟨.accepted, [], t⟩ := rfl

/-- A block whose first field reads is that field and the rest of the block. -/
theorem decodeLowmem_read {t t' : Table} {p : Byte} {tail rest : Bytes} {header : Option Header}
    (h : decodeField t p tail = .read t' header rest) :
    decodeLowmem t (p :: tail) = { decodeLowmem t' rest with
      headers := header.toList ++ (decodeLowmem t' rest).headers } := by
  have shorter := decodeField_shorter h
  simp only [decodeLowmem, decodeFields, List.length_cons, h]
  rw [decodeFields_fuel _ _ _ shorter, decodeLowmem]

end Http2Server.Hpack
