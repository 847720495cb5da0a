import Http2Server.Bytes
import Mathlib.Data.List.Sort
import Http2Server.Lib.PrefixCode

/-!
# Huffman coding of header strings

`encode_huffman` and `decode_huffman` as the source computes them, with a
64-bit accumulator and a count of its valid low bits. Both are related to the
code words of `kHuffmanTable` read as bit strings:

* `kHuffmanTable_prefixFree`: no code word begins with another;
* `unpack_encodeHuffman`: the bytes written are the code words of the input,
  padded to a whole byte with ones;
* `decodeHuffman_encodeHuffman`: decoding what was encoded gives it back.
-/

namespace Http2Server.Hpack

open Lib Lib.BitString

structure HuffmanEntry where
  bits : Nat
  numbits : Nat
  symbol : Nat
  deriving DecidableEq, Repr

/-- One row for each byte in order, then the end-of-string symbol. -/
def kHuffmanTable : List HuffmanEntry :=
  [⟨0x00001ff8, 13, 0x00⟩, ⟨0x007fffd8, 23, 0x01⟩, ⟨0x0fffffe2, 28, 0x02⟩, ⟨0x0fffffe3, 28, 0x03⟩,
   ⟨0x0fffffe4, 28, 0x04⟩, ⟨0x0fffffe5, 28, 0x05⟩, ⟨0x0fffffe6, 28, 0x06⟩, ⟨0x0fffffe7, 28, 0x07⟩,
   ⟨0x0fffffe8, 28, 0x08⟩, ⟨0x00ffffea, 24, 0x09⟩, ⟨0x3ffffffc, 30, 0x0a⟩, ⟨0x0fffffe9, 28, 0x0b⟩,
   ⟨0x0fffffea, 28, 0x0c⟩, ⟨0x3ffffffd, 30, 0x0d⟩, ⟨0x0fffffeb, 28, 0x0e⟩, ⟨0x0fffffec, 28, 0x0f⟩,
   ⟨0x0fffffed, 28, 0x10⟩, ⟨0x0fffffee, 28, 0x11⟩, ⟨0x0fffffef, 28, 0x12⟩, ⟨0x0ffffff0, 28, 0x13⟩,
   ⟨0x0ffffff1, 28, 0x14⟩, ⟨0x0ffffff2, 28, 0x15⟩, ⟨0x3ffffffe, 30, 0x16⟩, ⟨0x0ffffff3, 28, 0x17⟩,
   ⟨0x0ffffff4, 28, 0x18⟩, ⟨0x0ffffff5, 28, 0x19⟩, ⟨0x0ffffff6, 28, 0x1a⟩, ⟨0x0ffffff7, 28, 0x1b⟩,
   ⟨0x0ffffff8, 28, 0x1c⟩, ⟨0x0ffffff9, 28, 0x1d⟩, ⟨0x0ffffffa, 28, 0x1e⟩, ⟨0x0ffffffb, 28, 0x1f⟩,
   ⟨0x00000014, 6, 0x20⟩, ⟨0x000003f8, 10, 0x21⟩, ⟨0x000003f9, 10, 0x22⟩, ⟨0x00000ffa, 12, 0x23⟩,
   ⟨0x00001ff9, 13, 0x24⟩, ⟨0x00000015, 6, 0x25⟩, ⟨0x000000f8, 8, 0x26⟩, ⟨0x000007fa, 11, 0x27⟩,
   ⟨0x000003fa, 10, 0x28⟩, ⟨0x000003fb, 10, 0x29⟩, ⟨0x000000f9, 8, 0x2a⟩, ⟨0x000007fb, 11, 0x2b⟩,
   ⟨0x000000fa, 8, 0x2c⟩, ⟨0x00000016, 6, 0x2d⟩, ⟨0x00000017, 6, 0x2e⟩, ⟨0x00000018, 6, 0x2f⟩,
   ⟨0x00000000, 5, 0x30⟩, ⟨0x00000001, 5, 0x31⟩, ⟨0x00000002, 5, 0x32⟩, ⟨0x00000019, 6, 0x33⟩,
   ⟨0x0000001a, 6, 0x34⟩, ⟨0x0000001b, 6, 0x35⟩, ⟨0x0000001c, 6, 0x36⟩, ⟨0x0000001d, 6, 0x37⟩,
   ⟨0x0000001e, 6, 0x38⟩, ⟨0x0000001f, 6, 0x39⟩, ⟨0x0000005c, 7, 0x3a⟩, ⟨0x000000fb, 8, 0x3b⟩,
   ⟨0x00007ffc, 15, 0x3c⟩, ⟨0x00000020, 6, 0x3d⟩, ⟨0x00000ffb, 12, 0x3e⟩, ⟨0x000003fc, 10, 0x3f⟩,
   ⟨0x00001ffa, 13, 0x40⟩, ⟨0x00000021, 6, 0x41⟩, ⟨0x0000005d, 7, 0x42⟩, ⟨0x0000005e, 7, 0x43⟩,
   ⟨0x0000005f, 7, 0x44⟩, ⟨0x00000060, 7, 0x45⟩, ⟨0x00000061, 7, 0x46⟩, ⟨0x00000062, 7, 0x47⟩,
   ⟨0x00000063, 7, 0x48⟩, ⟨0x00000064, 7, 0x49⟩, ⟨0x00000065, 7, 0x4a⟩, ⟨0x00000066, 7, 0x4b⟩,
   ⟨0x00000067, 7, 0x4c⟩, ⟨0x00000068, 7, 0x4d⟩, ⟨0x00000069, 7, 0x4e⟩, ⟨0x0000006a, 7, 0x4f⟩,
   ⟨0x0000006b, 7, 0x50⟩, ⟨0x0000006c, 7, 0x51⟩, ⟨0x0000006d, 7, 0x52⟩, ⟨0x0000006e, 7, 0x53⟩,
   ⟨0x0000006f, 7, 0x54⟩, ⟨0x00000070, 7, 0x55⟩, ⟨0x00000071, 7, 0x56⟩, ⟨0x00000072, 7, 0x57⟩,
   ⟨0x000000fc, 8, 0x58⟩, ⟨0x00000073, 7, 0x59⟩, ⟨0x000000fd, 8, 0x5a⟩, ⟨0x00001ffb, 13, 0x5b⟩,
   ⟨0x0007fff0, 19, 0x5c⟩, ⟨0x00001ffc, 13, 0x5d⟩, ⟨0x00003ffc, 14, 0x5e⟩, ⟨0x00000022, 6, 0x5f⟩,
   ⟨0x00007ffd, 15, 0x60⟩, ⟨0x00000003, 5, 0x61⟩, ⟨0x00000023, 6, 0x62⟩, ⟨0x00000004, 5, 0x63⟩,
   ⟨0x00000024, 6, 0x64⟩, ⟨0x00000005, 5, 0x65⟩, ⟨0x00000025, 6, 0x66⟩, ⟨0x00000026, 6, 0x67⟩,
   ⟨0x00000027, 6, 0x68⟩, ⟨0x00000006, 5, 0x69⟩, ⟨0x00000074, 7, 0x6a⟩, ⟨0x00000075, 7, 0x6b⟩,
   ⟨0x00000028, 6, 0x6c⟩, ⟨0x00000029, 6, 0x6d⟩, ⟨0x0000002a, 6, 0x6e⟩, ⟨0x00000007, 5, 0x6f⟩,
   ⟨0x0000002b, 6, 0x70⟩, ⟨0x00000076, 7, 0x71⟩, ⟨0x0000002c, 6, 0x72⟩, ⟨0x00000008, 5, 0x73⟩,
   ⟨0x00000009, 5, 0x74⟩, ⟨0x0000002d, 6, 0x75⟩, ⟨0x00000077, 7, 0x76⟩, ⟨0x00000078, 7, 0x77⟩,
   ⟨0x00000079, 7, 0x78⟩, ⟨0x0000007a, 7, 0x79⟩, ⟨0x0000007b, 7, 0x7a⟩, ⟨0x00007ffe, 15, 0x7b⟩,
   ⟨0x000007fc, 11, 0x7c⟩, ⟨0x00003ffd, 14, 0x7d⟩, ⟨0x00001ffd, 13, 0x7e⟩, ⟨0x0ffffffc, 28, 0x7f⟩,
   ⟨0x000fffe6, 20, 0x80⟩, ⟨0x003fffd2, 22, 0x81⟩, ⟨0x000fffe7, 20, 0x82⟩, ⟨0x000fffe8, 20, 0x83⟩,
   ⟨0x003fffd3, 22, 0x84⟩, ⟨0x003fffd4, 22, 0x85⟩, ⟨0x003fffd5, 22, 0x86⟩, ⟨0x007fffd9, 23, 0x87⟩,
   ⟨0x003fffd6, 22, 0x88⟩, ⟨0x007fffda, 23, 0x89⟩, ⟨0x007fffdb, 23, 0x8a⟩, ⟨0x007fffdc, 23, 0x8b⟩,
   ⟨0x007fffdd, 23, 0x8c⟩, ⟨0x007fffde, 23, 0x8d⟩, ⟨0x00ffffeb, 24, 0x8e⟩, ⟨0x007fffdf, 23, 0x8f⟩,
   ⟨0x00ffffec, 24, 0x90⟩, ⟨0x00ffffed, 24, 0x91⟩, ⟨0x003fffd7, 22, 0x92⟩, ⟨0x007fffe0, 23, 0x93⟩,
   ⟨0x00ffffee, 24, 0x94⟩, ⟨0x007fffe1, 23, 0x95⟩, ⟨0x007fffe2, 23, 0x96⟩, ⟨0x007fffe3, 23, 0x97⟩,
   ⟨0x007fffe4, 23, 0x98⟩, ⟨0x001fffdc, 21, 0x99⟩, ⟨0x003fffd8, 22, 0x9a⟩, ⟨0x007fffe5, 23, 0x9b⟩,
   ⟨0x003fffd9, 22, 0x9c⟩, ⟨0x007fffe6, 23, 0x9d⟩, ⟨0x007fffe7, 23, 0x9e⟩, ⟨0x00ffffef, 24, 0x9f⟩,
   ⟨0x003fffda, 22, 0xa0⟩, ⟨0x001fffdd, 21, 0xa1⟩, ⟨0x000fffe9, 20, 0xa2⟩, ⟨0x003fffdb, 22, 0xa3⟩,
   ⟨0x003fffdc, 22, 0xa4⟩, ⟨0x007fffe8, 23, 0xa5⟩, ⟨0x007fffe9, 23, 0xa6⟩, ⟨0x001fffde, 21, 0xa7⟩,
   ⟨0x007fffea, 23, 0xa8⟩, ⟨0x003fffdd, 22, 0xa9⟩, ⟨0x003fffde, 22, 0xaa⟩, ⟨0x00fffff0, 24, 0xab⟩,
   ⟨0x001fffdf, 21, 0xac⟩, ⟨0x003fffdf, 22, 0xad⟩, ⟨0x007fffeb, 23, 0xae⟩, ⟨0x007fffec, 23, 0xaf⟩,
   ⟨0x001fffe0, 21, 0xb0⟩, ⟨0x001fffe1, 21, 0xb1⟩, ⟨0x003fffe0, 22, 0xb2⟩, ⟨0x001fffe2, 21, 0xb3⟩,
   ⟨0x007fffed, 23, 0xb4⟩, ⟨0x003fffe1, 22, 0xb5⟩, ⟨0x007fffee, 23, 0xb6⟩, ⟨0x007fffef, 23, 0xb7⟩,
   ⟨0x000fffea, 20, 0xb8⟩, ⟨0x003fffe2, 22, 0xb9⟩, ⟨0x003fffe3, 22, 0xba⟩, ⟨0x003fffe4, 22, 0xbb⟩,
   ⟨0x007ffff0, 23, 0xbc⟩, ⟨0x003fffe5, 22, 0xbd⟩, ⟨0x003fffe6, 22, 0xbe⟩, ⟨0x007ffff1, 23, 0xbf⟩,
   ⟨0x03ffffe0, 26, 0xc0⟩, ⟨0x03ffffe1, 26, 0xc1⟩, ⟨0x000fffeb, 20, 0xc2⟩, ⟨0x0007fff1, 19, 0xc3⟩,
   ⟨0x003fffe7, 22, 0xc4⟩, ⟨0x007ffff2, 23, 0xc5⟩, ⟨0x003fffe8, 22, 0xc6⟩, ⟨0x01ffffec, 25, 0xc7⟩,
   ⟨0x03ffffe2, 26, 0xc8⟩, ⟨0x03ffffe3, 26, 0xc9⟩, ⟨0x03ffffe4, 26, 0xca⟩, ⟨0x07ffffde, 27, 0xcb⟩,
   ⟨0x07ffffdf, 27, 0xcc⟩, ⟨0x03ffffe5, 26, 0xcd⟩, ⟨0x00fffff1, 24, 0xce⟩, ⟨0x01ffffed, 25, 0xcf⟩,
   ⟨0x0007fff2, 19, 0xd0⟩, ⟨0x001fffe3, 21, 0xd1⟩, ⟨0x03ffffe6, 26, 0xd2⟩, ⟨0x07ffffe0, 27, 0xd3⟩,
   ⟨0x07ffffe1, 27, 0xd4⟩, ⟨0x03ffffe7, 26, 0xd5⟩, ⟨0x07ffffe2, 27, 0xd6⟩, ⟨0x00fffff2, 24, 0xd7⟩,
   ⟨0x001fffe4, 21, 0xd8⟩, ⟨0x001fffe5, 21, 0xd9⟩, ⟨0x03ffffe8, 26, 0xda⟩, ⟨0x03ffffe9, 26, 0xdb⟩,
   ⟨0x0ffffffd, 28, 0xdc⟩, ⟨0x07ffffe3, 27, 0xdd⟩, ⟨0x07ffffe4, 27, 0xde⟩, ⟨0x07ffffe5, 27, 0xdf⟩,
   ⟨0x000fffec, 20, 0xe0⟩, ⟨0x00fffff3, 24, 0xe1⟩, ⟨0x000fffed, 20, 0xe2⟩, ⟨0x001fffe6, 21, 0xe3⟩,
   ⟨0x003fffe9, 22, 0xe4⟩, ⟨0x001fffe7, 21, 0xe5⟩, ⟨0x001fffe8, 21, 0xe6⟩, ⟨0x007ffff3, 23, 0xe7⟩,
   ⟨0x003fffea, 22, 0xe8⟩, ⟨0x003fffeb, 22, 0xe9⟩, ⟨0x01ffffee, 25, 0xea⟩, ⟨0x01ffffef, 25, 0xeb⟩,
   ⟨0x00fffff4, 24, 0xec⟩, ⟨0x00fffff5, 24, 0xed⟩, ⟨0x03ffffea, 26, 0xee⟩, ⟨0x007ffff4, 23, 0xef⟩,
   ⟨0x03ffffeb, 26, 0xf0⟩, ⟨0x07ffffe6, 27, 0xf1⟩, ⟨0x03ffffec, 26, 0xf2⟩, ⟨0x03ffffed, 26, 0xf3⟩,
   ⟨0x07ffffe7, 27, 0xf4⟩, ⟨0x07ffffe8, 27, 0xf5⟩, ⟨0x07ffffe9, 27, 0xf6⟩, ⟨0x07ffffea, 27, 0xf7⟩,
   ⟨0x07ffffeb, 27, 0xf8⟩, ⟨0x0ffffffe, 28, 0xf9⟩, ⟨0x07ffffec, 27, 0xfa⟩, ⟨0x07ffffed, 27, 0xfb⟩,
   ⟨0x07ffffee, 27, 0xfc⟩, ⟨0x07ffffef, 27, 0xfd⟩, ⟨0x07fffff0, 27, 0xfe⟩, ⟨0x03ffffee, 26, 0xff⟩,
   ⟨0x3fffffff, 30, 256⟩]

namespace HuffmanEntry

/-- The code word as a bit string. -/
def code (e : HuffmanEntry) : List Bool := BitString.bits e.numbits e.bits

@[simp] theorem length_code (e : HuffmanEntry) : e.code.length = e.numbits := by
  simp [code]

end HuffmanEntry

/-- The rows ordered by the 30-bit numbers their code words cover. -/
def codeOrder : List HuffmanEntry :=
  kHuffmanTable.insertionSort fun a b =>
    a.bits <<< (30 - a.numbits) ≤ b.bits <<< (30 - b.numbits)

theorem entry_fits : ∀ e ∈ kHuffmanTable, e.bits < 2 ^ e.numbits ∧ e.numbits ≤ 30 := by
  decide +kernel

theorem entry_wide : ∀ e ∈ kHuffmanTable, 5 ≤ e.numbits := by
  decide +kernel

/-- Padding is too short to hold a code word: the short ones all contain a zero. -/
theorem entry_not_ones : ∀ e ∈ kHuffmanTable, e.numbits < 8 → e.bits ≠ 2 ^ e.numbits - 1 := by
  decide +kernel

theorem codeOrder_chain :
    codeOrder.IsChain (PrefixCode.Before HuffmanEntry.bits HuffmanEntry.numbits 30) := by
  decide +kernel

theorem kHuffmanTable_prefixFree : PrefixCode.PrefixFree HuffmanEntry.code kHuffmanTable :=
  PrefixCode.prefixFree_of_chain (fun _ h => List.mem_insertionSort _ |>.mpr h) entry_fits
    codeOrder_chain

theorem kHuffmanTable_symbols : kHuffmanTable.map HuffmanEntry.symbol = List.range 257 := by
  decide +kernel

theorem length_kHuffmanTable : kHuffmanTable.length = 257 := by
  simpa using congrArg List.length kHuffmanTable_symbols

/-- `kHuffmanTable[b]` -/
def entryOf (b : Byte) : HuffmanEntry :=
  kHuffmanTable.get ⟨b.toNat, by rw [length_kHuffmanTable]; have := b.toNat_lt; omega⟩

theorem entryOf_mem (b : Byte) : entryOf b ∈ kHuffmanTable := List.get_mem _ _

@[simp] theorem entryOf_symbol (b : Byte) : (entryOf b).symbol = b.toNat := by
  have h : (kHuffmanTable.map HuffmanEntry.symbol)[b.toNat]? = some b.toNat := by
    rw [kHuffmanTable_symbols, List.getElem?_range (by have := b.toNat_lt; omega)]
  have hlt : b.toNat < kHuffmanTable.length := by
    rw [length_kHuffmanTable]
    have := b.toNat_lt
    omega
  simpa [entryOf, List.getElem?_eq_getElem hlt] using h

/-- The code words of a string. -/
def codeWords (s : Bytes) : List Bool := PrefixCode.encode HuffmanEntry.code (s.map entryOf)

@[simp] theorem codeWords_nil : codeWords [] = [] := rfl

@[simp] theorem codeWords_cons (b : Byte) (s : Bytes) :
    codeWords (b :: s) = (entryOf b).code ++ codeWords s := rfl

theorem codeWords_append (s t : Bytes) : codeWords (s ++ t) = codeWords s ++ codeWords t := by
  rw [codeWords, List.map_append, PrefixCode.encode_append]
  rfl

/-! ## Encoding -/

/-- `while (partialbits >= 8)`: write out the whole bytes of the accumulator.
The fuel is the number of bytes it holds. -/
def flush (acc : Nat) : Nat → Nat → Bytes × Nat
  | 0, partialbits => ([], partialbits)
  | fuel + 1, partialbits =>
    if partialbits ≥ 8 then
      let r := flush acc fuel (partialbits - 8)
      (UInt8.ofNat (acc >>> (partialbits - 8)) :: r.1, r.2)
    else ([], partialbits)

/-- The loop over the input. The bits above `partialbits` are never cleared;
they leave the 64-bit accumulator at its top. -/
def encodeLoop : Bytes → Nat → Nat → Bytes × Nat × Nat
  | [], acc, partialbits => ([], acc, partialbits)
  | b :: rest, acc, partialbits =>
    let e := entryOf b
    let acc := wrap64 (acc <<< e.numbits) ||| e.bits
    let out := flush acc ((partialbits + e.numbits) / 8) (partialbits + e.numbits)
    let r := encodeLoop rest acc out.2
    (out.1 ++ r.1, r.2)

def encodeHuffman (s : Bytes) : Bytes :=
  let (out, acc, partialbits) := encodeLoop s 0 0
  if partialbits > 0 then
    out ++ [UInt8.ofNat ((acc <<< (8 - partialbits)) ||| (2 ^ (8 - partialbits) - 1))]
  else out

theorem flush_spec (acc : Nat) : ∀ fuel partialbits, partialbits / 8 ≤ fuel →
    (flush acc fuel partialbits).2 < 8 ∧
    unpack (flush acc fuel partialbits).1 ++ bits (flush acc fuel partialbits).2 acc =
      bits partialbits acc := by
  intro fuel
  induction fuel with
  | zero =>
    intro n hn
    exact ⟨by simp only [flush]; omega, by simp [flush]⟩
  | succ fuel ih =>
    intro n hn
    by_cases big : n ≥ 8
    · obtain ⟨small, text⟩ := ih (n - 8) (by omega)
      simp only [flush, big, ↓reduceIte]
      refine ⟨small, ?_⟩
      have split := bits_add 8 (n - 8) acc
      rw [show 8 + (n - 8) = n by omega] at split
      rw [unpack_cons, bits_ofNat, List.append_assoc, text, split]
    · simp only [flush, big, ↓reduceIte, unpack_nil, List.nil_append, and_true]
      omega

/-- Pushing a code word into the 64-bit accumulator loses none of the bits
still to be written. -/
theorem push_code (acc : Nat) {n : Nat} (hn : n < 8) (e : HuffmanEntry) (he : e ∈ kHuffmanTable) :
    bits (n + e.numbits) (wrap64 (acc <<< e.numbits) ||| e.bits) = bits n acc ++ e.code := by
  obtain ⟨fits, width⟩ := entry_fits e he
  have wrapped : bits (n + e.numbits) (wrap64 (acc <<< e.numbits) ||| e.bits) =
      bits (n + e.numbits) ((acc <<< e.numbits) ||| e.bits) := by
    apply bits_congr
    intro i hi
    rw [wrap64, Nat.testBit_or, Nat.testBit_or, Nat.testBit_mod_two_pow]
    simp [show i < 64 by omega]
  rw [wrapped, bits_push fits, HuffmanEntry.code]

theorem encodeLoop_spec (s : Bytes) : ∀ acc n, n < 8 →
    let r := encodeLoop s acc n
    r.2.2 < 8 ∧ unpack r.1 ++ bits r.2.2 r.2.1 = bits n acc ++ codeWords s := by
  induction s with
  | nil =>
    intro acc n hn
    exact ⟨hn, by simp [encodeLoop]⟩
  | cons b s ih =>
    intro acc n hn
    have pushed := push_code acc hn (entryOf b) (entryOf_mem b)
    simp only [encodeLoop]
    generalize wrap64 (acc <<< (entryOf b).numbits) ||| (entryOf b).bits = acc' at pushed ⊢
    obtain ⟨small, text⟩ := flush_spec acc' _ (n + (entryOf b).numbits) (Nat.le_refl _)
    generalize flush acc' _ (n + (entryOf b).numbits) = out at small text ⊢
    obtain ⟨small', text'⟩ := ih acc' out.2 small
    refine ⟨small', ?_⟩
    rw [unpack_append, List.append_assoc, text', ← List.append_assoc, text, pushed,
      codeWords_cons, List.append_assoc]

/-- The bytes written are the code words, padded with fewer than eight ones. -/
theorem unpack_encodeHuffman (s : Bytes) :
    ∃ k, k < 8 ∧ unpack (encodeHuffman s) = codeWords s ++ List.replicate k true := by
  obtain ⟨small, text⟩ := encodeLoop_spec s 0 0 (by omega)
  simp only [encodeHuffman]
  generalize encodeLoop s 0 0 = r at small text ⊢
  obtain ⟨out, acc, n⟩ := r
  simp only [bits_zero, List.nil_append] at small text
  by_cases pos : n > 0
  · refine ⟨8 - n, by omega, ?_⟩
    have ones : 2 ^ (8 - n) - 1 < 2 ^ (8 - n) := by
      have := Nat.two_pow_pos (8 - n)
      omega
    have pushed := bits_push (w := n) (u := acc) ones
    rw [show n + (8 - n) = 8 by omega, bits_ones] at pushed
    simp only [pos, ↓reduceIte, unpack_append, unpack_cons, unpack_nil, List.append_nil,
      bits_ofNat]
    rw [pushed, ← List.append_assoc, text]
  · refine ⟨0, by omega, ?_⟩
    have zero : n = 0 := by omega
    subst zero
    simpa using text

/-! ## Decoding -/

/-- The row whose code word stands in the top bits of the accumulator. -/
def matchEntry (acc partialbits : Nat) : Option HuffmanEntry :=
  kHuffmanTable.find? fun e =>
    e.numbits ≤ partialbits && e.bits == acc >>> (partialbits - e.numbits)

/-- The `do { ... } while (redo)` loop: take symbols off the accumulator until
none matches. `none` is a `return false`. A match takes at least five bits, so
one more unit of fuel than there are bits is never used up. -/
def drain : Nat → Nat → Nat → Bytes → Option (Nat × Nat × Bytes)
  | 0, _, _, _ => none
  | fuel + 1, acc, partialbits, output =>
    match matchEntry acc partialbits with
    | none => if partialbits ≥ 30 then none else some (acc, partialbits, output)
    | some e =>
      if e.symbol > 0xff then none
      else
        let partialbits := partialbits - e.numbits
        let acc := acc &&& (2 ^ partialbits - 1)
        if partialbits ≥ 30 then none
        else drain fuel acc partialbits (output ++ [UInt8.ofNat e.symbol])

def decodeLoop : Bytes → Nat → Nat → Bytes → Option Bytes
  | bytes, acc, partialbits, output =>
    match (if partialbits ≥ 5 then drain (partialbits + 1) acc partialbits output
      else some (acc, partialbits, output)) with
    | none => none
    | some (acc, partialbits, output) =>
      match bytes with
      | [] => if partialbits < 8 && acc == 2 ^ partialbits - 1 then some output else none
      | b :: rest => decodeLoop rest (wrap64 (acc <<< 8) ||| b.toNat) (partialbits + 8) output

/-- `none` where the source returns false. -/
def decodeHuffman (bytes : Bytes) : Option Bytes := decodeLoop bytes 0 0 []

theorem matchEntry_some {acc n : Nat} {e : HuffmanEntry} (h : matchEntry acc n = some e) :
    e ∈ kHuffmanTable ∧ e.numbits ≤ n ∧ e.bits = acc >>> (n - e.numbits) := by
  have found := List.find?_some h
  simp only [Bool.and_eq_true, decide_eq_true_eq, beq_iff_eq] at found
  exact ⟨List.mem_of_find?_eq_some h, found⟩

theorem matchEntry_prefix {acc n : Nat} (ha : acc < 2 ^ n) {e : HuffmanEntry}
    (h : matchEntry acc n = some e) : e ∈ kHuffmanTable ∧ e.code <+: bits n acc := by
  obtain ⟨mem, wide, eq⟩ := matchEntry_some h
  exact ⟨mem, (bits_prefix_iff (entry_fits e mem).1 ha).mpr ⟨wide, eq⟩⟩

theorem matchEntry_none {acc n : Nat} (ha : acc < 2 ^ n) (h : matchEntry acc n = none) :
    PrefixCode.Settled HuffmanEntry.code kHuffmanTable (bits n acc) := by
  intro e he pre
  obtain ⟨wide, eq⟩ := (bits_prefix_iff (entry_fits e he).1 ha).mp pre
  have := List.find?_eq_none.mp h e he
  simp [wide, ← eq] at this

/-- What the accumulator and the unread input still hold: the code words of the
rest of the message, and fewer than eight ones of padding. -/
def Holds (acc partialbits : Nat) (unread : List Bool) (rest : Bytes) (pad : Nat) : Prop :=
  acc < 2 ^ partialbits ∧ pad < 8 ∧
  bits partialbits acc ++ unread = codeWords rest ++ List.replicate pad true

/-- No code word, the end-of-string symbol's included, fits into the padding. -/
theorem padding_settled {pad : Nat} (h : pad < 8) :
    PrefixCode.Settled HuffmanEntry.code kHuffmanTable (List.replicate pad true) := by
  intro e mem pre
  obtain ⟨short, ones⟩ := List.prefix_replicate_iff.mp pre
  rw [HuffmanEntry.length_code] at short ones
  exact entry_not_ones e mem (by omega) (ones_of_bits (entry_fits e mem).1 ones)

theorem next_symbol {e : HuffmanEntry} (mem : e ∈ kHuffmanTable) {rest : Bytes} {pad : Nat}
    (hpad : pad < 8) (pre : e.code <+: codeWords rest ++ List.replicate pad true) :
    ∃ b rest', rest = b :: rest' ∧ e = entryOf b := by
  have known : ∀ b ∈ rest.map entryOf, b ∈ kHuffmanTable := by
    simpa using fun b _ => entryOf_mem b
  obtain ⟨tail, ht⟩ := PrefixCode.encode_cons_of_prefix kHuffmanTable_prefixFree mem known
    (padding_settled hpad e mem) pre
  cases rest with
  | nil => simp at ht
  | cons b rest =>
    simp only [List.map_cons, List.cons.injEq] at ht
    exact ⟨b, rest, rfl, ht.1.symm⟩

/-- Every symbol read off the accumulator is the next byte of the message. -/
theorem holds_match {acc n pad : Nat} {unread : List Bool} {rest : Bytes}
    (h : Holds acc n unread rest pad) {e : HuffmanEntry} (hm : matchEntry acc n = some e) :
    ∃ b rest', rest = b :: rest' ∧ e = entryOf b ∧
      Holds (acc &&& (2 ^ (n - e.numbits) - 1)) (n - e.numbits) unread rest' pad := by
  obtain ⟨small, padding, text⟩ := h
  obtain ⟨mem, pre⟩ := matchEntry_prefix small hm
  have wide : e.numbits ≤ n := by simpa using pre.length_le
  obtain ⟨b, rest', rfl, rfl⟩ := next_symbol mem padding
    (pre.trans (by rw [← text]; exact List.prefix_append _ _))
  refine ⟨b, rest', rfl, rfl, ?_, padding, ?_⟩
  · rw [Nat.and_two_pow_sub_one_eq_mod]
    exact Nat.mod_lt _ (Nat.two_pow_pos _)
  · rw [Nat.and_two_pow_sub_one_eq_mod, bits_mask (n := n) (by omega),
      show n - (n - (entryOf b).numbits) = (entryOf b).numbits by omega]
    have cut := List.prefix_iff_eq_append.mp pre
    rw [HuffmanEntry.length_code] at cut
    rw [← cut, codeWords_cons, List.append_assoc, List.append_assoc] at text
    exact List.append_cancel_left text

/-- An accumulator in which nothing matches holds less than one code word. -/
theorem holds_settled {acc n pad : Nat} {unread : List Bool} {rest : Bytes}
    (h : Holds acc n unread rest pad)
    (hs : PrefixCode.Settled HuffmanEntry.code kHuffmanTable (bits n acc)) : n < 30 := by
  obtain ⟨_, padding, text⟩ := h
  cases rest with
  | nil =>
    have := congrArg List.length text
    simp only [List.length_append, length_bits, codeWords_nil, List.nil_append,
      List.length_replicate] at this
    omega
  | cons b rest =>
    have short := PrefixCode.settled_length hs (entryOf_mem b)
      (show bits n acc ++ unread = PrefixCode.encode HuffmanEntry.code
        (entryOf b :: rest.map entryOf) ++ List.replicate pad true from text)
    have := (entry_fits _ (entryOf_mem b)).2
    simp only [length_bits, HuffmanEntry.length_code] at short
    omega

/-- The inner loop takes a prefix of the message off the accumulator and stops
with no match left. It is entered with at most 29 bits left over after the
first match, so its guard against long codes never fires. -/
theorem drain_spec {pad : Nat} {unread : List Bool} :
    ∀ fuel acc n output rest, n < fuel → Holds acc n unread rest pad →
    (∀ e, matchEntry acc n = some e → n < e.numbits + 30) →
    ∃ acc' n' taken rest', drain fuel acc n output = some (acc', n', output ++ taken) ∧
      rest = taken ++ rest' ∧ n' < 30 ∧ Holds acc' n' unread rest' pad ∧
      PrefixCode.Settled HuffmanEntry.code kHuffmanTable (bits n' acc') := by
  intro fuel
  induction fuel with
  | zero => intro _ _ _ _ h; omega
  | succ fuel ih =>
    intro acc n output rest hfuel holds bound
    cases hm : matchEntry acc n with
    | none =>
      have settled := matchEntry_none holds.1 hm
      have short := holds_settled holds settled
      refine ⟨acc, n, [], rest, ?_, rfl, short, holds, settled⟩
      simp [drain, hm, show ¬ 30 ≤ n by omega]
    | some e =>
      obtain ⟨b, rest', rfl, rfl, holds'⟩ := holds_match holds hm
      have wide := entry_wide _ (entryOf_mem b)
      have fits := (matchEntry_some hm).2.1
      have left := bound _ hm
      have byte : ¬ (entryOf b).symbol > 0xff := by
        rw [entryOf_symbol]
        have := b.toNat_lt
        omega
      obtain ⟨acc', n', taken, rest, hd, rfl, short, holds'', settled⟩ :=
        ih _ _ (output ++ [b]) rest' (by omega) holds' (fun e _ => by omega)
      refine ⟨acc', n', b :: taken, rest, ?_, by simp, short, holds'', settled⟩
      have symbol : UInt8.ofNat (entryOf b).symbol = b := by rw [entryOf_symbol, UInt8.ofNat_toNat]
      simp only [drain, hm, byte, ↓reduceIte, symbol, show ¬ n - (entryOf b).numbits ≥ 30 by omega,
        hd, List.append_assoc, List.singleton_append]

/-- The state after the inner loop, run or skipped. With fewer than five bits
there is nothing to match. -/
theorem drained {pad : Nat} {unread : List Bool} {acc n : Nat} (output : Bytes) {rest : Bytes}
    (holds : Holds acc n unread rest pad)
    (bound : ∀ e, matchEntry acc n = some e → n < e.numbits + 30) :
    ∃ acc' n' taken rest',
      (if n ≥ 5 then drain (n + 1) acc n output else some (acc, n, output)) =
        some (acc', n', output ++ taken) ∧
      rest = taken ++ rest' ∧ n' < 30 ∧ Holds acc' n' unread rest' pad ∧
      PrefixCode.Settled HuffmanEntry.code kHuffmanTable (bits n' acc') := by
  by_cases wide : n ≥ 5
  · simp only [wide, ↓reduceIte]
    exact drain_spec (n + 1) acc n output rest (by omega) holds bound
  · refine ⟨acc, n, [], rest, by simp [wide], rfl, by omega, holds, ?_⟩
    intro e mem pre
    have := pre.length_le
    have := entry_wide e mem
    simp only [HuffmanEntry.length_code, length_bits] at *
    omega

/-- A byte taken in stands in the low bits, and the 64-bit accumulator has room for it. -/
theorem push_byte {acc n : Nat} (small : acc < 2 ^ n) (short : n < 30) (b : Byte) :
    (wrap64 (acc <<< 8) ||| b.toNat) < 2 ^ (n + 8) ∧
    bits (n + 8) (wrap64 (acc <<< 8) ||| b.toNat) = bits n acc ++ bits 8 b.toNat := by
  have hb : b.toNat < 2 ^ 8 := b.toNat_lt
  have room : acc <<< 8 < 2 ^ (n + 8) := by
    rw [Nat.shiftLeft_eq, Nat.pow_add]
    exact Nat.mul_lt_mul_of_pos_right small (by omega)
  have narrow : 2 ^ (n + 8) ≤ 2 ^ 64 := Nat.pow_le_pow_right (by omega) (by omega)
  rw [wrap64_of_lt (by omega)]
  exact ⟨Nat.or_lt_two_pow room
    (Nat.lt_of_lt_of_le hb (Nat.pow_le_pow_right (by omega) (by omega))), bits_push hb⟩

/-- Taking in a byte after the inner loop has settled. A code word matched next
ends inside this byte. -/
theorem holds_push {pad : Nat} {acc n : Nat} {b : Byte} {more rest : Bytes} (short : n < 30)
    (holds : Holds acc n (unpack (b :: more)) rest pad)
    (settled : PrefixCode.Settled HuffmanEntry.code kHuffmanTable (bits n acc)) :
    Holds (wrap64 (acc <<< 8) ||| b.toNat) (n + 8) (unpack more) rest pad ∧
    ∀ e, matchEntry (wrap64 (acc <<< 8) ||| b.toNat) (n + 8) = some e →
      n + 8 < e.numbits + 30 := by
  obtain ⟨small, padding, text⟩ := holds
  obtain ⟨fits, pushed⟩ := push_byte small short b
  refine ⟨⟨fits, padding, ?_⟩, ?_⟩
  · rw [pushed, List.append_assoc, ← unpack_cons]
    exact text
  · intro e hm
    obtain ⟨mem, pre⟩ := matchEntry_prefix fits hm
    by_contra large
    rw [pushed] at pre
    exact settled e mem (List.prefix_of_prefix_length_le pre (List.prefix_append _ _) (by
      simp only [HuffmanEntry.length_code, length_bits]
      omega))

theorem decodeLoop_spec {pad : Nat} : ∀ bytes acc n output rest,
    Holds acc n (unpack bytes) rest pad →
    (∀ e, matchEntry acc n = some e → n < e.numbits + 30) →
    decodeLoop bytes acc n output = some (output ++ rest) := by
  intro bytes
  induction bytes with
  | nil =>
    intro acc n output rest holds bound
    obtain ⟨acc', n', taken, rest', run, rfl, short, holds', settled⟩ := drained output holds bound
    obtain ⟨small, padding, text⟩ := holds'
    rw [unpack_nil, List.append_nil] at text
    cases rest' with
    | nil =>
      have len : n' = pad := by simpa using congrArg List.length text
      subst len
      have ones := ones_of_bits small (by simpa using text)
      simp [decodeLoop, run, padding, ones]
    | cons b rest' =>
      have pre : (entryOf b).code <+: bits n' acc' := by
        rw [text, codeWords_cons, List.append_assoc]
        exact List.prefix_append _ _
      exact absurd pre (settled _ (entryOf_mem b))
  | cons b more ih =>
    intro acc n output rest holds bound
    obtain ⟨acc', n', taken, rest', run, rfl, short, holds', settled⟩ := drained output holds bound
    obtain ⟨holds'', bound'⟩ := holds_push short holds' settled
    rw [decodeLoop, run]
    simp only
    rw [ih _ _ _ _ holds'' bound', List.append_assoc]

/-- Decoding undoes encoding, for every string. -/
theorem decodeHuffman_encodeHuffman (s : Bytes) : decodeHuffman (encodeHuffman s) = some s := by
  obtain ⟨pad, hpad, text⟩ := unpack_encodeHuffman s
  apply @decodeLoop_spec pad (encodeHuffman s) 0 0 [] s
  · exact ⟨by omega, hpad, by simpa using text⟩
  · intro e hm
    omega

/-! ## One encoding of each string -/

/-- Each row of a byte is the one it is found at. -/
theorem entryOf_of_byte {e : HuffmanEntry} (mem : e ∈ kHuffmanTable)
    (byte : ¬ e.symbol > 0xff) : entryOf (UInt8.ofNat e.symbol) = e := by
  obtain ⟨i, inside, rfl⟩ := List.mem_iff_getElem.mp mem
  have own : kHuffmanTable[i].symbol = i := by
    have row := List.getElem_of_eq kHuffmanTable_symbols (i := i) (by simpa using inside)
    simpa using row
  rw [own] at byte ⊢
  have index : (UInt8.ofNat i).toNat = i := by
    rw [UInt8.toNat_ofNat']
    omega
  simp only [entryOf, index, List.get_eq_getElem]

/-- The inner loop takes the code words of what it puts out off the accumulator. -/
theorem drain_taken : ∀ {fuel acc n : Nat} {output : Bytes} {acc' n' : Nat} {output' : Bytes},
    acc < 2 ^ n → drain fuel acc n output = some (acc', n', output') →
    ∃ taken, output' = output ++ taken ∧ acc' < 2 ^ n' ∧ n' < 30 ∧
      bits n acc = codeWords taken ++ bits n' acc' := by
  intro fuel
  induction fuel with
  | zero => intro _ _ _ _ _ _ _ run; cases run
  | succ fuel ih =>
    intro acc n output acc' n' output' small run
    cases found : matchEntry acc n with
    | none =>
      simp only [drain, found] at run
      split at run
      · cases run
      · cases run
        exact ⟨[], (List.append_nil _).symm, small, by omega, rfl⟩
    | some e =>
      obtain ⟨mem, pre⟩ := matchEntry_prefix small found
      have wide : e.numbits ≤ n := by simpa using pre.length_le
      simp only [drain, found] at run
      split at run
      · cases run
      · next byte =>
        split at run
        · cases run
        · rw [Nat.and_two_pow_sub_one_eq_mod] at run
          obtain ⟨taken, rfl, small', short, text⟩ :=
            ih (Nat.mod_lt _ (Nat.two_pow_pos _)) run
          refine ⟨UInt8.ofNat e.symbol :: taken, by simp, small', short, ?_⟩
          have cut := List.prefix_iff_eq_append.mp pre
          rw [HuffmanEntry.length_code] at cut
          rw [bits_mask (n := n) (by omega), show n - (n - e.numbits) = e.numbits by omega] at text
          rw [codeWords_cons, entryOf_of_byte mem byte, List.append_assoc, ← text, cut]

theorem gated_taken {acc n : Nat} {output : Bytes} {acc' n' : Nat} {output' : Bytes}
    (small : acc < 2 ^ n)
    (run : (if n ≥ 5 then drain (n + 1) acc n output else some (acc, n, output)) =
      some (acc', n', output')) :
    ∃ taken, output' = output ++ taken ∧ acc' < 2 ^ n' ∧ n' < 30 ∧
      bits n acc = codeWords taken ++ bits n' acc' := by
  split at run
  · exact drain_taken small run
  · cases run
    exact ⟨[], (List.append_nil _).symm, small, by omega, rfl⟩

/-- What is accepted reads as the code words of the output, and ones behind them. -/
theorem decodeLoop_text : ∀ {bytes : Bytes} {acc n : Nat} {output s : Bytes},
    acc < 2 ^ n → decodeLoop bytes acc n output = some s →
    ∃ taken pad, s = output ++ taken ∧ pad < 8 ∧
      bits n acc ++ unpack bytes = codeWords taken ++ List.replicate pad true := by
  intro bytes
  induction bytes with
  | nil =>
    intro acc n output s small run
    rw [decodeLoop] at run
    split at run
    · cases run
    · next acc' n' output' drained =>
      obtain ⟨taken, rfl, small', short, text⟩ := gated_taken small drained
      dsimp only at run
      split at run
      · next padded =>
        cases run
        rw [Bool.and_eq_true, decide_eq_true_eq, beq_iff_eq] at padded
        refine ⟨taken, n', rfl, padded.1, ?_⟩
        rw [text, padded.2, bits_ones, unpack_nil, List.append_nil]
      · cases run
  | cons b rest ih =>
    intro acc n output s small run
    rw [decodeLoop] at run
    split at run
    · cases run
    · next acc' n' output' drained =>
      obtain ⟨taken, rfl, small', short, text⟩ := gated_taken small drained
      obtain ⟨fits, pushed⟩ := push_byte small' short b
      obtain ⟨more, pad, rfl, padding, text'⟩ := ih fits run
      refine ⟨taken ++ more, pad, by rw [List.append_assoc], padding, ?_⟩
      rw [pushed, List.append_assoc, ← unpack_cons] at text'
      rw [text, List.append_assoc, text', codeWords_append, List.append_assoc]

/-- What a string is read off is its encoding. -/
theorem eq_encodeHuffman {b s : Bytes} (accepted : decodeHuffman b = some s) :
    b = encodeHuffman s := by
  obtain ⟨taken, pad, rfl, padding, text⟩ := decodeLoop_text (by omega) accepted
  rw [bits_zero, List.nil_append] at text
  obtain ⟨k, short, written⟩ := unpack_encodeHuffman s
  -- both fill up the same bits to whole bytes, with fewer than eight ones
  have same : pad = k := by
    have lengths := congrArg List.length text
    have lengths' := congrArg List.length written
    rw [length_unpack, List.length_append, List.length_replicate] at lengths lengths'
    omega
  apply unpack_inj
  rw [text, written, same]

/-- **Canonicity.** A string is read off its own encoding, and off nothing else. -/
theorem decodeHuffman_eq_some_iff (b s : Bytes) :
    decodeHuffman b = some s ↔ b = encodeHuffman s := by
  constructor
  · exact eq_encodeHuffman
  · rintro rfl
    exact decodeHuffman_encodeHuffman s

end Http2Server.Hpack
