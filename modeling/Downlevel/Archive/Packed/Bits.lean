/-!
# Bits of packed data

Packed data are read bit by bit.  The bits of a byte come with the least significant one first, or
with the most significant one first; numbers of several bits are in the same order.

A prefix code has a word of bits for each symbol, and none of them begins with another one.  In the
codes here shorter words come before longer ones, and words of one length are in the order of their
symbols.  So the lengths of the words say everything.

Packed data say how what was unpacked so far goes on: with further bytes, or with a part of itself.
-/

namespace Downlevel

namespace Packed

/-- A power of two: how many numbers there are of so many bits. -/
def twoTo (width : Nat) : Nat :=
  Nat.pow 2 width

/-- The order in which the bits of a byte are read. -/
inductive BitOrder where
  | leastFirst
  | mostFirst
  deriving DecidableEq

/-- Bits that are read one after another. -/
structure BitSource where
  data : ByteArray
  order : BitOrder
  /-- The index of the next bit. -/
  position : Nat := 0

namespace BitSource

/-- How far the next bit is from the least significant one of its byte. -/
def shift (source : BitSource) : Nat :=
  match source.order with
  | .leastFirst => source.position % 8
  | .mostFirst => 7 - source.position % 8

/-- The next bit. -/
def bit (source : BitSource) : Option (Nat × BitSource) :=
  if h : source.position / 8 < source.data.size then
    some ((source.data[source.position / 8].toNat >>> source.shift) % 2,
      { source with position := source.position + 1 })
  else none

/-- The number that the next bits stand for. -/
def bits : Nat → BitSource → Option (Nat × BitSource)
  | 0, source => some (0, source)
  | count + 1, source => do
      let (first, source) ← source.bit
      let (others, source) ← bits count source
      match source.order with
      | .leastFirst => return (first + 2 * others, source)
      | .mostFirst => return (twoTo count * first + others, source)

/-- Goes to the next full byte. -/
def align (source : BitSource) : BitSource :=
  { source with position := (source.position + 7) / 8 * 8 }

/-- Several numbers of the same number of bits. -/
def numbers (width : Nat) : Nat → BitSource → Option (List Nat × BitSource)
  | 0, source => some ([], source)
  | count + 1, source => do
      let (first, source) ← source.bits width
      let (others, source) ← numbers width count source
      return (first :: others, source)

/-- The bits of bytes from the last one on.  The highest one that is set only says where they
begin. -/
def backward? (bytes : ByteArray) : Option BitSource := do
  let last ← bytes[bytes.size - 1]?
  if last = 0 then none
  else return ⟨⟨bytes.data.reverse⟩, .mostFirst, 8 - last.toNat.log2⟩

/-- The number that the next bits stand for, the most significant one first.  Bits that are missing
are zeros. -/
def peek : Nat → BitSource → Nat
  | 0, _ => 0
  | count + 1, source =>
      match source.bit with
      | some (first, source) => twoTo count * first + peek count source
      | none => 0

/-- Goes on by bits that are there. -/
def skip? (count : Nat) (source : BitSource) : Option BitSource :=
  let position := source.position + count
  if position ≤ 8 * source.data.size then some { source with position := position } else none

end BitSource

end Packed

namespace Packed

/-- A prefix code in which shorter words come before longer ones, and words of one length are in the
order of their symbols. -/
structure PrefixCode where
  /-- The number of words of each length, from one on. -/
  counts : List Nat
  /-- The symbols in the order of their words. -/
  symbols : Array Nat

namespace PrefixCode

/-- The longest length of a word. -/
def maxLength : Nat := 20

/-- The code in which each symbol has a word of the given length; no word has length zero. -/
def ofLengths (lengths : List Nat) : PrefixCode :=
  let indexed := lengths.zipIdx
  let bySize := (List.range maxLength).map fun size =>
    indexed.filterMap fun (length, symbol) => if length = size + 1 then some symbol else none
  ⟨bySize.map List.length, bySize.flatten.toArray⟩

/-- The symbol of a word that begins with `word`.  The words of the next length start at `first`,
and their symbols at `index`. -/
def decodeFrom (symbols : Array Nat) (word first index : Nat) :
    List Nat → BitSource → Option (Nat × BitSource)
  | [], _ => none
  | count :: counts, source => do
      let (bit, source) ← source.bit
      let word := 2 * word + bit
      if word < first + count then return (← symbols[index + (word - first)]?, source)
      else decodeFrom symbols word (2 * (first + count)) (index + count) counts source

/-- The symbol of the next word. -/
def decode (code : PrefixCode) (source : BitSource) : Option (Nat × BitSource) :=
  decodeFrom code.symbols 0 0 0 code.counts source

end PrefixCode

end Packed

namespace Packed

/-- What was unpacked, followed by a byte `count` times. -/
def pushMany (byte : UInt8) : Nat → ByteArray → ByteArray
  | 0, output => output
  | count + 1, output => pushMany byte count (output.push byte)

/-- The byte that is `distance` bytes before the end of what was unpacked.  In front of everything
there are zeros. -/
def byteBack (distance : Nat) (output : ByteArray) : UInt8 :=
  if output.size < distance then 0 else output[output.size - distance]?.getD 0

/-- What was unpacked, followed by `length` bytes from `distance` bytes before its end on. -/
def copyBack (distance : Nat) : Nat → ByteArray → ByteArray
  | 0, output => output
  | length + 1, output => copyBack distance length (output.push (byteBack distance output))

end Packed

end Downlevel
