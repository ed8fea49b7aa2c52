import Downlevel.Archive.Packed.Bits

/-!
# Files packed by sorting

In this way of packing, a block of bytes is kept as the last column of the table of all its
rotations in alphabetical order, in which equal bytes tend to stand together.  The column is written
as places in a list of bytes from which each byte moves to the front when it is named; runs of the
byte in front are written as numbers.  All that is in several prefix codes, which take turns.
Before the sorting, four equal bytes in a row were followed by a byte that says how many more there
are.  Bits are taken from the most significant one of each byte on.
-/

namespace Downlevel

namespace Packed

namespace Bzip2

/-- The mark in front of a packed file. -/
def fileMark : Nat := 0x425a68

/-- The mark in front of a block. -/
def blockMark : Nat := 0x314159265359

/-- The mark behind the last block. -/
def endMark : Nat := 0x177245385090

/-- The largest number of bytes in a block. -/
def maxBlock : Nat := 900000

/-- The number of symbols for which a code is used at a time. -/
def turn : Nat := 50

/-- Takes what is at a place in a list, and moves it to the front. -/
def toFront {α : Type} (place : Nat) (order : List α) : Option (α × List α) := do
  let found ← order[place]?
  return (found, found :: order.eraseIdx place)

/-! ## The codes -/

/-- For each of `flags`, sixteen further flags, which are zeros without one. -/
def spread : List Nat → BitSource → Option (List Nat × BitSource)
  | [], source => some ([], source)
  | flag :: flags, source => do
      let (first, source) ←
        if flag = 1 then BitSource.numbers 1 16 source else some (List.replicate 16 0, source)
      let (others, source) ← spread flags source
      return (first ++ others, source)

/-- The bytes that a block has. -/
def usedBytes (source : BitSource) : Option (List UInt8 × BitSource) := do
  let (rows, source) ← BitSource.numbers 1 16 source
  let (flags, source) ← spread rows source
  let used := flags.zipIdx.filterMap fun (flag, byte) =>
    if flag = 1 then some byte.toUInt8 else none
  return (used, source)

/-- The number of ones in front of a zero, which is at most `limit`. -/
def unary : Nat → BitSource → Option (Nat × BitSource)
  | 0, _ => none
  | limit + 1, source => do
      let (bit, source) ← source.bit
      if bit = 0 then return (0, source)
      else
        let (more, source) ← unary limit source
        return (more + 1, source)

/-- Which codes take turns, behind those that were `found`. -/
def turnsFrom : Nat → List Nat → Array Nat → BitSource → Option (List Nat × BitSource)
  | 0, _, found, source => some (found.toList, source)
  | count + 1, order, found, source => do
      let (place, source) ← unary order.length source
      let (code, order) ← toFront place order
      turnsFrom count order (found.push code) source

/-- The length of a word, which is told by steps up and down from a length. -/
def lengthFrom : Nat → Nat → BitSource → Option (Nat × BitSource)
  | 0, _, _ => none
  | steps + 1, length, source => do
      let (goesOn, source) ← source.bit
      if goesOn = 0 then return (length, source)
      else
        let (isDown, source) ← source.bit
        lengthFrom steps (if isDown = 1 then length - 1 else length + 1) source

/-- The lengths of words, each told from the one before. -/
def lengthsFrom : Nat → Nat → BitSource → Option (List Nat × BitSource)
  | 0, _, source => some ([], source)
  | count + 1, length, source => do
      let (length, source) ← lengthFrom (8 * source.data.size) length source
      let (others, source) ← lengthsFrom count length source
      return (length :: others, source)

/-- Several codes for `symbols` symbols each. -/
def codesFrom (symbols : Nat) : Nat → BitSource → Option (List PrefixCode × BitSource)
  | 0, source => some ([], source)
  | count + 1, source => do
      let (length, source) ← source.bits 5
      let (lengths, source) ← lengthsFrom symbols length source
      let (others, source) ← codesFrom symbols count source
      return (PrefixCode.ofLengths lengths :: others, source)

/-! ## The symbols -/

/-- Reads a number of symbols in a code behind those that were `found`, and tells whether the symbol
`stop` was met. -/
def turnFrom (code : PrefixCode) (stop : Nat) :
    Nat → Array Nat → BitSource → Option (Array Nat × Bool × BitSource)
  | 0, found, source => some (found, false, source)
  | count + 1, found, source => do
      let (symbol, source) ← code.decode source
      if symbol = stop then return (found, true, source)
      else turnFrom code stop count (found.push symbol) source

/-- Reads symbols up to the symbol `stop` in codes that take turns. -/
def symbolsFrom (codes : Array PrefixCode) (stop : Nat) :
    List Nat → Array Nat → BitSource → Option (List Nat × BitSource)
  | [], _, _ => none
  | code :: turns, found, source => do
      let (found, ended, source) ← turnFrom (← codes[code]?) stop turn found source
      if ended then return (found.toList, source) else symbolsFrom codes stop turns found source

/-- The column that symbols stand for.  The symbols 0 and 1 are the digits of the length of a run of
the byte in front, the lowest first; the digits count as one and two. -/
def column : List Nat → Nat → List UInt8 → ByteArray → Option ByteArray
  | [], _, _, output => some output
  | symbol :: rest, weight, order, output =>
      if symbol < 2 then
        let count := (symbol + 1) * weight
        if output.size + count ≤ maxBlock then
          column rest (2 * weight) order (pushMany (order.headD 0) count output)
        else none
      else do
        let (byte, order) ← toFront (symbol - 1) order
        column rest 1 order (output.push byte)

/-! ## The bytes -/

/-- For each row of the sorted table, the row that is turned by one byte: the rows in the order of
their last bytes, and of rows with the same one the upper first. -/
def turnedRows (last : ByteArray) : Array Nat :=
  let byteAt (row : Nat) : UInt8 := last[row]?.getD 0
  ((List.range last.size).mergeSort fun a b => byteAt a ≤ byteAt b).toArray

/-- Reads bytes of the column along the turned rows. -/
def walk (last : ByteArray) (turned : Array Nat) : Nat → Nat → ByteArray → ByteArray
  | 0, _, found => found
  | count + 1, row, found =>
      let row := turned[row]?.getD 0
      walk last turned count row (found.push (last[row]?.getD 0))

/-- The bytes whose sorted rotations have the given last column.  They are in row `row`. -/
def unsorted (last : ByteArray) (row : Nat) : ByteArray :=
  walk last (turnedRows last) last.size row ByteArray.empty

/-- Writes bytes behind `output`.  The byte `last` was there `count` times just before; behind four
of them there is the number of further ones. -/
def withRuns : List UInt8 → UInt8 → Nat → ByteArray → ByteArray
  | [], _, _, output => output
  | byte :: rest, last, count, output =>
      if count = 4 then withRuns rest last 0 (pushMany last byte.toNat output)
      else if byte = last && 0 < count then withRuns rest last (count + 1) (output.push byte)
      else withRuns rest byte 1 (output.push byte)

/-! ## Blocks -/

/-- Unpacks a block behind its mark.  It has a checksum, a flag that is not in use any more, and the
row of the table in which the bytes are. -/
def block (output : ByteArray) (source : BitSource) : Option (ByteArray × BitSource) := do
  let (_, source) ← source.bits 32
  let (_, source) ← source.bit
  let (row, source) ← source.bits 24
  let (used, source) ← usedBytes source
  let (codeCount, source) ← source.bits 3
  let (turnCount, source) ← source.bits 15
  let (turns, source) ← turnsFrom turnCount (List.range codeCount) #[] source
  let (codes, source) ← codesFrom (used.length + 2) codeCount source
  let (symbols, source) ← symbolsFrom codes.toArray (used.length + 1) turns #[] source
  let last ← column symbols 1 used ByteArray.empty
  return (withRuns (unsorted last row).toList 0 0 output, source)

/-- Unpacks blocks up to the last one.  Each has a mark. -/
def blocksFrom : Nat → ByteArray → BitSource → Option ByteArray
  | 0, _, _ => none
  | steps + 1, output, source => do
      let (mark, source) ← source.bits 48
      if mark = blockMark then
        let (output, source) ← block output source
        blocksFrom steps output source
      else if mark = endMark then return output
      else none

/-- What packed bytes stand for, if they are well formed. -/
def unpack? (data : ByteArray) : Option ByteArray := do
  let source : BitSource := ⟨data, .mostFirst, 0⟩
  let (mark, source) ← source.bits 24
  let (_, source) ← source.bits 8
  if mark = fileMark then blocksFrom data.size ByteArray.empty source else none

end Bzip2

end Packed

end Downlevel
