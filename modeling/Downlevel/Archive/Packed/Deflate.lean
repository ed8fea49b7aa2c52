import Downlevel.Archive.Packed.Bits

/-!
# Deflated files

The usual way to pack the files of an archive is a sequence of blocks.  A block holds bytes as they
are, or symbols in a prefix code that is fixed or stands in front of them: a symbol is a byte, the
end of the block, or the length of a part of what was unpacked before, followed by how far back that
part begins.  Bits are taken from the least significant one of each byte on.  In a second form parts
can be longer and further back.

Unpacking goes as far as the data can be read.
-/

namespace Downlevel

namespace Packed

namespace Deflate

/-- A number that is a base and further bits. -/
structure Span where
  base : Nat
  extra : Nat

/-- The lengths that symbols stand for, from symbol 257 on, but for the last one. -/
def lengthSpans : Array Span :=
  #[⟨3, 0⟩, ⟨4, 0⟩, ⟨5, 0⟩, ⟨6, 0⟩, ⟨7, 0⟩, ⟨8, 0⟩, ⟨9, 0⟩, ⟨10, 0⟩, ⟨11, 1⟩, ⟨13, 1⟩, ⟨15, 1⟩,
    ⟨17, 1⟩, ⟨19, 2⟩, ⟨23, 2⟩, ⟨27, 2⟩, ⟨31, 2⟩, ⟨35, 3⟩, ⟨43, 3⟩, ⟨51, 3⟩, ⟨59, 3⟩, ⟨67, 4⟩,
    ⟨83, 4⟩, ⟨99, 4⟩, ⟨115, 4⟩, ⟨131, 5⟩, ⟨163, 5⟩, ⟨195, 5⟩, ⟨227, 5⟩]

/-- The distances that symbols stand for in both forms. -/
def distanceSpans : Array Span :=
  #[⟨1, 0⟩, ⟨2, 0⟩, ⟨3, 0⟩, ⟨4, 0⟩, ⟨5, 1⟩, ⟨7, 1⟩, ⟨9, 2⟩, ⟨13, 2⟩, ⟨17, 3⟩, ⟨25, 3⟩, ⟨33, 4⟩,
    ⟨49, 4⟩, ⟨65, 5⟩, ⟨97, 5⟩, ⟨129, 6⟩, ⟨193, 6⟩, ⟨257, 7⟩, ⟨385, 7⟩, ⟨513, 8⟩, ⟨769, 8⟩,
    ⟨1025, 9⟩, ⟨1537, 9⟩, ⟨2049, 10⟩, ⟨3073, 10⟩, ⟨4097, 11⟩, ⟨6145, 11⟩, ⟨8193, 12⟩, ⟨12289, 12⟩,
    ⟨16385, 13⟩, ⟨24577, 13⟩]

/-- What symbols stand for in a form of the packing. -/
structure Form where
  lengths : Array Span
  distances : Array Span

namespace Form

/-- The usual form. -/
def plain : Form := ⟨lengthSpans.push ⟨258, 0⟩, distanceSpans⟩

/-- The form with longer and more distant parts. -/
def wide : Form := ⟨lengthSpans.push ⟨3, 16⟩, distanceSpans ++ #[⟨32769, 14⟩, ⟨49153, 14⟩]⟩

end Form

/-- The number that a symbol and the bits behind it stand for. -/
def spanValue (spans : Array Span) (symbol : Nat) (source : BitSource) :
    Option (Nat × BitSource) := do
  let span ← spans[symbol]?
  let (more, source) ← source.bits span.extra
  return (span.base + more, source)

/-- What a symbol of a block says. -/
inductive Step where
  | byte (value : UInt8)
  | stop
  | copy (distance length : Nat)

/-- The codes of a block. -/
structure Codes where
  /-- The code for bytes, lengths and the end of the block. -/
  literals : PrefixCode
  distances : PrefixCode

namespace Codes

/-- The codes that are fixed. -/
def fixed : Codes where
  literals := PrefixCode.ofLengths
    (List.replicate 144 8 ++ List.replicate 112 9 ++ List.replicate 24 7 ++ List.replicate 8 8)
  distances := PrefixCode.ofLengths (List.replicate 32 5)

/-- What the next symbol says. -/
def step (codes : Codes) (form : Form) (source : BitSource) : Option (Step × BitSource) := do
  let (symbol, source) ← codes.literals.decode source
  if symbol < 256 then return (.byte symbol.toUInt8, source)
  else if symbol = 256 then return (.stop, source)
  else
    let (length, source) ← spanValue form.lengths (symbol - 257) source
    let (symbol, source) ← codes.distances.decode source
    let (distance, source) ← spanValue form.distances symbol source
    return (.copy distance length, source)

/-- The order in which the lengths of the words for lengths are given. -/
def lengthOrder : List Nat :=
  [16, 17, 18, 0, 8, 7, 9, 6, 10, 5, 11, 4, 12, 3, 13, 2, 14, 1, 15]

/-- Reads lengths of words until there are `count` of them.  Those before are in reverse in `done`;
some symbols stand for several of them. -/
def lengthsFrom (code : PrefixCode) (count : Nat) :
    Nat → List Nat → BitSource → Option (List Nat × BitSource)
  | 0, _, _ => none
  | steps + 1, done, source =>
      if done.length = count then some (done.reverse, source)
      else if count < done.length then none
      else do
        let (symbol, source) ← code.decode source
        if symbol < 16 then lengthsFrom code count steps (symbol :: done) source
        else
          let (value, least, extra) ←
            match symbol, done with
            | 16, last :: _ => some (last, 3, 2)
            | 17, _ => some (0, 3, 3)
            | 18, _ => some (0, 11, 7)
            | _, _ => none
          let (more, source) ← source.bits extra
          lengthsFrom code count steps (List.replicate (least + more) value ++ done) source

/-- Reads the codes in front of a block. -/
def read (source : BitSource) : Option (Codes × BitSource) := do
  let (literals, source) ← source.bits 5
  let (distances, source) ← source.bits 5
  let (given, source) ← source.bits 4
  let (sizes, source) ← BitSource.numbers 3 (given + 4) source
  let named := lengthOrder.zip sizes
  let code := PrefixCode.ofLengths
    ((List.range lengthOrder.length).map fun symbol => (named.lookup symbol).getD 0)
  let total := literals + 257 + (distances + 1)
  let (lengths, source) ← lengthsFrom code total (total + 1) [] source
  let (first, second) := lengths.splitAt (literals + 257)
  return (⟨PrefixCode.ofLengths first, PrefixCode.ofLengths second⟩, source)

end Codes

/-- What was unpacked so far, and the bits behind it if it can be gone on there. -/
abbrev Progress := ByteArray × Option BitSource

/-- Unpacks symbols up to the end of the block.  Each takes a bit at least, so that the number of
bits bounds the steps. -/
def symbolsFrom (form : Form) (codes : Codes) : Nat → ByteArray → BitSource → Progress
  | 0, output, _ => (output, none)
  | steps + 1, output, source =>
      match codes.step form source with
      | none => (output, none)
      | some (.stop, source) => (output, some source)
      | some (.byte value, source) => symbolsFrom form codes steps (output.push value) source
      | some (.copy distance length, source) =>
          symbolsFrom form codes steps (copyBack distance length output) source

/-- Takes bytes as they are. -/
def rawBytes : Nat → ByteArray → BitSource → Progress
  | 0, output, source => (output, some source)
  | count + 1, output, source =>
      match source.bits 8 with
      | none => (output, none)
      | some (byte, source) => rawBytes count (output.push byte.toUInt8) source

/-- How many bytes a block has that holds them as they are: the number stands there twice, the
second time with every bit turned. -/
def rawSize (source : BitSource) : Option (Nat × BitSource) := do
  let (size, source) ← source.align.bits 16
  let (complement, source) ← source.bits 16
  if size + complement = 65535 then return (size, source) else none

/-- Unpacks a block of a kind. -/
def block (form : Form) (kind : Nat) (output : ByteArray) (source : BitSource) : Progress :=
  let steps := 8 * source.data.size
  match kind with
  | 0 =>
      match rawSize source with
      | some (size, source) => rawBytes size output source
      | none => (output, none)
  | 1 => symbolsFrom form Codes.fixed steps output source
  | 2 =>
      match Codes.read source with
      | some (codes, source) => symbolsFrom form codes steps output source
      | none => (output, none)
  | _ => (output, none)

/-- The first bits of a block: whether it is the last one, and its kind. -/
def blockHead (source : BitSource) : Option (Bool × Nat × BitSource) := do
  let (last, source) ← source.bit
  let (kind, source) ← source.bits 2
  return (last = 1, kind, source)

/-- Unpacks blocks up to the last one.  Each takes a bit at least. -/
def blocksFrom (form : Form) : Nat → ByteArray → BitSource → ByteArray
  | 0, output, _ => output
  | steps + 1, output, source =>
      match blockHead source with
      | none => output
      | some (isLast, kind, source) =>
          match block form kind output source with
          | (output, none) => output
          | (output, some source) =>
              if isLast then output else blocksFrom form steps output source

/-- What packed bytes stand for, as far as they can be read. -/
def unpack (form : Form) (data : ByteArray) : ByteArray :=
  blocksFrom form (8 * data.size) ByteArray.empty ⟨data, .leastFirst, 0⟩

end Deflate

end Packed

end Downlevel
