import Downlevel.Archive.Packed.Lzma

/-!
# Files in chunks

A packed file of this kind has a header, blocks, and an index behind them.  A block has a header and
chunks, which hold bytes as they are or packed ones.  A chunk says what is forgotten in front of it:
what was unpacked, what was learned from it, or nothing.  Behind a block there is a checksum whose
size depends on its kind.
-/

namespace Downlevel

namespace Packed

namespace Xz

/-- The number that bytes at an offset stand for, the most significant first. -/
def numberAt? (data : ByteArray) : Nat → Nat → Option Nat
  | 0, _ => some 0
  | count + 1, offset => do
      let high ← data[offset]?
      let low ← numberAt? data count (offset + 1)
      return high.toNat * twoTo (8 * count) + low

/-- Takes over a chunk with bytes as they are.  Those of the first kind forget what was before. -/
def rawChunk (kind : Nat) (decoder : Lzma.Decoder) : Option Lzma.Decoder := do
  let size := (← numberAt? decoder.data 2 (decoder.position + 1)) + 1
  let start := decoder.position + 3
  let decoder := if kind = 1 then decoder.forget else decoder
  if start + size ≤ decoder.data.size then
    return { decoder with
      position := start + size
      output := decoder.output ++ decoder.data.extract start (start + size) }
  else none

/-- What is new in front of a packed chunk: nothing, what was learned, that and the settings, or
everything.  New settings stand in the byte at an offset. -/
def renewed (degree offset : Nat) (decoder : Lzma.Decoder) : Option Lzma.Decoder := do
  let decoder := if degree = 3 then decoder.forget else decoder
  let decoder := if 1 ≤ degree then decoder.fresh else decoder
  if 2 ≤ degree then
    let settings ← Lzma.Settings.ofByte? (← decoder.data[offset]?)
    return { decoder with settings := settings }
  else return decoder

/-- Unpacks a packed chunk.  Its first byte tells what is new, and the highest bits of its size. -/
def packedChunk (kind : Nat) (decoder : Lzma.Decoder) : Option Lzma.Decoder := do
  let degree := kind / 32 % 4
  let size := kind % 32 * 65536 + (← numberAt? decoder.data 2 (decoder.position + 1)) + 1
  let packedSize := (← numberAt? decoder.data 2 (decoder.position + 3)) + 1
  let start := decoder.position + (if 2 ≤ degree then 6 else 5)
  let decoder ← (← renewed degree (start - 1) decoder).startAt start
  let limit := decoder.output.size + size
  let (_, decoder) ← Lzma.runUntil limit (size + 1) decoder
  return { decoder with position := start + packedSize }

/-- Unpacks chunks up to the end of the block.  Each takes a byte at least. -/
def chunksFrom : Nat → Lzma.Decoder → Option Lzma.Decoder
  | 0, _ => none
  | steps + 1, decoder => do
      let kind := (← decoder.data[decoder.position]?).toNat
      if kind = 0 then return { decoder with position := decoder.position + 1 }
      else if kind ≤ 2 then chunksFrom steps (← rawChunk kind decoder)
      else if 128 ≤ kind then chunksFrom steps (← packedChunk kind decoder)
      else none

/-- The size of a checksum of a kind. -/
def checkSize (kind : Nat) : Nat :=
  if kind = 0 then 0 else twoTo ((kind + 5) / 3)

/-- Unpacks blocks from an offset up to the index.  A block begins with the size of its header and
is filled up to a multiple of four bytes. -/
def blocksFrom (data : ByteArray) (checkKind : Nat) : Nat → ByteArray → Nat → Option ByteArray
  | 0, _, _ => none
  | steps + 1, output, offset => do
      let size := (← data[offset]?).toNat
      if size = 0 then return output
      else
        let start := offset + 4 * (size + 1)
        let decoder ← chunksFrom data.size
          { data := data, position := start, output := output, start := output.size }
        let filled := (decoder.position - start + 3) / 4 * 4
        blocksFrom data checkKind steps decoder.output (start + filled + checkSize checkKind)

/-- The mark in front of a packed file. -/
def fileMark : Nat := 0xfd377a585a00

/-- What packed bytes stand for, if they are well formed. -/
def unpack? (data : ByteArray) : Option ByteArray := do
  if (← numberAt? data 6 0) = fileMark then
    let checkKind := (← numberAt? data 1 7) % 16
    blocksFrom data checkKind data.size ByteArray.empty 12
  else none

end Xz

end Packed

end Downlevel
