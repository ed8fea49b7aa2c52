import Std.Data.HashMap
import Downlevel.Archive.Packed.Bits

/-!
# Bits by their likelihood

In this way of packing, likely bits take less room than unlikely ones.  The packed bytes are a
number in an interval, and each bit divides the interval in two parts whose sizes are as the chances
of the bit.  How likely a bit is depends on what it tells, and is learned from the bits before.

The bits say how what was unpacked so far goes on: with a byte, or with a part of itself.  The
distances of the last four parts are kept, since they are likely to come again.
-/

namespace Downlevel

namespace Packed

namespace Lzma

/-- What a bit tells, with all that its chances depend on.  A number of several bits is told along
the nodes of a tree. -/
inductive Context where
  /-- Whether a part comes next, and not a byte. -/
  | isCopy (state place : Nat)
  /-- Whether the part has one of the last distances. -/
  | isRecent (state : Nat)
  /-- Whether the distance is older than that of a rank. -/
  | isOlder (state rank : Nat)
  /-- Whether a part with the last distance is longer than a byte. -/
  | isLong (state place : Nat)
  | literal (group node : Nat)
  /-- Whether a length is beyond a band of lengths. -/
  | isBeyond (recent : Bool) (band : Nat)
  | length (recent : Bool) (band place node : Nat)
  /-- The magnitude of a distance. -/
  | slot (size node : Nat)
  | distance (slot node : Nat)
  /-- The lowest bits of a large distance. -/
  | align (node : Nat)
  deriving DecidableEq, Hashable

/-- On how many bits of what was unpacked the chances of other bits depend. -/
structure Settings where
  /-- The highest bits of the byte before, for a byte. -/
  before : Nat
  /-- The lowest bits of the place, for a byte. -/
  literal : Nat
  /-- The lowest bits of the place, for everything else. -/
  place : Nat

namespace Settings

/-- The settings that a byte stands for. -/
def ofByte? (byte : UInt8) : Option Settings :=
  let n := byte.toNat
  if n < 225 then some ⟨n % 9, n / 9 % 5, n / 45⟩ else none

end Settings

/-- Data that are being unpacked. -/
structure Decoder where
  data : ByteArray
  /-- The index of the next byte. -/
  position : Nat
  /-- The size of the interval. -/
  width : UInt32 := 0
  /-- Where the packed number is in the interval. -/
  code : UInt32 := 0
  /-- The chances of zero in a context, out of 2048, if they are not even. -/
  chances : Std.HashMap Context UInt32 := {}
  settings : Settings := ⟨0, 0, 0⟩
  /-- What came last: below seven it was a byte. -/
  state : Nat := 0
  /-- The last four distances, the last one first. -/
  recent : List Nat := [0, 0, 0, 0]
  /-- What was unpacked so far. -/
  output : ByteArray
  /-- Where that begins which can be copied from. -/
  start : Nat

namespace Decoder

/-- Nothing was learned yet. -/
def fresh (decoder : Decoder) : Decoder :=
  { decoder with chances := {}, state := 0, recent := [0, 0, 0, 0] }

/-- Nothing that was unpacked before can be copied from. -/
def forget (decoder : Decoder) : Decoder :=
  { decoder with start := decoder.output.size }

/-- Takes a byte into the packed number. -/
def shift (decoder : Decoder) : Option Decoder := do
  let byte ← decoder.data[decoder.position]?
  return { decoder with
    position := decoder.position + 1
    width := decoder.width <<< 8
    code := (decoder.code <<< 8) ||| byte.toUInt32 }

/-- Starts to read a number at an offset: five bytes, of which the first one does not count. -/
def startAt (decoder : Decoder) (offset : Nat) : Option Decoder := do
  let begun ← ({ decoder with position := offset + 1, width := 0, code := 0 } : Decoder).shift
  let begun ← (← (← begun.shift).shift).shift
  return { begun with width := 0xffffffff }

/-- Widens an interval that has become small. -/
def widen (decoder : Decoder) : Option Decoder :=
  if decoder.width < 0x1000000 then decoder.shift else some decoder

/-- A bit in a context. -/
def bit (context : Context) (decoder : Decoder) : Option (Nat × Decoder) := do
  let decoder ← decoder.widen
  let chance := decoder.chances.getD context 1024
  let bound := (decoder.width >>> 11) * chance
  if decoder.code < bound then
    return (0, { decoder with
      width := bound
      chances := decoder.chances.insert context (chance + ((2048 - chance) >>> 5)) })
  else
    return (1, { decoder with
      width := decoder.width - bound
      code := decoder.code - bound
      chances := decoder.chances.insert context (chance - (chance >>> 5)) })

/-- A bit with even chances. -/
def evenBit (decoder : Decoder) : Option (Nat × Decoder) := do
  let decoder ← decoder.widen
  let half := decoder.width >>> 1
  if decoder.code < half then return (0, { decoder with width := half })
  else return (1, { decoder with width := half, code := decoder.code - half })

end Decoder

/-- Something that is read from packed data. -/
abbrev Decoding := StateT Decoder Option

/-- What is to be known of the data. -/
def view {α : Type} (f : Decoder → α) : Decoding α :=
  fun decoder => some (f decoder, decoder)

/-- A bit in a context. -/
def bit (context : Context) : Decoding Nat :=
  Decoder.bit context

/-- Goes down a tree by a number of bits. -/
def descend (context : Nat → Context) : Nat → Nat → Decoding Nat
  | 0, node => return node
  | count + 1, node => do
      let down ← bit (context node)
      descend context count (2 * node + down)

/-- A number of so many bits, the most significant one first. -/
def number (context : Nat → Context) (width : Nat) : Decoding Nat := do
  let node ← descend context width 1
  return node - twoTo width

/-- A number of so many bits, the least significant one first. -/
def reversed (context : Nat → Context) : Nat → Nat → Decoding Nat
  | 0, _ => return 0
  | count + 1, node => do
      let low ← bit (context node)
      let high ← reversed context count (2 * node + low)
      return low + 2 * high

/-- A number of so many bits with even chances behind the bits of `front`. -/
def evenBits : Nat → Nat → Decoding Nat
  | 0, front => return front
  | count + 1, front => do
      let low ← Decoder.evenBit
      evenBits count (2 * front + low)

/-! ## Bytes -/

/-- A byte, as long as it agrees with the bits of another one that was expected. -/
def expectedFrom (group expected : Nat) : Nat → Nat → Decoding Nat
  | 0, node => return node
  | count + 1, node => do
      let likely := expected / twoTo count % 2
      let found ← bit (.literal group (256 * (1 + likely) + node))
      if found = likely then expectedFrom group expected count (2 * node + found)
      else descend (.literal group) count (2 * node + found)

/-- The group of contexts for the next byte. -/
def Decoder.literalGroup (decoder : Decoder) : Nat :=
  let settings := decoder.settings
  let before := (byteBack 1 decoder.output).toNat
  (decoder.output.size - decoder.start) % twoTo settings.literal * twoTo settings.before +
    before / twoTo (8 - settings.before)

/-- The byte that would go on with the last part. -/
def Decoder.expected (decoder : Decoder) : Nat :=
  (byteBack (decoder.recent.headD 0 + 1) decoder.output).toNat

/-- The state behind a byte. -/
def stateAfterByte (state : Nat) : Nat :=
  if state < 4 then 0 else if state < 10 then state - 3 else state - 6

/-- Unpacks a byte. -/
def byteStep (state : Nat) : Decoding Unit := do
  let group ← view Decoder.literalGroup
  let node ←
    if state < 7 then descend (.literal group) 8 1
    else expectedFrom group (← view Decoder.expected) 8 1
  modify fun decoder => { decoder with
    state := stateAfterByte state
    output := decoder.output.push node.toUInt8 }

/-! ## Parts -/

/-- The length of a part, less two: a small one, a middle one or a large one. -/
def lengthAt (recent : Bool) (place : Nat) : Decoding Nat := do
  if (← bit (.isBeyond recent 0)) = 0 then number (.length recent 0 place) 3
  else if (← bit (.isBeyond recent 1)) = 0 then return 8 + (← number (.length recent 1 place) 3)
  else return 16 + (← number (.length recent 2 0) 8)

/-- The distance of a part of a length, less one.  Its magnitude tells the two highest bits and how
many bits follow. -/
def distanceFor (length : Nat) : Decoding Nat := do
  let slot ← number (.slot (min length 3)) 6
  if slot < 4 then return slot
  else
    let count := slot / 2 - 1
    let front := 2 + slot % 2
    if slot < 14 then return front * twoTo count + (← reversed (.distance slot) count 1)
    else
      let high ← evenBits (count - 4) front
      return high * 16 + (← reversed .align 4 1)

/-- The distance in the place of which the end of the data is told. -/
def noDistance : Nat := 0xffffffff

/-- Copies a part whose distance is the first of the recent ones. -/
def copyStep (length state : Nat) : Decoding Unit := fun decoder =>
  let distance := decoder.recent.headD 0
  if distance < decoder.output.size - decoder.start then
    some ((), { decoder with
      state := state
      output := copyBack (distance + 1) length decoder.output })
  else none

/-- Which of the last distances a part has, from a rank on; there are four. -/
def rankFrom (state : Nat) : Nat → Nat → Decoding Nat
  | 0, rank => return rank
  | count + 1, rank => do
      if (← bit (.isOlder state rank)) = 0 then return rank
      else rankFrom state count (rank + 1)

/-- Unpacks a part with a new distance, and tells whether there was one. -/
def newStep (state place : Nat) : Decoding Bool := do
  let length ← lengthAt false place
  let distance ← distanceFor length
  if distance = noDistance then return false
  else
    modify fun decoder => { decoder with recent := distance :: decoder.recent.take 3 }
    copyStep (length + 2) (if state < 7 then 7 else 10)
    return true

/-- Unpacks a part with one of the last distances. -/
def recentStep (state place : Nat) : Decoding Unit := do
  let rank ← rankFrom state 3 0
  let isLong ← if rank = 0 then bit (.isLong state place) else pure 1
  if isLong = 0 then copyStep 1 (if state < 7 then 9 else 11)
  else
    modify fun decoder => { decoder with
      recent := decoder.recent.getD rank 0 :: decoder.recent.eraseIdx rank }
    let length ← lengthAt true place
    copyStep (length + 2) (if state < 7 then 8 else 11)

/-- Unpacks a byte or a part, and tells whether there was one. -/
def step : Decoding Bool := do
  let state ← view Decoder.state
  let place ← view fun decoder =>
    (decoder.output.size - decoder.start) % twoTo decoder.settings.place
  if (← bit (.isCopy state place)) = 0 then
    byteStep state
    return true
  else if (← bit (.isRecent state)) = 0 then newStep state place
  else
    recentStep state place
    return true

/-- Unpacks until there are `limit` bytes.  Each step gives one at least. -/
def runUntil (limit : Nat) : Nat → Decoding Unit
  | 0 => return ()
  | steps + 1 => do
      if (← view fun decoder => decoder.output.size) < limit then
        if ← step then runUntil limit steps else return ()
      else return ()

end Lzma

end Packed

end Downlevel
