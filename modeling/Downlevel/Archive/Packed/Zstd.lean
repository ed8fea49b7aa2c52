import Downlevel.Archive.Packed.Bits

/-!
# Files in frames

A packed file of this kind is a sequence of frames.  A frame has a header, blocks, and maybe a
checksum.  A block holds bytes as they are, one byte that is repeated, or packed ones.  Some frames
are only passed by.
-/

namespace Downlevel

namespace Packed

namespace Zstd

/-!
## Symbols by states

A table has a cell for each state.  The cell tells the symbol that the state stands for, and which
bits to read for the next state.  A symbol has a share of the cells: the more frequent it is, the
more of them stand for it, and the fewer bits it takes.
-/

/-- The share of the cells that a symbol has. -/
inductive Share where
  | cells (count : Nat)
  /-- A single cell at the end, for a symbol that is rarer than that. -/
  | rare

namespace Share

/-- The number of cells. -/
def count : Share → Nat
  | cells count => count
  | rare => 1

/-- The number of cells that are not at the end. -/
def spreadCount : Share → Nat
  | cells count => count
  | rare => 0

end Share

/-- What a state stands for.  The next state is the base and the number in the next bits. -/
structure Cell where
  symbol : Nat
  width : Nat
  base : Nat

/-- A cell for each state. -/
structure StateTable where
  /-- The number of bits of the first state. -/
  width : Nat
  cells : Array Cell

namespace StateTable

/-- The table in which everything stands for one symbol. -/
def single (symbol : Nat) : StateTable :=
  ⟨0, #[⟨symbol, 0, 0⟩]⟩

/-- The states in the order in which they are given to symbols. -/
def spreadOrder (size free : Nat) : List Nat :=
  let step := size / 2 + size / 8 + 3
  ((List.range size).map fun turn => turn * step % size).filter (· < free)

/-- The symbols of the states.  Rare symbols have the last ones. -/
def symbolsOf (size : Nat) (shares : List Share) : Array Nat :=
  let indexed := shares.zipIdx
  let rare := indexed.filterMap fun (share, symbol) =>
    match share with
    | .rare => some symbol
    | .cells _ => none
  let spread := indexed.flatMap fun (share, symbol) => List.replicate share.spreadCount symbol
  let placed := (spreadOrder size (size - rare.length)).zip spread ++
    rare.zipIdx.map fun (symbol, index) => (size - 1 - index, symbol)
  placed.foldl (fun symbols (state, symbol) => symbols.setIfInBounds state symbol)
    (Array.replicate size 0)

/-- The cells of states with the given symbols, in turn.  `next` has for each symbol a number that
begins with the count of its states and grows with each of them; it tells the bits that follow. -/
def cellsFrom (width : Nat) : List Nat → Array Nat → Array Cell → Array Cell
  | [], _, done => done
  | symbol :: rest, next, done =>
      let n := next[symbol]?.getD 1
      let bits := width - n.log2
      cellsFrom width rest (next.setIfInBounds symbol (n + 1))
        (done.push ⟨symbol, bits, n * twoTo bits - twoTo width⟩)

/-- The table in which the symbols have the given shares. -/
def ofShares (width : Nat) (shares : List Share) : StateTable :=
  ⟨width, cellsFrom width (symbolsOf (twoTo width) shares).toList
    (shares.map Share.count).toArray #[]⟩

/-! ### Shares in packed data -/

/-- A number that is at most `limit`.  The smallest numbers take a bit less than the others. -/
def boundedNumber (limit : Nat) (source : BitSource) : Option (Nat × BitSource) := do
  let width := limit.log2
  let spare := twoTo (width + 1) - 1 - limit
  let (low, source) ← source.bits width
  if low < spare then return (low, source)
  else
    let (high, source) ← source.bit
    if high = 1 then return (low + twoTo width - spare, source) else return (low, source)

/-- The number of further symbols without a share: in steps of three, as long as they are full. -/
def missingFrom : Nat → BitSource → Option (Nat × BitSource)
  | 0, _ => none
  | steps + 1, source => do
      let (count, source) ← source.bits 2
      if count = 3 then
        let (more, source) ← missingFrom steps source
        return (count + more, source)
      else return (count, source)

/-- The shares of symbols, until `left` cells are given away.  Those before are in reverse in
`done`.  Each takes a bit at least. -/
def sharesFrom : Nat → Nat → List Share → BitSource → Option (List Share × BitSource)
  | 0, _, _, _ => none
  | steps + 1, left, done, source =>
      if left = 0 then some (done.reverse, source)
      else do
        let (value, source) ← boundedNumber (left + 1) source
        match value with
        | 0 => sharesFrom steps (left - 1) (.rare :: done) source
        | 1 =>
            let (missing, source) ← missingFrom (8 * source.data.size) source
            sharesFrom steps left (List.replicate (missing + 1) (.cells 0) ++ done) source
        | count + 1 => sharesFrom steps (left - count) (.cells count :: done) source

/-- The table in front of bytes, and how many bytes it takes. -/
def read? (bytes : ByteArray) : Option (StateTable × Nat) := do
  let (least, source) ← (⟨bytes, .leastFirst, 0⟩ : BitSource).bits 4
  let width := least + 5
  let (shares, source) ← sharesFrom (8 * bytes.size) (twoTo width) [] source
  return (ofShares width shares, source.align.position / 8)

end StateTable

/-!
## The bytes of a block that are not copied

A block begins with those of its bytes that are not copied from somewhere else.  They are there as
they are, or as one byte that is repeated, or in a prefix code.  The code is given by the weights of
the bytes: those with a larger weight have shorter words.  It may be the one of the block before.
-/

/-- A prefix code for bytes, as a cell for each beginning of words. -/
structure ByteCode where
  /-- The length of the longest words. -/
  width : Nat
  /-- For each word of that length, the byte that a front of it stands for, and how long that is. -/
  cells : Array (UInt8 × Nat)

namespace ByteCode

/-- How many words of the longest length begin with a word of a weight. -/
def room (weight : Nat) : Nat :=
  if weight = 0 then 0 else twoTo (weight - 1)

/-- The weights with that of the last byte, which fills up the room. -/
def complete (weights : List Nat) : List Nat :=
  let taken := weights.foldl (fun total weight => total + room weight) 0
  weights ++ [(twoTo (taken.log2 + 1) - taken).log2 + 1]

/-- The code in which the bytes have the given weights. -/
def ofWeights (weights : List Nat) : ByteCode :=
  let weights := complete weights
  let width := (weights.foldl (fun total weight => total + room weight) 0).log2
  let indexed := weights.zipIdx
  let cells := (List.range width).flatMap fun less =>
    indexed.flatMap fun (weight, byte) =>
      if weight = less + 1 then List.replicate (twoTo less) (byte.toUInt8, width - less) else []
  ⟨width, cells.toArray⟩

/-- Reads weights by two states that take turns, until the bits are used up.  Those before are in
reverse in `done`. -/
def weightsFrom (table : StateTable) :
    Nat → Nat → Nat → List Nat → BitSource → Option (List Nat)
  | 0, _, _, _, _ => none
  | steps + 1, first, second, done, source => do
      let cell ← table.cells[first]?
      let done := cell.symbol :: done
      match source.bits cell.width with
      | some (more, source) => weightsFrom table steps second (cell.base + more) done source
      | none => return ((← table.cells[second]?).symbol :: done).reverse

/-- Weights that are packed by states. -/
def packedWeights (bytes : ByteArray) : Option (List Nat) := do
  let (table, start) ← StateTable.read? bytes
  let source ← BitSource.backward? (bytes.extract start bytes.size)
  let (first, source) ← source.bits table.width
  let (second, source) ← source.bits table.width
  weightsFrom table 256 first second [] source

/-- Weights of four bits each. -/
def plainWeights (count : Nat) (bytes : ByteArray) : Option (List Nat) := do
  let (weights, _) ← BitSource.numbers 4 count ⟨bytes, .mostFirst, 0⟩
  return weights

/-- The code in front of bytes, and how many bytes it takes. -/
def read? (bytes : ByteArray) : Option (ByteCode × Nat) := do
  let head := (← bytes[0]?).toNat
  if head < 128 then
    return (ofWeights (← packedWeights (bytes.extract 1 (1 + head))), 1 + head)
  else
    let count := head - 127
    return (ofWeights (← plainWeights count (bytes.extract 1 bytes.size)), 1 + (count + 1) / 2)

/-- Reads a number of bytes in the code behind `output`. -/
def bytesFrom (code : ByteCode) : Nat → ByteArray → BitSource → Option ByteArray
  | 0, output, _ => some output
  | count + 1, output, source => do
      let (byte, length) ← code.cells[source.peek code.width]?
      bytesFrom code count (output.push byte) (← source.skip? length)

/-- Reads bytes in the code, from the last bit on. -/
def stream (code : ByteCode) (count : Nat) (output bytes : ByteArray) : Option ByteArray := do
  code.bytesFrom count output (← BitSource.backward? bytes)

/-- The number that two bytes at an offset stand for, the least significant first. -/
def pairAt? (bytes : ByteArray) (offset : Nat) : Option Nat := do
  return (← bytes[offset]?).toNat + 256 * (← bytes[offset + 1]?).toNat

/-- Reads bytes in the code in four parts, with the sizes of the first three in front of them. -/
def fourStreams (code : ByteCode) (count : Nat) (bytes : ByteArray) : Option ByteArray := do
  let part := (count + 3) / 4
  let second := 6 + (← pairAt? bytes 0)
  let third := second + (← pairAt? bytes 2)
  let fourth := third + (← pairAt? bytes 4)
  let output ← code.stream part ByteArray.empty (bytes.extract 6 second)
  let output ← code.stream part output (bytes.extract second third)
  let output ← code.stream part output (bytes.extract third fourth)
  code.stream (count - 3 * part) output (bytes.extract fourth bytes.size)

end ByteCode

/-- The bytes of a block that are not copied. -/
structure Literals where
  bytes : ByteArray
  /-- The code for the next block. -/
  code : Option ByteCode
  /-- How many bytes of the block they take. -/
  size : Nat

namespace Literals

/-- The number that bytes stand for, the least significant first. -/
def littleNumber (bytes : ByteArray) : Nat :=
  bytes.toList.foldr (fun byte high => byte.toNat + 256 * high) 0

/-- Reads bytes that are there as they are, or one byte that is repeated. -/
def readPlain (isRepeated : Bool) (form : Nat) (block : ByteArray) (code : Option ByteCode) :
    Option Literals := do
  let head := if form % 2 = 0 then 1 else if form = 1 then 2 else 3
  let count := littleNumber (block.extract 0 head) / (if head = 1 then 8 else 16)
  if isRepeated then
    return ⟨pushMany (← block[head]?) count ByteArray.empty, code, head + 1⟩
  else return ⟨block.extract head (head + count), code, head + count⟩

/-- Reads bytes in a code.  If it is not in front of them, it is the one of the block before. -/
def readPacked (hasCode : Bool) (form : Nat) (block : ByteArray) (before : Option ByteCode) :
    Option Literals := do
  let head := if form < 2 then 3 else form + 2
  let width := if form < 2 then 10 else 4 * form + 6
  let numbers := littleNumber (block.extract 0 head) / 16
  let count := numbers % twoTo width
  let size := head + numbers / twoTo width % twoTo width
  let packed := block.extract head size
  let (code, start) ← if hasCode then ByteCode.read? packed else before.map fun code => (code, 0)
  let streams := packed.extract start packed.size
  let bytes ←
    if form = 0 then code.stream count ByteArray.empty streams else code.fourStreams count streams
  return ⟨bytes, some code, size⟩

/-- Reads the bytes at the start of a block. -/
def read? (block : ByteArray) (code : Option ByteCode) : Option Literals := do
  let head := (← block[0]?).toNat
  let form := head / 4 % 4
  match head % 4 with
  | 0 => readPlain false form block code
  | 1 => readPlain true form block code
  | 2 => readPacked true form block code
  | _ => readPacked false form block code

end Literals

/-!
## The parts of a block that are copied

Behind the bytes that are not copied, a block tells in a sequence of steps where they go: so many of
them, and then a part of what was unpacked before, with its length and its distance.  These three
numbers are symbols with further bits, each kind of symbol in a table of its own.  The distances of
the last three parts have symbols of their own.
-/

/-- A number that is a base and further bits. -/
structure Range where
  base : Nat
  extra : Nat

/-- The numbers of bytes that symbols stand for. -/
def literalRanges : Array Range :=
  (Array.range 16).map (⟨·, 0⟩) ++
    #[⟨16, 1⟩, ⟨18, 1⟩, ⟨20, 1⟩, ⟨22, 1⟩, ⟨24, 2⟩, ⟨28, 2⟩, ⟨32, 3⟩, ⟨40, 3⟩, ⟨48, 4⟩, ⟨64, 6⟩,
      ⟨128, 7⟩, ⟨256, 8⟩, ⟨512, 9⟩, ⟨1024, 10⟩, ⟨2048, 11⟩, ⟨4096, 12⟩, ⟨8192, 13⟩, ⟨16384, 14⟩,
      ⟨32768, 15⟩, ⟨65536, 16⟩]

/-- The lengths of parts that symbols stand for. -/
def lengthRanges : Array Range :=
  (Array.range 32).map (fun symbol => ⟨symbol + 3, 0⟩) ++
    #[⟨35, 1⟩, ⟨37, 1⟩, ⟨39, 1⟩, ⟨41, 1⟩, ⟨43, 2⟩, ⟨47, 2⟩, ⟨51, 3⟩, ⟨59, 3⟩, ⟨67, 4⟩, ⟨83, 4⟩,
      ⟨99, 5⟩, ⟨131, 7⟩, ⟨259, 8⟩, ⟨515, 9⟩, ⟨1027, 10⟩, ⟨2051, 11⟩, ⟨4099, 12⟩, ⟨8195, 13⟩,
      ⟨16387, 14⟩, ⟨32771, 15⟩, ⟨65539, 16⟩]

/-- Shares of which the last symbols are rare. -/
def sharesOf (counts : List Nat) (rare : Nat) : List Share :=
  counts.map Share.cells ++ List.replicate rare .rare

/-- The three tables of a block. -/
structure Tables where
  literals : StateTable
  distances : StateTable
  lengths : StateTable

namespace Tables

/-- The tables that are fixed. -/
def fixed : Tables where
  literals := StateTable.ofShares 6 (sharesOf
    [4, 3, 2, 2, 2, 2, 2, 2, 2, 2, 2, 2, 2, 1, 1, 1, 2, 2, 2, 2, 2, 2, 2, 2, 2, 3, 2, 1, 1, 1, 1, 1]
    4)
  distances := StateTable.ofShares 5 (sharesOf
    [1, 1, 1, 1, 1, 1, 2, 2, 2, 1, 1, 1, 1, 1, 1, 1, 1, 1, 1, 1, 1, 1, 1, 1] 5)
  lengths := StateTable.ofShares 6 (sharesOf
    [1, 4, 3, 2, 2, 2, 2, 2, 2, 1, 1, 1, 1, 1, 1, 1, 1, 1, 1, 1, 1, 1, 1, 1, 1, 1, 1, 1, 1, 1, 1, 1,
     1, 1, 1, 1, 1, 1, 1, 1, 1, 1, 1, 1, 1, 1] 7)

/-- Reads a table at an offset, and tells what is behind it.  It is the fixed one, one for a single
symbol, one that stands there, or the one of the block before. -/
def readOne (kind : Nat) (fixed before : StateTable) (block : ByteArray) (offset : Nat) :
    Option (StateTable × Nat) :=
  match kind with
  | 0 => some (fixed, offset)
  | 1 => do return (StateTable.single (← block[offset]?).toNat, offset + 1)
  | 2 => do
      let (table, size) ← StateTable.read? (block.extract offset block.size)
      return (table, offset + size)
  | _ => some (before, offset)

/-- Reads the tables of a block at an offset, and tells what is behind them. -/
def read? (before : Tables) (block : ByteArray) (offset : Nat) : Option (Tables × Nat) := do
  let kinds := (← block[offset]?).toNat
  let (literals, offset) ←
    readOne (kinds / 64) fixed.literals before.literals block (offset + 1)
  let (distances, offset) ←
    readOne (kinds / 16 % 4) fixed.distances before.distances block offset
  let (lengths, offset) ← readOne (kinds / 4 % 4) fixed.lengths before.lengths block offset
  return (⟨literals, distances, lengths⟩, offset)

end Tables

/-- The distances of the last three parts, the last one first. -/
structure Recent where
  first : Nat := 1
  second : Nat := 4
  third : Nat := 8

namespace Recent

/-- The distance that a number stands for, behind so many bytes, and the last ones then.  The three
smallest numbers stand for the last distances.  If there are no bytes in front of the part, it
cannot have the last one: then they stand for the other two, and for one byte less than the last. -/
def use (recent : Recent) (value literals : Nat) : Nat × Recent :=
  let ⟨first, second, third⟩ := recent
  if 3 < value then (value - 3, ⟨value - 3, first, second⟩)
  else
    match (if literals = 0 then value + 1 else value) with
    | 2 => (second, ⟨second, first, third⟩)
    | 3 => (third, ⟨third, first, second⟩)
    | 4 => (first - 1, ⟨first - 1, first, second⟩)
    | _ => (first, recent)

end Recent

/-- What is unpacked, with what is left of the bytes that are not copied. -/
structure Progress where
  output : ByteArray
  literals : ByteArray
  /-- How many of the bytes are used up. -/
  used : Nat
  recent : Recent

namespace Progress

/-- Takes so many bytes, and then a part with a length and the number for its distance. -/
def take (progress : Progress) (literals length value : Nat) : Progress :=
  let stop := progress.used + literals
  let (distance, recent) := progress.recent.use value literals
  { progress with
    output := copyBack distance length
      (progress.output ++ progress.literals.extract progress.used stop)
    used := stop
    recent := recent }

/-- What is unpacked when all bytes are taken. -/
def finish (progress : Progress) : ByteArray :=
  progress.output ++ progress.literals.extract progress.used progress.literals.size

end Progress

/-- The states of the three tables. -/
structure States where
  literals : Nat
  distances : Nat
  lengths : Nat

/-- The number that a symbol and the bits behind it stand for. -/
def rangeValue (ranges : Array Range) (symbol : Nat) (source : BitSource) :
    Option (Nat × BitSource) := do
  let range ← ranges[symbol]?
  let (more, source) ← source.bits range.extra
  return (range.base + more, source)

/-- Goes through a number of steps.  Behind each but the last one the next states are told. -/
def stepsFrom (tables : Tables) : Nat → States → Progress → BitSource → Option Progress
  | 0, _, progress, _ => some progress
  | count + 1, states, progress, source => do
      let forLiterals ← tables.literals.cells[states.literals]?
      let forDistance ← tables.distances.cells[states.distances]?
      let forLength ← tables.lengths.cells[states.lengths]?
      let (more, source) ← source.bits forDistance.symbol
      let (length, source) ← rangeValue lengthRanges forLength.symbol source
      let (literals, source) ← rangeValue literalRanges forLiterals.symbol source
      let progress := progress.take literals length (twoTo forDistance.symbol + more)
      if count = 0 then return progress
      else
        let (literals, source) ← source.bits forLiterals.width
        let (lengths, source) ← source.bits forLength.width
        let (distances, source) ← source.bits forDistance.width
        stepsFrom tables count
          ⟨forLiterals.base + literals, forDistance.base + distances, forLength.base + lengths⟩
          progress source

/-- The number of steps, which stands at an offset, and what is behind it. -/
def stepCount? (block : ByteArray) (offset : Nat) : Option (Nat × Nat) := do
  let head := (← block[offset]?).toNat
  if head < 128 then return (head, offset + 1)
  else if head < 255 then
    return ((head - 128) * 256 + (← block[offset + 1]?).toNat, offset + 2)
  else return ((← ByteCode.pairAt? block (offset + 1)) + 0x7f00, offset + 3)

/-! ## Blocks and frames -/

/-- What the blocks of a frame hand on. -/
structure Frame where
  output : ByteArray
  code : Option ByteCode := none
  tables : Tables := Tables.fixed
  recent : Recent := {}

namespace Frame

/-- Unpacks a packed block. -/
def packedBlock (frame : Frame) (block : ByteArray) : Option Frame := do
  let literals ← Literals.read? block frame.code
  let (count, offset) ← stepCount? block literals.size
  if count = 0 then
    return { frame with output := frame.output ++ literals.bytes, code := literals.code }
  else
    let (tables, offset) ← Tables.read? frame.tables block offset
    let source ← BitSource.backward? (block.extract offset block.size)
    let (first, source) ← source.bits tables.literals.width
    let (second, source) ← source.bits tables.distances.width
    let (third, source) ← source.bits tables.lengths.width
    let progress ← stepsFrom tables count ⟨first, second, third⟩
      ⟨frame.output, literals.bytes, 0, frame.recent⟩ source
    return ⟨progress.finish, literals.code, tables, progress.recent⟩

/-- Unpacks the block at an offset, and tells whether it is the last one and what is behind it. -/
def block (data : ByteArray) (frame : Frame) (offset : Nat) : Option (Frame × Bool × Nat) := do
  let start := offset + 3
  if data.size < start then none
  else
    let head := Literals.littleNumber (data.extract offset start)
    let isLast := head % 2 = 1
    let size := head / 8
    match head / 2 % 4 with
    | 0 =>
        let stop := start + size
        return ({ frame with output := frame.output ++ data.extract start stop }, isLast, stop)
    | 1 =>
        let output := pushMany (← data[start]?) size frame.output
        return ({ frame with output := output }, isLast, start + 1)
    | 2 =>
        let stop := start + size
        return (← frame.packedBlock (data.extract start stop), isLast, stop)
    | _ => none

/-- Unpacks blocks from an offset up to the last one, and tells what is behind them. -/
def blocksFrom (data : ByteArray) : Nat → Frame → Nat → Option (Frame × Nat)
  | 0, _, _ => none
  | steps + 1, frame, offset => do
      let (frame, isLast, offset) ← block data frame offset
      if isLast then return (frame, offset) else blocksFrom data steps frame offset

/-- The size of the header of a frame, behind its first byte: it has the size of the window, the
number of a dictionary and the size of what is packed, as far as the first byte says so. -/
def headSize (head : Nat) : Nat :=
  let isWhole := head / 32 % 2 = 1
  let window := if isWhole then 0 else 1
  let dictionary := twoTo (head % 4) / 2
  let content := if head / 64 = 0 then (if isWhole then 1 else 0) else twoTo (head / 64)
  window + dictionary + content

end Frame

/-- The mark in front of a frame. -/
def frameMark : Nat := 0xfd2fb528

/-- The first of sixteen marks in front of frames that are passed by. -/
def skippedMark : Nat := 0x184d2a50

/-- Unpacks frames from an offset up to the end. -/
def framesFrom (data : ByteArray) : Nat → ByteArray → Nat → Option ByteArray
  | 0, _, _ => none
  | steps + 1, output, offset =>
      if data.size ≤ offset then some output
      else
        let mark := Literals.littleNumber (data.extract offset (offset + 4))
        if mark = frameMark then do
          let head := (← data[offset + 4]?).toNat
          let (frame, stop) ← Frame.blocksFrom data data.size { output := output }
            (offset + 5 + Frame.headSize head)
          framesFrom data steps frame.output (stop + (if head / 4 % 2 = 1 then 4 else 0))
        else if mark / 16 = skippedMark / 16 then
          let size := Literals.littleNumber (data.extract (offset + 4) (offset + 8))
          framesFrom data steps output (offset + 8 + size)
        else none

/-- What packed bytes stand for, if they are well formed. -/
def unpack? (data : ByteArray) : Option ByteArray :=
  framesFrom data (data.size + 1) ByteArray.empty 0

end Zstd

end Packed

end Downlevel
