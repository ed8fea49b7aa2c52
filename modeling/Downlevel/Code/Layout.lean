import Std.Data.HashSet
import Downlevel.Code.Basic
import Downlevel.Error

/-!
# Placing instructions

Most jumps hold their distance in two bytes, which does not reach everywhere in long code.  A longer
form must then be used: for plain jumps there is one with four bytes, and a conditional jump becomes
one on the inverse condition over a plain jump of four bytes.  Longer forms move what follows, so
other distances may no longer fit.

Placement is tried with the short forms first.  A jump back to an instruction that is placed already
is settled at once; other jumps keep room for their distance until everything is placed.  If a
distance does not fit the room kept for it, the instruction is marked as wide and everything is
placed again.
-/

namespace Downlevel

/-- An instruction with everything settled but the distances of its jumps. -/
inductive CodeItem where
  | plain (bytes : Bytes)
  | branch (condition : Condition) (target : Label)
  /-- A plain jump, with its opcodes for two and four bytes. -/
  | jump (opcode wideOpcode : UInt8) (target : Label)
  | table (fallback : Label) (low high : Int32) (targets : List Label)
  | lookup (fallback : Label) (cases : List (Int32 × Label))

/-- A part of a placed instruction: bytes, or room for the distance from `origin` to a label. -/
inductive Chunk where
  | done (bytes : Bytes)
  | narrow (origin : Nat) (target : Label)
  | wide (origin : Nat) (target : Label)

namespace Chunk

/-- How many bytes a part takes. -/
def size : Chunk → Nat
  | done bytes => bytes.length
  | narrow _ _ => 2
  | wide _ _ => 4

end Chunk

namespace Layout

/-- The distance between two places in the code. -/
def distance (origin target : Nat) : Int :=
  (target : Int) - (origin : Int)

/-- Whether a distance fits into two bytes. -/
def isShort (distance : Int) : Bool :=
  -32768 ≤ distance && distance ≤ 32767

/-- A distance in two bytes. -/
def short (distance : Int) : Bytes :=
  Bytes.ofI16 (Int16.ofInt distance)

/-- A distance in four bytes. -/
def long (distance : Int) : Bytes :=
  Bytes.ofI32 (Int32.ofInt distance)

/-- The bytes between the opcode at a position and the next multiple of four. -/
def padding (position : Nat) : Bytes :=
  List.replicate ((4 - (position + 1) % 4) % 4) 0

variable (known : Std.HashMap Label Nat) (position : Nat)

/-- The distance to a label in four bytes, or room for it. -/
def longTarget (target : Label) : Chunk :=
  match known[target]? with
  | some place => .done (long (distance position place))
  | none => .wide position target

/-- The parts of an instruction at a position, where the places of some labels are known. -/
def partsOf (isWide : Bool) : CodeItem → List Chunk
  | .plain bytes => [.done bytes]
  | .branch condition target =>
      if isWide then
        [.done (condition.inverse.opcode :: short 8 ++ [0xc8]), .wide (position + 3) target]
      else
        match known[target]? with
        | some place =>
            if isShort (distance position place) then
              [.done (condition.opcode :: short (distance position place))]
            else [.done [condition.opcode], .narrow position target]
        | none => [.done [condition.opcode], .narrow position target]
  | .jump opcode wideOpcode target =>
      match known[target]? with
      | some place =>
          if isShort (distance position place) && !isWide then
            [.done (opcode :: short (distance position place))]
          else [.done (wideOpcode :: long (distance position place))]
      | none =>
          if isWide then [.done [wideOpcode], .wide position target]
          else [.done [opcode], .narrow position target]
  | .table fallback low high targets =>
      .done (0xaa :: padding position) :: longTarget known position fallback ::
        .done (Bytes.ofI32 low ++ Bytes.ofI32 high) :: targets.map (longTarget known position)
  | .lookup fallback cases =>
      .done (0xab :: padding position) :: longTarget known position fallback ::
        .done (Bytes.ofU32 cases.length.toUInt32) ::
        cases.flatMap fun c => [.done (Bytes.ofI32 c.1), longTarget known position c.2]

/-- Instructions that are placed, up to some point. -/
structure Placement where
  /-- The parts of each instruction, the last one first. -/
  placed : List (List Chunk) := []
  /-- Where each instruction starts. -/
  offsets : Array Nat := #[]
  /-- Where each label is. -/
  labels : Std.HashMap Label Nat := ∅
  /-- How many bytes are taken. -/
  size : Nat := 0

namespace Placement

/-- Places one more instruction. -/
def add (placement : Placement) (isWide : Bool) (label : Option Label) (item : CodeItem) :
    Placement :=
  let labels :=
    match label with
    | some label => placement.labels.insert label placement.size
    | none => placement.labels
  let parts := partsOf labels placement.size isWide item
  { placed := parts :: placement.placed
    offsets := placement.offsets.push placement.size
    labels := labels
    size := parts.foldl (fun total part => total + part.size) placement.size }

/-- Refuses a placement that takes too many bytes for another instruction to start behind it. -/
def check (placement : Placement) : Except Error Unit :=
  if placement.size < 65536 then .ok () else fail (.write (.codeTooLong placement.size))

/-- Places instructions behind others.  `wide` marks those that take their longer form. -/
def addAll (wide : Std.HashSet Nat) :
    List (Option Label × CodeItem) → Placement → Except Error Placement
  | [], placement => .ok placement
  | (label, item) :: rest, placement => do
      placement.check
      addAll wide rest (placement.add (wide.contains placement.offsets.size) label item)

end Placement

/-- All instructions with a label behind the last one. -/
def place (wide : Std.HashSet Nat) (items : List (Option Label × CodeItem))
    (lastLabel : Option Label) : Except Error Placement := do
  let placement ← Placement.addAll wide items {}
  placement.check
  match lastLabel with
  | some label => return { placement with labels := placement.labels.insert label placement.size }
  | none => return placement

/-- What comes of filling in distances: the bytes, or that a distance did not fit. -/
inductive Filled (α : Type) where
  | fits (value : α)
  | tooFar

/-- Where a label is. -/
def placeOf (labels : Std.HashMap Label Nat) (label : Label) : Except Error Nat :=
  orFail (.write (.noOffset label.id)) labels[label]?

/-- Fills in the distances in the parts of an instruction, behind the bytes in `done` (the last part
first). -/
def fillFrom (labels : Std.HashMap Label Nat) (done : List Bytes) :
    List Chunk → Except Error (Filled Bytes)
  | [] => .ok (.fits done.reverse.flatten)
  | .done bytes :: rest => fillFrom labels (bytes :: done) rest
  | .narrow origin target :: rest => do
      let place ← within (.write .unplacedTarget) (placeOf labels target)
      if isShort (distance origin place) then
        fillFrom labels (short (distance origin place) :: done) rest
      else return .tooFar
  | .wide origin target :: rest => do
      let place ← within (.write .unplacedTarget) (placeOf labels target)
      fillFrom labels (long (distance origin place) :: done) rest

/-- Fills in the distances of instructions from the one at `index` on, behind the bytes in `done`
(the last instruction first).  Gives the index of the first that did not fit. -/
def fillAll (labels : Std.HashMap Label Nat) (index : Nat) (done : List Bytes) :
    List (List Chunk) → Except Error (List Bytes ⊕ Nat)
  | [] => .ok (.inl done.reverse)
  | parts :: rest => do
      match ← fillFrom labels [] parts with
      | .fits bytes => fillAll labels (index + 1) (bytes :: done) rest
      | .tooFar => return .inr index

end Layout

/-- Instructions with their places settled. -/
structure Layout where
  /-- The bytes of each instruction. -/
  chunks : List Bytes
  /-- Where each instruction starts. -/
  offsets : Array Nat
  /-- Where each label is. -/
  labels : Std.HashMap Label Nat
  /-- How many bytes all instructions take. -/
  size : Nat
  /-- The instructions in their longer form. -/
  wide : Std.HashSet Nat

namespace Layout

/-- Where the instruction at an index starts; behind the last one, where the code ends. -/
def offsetOf (layout : Layout) (index : Nat) : Nat :=
  layout.offsets[index]?.getD layout.size

/-- Where a label is. -/
def offsetOfLabel (layout : Layout) (label : Label) : Except Error UInt16 := do
  return (← placeOf layout.labels label).toUInt16

/-- Places instructions until all distances fit, at most as often as given. -/
def settle (items : List (Option Label × CodeItem)) (lastLabel : Option Label) :
    Nat → Std.HashSet Nat → Except Error Layout
  | 0, _ => fail (.outOfRange items.length items.length)
  | attempts + 1, wide => do
      let placement ← place wide items lastLabel
      match ← fillAll placement.labels 0 [] placement.placed.reverse with
      | .inl chunks =>
          return ⟨chunks, placement.offsets, placement.labels, placement.size, wide⟩
      | .inr index => settle items lastLabel attempts (wide.insert index)

/-- Settles the places of instructions.  Each attempt that does not fit marks one more instruction
as wide, so their number bounds the attempts. -/
def ofItems (items : List (Option Label × CodeItem)) (lastLabel : Option Label) :
    Except Error Layout :=
  settle items lastLabel (items.length + 1) ∅

end Layout

end Downlevel
