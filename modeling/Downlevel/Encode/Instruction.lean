import Downlevel.Code.Layout
import Downlevel.Encode.Attribute

/-!
# Writing instructions

Everything an instruction refers to is put into the pool, and the shortest form is chosen for its
operands.  Only the distances of jumps are left open.
-/

namespace Downlevel

namespace Encode

/-- An instruction on a local variable: with its slot in the opcode, in one byte, or in two. -/
def onSlot (opcode shortOpcode : UInt8) (kind : ValueKind) (slot : UInt16) : Bytes :=
  if slot < 4 then [shortOpcode + kind.number * 4 + slot.toUInt8]
  else if slot < 256 then [opcode + kind.number, slot.toUInt8]
  else 0xc4 :: (opcode + kind.number) :: Bytes.ofU16 slot

/-- The opcode of an access to a field. -/
def fieldOpcode : FieldUse → UInt8
  | .getStatic => 0xb2
  | .putStatic => 0xb3
  | .getField => 0xb4
  | .putField => 0xb5

/-- An opcode with an index of the pool. -/
def withIndex (opcode : UInt8) (work : PoolM UInt16) : PoolM CodeItem := do
  return .plain (opcode :: Bytes.ofU16 (← work))

/-- Whether keys grow from case to case. -/
def isSorted : List (Int32 × Label) → Bool
  | a :: b :: rest => a.1 < b.1 && isSorted (b :: rest)
  | _ => true

/-- Writes an instruction, but for the distances of jumps. -/
def item : Instruction → PoolM CodeItem
  | .op op => return .plain [op.opcode]
  | .bipush value => return .plain (0x10 :: Bytes.ofI8 value)
  | .sipush value => return .plain (0x11 :: Bytes.ofI16 value)
  | .ldc value => do
      let index ← PoolM.loadable value
      if value.isWide then return .plain (0x14 :: Bytes.ofU16 index)
      else if index < 256 then return .plain [0x12, index.toUInt8]
      else return .plain (0x13 :: Bytes.ofU16 index)
  | .load kind slot => return .plain (onSlot 0x15 0x1a kind slot)
  | .store kind slot => return .plain (onSlot 0x36 0x3b kind slot)
  | .iinc slot delta =>
      if slot < 256 && -128 ≤ delta && delta ≤ 127 then
        return .plain (0x84 :: slot.toUInt8 :: Bytes.ofI8 delta.toInt8)
      else return .plain (0xc4 :: 0x84 :: Bytes.ofU16 slot ++ Bytes.ofI16 delta)
  | .branch condition target => return .branch condition target
  | .goto target => return .jump 0xa7 0xc8 target
  | .jsr target => return .jump 0xa8 0xc9 target
  | .ret slot =>
      if slot < 256 then return .plain [0xa9, slot.toUInt8]
      else return .plain (0xc4 :: 0xa9 :: Bytes.ofU16 slot)
  | .tableswitch fallback low high targets =>
      if high < low then PoolM.refuse .tableBounds
      else
        let wanted := (high.toInt - low.toInt + 1).toNat
        if targets.length = wanted then return .table fallback low high targets
        else PoolM.refuse (.tableSize targets.length wanted)
  | .lookupswitch fallback cases =>
      if isSorted cases then return .lookup fallback cases else PoolM.refuse .unsortedCases
  | .field use target => withIndex (fieldOpcode use) (PoolM.fieldRef target)
  | .invokevirtual target => withIndex 0xb6 (PoolM.methodRef target false)
  | .invokespecial target onInterface => withIndex 0xb7 (PoolM.methodRef target onInterface)
  | .invokestatic target onInterface => withIndex 0xb8 (PoolM.methodRef target onInterface)
  | .invokeinterface target => do
      let index ← PoolM.methodRef target true
      let type ← MethodType.parse target.descriptor
      let count := type.argumentsSize false
      if count < 256 then return .plain (0xb9 :: Bytes.ofU16 index ++ [count.toUInt8, 0])
      else PoolM.refuse (.tooManyArguments count)
  | .invokedynamic site => do
      let index ← PoolM.callSite site
      return .plain (0xba :: Bytes.ofU16 index ++ [0, 0])
  | .new name => withIndex 0xbb (PoolM.cls name)
  | .newarray element => return .plain [0xbc, element.code]
  | .anewarray name => withIndex 0xbd (PoolM.cls name)
  | .checkcast name => withIndex 0xc0 (PoolM.cls name)
  | .instanceof name => withIndex 0xc1 (PoolM.cls name)
  | .multianewarray name dimensions => do
      let index ← PoolM.cls name
      return .plain (0xc5 :: Bytes.ofU16 index ++ [dimensions])

/-- Writes instructions behind those in `done` (last one first), which are placed as `placement`
says.  An instruction is only looked at if it can still start within the code. -/
def itemsFrom (placement : Layout.Placement) (done : List (Option Label × CodeItem)) :
    List Labelled → PoolM (List (Option Label × CodeItem))
  | [] => pure done.reverse
  | entry :: rest => do
      placement.check
      let next ← (item entry.instruction).within .atInstruction
      itemsFrom (placement.add false entry.label next) ((entry.label, next) :: done) rest

/-- Writes instructions, but for the distances of jumps. -/
def items (instructions : List Labelled) : PoolM (List (Option Label × CodeItem)) :=
  itemsFrom {} [] instructions

end Encode

end Downlevel
