import Downlevel.Decode.Attribute

/-!
# Reading instructions

Instructions are read from the bytes of a method's code.  The labels of what is read here are the
offsets that jumps go to; `Downlevel.Decode.Code` gives them their numbers.
-/

namespace Downlevel

namespace Decode

open Parse

/-- The label of an offset, which must lie inside the code. -/
def labelAt (length offset : UInt16) : Except Error Label :=
  if offset < length then .ok ⟨offset⟩ else fail (.read (.offsetOutOfBounds offset length))

/-- The label of an offset, which may also be the end of the code. -/
def endLabelAt (length offset : UInt16) : Except Error Label :=
  if offset ≤ length then .ok ⟨offset⟩ else fail (.read (.endOutOfBounds offset length))

/-- The labels of the start and the end of a range. -/
def rangeAt (length start size : UInt16) : Except Error (Label × Label) := do
  if start.toNat + size.toNat < 65536 then
    let first ← labelAt length start
    let last ← endLabelAt length (start + size)
    return (first, last)
  else fail (.read (.rangeOverflow start size))

variable (pool : Pool.Table) (bootstraps : Array Pool.Bootstrap) (length : UInt16)

/-- The target of a jump by a 16-bit distance from `position`. -/
def shortTarget (position : Nat) : Parse Label := do
  let distance ← i16
  let target : Int := position + distance.toInt
  if 0 ≤ target && target < 65536 then labelAt length target.toNat.toUInt16
  else refuse (.branchOffset distance.toInt position)

/-- The target of a jump by a 32-bit distance from `position`. -/
def longTarget (position : Nat) : Parse Label := do
  let distance ← i32
  let target : Int := position + distance.toInt
  if 0 ≤ target && target < 4294967296 then
    if target < 65536 then labelAt length target.toNat.toUInt16
    else refuse (.branchTarget target.toNat position)
  else refuse (.branchOffset distance.toInt position)

/-- Passes over the bytes up to a multiple of four. -/
def align : Parse Unit := do
  let position ← offset
  skip ((4 - position % 4) % 4)

/-- Reads the rest of a jump through a table. -/
def tableswitch (position : Nat) : Parse Instruction := do
  align
  let fallback ← longTarget length position
  let low ← i32
  let high ← i32
  if high < low then refuse (.tableBounds low high)
  else
    let count := (high.toInt - low.toInt + 1).toNat
    return .tableswitch fallback low high (← times count (longTarget length position))

/-- Reads the rest of a jump by keys. -/
def lookupswitch (position : Nat) : Parse Instruction := do
  align
  let fallback ← longTarget length position
  let count ← i32
  if count < 0 then refuse (.negativeCases count)
  else
    return .lookupswitch fallback (← times count.toInt.toNat do
      let key ← i32
      return (key, ← longTarget length position))

/-- Reads the rest of an instruction with a wide slot. -/
def wide : Parse Instruction := do
  let opcode ← u8
  if 0x15 ≤ opcode && opcode ≤ 0x19 then
    return .load (ValueKind.ofNumber (opcode - 0x15)) (← u16)
  else if 0x36 ≤ opcode && opcode ≤ 0x3a then
    return .store (ValueKind.ofNumber (opcode - 0x36)) (← u16)
  else if opcode = 0xa9 then return .ret (← u16)
  else if opcode = 0x84 then
    let slot ← u16
    return .iinc slot (← i16)
  else refuse (.unknownWideOpcode opcode)

/-- Reads the rest of an instruction that refers to the pool. -/
def poolInstruction? (opcode : UInt8) : Option (Parse Instruction) :=
  match opcode with
  | 0x12 => some do return .ldc (← pool.loadable bootstraps (← u8).toUInt16)
  | 0x13 => some do return .ldc (← pool.loadable bootstraps (← u16))
  | 0x14 => some do return .ldc (← pool.loadable bootstraps (← u16))
  | 0xb2 => some do return .field .getStatic (← pool.fieldRef (← u16))
  | 0xb3 => some do return .field .putStatic (← pool.fieldRef (← u16))
  | 0xb4 => some do return .field .getField (← pool.fieldRef (← u16))
  | 0xb5 => some do return .field .putField (← pool.fieldRef (← u16))
  | 0xb6 => some do return .invokevirtual (← pool.methodRef (← u16))
  | 0xb7 => some do
      let (target, onInterface) ← pool.anyMethodRef (← u16)
      return .invokespecial target onInterface
  | 0xb8 => some do
      let (target, onInterface) ← pool.anyMethodRef (← u16)
      return .invokestatic target onInterface
  | 0xb9 => some do
      let target ← pool.interfaceMethodRef (← u16)
      let _ ← u8
      let _ ← u8
      return .invokeinterface target
  | 0xba => some do
      let site ← pool.callSite bootstraps (← u16)
      let _ ← u16
      return .invokedynamic site
  | 0xbb => some do return .new (← pool.cls (← u16))
  | 0xbd => some do return .anewarray (← pool.cls (← u16))
  | 0xc0 => some do return .checkcast (← pool.cls (← u16))
  | 0xc1 => some do return .instanceof (← pool.cls (← u16))
  | 0xc5 => some do
      let name ← pool.cls (← u16)
      return .multianewarray name (← u8)
  | _ => none

/-- Reads the rest of the instruction with the given opcode at `position`. -/
def operands (position : Nat) (opcode : UInt8) : Parse Instruction := do
  match Op.ofOpcode? opcode with
  | some op => return .op op
  | none =>
  match Condition.ofOpcode? opcode with
  | some condition => return .branch condition (← shortTarget length position)
  | none =>
  match poolInstruction? pool bootstraps opcode with
  | some read => read
  | none =>
  if 0x15 ≤ opcode && opcode ≤ 0x19 then
    return .load (ValueKind.ofNumber (opcode - 0x15)) (← u8).toUInt16
  else if 0x1a ≤ opcode && opcode ≤ 0x2d then
    let n := opcode - 0x1a
    return .load (ValueKind.ofNumber (n >>> 2)) (n &&& 3).toUInt16
  else if 0x36 ≤ opcode && opcode ≤ 0x3a then
    return .store (ValueKind.ofNumber (opcode - 0x36)) (← u8).toUInt16
  else if 0x3b ≤ opcode && opcode ≤ 0x4e then
    let n := opcode - 0x3b
    return .store (ValueKind.ofNumber (n >>> 2)) (n &&& 3).toUInt16
  else
    match opcode with
    | 0x10 => return .bipush (← i8)
    | 0x11 => return .sipush (← i16)
    | 0x84 =>
        let slot ← u8
        return .iinc slot.toUInt16 (← i8).toInt16
    | 0xa7 => return .goto (← shortTarget length position)
    | 0xa8 => return .jsr (← shortTarget length position)
    | 0xc8 => return .goto (← longTarget length position)
    | 0xc9 => return .jsr (← longTarget length position)
    | 0xa9 => return .ret (← u8).toUInt16
    | 0xaa => tableswitch length position
    | 0xab => lookupswitch length position
    | 0xbc =>
        let code ← u8
        match Primitive.ofCode? code with
        | some element => return .newarray element
        | none => refuse (.unknownArrayType code)
    | 0xc4 => wide
    | 0xca => refuse (.reservedOpcode "breakpoint")
    | 0xfe => refuse (.reservedOpcode "impdep1")
    | 0xff => refuse (.reservedOpcode "impdep2")
    | _ => refuse (.unknownOpcode opcode)

/-- Reads an instruction. -/
def instruction (position : Nat) : Parse Instruction := do
  let opcode ← u8
  operands pool bootstraps length position opcode

/-- Reads instructions to the end of the code, behind those in `done` (last one first), each with
its offset.  Every instruction takes a byte at least, so the number of bytes bounds theirs. -/
def instructionsFrom : Nat → List (UInt16 × Instruction) → Parse (List (UInt16 × Instruction))
  | 0, done => pure done.reverse
  | n + 1, done => do
      if ← atEnd then return done.reverse
      else
        let position ← offset
        let next ← (instruction pool bootstraps length position).within (.atOffset position)
        instructionsFrom n ((position.toUInt16, next) :: done)

/-- The instructions of the bytes of code, each with its offset. -/
def instructions (code : Bytes) : Except Error (List (UInt16 × Instruction)) :=
  (instructionsFrom pool bootstraps length code.length [] (Cursor.start code)).map Prod.fst

end Decode

end Downlevel
