import Downlevel.Decode.Instruction

/-!
# Reading code

A jump, a range or a table entry refers to the code by offset.  Labels are numbered in the order in
which offsets are first referred to: by the instructions, then by the exception ranges, then by the
tables among the attributes.  Every offset that is referred to must be the start of an instruction,
or, for the end of a range, the end of the code.
-/

namespace Downlevel

namespace Decode

open Parse

/-- What the attributes of code hold.  The labels are still offsets. -/
structure CodeTables where
  lineNumbers : Option (List (Label × UInt16)) := none
  localVariables : Option (List LocalVariable) := none
  /-- The generic types of local variables, which belong to entries of `localVariables`. -/
  variableTypes : List LocalVariable := []
  attributes : List RawAttribute := []
  /-- The offsets that the tables refer to, the last one first. -/
  references : List Label := []

variable (pool : Pool.Table)

/-- Reads an entry of the table of local variables.  `describe` reads what it says about the
type. -/
def localVariable (length : UInt16)
    (describe : UInt16 → Except Error (Option FieldDescriptor × Option Signature)) :
    Parse LocalVariable := do
  let start ← u16
  let size ← u16
  let (first, last) ← rangeAt length start size
  let name ← pool.named .localVariableName (← u16)
  let (descriptor, signature) ← describe (← u16)
  let slot ← u16
  return ⟨first, last, name, descriptor, signature, slot⟩

/-- The offsets that local variables refer to, the last one first and before those in `old`. -/
def rangeReferences (old : List Label) (locals : List LocalVariable) : List Label :=
  locals.foldl (fun labels v => v.stop :: v.start :: labels) old

/-- Reads an attribute of code. -/
def codeAttribute (length : UInt16) (name : String) (size : Nat) (tables : CodeTables) :
    Parse CodeTables := do
  match name with
  | "StackMapTable" =>
      skip size
      return tables
  | "LineNumberTable" =>
      let lines ← listOf do
        let start ← labelAt length (← u16)
        return (start, ← u16)
      return { tables with
        lineNumbers := some (tables.lineNumbers.getD [] ++ lines)
        references := lines.foldl (fun labels line => line.1 :: labels) tables.references }
  | "LocalVariableTable" =>
      let locals ← listOf (localVariable pool length fun index => do
        return (some (← pool.named .fieldDescriptor index), none))
      return { tables with
        localVariables := some (tables.localVariables.getD [] ++ locals)
        references := rangeReferences tables.references locals }
  | "LocalVariableTypeTable" =>
      let types ← listOf (localVariable pool length fun index => do
        return (none, some (← pool.utf8 index)))
      return { tables with
        variableTypes := tables.variableTypes ++ types
        references := rangeReferences tables.references types }
  | _ =>
      let other ← raw name size
      return { tables with attributes := tables.attributes ++ [other] }

/-- Adds a generic type to the variable it belongs to: the first with the same range, slot and name.
If there is none, it becomes a variable of its own. -/
def addVariableType (locals : List LocalVariable) (type : LocalVariable) :
    List LocalVariable :=
  let belongs (v : LocalVariable) : Bool :=
    v.start = type.start && v.stop = type.stop && v.slot = type.slot && v.name = type.name
  match locals.span fun v => !belongs v with
  | (before, found :: after) => before ++ { found with signature := type.signature } :: after
  | (_, []) => locals ++ [type]

/-- The local variables with their generic types. -/
def CodeTables.allLocals (tables : CodeTables) : Option (List LocalVariable) :=
  if tables.variableTypes.isEmpty then tables.localVariables
  else some (tables.variableTypes.foldl addVariableType (tables.localVariables.getD []))

/-- Numbers offsets in the order in which they first occur. -/
def numberOffsets (references : List Label) : Std.HashMap Label Label :=
  references.foldl
    (fun numbers offset =>
      if numbers.contains offset then numbers
      else numbers.insert offset ⟨numbers.size.toUInt16⟩)
    ∅

/-- Puts numbers in place of offsets.  Refuses code in which an offset that is referred to is not
the start of an instruction. -/
def numberLabels (length : UInt16) (instructions : List (UInt16 × Instruction))
    (exceptions : List ExceptionRange) (tables : CodeTables) (maxStack maxLocals : UInt16) :
    Except Error Code :=
  let references := instructions.flatMap (fun i => i.2.targets) ++
    exceptions.flatMap (fun e => [e.start, e.stop, e.handler]) ++ tables.references.reverse
  let numbers := numberOffsets references
  let number (offset : Label) : Label := numbers.getD offset offset
  let placed := instructions.map fun i =>
    (⟨numbers[(⟨i.1⟩ : Label)]?, i.2.mapLabels number⟩ : Labelled)
  let lastLabel := numbers[(⟨length⟩ : Label)]?
  let found := placed.countP (fun i => i.label.isSome) + lastLabel.toList.length
  if found = numbers.size then
    .ok {
      maxStack := some maxStack
      maxLocals := some maxLocals
      instructions := placed
      exceptions := exceptions.map fun e =>
        ⟨number e.start, number e.stop, number e.handler, e.caught⟩
      lastLabel := lastLabel
      lineNumbers := tables.lineNumbers.map fun lines =>
        lines.map fun line => (number line.1, line.2)
      localVariables := tables.allLocals.map fun locals =>
        locals.map fun v => { v with start := number v.start, stop := number v.stop }
      attributes := tables.attributes }
  else fail (.read .looseOffset)

/-- Reads an exception range. -/
def exceptionRange (length : UInt16) : Parse ExceptionRange := do
  let start ← labelAt length (← u16)
  let stop ← endLabelAt length (← u16)
  let handler ← labelAt length (← u16)
  let caught ← Pool.Table.optional (← u16) pool.cls
  return ⟨start, stop, handler, caught⟩

/-- Reads the code of a method. -/
def code (bootstraps : Array Pool.Bootstrap) : Parse Code := do
  let maxStack ← u16
  let maxLocals ← u16
  let size ← u32
  if size = 0 || 65535 < size then refuse (.codeLength size.toNat)
  else
    let length := size.toUInt16
    let bytes ← take length.toNat
    let instructions ← instructions pool bootstraps length bytes
    let exceptions ← listOf (exceptionRange pool length)
    let tables ← attributes pool (codeAttribute pool length) {}
    numberLabels length instructions exceptions tables maxStack maxLocals

end Decode

end Downlevel
