import Std.Data.HashMap
import Downlevel.Bytes
import Downlevel.Code.Instruction

/-!
# The code of a method

Code is a list of instructions, some of them with a label, and tables that refer to the labels: the
ranges in which exceptions are caught, line numbers, and local variables.  One more label may stand
behind the last instruction, where ranges can end.
-/

namespace Downlevel

/-- An attribute whose contents are kept as they are. -/
structure RawAttribute where
  name : String
  bytes : Bytes
  deriving DecidableEq

/-- An instruction, and the label on it. -/
structure Labelled where
  label : Option Label
  instruction : Instruction
  deriving DecidableEq

namespace Instruction

/-- The instruction without a label. -/
def plain (instruction : Instruction) : Labelled :=
  ⟨none, instruction⟩

end Instruction

/-- A range in which exceptions of a class, or all of them, are caught by a handler. -/
structure ExceptionRange where
  start : Label
  stop : Label
  handler : Label
  caught : Option ClassName
  deriving DecidableEq

/-- A local variable with the range in which it has its value. -/
structure LocalVariable where
  start : Label
  stop : Label
  name : String
  descriptor : Option FieldDescriptor
  signature : Option Signature
  slot : UInt16
  deriving DecidableEq

/-- The code of a method. -/
structure Code where
  /-- The largest size of the stack, as it was read. -/
  maxStack : Option UInt16 := none
  /-- The number of slots for local variables, as it was read. -/
  maxLocals : Option UInt16 := none
  instructions : List Labelled := []
  exceptions : List ExceptionRange := []
  /-- The label behind the last instruction. -/
  lastLabel : Option Label := none
  lineNumbers : Option (List (Label × UInt16)) := none
  localVariables : Option (List LocalVariable) := none
  attributes : List RawAttribute := []
  deriving DecidableEq

namespace Code

/-- The labels that stand in the code, the last one included. -/
def labels (code : Code) : List Label :=
  code.instructions.filterMap Labelled.label ++ code.lastLabel.toList

/-- The place of each label: the number of instructions before it.  Of several instructions with
one label the last counts, and the label behind the code comes last of all. -/
def labelIndices (code : Code) : Std.HashMap Label Nat :=
  let onInstructions := code.instructions.foldl
    (fun (map, index) entry =>
      match entry.label with
      | some label => (map.insert label index, index + 1)
      | none => (map, index + 1))
    ((∅ : Std.HashMap Label Nat), 0)
  match code.lastLabel with
  | some label => onInstructions.1.insert label onInstructions.2
  | none => onInstructions.1

end Code

end Downlevel
