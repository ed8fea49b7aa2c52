import Downlevel.Code.Op
import Downlevel.Constant

/-!
# Instructions

There is one instruction per meaning: which of several encodings is used is a matter of writing.
Jumps go to labels, which stand for the place of the instruction they are put on.
-/

namespace Downlevel

/-- A place in the code of a method. -/
structure Label where
  id : UInt16
  deriving DecidableEq, Hashable, Inhabited

/-- The kinds of values that local variables hold. -/
inductive ValueKind where
  | int
  | long
  | float
  | double
  | reference
  deriving DecidableEq, Inhabited

namespace ValueKind

/-- The number of a kind, in the order of the opcodes. -/
def number : ValueKind → UInt8
  | int => 0
  | long => 1
  | float => 2
  | double => 3
  | reference => 4

/-- The letter that starts the words for instructions on values of a kind. -/
def letter : ValueKind → String
  | int => "i"
  | long => "l"
  | float => "f"
  | double => "d"
  | reference => "a"

/-- All kinds, in the order of the opcodes. -/
def all : List ValueKind :=
  [int, long, float, double, reference]

/-- The kind of a number. -/
def ofNumber (n : UInt8) : ValueKind :=
  if n = 0 then int
  else if n = 1 then long
  else if n = 2 then float
  else if n = 3 then double
  else reference

/-- Whether values of a kind take two slots. -/
def isWide : ValueKind → Bool
  | long => true
  | double => true
  | _ => false

end ValueKind

/-- What a conditional jump tests: an int against zero, two ints or two references against each
other, or a reference against null. -/
inductive Condition where
  | eq | ne | lt | ge | gt | le
  | icmpeq | icmpne | icmplt | icmpge | icmpgt | icmple
  | acmpeq | acmpne
  | null | nonnull
  deriving DecidableEq, Inhabited

namespace Condition

/-- The opcode of a conditional jump. -/
def opcode : Condition → UInt8
  | eq => 0x99
  | ne => 0x9a
  | lt => 0x9b
  | ge => 0x9c
  | gt => 0x9d
  | le => 0x9e
  | icmpeq => 0x9f
  | icmpne => 0xa0
  | icmplt => 0xa1
  | icmpge => 0xa2
  | icmpgt => 0xa3
  | icmple => 0xa4
  | acmpeq => 0xa5
  | acmpne => 0xa6
  | null => 0xc6
  | nonnull => 0xc7

/-- The conditional jump of an opcode. -/
def ofOpcode? : UInt8 → Option Condition
  | 0x99 => some eq
  | 0x9a => some ne
  | 0x9b => some lt
  | 0x9c => some ge
  | 0x9d => some gt
  | 0x9e => some le
  | 0x9f => some icmpeq
  | 0xa0 => some icmpne
  | 0xa1 => some icmplt
  | 0xa2 => some icmpge
  | 0xa3 => some icmpgt
  | 0xa4 => some icmple
  | 0xa5 => some acmpeq
  | 0xa6 => some acmpne
  | 0xc6 => some null
  | 0xc7 => some nonnull
  | _ => none

/-- Every opcode leads back to its condition. -/
@[simp] theorem ofOpcode?_opcode (condition : Condition) :
    ofOpcode? condition.opcode = some condition := by
  cases condition <;> rfl

/-- The word for a conditional jump. -/
def mnemonic : Condition → String
  | eq => "ifeq"
  | ne => "ifne"
  | lt => "iflt"
  | ge => "ifge"
  | gt => "ifgt"
  | le => "ifle"
  | icmpeq => "if_icmpeq"
  | icmpne => "if_icmpne"
  | icmplt => "if_icmplt"
  | icmpge => "if_icmpge"
  | icmpgt => "if_icmpgt"
  | icmple => "if_icmple"
  | acmpeq => "if_acmpeq"
  | acmpne => "if_acmpne"
  | null => "ifnull"
  | nonnull => "ifnonnull"

/-- All conditions. -/
def all : List Condition :=
  [eq, ne, lt, ge, gt, le, icmpeq, icmpne, icmplt, icmpge, icmpgt, icmple, acmpeq, acmpne, null,
    nonnull]

/-- The condition that holds exactly if this one does not. -/
def inverse : Condition → Condition
  | eq => ne
  | ne => eq
  | lt => ge
  | ge => lt
  | gt => le
  | le => gt
  | icmpeq => icmpne
  | icmpne => icmpeq
  | icmplt => icmpge
  | icmpge => icmplt
  | icmpgt => icmple
  | icmple => icmpgt
  | acmpeq => acmpne
  | acmpne => acmpeq
  | null => nonnull
  | nonnull => null

/-- Inverting twice changes nothing. -/
@[simp] theorem inverse_inverse (condition : Condition) :
    condition.inverse.inverse = condition := by
  cases condition <;> rfl

/-- Whether a condition compares two values on the stack, rather than testing one. -/
def isBinary : Condition → Bool
  | icmpeq | icmpne | icmplt | icmpge | icmpgt | icmple | acmpeq | acmpne => true
  | _ => false

end Condition

/-- The primitive types of array elements. -/
inductive Primitive where
  | boolean
  | char
  | float
  | double
  | byte
  | short
  | int
  | long
  deriving DecidableEq, Inhabited

namespace Primitive

/-- The number of an element type in an instruction. -/
def code : Primitive → UInt8
  | boolean => 4
  | char => 5
  | float => 6
  | double => 7
  | byte => 8
  | short => 9
  | int => 10
  | long => 11

/-- The element type of a number. -/
def ofCode? : UInt8 → Option Primitive
  | 4 => some boolean
  | 5 => some char
  | 6 => some float
  | 7 => some double
  | 8 => some byte
  | 9 => some short
  | 10 => some int
  | 11 => some long
  | _ => none

/-- The class of arrays with elements of a type. -/
def arrayClass : Primitive → ClassName
  | boolean => "[Z"
  | char => "[C"
  | float => "[F"
  | double => "[D"
  | byte => "[B"
  | short => "[S"
  | int => "[I"
  | long => "[J"

/-- The word for a type. -/
def word : Primitive → String
  | boolean => "boolean"
  | char => "char"
  | float => "float"
  | double => "double"
  | byte => "byte"
  | short => "short"
  | int => "int"
  | long => "long"

/-- All element types. -/
def all : List Primitive :=
  [boolean, char, float, double, byte, short, int, long]

end Primitive

/-- An instruction. -/
inductive Instruction where
  /-- An instruction without operands. -/
  | op (op : Op)
  | bipush (value : Int8)
  | sipush (value : Int16)
  | ldc (value : Loadable)
  | load (kind : ValueKind) (slot : UInt16)
  | store (kind : ValueKind) (slot : UInt16)
  | iinc (slot : UInt16) (delta : Int16)
  | branch (condition : Condition) (target : Label)
  | goto (target : Label)
  | jsr (target : Label)
  | ret (slot : UInt16)
  | tableswitch (fallback : Label) (low high : Int32) (targets : List Label)
  | lookupswitch (fallback : Label) (cases : List (Int32 × Label))
  | field (use : FieldUse) (target : FieldRef)
  | invokevirtual (target : MethodRef)
  | invokespecial (target : MethodRef) (onInterface : Bool)
  | invokestatic (target : MethodRef) (onInterface : Bool)
  | invokeinterface (target : MethodRef)
  | invokedynamic (site : CallSite)
  | new (name : ClassName)
  | newarray (element : Primitive)
  | anewarray (name : ClassName)
  | checkcast (name : ClassName)
  | instanceof (name : ClassName)
  | multianewarray (name : ClassName) (dimensions : UInt8)
  deriving DecidableEq

namespace Instruction

/-- The labels that an instruction refers to, in the order in which they are written. -/
def targets : Instruction → List Label
  | branch _ target => [target]
  | goto target => [target]
  | jsr target => [target]
  | tableswitch fallback _ _ table => fallback :: table
  | lookupswitch fallback cases => fallback :: cases.map Prod.snd
  | _ => []

/-- The instruction with other labels. -/
def mapLabels (f : Label → Label) : Instruction → Instruction
  | branch condition target => branch condition (f target)
  | goto target => goto (f target)
  | jsr target => jsr (f target)
  | tableswitch fallback low high table => tableswitch (f fallback) low high (table.map f)
  | lookupswitch fallback cases =>
      lookupswitch (f fallback) (cases.map fun c => (c.1, f c.2))
  | instruction => instruction

/-- Renaming labels renames what the instruction refers to. -/
theorem targets_mapLabels (f : Label → Label) (instruction : Instruction) :
    (instruction.mapLabels f).targets = instruction.targets.map f := by
  cases instruction <;> simp [mapLabels, targets]

end Instruction

end Downlevel
