import Downlevel.Code.Basic
import Downlevel.Error

/-!
# New code

New methods are put together from pieces, and the pieces come from short runs of instructions that
nearly all of these methods need.
-/

namespace Downlevel

/-!
## Putting code together

New code is written as a list of pieces: instructions to push, labels to place in front of the next
instruction, and ranges in which exceptions are caught.  Several labels may be placed in front of
one instruction; the instruction then carries the first of them, and the others become other names
for it.  A label placed behind the last instruction becomes the last label of the code.
-/

/-- A piece of code under construction. -/
inductive Piece where
  /-- The next instruction. -/
  | push (instruction : Instruction)
  /-- A label in front of the next instruction. -/
  | place (label : Label)
  /-- A range in which exceptions are caught. -/
  | guarded (range : ExceptionRange)
  deriving DecidableEq

/-- What was put together so far. -/
structure Assembly where
  /-- The instructions, the last one first. -/
  instructions : List Labelled := []
  /-- The ranges, the last one first. -/
  exceptions : List ExceptionRange := []
  /-- The label that the next instruction will carry. -/
  pending : Option Label := none
  /-- The labels that are other names for a label, the last one first. -/
  aliases : List (Label × Label) := []

namespace Assembly

/-- Adds a piece. -/
def add (assembly : Assembly) : Piece → Assembly
  | .push instruction =>
      { assembly with
        instructions := ⟨assembly.pending, instruction⟩ :: assembly.instructions
        pending := none }
  | .place label =>
      match assembly.pending with
      | some pending => { assembly with aliases := (label, pending) :: assembly.aliases }
      | none => { assembly with pending := some label }
  | .guarded range => { assembly with exceptions := range :: assembly.exceptions }

/-- The label that a label is another name for, or the label itself. -/
def resolve (assembly : Assembly) (label : Label) : Label :=
  (assembly.aliases.lookup label).getD label

/-- The code that was put together. -/
def finish (assembly : Assembly) : Code where
  instructions := assembly.instructions.reverse.map fun entry =>
    { entry with instruction := entry.instruction.mapLabels assembly.resolve }
  exceptions := assembly.exceptions.reverse.map fun range =>
    { range with
      start := assembly.resolve range.start
      stop := assembly.resolve range.stop
      handler := assembly.resolve range.handler }
  lastLabel := assembly.pending

end Assembly

namespace Code

/-- The code that a list of pieces makes. -/
def ofPieces (pieces : List Piece) : Code :=
  (pieces.foldl Assembly.add {}).finish

end Code

namespace Piece

/-- Instructions one after the other. -/
def sequence (instructions : List Instruction) : List Piece :=
  instructions.map push

end Piece

/-!
## Fragments of code

Short runs of instructions that new methods are made of: constants, loads and returns for each type,
boxes around primitive values, conversions between types, and calls through handles.
-/

namespace ClassName

/-- The class that builds strings piece by piece. -/
def stringBuilder : ClassName := "java/lang/StringBuilder"

/-- The class of lookups, through which bootstrap methods find members. -/
def methodLookup : ClassName := "java/lang/invoke/MethodHandles$Lookup"

end ClassName

namespace BaseType

/-- The class that boxes the values of a primitive type, and its method that gives them back. -/
def wrapper? : BaseType → Option (ClassName × MethodName)
  | boolean => some ("java/lang/Boolean", "booleanValue")
  | byte => some ("java/lang/Byte", "byteValue")
  | char => some ("java/lang/Character", "charValue")
  | short => some ("java/lang/Short", "shortValue")
  | int => some ("java/lang/Integer", "intValue")
  | long => some ("java/lang/Long", "longValue")
  | float => some ("java/lang/Float", "floatValue")
  | double => some ("java/lang/Double", "doubleValue")
  | object _ => none

/-- The kind of the values of a type. -/
def kind : BaseType → ValueKind
  | byte | char | int | short | boolean => .int
  | long => .long
  | float => .float
  | double => .double
  | object _ => .reference

end BaseType

namespace JavaType

/-- The class that boxes the values of a primitive type, and its method that gives them back. -/
def wrapper? (type : JavaType) : Option (ClassName × MethodName) :=
  if type.isArray then none else type.base.wrapper?

/-- The type that values have once they are boxed.  References stay as they are. -/
def boxed (type : JavaType) : JavaType :=
  match type.wrapper? with
  | some (cls, _) => object cls
  | none => type

/-- The kind of the values of a type. -/
def kind (type : JavaType) : ValueKind :=
  if type.isArray then .reference else type.base.kind

/-- Whether every box is an instance of a type. -/
def coversBoxes (type : JavaType) : Bool :=
  [object "java/lang/Object", object "java/lang/Number", object "java/io/Serializable",
    object "java/lang/Comparable"].contains type

end JavaType

namespace Loadable

/-- The type of a value when it is loaded. -/
def type : Loadable → Except Error JavaType
  | int _ => .ok .int
  | float _ => .ok .float
  | long _ => .ok .long
  | double _ => .ok .double
  | cls _ => .ok (.object ClassName.javaClass)
  | string _ => .ok (.object ClassName.javaString)
  | handle _ => .ok (.object ClassName.methodHandle)
  | methodType _ => .ok (.object ClassName.methodType)
  | dynamic _ descriptor _ _ => JavaType.parse descriptor

/-- The constant string of a text. -/
def ofText (text : String) : Loadable :=
  string (JavaString.ofString text)

end Loadable

namespace Handle

/-- The types of the values that a handle takes from the stack, in order. -/
def parameterTypes : Handle → Except Error (List JavaType)
  | field .getStatic _ => .ok []
  | field .getField target => .ok [.object target.owner]
  | field .putStatic target => do return [← JavaType.parse target.descriptor]
  | field .putField target => do return [.object target.owner, ← JavaType.parse target.descriptor]
  | method (.static _) target => do return (← MethodType.parse target.descriptor).parameters
  | method .newSpecial target => do return (← MethodType.parse target.descriptor).parameters
  | method _ target => do
      return .object target.owner :: (← MethodType.parse target.descriptor).parameters

/-- The type of the value that a handle leaves on the stack, if it leaves one. -/
def resultType : Handle → Except Error (Option JavaType)
  | field .getField target => do return some (← JavaType.parse target.descriptor)
  | field .getStatic target => do return some (← JavaType.parse target.descriptor)
  | field _ _ => .ok none
  | method .newSpecial target => .ok (some (.object target.owner))
  | method _ target => do return (← MethodType.parse target.descriptor).result

/-- What comes before the arguments of a call: a constructor needs an object to work on. -/
def beforeArguments : Handle → List Instruction
  | method .newSpecial target => [.new target.owner, .op .dup]
  | _ => []

/-- The instruction that does what a handle does, with the arguments on the stack. -/
def call : Handle → Instruction
  | field use target => .field use target
  | method .virtual target => .invokevirtual target
  | method (.static onInterface) target => .invokestatic target onInterface
  | method (.special onInterface) target => .invokespecial target onInterface
  | method .newSpecial target => .invokespecial target false
  | method .interface target => .invokeinterface target

end Handle

namespace Fragment

/-- Puts a constant number on the stack, with the shortest instruction that can. -/
def int (value : Int32) : Instruction :=
  if value = -1 then .op .iconstM1
  else if value = 0 then .op .iconst0
  else if value = 1 then .op .iconst1
  else if value = 2 then .op .iconst2
  else if value = 3 then .op .iconst3
  else if value = 4 then .op .iconst4
  else if value = 5 then .op .iconst5
  else if -128 ≤ value && value ≤ 127 then .bipush value.toInt8
  else if -32768 ≤ value && value ≤ 32767 then .sipush value.toInt16
  else .ldc (.int value)

/-- Puts a constant string on the stack. -/
def text (value : String) : Instruction :=
  .ldc (Loadable.ofText value)

/-- Loads the reference in a local variable. -/
def aload (slot : UInt16) : Instruction :=
  .load .reference slot

/-- Stores a reference in a local variable. -/
def astore (slot : UInt16) : Instruction :=
  .store .reference slot

/-- Loads the value in a local variable of a type. -/
def load (type : JavaType) (slot : UInt16) : Instruction :=
  .load type.kind slot

/-- The instruction that returns a value of a kind. -/
def returnOp : ValueKind → Op
  | .int => .ireturn
  | .long => .lreturn
  | .float => .freturn
  | .double => .dreturn
  | .reference => .areturn

/-- Returns a value of a type. -/
def returnValue (type : JavaType) : Instruction :=
  .op (returnOp type.kind)

/-- Creates an object with the constructor that has no parameters. -/
def construct (cls : ClassName) : List Instruction :=
  [.new cls, .op .dup, .invokespecial ⟨cls, MethodName.constructor, "()V"⟩ false]

/-- Puts the class of a type on the stack. -/
def classOf (type : JavaType) : Instruction :=
  match type.wrapper? with
  | some (cls, _) => .field .getStatic ⟨cls, "TYPE", "Ljava/lang/Class;"⟩
  | none => .ldc (.cls (type.internalName?.getD type.write))

/-- Boxes a primitive value.  References stay as they are. -/
def box (type : JavaType) : List Instruction :=
  match type.wrapper? with
  | some (cls, _) =>
      [.invokestatic
        ⟨cls, "valueOf", "(" ++ type.write ++ ")" ++ (JavaType.object cls).write⟩ false]
  | none => []

/-- Makes a value of a type from a reference, by taking it out of its box or by a cast. -/
def unboxOrCast (type : JavaType) : List Instruction :=
  match type.wrapper? with
  | some (cls, method) =>
      [.checkcast cls, .invokevirtual ⟨cls, method, "()" ++ type.write⟩]
  | none =>
      match type.internalName? with
      | some name => if name = ClassName.javaObject then [] else [.checkcast name]
      | none => []

/-- Makes a value of one type from a value of another one. -/
def adapt (source target : JavaType) : Except Error (List Instruction) :=
  if source = target then .ok []
  else
    match source.isReference, target.isReference with
    | false, true =>
        .ok (box source ++
          if source.boxed != target && !target.coversBoxes then
            target.internalName?.toList.map .checkcast
          else [])
    | true, _ => .ok (unboxOrCast target)
    | false, false =>
        if source.kind = .int && target.kind = .int then .ok []
        else fail (.lower (.noConversion source.text target.text))

/-- The parameter of the method that appends a value of a type to a string builder. -/
def appendParameter (type : JavaType) : String :=
  if type = .object ClassName.javaString then "Ljava/lang/String;"
  else if type.isReference then "Ljava/lang/Object;"
  else
    match type.base with
    | .boolean => "Z"
    | .char => "C"
    | .long => "J"
    | .float => "F"
    | .double => "D"
    | _ => "I"

/-- Appends a value of a type to the string builder below it. -/
def append (type : JavaType) : Instruction :=
  .invokevirtual ⟨ClassName.stringBuilder, "append",
    "(" ++ appendParameter type ++ ")Ljava/lang/StringBuilder;"⟩

/-- Appends a constant string to a string builder. -/
def appendString (value : JavaString) : List Instruction :=
  [.ldc (.string value), append (.object ClassName.javaString)]

/-- Appends a constant text to a string builder. -/
def appendText (value : String) : List Instruction :=
  appendString (JavaString.ofString value)

/-- Returns the string that a string builder has built. -/
def returnBuilt : List Instruction :=
  [.invokevirtual ⟨ClassName.stringBuilder, "toString", "()Ljava/lang/String;"⟩, .op .areturn]

end Fragment

end Downlevel
