import Downlevel.Code.Basic
import Downlevel.Error

/-!
# Frames

A frame says what types the local variables and the values on the stack have before an instruction.
Local variables are listed slot by slot, so a long or double is followed by an unusable slot; the
stack lists its values, the topmost first.
-/

namespace Downlevel

/-- The type of a value as far as verification looks at it. -/
inductive VType where
  /-- Nothing usable. -/
  | top
  | int
  | float
  | long
  | double
  | null
  /-- The object under construction, before the constructor of its super class was called. -/
  | uninitializedThis
  | object (name : ClassName)
  /-- The object that the instruction at an index created, before its constructor was called. -/
  | uninitialized (index : Nat)
  deriving DecidableEq, Inhabited

namespace VType

/-- The type of values of a declared type. -/
def ofType (type : JavaType) : VType :=
  if type.isArray then object type.write
  else
    match type.base with
    | .byte | .char | .int | .short | .boolean => int
    | .float => float
    | .long => long
    | .double => double
    | .object name => object name

/-- The type of values with a descriptor. -/
def ofDescriptor (descriptor : FieldDescriptor) : Except Error VType := do
  return ofType (← JavaType.parse descriptor)

/-- Whether values of a type take two slots. -/
def isWide : VType → Bool
  | long => true
  | double => true
  | _ => false

/-- How many slots values of a type take. -/
def size (type : VType) : Nat :=
  if type.isWide then 2 else 1

/-- A type as messages show it. -/
def text : VType → String
  | top => "Top"
  | int => "Integer"
  | float => "Float"
  | long => "Long"
  | double => "Double"
  | null => "Null"
  | uninitializedThis => "UninitializedThis"
  | object name => "Object(ClassName(" ++ Quoted.text name ++ "))"
  | uninitialized index => s!"Uninitialized({index})"

/-- The types that a variable or a value on the stack takes up slot by slot. -/
def slots (type : VType) : List VType :=
  if type.isWide then [type, top] else [type]

end VType

/-- The types before an instruction. -/
structure Frame where
  locals : List VType
  stack : List VType
  deriving DecidableEq, Inhabited

namespace Frame

/-- How many slots the stack takes. -/
def stackSize (frame : Frame) : Nat :=
  frame.stack.foldl (fun total type => total + type.size) 0

/-- Leaves out the unusable slot behind each long and double. -/
def dropUpperHalves : List VType → List VType
  | [] => []
  | [type] => [type]
  | type :: next :: rest =>
      if type.isWide then type :: dropUpperHalves rest else type :: dropUpperHalves (next :: rest)

/-- The local variables as a class file lists them: one entry per value, and no unusable ones at the
end. -/
def compactLocals (locals : List VType) : List VType :=
  ((dropUpperHalves locals).reverse.dropWhile (· = .top)).reverse

/-- The frame before the first instruction of a method: the receiver and the arguments stand in the
first slots. -/
def initial (cls : ClassName) (isStatic : Bool) (name : MethodName) (type : MethodType)
    (maxLocals : UInt16) : Except Error Frame :=
  let receiver : List VType :=
    if isStatic then []
    else if name = MethodName.constructor && cls != ClassName.javaObject then
      [.uninitializedThis]
    else [.object cls]
  let arguments := receiver ++ type.parameters.flatMap fun t => (VType.ofType t).slots
  if maxLocals.toNat < arguments.length then
    fail (.frame (.parametersTooLarge arguments.length maxLocals))
  else
    .ok ⟨arguments ++ List.replicate (maxLocals.toNat - arguments.length) .top, []⟩

end Frame

end Downlevel
