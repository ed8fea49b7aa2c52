import Downlevel.Quoted

/-!
# Types and their descriptors

A type is a primitive type, a class, or an array of a positive number of dimensions over one of
those.  A method has a list of parameter types and either a result type or none.  This file has the
values and how they are written; reading is in `Downlevel.Descriptor.Grammar`.
-/

namespace Downlevel

/-- The internal name of a class, such as `java/lang/Object`, or of an array class, which is its
descriptor. -/
abbrev ClassName := String

/-- The type of a value that is no array. -/
inductive BaseType where
  | byte
  | char
  | double
  | float
  | int
  | long
  | short
  | boolean
  | object (name : ClassName)
  deriving DecidableEq, Inhabited

namespace BaseType

/-- The descriptor of a type that is no array. -/
def write : BaseType → String
  | byte => "B"
  | char => "C"
  | double => "D"
  | float => "F"
  | int => "I"
  | long => "J"
  | short => "S"
  | boolean => "Z"
  | object name => "L" ++ name ++ ";"

/-- The type as messages show it. -/
def text : BaseType → String
  | object name => "Object(ClassName(" ++ Quoted.text name ++ "))"
  | primitive => primitive.write

end BaseType

/-- A type: `dimensions` times an array of `base`. -/
structure JavaType where
  dimensions : Nat
  base : BaseType
  deriving DecidableEq, Inhabited

namespace JavaType

/-- The type of a byte. -/
def byte : JavaType := ⟨0, .byte⟩

/-- The type of a character. -/
def char : JavaType := ⟨0, .char⟩

/-- The type of a double. -/
def double : JavaType := ⟨0, .double⟩

/-- The type of a float. -/
def float : JavaType := ⟨0, .float⟩

/-- The type of an int. -/
def int : JavaType := ⟨0, .int⟩

/-- The type of a long. -/
def long : JavaType := ⟨0, .long⟩

/-- The type of a short. -/
def short : JavaType := ⟨0, .short⟩

/-- The type of a truth value. -/
def boolean : JavaType := ⟨0, .boolean⟩

/-- The type of the instances of a class. -/
def object (name : ClassName) : JavaType := ⟨0, .object name⟩

/-- Whether a type is an array type. -/
def isArray (type : JavaType) : Bool :=
  type.dimensions != 0

/-- How many slots a value takes, as a local variable and on the stack. -/
def size (type : JavaType) : UInt16 :=
  if type = long || type = double then 2 else 1

/-- Whether the values of a type are references. -/
def isReference (type : JavaType) : Bool :=
  type.isArray ||
    match type.base with
    | .object _ => true
    | _ => false

/-- The descriptor of a type. -/
def write (type : JavaType) : String :=
  String.ofList (List.replicate type.dimensions '[') ++ type.base.write

/-- The name that instructions use for a reference type: of a class its name, of an array its
descriptor. -/
def internalName? (type : JavaType) : Option ClassName :=
  if type.isArray then some type.write
  else
    match type.base with
    | .object name => some name
    | _ => none

/-- The type of the elements of an array. -/
def element? (type : JavaType) : Option JavaType :=
  if type.isArray then some ⟨type.dimensions - 1, type.base⟩ else none

/-- The type as messages show it. -/
def text (type : JavaType) : String :=
  if type.isArray then "Array(" ++ toString type.dimensions ++ ", " ++ type.base.text ++ ")"
  else type.base.text

end JavaType

/-- The parameters and the result of a method; a method without a result returns nothing. -/
structure MethodType where
  parameters : List JavaType
  result : Option JavaType
  deriving DecidableEq, Inhabited

namespace MethodType

/-- How many slots the arguments take, with the receiver if there is one.  The count is a 16-bit
number and starts again at zero when it is full. -/
def argumentsSize (type : MethodType) (isStatic : Bool) : UInt16 :=
  (if isStatic then 0 else 1) + type.parameters.foldl (fun total t => total + t.size) 0

/-- The descriptor of a method. -/
def write (type : MethodType) : String :=
  "(" ++ String.join (type.parameters.map JavaType.write) ++ ")" ++
    match type.result with
    | some result => result.write
    | none => "V"

end MethodType

end Downlevel
