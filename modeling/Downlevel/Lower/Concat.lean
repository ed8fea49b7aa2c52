import Downlevel.Code.Fragment
import Downlevel.Lower.CallSites

/-!
# String concatenation

Newer compilers leave string concatenation to a bootstrap method, with a recipe: a text in which one
mark stands for the next argument and another one for the next constant.  Here the string is put
together by a string builder instead, part by part as the recipe says.
-/

namespace Downlevel

namespace Concat

/-- A part of a recipe: a text of its own, the next argument, or the next constant. -/
inductive Part where
  | literal (text : JavaString)
  | argument
  | constant
  deriving DecidableEq

/-- The unit that stands for the next argument. -/
def argumentMark : UInt16 := 1

/-- The unit that stands for the next constant. -/
def constantMark : UInt16 := 2

/-- A text as a part, unless it is empty.  The text is given with its last unit first. -/
def literalPart (text : List UInt16) : List Part :=
  if text.isEmpty then [] else [.literal ⟨text.reverse⟩]

/-- The parts of a recipe, behind a text that has begun, which is given with its last unit first. -/
def partsFrom (text : List UInt16) : List UInt16 → List Part
  | [] => literalPart text
  | unit :: rest =>
      if unit = argumentMark then literalPart text ++ .argument :: partsFrom [] rest
      else if unit = constantMark then literalPart text ++ .constant :: partsFrom [] rest
      else partsFrom (unit :: text) rest

/-- The parts of a recipe. -/
def parts (recipe : JavaString) : List Part :=
  partsFrom [] recipe.units

/-- What a concatenation works on. -/
structure Subject where
  recipe : JavaString
  descriptor : MethodDescriptor

/-- Appends the parts of a recipe to a string builder.  The next argument is the first of the
parameters, which starts at `slot`; the next constant is the first of the constants. -/
def appendParts (subject : Subject) :
    List Part → List JavaType → UInt16 → List Loadable → Except Error (List Instruction)
  | [], _, _, _ => .ok []
  | .literal text :: rest, parameters, slot, constants => do
      return Fragment.appendString text ++ (← appendParts subject rest parameters slot constants)
  | .argument :: rest, parameters, slot, constants =>
      match parameters with
      | [] => fail (.lower (.concatArguments subject.recipe.quoted subject.descriptor))
      | parameter :: parameters => do
          return Fragment.load parameter slot :: Fragment.append parameter ::
            (← appendParts subject rest parameters (slot + parameter.size) constants)
  | .constant :: rest, parameters, slot, constants =>
      match constants with
      | [] => fail (.lower (.concatConstants subject.recipe.quoted))
      | constant :: constants => do
          let type ← constant.type
          return .ldc constant :: Fragment.append type ::
            (← appendParts subject rest parameters slot constants)

/-- The code that concatenates what a recipe says. -/
def body (descriptor : MethodDescriptor) (recipe : JavaString) (constants : List Loadable) :
    Except Error Code := do
  let type ← MethodType.parse descriptor
  let appended ← appendParts ⟨recipe, descriptor⟩ (parts recipe) type.parameters 0 constants
  return Code.ofPieces <| Piece.sequence <|
    Fragment.construct ClassName.stringBuilder ++ appended ++ Fragment.returnBuilt

/-- The code that returns the empty string. -/
def emptyBody : Code :=
  Code.ofPieces (Piece.sequence [Fragment.text "", .op .areturn])

/-- The class with the bootstrap methods for concatenation. -/
def factory : ClassName := "java/lang/invoke/StringConcatFactory"

/-- The bootstrap method that concatenates all arguments. -/
def plainBootstrap : MethodRef :=
  ⟨factory, "makeConcat",
    "(Ljava/lang/invoke/MethodHandles$Lookup;Ljava/lang/String;Ljava/lang/invoke/MethodType;)" ++
      "Ljava/lang/invoke/CallSite;"⟩

/-- The bootstrap method that concatenates as a recipe says. -/
def recipeBootstrap : MethodRef :=
  ⟨factory, "makeConcatWithConstants",
    "(Ljava/lang/invoke/MethodHandles$Lookup;Ljava/lang/String;Ljava/lang/invoke/MethodType;" ++
      "Ljava/lang/String;[Ljava/lang/Object;)Ljava/lang/invoke/CallSite;"⟩

/-- The code that takes the place of a call site, or nothing if the site does not concatenate. -/
def generate (site : CallSite) : Except Error (Option Code) :=
  if site.bootstrap.isStatic plainBootstrap then do
    let type ← MethodType.parse site.descriptor
    return some (← body site.descriptor ⟨type.parameters.map fun _ => argumentMark⟩ [])
  else if site.bootstrap.isStatic recipeBootstrap then
    match site.arguments with
    | [] => .ok (some emptyBody)
    | .string recipe :: constants => do return some (← body site.descriptor recipe constants)
    | _ => fail (.lower .concatTemplate)
  else .ok none

end Concat

namespace Lower

/-- Puts methods that use a string builder in place of dynamic string concatenation. -/
def stringConcat (cls : ClassFile) : Except Error Lowered :=
  cls.replaceCallSites "strconcat" Concat.generate

end Lower

end Downlevel
