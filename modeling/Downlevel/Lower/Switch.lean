import Downlevel.Code.Fragment
import Downlevel.Lower.CallSites

/-!
# Pattern switches

A switch over patterns asks a linked method which case matches a value: it gets the value and the
case to start from, and returns the number of the first case from there on that matches, or the
number of cases if none does; for no value at all it returns -1.  The method that takes its place
tests one case after the other.
-/

namespace Downlevel

namespace Switch

/-- A case of a switch: a number, a text, the instances of a class, or a constant of an enum. -/
inductive Case where
  | int (value : Int32)
  | text (value : JavaString)
  | instanceOf (cls : ClassName)
  | enumConstant (owner : ClassName) (name : JavaString)
  deriving DecidableEq

/-- The class with the bootstrap methods for switches. -/
def bootstraps : ClassName := "java/lang/runtime/SwitchBootstraps"

/-- The bootstrap method of a name. -/
def bootstrap (name : MethodName) : MethodRef :=
  ⟨bootstraps, name,
    "(Ljava/lang/invoke/MethodHandles$Lookup;Ljava/lang/String;Ljava/lang/invoke/MethodType;" ++
      "[Ljava/lang/Object;)Ljava/lang/invoke/CallSite;"⟩

/-- The bootstrap method of constants that are made by calling a method. -/
def invokeBootstrap : MethodRef :=
  ⟨"java/lang/invoke/ConstantBootstraps", "invoke",
    "(Ljava/lang/invoke/MethodHandles$Lookup;Ljava/lang/String;Ljava/lang/Class;" ++
      "Ljava/lang/invoke/MethodHandle;[Ljava/lang/Object;)Ljava/lang/Object;"⟩

/-- The method that describes a constant of an enum. -/
def describeEnum : MethodRef :=
  ⟨"java/lang/Enum$EnumDesc", "of",
    "(Ljava/lang/constant/ClassDesc;Ljava/lang/String;)Ljava/lang/Enum$EnumDesc;"⟩

/-- The method that describes a class. -/
def describeClass : MethodRef :=
  ⟨"java/lang/constant/ClassDesc", "of", "(Ljava/lang/String;)Ljava/lang/constant/ClassDesc;"⟩

/-- The case of a constant that says itself what it is. -/
def caseOf : Loadable → Except Error Case
  | .int value => .ok (.int value)
  | .string value => .ok (.text value)
  | .cls name => .ok (.instanceOf name)
  | _ => fail (.lower .switchBranch)

/-- Makes sure that a dynamic constant is what a method returns.  Messages call its place `path`. -/
def checkInvoke (path : String) (wanted : MethodRef) (bootstrap : Handle)
    (arguments : List Loadable) : Except Error Unit :=
  if bootstrap.isStatic invokeBootstrap then
    match arguments with
    | .handle target :: _ =>
        if target.isMethod wanted then .ok ()
        else
          fail (.lower (.wrongTarget path
            (wanted.owner ++ " " ++ wanted.name ++ wanted.descriptor)))
    | _ => fail (.lower (.wrongFirstArgument path))
  else fail (.lower (.wrongBootstrap path))

/-- The class that a dynamic constant describes. -/
def describedClass (bootstrap : Handle) (arguments : List Loadable) : Except Error ClassName := do
  checkInvoke "typeSwitch.classRef" describeClass bootstrap arguments
  match (arguments[1]? : Option Loadable) with
  | some (.string name) =>
      let name ← orFail (.lower .enumNameSurrogates) name.toString?
      return name.map fun c => if c = '.' then '/' else c
  | _ => fail (.lower .wrongClassArguments)

/-- The case of a dynamic constant, which describes a constant of an enum. -/
def describedCase (bootstrap : Handle) (arguments : List Loadable) : Except Error Case := do
  checkInvoke "typeSwitch" describeEnum bootstrap arguments
  match (arguments[1]? : Option Loadable), (arguments[2]? : Option Loadable) with
  | some (.dynamic _ _ inner innerArguments), some (.string name) =>
      return .enumConstant (← describedClass inner innerArguments) name
  | _, _ => fail (.lower .wrongEnumArguments)

/-- A case of a switch over types. -/
def typeCase : Loadable → Except Error Case
  | .dynamic _ _ bootstrap arguments => describedCase bootstrap arguments
  | argument => caseOf argument

/-- A case of a switch over the constants of an enum, which are given by their names. -/
def enumCase (owner : ClassName) : Loadable → Except Error Case
  | .string name => .ok (.enumConstant owner name)
  | argument => caseOf argument

/-- The type that a switch over an enum is about: that of its first argument. -/
def enumOwner (descriptor : MethodDescriptor) : Except Error ClassName := do
  let type ← MethodType.parse descriptor
  orFail (.lower (.noEnum descriptor)) (type.parameters.head?.bind JavaType.internalName?)

/-- The label with a number. -/
def label (n : Nat) : Label :=
  ⟨n.toUInt16⟩

/-- Goes to a label unless a case matches the value in variable 0. -/
def test (miss : Label) : Case → List Instruction
  | .int value =>
      [Fragment.aload 0, .instanceof "java/lang/Integer", .branch .eq miss, Fragment.aload 0,
        .checkcast "java/lang/Integer", .invokevirtual ⟨"java/lang/Integer", "intValue", "()I"⟩,
        Fragment.int value, .branch .icmpne miss]
  | .text value =>
      [Fragment.aload 0, .instanceof ClassName.javaString, .branch .eq miss, .ldc (.string value),
        Fragment.aload 0, .checkcast ClassName.javaString,
        .invokevirtual ⟨ClassName.javaString, "equals", "(Ljava/lang/Object;)Z"⟩, .branch .eq miss]
  | .instanceOf cls => [Fragment.aload 0, .instanceof cls, .branch .eq miss]
  | .enumConstant owner name =>
      [Fragment.aload 0, .instanceof owner, .branch .eq miss, .ldc (.string name),
        Fragment.aload 0, .checkcast owner, .invokevirtual ⟨owner, "name", "()Ljava/lang/String;"⟩,
        .invokevirtual ⟨ClassName.javaString, "equals", "(Ljava/lang/Object;)Z"⟩, .branch .eq miss]

/-- Returns the number of a case if it is not before the one to start from and matches. -/
def casePieces (index : Nat) (item : Case) : List Piece :=
  let miss := label (index + 1)
  Piece.sequence
      ([Fragment.int (Int32.ofNat index), .load .int 1, .branch .icmplt miss] ++ test miss item ++
        [Fragment.int (Int32.ofNat index), .op .ireturn]) ++
    [.place miss]

/-- The pieces for cases, the first of which has the number `index`. -/
def casesFrom : Nat → List Case → List Piece
  | _, [] => []
  | index, item :: rest => casePieces index item ++ casesFrom (index + 1) rest

/-- The code that tells which case matches. -/
def body (cases : List Case) : Code :=
  Code.ofPieces <|
    Piece.sequence
        [Fragment.aload 0, .branch .nonnull (label 0), Fragment.int (-1), .op .ireturn] ++
      [.place (label 0)] ++ casesFrom 0 cases ++
      Piece.sequence [Fragment.int (Int32.ofNat cases.length), .op .ireturn]

/-- The code that takes the place of a call site, or nothing if the site is not of a switch. -/
def generate (site : CallSite) : Except Error (Option Code) :=
  if site.bootstrap.isStatic (bootstrap "enumSwitch") then do
    let owner ← enumOwner site.descriptor
    return some (body (← site.arguments.mapM (enumCase owner)))
  else if site.bootstrap.isStatic (bootstrap "typeSwitch") then do
    return some (body (← site.arguments.mapM typeCase))
  else .ok none

end Switch

namespace Lower

/-- Puts methods that test the cases one by one in place of pattern switches. -/
def switchPatterns (cls : ClassFile) : Except Error Lowered :=
  cls.replaceCallSites "switch" Switch.generate

end Lower

end Downlevel
