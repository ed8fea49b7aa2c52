import Downlevel.Code.Fragment
import Downlevel.Lower.Lowered

/-!
# Records

A record becomes a plain class.  The three methods that every record has are linked by a bootstrap
method unless they are written out; such ones get bodies that go through the components one after
the other.
-/

namespace Downlevel

namespace Record

/-- A field that is part of the state of a record. -/
structure Component where
  name : FieldName
  descriptor : FieldDescriptor
  deriving DecidableEq

/-- The class with the bootstrap method for the methods of records. -/
def objectMethods : ClassName := "java/lang/runtime/ObjectMethods"

/-- The components that handles on the fields of a record tell of. -/
def componentsOf (arguments : List Loadable) : List Component :=
  arguments.filterMap fun argument =>
    match argument with
    | .handle (.field .getField target) => some ⟨target.name, target.descriptor⟩
    | _ => none

/-- The dynamic call sites in the code of a method. -/
def callSites (method : Method) : List CallSite :=
  match method.code with
  | none => []
  | some code =>
      code.instructions.filterMap fun entry =>
        match entry.instruction with
        | .invokedynamic site => some site
        | _ => none

/-- The components of a record: those it lists or, if it lists none, those that the first call site
for a method of records tells of. -/
def components (cls : ClassFile) : List Component :=
  match cls.recordComponents with
  | some listed => listed.map fun component => ⟨component.name, component.descriptor⟩
  | none =>
      match (cls.methods.flatMap callSites).find? fun site =>
          site.bootstrap.owner = objectMethods with
      | some site => componentsOf site.arguments
      | none => []

/-- The methods that every record has. -/
inductive Standard where
  | equals
  | hashCode
  | toString
  deriving DecidableEq

namespace Standard

/-- The name of a method. -/
def name : Standard → MethodName
  | equals => "equals"
  | hashCode => "hashCode"
  | toString => "toString"

/-- The descriptor of a method. -/
def descriptor : Standard → MethodDescriptor
  | equals => "(Ljava/lang/Object;)Z"
  | hashCode => "()I"
  | toString => "()Ljava/lang/String;"

/-- The descriptor of the call site that a method of a record has if it is not written out: the
record itself is the first argument. -/
def siteDescriptor (cls : ClassName) : Standard → MethodDescriptor
  | equals => "(L" ++ cls ++ ";Ljava/lang/Object;)Z"
  | hashCode => "(L" ++ cls ++ ";)I"
  | toString => "(L" ++ cls ++ ";)Ljava/lang/String;"

/-- Which of the methods a method is. -/
def of? (method : Method) : Option Standard :=
  [equals, hashCode, toString].find? fun standard =>
    method.name = standard.name && method.descriptor = standard.descriptor

end Standard

/-- Loads a component of the record in a local variable. -/
def loadComponent (cls : ClassName) (slot : UInt16) (component : Component) : List Instruction :=
  [Fragment.aload slot, .field .getField ⟨cls, component.name, component.descriptor⟩]

/-- The label with a number. -/
def label (n : Nat) : Label :=
  ⟨n.toUInt16⟩

/-- Compares a component of two records, in the variables 0 and 2, and returns `false` unless they
are equal.  The label of the number `n` marks what comes behind. -/
def compareComponent (cls : ClassName) (n : Nat) (component : Component) :
    Except Error (List Piece) := do
  let type ← JavaType.parse component.descriptor
  return Piece.sequence
      (loadComponent cls 0 component ++ Fragment.box type ++
        loadComponent cls 2 component ++ Fragment.box type ++
        [.invokestatic
            ⟨"java/util/Objects", "equals", "(Ljava/lang/Object;Ljava/lang/Object;)Z"⟩ false,
          .branch .ne (label n), .op .iconst0, .op .ireturn]) ++
    [.place (label n)]

/-- Compares components, the first of which uses the label of the number `n`. -/
def compareComponents (cls : ClassName) : Nat → List Component → Except Error (List Piece)
  | _, [] => .ok []
  | n, component :: rest => do
      let first ← compareComponent cls n component
      return first ++ (← compareComponents cls (n + 1) rest)

/-- The body of the method that compares a record with another object: they are equal if that is a
record of the same class with equal components. -/
def equalsBody (cls : ClassName) (components : List Component) : Except Error (List Piece) := do
  let comparisons ← compareComponents cls 1 components
  return Piece.sequence
      [Fragment.aload 1, .op .dup, .instanceof cls, .branch .ne (label 0), .op .iconst0,
        .op .ireturn] ++
    [.place (label 0)] ++ Piece.sequence [.checkcast cls, Fragment.astore 2] ++ comparisons ++
    Piece.sequence [.op .iconst1, .op .ireturn]

/-- Adds the hash of a component to the number on the stack. -/
def hashComponent (cls : ClassName) (component : Component) : Except Error (List Instruction) := do
  let type ← JavaType.parse component.descriptor
  return loadComponent cls 0 component ++ Fragment.box type ++
    [.invokestatic ⟨"java/util/Objects", "hashCode", "(Ljava/lang/Object;)I"⟩ false, .op .iadd]

/-- Adds the hashes of components to the number on the stack, each time after multiplying it. -/
def hashRest (cls : ClassName) : List Component → Except Error (List Instruction)
  | [] => .ok []
  | component :: rest => do
      let first ← hashComponent cls component
      return Fragment.int 31 :: .op .imul :: first ++ (← hashRest cls rest)

/-- The body of the method that computes the hash of a record. -/
def hashCodeBody (cls : ClassName) : List Component → Except Error (List Piece)
  | [] => .ok (Piece.sequence [.op .iconst0, .op .ireturn])
  | component :: rest => do
      let first ← hashComponent cls component
      let others ← hashRest cls rest
      return Piece.sequence (.op .iconst0 :: first ++ others ++ [.op .ireturn])

/-- Appends components to a string builder: what separates them, their names and their values. -/
def appendComponents (cls : ClassName) :
    String → List Component → Except Error (List Instruction)
  | _, [] => .ok []
  | separator, component :: rest => do
      let type ← JavaType.parse component.descriptor
      return Fragment.appendText (separator ++ component.name ++ "=") ++
        loadComponent cls 0 component ++ Fragment.append type ::
        (← appendComponents cls ", " rest)

/-- The body of the method that shows a record as text. -/
def toStringBody (cls : ClassName) (components : List Component) : Except Error (List Piece) := do
  let appended ← appendComponents cls "[" components
  return Piece.sequence
    (Fragment.construct ClassName.stringBuilder ++
      [.ldc (.cls cls),
        .invokevirtual ⟨ClassName.javaClass, "getSimpleName", "()Ljava/lang/String;"⟩,
        Fragment.append (.object ClassName.javaString)] ++
      appended ++ Fragment.appendText (if components.isEmpty then "[]" else "]") ++
      Fragment.returnBuilt)

namespace Standard

/-- The body of a method. -/
def body (cls : ClassName) (components : List Component) : Standard → Except Error (List Piece)
  | equals => equalsBody cls components
  | hashCode => hashCodeBody cls components
  | toString => toStringBody cls components

end Standard

/-- Calls the constructor of the root of all classes in place of the one of records. -/
def retarget (instruction : Instruction) : Instruction :=
  match instruction with
  | .invokespecial target onInterface =>
      if target = ⟨ClassName.javaRecord, MethodName.constructor, "()V"⟩ then
        .invokespecial { target with owner := ClassName.javaObject } onInterface
      else instruction
  | _ => instruction

/-- Whether a method is not written out but linked by the bootstrap method for records. -/
def isLinked (cls : ClassName) (standard : Standard) (method : Method) : Bool :=
  (callSites method).any fun site =>
    site.bootstrap.owner = objectMethods && site.bootstrap.name = "bootstrap" &&
      site.name = standard.name && site.descriptor = standard.siteDescriptor cls

/-- The code of a method of a record that is not written out. -/
def linkedBody (cls : ClassName) (components : List Component) (standard : Standard) :
    Except Error Code :=
  within (.lower (.recordMethod standard.name standard.descriptor cls)) do
    return Code.ofPieces (← standard.body cls components)

/-- Makes a method of a record one of a plain class. -/
def lowerMethod (cls : ClassName) (components : List Component) (method : Method) :
    Except Error Method := do
  if method.name = MethodName.constructor then
    return { method with code := method.code.map (Code.mapInstructions retarget) }
  else
    match Standard.of? method with
    | none => return method
    | some standard =>
        let method := { method with
          access := { method.access with
            isPrivate := false, isProtected := false, isPublic := true } }
        if isLinked cls standard method then
          return { method with code := some (← linkedBody cls components standard) }
        else return method

end Record

namespace Lower

/-- Makes a plain class of a record. -/
def recordToClass (cls : ClassFile) : Except Error Lowered := do
  if cls.isRecord then
    let methods ← cls.methods.mapM (Record.lowerMethod cls.name (Record.components cls))
    return ⟨{ cls with
      superClass := some ClassName.javaObject
      recordComponents := none
      methods := methods }, true⟩
  else return Lowered.unchanged cls

end Lower

end Downlevel
