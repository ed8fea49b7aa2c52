import Downlevel.Code.Fragment
import Downlevel.Lower.Lowered
import Downlevel.Lower.NameSupply

/-!
# Dynamic constants

A dynamic constant is computed by its bootstrap method when it is first needed.  Here each of them
gets three static fields and a method.  One field holds the value, one tells whether it was
computed, and one holds an object to lock while that happens, which is created when the class is
initialized.  The method, the constant's accessor, computes the value unless that was done before;
loading the constant becomes a call of it.  Constants that are always null need none of this.

The arguments of a dynamic call site cannot be loaded in this way, as they are no part of the code.
So the bootstrap method of a site with such arguments is replaced by a new one, the bouncer, which
loads the arguments itself and calls the old one.
-/

namespace Downlevel

namespace Constants

/-- A dynamic constant. -/
structure Dynamic where
  name : FieldName
  descriptor : FieldDescriptor
  bootstrap : Handle
  arguments : List Loadable
  deriving DecidableEq

/-- A value as a dynamic constant, if it is one. -/
def dynamic? : Loadable → Option Dynamic
  | .dynamic name descriptor bootstrap arguments =>
      some ⟨name, descriptor, bootstrap, arguments⟩
  | _ => none

/-- How a dynamic constant is loaded from now on. -/
inductive Access where
  /-- As null. -/
  | null
  /-- By the accessor of a name. -/
  | accessor (name : String)
  deriving DecidableEq

/-- A bootstrap method that is to load its arguments itself. -/
structure Bouncer where
  name : MethodName
  bootstrap : Handle
  arguments : List Loadable
  deriving DecidableEq

/-- What was found so far: the constants in the order in which they were met, and the names in
use. -/
structure Found where
  entries : List (Dynamic × Access) := []
  names : NameSupply

/-- Work on the constants of a class. -/
abbrev Work := StateT Found (Except Error)

/-- The bootstrap method of constants that are always null. -/
def nullBootstrap : MethodRef :=
  ⟨"java/lang/invoke/ConstantBootstraps", "nullConstant",
    "(Ljava/lang/invoke/MethodHandles$Lookup;Ljava/lang/String;Ljava/lang/Class;)" ++
      "Ljava/lang/Object;"⟩

/-- The descriptor of bouncers. -/
def bouncerDescriptor : MethodDescriptor :=
  "(Ljava/lang/invoke/MethodHandles$Lookup;Ljava/lang/String;Ljava/lang/invoke/MethodType;)" ++
    "Ljava/lang/invoke/CallSite;"

/-- What bootstrap methods of call sites return. -/
def callSiteType : JavaType :=
  .object "java/lang/invoke/CallSite"

/-- The error for bootstrap methods that fail. -/
def bootstrapError : ClassName := "java/lang/BootstrapMethodError"

/-- The descriptor of the objects to lock. -/
def lockDescriptor : FieldDescriptor := "Ljava/lang/Object;"

/-- The name of the field that tells whether a value was computed. -/
def flagName (name : String) : FieldName :=
  "has$" ++ name

/-- The name of the field with the object to lock. -/
def lockName (name : String) : FieldName :=
  "lock$" ++ name

/-- The descriptor of the accessor of a constant. -/
def accessorDescriptor (constant : Dynamic) : MethodDescriptor :=
  "()" ++ constant.descriptor

/-- How a constant is loaded from now on.  A constant that was not met before is added. -/
def access (cls : ClassFile) (constant : Dynamic) : Work Access := do
  match (← get).entries.lookup constant with
  | some known => return known
  | none =>
      if constant.bootstrap.isMethod nullBootstrap then
        if (← (JavaType.parse constant.descriptor : Except Error JavaType)).isReference then
          modify fun found => { found with entries := found.entries ++ [(constant, .null)] }
          return .null
        else (fail (.lower (.nullOnPrimitive cls.name)) : Except Error Access)
      else
        let found ← get
        let (name, names) :=
          found.names.next ("constant$" ++ constant.name ++ "$") ["has$", "lock$"]
        set (⟨found.entries ++ [(constant, .accessor name)], names⟩ : Found)
        return .accessor name

/-- The instruction that loads a constant from now on. -/
def load (cls : ClassFile) (constant : Dynamic) : Work Instruction := do
  match ← access cls constant with
  | .null => return .op .aconstNull
  | .accessor name =>
      return .invokestatic ⟨cls.name, name, accessorDescriptor constant⟩ cls.access.isInterface

/-- Replaces an instruction that uses dynamic constants, and gives the bouncer that it needs. -/
def replaceInstruction (cls : ClassFile) (instruction : Instruction) :
    Work (Instruction × Option Bouncer) := do
  match instruction with
  | .ldc value =>
      match dynamic? value with
      | some constant => return (← load cls constant, none)
      | none => return (instruction, none)
  | .invokedynamic site =>
      if site.arguments.any fun argument => (dynamic? argument).isSome then
        let found ← get
        let (name, names) := found.names.next ("indyconstant$" ++ site.name ++ "$") []
        set { found with names := names }
        let handle :=
          Handle.method (.static cls.access.isInterface) ⟨cls.name, name, bouncerDescriptor⟩
        return (.invokedynamic { site with bootstrap := handle, arguments := [] },
          some ⟨name, site.bootstrap, site.arguments⟩)
      else return (instruction, none)
  | _ => return (instruction, none)

/-- Replaces an instruction where it stands in code. -/
def replaceEntry (cls : ClassFile) (entry : Labelled) : Work (Labelled × Option Bouncer) := do
  let (instruction, bouncer) ← replaceInstruction cls entry.instruction
  return ({ entry with instruction := instruction }, bouncer)

/-- Replaces what uses dynamic constants in code. -/
def replaceCode (cls : ClassFile) (code : Code) : Work (Code × List Bouncer) := do
  let replaced ← code.instructions.mapM (replaceEntry cls)
  return ({ code with instructions := replaced.map Prod.fst }, replaced.filterMap Prod.snd)

/-- Work seen from a place around it. -/
def placed {α : Type} (fault : LowerFault) (work : Work α) : Work α := fun found =>
  within (.lower fault) (work found)

/-- Replaces what uses dynamic constants in a method. -/
def replaceMethod (cls : ClassFile) (method : Method) : Work (Method × List Bouncer) := do
  match method.code with
  | none => return (method, [])
  | some code =>
      let (code, bouncers) ←
        placed (.inMethod method.name method.descriptor) (replaceCode cls code)
      return ({ method with code := some code }, bouncers)

/-- Where the first three arguments of a bootstrap method come from. -/
inductive Leading where
  /-- They describe a constant. -/
  | ofConstant (constant : Dynamic)
  /-- They are the arguments of a bouncer. -/
  | passedOn

namespace Leading

/-- The first three arguments with their types: the lookup, the name, and the type. -/
def values : Leading → Except Error (List (JavaType × Instruction))
  | ofConstant constant => do
      return [(.object ClassName.methodLookup,
          .invokestatic ⟨"java/lang/invoke/MethodHandles", "lookup",
            "()Ljava/lang/invoke/MethodHandles$Lookup;"⟩ false),
        (.object ClassName.javaString, Fragment.text constant.name),
        (.object ClassName.javaClass,
          Fragment.classOf (← JavaType.parse constant.descriptor))]
  | passedOn =>
      .ok [(.object ClassName.methodLookup, Fragment.aload 0),
        (.object ClassName.javaString, Fragment.aload 1),
        (.object ClassName.methodType, Fragment.aload 2)]

end Leading

/-- Loads the leading arguments as far as there are parameters for them. -/
def loadLeading : List (JavaType × Instruction) → List JavaType → Except Error (List Instruction)
  | (type, instruction) :: values, parameter :: parameters => do
      let converted ← Fragment.adapt type parameter
      return instruction :: converted ++ (← loadLeading values parameters)
  | _, _ => .ok []

/-- Loads a static argument as a value of a type. -/
def loadArgument (cls : ClassFile) (argument : Loadable) (parameter : JavaType) :
    Work (List Instruction) := do
  let instruction ←
    match dynamic? argument with
    | some constant => load cls constant
    | none => pure (.ldc argument)
  let type ← (argument.type : Except Error JavaType)
  return instruction :: (← (Fragment.adapt type parameter : Except Error (List Instruction)))

/-- Loads static arguments, each for its parameter. -/
def loadArguments (cls : ClassFile) : List Loadable → List JavaType → Work (List Instruction)
  | argument :: arguments, parameter :: parameters => do
      let first ← loadArgument cls argument parameter
      return first ++ (← loadArguments cls arguments parameters)
  | _, _ => return []

/-- Stores static arguments in the array on the stack, from an index on. -/
def storeArguments (cls : ClassFile) (element : JavaType) :
    Nat → List Loadable → Work (List Instruction)
  | _, [] => return []
  | index, argument :: arguments => do
      let loaded ← loadArgument cls argument element
      let others ← storeArguments cls element (index + 1) arguments
      return .op .dup :: Fragment.int (Int32.ofNat index) :: loaded ++ .op .aastore :: others

/-- Collects static arguments in an array of a type. -/
def collectArguments (cls : ClassFile) (array : JavaType) (arguments : List Loadable) :
    Work (List Instruction) := do
  match array.element?.bind fun element => element.internalName?.map (element, ·) with
  | none => (fail (.lower (.primitiveCollection array.text)) : Except Error (List Instruction))
  | some (element, name) =>
      let stored ← storeArguments cls element 0 arguments
      return Fragment.int (Int32.ofNat arguments.length) :: .anewarray name :: stored

/-- Whether static arguments have to be collected in an array for the last parameter: it is an
array, and they are not one for each parameter with such an array as the last. -/
def areCollected (arguments : List Loadable) (parameters : List JavaType) : Except Error Bool :=
  match parameters.getLast? with
  | none => .ok false
  | some last =>
      if !last.isArray then .ok false
      else if arguments.length != parameters.length then .ok true
      else
        match arguments.getLast? with
        | none => .ok false
        | some argument => do return (← argument.type) != last

/-- Loads the static arguments for the parameters behind the leading ones. -/
def loadStatic (cls : ClassFile) (arguments : List Loadable) (parameters : List JavaType) :
    Work (List Instruction) := do
  let collected ← (areCollected arguments parameters : Except Error Bool)
  let single := if collected then parameters.length - 1 else parameters.length
  if arguments.length < single ||
      (!collected && arguments.length != single && !parameters.isEmpty) then
    (fail (.lower (.staticArguments parameters.length arguments.length)) :
      Except Error (List Instruction))
  else
    let loaded ← loadArguments cls arguments (parameters.take single)
    match parameters[single]? with
    | some array => return loaded ++ (← collectArguments cls array (arguments.drop single))
    | none => return loaded

/-- Calls a bootstrap method and makes a value of a type from its result. -/
def callBootstrap (cls : ClassFile) (bootstrap : Handle) (leading : Leading)
    (arguments : List Loadable) (result : JavaType) : Work (List Instruction) := do
  let parameters ← (bootstrap.parameterTypes : Except Error (List JavaType))
  let values ← (leading.values : Except Error (List (JavaType × Instruction)))
  let first ← (loadLeading values parameters : Except Error (List Instruction))
  let rest ← loadStatic cls arguments (parameters.drop 3)
  match ← (bootstrap.resultType : Except Error (Option JavaType)) with
  | none => (fail (.lower .bootstrapReturnsNothing) : Except Error (List Instruction))
  | some returned =>
      let converted ← (Fragment.adapt returned result : Except Error (List Instruction))
      return bootstrap.beforeArguments ++ first ++ rest ++ bootstrap.call :: converted

/-- The code of the accessor of a constant.  It looks twice whether the value was computed, the
second time with the lock held, and gives the lock back whatever happens. -/
def accessorPieces (cls : ClassName) (name : String) (constant : Dynamic) (type : JavaType)
    (compute : List Instruction) : List Piece :=
  let value : FieldRef := ⟨cls, name, constant.descriptor⟩
  let flag : FieldRef := ⟨cls, flagName name, "Z"⟩
  let lock : FieldRef := ⟨cls, lockName name, lockDescriptor⟩
  let finished : Label := ⟨0⟩
  let unlock : Label := ⟨1⟩
  let start : Label := ⟨2⟩
  let stop : Label := ⟨3⟩
  let handler : Label := ⟨4⟩
  Piece.sequence
      [.field .getStatic flag, .branch .ne finished,
        .field .getStatic lock, .op .dup, Fragment.astore 0, .op .monitorenter] ++
    [.place start] ++
    Piece.sequence
      ([.field .getStatic flag, .branch .ne unlock] ++ compute ++
        [.field .putStatic value, .op .iconst1, .field .putStatic flag]) ++
    [.place unlock] ++ Piece.sequence [Fragment.aload 0, .op .monitorexit] ++
    [.place stop] ++ Piece.sequence [.goto finished] ++
    [.place handler] ++
    Piece.sequence
      [Fragment.astore 1, Fragment.aload 0, .op .monitorexit, .new bootstrapError, .op .dup,
        Fragment.aload 1,
        .invokespecial ⟨bootstrapError, MethodName.constructor, "(Ljava/lang/Throwable;)V"⟩ false,
        .op .athrow] ++
    [.place finished] ++
    Piece.sequence [.field .getStatic value, Fragment.returnValue type] ++
    [.guarded ⟨start, stop, handler, none⟩]

/-- The code of the accessor of a constant. -/
def accessorCode (cls : ClassFile) (name : String) (constant : Dynamic) : Work Code := do
  let type ← (JavaType.parse constant.descriptor : Except Error JavaType)
  let compute ←
    callBootstrap cls constant.bootstrap (.ofConstant constant) constant.arguments type
  return Code.ofPieces (accessorPieces cls.name name constant type compute)

/-- The code of a bouncer. -/
def bouncerCode (cls : ClassFile) (bouncer : Bouncer) : Work Code := do
  let call ← callBootstrap cls bouncer.bootstrap .passedOn bouncer.arguments callSiteType
  return Code.ofPieces (Piece.sequence (call ++ [Fragment.returnValue callSiteType]))

/-- The method of a bouncer. -/
def bouncerMethod (cls : ClassFile) (bouncer : Bouncer) : Work Method := do
  let code ← placed (.bouncer bouncer.name) (bouncerCode cls bouncer)
  return Method.ofCode cls.addedMethodAccess bouncer.name bouncerDescriptor code

/-- The accessor of a constant. -/
def accessorMethod (cls : ClassFile) (name : String) (constant : Dynamic) : Work Method := do
  let code ← placed (.accessor name) (accessorCode cls name constant)
  return Method.ofCode cls.addedMethodAccess name (accessorDescriptor constant) code

/-- The fields of a constant. -/
def fieldsOf (name : String) (constant : Dynamic) : List Field :=
  let access : FieldAccess := { isPrivate := true, isStatic := true, isSynthetic := true }
  [{ access := { access with isVolatile := true }, name := name
     descriptor := constant.descriptor },
    { access := { access with isVolatile := true }, name := flagName name, descriptor := "Z" },
    { access := { access with isFinal := true }, name := lockName name
      descriptor := lockDescriptor }]

/-- The accessors and fields of the constants from an index on.  An accessor may need further
constants, which come behind all others; each of them is an argument of an earlier one, so that
there are at most `bound` of them. -/
def accessorsFrom (cls : ClassFile) : Nat → Nat → Work (List (Method × List Field))
  | bound, index => do
      match (← get).entries[index]? with
      | none => return []
      | some (constant, access) =>
          match bound with
          | 0 => (fail (.lower .endlessSearch) : Except Error (List (Method × List Field)))
          | bound + 1 =>
              match access with
              | .null => accessorsFrom cls bound (index + 1)
              | .accessor name =>
                  let method ← accessorMethod cls name constant
                  let others ← accessorsFrom cls bound (index + 1)
                  return (method, fieldsOf name constant) :: others

mutual

/-- How many dynamic constants there are in a value. -/
def countIn : Loadable → Nat
  | .dynamic _ _ _ arguments => countInAll arguments + 1
  | _ => 0

/-- How many dynamic constants there are in values. -/
def countInAll : List Loadable → Nat
  | [] => 0
  | value :: rest => countIn value + countInAll rest

end

/-- A bound on the number of constants once all accessors are known. -/
def bound (entries : List (Dynamic × Access)) : Nat :=
  entries.foldl (fun total entry => total + countInAll entry.1.arguments + 1) 0

/-- The names of the constants that have an accessor. -/
def accessorNames (entries : List (Dynamic × Access)) : List String :=
  entries.filterMap fun entry =>
    match entry.2 with
    | .null => none
    | .accessor name => some name

/-- Creates the object to lock for a constant. -/
def createLock (cls : ClassName) (name : String) : List Instruction :=
  Fragment.construct ClassName.javaObject ++
    [.field .putStatic ⟨cls, lockName name, lockDescriptor⟩]

/-- Whether a method initializes its class. -/
def isInitializer (method : Method) : Bool :=
  method.name = MethodName.staticInitializer && method.descriptor = "()V"

/-- A method that initializes its class by doing nothing. -/
def emptyInitializer : Method :=
  Method.ofCode { isStatic := true } MethodName.staticInitializer "()V"
    { instructions := [Instruction.plain (.op .returnVoid)] }

/-- Lets a method start with some instructions. -/
def startWith (instructions : List Instruction) (method : Method) : Except Error Method := do
  let code ← orFail (.lower .initializerWithoutCode) method.code
  return { method with
    code := some { code with
      instructions := instructions.map Instruction.plain ++ code.instructions } }

/-- Lets the first method that initializes the class start with some instructions. -/
def startFirst (instructions : List Instruction) : List Method → Except Error (List Method)
  | [] => do return [← startWith instructions emptyInitializer]
  | method :: rest => do
      if isInitializer method then return (← startWith instructions method) :: rest
      else return method :: (← startFirst instructions rest)

/-- Lets the class create the objects to lock when it is initialized. -/
def addLocks (cls : ClassName) (names : List String) (methods : List Method) :
    Except Error (List Method) :=
  if names.isEmpty then .ok methods
  else startFirst (names.flatMap (createLock cls)) methods

/-- Refuses constants that would need fields in an interface, whose fields cannot be changed. -/
def checkInterface (cls : ClassFile) (entries : List (Dynamic × Access)) : Except Error Unit :=
  match entries.find? fun entry => entry.2 != .null with
  | some (constant, _) =>
      if cls.access.isInterface then
        fail (.lower (.constantInInterface constant.name cls.name))
      else .ok ()
  | none => .ok ()

/-- Puts accessors in place of the dynamic constants of a class. -/
def lower (cls : ClassFile) : Work Lowered := do
  let replaced ← cls.methods.mapM (replaceMethod cls)
  let methods := replaced.map Prod.fst
  let bouncers := replaced.flatMap Prod.snd
  if (← get).entries.isEmpty && bouncers.isEmpty then return Lowered.unchanged cls
  else
    (checkInterface cls (← get).entries : Except Error Unit)
    let bouncerMethods ← bouncers.mapM (bouncerMethod cls)
    let accessors ← accessorsFrom cls (bound (← get).entries) 0
    let methods ←
      (addLocks cls.name (accessorNames (← get).entries) methods : Except Error (List Method))
    return ⟨{ cls with
      fields := cls.fields ++ accessors.flatMap Prod.snd
      methods := methods ++ bouncerMethods ++ accessors.map Prod.fst }, true⟩

end Constants

namespace Lower

/-- Puts static fields, which are filled when first needed, in place of dynamic constants. -/
def dynamicConstants (cls : ClassFile) : Except Error Lowered := do
  return (← Constants.lower cls ⟨[], NameSupply.ofClass cls⟩).1

end Lower

end Downlevel
