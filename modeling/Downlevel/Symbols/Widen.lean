import Downlevel.Symbols.Table

/-!
# Calls of methods that moved

A class may call a method on a class that declares it only in newer releases, while in an older one
it inherits the method from a class or interface above.  Such a call is widened: it names the class
that declares the method in the older release.  Where the ways up from a class come to several such
classes, that is reported, and nothing is found from this class on.
-/

namespace Downlevel

/-- The class that a call goes to. -/
structure CallTarget where
  owner : ClassName
  isInterface : Bool
  deriving DecidableEq

namespace CallTarget

/-- Whether a target comes before another one: by name, and classes before interfaces. -/
def isBefore (a b : CallTarget) : Bool :=
  a.owner < b.owner || (a.owner = b.owner && !a.isInterface && b.isInterface)

/-- Puts a target into a sorted list, unless it is there. -/
def insert (target : CallTarget) : List CallTarget → List CallTarget
  | [] => [target]
  | first :: rest =>
      if target = first then first :: rest
      else if target.isBefore first then target :: first :: rest
      else first :: insert target rest

end CallTarget

/-- A call whose owner is looked for.  Reports name the class it is in and its context. -/
structure CallQuery where
  cls : ClassName
  context : String
  name : MethodName
  descriptor : MethodDescriptor

namespace SymbolTable

variable (table : SymbolTable) (query : CallQuery)

mutual

/-- The class that declares a method, found in a class or above it, no more than `depth` steps
up. -/
def findDeclaring : Nat → ClassName → Task Session (Option CallTarget)
  | 0, _ => fail (.lower .endlessSearch)
  | depth + 1, owner => do
      match ← (table.catalog.resolve owner : Except Error (Option ClassOutline)) with
      | none => return none
      | some outline =>
          if outline.hasOpenMethod query.name query.descriptor then
            return some ⟨owner, outline.isInterface⟩
          else
            match ← findAllDeclaring depth [] outline.parents with
            | [] => return none
            | [target] => return some target
            | targets =>
                Task.report query.cls (.ambiguousCall query.context owner query.name
                  query.descriptor (targets.map CallTarget.owner))
                return none
termination_by depth => (depth, 0)

/-- The classes that declare a method, found in or above each of some classes, and those found
before, in order and each once. -/
def findAllDeclaring (depth : Nat) (found : List CallTarget) :
    List ClassName → Task Session (List CallTarget)
  | [] => return found
  | parent :: rest => do
      match ← findDeclaring depth parent with
      | some target => findAllDeclaring depth (target.insert found) rest
      | none => findAllDeclaring depth found rest
termination_by parents => (depth, parents.length + 1)

end

/-- The class that a call on `owner` should go to, if the release has one and it can be told. -/
def widenCall (owner : ClassName) : Task Session (Option CallTarget) := do
  if table.inventory.contains owner then
    table.findDeclaring query (table.catalog.size + 1) owner
  else return none

/-- The method that a call should go to, with whether it is in an interface. -/
def widenTarget (cls : ClassName) (context : String) (target : MethodRef) :
    Task Session (Option (MethodRef × Bool)) :=
  Task.within (.lower (.ownerOf context target.owner target.name target.descriptor)) do
    match ← table.widenCall ⟨cls, context, target.name, target.descriptor⟩ target.owner with
    | some found => return some ({ target with owner := found.owner }, found.isInterface)
    | none => return none

/-- The call of a method of a class or of an interface. -/
def callOf : MethodRef × Bool → Instruction
  | (target, true) => .invokeinterface target
  | (target, false) => .invokevirtual target

/-- The handle on a method of a class or of an interface. -/
def handleOf : MethodRef × Bool → Handle
  | (target, true) => .method .interface target
  | (target, false) => .method .virtual target

/-- Widens the call that an instruction does, or that its bootstrap method is. -/
def widenInstruction (cls : ClassName) (context : String) (instruction : Instruction) :
    Task Session Instruction := do
  match instruction with
  | .invokevirtual target | .invokeinterface target =>
      return ((← table.widenTarget cls context target).map callOf).getD instruction
  | .invokedynamic site =>
      match site.bootstrap with
      | .method .virtual target | .method .interface target =>
          match ← table.widenTarget cls context target with
          | some found => return .invokedynamic { site with bootstrap := handleOf found }
          | none => return instruction
      | _ => return instruction
  | _ => return instruction

/-- Widens the calls in a method. -/
def widenMethod (cls : ClassName) (method : Method) : Task Session Method := do
  match method.code with
  | none => return method
  | some code =>
      let context := cls ++ "." ++ method.name ++ method.descriptor
      let instructions ← code.instructions.mapM fun entry => do
        return { entry with instruction := ← table.widenInstruction cls context entry.instruction }
      return { method with code := some { code with instructions := instructions } }

/-- Widens the calls in a class. -/
def widenCalls (cls : ClassFile) : Task Session ClassFile :=
  Task.within (.lower (.wideningIn cls.name)) do
    return { cls with methods := ← cls.methods.mapM (table.widenMethod cls.name) }

end SymbolTable

end Downlevel
