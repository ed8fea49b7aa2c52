import Downlevel.Lower.Lowered
import Downlevel.Lower.NameSupply

/-!
# Replacing dynamic call sites

A dynamic call whose bootstrap method is well known can be replaced by a call of a new static method
that does what the linked method would do.  The new method takes and returns what the call does.
-/

namespace Downlevel

namespace CallSites

/-- What was made while going through a class: the names in use and the new methods, the last one
first. -/
structure Progress where
  names : NameSupply
  added : List Method := []

/-- How to replace call sites: the class they are in, what the names of the new methods start with,
and the code that takes the place of a site, or nothing to leave the site alone. -/
structure Plan where
  cls : ClassFile
  basename : String
  generate : CallSite → Except Error (Option Code)

/-- Work on call sites. -/
abbrev Work := StateT Progress (Except Error)

variable (plan : Plan)

/-- Adds a method for a call site and gives the call of it. -/
def addMethod (site : CallSite) (body : Code) : Work Instruction := fun progress =>
  let stem := plan.basename ++ "$" ++ site.bootstrap.name ++ "$" ++ site.name ++ "$"
  let (name, names) := progress.names.next stem []
  let method := Method.ofCode plan.cls.addedMethodAccess name site.descriptor body
  .ok (.invokestatic ⟨plan.cls.name, name, site.descriptor⟩ plan.cls.access.isInterface,
    ⟨names, method :: progress.added⟩)

/-- Replaces an instruction of a method if it is a call site to replace. -/
def replaceInstruction (method : Method) (entry : Labelled) : Work Labelled := do
  match entry.instruction with
  | .invokedynamic site =>
      let place := LowerFault.atCallSite plan.cls.name method.name method.descriptor site.name
        site.descriptor
      match ← (within (.lower place) (plan.generate site) : Except Error (Option Code)) with
      | some body => return { entry with instruction := ← addMethod plan site body }
      | none => return entry
  | _ => return entry

/-- Replaces the call sites of a method. -/
def replaceMethod (method : Method) : Work Method := do
  match method.code with
  | some code =>
      let instructions ← code.instructions.mapM (replaceInstruction plan method)
      return { method with code := some { code with instructions := instructions } }
  | none => return method

end CallSites

namespace ClassFile

/-- Replaces dynamic call sites of a class by calls of new methods. -/
def replaceCallSites (cls : ClassFile) (basename : String)
    (generate : CallSite → Except Error (Option Code)) : Except Error Lowered := do
  let work := cls.methods.mapM (CallSites.replaceMethod ⟨cls, basename, generate⟩)
  let (methods, progress) ← work ⟨NameSupply.ofClass cls, []⟩
  return ⟨{ cls with methods := methods ++ progress.added.reverse }, !progress.added.isEmpty⟩

end ClassFile

end Downlevel
