import Downlevel.Symbols.Reference
import Downlevel.Symbols.Table

/-!
# Checking a class against a release

A class can be used with a release if none of the symbols it refers to is missing there.  Every one
that is missing is reported.
-/

namespace Downlevel

namespace SymbolTable

variable (table : SymbolTable)

/-- Whether a type has a class that is missing. -/
def isMissingType (descriptor : FieldDescriptor) : Except Error Bool :=
  match descriptor.toList with
  | 'L' :: rest =>
      if rest.getLast? = some ';' then table.isMissingClass (String.ofList rest.dropLast)
      else .ok false
  | '[' :: _ => table.isMissingClass descriptor
  | _ => .ok false

/-- Whether the first of some classes, or one behind it, is missing. -/
def anyMissingClass : List ClassName → Except Error Bool
  | [] => .ok false
  | name :: rest => do
      if ← table.isMissingClass name then return true else anyMissingClass rest

/-- Whether a symbol is missing. -/
def isMissing : Reference → Except Error Bool
  | .cls name => table.isMissingClass name
  | .type descriptor => table.isMissingType descriptor
  | .classesIn descriptor => table.anyMissingClass (classNamesIn descriptor)
  | .field target => table.isMissingField target
  | .method target => table.isMissingMethod target

/-- What to report if a symbol is missing. -/
def findingOf : Reference → Finding
  | .cls name => .missingClass table.release.text name
  | .type descriptor => .missingType table.release.text descriptor
  | .classesIn descriptor => .missingDescriptor table.release.text descriptor
  | .field target =>
      .missingField table.release.text target.owner target.name target.descriptor
  | .method target =>
      .missingMethod table.release.text target.owner target.name target.descriptor

/-- Looks at a symbol and reports it if it is missing.  The result tells whether it is. -/
def look (cls : ClassName) (reference : Reference) : Task Session Bool := do
  if ← (table.isMissing reference : Except Error Bool) then
    Task.report cls (table.findingOf reference)
    return true
  else return false

mutual

/-- Runs a check.  The result tells whether something was reported. -/
def runCheck (cls : ClassName) : Check → Task Session Bool
  | .single reference => table.look cls reference
  | .guarded first rest => do
      if ← table.look cls first then return true else runChecks cls false rest
  | .upToFirst checks => runUpToFirst cls checks
  | .inMethod name descriptor check =>
      Task.within (.lower (.inMethod name descriptor)) (runCheck cls check)

/-- Runs checks one after the other.  The result tells whether something was reported, or had been
before. -/
def runChecks (cls : ClassName) (reported : Bool) : List Check → Task Session Bool
  | [] => return reported
  | check :: rest => do
      let found ← runCheck cls check
      runChecks cls (reported || found) rest

/-- Runs checks up to the first that reports something. -/
def runUpToFirst (cls : ClassName) : List Check → Task Session Bool
  | [] => return false
  | check :: rest => do
      if ← runCheck cls check then return true else runUpToFirst cls rest

end

/-- Checks all symbols that a class refers to.  The result tells whether none is missing. -/
def check (cls : ClassFile) : Task Session Bool :=
  Task.within (.lower (.checking cls.name table.release.text)) do
    return !(← table.runChecks cls.name false cls.checks)

end SymbolTable

end Downlevel
