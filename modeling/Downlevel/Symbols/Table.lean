import Downlevel.Hierarchy
import Downlevel.Release

/-!
# The symbols of a release

A symbol table knows the classes of a release, from a catalog, and the names of all classes that
some newer release has.  Something is missing if the newer release has it and the older one does
not; about classes that neither has nothing can be said.  Members are looked for in a class and in
everything above it.
-/

namespace Downlevel

/-- The classes of a release, and the names of the classes that are known at all. -/
structure SymbolTable where
  release : Release
  inventory : Std.HashSet ClassName
  catalog : Lookup

namespace SymbolTable

variable (table : SymbolTable)

/-- Whether a class that is no array is missing. -/
def isMissingPlain (name : ClassName) : Except Error Bool := do
  if table.inventory.contains name then return (← table.catalog.resolve name).isNone
  else return false

/-- Whether the first of some classes, or one behind it, is missing.  Arrays are none of them. -/
def anyMissing : List ClassName → Except Error Bool
  | [] => .ok false
  | name :: rest => do
      if name.isArray then anyMissing rest
      else if ← table.isMissingPlain name then return true
      else anyMissing rest

/-- Whether a class is missing.  Of an array that is the case if a class in its name is. -/
def isMissingClass (name : ClassName) : Except Error Bool :=
  if name.isArray then table.anyMissing (classNamesIn name) else table.isMissingPlain name

/-- Whether one of the classes that are to be visited, or one above them, declares a member.  Every
class is visited once; as all of them are in the catalog, `fuel` bounds their number. -/
def isDeclared (declares : ClassOutline → Bool) (fuel : Nat) (visited : Std.HashSet ClassName)
    (toVisit : List ClassName) : Except Error Bool :=
  match toVisit with
  | [] => .ok false
  | name :: rest =>
      if visited.contains name then isDeclared declares fuel visited rest
      else do
        match ← table.catalog.resolve name with
        | none => isDeclared declares fuel (visited.insert name) rest
        | some outline =>
            if declares outline then return true
            else
              match fuel with
              | 0 => fail (.lower .endlessSearch)
              | fuel + 1 =>
                  isDeclared declares fuel (visited.insert name) (outline.parents.reverse ++ rest)
termination_by (fuel, toVisit.length)

/-- Whether a member of a class is missing. -/
def isMissingMember (owner : ClassName) (declares : ClassOutline → Bool) : Except Error Bool := do
  if table.inventory.contains owner then
    return !(← table.isDeclared declares table.catalog.size ∅ [owner])
  else return false

/-- Whether a field is missing. -/
def isMissingField (target : FieldRef) : Except Error Bool :=
  table.isMissingMember target.owner fun outline =>
    outline.hasField target.name target.descriptor

/-- Whether a method is missing.  The methods of arrays are those of the root of all classes. -/
def isMissingMethod (target : MethodRef) : Except Error Bool :=
  if target.owner.isArray then .ok false
  else
    table.isMissingMember target.owner fun outline =>
      outline.hasMethod target.name target.descriptor

end SymbolTable

end Downlevel
