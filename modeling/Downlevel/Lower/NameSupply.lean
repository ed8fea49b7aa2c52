import Std.Data.HashSet
import Downlevel.ClassFile

/-!
# Names for new members

New members need names that no member of the class has yet.  A name is a stem with a number behind
it, the smallest one that is free.  Members that belong together share a name up to what stands in
front of it, so a number is free only if all of them are.
-/

namespace Downlevel

/-- The names that are in use. -/
structure NameSupply where
  used : Std.HashSet String

namespace NameSupply

/-- The names that the members of a class have. -/
def ofClass (cls : ClassFile) : NameSupply :=
  ⟨Std.HashSet.ofList (cls.methods.map Method.name ++ cls.fields.map Field.name)⟩

variable (supply : NameSupply)

/-- A name, and the names of its companions. -/
def family (companions : List String) (name : String) : List String :=
  name :: companions.map fun companion => companion ++ name

/-- Whether neither a name nor a companion of it is in use. -/
def isFree (companions : List String) (name : String) : Bool :=
  (family companions name).all fun member => !supply.used.contains member

/-- The smallest number from `start` on whose name is free, looked for in `tries` numbers. -/
def freeNumber (stem : String) (companions : List String) : Nat → Nat → Nat
  | 0, start => start
  | tries + 1, start =>
      if supply.isFree companions (stem ++ toString start) then start
      else freeNumber stem companions tries (start + 1)

/-- The next name with a stem, and the names that are in use then.  As every name in use can take no
more than one number for each member of a family, a free number is found among the first few. -/
def next (stem : String) (companions : List String) : String × NameSupply :=
  let tries := supply.used.size * (companions.length + 1) + 1
  let name := stem ++ toString (supply.freeNumber stem companions tries 0)
  (name, ⟨supply.used.insertMany (family companions name)⟩)

end NameSupply

end Downlevel
