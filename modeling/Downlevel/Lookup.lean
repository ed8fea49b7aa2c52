import Downlevel.Decode.Class

/-!
# Looking up classes

What other classes need to know of a class is its outline: its super class, its interfaces and the
members it declares.  Outlines come from tables; a lookup asks several tables in order.  A table may
have an entry that cannot be read, which is noticed only when the class is asked for.
-/

namespace Downlevel

/-- A method as others see it. -/
structure MethodOutline where
  name : MethodName
  descriptor : MethodDescriptor
  isPrivate : Bool
  deriving DecidableEq

/-- A class as others see it. -/
structure ClassOutline where
  name : ClassName
  superClass : Option ClassName := none
  interfaces : List ClassName := []
  isInterface : Bool := false
  /-- The names and descriptors of the fields, each once. -/
  fields : List (FieldName × FieldDescriptor) := []
  methods : List MethodOutline := []
  deriving DecidableEq

namespace ClassOutline

/-- Whether a class declares a field. -/
def hasField (cls : ClassOutline) (name : FieldName) (descriptor : FieldDescriptor) : Bool :=
  cls.fields.any fun field => field.1 = name && field.2 = descriptor

/-- Whether a class declares a method. -/
def hasMethod (cls : ClassOutline) (name : MethodName) (descriptor : MethodDescriptor) : Bool :=
  cls.methods.any fun method => method.name = name && method.descriptor = descriptor

/-- Whether a class declares a method that calls from other classes can reach. -/
def hasOpenMethod (cls : ClassOutline) (name : MethodName) (descriptor : MethodDescriptor) : Bool :=
  cls.methods.any fun method =>
    !method.isPrivate && method.name = name && method.descriptor = descriptor

/-- The direct ancestors of a class: its super class and then its interfaces. -/
def parents (cls : ClassOutline) : List ClassName :=
  cls.superClass.toList ++ cls.interfaces

end ClassOutline

namespace ClassFile

/-- The outline of a class. -/
def outline (cls : ClassFile) : ClassOutline where
  name := cls.name
  superClass := cls.superClass
  interfaces := cls.interfaces
  isInterface := cls.access.isInterface
  fields := (cls.fields.map fun field => (field.name, field.descriptor)).eraseDups
  methods := cls.methods.map fun method =>
    ⟨method.name, method.descriptor, method.access.isPrivate⟩

end ClassFile

namespace ClassOutline

/-- The outline of the class in a class file. -/
def ofBytes (bytes : Bytes) : Except Error ClassOutline := do
  return (← ClassFile.ofBytes bytes).outline

end ClassOutline

/-- Outlines by name.  An entry is looked at when it is first asked for. -/
abbrev OutlineTable := Std.HashMap ClassName (Thunk (Except Error ClassOutline))

namespace OutlineTable

/-- A table of outlines.  Of two with the same name the later one counts. -/
def ofOutlines (outlines : List ClassOutline) : OutlineTable :=
  outlines.foldl (fun table cls => table.insert cls.name (Thunk.pure (.ok cls))) ∅

end OutlineTable

/-- Tables that are asked in order. -/
structure Lookup where
  tables : List OutlineTable
  deriving Inhabited

namespace Lookup

/-- The outline of a class in the first of some tables that has one. -/
def resolveIn (name : ClassName) : List OutlineTable → Except Error (Option ClassOutline)
  | [] => .ok none
  | table :: rest =>
      match table[name]? with
      | some entry => entry.get.map some
      | none => resolveIn name rest

/-- The outline of a class, or nothing if no table has one. -/
def resolve (lookup : Lookup) (name : ClassName) : Except Error (Option ClassOutline) :=
  resolveIn name lookup.tables

/-- A bound on the number of classes that can be found. -/
def size (lookup : Lookup) : Nat :=
  lookup.tables.foldl (fun total table => total + table.size) 0

/-- A lookup in a table of outlines. -/
def ofOutlines (outlines : List ClassOutline) : Lookup :=
  ⟨[OutlineTable.ofOutlines outlines]⟩

end Lookup

end Downlevel
