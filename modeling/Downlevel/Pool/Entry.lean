import Downlevel.Text.JavaString

/-!
# Entries of a constant pool

The pool of a class file holds its texts, numbers and references.  Entries refer to other entries by
their index, from one on.  Longs and doubles take two indices, the second of which is unused.
-/

namespace Downlevel

namespace Pool

/-- An entry of a constant pool. -/
inductive Entry where
  | utf8 (text : JavaString)
  | int (value : Int32)
  | float (bits : UInt32)
  | long (value : Int64)
  | double (bits : UInt64)
  | cls (name : UInt16)
  | string (text : UInt16)
  | field (owner nameAndType : UInt16)
  | method (owner nameAndType : UInt16)
  | interfaceMethod (owner nameAndType : UInt16)
  | nameAndType (name descriptor : UInt16)
  | handle (kind : UInt8) (target : UInt16)
  | methodType (descriptor : UInt16)
  | dynamic (bootstrap nameAndType : UInt16)
  | invokeDynamic (bootstrap nameAndType : UInt16)
  | module (name : UInt16)
  | package (name : UInt16)
  deriving DecidableEq, Hashable

namespace Entry

/-- Whether an entry takes two indices. -/
def isWide : Entry → Bool
  | long _ => true
  | double _ => true
  | _ => false

/-- How many indices an entry takes. -/
def width (item : Entry) : Nat :=
  if item.isWide then 2 else 1

/-- The number that tells the kinds of entries apart. -/
def tag : Entry → UInt8
  | utf8 _ => 1
  | int _ => 3
  | float _ => 4
  | long _ => 5
  | double _ => 6
  | cls _ => 7
  | string _ => 8
  | field _ _ => 9
  | method _ _ => 10
  | interfaceMethod _ _ => 11
  | nameAndType _ _ => 12
  | handle _ _ => 15
  | methodType _ => 16
  | dynamic _ _ => 17
  | invokeDynamic _ _ => 18
  | module _ => 19
  | package _ => 20

end Entry

end Pool

end Downlevel
