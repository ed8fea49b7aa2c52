import Downlevel.ClassFile
import Downlevel.Cursor
import Downlevel.Pool.Entry

/-!
# The constant pool of a class file that is read

The pool is read into a table of entries.  Everything else in a class file refers to it by index:
the look-ups here follow those references to names, members, handles and values.  They check the
kind of every entry on the way and the spelling of every name.
-/

namespace Downlevel

namespace Pool

/-- The entries of a pool by index.  Nothing stands at index zero and behind each wide entry. -/
structure Table where
  entries : Array (Option Entry)

/-- A bootstrap method as a class file lists it: its arguments are indices of the pool, which can
lead to further bootstrap methods. -/
structure Bootstrap where
  handle : Handle
  arguments : List UInt16
  deriving DecidableEq

namespace Entry

open Parse in
/-- Reads the part of an entry behind its tag. -/
def readBody (tag : UInt8) : Parse Entry := do
  match tag with
  | 1 =>
      let length ← u16
      let bytes ← take length.toNat
      match JavaString.decode bytes with
      | .ok text => return .utf8 text
      | .error fault => Downlevel.within (.read .invalidText) (fail (.text fault))
  | 3 => return .int (← i32)
  | 4 => return .float (← u32)
  | 5 => return .long (← i64)
  | 6 => return .double (← i64).toUInt64
  | 7 => return .cls (← u16)
  | 8 => return .string (← u16)
  | 9 => return .field (← u16) (← u16)
  | 10 => return .method (← u16) (← u16)
  | 11 => return .interfaceMethod (← u16) (← u16)
  | 12 => return .nameAndType (← u16) (← u16)
  | 15 => return .handle (← u8) (← u16)
  | 16 => return .methodType (← u16)
  | 17 => return .dynamic (← u16) (← u16)
  | 18 => return .invokeDynamic (← u16) (← u16)
  | 19 => return .module (← u16)
  | 20 => return .package (← u16)
  | _ => refuse (.unknownTag tag)

/-- Reads an entry, which has the given index. -/
def read (index : Nat) : Parse Entry := do
  let tag ← Parse.u8
  (readBody tag).within (.poolEntry index)

end Entry

namespace Table

/-- Reads entries for the given number of indices behind those already read.  `count` is the number
of all indices. -/
def readEntries (count : UInt16) :
    Nat → Array (Option Entry) → Parse (Array (Option Entry))
  | 0, entries => pure entries
  | 1, entries => do
      let item ← Entry.read entries.size
      if item.isWide then Parse.refuse (.poolOverrun count) else pure (entries.push (some item))
  | n + 2, entries => do
      let item ← Entry.read entries.size
      if item.isWide then readEntries count n ((entries.push (some item)).push none)
      else readEntries count (n + 1) (entries.push (some item))

/-- Reads a pool. -/
def read : Parse Table := do
  let count ← Parse.u16
  if count = 0 then Parse.refuse .emptyPool
  else return ⟨← readEntries count (count.toNat - 1) #[none]⟩

variable (table : Table)

/-- The entry at an index. -/
def get (index : UInt16) : Except Error Entry :=
  match table.entries[index.toNat]? with
  | some (some item) => .ok item
  | _ => fail (.read (.unusableIndex index))

/-- What an index that may be zero leads to. -/
def optional {α : Type} (index : UInt16) (look : UInt16 → Except Error α) :
    Except Error (Option α) :=
  if index = 0 then .ok none else some <$> look index

/-- The string at an index. -/
def javaString (index : UInt16) : Except Error JavaString := do
  match ← table.get index with
  | .utf8 text => return text
  | _ => fail (.read (.unexpectedEntry "utf8" index))

/-- The text at an index, in which no surrogate may stand alone. -/
def utf8 (index : UInt16) : Except Error String := do
  let text ← table.javaString index
  orFail (.read (.unpairedSurrogates index)) text.toString?

/-- The name of the given kind at an index. -/
def named (kind : NameKind) (index : UInt16) : Except Error String := do
  Name.checked kind (← table.utf8 index)

/-- The class at an index. -/
def cls (index : UInt16) : Except Error ClassName := do
  match ← table.get index with
  | .cls name => table.named .className name
  | _ => fail (.read (.unexpectedEntry "class" index))

/-- The texts of the name and the descriptor at an index. -/
def nameAndType (index : UInt16) : Except Error (String × String) := do
  match ← table.get index with
  | .nameAndType name descriptor => return (← table.utf8 name, ← table.utf8 descriptor)
  | _ => fail (.read (.unexpectedEntry "name and type" index))

/-- The name and the descriptor of a method at an index. -/
def methodId (index : UInt16) : Except Error MethodId := do
  let (name, descriptor) ← table.nameAndType index
  return ⟨← Name.checked .methodName name, ← Name.checked .methodDescriptor descriptor⟩

/-- The field at an index. -/
def fieldRef (index : UInt16) : Except Error FieldRef := do
  match ← table.get index with
  | .field owner member =>
      let (name, descriptor) ← table.nameAndType member
      let owner ← table.cls owner
      return ⟨owner, ← Name.checked .fieldName name, ← Name.checked .fieldDescriptor descriptor⟩
  | _ => fail (.read (.unexpectedEntry "field ref" index))

/-- The method of a class whose parts are at two indices. -/
def memberMethod (owner member : UInt16) : Except Error MethodRef := do
  let id ← table.methodId member
  return ⟨← table.cls owner, id.name, id.descriptor⟩

/-- The method at an index, which is not on an interface. -/
def methodRef (index : UInt16) : Except Error MethodRef := do
  match ← table.get index with
  | .method owner member => table.memberMethod owner member
  | _ => fail (.read (.unexpectedEntry "method ref" index))

/-- The method at an index, which is on an interface. -/
def interfaceMethodRef (index : UInt16) : Except Error MethodRef := do
  match ← table.get index with
  | .interfaceMethod owner member => table.memberMethod owner member
  | _ => fail (.read (.unexpectedEntry "interface method ref" index))

/-- The method at an index, and whether it is on an interface. -/
def anyMethodRef (index : UInt16) : Except Error (MethodRef × Bool) := do
  match ← table.get index with
  | .method owner member => return (← table.memberMethod owner member, false)
  | .interfaceMethod owner member => return (← table.memberMethod owner member, true)
  | _ => fail (.read (.unexpectedEntry "method ref or interface method ref" index))

/-- The handle at an index. -/
def handle (index : UInt16) : Except Error Handle := do
  match ← table.get index with
  | .handle kind target =>
      match kind with
      | 1 => return .field .getField (← table.fieldRef target)
      | 2 => return .field .getStatic (← table.fieldRef target)
      | 3 => return .field .putField (← table.fieldRef target)
      | 4 => return .field .putStatic (← table.fieldRef target)
      | 5 => return .method .virtual (← table.methodRef target)
      | 6 =>
          let (method, onInterface) ← table.anyMethodRef target
          return .method (.static onInterface) method
      | 7 =>
          let (method, onInterface) ← table.anyMethodRef target
          return .method (.special onInterface) method
      | 8 => return .method .newSpecial (← table.methodRef target)
      | 9 => return .method .interface (← table.interfaceMethodRef target)
      | _ => fail (.read (.unknownHandleKind kind))
  | _ => fail (.read (.unexpectedEntry "method handle" index))

/-- The module at an index. -/
def module (index : UInt16) : Except Error ModuleName := do
  match ← table.get index with
  | .module name => table.utf8 name
  | _ => fail (.read (.unexpectedEntry "module" index))

/-- The package at an index. -/
def package (index : UInt16) : Except Error PackageName := do
  match ← table.get index with
  | .package name => table.utf8 name
  | _ => fail (.read (.unexpectedEntry "package" index))

/-- The int at an index. -/
def int (index : UInt16) : Except Error Int32 := do
  match ← table.get index with
  | .int value => return value
  | _ => fail (.read (.unexpectedEntry "integer" index))

/-- The int at an index, which lies between two bounds, as the type called `wanted` has them. -/
def intBetween (low high : Int) (wanted : String) (index : UInt16) : Except Error Int32 := do
  let value ← table.int index
  if low ≤ value.toInt && value.toInt ≤ high then return value
  else fail (.read (.integerTooWide value index wanted))

/-- The byte at an index. -/
def byte (index : UInt16) : Except Error Int8 := do
  return (← table.intBetween (-128) 127 "byte" index).toInt8

/-- The character at an index. -/
def char (index : UInt16) : Except Error UInt16 := do
  return (← table.intBetween 0 65535 "char" index).toUInt32.toUInt16

/-- The short at an index. -/
def short (index : UInt16) : Except Error Int16 := do
  return (← table.intBetween (-32768) 32767 "short" index).toInt16

/-- The truth value at an index. -/
def boolean (index : UInt16) : Except Error Bool := do
  let value ← table.int index
  if value = 0 then return false
  else if value = 1 then return true
  else fail (.read (.notBoolean value index))

/-- The long at an index. -/
def long (index : UInt16) : Except Error Int64 := do
  match ← table.get index with
  | .long value => return value
  | _ => fail (.read (.unexpectedEntry "long" index))

/-- The bits of the float at an index. -/
def float (index : UInt16) : Except Error UInt32 := do
  match ← table.get index with
  | .float bits => return bits
  | _ => fail (.read (.unexpectedEntry "float" index))

/-- The bits of the double at an index. -/
def double (index : UInt16) : Except Error UInt64 := do
  match ← table.get index with
  | .double bits => return bits
  | _ => fail (.read (.unexpectedEntry "double" index))

/-- The initial value of a field at an index. -/
def constantValue (index : UInt16) : Except Error ConstantValue := do
  match ← table.get index with
  | .int value => return .int value
  | .float bits => return .float bits
  | .long value => return .long value
  | .double bits => return .double bits
  | .string text => return .string (← table.javaString text)
  | _ => fail (.read (.unexpectedEntry "constant value" index))

/-- How deep dynamic constants may be nested. -/
def nestingLimit : Nat := 64

/-- The value at an index, where `dynamic` makes dynamic constants of their bootstrap method and
their name. -/
def loadableWith (dynamic : UInt16 → UInt16 → Except Error Loadable) (index : UInt16) :
    Except Error Loadable := do
  match ← table.get index with
  | .int value => return .int value
  | .float bits => return .float bits
  | .long value => return .long value
  | .double bits => return .double bits
  | .cls _ => return .cls (← table.cls index)
  | .string text => return .string (← table.javaString text)
  | .handle _ _ => return .handle (← table.handle index)
  | .methodType descriptor => return .methodType (← table.named .methodDescriptor descriptor)
  | .dynamic bootstrap member => dynamic bootstrap member
  | _ => fail (.read (.unexpectedEntry "loadable constant" index))

/-- The handle and the arguments of a bootstrap method, where `look` gives the arguments. -/
def bootstrapWith (bootstraps : Array Bootstrap) (look : UInt16 → Except Error Loadable)
    (index : UInt16) : Except Error (Handle × List Loadable) := do
  match bootstraps[index.toNat]? with
  | some bootstrap => return (bootstrap.handle, ← bootstrap.arguments.mapM look)
  | none => fail (.read (.noBootstrapMethod index bootstraps.size))

/-- The value at an index, in which dynamic constants are nested at most `depth` deep. -/
def loadableWithin (bootstraps : Array Bootstrap) : Nat → UInt16 → Except Error Loadable
  | 0, index =>
      table.loadableWith (fun _ _ => fail (.read (.nestedTooDeep nestingLimit index))) index
  | depth + 1, index =>
      table.loadableWith
        (fun bootstrap member => do
          let (name, descriptor) ← table.nameAndType member
          let (handle, arguments) ←
            bootstrapWith bootstraps (loadableWithin bootstraps depth) bootstrap
          let name ← Name.checked .fieldName name
          let descriptor ← Name.checked .fieldDescriptor descriptor
          return .dynamic name descriptor handle arguments)
        index

/-- The value at an index. -/
def loadable (bootstraps : Array Bootstrap) (index : UInt16) : Except Error Loadable :=
  table.loadableWithin bootstraps nestingLimit index

/-- The dynamic call site at an index. -/
def callSite (bootstraps : Array Bootstrap) (index : UInt16) : Except Error CallSite := do
  match ← table.get index with
  | .invokeDynamic bootstrap member =>
      let id ← table.methodId member
      let (handle, arguments) ←
        bootstrapWith bootstraps (table.loadable bootstraps) bootstrap
      return ⟨id.name, id.descriptor, handle, arguments⟩
  | _ => fail (.read (.unexpectedEntry "invoke dynamic" index))

end Table

end Pool

end Downlevel
