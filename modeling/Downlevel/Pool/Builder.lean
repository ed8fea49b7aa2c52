import Std.Data.HashMap
import Downlevel.ClassFile
import Downlevel.Error
import Downlevel.Pool.Entry

/-!
# The constant pool of a class file that is written

The pool grows while the rest of the class is written: whatever is put into it gets an index, and
what is put a second time keeps the index it has.  Entries are written in the order in which they
were first put.  The bootstrap methods are collected in the same way.
-/

namespace Downlevel

namespace Pool

/-- A bootstrap method with everything in it put into the pool. -/
structure PlacedBootstrap where
  handle : UInt16
  arguments : List UInt16
  deriving DecidableEq, Hashable

/-- A pool that is being filled. -/
structure Builder where
  /-- The next free index. -/
  count : Nat := 1
  /-- The entries in the order in which they were put. -/
  entries : Array Entry := #[]
  /-- The index of each entry. -/
  index : Std.HashMap Entry UInt16 := ∅
  /-- The bootstrap methods in the order in which they were put. -/
  bootstraps : Array PlacedBootstrap := #[]
  /-- The index of each bootstrap method. -/
  bootstrapIndex : Std.HashMap PlacedBootstrap Nat := ∅

end Pool

/-- Work that fills a pool. -/
abbrev PoolM := StateT Pool.Builder (Except Error)

namespace PoolM

open Pool

/-- Fails with a fault of writing. -/
def refuse {α : Type} (fault : WriteFault) : PoolM α :=
  fun _ => fail (.write fault)

/-- Work seen from a place around it. -/
def within {α : Type} (fault : WriteFault) (work : PoolM α) : PoolM α :=
  fun pool => Downlevel.within (.write fault) (work pool)

/-- Puts an entry and gives its index. -/
def put (item : Entry) : PoolM UInt16 :=
  fun pool =>
    match pool.index[item]? with
    | some index => .ok (index, pool)
    | none =>
        if pool.count + item.width < 65536 then
          let index := pool.count.toUInt16
          .ok (index, { pool with
            count := pool.count + item.width
            entries := pool.entries.push item
            index := pool.index.insert item index })
        else fail (.write .poolOverflow)

/-- Puts what an option holds; for nothing the index is zero. -/
def optional {α : Type} (value : Option α) (work : α → PoolM UInt16) : PoolM UInt16 :=
  match value with
  | some value => work value
  | none => pure 0

/-- Puts a string as text. -/
def javaUtf8 (value : JavaString) : PoolM UInt16 :=
  put (.utf8 value)

/-- Puts a text. -/
def utf8 (value : String) : PoolM UInt16 :=
  javaUtf8 (JavaString.ofString value)

/-- Puts a class. -/
def cls (name : ClassName) : PoolM UInt16 := do
  put (.cls (← utf8 name))

/-- Puts a package. -/
def package (name : PackageName) : PoolM UInt16 := do
  put (.package (← utf8 name))

/-- Puts a module. -/
def module (name : ModuleName) : PoolM UInt16 := do
  put (.module (← utf8 name))

/-- Puts the name and the descriptor of a member. -/
def nameAndType (name descriptor : String) : PoolM UInt16 := do
  let name ← utf8 name
  let descriptor ← utf8 descriptor
  put (.nameAndType name descriptor)

/-- Puts a field. -/
def fieldRef (field : FieldRef) : PoolM UInt16 := do
  let owner ← cls field.owner
  let member ← nameAndType field.name field.descriptor
  put (.field owner member)

/-- Puts a method, which may be on an interface. -/
def methodRef (method : MethodRef) (onInterface : Bool) : PoolM UInt16 := do
  let owner ← cls method.owner
  let member ← nameAndType method.name method.descriptor
  put (if onInterface then .interfaceMethod owner member else .method owner member)

/-- Puts a string constant. -/
def string (value : JavaString) : PoolM UInt16 := do
  put (.string (← javaUtf8 value))

/-- Puts a handle. -/
def handle (value : Handle) : PoolM UInt16 := do
  let target ←
    match value with
    | .field _ field => fieldRef field
    | .method _ method => methodRef method value.onInterface
  put (.handle value.kind target)

/-- Puts a bootstrap method and gives its index among them. -/
def bootstrap (method : PlacedBootstrap) : PoolM UInt16 :=
  fun pool =>
    match pool.bootstrapIndex[method]? with
    | some index => .ok (index.toUInt16, pool)
    | none =>
        let index := pool.bootstraps.size
        if index < 65536 then
          .ok (index.toUInt16, { pool with
            bootstraps := pool.bootstraps.push method
            bootstrapIndex := pool.bootstrapIndex.insert method index })
        else fail (.write .bootstrapOverflow)

mutual

/-- Puts a value that can be loaded. -/
def loadable : Loadable → PoolM UInt16
  | .int value => put (.int value)
  | .float bits => put (.float bits)
  | .long value => put (.long value)
  | .double bits => put (.double bits)
  | .cls name => cls name
  | .string value => string value
  | .handle value => handle value
  | .methodType descriptor => do put (.methodType (← utf8 descriptor))
  | .dynamic name descriptor method arguments => do
      let member ← nameAndType name descriptor
      let method ← handle method
      let arguments ← loadables arguments
      let index ← bootstrap ⟨method, arguments⟩
      put (.dynamic index member)

/-- Puts values that can be loaded, one after the other. -/
def loadables : List Loadable → PoolM (List UInt16)
  | [] => pure []
  | value :: rest => do
      let index ← loadable value
      return index :: (← loadables rest)

end

/-- Puts a dynamic call site. -/
def callSite (site : CallSite) : PoolM UInt16 := do
  let member ← nameAndType site.name site.descriptor
  let method ← handle site.bootstrap
  let arguments ← loadables site.arguments
  let index ← bootstrap ⟨method, arguments⟩
  put (.invokeDynamic index member)

/-- Puts the initial value of a field. -/
def constantValue : ConstantValue → PoolM UInt16
  | .int value => put (.int value)
  | .float bits => put (.float bits)
  | .long value => put (.long value)
  | .double bits => put (.double bits)
  | .string value => string value

end PoolM

end Downlevel
