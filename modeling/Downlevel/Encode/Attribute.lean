import Downlevel.Pool.Builder

/-!
# Writing attributes

An attribute is written as the index of its name, its length, and its contents.  The name of an
attribute with a length known beforehand is put into the pool before its contents, and that of any
other attribute behind them.
-/

namespace Downlevel

namespace Encode

/-- A count as an 8-bit number, where `fault` tells what is counted. -/
def count8 (fault : WriteFault) (n : Nat) : Except Error Bytes :=
  if n < 256 then .ok [n.toUInt8] else .error ⟨[.write fault, .write (.tooLarge n "u8")]⟩

/-- A count as a 16-bit number, where `fault` tells what is counted. -/
def count16 (fault : WriteFault) (n : Nat) : Except Error Bytes :=
  if n < 65536 then .ok (Bytes.ofU16 n.toUInt16)
  else .error ⟨[.write fault, .write (.tooLarge n "u16")]⟩

/-- A count as a 32-bit number, where `fault` tells what is counted. -/
def count32 (fault : WriteFault) (n : Nat) : Except Error Bytes :=
  if n < 4294967296 then .ok (Bytes.ofU32 n.toUInt32)
  else .error ⟨[.write fault, .write (.tooLarge n "u32")]⟩

/-- Writes what has an index in the pool. -/
def indexed (work : PoolM UInt16) : PoolM Bytes := do
  return Bytes.ofU16 (← work)

/-- Writes items one after the other. -/
def each {α : Type} (items : List α) (item : α → PoolM Bytes) : PoolM Bytes := do
  return (← items.mapM item).flatten

/-- Writes a list with its length in front, as a 16-bit number.  Messages call the items `what`. -/
def listOf {α : Type} (what : String) (items : List α) (item : α → PoolM Bytes) :
    PoolM Bytes := do
  let count ← count16 (.tooMany what) items.length
  return count ++ (← each items item)

/-- An attribute whose length follows from its contents. -/
def sized (name : String) (contents : PoolM Bytes) : PoolM Bytes := do
  let bytes ← contents
  let name' ← indexed (PoolM.utf8 name)
  let length ← count32 (.attributeTooLarge name) bytes.length
  return name' ++ length ++ bytes

/-- An attribute whose length is known beforehand. -/
def fixed (name : String) (length : Nat) (contents : PoolM Bytes) : PoolM Bytes := do
  let name' ← indexed (PoolM.utf8 name)
  let length ← count32 (.attributeTooLarge name) length
  return name' ++ length ++ (← contents)

/-- An attribute without contents. -/
def marker (name : String) : PoolM Bytes :=
  fixed name 0 (pure [])

/-- An attribute that consists of one index. -/
def single (name : String) (work : PoolM UInt16) : PoolM Bytes :=
  fixed name 2 (indexed work)

/-- An attribute that lists classes. -/
def classList (name : String) (classes : List ClassName) : PoolM Bytes :=
  fixed name (2 + 2 * classes.length) <|
    listOf ("classes in " ++ Quoted.text name ++ " attribute") classes fun c =>
      indexed (PoolM.cls c)

/-- An attribute that is kept as it is. -/
def raw (kept : RawAttribute) : PoolM Bytes := do
  let name ← indexed (PoolM.utf8 kept.name)
  let length ← count32 (.unknownAttributeTooLarge kept.name) kept.bytes.length
  return name ++ length ++ kept.bytes

/-- Attributes that are there or not. -/
abbrev Attributes := List (Option (PoolM Bytes))

/-- An attribute that is there if a condition holds. -/
def given (condition : Bool) (attribute' : PoolM Bytes) : Option (PoolM Bytes) :=
  if condition then some attribute' else none

/-- Writes the attributes that are there, in order. -/
def present (attributes : Attributes) : PoolM (List Bytes) :=
  (attributes.filterMap id).mapM id

/-- Attributes with their number in front.  Messages call their bearer `bearer`. -/
def counted (bearer : String) (attributes : List Bytes) : Except Error Bytes := do
  let count ← count16 (.tooMany ("attributes on " ++ bearer)) attributes.length
  return count ++ attributes.flatten

/-! ## Writing annotations -/

/-- A value of an annotation that is a tag and an index. -/
def taggedIndex (tag : UInt8) (work : PoolM UInt16) : PoolM Bytes := do
  return tag :: Bytes.ofU16 (← work)

mutual

/-- Writes a value of an annotation. -/
def elementValue : ElementValue → PoolM Bytes
  | .byte value => taggedIndex 0x42 (PoolM.put (.int value.toInt32))
  | .char value => taggedIndex 0x43 (PoolM.put (.int value.toUInt32.toInt32))
  | .double bits => taggedIndex 0x44 (PoolM.put (.double bits))
  | .float bits => taggedIndex 0x46 (PoolM.put (.float bits))
  | .int value => taggedIndex 0x49 (PoolM.put (.int value))
  | .long value => taggedIndex 0x4a (PoolM.put (.long value))
  | .short value => taggedIndex 0x53 (PoolM.put (.int value.toInt32))
  | .boolean value => taggedIndex 0x5a (PoolM.put (.int (if value then 1 else 0)))
  | .string value => taggedIndex 0x73 (PoolM.utf8 value)
  | .constant type name => do
      let type ← indexed (PoolM.utf8 type)
      let name ← indexed (PoolM.utf8 name)
      return 0x65 :: type ++ name
  | .cls descriptor => taggedIndex 0x63 (PoolM.utf8 descriptor)
  | .nested type values => do
      let type ← indexed (PoolM.utf8 type)
      let count ← count16 (.tooMany "element value pairs") values.length
      return 0x40 :: type ++ count ++ (← namedValues values)
  | .array values => do
      let count ← count16 (.tooMany "array elements in element value") values.length
      return 0x5b :: count ++ (← elementValues values)

/-- Writes values of an annotation one after the other. -/
def elementValues : List ElementValue → PoolM Bytes
  | [] => pure []
  | value :: rest => do
      let first ← elementValue value
      return first ++ (← elementValues rest)

/-- Writes named values of an annotation one after the other. -/
def namedValues : List (String × ElementValue) → PoolM Bytes
  | [] => pure []
  | (name, value) :: rest => do
      let name ← indexed (PoolM.utf8 name)
      let first ← elementValue value
      return name ++ first ++ (← namedValues rest)

end

/-- Writes an annotation. -/
def annot (a : Annot) : PoolM Bytes := do
  let type ← indexed (PoolM.utf8 a.type)
  let count ← count16 (.tooMany "element value pairs") a.values.length
  return type ++ count ++ (← namedValues a.values)

/-- Writes a list of annotations. -/
def annots (items : List Annot) : PoolM Bytes :=
  listOf "annotations" items annot

/-- Writes a list of annotations for each parameter. -/
def parameterAnnots (items : List (List Annot)) : PoolM Bytes := do
  let count ← count8 (.tooMany "parameters with annotations") items.length
  return count ++ (← each items annots)

/-- Writes which type a type annotation is on. -/
def annotTarget : AnnotTarget → Bytes
  | .classTypeParameter index => [0x00, index]
  | .methodTypeParameter index => [0x01, index]
  | .supertype index => 0x10 :: Bytes.ofU16 index
  | .classTypeParameterBound parameter bound => [0x11, parameter, bound]
  | .methodTypeParameterBound parameter bound => [0x12, parameter, bound]
  | .field => [0x13]
  | .result => [0x14]
  | .receiver => [0x15]
  | .formalParameter index => [0x16, index]
  | .throws index => 0x17 :: Bytes.ofU16 index

/-- Writes a step into a type. -/
def pathStep : PathStep → Bytes
  | .array => [0, 0]
  | .nested => [1, 0]
  | .wildcard => [2, 0]
  | .typeArgument index => [3, index]

/-- Writes a list of type annotations. -/
def typeAnnots (items : List TypeAnnot) : PoolM Bytes :=
  listOf "type annotations" items fun a => do
    let count ← count8 .typePathTooLong a.path.length
    return annotTarget a.target ++ count ++ a.path.flatMap pathStep ++ (← annot a.body)

/-- The attributes with the annotations of a declaration. -/
def annotAttributes (a : Annots) : Attributes :=
  [given (!a.visible.isEmpty) (sized "RuntimeVisibleAnnotations" (annots a.visible)),
    given (!a.invisible.isEmpty) (sized "RuntimeInvisibleAnnotations" (annots a.invisible)),
    given (!a.visibleTypes.isEmpty)
      (sized "RuntimeVisibleTypeAnnotations" (typeAnnots a.visibleTypes)),
    given (!a.invisibleTypes.isEmpty)
      (sized "RuntimeInvisibleTypeAnnotations" (typeAnnots a.invisibleTypes))]

end Encode

end Downlevel
