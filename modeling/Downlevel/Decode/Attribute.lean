import Downlevel.Pool.Table

/-!
# Reading attributes

Classes, fields, methods, code and record components carry attributes: a name, a length, and that
many bytes.  Attributes are read in order, each one adding to what was read before it.  The reader
of a known attribute takes what it needs and does not look at the length.
-/

namespace Downlevel

namespace Decode

open Parse

/-- Does something `n` times to a value while reading. -/
def iterate {α : Type} (step : α → Parse α) : Nat → α → Parse α
  | 0, value => pure value
  | n + 1, value => do
      let next ← step value
      iterate step n next

/-- Reads attributes.  `step` takes the name and the length of an attribute and what was read so
far. -/
def attributes {α : Type} (pool : Pool.Table) (step : String → Nat → α → Parse α) (initial : α) :
    Parse α := do
  let count ← u16
  iterate
    (fun value => do
      let name ← pool.utf8 (← u16)
      let length ← u32
      step name length.toNat value)
    count.toNat initial

/-- Passes over attributes by their lengths. -/
def skipAttributes : Parse Unit := do
  let count ← u16
  iterate
    (fun _ => do
      let _ ← u16
      let length ← u32
      skip length.toNat)
    count.toNat ()

/-- The value of an attribute of which there may be only one. -/
def once {α : Type} (name : String) (old : Option α) (value : α) : Except Error (Option α) :=
  match old with
  | none => .ok (some value)
  | some _ => .error ⟨[.read (.repeatedAttribute name), .read .twoValues]⟩

/-- An attribute that is kept as it is. -/
def raw (name : String) (length : Nat) : Parse RawAttribute := do
  return ⟨name, ← take length⟩

/-!
## Reading annotations

Annotations can be nested in their values to any depth.  Every value starts with a byte of its own,
so the number of bytes that are left bounds the depth.
-/

variable (pool : Pool.Table)

/-- Reads a value of an annotation that is nested less than `depth` deep.  At depth zero no byte is
left, so the value is cut off. -/
def elementValueWithin : Nat → Parse ElementValue
  | 0 => fun _ => cutOff "u8"
  | depth + 1 => do
      let tag ← u8
      match tag with
      | 0x42 => return .byte (← pool.byte (← u16))
      | 0x43 => return .char (← pool.char (← u16))
      | 0x44 => return .double (← pool.double (← u16))
      | 0x46 => return .float (← pool.float (← u16))
      | 0x49 => return .int (← pool.int (← u16))
      | 0x4a => return .long (← pool.long (← u16))
      | 0x53 => return .short (← pool.short (← u16))
      | 0x5a => return .boolean (← pool.boolean (← u16))
      | 0x73 => return .string (← pool.utf8 (← u16))
      | 0x65 =>
          let type ← pool.named .fieldDescriptor (← u16)
          return .constant type (← pool.utf8 (← u16))
      | 0x63 => return .cls (← pool.utf8 (← u16))
      | 0x40 =>
          let type ← pool.named .fieldDescriptor (← u16)
          return .nested type (← listOf do
            let name ← pool.utf8 (← u16)
            return (name, ← elementValueWithin depth))
      | 0x5b => return .array (← listOf (elementValueWithin depth))
      | _ => refuse (.unknownElementTag tag)

/-- Reads a value of an annotation. -/
def elementValue : Parse ElementValue :=
  fun cursor => elementValueWithin pool (cursor.rest.length + 1) cursor

/-- Reads an annotation. -/
def annot : Parse Annot := do
  let type ← pool.named .fieldDescriptor (← u16)
  let values ← listOf do
    let name ← pool.utf8 (← u16)
    return (name, ← elementValue pool)
  return ⟨type, values⟩

/-- Reads a list of annotations. -/
def annots : Parse (List Annot) :=
  listOf (annot pool)

/-- Reads a list of annotations for each parameter. -/
def parameterAnnots : Parse (List (List Annot)) :=
  shortListOf (annots pool)

/-- Reads which type a type annotation is on. -/
def annotTarget : Parse AnnotTarget := do
  let tag ← u8
  match tag with
  | 0x00 => return .classTypeParameter (← u8)
  | 0x01 => return .methodTypeParameter (← u8)
  | 0x10 => return .supertype (← u16)
  | 0x11 => return .classTypeParameterBound (← u8) (← u8)
  | 0x12 => return .methodTypeParameterBound (← u8) (← u8)
  | 0x13 => return .field
  | 0x14 => return .result
  | 0x15 => return .receiver
  | 0x16 => return .formalParameter (← u8)
  | 0x17 => return .throws (← u16)
  | _ => refuse (.unknownTarget tag)

/-- A step that has no argument, which must therefore be zero.  Messages call the step `name`. -/
def plainStep (name : String) (step : PathStep) (argument : UInt8) : Parse PathStep :=
  if argument = 0 then pure step else refuse (.pathArgument name argument)

/-- Reads a step into a type. -/
def pathStep : Parse PathStep := do
  let kind ← u8
  let argument ← u8
  match kind with
  | 0 => plainStep "ArrayDeeper" .array argument
  | 1 => plainStep "NestedDeeper" .nested argument
  | 2 => plainStep "WildcardBound" .wildcard argument
  | 3 => return .typeArgument argument
  | _ => refuse (.unknownPathKind kind)

/-- Reads a list of type annotations. -/
def typeAnnots : Parse (List TypeAnnot) :=
  listOf do
    let target ← annotTarget
    let path ← shortListOf pathStep
    return ⟨target, path, ← annot pool⟩

/-- Reads an attribute with annotations, if the name is that of one.  It takes the place of an
earlier one of the same name. -/
def annotAttribute? (name : String) (old : Annots) : Option (Parse Annots) :=
  match name with
  | "RuntimeVisibleAnnotations" =>
      some do return { old with visible := ← annots pool }
  | "RuntimeInvisibleAnnotations" =>
      some do return { old with invisible := ← annots pool }
  | "RuntimeVisibleTypeAnnotations" =>
      some do return { old with visibleTypes := ← typeAnnots pool }
  | "RuntimeInvisibleTypeAnnotations" =>
      some do return { old with invisibleTypes := ← typeAnnots pool }
  | _ => none

end Decode

end Downlevel
