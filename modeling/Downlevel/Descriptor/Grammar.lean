import Downlevel.Descriptor.Type
import Downlevel.Error
import Downlevel.Text.Affix

/-!
# Reading descriptors

The grammar of descriptors is

* a field descriptor is one type;
* a method descriptor is an opening parenthesis, any number of types, a closing parenthesis, and a
  type or `V`;
* a type is up to 255 opening brackets and then one of the letters `B C D F I J S Z`, or `L`, a
  class name that is not empty and holds no semicolon, and a semicolon.

Each reader takes a list of characters and gives what it read together with the rest, which is
shorter than what it was given.
-/

namespace Downlevel

/-- What is left of a text after a part of it was read. -/
abbrev Shorter (chars : List Char) := { rest : List Char // rest.length < chars.length }

namespace BaseType

/-- The type that a letter stands for, the one for classes apart. -/
def ofLetter? : Char → Option BaseType
  | 'B' => some .byte
  | 'C' => some .char
  | 'D' => some .double
  | 'F' => some .float
  | 'I' => some .int
  | 'J' => some .long
  | 'S' => some .short
  | 'Z' => some .boolean
  | _ => none

/-- Splits a text at the first semicolon, or gives nothing if there is none.  The characters before
it are collected in reverse in `done`. -/
def splitName (done : List Char) : (chars : List Char) → Option (List Char × Shorter chars)
  | [] => none
  | c :: rest =>
      if c = ';' then some (done.reverse, ⟨rest, by simp⟩)
      else
        match splitName (c :: done) rest with
        | some (name, ⟨after, h⟩) => some (name, ⟨after, by simp; omega⟩)
        | none => none

/-- Reads a type that is no array from the front of a text. -/
def read : (chars : List Char) → Except TextFault (BaseType × Shorter chars)
  | [] => .error .abruptEnd
  | c :: rest =>
      if c = 'L' then
        match splitName [] rest with
        | none => .error .abruptEnd
        | some (name, ⟨after, h⟩) =>
            if name.isEmpty then .error .emptyClassName
            else .ok (.object (String.ofList name), ⟨after, by simp; omega⟩)
      else
        match ofLetter? c with
        | some type => .ok (type, ⟨rest, by simp⟩)
        | none => .error (.unexpectedChar c)

end BaseType

/-- Passes over opening brackets.  Returns how many there were and what follows them. -/
def countBrackets (count : Nat) :
    (chars : List Char) → Nat × { rest : List Char // rest.length ≤ chars.length }
  | '[' :: rest =>
      match countBrackets (count + 1) rest with
      | (total, ⟨after, h⟩) => (total, ⟨after, by simp; omega⟩)
  | chars => (count, ⟨chars, Nat.le_refl _⟩)

namespace JavaType

/-- Reads a type from the front of a text. -/
def read (chars : List Char) : Except TextFault (JavaType × Shorter chars) :=
  match countBrackets 0 chars with
  | (dimensions, ⟨rest, h⟩) =>
      if 255 < dimensions then .error .tooManyDimensions
      else
        match BaseType.read rest with
        | .error fault => .error fault
        | .ok (base, ⟨after, h'⟩) => .ok (⟨dimensions, base⟩, ⟨after, by omega⟩)

/-- Reads a field descriptor. -/
def parse (descriptor : String) : Except Error JavaType :=
  match read descriptor.toList with
  | .error fault => within (.text (.fieldDescriptor descriptor)) (fail (.text fault))
  | .ok (type, ⟨[], _⟩) => .ok type
  | .ok (_, ⟨_ :: _, _⟩) => fail (.text (.fieldDescriptorSurplus descriptor))

/-- The type that a name in an instruction stands for: an array if it starts with a bracket, else a
class. -/
def ofInternalName (name : ClassName) : Except Error JavaType :=
  if Text.beginsWith '[' name then parse name else .ok (object name)

end JavaType

namespace MethodType

/-- Reads types up to the closing parenthesis, behind those in `done` (last one first). -/
def readParameters (done : List JavaType) (chars : List Char) :
    Except TextFault (List JavaType × List Char) :=
  match chars with
  | ')' :: rest => .ok (done.reverse, rest)
  | chars =>
      match JavaType.read chars with
      | .error fault => .error fault
      | .ok (type, ⟨rest, _⟩) => readParameters (type :: done) rest
termination_by chars.length

/-- Reads a method descriptor from a list of characters, all of which it must take up. -/
def read : List Char → Except TextFault MethodType
  | '(' :: chars =>
      match readParameters [] chars with
      | .error fault => .error fault
      | .ok (parameters, 'V' :: []) => .ok ⟨parameters, none⟩
      | .ok (_, 'V' :: _ :: _) => .error .methodDescriptorSurplus
      | .ok (parameters, rest) =>
          match JavaType.read rest with
          | .error fault => .error fault
          | .ok (result, ⟨[], _⟩) => .ok ⟨parameters, some result⟩
          | .ok (_, ⟨_ :: _, _⟩) => .error .methodDescriptorSurplus
  | _ => .error .noOpeningParenthesis

/-- Reads a method descriptor. -/
def parse (descriptor : String) : Except Error MethodType :=
  match read descriptor.toList with
  | .error fault => within (.text (.methodDescriptor descriptor)) (fail (.text fault))
  | .ok type => .ok type

end MethodType

/-- The class names that a text seems to mention, behind those in `done` (last one first): what
stands between an `L` and the next semicolon. -/
def classNamesFrom (done : List ClassName) : List Char → List ClassName
  | [] => done.reverse
  | 'L' :: rest =>
      match BaseType.splitName [] rest with
      | some (name, ⟨after, _⟩) => classNamesFrom (String.ofList name :: done) after
      | none => done.reverse
  | _ :: rest => classNamesFrom done rest
termination_by chars => chars.length

/-- The class names that a field or method descriptor mentions, in order of appearance.  A text that
is no descriptor is searched too. -/
def classNamesIn (descriptor : String) : List ClassName :=
  classNamesFrom [] descriptor.toList

end Downlevel
