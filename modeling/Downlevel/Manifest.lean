import Downlevel.Error
import Downlevel.Text.Affix
import Downlevel.Text.Utf8

/-!
# Manifests

A manifest has main attributes and further sections of attributes, separated by empty lines.  An
attribute is a name and a value with a colon and a blank between them.  Long lines are broken and
continue on lines that start with a blank.  Names of main attributes are compared without regard to
case.
-/

namespace Downlevel

/-- Attributes in the order in which their names were first met; each name occurs once. -/
abbrev Attrs := List (String × String)

namespace Attrs

/-- Sets an attribute.  An attribute that is there already keeps its place. -/
def set (name value : String) : Attrs → Attrs
  | [] => [(name, value)]
  | (key, old) :: rest =>
      if key = name then (key, value) :: rest else (key, old) :: set name value rest

/-- Changes the value of an attribute that is there. -/
def update (name : String) (f : String → String) (attrs : Attrs) : Attrs :=
  attrs.map fun (key, value) => if key = name then (key, f value) else (key, value)

/-- The first attribute of a name, without regard to case. -/
def find? (name : String) (attrs : Attrs) : Option String :=
  (List.find? (fun attr => Text.sameIgnoringCase attr.1 name) attrs).map Prod.snd

/-- Sets the first attribute of a name, without regard to case, or adds one. -/
def replace (name value : String) : Attrs → Attrs
  | [] => [(name, value)]
  | (key, old) :: rest =>
      if Text.sameIgnoringCase key name then (key, value) :: rest
      else (key, old) :: replace name value rest

end Attrs

/-- The attributes of a jar as a whole, and of things in it. -/
structure Manifest where
  main : Attrs := []
  sections : List Attrs := []
  deriving DecidableEq, Inhabited

namespace Manifest

/-- What was read of a manifest. -/
structure Progress where
  /-- The main attributes, once their end was met. -/
  main : Option Attrs := none
  /-- The finished sections, the last one first. -/
  sections : List Attrs := []
  /-- The section that is being read. -/
  current : Attrs := []
  /-- The name of the attribute that a continuation would belong to. -/
  last : Option String := none

namespace Progress

/-- Ends the section that is being read.  An empty section counts only as the main one. -/
def endSection (progress : Progress) : Progress :=
  match progress.main with
  | none => { main := some progress.current, sections := progress.sections }
  | some _ =>
      if progress.current.isEmpty then { progress with last := none }
      else { main := progress.main, sections := progress.current :: progress.sections }

/-- The manifest that was read. -/
def finish (progress : Progress) : Manifest :=
  let ended := progress.endSection
  ⟨ended.main.getD [], ended.sections.reverse⟩

end Progress

/-- The two parts of an attribute line, around the first colon that a blank follows.  What stands in
front is collected in reverse in `name`. -/
def splitAttr (name : List Char) : List Char → Option (String × String)
  | ':' :: ' ' :: value => some (String.ofList name.reverse, String.ofList value)
  | c :: rest => splitAttr (c :: name) rest
  | [] => none

/-- A line without the carriage return at its end. -/
def stripReturn (line : List Char) : List Char :=
  if line.getLast? = some '\r' then line.dropLast else line

/-- Reads a line, the one with the given number. -/
def readLine (progress : Progress) (number : Nat) (line : List Char) : Except Error Progress :=
  match stripReturn line with
  | [] => .ok progress.endSection
  | ' ' :: rest =>
      match progress.last with
      | some name =>
          .ok { progress with
            current := progress.current.update name fun value => value ++ String.ofList rest }
      | none => fail (.archive (.nothingToContinue number))
  | stripped =>
      match splitAttr [] stripped with
      | some (name, value) =>
          .ok { progress with current := progress.current.set name value, last := some name }
      | none => fail (.archive (.manifestLine number (String.ofList stripped)))

/-- Reads lines, the first of which has the given number. -/
def readLines (progress : Progress) : Nat → List (List Char) → Except Error Progress
  | _, [] => .ok progress
  | number, line :: rest => do
      readLines (← readLine progress number line) (number + 1) rest

/-- The manifest that bytes stand for. -/
def ofBytes (bytes : Bytes) : Except Error Manifest := do
  let text ← within (.archive .manifestNotText)
    ((Utf8.decode bytes).mapError fun fault => Error.of (.text fault))
  return (← readLines {} 1 (Text.splitLines text)).finish

variable (manifest : Manifest)

/-- A main attribute. -/
def get? (name : String) : Option String :=
  manifest.main.find? name

/-- Whether there is a main attribute of a name. -/
def contains (name : String) : Bool :=
  (manifest.get? name).isSome

/-- Sets a main attribute. -/
def insert (name value : String) : Manifest :=
  { manifest with main := manifest.main.replace name value }

/-- Whether the jar holds several versions of its classes. -/
def isMultiRelease : Bool :=
  match manifest.get? "Multi-Release" with
  | some value => Text.sameIgnoringCase (String.ofList (Text.trim value.toList)) "true"
  | none => false

/-- How many bytes a line may have, without its end. -/
def lineLength : Nat := 72

/-- How many bytes a character takes. -/
def byteSize (c : Char) : Nat :=
  (Utf8.encodeChar c).length

/-- Breaks a line so that no part of it is too long.  `room` is what is left on the current line;
every further line has room for one byte less than the first, as it starts with a blank. -/
def foldLine (room : Nat) : List Char → List Char
  | [] => []
  | c :: rest =>
      if byteSize c ≤ room then c :: foldLine (room - byteSize c) rest
      else '\r' :: '\n' :: ' ' :: c :: foldLine (lineLength - 1 - byteSize c) rest

/-- The end of a line. -/
def lineEnd : List Char := ['\r', '\n']

/-- The lines of an attribute. -/
def writeAttr (name value : String) : List Char :=
  foldLine lineLength (name.toList ++ ':' :: ' ' :: value.toList) ++ lineEnd

/-- The lines of attributes, with the empty line behind them. -/
def writeSection (attrs : Attrs) : List Char :=
  attrs.flatMap (fun attr => writeAttr attr.1 attr.2) ++ lineEnd

/-- The attribute that every manifest starts with. -/
def versionName : String := "Manifest-Version"

/-- The main attributes as they are written: the version comes first, and only once. -/
def mainAttrs : Attrs :=
  (versionName, (manifest.get? versionName).getD "1.0") ::
    manifest.main.filter fun attr => !Text.sameIgnoringCase attr.1 versionName

/-- A manifest as text. -/
def text : String :=
  String.ofList (writeSection manifest.mainAttrs ++ manifest.sections.flatMap writeSection)

/-- A manifest as bytes. -/
def toBytes : Bytes :=
  Utf8.encode manifest.text

end Manifest

end Downlevel
