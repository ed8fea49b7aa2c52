import Downlevel.Error
import Downlevel.Lower.Pass
import Downlevel.Version

/-!
# Releases

Classes can be brought down to the releases from 8 to 23.  Each release knows the stages that turn a
class written for it into one for the release before; going down several releases runs the stages of
each, the newest first.
-/

namespace Downlevel

/-- A release that classes can be brought down to. -/
structure Release where
  number : Nat
  lowest_le : 8 ≤ number
  le_highest : number ≤ 23

instance : Inhabited Release := ⟨⟨8, by omega, by omega⟩⟩

namespace Release

/-- The release of a number, if there is one. -/
def ofNumber? (number : Nat) : Option Release :=
  if h : 8 ≤ number ∧ number ≤ 23 then some ⟨number, h.1, h.2⟩ else none

/-- The release of a number. -/
def ofNumber (number : Nat) : Except Error Release :=
  orFail (.lower (.unsupportedRelease (toString number))) (ofNumber? number)

/-- The number below 256 that decimal digits stand for, behind those that made `value`. -/
def digitsFrom (value : Nat) : List Char → Except LowerFault Nat
  | [] => .ok value
  | c :: rest =>
      if c.isDigit then
        let next := value * 10 + (c.toNat - '0'.toNat)
        if next < 256 then digitsFrom next rest else .error .numberTooLarge
      else .error .invalidDigit

/-- The number below 256 that a text stands for: decimal digits, possibly behind a plus sign. -/
def parseNumber : List Char → Except LowerFault Nat
  | [] => .error .emptyNumber
  | ['+'] => .error .invalidDigit
  | '+' :: digits => digitsFrom 0 digits
  | digits => digitsFrom 0 digits

/-- The release that a text names, as in `17` or, in the old way, `1.8`. -/
def parse (text : String) : Except Error Release :=
  let digits :=
    match text.toList with
    | '1' :: '.' :: rest => rest
    | chars => chars
  match parseNumber digits with
  | .ok number => ofNumber number
  | .error fault => within (.lower (.unsupportedRelease text)) (fail (.lower fault))

/-- The release that class files of a version belong to, whatever their minor version. -/
def ofVersion (version : Version) : Except Error Release :=
  orFail (.lower (.unknownVersion version.toU32)) <|
    if 44 ≤ version.major.toNat then ofNumber? (version.major.toNat - 44) else none

variable (release : Release)

/-- The version of the class files of a release. -/
def version : Version :=
  ⟨(release.number + 44).toUInt16, 0⟩

/-- The letter or digit that stands for a release in the directories of a symbol catalog. -/
def catalogCode : Char :=
  if release.number < 10 then Char.ofNat ('0'.toNat + release.number)
  else Char.ofNat ('A'.toNat + (release.number - 10))

/-- A release as text. -/
def text : String :=
  toString release.number

/-- The stages that turn a class of the release with the given number into one of the release
before. -/
def stagesOf : Nat → List Stage
  | 9 => [.once .moduleRemover, .once .dynamicStringConcat]
  | 11 => [.fixedPoint .explicitConstants, .once .nestHostToPackage]
  | 16 => [.once .recordToClass]
  | 17 => [.once .alwaysStrict, .once .unsealClasses]
  | 21 => [.once .dynamicSwitchPatterns, .once .matchExceptionFixer]
  | _ => []

/-- The stages that turn a class of this release into one of the release before. -/
def stages : List Stage :=
  stagesOf release.number

/-- The stages from the release `steps` above a number down to that number, the newest first. -/
def stagesAbove (number : Nat) : Nat → List Stage
  | 0 => []
  | steps + 1 => stagesOf (number + steps + 1) ++ stagesAbove number steps

/-- The stages that bring a class of a version down to this release, or nothing if it needs none. -/
def stagesFrom (version : Version) : Except Error (Option (List Stage)) := do
  if version.major ≤ release.version.major then return none
  else
    let source ← ofVersion version
    return some (stagesAbove release.number (source.number - release.number))

end Release

end Downlevel
