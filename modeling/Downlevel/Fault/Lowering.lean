import Downlevel.Quoted

/-!
# What can stop a class from being lowered

Reasons why a class cannot be brought down to an older release, or cannot be checked against it, and
the places that an explanation passes on its way out, each with its wording.
-/

namespace Downlevel

/-- Why a class cannot be lowered. -/
inductive LowerFault where
  | runningPass (pass cls : String)
  | atCallSite (cls method descriptor site siteDescriptor : String)
  | inMethod (name descriptor : String)
  | concatTemplate
  | concatArguments (recipe descriptor : String)
  | concatConstants (recipe : String)
  | constantInInterface (constant cls : String)
  | bouncer (name : String)
  | accessor (name : String)
  | initializerWithoutCode
  | nullOnPrimitive (cls : String)
  | staticArguments (wanted found : Nat)
  | primitiveCollection (array : String)
  | bootstrapReturnsNothing
  | noConversion (source target : String)
  | recordMethod (name descriptor cls : String)
  | noEnum (descriptor : String)
  | switchBranch
  | wrongBootstrap (path : String)
  | wrongEnumArguments
  | wrongClassArguments
  | wrongTarget (path wanted : String)
  | wrongFirstArgument (path : String)
  | enumNameSurrogates
  | wideningIn (cls : String)
  | ownerOf (context owner name descriptor : String)
  | unsettled (pass cls : String) (rounds : Nat)
  | converting (cls : String)
  | writingConverted (cls : String)
  | checking (cls release : String)
  | unsupportedRelease (text : String)
  | invalidDigit
  | emptyNumber
  | numberTooLarge
  | unknownVersion (version : UInt32)
  /-- The search for a declaration follows a cycle and does not end. -/
  | endlessSearch
  deriving DecidableEq

namespace LowerFault

/-- The wording of a fault. -/
def text : LowerFault → String
  | runningPass pass cls => s!"failed to run {pass} on {cls}"
  | atCallSite cls method descriptor site siteDescriptor =>
      s!"in {cls}.{method}{descriptor}, for invokedynamic {site} {siteDescriptor}"
  | inMethod name descriptor => s!"in method {name}{descriptor}"
  | concatTemplate => "Invalid template value in string concatenation"
  | concatArguments recipe descriptor =>
      s!"string concatenation recipe {recipe} has more arguments than {descriptor}"
  | concatConstants recipe =>
      s!"string concatenation recipe {recipe} has more constants than given"
  | constantInInterface constant cls =>
      s!"Can't cache dynamic constant {constant} in interface {cls}, " ++
        "interface fields can't be assigned lazily"
  | bouncer name => s!"failed to generate bouncer {name} for ..."
  | accessor name => s!"failed to generate accessor {name} for ..."
  | initializerWithoutCode => "static initializer has no code"
  | nullOnPrimitive cls => s!"Null constant on primitive in {cls}: ..."
  | staticArguments wanted found =>
      s!"bootstrap method ... takes {wanted} static arguments, but {found} are given"
  | primitiveCollection array =>
      s!"can't collect static arguments into a primitive array {array}"
  | bootstrapReturnsNothing => "bootstrap method ... returns nothing"
  | noConversion source target => s!"can't convert a value of type {source} to {target}"
  | recordMethod name descriptor cls =>
      s!"failed to generate {name}{descriptor} for record {cls}"
  | noEnum descriptor => s!"enumSwitch call site {descriptor} without an enum to switch on"
  | switchBranch => "Invalid switch branch: ..."
  | wrongBootstrap path =>
      s!"Invalid constant bootstrap in {path}: Wrong bootstrap method: ..."
  | wrongEnumArguments =>
      "Invalid constant bootstrap in typeSwitch: Expected (ClassDesc, String), got: ..."
  | wrongClassArguments =>
      "Invalid constant bootstrap in typeSwitch.classRef: Expected (String), got: ..."
  | wrongTarget path wanted =>
      s!"Invalid constant bootstrap in {path}: Invalid invoke target, " ++
        s!"expected {wanted}, got: ..."
  | wrongFirstArgument path =>
      s!"Invalid constant bootstrap in {path}: Invalid argument, " ++
        "expected handle (at position 0): ..."
  | enumNameSurrogates => "enum class name contains unpaired surrogates: ..."
  | wideningIn cls => s!"failed to widen calls in {cls}"
  | ownerOf context owner name descriptor =>
      s!"{context}: failed to find the owner of {owner} {name}{descriptor}"
  | unsettled pass cls rounds => s!"{pass} didn't settle on {cls} after {rounds} rounds"
  | converting cls => s!"failed to convert class {cls}"
  | writingConverted cls => s!"failed to write converted class {cls}"
  | checking cls release => s!"failed to check class {cls} against java {release}"
  | unsupportedRelease number => s!"Unsupported java version: {number}"
  | invalidDigit => "invalid digit found in string"
  | emptyNumber => "cannot parse integer from empty string"
  | numberTooLarge => "number too large to fit in target type"
  | unknownVersion version =>
      "Don't know how to downgrade a class of version 0x" ++ Quoted.hexUpper 8 version.toNat
  | endlessSearch => "the search for the declaring class does not end"

end LowerFault

end Downlevel
