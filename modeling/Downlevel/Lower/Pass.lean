/-!
# The passes of lowering

A pass replaces one kind of construct that an older release does not have.  This file only names
them; what each one does stands in a file of its own.
-/

namespace Downlevel

/-- A step of lowering. -/
inductive Pass where
  /-- Drops what a class says about modules. -/
  | moduleRemover
  /-- Puts a method of its own in place of string concatenation that is linked at run time. -/
  | dynamicStringConcat
  /-- Puts static fields, which are filled when first needed, in place of dynamic constants. -/
  | explicitConstants
  /-- Opens private members to the package and drops what a class says about its nest. -/
  | nestHostToPackage
  /-- Makes a plain class of a record. -/
  | recordToClass
  /-- Marks methods as using strict floating-point arithmetic. -/
  | alwaysStrict
  /-- Drops the list of permitted subclasses. -/
  | unsealClasses
  /-- Puts a method of its own in place of pattern matching that is linked at run time. -/
  | dynamicSwitchPatterns
  /-- Puts an exception that old releases have in place of the one for failed matches. -/
  | matchExceptionFixer
  /-- Drops attributes that are not understood. -/
  | removeAttributes
  deriving DecidableEq, Inhabited

namespace Pass

/-- The name of a pass. -/
def name : Pass → String
  | moduleRemover => "ModuleRemover"
  | dynamicStringConcat => "DynamicStringConcat"
  | explicitConstants => "ExplicitConstants"
  | nestHostToPackage => "NestHostToPackage"
  | recordToClass => "RecordToClass"
  | alwaysStrict => "AlwaysStrictFP"
  | unsealClasses => "UnsealClasses"
  | dynamicSwitchPatterns => "DynamicSwitchPatterns"
  | matchExceptionFixer => "MatchExceptionFixer"
  | removeAttributes => "RemoveAttributes"

/-- All passes. -/
def all : List Pass :=
  [moduleRemover, dynamicStringConcat, explicitConstants, nestHostToPackage, recordToClass,
    alwaysStrict, unsealClasses, dynamicSwitchPatterns, matchExceptionFixer, removeAttributes]

/-- The pass of a name. -/
def ofName? (name : String) : Option Pass :=
  all.find? fun pass => pass.name == name

end Pass

/-- A pass with how often it runs: once, or until it finds nothing more to change. -/
inductive Stage where
  | once (pass : Pass)
  | fixedPoint (pass : Pass)
  deriving DecidableEq, Inhabited

end Downlevel
