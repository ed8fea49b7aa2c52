import Downlevel.Encode.Class
import Downlevel.Lower.Apply
import Downlevel.Symbols.Check
import Downlevel.Symbols.Widen

/-!
# Bringing classes down to a release

A converter runs the stages between the release of a class and its target.  With a symbol table of
the target it also widens calls, and checks that everything the class refers to is there.
-/

namespace Downlevel

/-- What to bring classes down to, and possibly the symbols of that release. -/
structure Converter where
  target : Release
  symbols : Option SymbolTable := none

/-- What became of a class file. -/
inductive Converted where
  /-- It needed no change. -/
  | unchanged
  /-- It was written anew; `passed` tells whether the check found nothing missing. -/
  | renewed (bytes : Bytes) (passed : Bool)
  deriving DecidableEq

namespace Converter

variable (converter : Converter)

/-- Runs stages one after the other. -/
def runStages : List Stage → ClassFile → Except Error ClassFile
  | [], cls => .ok cls
  | stage :: rest, cls => do runStages rest (← stage.run cls)

/-- Widens the calls in a class if there is a symbol table. -/
def widen (cls : ClassFile) : Task Session ClassFile :=
  match converter.symbols with
  | some table => table.widenCalls cls
  | none => return cls

/-- Brings a class down to the target.  The result is nothing if the class is there already. -/
def convert (cls : ClassFile) : Task Session (Option ClassFile) := do
  match ← (converter.target.stagesFrom cls.version : Except Error (Option (List Stage))) with
  | none => return none
  | some stages =>
      Task.note (.converting cls.name)
      let lowered ← (runStages stages cls : Except Error ClassFile)
      let widened ← converter.widen lowered
      let stripped ← (Pass.removeAttributes.apply widened : Except Error Lowered)
      return some { stripped.cls with version := converter.target.version }

/-- Whether a class passes the check against the symbol table, if there is one. -/
def check (cls : ClassFile) : Task Session Bool :=
  match converter.symbols with
  | some table => table.check cls
  | none => return true

/-- Brings a class file down to the target.  A file that is there already is not looked into. -/
def convertBytes (supers : SuperClasses Session) (bytes : Bytes) : Task Session Converted := do
  let version ← (Version.ofBytes bytes : Except Error Version)
  match ← (converter.target.stagesFrom version : Except Error (Option (List Stage))) with
  | none => return .unchanged
  | some _ =>
      let cls ← (ClassFile.ofBytes bytes : Except Error ClassFile)
      match ← Task.within (.lower (.converting cls.name)) (converter.convert cls) with
      | none => return .unchanged
      | some converted =>
          let passed ← converter.check converted
          let bytes ← Task.within (.lower (.writingConverted cls.name))
            (converted.toBytes supers true)
          return .renewed bytes passed

end Converter

end Downlevel
