import Downlevel.Lower.Concat
import Downlevel.Lower.Constants
import Downlevel.Lower.MatchFailure
import Downlevel.Lower.Pass
import Downlevel.Lower.Record
import Downlevel.Lower.Strip
import Downlevel.Lower.Switch

/-!
# Running passes

Every pass by its name, and what it does to a class.  A stage runs its pass once, or again and again
until there is nothing left to change.
-/

namespace Downlevel

namespace Pass

/-- What a pass does to a class. -/
def run : Pass → ClassFile → Except Error Lowered
  | moduleRemover, cls => .ok (Lower.removeModule cls)
  | dynamicStringConcat, cls => Lower.stringConcat cls
  | explicitConstants, cls => Lower.dynamicConstants cls
  | nestHostToPackage, cls => .ok (Lower.openNest cls)
  | recordToClass, cls => Lower.recordToClass cls
  | alwaysStrict, cls => .ok (Lower.markStrict cls)
  | unsealClasses, cls => .ok (Lower.unsealClass cls)
  | dynamicSwitchPatterns, cls => Lower.switchPatterns cls
  | matchExceptionFixer, cls => .ok (Lower.matchFailure cls)
  | removeAttributes, cls => .ok (Lower.dropRawAttributes cls)

/-- Runs a pass on a class. -/
def apply (pass : Pass) (cls : ClassFile) : Except Error Lowered :=
  within (.lower (.runningPass pass.name cls.name)) (pass.run cls)

/-- How often a pass may change a class before it is given up. -/
def maxRounds : Nat := 16

/-- Runs a pass until it changes nothing, with so many rounds left. -/
def settle (pass : Pass) : Nat → ClassFile → Except Error ClassFile
  | 0, cls => fail (.lower (.unsettled pass.name cls.name maxRounds))
  | rounds + 1, cls => do
      let lowered ← pass.apply cls
      if lowered.changed then settle pass rounds lowered.cls else return lowered.cls

end Pass

namespace Stage

/-- Runs a stage on a class. -/
def run : Stage → ClassFile → Except Error ClassFile
  | once pass, cls => do return (← pass.apply cls).cls
  | fixedPoint pass, cls => pass.settle Pass.maxRounds cls

end Stage

end Downlevel
