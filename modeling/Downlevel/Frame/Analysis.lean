import Downlevel.ClassFile
import Downlevel.Frame.Merge

/-!
# Computing frames

The frame before the first instruction is known.  From there, frames flow along the ways of
execution: to the instruction behind, to the targets of jumps, and into the handlers of exceptions.
Where several frames arrive they are merged, until nothing changes any more.  An instruction that no
frame reaches is never executed.
-/

namespace Downlevel

namespace Frame

/-- How many instructions are looked at before the analysis gives up. -/
def iterationLimit : Nat := 100000

/-- A range of instructions with the handler of its exceptions. -/
structure Handler where
  start : Nat
  stop : Nat
  handler : Nat
  caught : VType

/-- What the analysis knows so far. -/
structure Flow where
  /-- The frame before each instruction that was reached. -/
  frames : Array (Option Frame)
  /-- The instructions to look at next, the first one first. -/
  queue : List Nat
  /-- The instructions to look at after those, the last one first. -/
  later : List Nat
  /-- Which instructions wait to be looked at. -/
  waiting : Array Bool
  /-- The largest size of the stack so far. -/
  maxStack : Nat

namespace Flow

/-- Takes the next instruction to look at, if there is one. -/
def next (flow : Flow) : Option Nat × Flow :=
  match flow.queue with
  | index :: rest =>
      (some index, { flow with
        queue := rest, waiting := flow.waiting.setIfInBounds index false })
  | [] =>
      match flow.later.reverse with
      | index :: rest =>
          (some index, { flow with
            queue := rest, later := [], waiting := flow.waiting.setIfInBounds index false })
      | [] => (none, flow)

/-- Sets the frame before an instruction and lets the instruction wait to be looked at. -/
def update (flow : Flow) (index : Nat) (frame : Frame) : Flow :=
  let isWaiting := flow.waiting[index]?.getD false
  let flow := { flow with frames := flow.frames.setIfInBounds index (some frame) }
  if isWaiting then flow
  else { flow with later := index :: flow.later, waiting := flow.waiting.setIfInBounds index true }

/-- Notes a size of the stack. -/
def note (flow : Flow) (size : Nat) : Flow :=
  { flow with maxStack := max flow.maxStack size }

end Flow

/-- What the analysis finds: the frame before each instruction that is executed, and the largest
size of the stack. -/
structure Analysis where
  frames : Array (Option Frame)
  maxStack : UInt16

/-- The code under analysis. -/
structure Subject where
  cls : ClassName
  code : Array Instruction
  places : Std.HashMap Label Nat
  handlers : List Handler

/-- The place of a label. -/
def placeOf (places : Std.HashMap Label Nat) (label : Label) : Except Error Nat :=
  orFail (.write (.noInstruction label.id)) places[label]?

end Frame

namespace Instruction

/-- Whether execution never goes on with the instruction behind. -/
def isUnconditional : Instruction → Bool
  | goto _ => true
  | tableswitch _ _ _ _ => true
  | lookupswitch _ _ => true
  | ret _ => true
  | .op operation => operation.isEnd
  | _ => false

end Instruction

namespace Frame

/-- A list without repetitions, in increasing order. -/
def sortedSet (indices : List Nat) : List Nat :=
  (indices.mergeSort).eraseReps

/-- The instructions that can come behind the one at an index, in increasing order. -/
def successors (length : Nat) (places : Std.HashMap Label Nat) (index : Nat)
    (instruction : Instruction) : Except Error (List Nat) := do
  let targets ← instruction.targets.mapM (placeOf places)
  if !instruction.isUnconditional && length ≤ index + 1 then
    fail (.frame (.fallsOffEnd index))
  else
    let all := if instruction.isUnconditional then targets else targets ++ [index + 1]
    match all.find? fun target => length ≤ target with
    | some target => fail (.frame (.jumpsToEnd index target))
    | none => return sortedSet all

variable {σ : Type} (supers : SuperClasses σ)

/-- Lets a frame flow to an instruction. -/
def propagate (flow : Flow) (target : Nat) (incoming : Frame) : Task σ Flow := do
  match flow.frames[target]? with
  | none => (fail (.outOfRange flow.frames.size target) : Except Error Flow)
  | some none => return flow.update target incoming
  | some (some existing) =>
      match ← (merge supers existing incoming).within (.frame (.mergeAt target)) with
      | some merged => return flow.update target merged
      | none => return flow

/-- Lets a frame flow to several instructions.  `choose` says which frame flows to which. -/
def propagateAll (choose : Nat → Frame) : List Nat → Flow → Task σ Flow
  | [], flow => pure flow
  | target :: rest, flow => do
      propagateAll choose rest (← propagate supers flow target (choose target))

/-- Lets the local variables before and behind an instruction flow into the handlers around it. -/
def propagateHandlers (index : Nat) (before behind : Frame) :
    List Handler → Flow → Task σ Flow
  | [], flow => pure flow
  | handler :: rest, flow => do
      if handler.start ≤ index && index < handler.stop then
        let flow := flow.note 1
        let flow ← propagate supers flow handler.handler ⟨before.locals, [handler.caught]⟩
        let flow ← propagate supers flow handler.handler ⟨behind.locals, [handler.caught]⟩
        propagateHandlers index before behind rest flow
      else propagateHandlers index before behind rest flow

/-- Looks at one instruction.  A subroutine returns behind its call with the frame from before. -/
def visit (subject : Subject) (index : Nat) (flow : Flow) : Task σ Flow := do
  match flow.frames[index]?, subject.code[index]? with
  | some (some frame), some instruction =>
      let behind ← within (.frame (.afterInstruction index))
        (frame.after subject.cls subject.code index instruction)
      let flow := (flow.note frame.stackSize).note behind.stackSize
      let targets ← successors subject.code.size subject.places index instruction
      let choose (target : Nat) : Frame :=
        match instruction with
        | .jsr _ => if target = index + 1 then frame else behind
        | _ => behind
      let flow ← propagateAll supers choose targets flow
      propagateHandlers supers index frame behind subject.handlers flow
  | _, _ => (fail (.frame (.noFrame index)) : Except Error Flow)

/-- Looks at instructions until none waits, at most as often as given. -/
def settle (subject : Subject) : Nat → Flow → Task σ Flow
  | remaining, flow =>
      match flow.next with
      | (none, flow) => pure flow
      | (some index, flow) =>
          match remaining with
          | 0 => (fail (.frame (.iterationLimit iterationLimit)) : Except Error Flow)
          | remaining + 1 => do settle subject remaining (← visit supers subject index flow)

/-- The handlers of code. -/
def handlersOf (places : Std.HashMap Label Nat) (exceptions : List ExceptionRange) :
    Except Error (List Handler) :=
  exceptions.mapM fun range => do
    let start ← placeOf places range.start
    let stop ← placeOf places range.stop
    let handler ← placeOf places range.handler
    return ⟨start, stop, handler, .object (range.caught.getD ClassName.javaThrowable)⟩

/-- What the analysis found once nothing waits.  Instructions that are never executed will be
replaced by one that throws the value on the stack, so they need room for that. -/
def conclude (flow : Flow) : Except Error Analysis :=
  let maxStack := if flow.frames.any Option.isNone then max flow.maxStack 1 else flow.maxStack
  if maxStack < 65536 then .ok ⟨flow.frames, maxStack.toUInt16⟩
  else fail (.frame (.stackTooLarge maxStack))

/-- The frame before each instruction of a method's code, and the largest size of its stack. -/
def analyze (cls : ClassName) (method : Method) (code : Code) (maxLocals : UInt16) :
    Task σ Analysis := do
  if code.instructions.isEmpty then (fail (.frame .noInstructions) : Except Error Analysis)
  else
    let places := code.labelIndices
    let handlers ← handlersOf places code.exceptions
    let type ← MethodType.parse method.descriptor
    let first ← initial cls method.access.isStatic method.name type maxLocals
    let instructions := (code.instructions.map Labelled.instruction).toArray
    let start : Flow := {
      frames := (Array.replicate instructions.size none).setIfInBounds 0 (some first)
      queue := [0]
      later := []
      waiting := (Array.replicate instructions.size false).setIfInBounds 0 true
      maxStack := 0 }
    let flow ← settle supers ⟨cls, instructions, places, handlers⟩ iterationLimit start
    conclude flow

end Frame

end Downlevel
