import Downlevel.Encode.Instruction
import Downlevel.Frame.Analysis

/-!
# Writing code

The number of local variables and the size of the stack are computed anew, and so are the frames
that newer class files carry for verification.  Instructions that are never executed have no frame;
each run of them is replaced, in the same number of bytes, by instructions that do nothing and one
that throws, and is taken out of the ranges in which exceptions are caught.
-/

namespace Downlevel

/-- Work that fills a pool and may ask for common super classes, which works on a state of type
`σ`. -/
abbrev Emit (σ : Type) := StateT Pool.Builder (Task σ)

namespace Emit

/-- Work that only fills the pool. -/
def ofPool {σ α : Type} (work : PoolM α) : Emit σ α :=
  fun pool => Task.ofExcept (work pool)

/-- Work seen from a place around it. -/
def within {σ α : Type} (fault : WriteFault) (work : Emit σ α) : Emit σ α :=
  fun pool => Task.within (.write fault) (work pool)

end Emit

instance {σ : Type} : MonadLift PoolM (Emit σ) where
  monadLift := Emit.ofPool

namespace Encode

/-- The slot behind the last one that an instruction uses, if it uses any. -/
def slotsUsed : Instruction → Nat
  | .load kind slot => slot.toNat + (if kind.isWide then 2 else 1)
  | .store kind slot => slot.toNat + (if kind.isWide then 2 else 1)
  | .iinc slot _ => slot.toNat + 1
  | .ret slot => slot.toNat + 1
  | _ => 0

/-- How many slots for local variables a method needs. -/
def maxLocals (method : Method) (code : Code) : Except Error UInt16 := do
  let type ← MethodType.parse method.descriptor
  let needed := code.instructions.foldl (fun n entry => max n (slotsUsed entry.instruction))
    (type.argumentsSize method.access.isStatic).toNat
  if needed < 65536 then return needed.toUInt16 else fail (.write (.maxLocals needed))

/-- The runs of instructions that are never executed, from `index` on, as ranges of indices.
`start` is where the current run began. -/
def deadRuns (index : Nat) (start : Option Nat) : List Bool → List (Nat × Nat)
  | [] =>
      match start with
      | some first => [(first, index)]
      | none => []
  | true :: rest =>
      match start with
      | some first => (first, index) :: deadRuns (index + 1) none rest
      | none => deadRuns (index + 1) none rest
  | false :: rest => deadRuns (index + 1) (some (start.getD index)) rest

/-- The bytes that take the place of `n` bytes that are never executed. -/
def deadBytes (n : Nat) : Bytes :=
  if n = 0 then [] else List.replicate (n - 1) 0x00 ++ [0xbf]

/-- The bytes of instructions, each with whether it is executed, behind those in `done` (last one
first).  `dead` is how many bytes of the current run are never executed. -/
def liveBytes (dead : Nat) (done : List Bytes) : List (Bool × Bytes) → Bytes
  | [] => (deadBytes dead :: done).reverse.flatten
  | (true, bytes) :: rest => liveBytes 0 (bytes :: deadBytes dead :: done) rest
  | (false, bytes) :: rest => liveBytes (dead + bytes.length) done rest

/-- A range without a part of it: what is left in front of that part and behind it. -/
def subtract (range part : Nat × Nat) : List (Nat × Nat) :=
  [(range.1, min range.2 part.1), (max range.1 part.2, range.2)].filter fun r => r.1 < r.2

/-- A range without several parts of it. -/
def subtractAll (range : Nat × Nat) (parts : List (Nat × Nat)) : List (Nat × Nat) :=
  parts.foldl (fun ranges part => ranges.flatMap fun r => subtract r part) [range]

/-- What is needed to write the tables of code. -/
structure Context where
  code : Code
  layout : Layout
  /-- The frames, if they are known. -/
  frames : Option (Array (Option Frame))

namespace Context

variable (context : Context)

/-- For each instruction whether it is executed.  Without frames all are taken to be. -/
def reachable : List Bool :=
  match context.frames with
  | some frames => frames.toList.map Option.isSome
  | none => context.code.instructions.map fun _ => true

/-- The runs of instructions that are never executed, as ranges of indices. -/
def dead : List (Nat × Nat) :=
  deadRuns 0 none context.reachable

/-- The runs of instructions that are never executed, as ranges of offsets. -/
def deadOffsets : List (Nat × Nat) :=
  context.dead.map fun run => (context.layout.offsetOf run.1, context.layout.offsetOf run.2)

/-- The bytes of the code. -/
def bytes : Bytes :=
  liveBytes 0 [] (context.reachable.zip context.layout.chunks)

/-- The instructions that need a frame because of the one at an index: the targets of a jump, and
the one behind it if it can only be reached by a jump. -/
def framesAfter (places : Std.HashMap Label Nat) (length index : Nat) (instruction : Instruction) :
    Except Error (List Nat) := do
  let targets ← instruction.targets.mapM (Frame.placeOf places)
  let isWideBranch :=
    match instruction with
    | .branch _ _ => context.layout.wide.contains index
    | _ => false
  if (instruction.isUnconditional || isWideBranch) && index + 1 < length then
    return targets ++ [index + 1]
  else return targets

/-- The instructions that need a frame because of those from `index` on, behind the ones in
`done`. -/
def framesFrom (places : Std.HashMap Label Nat) (length index : Nat) (done : List Nat) :
    List (Bool × Labelled) → Except Error (List Nat)
  | [] => .ok done
  | (false, _) :: rest => framesFrom places length (index + 1) done rest
  | (true, entry) :: rest => do
      let needed ← framesAfter context places length index entry.instruction
      framesFrom places length (index + 1) (needed ++ done) rest

/-- The instructions that need a frame, in increasing order. -/
def frameIndices : Except Error (List Nat) := do
  match context.frames with
  | none => return []
  | some _ =>
      let places := context.code.labelIndices
      let length := context.code.instructions.length
      let live ← framesFrom context places length 0 []
        (context.reachable.zip context.code.instructions)
      let dead := context.dead.flatMap fun run =>
        if run.2 < length then [run.1, run.2] else [run.1]
      let handlers ← context.code.exceptions.mapM fun e => Frame.placeOf places e.handler
      return Frame.sortedSet (live ++ dead ++ handlers)

/-- The ranges of an exception that are left without the code that is never executed. -/
def exceptionRanges (range : ExceptionRange) : PoolM (List Bytes) := do
  let start ← context.layout.offsetOfLabel range.start
  let stop ← context.layout.offsetOfLabel range.stop
  let handler ← context.layout.offsetOfLabel range.handler
  let ranges := subtractAll (start.toNat, stop.toNat) context.deadOffsets
  if ranges.isEmpty then return []
  else
    let caught ← PoolM.optional range.caught PoolM.cls
    return ranges.map fun r =>
      Bytes.ofU16 r.1.toUInt16 ++ Bytes.ofU16 r.2.toUInt16 ++ Bytes.ofU16 handler ++
        Bytes.ofU16 caught

/-- The table of exceptions. -/
def exceptionTable : PoolM Bytes := do
  let ranges := (← context.code.exceptions.mapM (exceptionRanges context)).flatten
  let count ← count16 (.tooMany "exception table entries") ranges.length
  return count ++ ranges.flatten

/-- A type in a frame. -/
def vtype : VType → PoolM Bytes
  | .top => return [0]
  | .int => return [1]
  | .float => return [2]
  | .double => return [3]
  | .long => return [4]
  | .null => return [5]
  | .uninitializedThis => return [6]
  | .object name => do return 7 :: Bytes.ofU16 (← PoolM.cls name)
  | .uninitialized index => return 8 :: Bytes.ofU16 (context.layout.offsetOf index).toUInt16

/-- The frame of code that is never executed: the value to be thrown is on the stack. -/
def deadFrame : Frame :=
  ⟨[], [.object ClassName.javaThrowable]⟩

/-- A frame, given as how far it is behind the one before. -/
def fullFrame (delta : Nat) (frame : Frame) : PoolM Bytes := do
  let locals ← listOf "locals in frame" (Frame.compactLocals frame.locals) (vtype context)
  let stack ← listOf "stack entries in frame" frame.stack.reverse (vtype context)
  return 255 :: Bytes.ofU16 delta.toUInt16 ++ locals ++ stack

/-- The frames at some instructions.  `previous` is where the frame before was. -/
def fullFrames (frames : Array (Option Frame)) (previous : Option Nat) (done : List Bytes) :
    List Nat → PoolM Bytes
  | [] => pure done.reverse.flatten
  | index :: rest => do
      let offset := context.layout.offsetOf index
      let delta :=
        match previous with
        | some before => offset - before - 1
        | none => offset
      match frames[index]? with
      | none => (fail (.outOfRange frames.size index) : Except Error Bytes)
      | some frame =>
          let bytes ← fullFrame context delta (frame.getD deadFrame)
          fullFrames frames (some offset) (bytes :: done) rest

/-- The attribute with the frames, if there are any. -/
def stackMapTable? (indices : List Nat) : Option (PoolM Bytes) :=
  match context.frames with
  | none => none
  | some frames =>
      given (!indices.isEmpty) <| sized "StackMapTable" do
        let count ← count16 (.tooMany "frames") indices.length
        return count ++ (← fullFrames context frames none [] indices)

/-- The attribute with the line numbers. -/
def lineNumberTable (lines : List (Label × UInt16)) : PoolM Bytes :=
  sized "LineNumberTable" <| listOf "line numbers" lines fun line => do
    return Bytes.ofU16 (← context.layout.offsetOfLabel line.1) ++ Bytes.ofU16 line.2

/-- An entry for a local variable, with the given text about its type. -/
def variableEntry (variable' : LocalVariable) (type : String) : PoolM Bytes := do
  let start ← context.layout.offsetOfLabel variable'.start
  let stop ← context.layout.offsetOfLabel variable'.stop
  if stop < start then PoolM.refuse (.backwardRange variable'.start.id variable'.stop.id)
  else
    let name ← PoolM.utf8 variable'.name
    let type ← PoolM.utf8 type
    return Bytes.ofU16 start ++ Bytes.ofU16 (stop - start) ++ Bytes.ofU16 name ++
      Bytes.ofU16 type ++ Bytes.ofU16 variable'.slot

/-- An attribute about local variables, if it has any entries.  `type?` is what it says of their
types, and messages call the entries `what`. -/
def variableTable? (name what : String) (locals : List LocalVariable)
    (type? : LocalVariable → Option String) : Option (PoolM Bytes) :=
  let entries := locals.filterMap fun v => (type? v).map fun type => (v, type)
  given (!entries.isEmpty) <| sized name <| listOf what entries fun entry =>
    variableEntry context entry.1 entry.2

/-- The attributes of code. -/
def attributes (computeFrames : Bool) (indices : List Nat) : Attributes :=
  let locals := context.code.localVariables.getD []
  [if computeFrames then stackMapTable? context indices else none,
    context.code.lineNumbers.map (lineNumberTable context),
    variableTable? context "LocalVariableTable" "local variables" locals
      LocalVariable.descriptor,
    variableTable? context "LocalVariableTypeTable" "local variable types" locals
      LocalVariable.signature] ++
    context.code.attributes.map fun kept => some (raw kept)

end Context

/-- The size of the stack and the frames of code, where the frames may be unknown if none are to be
written. -/
def analysis {σ : Type} (supers : SuperClasses σ) (computeFrames : Bool) (cls : ClassName)
    (method : Method) (code : Code) (maxLocals : UInt16) :
    Task σ (UInt16 × Option (Array (Option Frame))) :=
  if computeFrames then do
    let found ← (Frame.analyze supers cls method code maxLocals).within (.write .frames)
    return (found.maxStack, some found.frames)
  else
    fun state =>
      match Frame.analyze (SuperClasses.objectOnly σ) cls method code maxLocals state with
      | (.ok found, state) => (.ok (found.maxStack, some found.frames), state)
      | (.error error, state) =>
          if error.isFatal then (.error error, state)
          else
            match code.maxStack with
            | some maxStack => (.ok (maxStack, none), state)
            | none => (.error error, state)

/-- The contents of the attribute with a method's code, behind the sizes. -/
def codeBody (computeFrames : Bool) (code : Code) (frames : Option (Array (Option Frame))) :
    PoolM Bytes := do
  let items ← items code.instructions
  let layout ← Layout.ofItems items code.lastLabel
  if layout.size = 0 then PoolM.refuse (.codeLength 0)
  else
    let context : Context := ⟨code, layout, frames⟩
    let indices ← context.frameIndices
    let exceptions ← context.exceptionTable
    let attributes ← present (context.attributes computeFrames indices)
    return Bytes.ofU32 layout.size.toUInt32 ++ context.bytes ++ exceptions ++
      (← counted "code" attributes)

/-- The contents of the attribute with a method's code. -/
def code {σ : Type} (supers : SuperClasses σ) (computeFrames : Bool) (cls : ClassName)
    (method : Method) (code : Code) : Emit σ Bytes := do
  let maxLocals ← (maxLocals method code : Except Error UInt16)
  let (maxStack, frames) ←
    (analysis supers computeFrames cls method code maxLocals : Task σ _)
  let body ← (codeBody computeFrames code frames : PoolM Bytes)
  return Bytes.ofU16 maxStack ++ Bytes.ofU16 maxLocals ++ body

end Encode

end Downlevel
