import Downlevel.Frame.Basic

/-!
# What an instruction does to a frame

An instruction takes values from the stack, puts others on it, and may change a local variable.  A
step fails if the stack does not have what the instruction takes.
-/

namespace Downlevel

namespace Frame

/-- Work on a frame that can fail. -/
abbrev StepM := StateT Frame (Except Error)

namespace StepM

/-- Fails with a fault of frames. -/
def refuse {α : Type} (fault : FrameFault) : StepM α :=
  fun _ => fail (.frame fault)

/-- Takes the topmost value. -/
def pop : StepM VType :=
  fun frame =>
    match frame.stack with
    | type :: rest => .ok (type, { frame with stack := rest })
    | [] => fail (.frame .stackUnderflow)

/-- Takes the topmost `n` values. -/
def popMany : Nat → StepM Unit
  | 0 => pure ()
  | n + 1 => do
      let _ ← pop
      popMany n

/-- Splits off the topmost values that take `slots` slots.  They must not end inside a value. -/
def splitSlots (slots : Nat) : Nat → List VType → List VType →
    Except Error (List VType × List VType)
  | size, taken, stack =>
      if size < slots then
        match stack with
        | [] => fail (.frame .stackUnderflow)
        | type :: rest => splitSlots slots (size + type.size) (type :: taken) rest
      else if size = slots then .ok (taken.reverse, stack)
      else fail (.frame (.splitValue slots))
termination_by _ _ stack => stack.length

/-- Takes the topmost values that take exactly `slots` slots, the topmost first. -/
def popSlots (slots : Nat) : StepM (List VType) :=
  fun frame => do
    let (taken, rest) ← splitSlots slots 0 [] frame.stack
    return (taken, { frame with stack := rest })

/-- Puts a value on the stack. -/
def push (type : VType) : StepM Unit :=
  fun frame => .ok ((), { frame with stack := type :: frame.stack })

/-- Puts values on the stack, of which the first comes to stand on top. -/
def pushAll (types : List VType) : StepM Unit :=
  fun frame => .ok ((), { frame with stack := types ++ frame.stack })

/-- The type of a local variable. -/
def load (slot : UInt16) : StepM VType :=
  fun frame =>
    match frame.locals[slot.toNat]? with
    | some type => .ok (type, frame)
    | none => fail (.frame (.localOutOfBounds slot.toNat))

/-- The local variables after a value was stored in a slot.  A value whose upper half was in that
slot is lost, and the upper half of the new value becomes unusable. -/
def storeIn (type : VType) : Nat → List VType → List VType
  | 0, _ :: rest => type :: (if type.isWide then VType.top :: rest.drop 1 else rest)
  | 1, below :: rest =>
      (if below.isWide then VType.top else below) :: storeIn type 0 rest
  | n + 1, below :: rest => below :: storeIn type n rest
  | _, [] => []

/-- Stores a value in a local variable. -/
def store (slot : UInt16) (type : VType) : StepM Unit :=
  fun frame =>
    if frame.locals.length < slot.toNat + type.size then
      fail (.frame (.localOutOfBounds slot.toNat))
    else .ok ((), { frame with locals := storeIn type slot.toNat frame.locals })

/-- Puts one type in place of another everywhere. -/
def replace (old new : VType) : StepM Unit :=
  fun frame =>
    let change (type : VType) : VType := if type = old then new else type
    .ok ((), ⟨frame.locals.map change, frame.stack.map change⟩)

end StepM

end Frame

/-- What an instruction without operands does to the stack. -/
inductive StackEffect where
  /-- Takes a number of values and gives at most one. -/
  | exchange (taken : Nat) (given : Option VType)
  /-- Takes an array and an index and gives an element. -/
  | element
  /-- Takes a number of slots. -/
  | discard (slots : Nat)
  /-- Puts a copy of the topmost slots below those under them. -/
  | duplicate (slots under : Nat)
  /-- Exchanges the two topmost values. -/
  | swap

namespace Op

/-- What an instruction does to the stack. -/
def effect : Op → StackEffect
  | nop | returnVoid => .exchange 0 none
  | aconstNull => .exchange 0 (some .null)
  | iconstM1 | iconst0 | iconst1 | iconst2 | iconst3 | iconst4 | iconst5 => .exchange 0 (some .int)
  | lconst0 | lconst1 => .exchange 0 (some .long)
  | fconst0 | fconst1 | fconst2 => .exchange 0 (some .float)
  | dconst0 | dconst1 => .exchange 0 (some .double)
  | iaload | baload | caload | saload => .exchange 2 (some .int)
  | laload => .exchange 2 (some .long)
  | faload => .exchange 2 (some .float)
  | daload => .exchange 2 (some .double)
  | aaload => .element
  | iastore | lastore | fastore | dastore | aastore | bastore | castore | sastore =>
      .exchange 3 none
  | pop => .discard 1
  | pop2 => .discard 2
  | dup => .duplicate 1 0
  | dupX1 => .duplicate 1 1
  | dupX2 => .duplicate 1 2
  | dup2 => .duplicate 2 0
  | dup2X1 => .duplicate 2 1
  | dup2X2 => .duplicate 2 2
  | swap => .swap
  | iadd | isub | imul | idiv | irem | ishl | ishr | iushr | iand | ior | ixor =>
      .exchange 2 (some .int)
  | lcmp | fcmpl | fcmpg | dcmpl | dcmpg => .exchange 2 (some .int)
  | ladd | lsub | lmul | ldiv | lrem | lshl | lshr | lushr | land | lor | lxor =>
      .exchange 2 (some .long)
  | fadd | fsub | fmul | fdiv | frem => .exchange 2 (some .float)
  | dadd | dsub | dmul | ddiv | drem => .exchange 2 (some .double)
  | ineg | l2i | f2i | d2i | i2b | i2c | i2s | arraylength => .exchange 1 (some .int)
  | lneg | i2l | f2l | d2l => .exchange 1 (some .long)
  | fneg | i2f | l2f | d2f => .exchange 1 (some .float)
  | dneg | i2d | l2d | f2d => .exchange 1 (some .double)
  | ireturn | lreturn | freturn | dreturn | areturn | athrow | monitorenter | monitorexit =>
      .exchange 1 none

/-- Whether execution ends with an instruction. -/
def isEnd : Op → Bool
  | ireturn | lreturn | freturn | dreturn | areturn | returnVoid | athrow => true
  | _ => false

end Op

namespace ClassName

/-- The class of arrays with elements of a class. -/
def arrayOf (name : ClassName) : ClassName :=
  if name.isArray then "[" ++ name else "[L" ++ name ++ ";"

end ClassName

namespace Frame

open StepM

/-- The type of the elements of an array.  An access to null is left to fail when it is run. -/
def elementType (array : VType) : Except Error VType :=
  match array with
  | .object name =>
      match name.toList with
      | '[' :: element => VType.ofDescriptor (String.ofList element)
      | _ => fail (.frame (.elementOfClass name))
  | .null => .ok .null
  | other => fail (.frame (.elementOf other.text))

/-- Does what an instruction without operands does. -/
def runEffect : StackEffect → StepM Unit
  | .exchange taken given => do
      popMany taken
      match given with
      | some type => push type
      | none => pure ()
  | .element => do
      let _ ← pop
      let array ← pop
      push (← elementType array)
  | .discard slots => do
      let _ ← popSlots slots
  | .duplicate slots under => do
      let taken ← popSlots slots
      let below ← popSlots under
      pushAll (taken ++ below ++ taken)
  | .swap => do
      let first ← popSlots 1
      let second ← popSlots 1
      pushAll (second ++ first)

/-- The type of a value that is loaded. -/
def loadedType : Loadable → Except Error VType
  | .int _ => .ok .int
  | .float _ => .ok .float
  | .long _ => .ok .long
  | .double _ => .ok .double
  | .cls _ => .ok (.object ClassName.javaClass)
  | .string _ => .ok (.object ClassName.javaString)
  | .handle _ => .ok (.object ClassName.methodHandle)
  | .methodType _ => .ok (.object ClassName.methodType)
  | .dynamic _ descriptor _ _ => VType.ofDescriptor descriptor

/-- The class of the object that the instruction at an index creates. -/
def createdClass (code : Array Instruction) (index : Nat) : Except Error ClassName :=
  match code[index]? with
  | some (.new name) => .ok name
  | _ => fail (.frame (.notCreation index))

/-- Puts the result of a call on the stack, if there is one. -/
def pushResult (type : MethodType) : StepM Unit :=
  match type.result with
  | some result => push (VType.ofType result)
  | none => pure ()

/-- Does what a call on a receiver does. -/
def runCall (target : MethodRef) : StepM Unit := do
  let type ← MethodType.parse target.descriptor
  popMany type.parameters.length
  let _ ← pop
  pushResult type

/-- Does what a special call does.  The call of a constructor makes the object usable. -/
def runSpecialCall (cls : ClassName) (code : Array Instruction) (target : MethodRef) :
    StepM Unit := do
  let type ← MethodType.parse target.descriptor
  popMany type.parameters.length
  let receiver ← pop
  if target.name = MethodName.constructor then
    match receiver with
    | .uninitializedThis => replace receiver (.object cls)
    | .uninitialized index => replace receiver (.object (← createdClass code index))
    | _ => pure ()
  pushResult type

/-- Does what the instruction at an index of the code of a class does. -/
def run (cls : ClassName) (code : Array Instruction) (index : Nat) : Instruction → StepM Unit
  | .op op => runEffect op.effect
  | .bipush _ => push .int
  | .sipush _ => push .int
  | .ldc value => do push (← loadedType value)
  | .load .int _ => push .int
  | .load .long _ => push .long
  | .load .float _ => push .float
  | .load .double _ => push .double
  | .load .reference slot => do push (← load slot)
  | .store _ slot => do store slot (← pop)
  | .iinc _ _ => pure ()
  | .branch condition _ => popMany (if condition.isBinary then 2 else 1)
  | .goto _ => pure ()
  | .jsr _ => push .top
  | .ret _ => pure ()
  | .tableswitch _ _ _ _ => popMany 1
  | .lookupswitch _ _ => popMany 1
  | .field .getStatic target => do push (← VType.ofDescriptor target.descriptor)
  | .field .putStatic _ => popMany 1
  | .field .getField target => do
      popMany 1
      push (← VType.ofDescriptor target.descriptor)
  | .field .putField _ => popMany 2
  | .invokevirtual target => runCall target
  | .invokeinterface target => runCall target
  | .invokespecial target _ => runSpecialCall cls code target
  | .invokestatic target _ => do
      let type ← MethodType.parse target.descriptor
      popMany type.parameters.length
      pushResult type
  | .invokedynamic site => do
      let type ← MethodType.parse site.descriptor
      popMany type.parameters.length
      pushResult type
  | .new _ => push (.uninitialized index)
  | .newarray element => do
      popMany 1
      push (.object element.arrayClass)
  | .anewarray name => do
      popMany 1
      push (.object (ClassName.arrayOf name))
  | .checkcast name => do
      popMany 1
      push (.object name)
  | .instanceof _ => do
      popMany 1
      push .int
  | .multianewarray name dimensions => do
      popMany dimensions.toNat
      push (.object name)

/-- The frame after the instruction at an index of the code of a class. -/
def after (cls : ClassName) (code : Array Instruction) (index : Nat) (instruction : Instruction)
    (frame : Frame) : Except Error Frame :=
  (run cls code index instruction frame).map Prod.snd

end Frame

end Downlevel
