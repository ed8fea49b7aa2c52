import Mathlib.Logic.Function.Iterate
import Downlevel.Frame.Step
import Downlevel.Lower.MatchFailure
import Downlevel.Proofs.Running.Machine

/-!
# A machine with objects

A machine for the code of any method.  Objects have an identity: a reference names one, and what is
done to it through one reference is seen through all others.  So an object can be created by one
instruction, copied on the stack, and made usable by a constructor that takes one of the copies.

The machine knows the constructors of two exceptions, and how texts are put together.  All other
calls, and constants that are computed, are left to the program around the code, which may change
everything there is.  So are the rules of numbers.  An instruction that finds something else on the
stack than it works on gets the machine stuck; verified code never does that.

* `perform` — what an instruction does to the stack, the local variables and the objects;
* `step` — how code goes on: behind an instruction, at a label, behind the call of a subroutine, or
  in the first handler around that catches what was thrown.
-/

namespace Downlevel

namespace Machine

/-- A number. -/
inductive Number where
  | int (value : Int32)
  | long (value : Int64)
  | float (bits : UInt32)
  | double (bits : UInt64)
  deriving DecidableEq

/-- A value.  For a constant that is an object there is one object, wherever it is loaded. -/
inductive Value where
  | number (value : Number)
  | null
  | constant (value : Loadable)
  | object (id : Nat)
  deriving DecidableEq

/-- What stands in one place of the stack or in a local variable: a value, or the index of an
instruction to return to from a subroutine. -/
inductive Cell where
  | value (value : Value)
  | place (index : Nat)

/-- How far an object is: just created, handed to a constructor, or usable. -/
inductive Progress where
  | created
  | entered
  | ready
  deriving DecidableEq

/-- What was given to an exception as its message: nothing, or a text that may be missing. -/
inductive Message where
  | absent
  | given (text : Option JavaString)
  deriving DecidableEq

/-- An object. -/
inductive Object where
  | record (cls : ClassName) (progress : Progress) (fields : FieldRef → Value)
  | text (value : JavaString)
  | failure (cls : ClassName) (message : Message) (cause : Option Value)
  | array (cls : ClassName) (elements : List Value)

/-- All objects, each at its number, and the fields of classes. -/
structure World where
  heap : List Object
  statics : FieldRef → Value

/-- What code works on: the stack with its top first, the local variables, and the world. -/
structure State where
  stack : List Cell
  locals : UInt16 → Option Cell
  world : World

/-- What a call comes to. -/
inductive Outcome where
  | returned (value : Option Value) (world : World)
  | threw (exception : Value) (world : World)
  | stuck

/-- What the program around the code settles. -/
structure Surroundings where
  /-- Whether objects of the first class are instances of the second one. -/
  isA : ClassName → ClassName → Bool
  /-- The field that is found under a reference. -/
  declared : FieldRef → FieldRef
  /-- What an instruction makes of numbers, the topmost first; nothing if it throws. -/
  calculate : Op → List Number → Option Number
  /-- What is left of a number in an array of a class. -/
  kept : ClassName → Number → Number
  /-- What a call does, or the computation of a constant. -/
  call : Instruction → List Value → World → Outcome

/-- Why an instruction does not come to its end. -/
inductive Stop where
  | threw (exception : Value) (world : World)
  | stuck

/-- Work on the state. -/
abbrev Act := StateT State (Except Stop)

/-- Where code goes on. -/
inductive Next where
  | behind
  | jump (target : Label)
  | back (index : Nat)
  | finish (value : Option Value)

namespace Number

/-- The kind of a number. -/
def kind : Number → ValueKind
  | int _ => .int
  | long _ => .long
  | float _ => .float
  | double _ => .double

end Number

namespace Value

/-- The kind of a value. -/
def kind : Value → ValueKind
  | number value => value.kind
  | _ => .reference

/-- The value of a number of 32 bits. -/
def int (value : Int32) : Value :=
  number (.int value)

/-- A truth value. -/
def ofBool (b : Bool) : Value :=
  int (if b then 1 else 0)

/-- What is in a field or in an element of an array before something is put there. -/
def zero (descriptor : FieldDescriptor) : Value :=
  match descriptor.toList with
  | 'J' :: _ => number (.long 0)
  | 'F' :: _ => number (.float 0)
  | 'D' :: _ => number (.double 0)
  | 'L' :: _ => null
  | '[' :: _ => null
  | _ => int 0

/-- The value of a constant that need not be computed. -/
def ofLoadable? : Loadable → Option Value
  | .int value => some (int value)
  | .long value => some (number (.long value))
  | .float bits => some (number (.float bits))
  | .double bits => some (number (.double bits))
  | .dynamic _ _ _ _ => none
  | other => some (constant other)

end Value

namespace Cell

/-- The kind of what stands in a place. -/
def kind : Cell → ValueKind
  | .value held => held.kind
  | .place _ => .reference

end Cell

namespace Object

/-- The class of an object. -/
def cls : Object → ClassName
  | record cls _ _ => cls
  | text _ => ClassName.javaString
  | failure cls _ _ => cls
  | array cls _ => cls

/-- A new object of a class. -/
def fresh (cls : ClassName) (progress : Progress) : Object :=
  record cls progress fun field => Value.zero field.descriptor

end Object

namespace World

variable (world : World)

/-- The class of the object that a value refers to. -/
def classOf? : Value → Option ClassName
  | .constant (.cls _) => some ClassName.javaClass
  | .constant (.string _) => some ClassName.javaString
  | .constant (.handle _) => some ClassName.methodHandle
  | .constant (.methodType _) => some ClassName.methodType
  | .object id => (world.heap[id]?).map Object.cls
  | _ => none

/-- The text that a value refers to. -/
def textOf? : Value → Option JavaString
  | .constant (.string text) => some text
  | .object id =>
      match world.heap[id]? with
      | some (.text text) => some text
      | _ => none
  | _ => none

/-- The text that a value refers to, which may be missing. -/
def messageOf? : Value → Option (Option JavaString)
  | .null => some none
  | value => (world.textOf? value).map some

/-- The world with one more object. -/
def add (object : Object) : World :=
  { world with heap := world.heap ++ [object] }

/-- The world with another object at a number. -/
def set (id : Nat) (object : Object) : World :=
  { world with heap := world.heap.set id object }

end World

/-! ## Small pieces of work -/

section Pieces

variable {α : Type}

/-- Finds nothing to work on. -/
def stuck : Act α :=
  fun _ => .error .stuck

/-- Throws. -/
def throwing (exception : Value) : Act α :=
  fun state => .error (.threw exception state.world)

/-- Takes what stands on top. -/
def pop : Act Cell :=
  fun state =>
    match state.stack with
    | cell :: rest => .ok (cell, { state with stack := rest })
    | [] => .error .stuck

/-- Puts something on top. -/
def push (cell : Cell) : Act Unit :=
  fun state => .ok ((), { state with stack := cell :: state.stack })

/-- Puts a value on top. -/
def pushValue (value : Value) : Act Unit :=
  push (.value value)

/-- What is in a local variable. -/
def load (slot : UInt16) : Act Cell :=
  fun state =>
    match state.locals slot with
    | some cell => .ok (cell, state)
    | none => .error .stuck

/-- The local variables with something else in one of them.  A wide value takes the variable behind
as well, and one that had its second half here is lost. -/
def storeIn (locals : UInt16 → Option Cell) (slot : UInt16) (cell : Cell) : UInt16 → Option Cell :=
  fun other =>
    if other = slot then some cell
    else if cell.kind.isWide && other = slot + 1 then none
    else if other + 1 = slot && (locals other).any (·.kind.isWide) then none
    else locals other

/-- Puts something in a local variable. -/
def store (slot : UInt16) (cell : Cell) : Act Unit :=
  fun state => .ok ((), { state with locals := storeIn state.locals slot cell })

/-- All there is. -/
def world : Act World :=
  fun state => .ok (state.world, state)

/-- Makes a new object. -/
def create (object : Object) : Act Value :=
  fun state =>
    .ok (.object state.world.heap.length, { state with world := state.world.add object })

/-- The object of a number. -/
def read (id : Nat) : Act Object :=
  fun state =>
    match state.world.heap[id]? with
    | some object => .ok (object, state)
    | none => .error .stuck

/-- Changes the object of a number. -/
def write (id : Nat) (object : Object) : Act Unit :=
  fun state => .ok ((), { state with world := state.world.set id object })

/-- Changes a field of a class. -/
def writeStatic (field : FieldRef) (value : Value) : Act Unit :=
  fun state =>
    .ok ((), { state with world :=
      { state.world with statics := Function.update state.world.statics field value } })

/-- Throws a new exception of a class. -/
def raise (cls : ClassName) : Act α := do
  throwing (← create (.fresh cls .ready))

/-- Takes a value. -/
def popValue : Act Value := do
  match ← pop with
  | .value value => pure value
  | .place _ => stuck

/-- Takes a number. -/
def popNumber : Act Number := do
  match ← popValue with
  | .number number => pure number
  | _ => stuck

/-- Takes a number of 32 bits. -/
def popInt : Act Int32 := do
  match ← popNumber with
  | .int value => pure value
  | _ => stuck

/-- Takes a value of a kind. -/
def popKind (kind : ValueKind) : Act Value := do
  let value ← popValue
  if value.kind = kind then pure value else stuck

/-- What is thrown when there is no object to work on. -/
def nullPointer : ClassName := "java/lang/NullPointerException"

/-- Takes a reference to an object. -/
def popObject : Act Value := do
  let value ← popKind .reference
  if value = .null then raise nullPointer else pure value

/-- Takes numbers, the topmost first. -/
def popNumbers : Nat → Act (List Number)
  | 0 => pure []
  | count + 1 => do
      let number ← popNumber
      return number :: (← popNumbers count)

/-- Takes arguments of the given types, of which the last one stands on top.  The types are given
the last one first. -/
def popArguments : List JavaType → Act (List Value)
  | [] => pure []
  | type :: rest => do
      let value ← popKind type.kind
      return (← popArguments rest) ++ [value]

end Pieces

/-! ## Instructions without operands -/

/-- What an instruction without operands does. -/
inductive Work where
  | nothing
  | null
  | constant (number : Number)
  /-- Takes numbers and makes one of them. -/
  | calculate (count : Nat)
  | discard (slots : Nat)
  | duplicate (slots under : Nat)
  | swap
  | getElement (kind : ValueKind)
  | putElement (kind : ValueKind)
  | length
  | finish (kind : Option ValueKind)
  | throw
  /-- There is nobody else who could hold the lock of an object. -/
  | lock

/-- What an instruction without operands does. -/
def work (op : Op) : Work :=
  match op with
  | .nop => .nothing
  | .aconstNull => .null
  | .iconstM1 => .constant (.int (-1))
  | .iconst0 => .constant (.int 0)
  | .iconst1 => .constant (.int 1)
  | .iconst2 => .constant (.int 2)
  | .iconst3 => .constant (.int 3)
  | .iconst4 => .constant (.int 4)
  | .iconst5 => .constant (.int 5)
  | .lconst0 => .constant (.long 0)
  | .lconst1 => .constant (.long 1)
  | .fconst0 => .constant (.float 0)
  | .fconst1 => .constant (.float 0x3f800000)
  | .fconst2 => .constant (.float 0x40000000)
  | .dconst0 => .constant (.double 0)
  | .dconst1 => .constant (.double 0x3ff0000000000000)
  | .iaload | .baload | .caload | .saload => .getElement .int
  | .laload => .getElement .long
  | .faload => .getElement .float
  | .daload => .getElement .double
  | .aaload => .getElement .reference
  | .iastore | .bastore | .castore | .sastore => .putElement .int
  | .lastore => .putElement .long
  | .fastore => .putElement .float
  | .dastore => .putElement .double
  | .aastore => .putElement .reference
  | .ireturn => .finish (some .int)
  | .lreturn => .finish (some .long)
  | .freturn => .finish (some .float)
  | .dreturn => .finish (some .double)
  | .areturn => .finish (some .reference)
  | .returnVoid => .finish none
  | .arraylength => .length
  | .athrow => .throw
  | .monitorenter | .monitorexit => .lock
  | _ =>
      match op.effect with
      | .discard slots => .discard slots
      | .duplicate slots under => .duplicate slots under
      | .swap => .swap
      | .exchange count _ => .calculate count
      | .element => .nothing

/-- Splits off what takes a number of slots, the topmost first.  It must not end inside a wide
value. -/
def splitSlots : Nat → List Cell → Option (List Cell × List Cell)
  | 0, rest => some ([], rest)
  | _, [] => none
  | count + 1, cell :: rest =>
      if cell.kind.isWide then
        if count = 0 then none
        else (splitSlots (count - 1) rest).map fun (taken, rest) => (cell :: taken, rest)
      else (splitSlots count rest).map fun (taken, rest) => (cell :: taken, rest)

/-- Takes what takes a number of slots. -/
def popSlots (slots : Nat) : Act (List Cell) :=
  fun state =>
    match splitSlots slots state.stack with
    | some (taken, rest) => .ok (taken, { state with stack := rest })
    | none => .error .stuck

/-- Puts things on the stack, of which the first comes to stand on top. -/
def pushAll (cells : List Cell) : Act Unit :=
  fun state => .ok ((), { state with stack := cells ++ state.stack })

/-- The descriptor of what is in the arrays of a class. -/
def elementDescriptor (array : ClassName) : FieldDescriptor :=
  String.ofList (array.toList.drop 1)

/-- The class of what is in the arrays of a class, if they hold references. -/
def elementClass (array : ClassName) : ClassName :=
  match array.toList.drop 1 with
  | 'L' :: rest => String.ofList rest.dropLast
  | name => String.ofList name

/-- What is thrown when an array has no element of an index. -/
def badIndex : ClassName := "java/lang/ArrayIndexOutOfBoundsException"

/-- What is thrown when an array does not take an object. -/
def badElement : ClassName := "java/lang/ArrayStoreException"

/-- What is thrown when a new array is to have less than no elements. -/
def badLength : ClassName := "java/lang/NegativeArraySizeException"

/-- What is thrown when a number cannot be calculated. -/
def badNumber : ClassName := "java/lang/ArithmeticException"

/-- What is thrown when an object is not of the class that it is said to be of. -/
def badCast : ClassName := "java/lang/ClassCastException"

/-- The number, the class and the elements of an array. -/
def readArray : Value → Act (Nat × ClassName × List Value)
  | .object id => do
      match ← read id with
      | .array cls elements => pure (id, cls, elements)
      | _ => stuck
  | _ => stuck

/-- The index in a list that a number stands for. -/
def indexIn? (length : Nat) (index : Int32) : Option Nat :=
  if 0 ≤ index.toInt ∧ index.toInt < length then some index.toInt.toNat else none

section Perform

variable (around : Surroundings)

/-- Gets an element of an array. -/
def getElement (kind : ValueKind) : Act Unit := do
  let index ← popInt
  let (_, _, elements) ← readArray (← popObject)
  match indexIn? elements.length index with
  | none => raise badIndex
  | some place =>
      match elements[place]? with
      | some value => if value.kind = kind then pushValue value else stuck
      | none => stuck

/-- What comes to be in an array for a value, if the array takes it. -/
def accepted? (world : World) (cls : ClassName) : Value → Option Value
  | .number number => some (.number (around.kept cls number))
  | .null => some .null
  | value =>
      if (world.classOf? value).any (around.isA · (elementClass cls)) then some value else none

/-- Puts an element in an array. -/
def putElement (kind : ValueKind) : Act Unit := do
  let value ← popKind kind
  let index ← popInt
  let (id, cls, elements) ← readArray (← popObject)
  match indexIn? elements.length index with
  | none => raise badIndex
  | some place =>
      match accepted? around (← world) cls value with
      | some element => write id (.array cls (elements.set place element))
      | none => raise badElement

/-- Performs an instruction without operands. -/
def performOp (op : Op) : Act Next :=
  match work op with
  | .nothing => pure .behind
  | .null => do
      pushValue .null
      pure .behind
  | .constant number => do
      pushValue (.number number)
      pure .behind
  | .calculate count => do
      match around.calculate op (← popNumbers count) with
      | some number => do
          pushValue (.number number)
          pure .behind
      | none => raise badNumber
  | .discard slots => do
      let _ ← popSlots slots
      pure .behind
  | .duplicate slots under => do
      let taken ← popSlots slots
      let below ← popSlots under
      pushAll (taken ++ below ++ taken)
      pure .behind
  | .swap => do
      let first ← popSlots 1
      let second ← popSlots 1
      pushAll (second ++ first)
      pure .behind
  | .getElement kind => do
      getElement kind
      pure .behind
  | .putElement kind => do
      putElement around kind
      pure .behind
  | .length => do
      let (_, _, elements) ← readArray (← popObject)
      pushValue (.int (Int32.ofNat elements.length))
      pure .behind
  | .finish none => pure (.finish none)
  | .finish (some kind) => do
      let value ← popKind kind
      pure (.finish (some value))
  | .throw => do
      throwing (← popObject)
  | .lock => do
      let _ ← popObject
      pure .behind

/-! ## Calls -/

/-- The method that makes a text of any object, or of none. -/
def valueOf : MethodRef :=
  ⟨ClassName.javaString, "valueOf", "(Ljava/lang/Object;)Ljava/lang/String;"⟩

/-- The method that puts one text behind another. -/
def concat : MethodRef :=
  ⟨ClassName.javaString, "concat", "(Ljava/lang/String;)Ljava/lang/String;"⟩

/-- The outcome of the methods for texts: an object that there is already, or a new text. -/
inductive Written where
  | old (value : Value)
  | new (text : JavaString)

/-- What the methods for texts give, for the arguments that the machine knows about.  Nothing is
made a text of its own, and a text behind which nothing is put is left as it is. -/
def written? (world : World) : Instruction → List Value → Option Written
  | .invokestatic target _, [argument] =>
      if target = valueOf then
        if argument = .null then some (.old (.constant (.string Running.nullText)))
        else (world.textOf? argument).map fun _ => .old argument
      else none
  | .invokevirtual target, [receiver, argument] =>
      if target = concat then
        match world.textOf? receiver, world.textOf? argument with
        | some front, some back =>
            some (if back.units = [] then .old receiver else .new (front.append back))
        | _, _ => none
      else none
  | _, _ => none

/-- Whether the machine knows the constructors of a class. -/
def isKnown (cls : ClassName) : Bool :=
  cls = MatchFailure.exception || cls = MatchFailure.replacement

/-- What a constructor of an exception is given, if the machine knows it: the message and the
cause. -/
def given? (descriptor : MethodDescriptor) : List Value → Option (Option Value × Option Value)
  | [] => if descriptor = "()V" then some (none, none) else none
  | [message] => if descriptor = "(Ljava/lang/String;)V" then some (some message, none) else none
  | [message, cause] =>
      if descriptor = "(Ljava/lang/String;Ljava/lang/Throwable;)V" then
        some (some message, some cause)
      else none
  | _ => none

/-- Leaves a call to the program around the code. -/
def leave (instruction : Instruction) (arguments : List Value) : Act (Option Value) :=
  fun state =>
    match around.call instruction arguments state.world with
    | .returned value world => .ok (value, { state with world := world })
    | .threw exception world => .error (.threw exception world)
    | .stuck => .error .stuck

/-- The message that a constructor is given. -/
def messageIn? (world : World) : Option Value → Option Message
  | none => some .absent
  | some value => (world.messageOf? value).map .given

/-- Calls a constructor of an exception. -/
def makeFailure (id : Nat) (cls : ClassName) (message cause : Option Value) : Act (Option Value) := do
  match messageIn? (← world) message with
  | some message => do
      write id (.failure cls message cause)
      pure none
  | none => stuck

/-- Calls a constructor.  An object that was just created takes a constructor of its own class.  A
constructor hands its object to one of the super class; the class of the first exception has no
other classes below it. -/
def construct (instruction : Instruction) (target : MethodRef) (receiver : Value)
    (arguments : List Value) : Act (Option Value) :=
  match receiver with
  | .object id => do
      match ← read id with
      | .record cls .created _ =>
          if cls = target.owner then
            match given? target.descriptor arguments with
            | some (message, cause) =>
                if isKnown cls then makeFailure id cls message cause
                else leave around instruction (receiver :: arguments)
            | none => leave around instruction (receiver :: arguments)
          else stuck
      | .record _ .entered _ =>
          if target.owner = MatchFailure.exception then stuck
          else leave around instruction (receiver :: arguments)
      | _ => stuck
  | _ => stuck

/-- Calls a method that is no constructor. -/
def invoke (instruction : Instruction) (arguments : List Value) : Act (Option Value) := do
  match written? (← world) instruction arguments with
  | some (.old value) => pure (some value)
  | some (.new text) => do
      let value ← create (.text text)
      pure (some value)
  | none => leave around instruction arguments

/-- Puts the result of a call on the stack, if there is one. -/
def pushResult : Option Value → Act Unit
  | some value => pushValue value
  | none => pure ()

/-- Calls a method without a receiver. -/
def callStatic (instruction : Instruction) (descriptor : MethodDescriptor) : Act Next :=
  match MethodType.parse descriptor with
  | .ok type => do
      let arguments ← popArguments type.parameters.reverse
      pushResult (← invoke around instruction arguments)
      pure .behind
  | .error _ => stuck

/-- Calls a method on a receiver. -/
def callOn (instruction : Instruction) (target : MethodRef) : Act Next :=
  match MethodType.parse target.descriptor with
  | .ok type => do
      let arguments ← popArguments type.parameters.reverse
      let receiver ← popObject
      pushResult (← invoke around instruction (receiver :: arguments))
      pure .behind
  | .error _ => stuck

/-- Calls a method of just the class that is named, or a constructor. -/
def callSpecial (instruction : Instruction) (target : MethodRef) : Act Next :=
  if target.name = MethodName.constructor then
    match MethodType.parse target.descriptor with
    | .ok type => do
        let arguments ← popArguments type.parameters.reverse
        let receiver ← popKind .reference
        pushResult (← construct around instruction target receiver arguments)
        pure .behind
    | .error _ => stuck
  else callOn around instruction target

/-! ## All instructions -/

/-- Whether a condition holds of two numbers. -/
def holds : Condition → Int32 → Int32 → Bool
  | .eq, a, b | .icmpeq, a, b => a = b
  | .ne, a, b | .icmpne, a, b => a ≠ b
  | .lt, a, b | .icmplt, a, b => a < b
  | .ge, a, b | .icmpge, a, b => b ≤ a
  | .gt, a, b | .icmpgt, a, b => b < a
  | .le, a, b | .icmple, a, b => a ≤ b
  | _, _, _ => false

/-- Whether a reference on top refers to nothing. -/
def testNull : Act Bool := do
  return (← popKind .reference) = .null

/-- Whether two references on top refer to the same object. -/
def testSame : Act Bool := do
  let last ← popKind .reference
  let first ← popKind .reference
  return first = last

/-- Whether a condition holds of the numbers on top. -/
def testNumbers (condition : Condition) : Act Bool := do
  let last ← popInt
  if condition.isBinary then
    let first ← popInt
    return holds condition first last
  else return holds condition last 0

/-- Whether a condition holds of what stands on top. -/
def test : Condition → Act Bool
  | .null => testNull
  | .nonnull => do return !(← testNull)
  | .acmpeq => testSame
  | .acmpne => do return !(← testSame)
  | condition => testNumbers condition

/-- The target of a jump by a table. -/
def tableTarget (fallback : Label) (low high : Int32) (targets : List Label) (n : Int32) : Label :=
  if low ≤ n ∧ n ≤ high then targets[(n.toInt - low.toInt).toNat]?.getD fallback else fallback

/-- Uses a field. -/
def performField (target : FieldRef) : FieldUse → Act Unit
  | .getStatic => do pushValue ((← world).statics (around.declared target))
  | .putStatic => do writeStatic (around.declared target) (← popValue)
  | .getField => do
      match ← popObject with
      | .object id => do
          match ← read id with
          | .record _ _ fields => pushValue (fields (around.declared target))
          | _ => stuck
      | _ => stuck
  | .putField => do
      let value ← popValue
      match ← popObject with
      | .object id => do
          match ← read id with
          | .record cls progress fields =>
              write id (.record cls progress
                (Function.update fields (around.declared target) value))
          | _ => stuck
      | _ => stuck

/-- The length that a number stands for. -/
def popLength : Act Nat := do
  let length ← popInt
  if length < 0 then raise badLength else pure length.toInt.toNat

/-- Performs work a number of times and collects what it gives. -/
def repeatedly (act : Act Value) : Nat → Act (List Value)
  | 0 => pure []
  | count + 1 => do
      let value ← act
      return value :: (← repeatedly act count)

/-- Makes an array of arrays, of which the first length is that of the outermost one.  An array
class has the name that describes its arrays. -/
def createArrays (descriptor : FieldDescriptor) : List Nat → Act Value
  | [] => pure (Value.zero descriptor)
  | length :: rest => do
      let elements ← repeatedly (createArrays (elementDescriptor descriptor) rest) length
      create (.array descriptor elements)

/-- Takes the lengths of arrays of arrays, of which the last one stands on top. -/
def popLengths : Nat → Act (List Nat)
  | 0 => pure []
  | count + 1 => do
      let length ← popLength
      return (← popLengths count) ++ [length]

/-- Whether a value is nothing or an instance of a class. -/
def fits (world : World) (name : ClassName) (value : Value) : Bool :=
  value = .null || (world.classOf? value).any (around.isA · name)

/-- Puts a constant on the stack. -/
def loadConstant (constant : Loadable) : Act Next :=
  match Value.ofLoadable? constant with
  | some value => do
      pushValue value
      pure .behind
  | none => do
      pushResult (← leave around (.ldc constant) [])
      pure .behind

/-- Performs the instruction at an index. -/
def perform (index : Nat) : Instruction → Act Next
  | .op op => performOp around op
  | .bipush value => do
      pushValue (.int value.toInt32)
      pure .behind
  | .sipush value => do
      pushValue (.int value.toInt32)
      pure .behind
  | .ldc constant => loadConstant around constant
  | .load kind slot => do
      let cell ← load slot
      if cell.kind = kind then do
        push cell
        pure .behind
      else stuck
  | .store kind slot => do
      let cell ← pop
      if cell.kind = kind then do
        store slot cell
        pure .behind
      else stuck
  | .iinc slot delta => do
      match ← load slot with
      | .value (.number (.int value)) => do
          store slot (.value (.int (value + delta.toInt32)))
          pure .behind
      | _ => stuck
  | .branch condition target => do
      return if ← test condition then .jump target else .behind
  | .goto target => pure (.jump target)
  | .jsr target => do
      push (.place (index + 1))
      pure (.jump target)
  | .ret slot => do
      match ← load slot with
      | .place index => pure (.back index)
      | .value _ => stuck
  | .tableswitch fallback low high targets => do
      return .jump (tableTarget fallback low high targets (← popInt))
  | .lookupswitch fallback cases => do
      return .jump ((cases.lookup (← popInt)).getD fallback)
  | .field use target => do
      performField around target use
      pure .behind
  | .invokevirtual target => callOn around (.invokevirtual target) target
  | .invokeinterface target => callOn around (.invokeinterface target) target
  | .invokespecial target onInterface =>
      callSpecial around (.invokespecial target onInterface) target
  | .invokestatic target onInterface =>
      callStatic around (.invokestatic target onInterface) target.descriptor
  | .invokedynamic site => callStatic around (.invokedynamic site) site.descriptor
  | .new name => do
      pushValue (← create (.fresh name .created))
      pure .behind
  | .newarray element => do
      let length ← popLength
      pushValue (← createArrays element.arrayClass [length])
      pure .behind
  | .anewarray name => do
      let length ← popLength
      pushValue (← createArrays (ClassName.arrayOf name) [length])
      pure .behind
  | .checkcast name => do
      let value ← popKind .reference
      if fits around (← world) name value then do
        pushValue value
        pure .behind
      else raise badCast
  | .instanceof name => do
      let value ← popKind .reference
      pushValue (.ofBool (((← world).classOf? value).any (around.isA · name)))
      pure .behind
  | .multianewarray name dimensions => do
      let lengths ← popLengths dimensions.toNat
      pushValue (← createArrays name lengths)
      pure .behind

end Perform

/-! ## Steps -/

/-- How far code is. -/
inductive Status where
  | running (index : Nat) (state : State)
  | returned (value : Option Value) (world : World)
  | threw (exception : Value) (world : World)
  | stuck

section Steps

variable (around : Surroundings) (code : Code)

/-- Whether an instruction is in a range. -/
def covers (index : Nat) (range : ExceptionRange) : Bool :=
  match code.labelIndices[range.start]?, code.labelIndices[range.stop]? with
  | some start, some stop => start ≤ index && index < stop
  | _, _ => false

/-- The first range around an instruction in which an exception is caught. -/
def catcher? (index : Nat) (exception : Value) (world : World) : Option ExceptionRange :=
  code.exceptions.find? fun range =>
    covers code index range &&
      range.caught.all fun name => (world.classOf? exception).any (around.isA · name)

/-- Goes on at a label. -/
def enter (target : Label) (state : State) : Status :=
  match code.labelIndices[target]? with
  | some index => .running index state
  | none => .stuck

/-- How code goes on behind the instruction at an index that came to its end. -/
def follow (index : Nat) (next : Next) (state : State) : Status :=
  match next with
  | .behind => .running (index + 1) state
  | .jump target => enter code target state
  | .back index => .running index state
  | .finish value => .returned value state.world

/-- How code goes on behind what was done in the place of the instruction at an index.  A handler
finds the local variables as they were before, and only the exception on the stack. -/
def resume (index : Nat) (before : State) : Except Stop (Next × State) → Status
  | .ok (next, state) => follow code index next state
  | .error (.threw exception world) =>
      match catcher? around code index exception world with
      | some range => enter code range.handler ⟨[.value exception], before.locals, world⟩
      | none => .threw exception world
  | .error .stuck => .stuck

/-- Takes one step, if code is not done. -/
def step : Status → Status
  | .running index state =>
      match code.instructions[index]? with
      | some entry =>
          resume around code index state (perform around index entry.instruction state)
      | none => .stuck
  | status => status

end Steps

end Machine

end Downlevel
