import Mathlib.Logic.Function.Basic
import Downlevel.Code.Basic
import Downlevel.Code.Fragment

/-!
# Threads that run the same code

A small machine on which any number of threads run one piece of code that guards something with a
lock: static fields, monitors, and the few instructions such code is made of.  The threads take
steps of one instruction each, in any order, and all of them see one store.

A stretch of the code may be a call of something that nothing is known about.  It is one step, which
leaves a value or throws; it may change all static fields but those that belong to the code.

What happened is kept in a history, so that one can speak about how often something did.
-/

namespace Downlevel.Threads

/-- A value: a number, an object made by the code itself, or anything else there is in the
program. -/
inductive Value (V : Type) where
  | int (value : Int32)
  | object (index : Nat)
  | other (value : V)
  deriving DecidableEq

/-- An object made by the code: its class, what its constructor was given as a cause, and the thread
that made it. -/
structure Object (Thread V : Type) where
  cls : ClassName
  cause : Option (Value V)
  maker : Thread

/-- Something a thread did: it took or gave back a lock, or its call left a value or threw. -/
inductive Deed (Thread V : Type) where
  | entered (thread : Thread)
  | left (thread : Thread)
  | computed (thread : Thread) (value : V)
  | failed (thread : Thread) (exception : V)
  deriving DecidableEq

/-- What all threads share. -/
structure Store (Thread V : Type) where
  statics : FieldRef → Value V
  /-- The thread that owns a monitor, and how often it took it. -/
  monitors : Value V → Option (Thread × Nat)
  objects : List (Object Thread V)
  /-- What happened, the latest first. -/
  history : List (Deed Thread V)

/-- What a thread has for itself: the index of the next instruction, the stack with its top first,
and the local variables. -/
structure Activation (V : Type) where
  next : Nat
  stack : List (Value V)
  locals : UInt16 → Option (Value V)

/-- How far a thread is. -/
inductive Status (V : Type) where
  | running (activation : Activation V)
  | returned (value : Value V)
  | threw (exception : Value V)

namespace Status

variable {V : Type}

/-- A thread that has not done anything yet. -/
def start : Status V :=
  running ⟨0, [], fun _ => none⟩

/-- Whether a thread returned or threw. -/
def IsDone : Status V → Prop
  | running _ => False
  | _ => True

end Status

/-- All threads with what they share. -/
structure State (Thread V : Type) where
  store : Store Thread V
  threads : Thread → Status V

/-- Code with the stretch that is a call, and the fields that belong to it alone. -/
structure Program where
  code : Code
  callStart : Nat
  callLength : Nat
  fields : List FieldRef

section Code

variable (code : Code) {V : Type}

/-- The index of the instruction that carries a label. -/
def indexOf? (label : Label) : Option Nat :=
  code.instructions.findIdx? fun entry => entry.label = some label

/-- Whether a range catches everything thrown at an index. -/
def catchesAt (index : Nat) (range : ExceptionRange) : Bool :=
  match range.caught, indexOf? code range.start, indexOf? code range.stop with
  | none, some start, some stop => start ≤ index && index < stop
  | _, _, _ => false

/-- What becomes of a thread when something is thrown at an index: the first range around it
catches it. -/
def unwind (index : Nat) (exception : Value V) (locals : UInt16 → Option (Value V)) : Status V :=
  match (code.exceptions.find? (catchesAt code index)).bind fun range =>
      indexOf? code range.handler with
  | some handler => .running ⟨handler, [exception], locals⟩
  | none => .threw exception

end Code

/-- What an instruction does in a thread. -/
inductive Effect (Thread V : Type) where
  /-- It goes on with the next instruction. -/
  | go (stack : List (Value V)) (locals : UInt16 → Option (Value V)) (store : Store Thread V)
  | jump (target : Label) (stack : List (Value V))
  | throw (exception : Value V) (store : Store Thread V)
  | finish (value : Value V)

section Instructions

variable {Thread V : Type} [DecidableEq Thread] [DecidableEq V]

namespace Store

variable (store : Store Thread V)

/-- The store with another value in a static field. -/
def put (field : FieldRef) (value : Value V) : Store Thread V :=
  { store with statics := Function.update store.statics field value }

/-- The store after a thread took a monitor for the so-manieth time. -/
def enter (thread : Thread) (monitor : Value V) (count : Nat) : Store Thread V :=
  { store with
    monitors := Function.update store.monitors monitor (some (thread, count))
    history := .entered thread :: store.history }

/-- The store after a thread gave a monitor back that it had taken so often. -/
def leave (thread : Thread) (monitor : Value V) (count : Nat) : Store Thread V :=
  { store with
    monitors := Function.update store.monitors monitor
      (if count ≤ 1 then none else some (thread, count - 1))
    history := .left thread :: store.history }

/-- The store with a new object. -/
def make (thread : Thread) (cls : ClassName) : Store Thread V :=
  { store with objects := store.objects ++ [⟨cls, none, thread⟩] }

/-- The store after the constructor of an object was given a cause. -/
def construct (index : Nat) (cause : Value V) : Store Thread V :=
  { store with
    objects := store.objects.modify index fun object => { object with cause := some cause } }

/-- The store after a call: fields of others may have changed, and something happened. -/
def call (statics : FieldRef → Value V) (deed : Deed Thread V) : Store Thread V :=
  { store with statics := statics, history := deed :: store.history }

end Store

/-- The descriptor of constructors that take a cause. -/
def causeDescriptor : MethodDescriptor := "(Ljava/lang/Throwable;)V"

/-- The error for monitors that are given back by a thread that does not own them. -/
def monitorError : ClassName := "java/lang/IllegalMonitorStateException"

/-- What a thread that gives a monitor back does. -/
def exitMonitor (thread : Thread) (monitor : Value V) (rest : List (Value V))
    (locals : UInt16 → Option (Value V)) (store : Store Thread V) : Effect Thread V :=
  match store.monitors monitor with
  | some (owner, count) =>
      if owner = thread then .go rest locals (store.leave thread monitor count)
      else .throw (.object store.objects.length) (store.make thread monitorError)
  | none => .throw (.object store.objects.length) (store.make thread monitorError)

/-- What an instruction does in a thread.  Nothing is done while a monitor is owned by another
thread, or by instructions that the machine does not have. -/
def perform (thread : Thread) (store : Store Thread V) (stack : List (Value V))
    (locals : UInt16 → Option (Value V)) : Instruction → Option (Effect Thread V)
  | .field .getStatic target => some (.go (store.statics target :: stack) locals store)
  | .field .putStatic target =>
      match stack with
      | value :: rest => some (.go rest locals (store.put target value))
      | [] => none
  | .op .iconst1 => some (.go (.int 1 :: stack) locals store)
  | .op .dup =>
      match stack with
      | value :: rest => some (.go (value :: value :: rest) locals store)
      | [] => none
  | .load .reference slot => (locals slot).map fun value => .go (value :: stack) locals store
  | .store .reference slot =>
      match stack with
      | value :: rest => some (.go rest (Function.update locals slot (some value)) store)
      | [] => none
  | .branch .ne target =>
      match stack with
      | .int value :: rest => some (if value = 0 then .go rest locals store else .jump target rest)
      | _ => none
  | .goto target => some (.jump target stack)
  | .op .monitorenter =>
      match stack with
      | monitor :: rest =>
          match store.monitors monitor with
          | none => some (.go rest locals (store.enter thread monitor 1))
          | some (owner, count) =>
              if owner = thread then some (.go rest locals (store.enter thread monitor (count + 1)))
              else none
      | [] => none
  | .op .monitorexit =>
      match stack with
      | monitor :: rest => some (exitMonitor thread monitor rest locals store)
      | [] => none
  | .new cls => some (.go (.object store.objects.length :: stack) locals (store.make thread cls))
  | .invokespecial target _ =>
      if target.name = MethodName.constructor && target.descriptor = causeDescriptor then
        match stack with
        | cause :: .object index :: rest => some (.go rest locals (store.construct index cause))
        | _ => none
      else none
  | .op .athrow =>
      match stack with
      | exception :: _ => some (.throw exception store)
      | [] => none
  | .op .areturn | .op .ireturn | .op .lreturn | .op .freturn | .op .dreturn =>
      match stack with
      | value :: _ => some (.finish value)
      | [] => none
  | _ => none

section Perform

variable (thread : Thread) (store : Store Thread V) (stack : List (Value V))
  (locals : UInt16 → Option (Value V))

/-- Looking at a static field. -/
theorem perform_get (target : FieldRef) :
    perform thread store stack locals (.field .getStatic target) =
      some (.go (store.statics target :: stack) locals store) := rfl

/-- Loading a reference from a local variable. -/
theorem perform_load (slot : UInt16) :
    perform thread store stack locals (.load .reference slot) =
      (locals slot).map fun value => .go (value :: stack) locals store := rfl

/-- Taking a monitor that nobody owns. -/
theorem perform_enter_free {monitor : Value V} (h : store.monitors monitor = none) :
    perform thread store (monitor :: stack) locals (.op .monitorenter) =
      some (.go stack locals (store.enter thread monitor 1)) := by
  show (match store.monitors monitor with
    | none => _
    | some (owner, count) => _) = _
  rw [h]

/-- A monitor that another thread owns cannot be taken. -/
theorem perform_enter_owned {monitor : Value V} {owner : Thread} {count : Nat}
    (h : store.monitors monitor = some (owner, count)) (hother : owner ≠ thread) :
    perform thread store (monitor :: stack) locals (.op .monitorenter) = none := by
  show (match store.monitors monitor with
    | none => _
    | some (owner, count) => _) = _
  rw [h]
  exact if_neg hother

/-- Giving back a monitor that one owns. -/
theorem perform_exit_owned {monitor : Value V} {count : Nat}
    (h : store.monitors monitor = some (thread, count)) :
    perform thread store (monitor :: stack) locals (.op .monitorexit) =
      some (.go stack locals (store.leave thread monitor count)) := by
  show some (exitMonitor thread monitor stack locals store) = _
  rw [exitMonitor, h]
  exact congrArg some (if_pos rfl)

end Perform

namespace Program

variable (program : Program)

/-- Whether an index is in the stretch that is a call. -/
def InCall (index : Nat) : Prop :=
  program.callStart ≤ index ∧ index < program.callStart + program.callLength

/-- Where a thread is after an effect of its next instruction. -/
def proceed (activation : Activation V) (store : Store Thread V) :
    Effect Thread V → Option (Status V × Store Thread V)
  | .go stack locals store' => some (.running ⟨activation.next + 1, stack, locals⟩, store')
  | .jump target stack =>
      (indexOf? program.code target).map fun index =>
        (.running ⟨index, stack, activation.locals⟩, store)
  | .throw exception store' =>
      some (unwind program.code activation.next exception activation.locals, store')
  | .finish value => some (.returned value, store)

/-- What the next instruction makes of a thread and the store, if the thread can go on. -/
def advance (thread : Thread) (activation : Activation V) (store : Store Thread V) :
    Option (Status V × Store Thread V) := do
  let entry ← program.code.instructions[activation.next]?
  let effect ← perform thread store activation.stack activation.locals entry.instruction
  program.proceed activation store effect

/-- A step of one thread.  One that is done may run the code again. -/
inductive Move (thread : Thread) : Status V → Store Thread V → Status V → Store Thread V → Prop
  | instruction {activation : Activation V} {store store' : Store Thread V} {status : Status V}
      (houtside : ¬ program.InCall activation.next)
      (hadvance : program.advance thread activation store = some (status, store')) :
      Move thread (.running activation) store status store'
  | computed {activation : Activation V} {store : Store Thread V} (value : V)
      {statics : FieldRef → Value V}
      (hstart : activation.next = program.callStart)
      (hfields : ∀ field ∈ program.fields, statics field = store.statics field) :
      Move thread (.running activation) store
        (.running ⟨program.callStart + program.callLength, .other value :: activation.stack,
          activation.locals⟩)
        (store.call statics (.computed thread value))
  | failed {activation : Activation V} {store : Store Thread V} (exception : V)
      {statics : FieldRef → Value V} {index : Nat}
      (hstart : activation.next = program.callStart)
      (hfields : ∀ field ∈ program.fields, statics field = store.statics field)
      (hindex : program.InCall index) :
      Move thread (.running activation) store
        (unwind program.code index (.other exception) activation.locals)
        (store.call statics (.failed thread exception))
  | again {status : Status V} {store : Store Thread V} (hdone : status.IsDone) :
      Move thread status store Status.start store

/-- A step of the whole: one of the threads takes a step. -/
inductive Step : State Thread V → State Thread V → Prop
  | of (state : State Thread V) (thread : Thread) {status : Status V} {store : Store Thread V}
      (hmove : program.Move thread (state.threads thread) state.store status store) :
      Step state ⟨store, Function.update state.threads thread status⟩

/-- The states that can be reached from given ones. -/
inductive Reachable (Initial : State Thread V → Prop) : State Thread V → Prop
  | initial {state : State Thread V} (h : Initial state) : Reachable Initial state
  | step {state state' : State Thread V} (h : Reachable Initial state)
      (hstep : program.Step state state') : Reachable Initial state'

end Program

/-- **What every step keeps holds of everything that can be reached.** -/
theorem Program.Reachable.invariant {program : Program} {Initial P : State Thread V → Prop}
    (hinitial : ∀ state, Initial state → P state)
    (hstep : ∀ state state', P state → program.Step state state' → P state')
    {state : State Thread V} (h : program.Reachable Initial state) : P state := by
  induction h with
  | initial h => exact hinitial _ h
  | step _ hnext ih => exact hstep _ _ ih hnext

end Instructions

section History

variable {Thread V : Type} [DecidableEq Thread]

namespace Deed

/-- The value that a call left. -/
def computed? : Deed Thread V → Option V
  | computed _ value => some value
  | _ => none

/-- The exception that the last call of a thread threw. -/
def lastFailure (thread : Thread) : List (Deed Thread V) → Option V
  | [] => none
  | failed owner exception :: rest =>
      if owner = thread then some exception else lastFailure thread rest
  | _ :: rest => lastFailure thread rest

/-- How often a thread took a lock. -/
def enteredBy (thread : Thread) (history : List (Deed Thread V)) : Nat :=
  history.countP fun deed => match deed with
    | entered owner => owner = thread
    | _ => false

/-- How often a thread gave a lock back. -/
def leftBy (thread : Thread) (history : List (Deed Thread V)) : Nat :=
  history.countP fun deed => match deed with
    | left owner => owner = thread
    | _ => false

end Deed

namespace Store

variable (store : Store Thread V)

/-- The values that calls left, the latest first. -/
def results : List V :=
  store.history.filterMap Deed.computed?

/-- Whether a thread took a lock that it has not given back. -/
def IsBetween (thread : Thread) : Prop :=
  Deed.leftBy thread store.history < Deed.enteredBy thread store.history

/-- Whether a thread owns a monitor. -/
def OwnsMonitor (thread : Thread) (monitor : Value V) : Prop :=
  ∃ count, store.monitors monitor = some (thread, count)

end Store

end History

end Downlevel.Threads
