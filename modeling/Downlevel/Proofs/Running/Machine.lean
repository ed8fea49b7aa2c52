import Mathlib.Logic.Function.Iterate
import Downlevel.Code.Basic
import Downlevel.Code.Fragment

/-!
# A machine that runs new code

A small machine for the code that is put in place of call sites and into the methods of records:
constants, local variables, jumps, tests of classes, fields, boxes, string builders, and a few
methods.  What objects there are, and what their methods do, is left to the program around the code.

An instruction that finds something else on the stack than it works on, or that the machine does
not know, gets it stuck.  Exceptions end the code, so the machine runs only code that catches none.

* `perform` — what an instruction does;
* `Returns` — code returns a value;
* `Returns.unique` — there is only one such value;
* `reaches_performAll` — instructions that stand one after the other are performed in order.
-/

namespace Downlevel

namespace JavaString

/-- One text behind another. -/
def append (front back : JavaString) : JavaString :=
  ⟨front.units ++ back.units⟩

end JavaString

namespace JavaType

/-- The values of a type are references just if their kind says so. -/
theorem isReference_iff (type : JavaType) : type.isReference = true ↔ type.kind = .reference := by
  unfold isReference kind
  cases type.isArray with
  | true => simp
  | false => cases type.base <;> simp [BaseType.kind]

/-- A type of numbers is no array, so its base is all there is to it. -/
theorem eq_of_not_isReference {type : JavaType} (h : type.isReference = false) :
    type = ⟨0, type.base⟩ := by
  unfold isReference isArray at h
  rw [Bool.or_eq_false_iff] at h
  have hdimensions : type.dimensions = 0 := by simpa using h.1
  rw [← hdimensions]

/-- There is a box for the values of every type but those of references. -/
theorem wrapper_eq_none_iff {type : JavaType} : type.wrapper? = none ↔ type.isReference = true := by
  unfold wrapper? isReference
  cases type.isArray with
  | true => simp
  | false => cases type.base <;> simp [BaseType.wrapper?]

/-- References have a name in instructions, and only they. -/
theorem isSome_internalName (type : JavaType) : type.internalName?.isSome = type.isReference := by
  unfold internalName? isReference
  cases type.isArray with
  | true => simp
  | false => cases type.base <;> simp

/-- A type that has a box is a primitive one. -/
theorem exists_base {type : JavaType} {cls : ClassName} {method : MethodName}
    (h : type.wrapper? = some (cls, method)) :
    ∃ base : BaseType, type = ⟨0, base⟩ ∧ base.wrapper? = some (cls, method) := by
  have hnot : type.isReference = false := by
    rw [Bool.eq_false_iff, Ne, ← wrapper_eq_none_iff, h]
    simp
  have htype := eq_of_not_isReference hnot
  rw [htype] at h
  exact ⟨type.base, htype, h⟩

end JavaType

namespace Running

/-- An object: a text, the object for a class, or anything else there is in the program. -/
inductive Object (V : Type) where
  | text (value : JavaString)
  | cls (name : ClassName)
  | other (value : V)
  deriving DecidableEq

/-- A value.  A reference refers to an object or to nothing; a string builder that the code has made
is known by its number. -/
inductive Value (V : Type) where
  | int (value : Int32)
  | long (value : Int64)
  | float (bits : UInt32)
  | double (bits : UInt64)
  | reference (object : Option (Object V))
  | builder (number : Nat)
  deriving DecidableEq

/-- What the program around the code settles: which objects are instances of a class, what is in
their fields, what methods give, how numbers with a fraction are written, and the constants that are
no plain values. -/
structure Surroundings (V : Type) where
  instanceOf : Object V → ClassName → Bool
  /-- What `Integer.intValue` gives. -/
  intValue : Object V → Int32
  /-- What `String.equals` gives for a text and an argument. -/
  equals : JavaString → Option (Object V) → Bool
  /-- What `Enum.name` gives. -/
  name : Object V → Option JavaString
  /-- What `Object.toString` gives for an object that is no text. -/
  toText : Object V → Option JavaString
  floatText : UInt32 → JavaString
  doubleText : UInt64 → JavaString
  constant : Loadable → Value V
  /-- What is in a field of an object. -/
  field : Object V → FieldRef → Value V
  /-- What the `valueOf` of the class that boxes the values of a type gives. -/
  box : BaseType → Value V → Object V
  /-- What `Objects.equals` gives. -/
  areEqual : Option (Object V) → Option (Object V) → Bool
  /-- What `Objects.hashCode` gives. -/
  hash : Option (Object V) → Int32
  /-- What `Class.getSimpleName` gives. -/
  simpleName : ClassName → JavaString

/-- What code works on: the stack with its top first, the local variables, and the texts of string
builders.  A builder has no text before its constructor has run. -/
structure Frame (V : Type) where
  stack : List (Value V)
  locals : UInt16 → Option (Value V)
  builders : List (Option JavaString)

/-- What an instruction does. -/
inductive Effect (V : Type) where
  /-- It goes on with the next instruction. -/
  | next (frame : Frame V)
  | jump (target : Label) (frame : Frame V)
  | finish (value : Value V)
  | throw (exception : ClassName)
  | fault

/-- How far code is. -/
inductive Status (V : Type) where
  | running (index : Nat) (frame : Frame V)
  | returned (value : Value V)
  | threw (exception : ClassName)
  | stuck

variable {V : Type}

namespace Value

/-- The kind of a value. -/
def kind : Value V → ValueKind
  | int _ => .int
  | long _ => .long
  | float _ => .float
  | double _ => .double
  | reference _ => .reference
  | builder _ => .reference

/-- A truth value. -/
def ofBool (b : Bool) : Value V :=
  int (if b then 1 else 0)

/-- A text. -/
def ofText (text : JavaString) : Value V :=
  reference (some (.text text))

end Value

namespace Frame

/-- The frame with one more value on the stack. -/
def push (frame : Frame V) (value : Value V) : Frame V :=
  { frame with stack := value :: frame.stack }

/-- The frame with another stack. -/
def withStack (frame : Frame V) (stack : List (Value V)) : Frame V :=
  { frame with stack := stack }

/-- The text of a builder, if its constructor has run. -/
def built? (frame : Frame V) (number : Nat) : Option JavaString :=
  frame.builders[number]?.join

/-- The frame with another text of a builder. -/
def build (frame : Frame V) (number : Nat) (text : JavaString) : Frame V :=
  { frame with builders := frame.builders.set number (some text) }

/-- The frame with another value in a variable of one slot.  A wide value that had its second half
there is lost. -/
def store (frame : Frame V) (slot : UInt16) (value : Value V) : Frame V :=
  { frame with
    locals := fun other =>
      if other = slot then some value
      else if other + 1 = slot && (frame.locals other).any (·.kind.isWide) then none
      else frame.locals other }

end Frame

/-- The methods of a string builder that append a value, by what they take. -/
inductive Overload where
  | boolean
  | char
  | int
  | long
  | float
  | double
  | string
  | object
  deriving DecidableEq

namespace Overload

/-- The parameter of a method. -/
def parameter : Overload → String
  | boolean => "Z"
  | char => "C"
  | int => "I"
  | long => "J"
  | float => "F"
  | double => "D"
  | string => "Ljava/lang/String;"
  | object => "Ljava/lang/Object;"

/-- The descriptor of a method. -/
def descriptor (overload : Overload) : MethodDescriptor :=
  "(" ++ overload.parameter ++ ")Ljava/lang/StringBuilder;"

/-- All methods. -/
def all : List Overload :=
  [boolean, char, int, long, float, double, string, object]

/-- The method of a descriptor. -/
def ofDescriptor? (descriptor : MethodDescriptor) : Option Overload :=
  all.find? fun overload => overload.descriptor = descriptor

/-- Every descriptor leads back to its method. -/
@[simp] theorem ofDescriptor?_descriptor (overload : Overload) :
    ofDescriptor? overload.descriptor = some overload := by
  cases overload <;> decide +kernel

end Overload

/-- The text for nothing. -/
def nullText : JavaString :=
  JavaString.ofString "null"

/-- The digits of a number, behind a sign if it is negative. -/
def decimal (n : Int) : JavaString :=
  JavaString.ofString (toString n)

/-- The text of a truth value. -/
def truthText (n : Int32) : JavaString :=
  JavaString.ofString (if n = 0 then "false" else "true")

/-- The text of one character. -/
def charText (n : Int32) : JavaString :=
  ⟨[n.toUInt32.toUInt16]⟩

namespace Surroundings

variable (around : Surroundings V)

/-- The text of the object that a reference refers to, as `String.valueOf` gives it. -/
def valueOf : Option (Object V) → JavaString
  | none => nullText
  | some (.text text) => text
  | some object => (around.toText object).getD nullText

/-- What a method of a string builder appends for a value, if it takes the value. -/
def appended? : Overload → Value V → Option JavaString
  | .boolean, .int n => some (truthText n)
  | .char, .int n => some (charText n)
  | .int, .int n => some (decimal n.toInt)
  | .long, .long n => some (decimal n.toInt)
  | .float, .float bits => some (around.floatText bits)
  | .double, .double bits => some (around.doubleText bits)
  | .string, .reference none => some nullText
  | .string, .reference (some (.text text)) => some text
  | .object, .reference object => some (around.valueOf object)
  | _, _ => none

/-- The value of a constant. -/
def load : Loadable → Value V
  | .int value => .int value
  | .long value => .long value
  | .float bits => .float bits
  | .double bits => .double bits
  | .string text => .ofText text
  | .cls name => .reference (some (.cls name))
  | constant => around.constant constant

end Surroundings

/-- The methods that the machine knows. -/
inductive Method where
  | intValue
  | equals
  | name (owner : ClassName)
  | append (overload : Overload)
  | toText
  | simpleName
  deriving DecidableEq

namespace Method

/-- The method that a reference is to. -/
def ofRef? (target : MethodRef) : Option Method :=
  if target = ⟨"java/lang/Integer", "intValue", "()I"⟩ then some intValue
  else if target = ⟨ClassName.javaString, "equals", "(Ljava/lang/Object;)Z"⟩ then some equals
  else if target = ⟨ClassName.stringBuilder, "toString", "()Ljava/lang/String;"⟩ then some toText
  else if target = ⟨ClassName.javaClass, "getSimpleName", "()Ljava/lang/String;"⟩ then
    some simpleName
  else if target.owner = ClassName.stringBuilder ∧ target.name = "append" then
    (Overload.ofDescriptor? target.descriptor).map append
  else if target.name = "name" ∧ target.descriptor = "()Ljava/lang/String;" then
    some (name target.owner)
  else none

end Method

/-- The static methods that the machine knows: one for each primitive type, which boxes its values,
and two that work on objects or nothing. -/
inductive StaticMethod where
  | box (type : BaseType)
  | areEqual
  | hash
  deriving DecidableEq

namespace StaticMethod

/-- The primitive types. -/
def primitives : List BaseType :=
  [.boolean, .byte, .char, .short, .int, .long, .float, .double]

/-- The method that boxes the values of a primitive type. -/
def boxing? (type : BaseType) : Option MethodRef :=
  type.wrapper?.map fun (cls, _) =>
    ⟨cls, "valueOf", "(" ++ type.write ++ ")L" ++ cls ++ ";"⟩

/-- The method that a reference is to. -/
def ofRef? (target : MethodRef) : Option StaticMethod :=
  if target = ⟨"java/util/Objects", "equals", "(Ljava/lang/Object;Ljava/lang/Object;)Z"⟩ then
    some areEqual
  else if target = ⟨"java/util/Objects", "hashCode", "(Ljava/lang/Object;)I"⟩ then some hash
  else (primitives.find? fun type => boxing? type = some target).map box

end StaticMethod

/-- What is thrown when a method is called on nothing. -/
def nullPointer : ClassName := "java/lang/NullPointerException"

/-- What is thrown when a cast fails. -/
def classCast : ClassName := "java/lang/ClassCastException"

section Perform

variable (around : Surroundings V) (frame : Frame V)

/-- Calls a method. -/
def invoke (method : Method) : Effect V :=
  match method, frame.stack with
  | .intValue, .reference (some object) :: rest =>
      if around.instanceOf object "java/lang/Integer" then
        .next (frame.withStack (.int (around.intValue object) :: rest))
      else .fault
  | .name owner, .reference (some object) :: rest =>
      if around.instanceOf object owner then
        .next (frame.withStack (.reference ((around.name object).map .text) :: rest))
      else .fault
  | .equals, .reference argument :: .reference (some (.text text)) :: rest =>
      .next (frame.withStack (.ofBool (around.equals text argument) :: rest))
  | .append overload, value :: .builder number :: rest =>
      match frame.built? number, around.appended? overload value with
      | some text, some more =>
          .next ((frame.withStack (.builder number :: rest)).build number (text.append more))
      | _, _ => .fault
  | .toText, .builder number :: rest =>
      match frame.built? number with
      | some text => .next (frame.withStack (.ofText text :: rest))
      | none => .fault
  | .simpleName, .reference (some (.cls name)) :: rest =>
      .next (frame.withStack (.ofText (around.simpleName name) :: rest))
  | .intValue, .reference none :: _ => .throw nullPointer
  | .name _, .reference none :: _ => .throw nullPointer
  | .simpleName, .reference none :: _ => .throw nullPointer
  | .equals, .reference _ :: .reference none :: _ => .throw nullPointer
  | _, _ => .fault

/-- Calls a static method. -/
def invokeStatic (method : StaticMethod) : Effect V :=
  match method, frame.stack with
  | .box type, value :: rest =>
      if value.kind = type.kind then
        .next (frame.withStack (.reference (some (around.box type value)) :: rest))
      else .fault
  | .areEqual, .reference second :: .reference first :: rest =>
      .next (frame.withStack (.ofBool (around.areEqual first second) :: rest))
  | .hash, .reference object :: rest =>
      .next (frame.withStack (.int (around.hash object) :: rest))
  | _, _ => .fault

/-- Whether a condition holds of what is on the stack, and the stack without it.  Comparisons of
references are left out: two texts with the same units may be two objects. -/
def tested? : Condition → List (Value V) → Option (Bool × List (Value V))
  | .eq, .int a :: rest => some (a = 0, rest)
  | .ne, .int a :: rest => some (a ≠ 0, rest)
  | .lt, .int a :: rest => some (a < 0, rest)
  | .ge, .int a :: rest => some (0 ≤ a, rest)
  | .gt, .int a :: rest => some (0 < a, rest)
  | .le, .int a :: rest => some (a ≤ 0, rest)
  | .icmpeq, .int b :: .int a :: rest => some (a = b, rest)
  | .icmpne, .int b :: .int a :: rest => some (a ≠ b, rest)
  | .icmplt, .int b :: .int a :: rest => some (a < b, rest)
  | .icmpge, .int b :: .int a :: rest => some (b ≤ a, rest)
  | .icmpgt, .int b :: .int a :: rest => some (b < a, rest)
  | .icmple, .int b :: .int a :: rest => some (a ≤ b, rest)
  | .null, .reference object :: rest => some (object.isNone, rest)
  | .nonnull, .reference object :: rest => some (object.isSome, rest)
  | _, _ => none

/-- The number that an instruction without operands puts on the stack. -/
def number? : Op → Option Int32
  | .iconstM1 => some (-1)
  | .iconst0 => some 0
  | .iconst1 => some 1
  | .iconst2 => some 2
  | .iconst3 => some 3
  | .iconst4 => some 4
  | .iconst5 => some 5
  | _ => none

/-- The kind of the values that an instruction returns. -/
def returned? : Op → Option ValueKind
  | .ireturn => some .int
  | .lreturn => some .long
  | .freturn => some .float
  | .dreturn => some .double
  | .areturn => some .reference
  | _ => none

/-- Performs an instruction without operands. -/
def performOp (op : Op) : Effect V :=
  match number? op, returned? op, op, frame.stack with
  | some n, _, _, _ => .next (frame.push (.int n))
  | _, some kind, _, value :: _ => if value.kind = kind then .finish value else .fault
  | _, _, .aconstNull, _ => .next (frame.push (.reference none))
  | _, _, .dup, value :: _ => if value.kind.isWide then .fault else .next (frame.push value)
  | _, _, .pop, value :: rest => if value.kind.isWide then .fault else .next (frame.withStack rest)
  | _, _, .iadd, .int b :: .int a :: rest => .next (frame.withStack (.int (a + b) :: rest))
  | _, _, .imul, .int b :: .int a :: rest => .next (frame.withStack (.int (a * b) :: rest))
  | _, _, _, _ => .fault

/-- Performs an instruction. -/
def perform : Instruction → Effect V
  | .op op => performOp frame op
  | .bipush value => .next (frame.push (.int value.toInt32))
  | .sipush value => .next (frame.push (.int value.toInt32))
  | .ldc constant => .next (frame.push (around.load constant))
  | .load kind slot =>
      match frame.locals slot with
      | some value => if value.kind = kind then .next (frame.push value) else .fault
      | none => .fault
  | .store kind slot =>
      match frame.stack with
      | value :: rest =>
          if value.kind = kind && !kind.isWide then .next ((frame.withStack rest).store slot value)
          else .fault
      | [] => .fault
  | .field .getField target =>
      match frame.stack with
      | .reference (some object) :: rest =>
          if around.instanceOf object target.owner then
            .next (frame.withStack (around.field object target :: rest))
          else .fault
      | .reference none :: _ => .throw nullPointer
      | _ => .fault
  | .branch condition target =>
      match tested? condition frame.stack with
      | some (true, rest) => .jump target (frame.withStack rest)
      | some (false, rest) => .next (frame.withStack rest)
      | none => .fault
  | .goto target => .jump target frame
  | .instanceof name =>
      match frame.stack with
      | .reference object :: rest =>
          .next (frame.withStack (.ofBool (object.any (around.instanceOf · name)) :: rest))
      | _ => .fault
  | .checkcast name =>
      match frame.stack with
      | .reference object :: _ =>
          if object.all (around.instanceOf · name) then .next frame else .throw classCast
      | _ => .fault
  | .new name =>
      if name = ClassName.stringBuilder then
        .next { frame.push (.builder frame.builders.length) with
          builders := frame.builders ++ [none] }
      else .fault
  | .invokespecial target _ =>
      if target = ⟨ClassName.stringBuilder, MethodName.constructor, "()V"⟩ then
        match frame.stack with
        | .builder number :: rest =>
            if frame.builders[number]? = some none then
              .next ((frame.withStack rest).build number ⟨[]⟩)
            else .fault
        | _ => .fault
      else .fault
  | .invokevirtual target =>
      match Method.ofRef? target with
      | some method => invoke around frame method
      | none => .fault
  | .invokestatic target false =>
      match StaticMethod.ofRef? target with
      | some method => invokeStatic around frame method
      | none => .fault
  | _ => .fault

/-- Performs instructions one after the other, up to the first one that does not go on with the
next. -/
def performAll (around : Surroundings V) (frame : Frame V) : List Instruction → Effect V
  | [] => .next frame
  | instruction :: rest =>
      match perform around frame instruction with
      | .next frame => performAll around frame rest
      | effect => effect

end Perform

section Run

variable (around : Surroundings V) (code : Code)

/-- How far code is after an effect, if `index` is the index of the next instruction. -/
def Effect.after (index : Nat) : Effect V → Status V
  | .next frame => .running index frame
  | .jump target frame =>
      match code.labelIndices[target]? with
      | some place => .running place frame
      | none => .stuck
  | .finish value => .returned value
  | .throw exception => if code.exceptions = [] then .threw exception else .stuck
  | .fault => .stuck

/-- Takes one step, if code is not done. -/
def step : Status V → Status V
  | .running index frame =>
      match code.instructions[index]? with
      | some entry => (perform around frame entry.instruction).after code (index + 1)
      | none => .stuck
  | status => status

/-- Some steps lead from one status to another. -/
def Reaches (first last : Status V) : Prop :=
  ∃ steps, (step around code)^[steps] first = last

/-- Code returns a value when it is called with local variables. -/
def Returns (locals : UInt16 → Option (Value V)) (value : Value V) : Prop :=
  Reaches around code (.running 0 ⟨[], locals, []⟩) (.returned value)

/-- Instructions stand in code from an index on, whatever labels are on them. -/
def Stands (index : Nat) (instructions : List Instruction) : Prop :=
  instructions <+: (code.instructions.map Labelled.instruction).drop index

variable {around code} {index : Nat} {first middle last : Status V}

namespace Reaches

/-- No steps lead from a status to itself. -/
theorem refl (status : Status V) : Reaches around code status status :=
  ⟨0, rfl⟩

/-- Steps may follow steps. -/
theorem trans (h : Reaches around code first middle) (h' : Reaches around code middle last) :
    Reaches around code first last := by
  obtain ⟨steps, rfl⟩ := h
  obtain ⟨more, rfl⟩ := h'
  exact ⟨more + steps, Function.iterate_add_apply _ more steps first⟩

/-- One step is a step. -/
theorem of_step (h : step around code first = last) : Reaches around code first last :=
  ⟨1, h⟩

end Reaches

/-- Code that has returned takes no more steps. -/
theorem iterate_returned (steps : Nat) (value : Value V) :
    (step around code)^[steps] (.returned value) = .returned value :=
  Function.iterate_fixed rfl steps

/-- **Code returns at most one value.** -/
theorem Returns.unique {locals : UInt16 → Option (Value V)} {value value' : Value V}
    (h : Returns around code locals value) (h' : Returns around code locals value') :
    value = value' := by
  obtain ⟨steps, hsteps⟩ := h
  obtain ⟨steps', hsteps'⟩ := h'
  have hlate : (step around code)^[steps' + steps] (.running 0 ⟨[], locals, []⟩) =
      .returned value := by
    rw [Function.iterate_add_apply, hsteps, iterate_returned]
  have hlate' : (step around code)^[steps' + steps] (.running 0 ⟨[], locals, []⟩) =
      .returned value' := by
    rw [Nat.add_comm, Function.iterate_add_apply, hsteps', iterate_returned]
  rw [hlate] at hlate'
  injection hlate'

namespace Stands

/-- What stands in code stands one instruction after the other. -/
theorem cons {instruction : Instruction} {rest : List Instruction}
    (h : Stands code index (instruction :: rest)) :
    (∃ entry, code.instructions[index]? = some entry ∧ entry.instruction = instruction) ∧
      Stands code (index + 1) rest := by
  obtain ⟨behind, hdrop⟩ := h
  have hhere : (code.instructions.map Labelled.instruction)[index]? = some instruction := by
    rw [← List.head?_drop, ← hdrop]
    rfl
  have hrest : rest ++ behind =
      (code.instructions.map Labelled.instruction).drop (index + 1) := by
    rw [← List.tail_drop, ← hdrop]
    rfl
  rw [List.getElem?_map, Option.map_eq_some_iff] at hhere
  exact ⟨hhere, behind, hrest⟩

/-- What stands between other instructions. -/
theorem of_append {before here after : List Labelled}
    (h : code.instructions = before ++ here ++ after) :
    Stands code before.length (here.map Labelled.instruction) := by
  have hdrop : (code.instructions.map Labelled.instruction).drop before.length =
      here.map Labelled.instruction ++ after.map Labelled.instruction := by
    rw [← List.map_drop, h, List.append_assoc, List.drop_left, List.map_append]
  rw [Stands, hdrop]
  exact List.prefix_append _ _

end Stands

/-- **Instructions that stand one after the other are performed in order.** -/
theorem reaches_performAll (around : Surroundings V) (frame : Frame V)
    {instructions : List Instruction} (h : Stands code index instructions) :
    Reaches around code (.running index frame)
      ((performAll around frame instructions).after code (index + instructions.length)) := by
  induction instructions generalizing index frame with
  | nil => exact Reaches.refl _
  | cons instruction rest ih =>
      obtain ⟨⟨entry, hfetch, rfl⟩, hrest⟩ := h.cons
      have hstep : step around code (.running index frame) =
          (perform around frame entry.instruction).after code (index + 1) := by
        simp only [step, hfetch]
      have hlength : index + (entry.instruction :: rest).length = index + 1 + rest.length := by
        rw [List.length_cons]
        omega
      rw [hlength]
      -- whatever does not go on with the next instruction is the effect of the whole
      cases heffect : perform around frame entry.instruction with
      | next frame' =>
          rw [heffect] at hstep
          have hall : performAll around frame (entry.instruction :: rest) =
              performAll around frame' rest := by
            simp only [performAll, heffect]
          rw [hall]
          exact (Reaches.of_step hstep).trans (ih frame' hrest)
      | jump target frame' | finish value | throw exception | fault =>
          rw [heffect] at hstep
          simp only [performAll, heffect]
          exact Reaches.of_step hstep

end Run

section Sequence

variable {around : Surroundings V} {frame : Frame V}

/-- What follows instructions is performed behind them if they go on. -/
theorem performAll_append (front back : List Instruction) :
    performAll around frame (front ++ back) =
      match performAll around frame front with
      | .next frame => performAll around frame back
      | effect => effect := by
  induction front generalizing frame with
  | nil => rfl
  | cons instruction rest ih =>
      simp only [List.cons_append, performAll]
      cases perform around frame instruction with
      | next frame' => exact ih
      | jump target frame' | finish value | throw exception | fault => rfl

end Sequence

/-- A number of eight bits is none other with more of them. -/
theorem toInt32_toInt8 {value : Int32} (hlow : -128 ≤ value) (hhigh : value ≤ 127) :
    value.toInt8.toInt32 = value := by
  rw [Int32.le_iff_toInt_le] at hlow hhigh
  have hlow' : -128 ≤ value.toInt := hlow
  have hhigh' : value.toInt ≤ 127 := hhigh
  rw [← Int32.toInt_inj, Int8.toInt_toInt32, Int32.toInt_toInt8]
  exact Int.bmod_eq_of_le (by omega) (by omega)

/-- A number of sixteen bits is none other with more of them. -/
theorem toInt32_toInt16 {value : Int32} (hlow : -32768 ≤ value) (hhigh : value ≤ 32767) :
    value.toInt16.toInt32 = value := by
  rw [Int32.le_iff_toInt_le] at hlow hhigh
  have hlow' : -32768 ≤ value.toInt := hlow
  have hhigh' : value.toInt ≤ 32767 := hhigh
  rw [← Int32.toInt_inj, Int16.toInt_toInt32, Int32.toInt_toInt16]
  exact Int.bmod_eq_of_le (by omega) (by omega)

section Instructions

variable (around : Surroundings V) (frame : Frame V) (stack : List (Value V))
  (locals : UInt16 → Option (Value V)) (builders : List (Option JavaString))

/-- Behind an instruction that goes on, the rest is performed. -/
theorem performAll_cons {frame' : Frame V} {instruction : Instruction} {rest : List Instruction}
    (h : perform around frame instruction = .next frame') :
    performAll around frame (instruction :: rest) = performAll around frame' rest := by
  simp only [performAll, h]

/-- Instructions end with the first one that goes elsewhere. -/
theorem performAll_jump {frame' : Frame V} {instruction : Instruction} {rest : List Instruction}
    {target : Label} (h : perform around frame instruction = .jump target frame') :
    performAll around frame (instruction :: rest) = .jump target frame' := by
  simp only [performAll, h]

/-- A value of the right kind is loaded from its variable. -/
theorem perform_load {kind : ValueKind} {slot : UInt16} {value : Value V}
    (hvalue : locals slot = some value) (hkind : value.kind = kind) :
    perform around ⟨stack, locals, builders⟩ (.load kind slot) =
      .next ⟨value :: stack, locals, builders⟩ := by
  have hperform : perform around ⟨stack, locals, builders⟩ (.load kind slot) =
      match locals slot with
      | some value =>
          if value.kind = kind then .next ⟨value :: stack, locals, builders⟩ else .fault
      | none => .fault := rfl
  rw [hperform, hvalue]
  exact if_pos hkind

/-- A reference is loaded from its variable. -/
theorem perform_aload {slot : UInt16} {object : Option (Object V)}
    (h : locals slot = some (.reference object)) :
    perform around ⟨stack, locals, builders⟩ (Fragment.aload slot) =
      .next ⟨.reference object :: stack, locals, builders⟩ :=
  perform_load around stack locals builders h rfl

/-- A number is returned. -/
theorem perform_ireturn (value : Int32) :
    perform around ⟨.int value :: stack, locals, builders⟩ (.op .ireturn) =
      .finish (.int value) := rfl

/-- A constant is loaded. -/
theorem perform_ldc (constant : Loadable) :
    perform around ⟨stack, locals, builders⟩ (.ldc constant) =
      .next ⟨around.load constant :: stack, locals, builders⟩ := rfl

/-- Whether an object is an instance of a class. -/
theorem perform_instanceof (object : Object V) (cls : ClassName) :
    perform around ⟨.reference (some object) :: stack, locals, builders⟩ (.instanceof cls) =
      .next ⟨.ofBool (around.instanceOf object cls) :: stack, locals, builders⟩ := rfl

/-- An instance of a class passes a cast to the class. -/
theorem perform_checkcast {object : Object V} {cls : ClassName}
    (h : around.instanceOf object cls = true) :
    perform around ⟨.reference (some object) :: stack, locals, builders⟩ (.checkcast cls) =
      .next ⟨.reference (some object) :: stack, locals, builders⟩ :=
  if_pos h

/-- What holds does not lead to the place for what does not hold. -/
theorem perform_ifeq_true (target : Label) :
    perform around ⟨.ofBool true :: stack, locals, builders⟩ (.branch .eq target) =
      .next ⟨stack, locals, builders⟩ := rfl

/-- What does not hold leads to the place for that. -/
theorem perform_ifeq_false (target : Label) :
    perform around ⟨.ofBool false :: stack, locals, builders⟩ (.branch .eq target) =
      .jump target ⟨stack, locals, builders⟩ := rfl

/-- A branch is taken if its condition holds. -/
theorem perform_branch {condition : Condition} {holds : Bool} {rest : List (Value V)}
    (h : tested? condition stack = some (holds, rest)) (target : Label) :
    perform around ⟨stack, locals, builders⟩ (.branch condition target) =
      if holds then .jump target ⟨rest, locals, builders⟩ else .next ⟨rest, locals, builders⟩ := by
  have hperform : perform around ⟨stack, locals, builders⟩ (.branch condition target) =
      match tested? condition stack with
      | some (true, rest) => .jump target ⟨rest, locals, builders⟩
      | some (false, rest) => .next ⟨rest, locals, builders⟩
      | none => .fault := rfl
  rw [hperform, h]
  cases holds <;> rfl

/-- Numbers are compared. -/
theorem perform_icmpne (first second : Int32) (target : Label) :
    perform around ⟨.int second :: .int first :: stack, locals, builders⟩
        (.branch .icmpne target) =
      if first = second then .next ⟨stack, locals, builders⟩
      else .jump target ⟨stack, locals, builders⟩ := by
  have htested : tested? .icmpne (.int second :: .int first :: stack) =
      some (decide (first ≠ second), stack) := rfl
  rw [perform_branch around _ locals builders htested]
  by_cases h : first = second <;> simp [h]

/-- Numbers are compared. -/
theorem perform_icmplt (first second : Int32) (target : Label) :
    perform around ⟨.int second :: .int first :: stack, locals, builders⟩
        (.branch .icmplt target) =
      if first < second then .jump target ⟨stack, locals, builders⟩
      else .next ⟨stack, locals, builders⟩ := by
  have htested : tested? .icmplt (.int second :: .int first :: stack) =
      some (decide (first < second), stack) := rfl
  rw [perform_branch around _ locals builders htested]
  by_cases h : first < second <;> simp [h]

/-- A method that the machine knows is called. -/
theorem perform_invokevirtual {target : MethodRef} {method : Method}
    (h : Method.ofRef? target = some method) :
    perform around frame (.invokevirtual target) = invoke around frame method := by
  have hperform : perform around frame (.invokevirtual target) =
      match Method.ofRef? target with
      | some method => invoke around frame method
      | none => .fault := rfl
  rw [hperform, h]

/-- A static method that the machine knows is called. -/
theorem perform_invokestatic {target : MethodRef} {method : StaticMethod}
    (h : StaticMethod.ofRef? target = some method) :
    perform around frame (.invokestatic target false) = invokeStatic around frame method := by
  have hperform : perform around frame (.invokestatic target false) =
      match StaticMethod.ofRef? target with
      | some method => invokeStatic around frame method
      | none => .fault := rfl
  rw [hperform, h]

/-- A field of an instance of its class is read. -/
theorem perform_getField {object : Object V} {target : FieldRef}
    (h : around.instanceOf object target.owner = true) :
    perform around ⟨.reference (some object) :: stack, locals, builders⟩ (.field .getField target) =
      .next ⟨around.field object target :: stack, locals, builders⟩ :=
  if_pos h

/-- The number in an `Integer`. -/
theorem perform_intValue {object : Object V}
    (h : around.instanceOf object "java/lang/Integer" = true) :
    perform around ⟨.reference (some object) :: stack, locals, builders⟩
        (.invokevirtual ⟨"java/lang/Integer", "intValue", "()I"⟩) =
      .next ⟨.int (around.intValue object) :: stack, locals, builders⟩ := by
  have hmethod : Method.ofRef? ⟨"java/lang/Integer", "intValue", "()I"⟩ = some .intValue := rfl
  rw [perform_invokevirtual around _ hmethod]
  exact if_pos h

/-- Whether a text equals an object. -/
theorem perform_equals (text : JavaString) (argument : Option (Object V)) :
    perform around ⟨.reference argument :: .ofText text :: stack, locals, builders⟩
        (.invokevirtual ⟨ClassName.javaString, "equals", "(Ljava/lang/Object;)Z"⟩) =
      .next ⟨.ofBool (around.equals text argument) :: stack, locals, builders⟩ := by
  have hmethod : Method.ofRef? ⟨ClassName.javaString, "equals", "(Ljava/lang/Object;)Z"⟩ =
      some .equals := rfl
  rw [perform_invokevirtual around _ hmethod]
  rfl

/-- The name of a constant of an enum. -/
theorem perform_name {object : Object V} {owner : ClassName}
    (h : around.instanceOf object owner = true) :
    perform around ⟨.reference (some object) :: stack, locals, builders⟩
        (.invokevirtual ⟨owner, "name", "()Ljava/lang/String;"⟩) =
      .next ⟨.reference ((around.name object).map .text) :: stack, locals, builders⟩ := by
  have hmethod : Method.ofRef? ⟨owner, "name", "()Ljava/lang/String;"⟩ = some (.name owner) := by
    simp [Method.ofRef?]
  rw [perform_invokevirtual around _ hmethod]
  exact if_pos h

/-- The instructions that put a number on the stack. -/
inductive Puts (value : Int32) : Instruction → Prop where
  | op {op : Op} (h : number? op = some value) : Puts value (.op op)
  | byte (h : value.toInt8.toInt32 = value) : Puts value (.bipush value.toInt8)
  | short (h : value.toInt16.toInt32 = value) : Puts value (.sipush value.toInt16)
  | constant : Puts value (.ldc (.int value))

/-- The shortest instruction for a number is one of those. -/
theorem puts_int (value : Int32) : Puts value (Fragment.int value) := by
  unfold Fragment.int
  by_cases hminus : value = -1
  · rw [if_pos hminus, hminus]
    exact .op rfl
  rw [if_neg hminus]
  by_cases h0 : value = 0
  · rw [if_pos h0, h0]
    exact .op rfl
  rw [if_neg h0]
  by_cases h1 : value = 1
  · rw [if_pos h1, h1]
    exact .op rfl
  rw [if_neg h1]
  by_cases h2 : value = 2
  · rw [if_pos h2, h2]
    exact .op rfl
  rw [if_neg h2]
  by_cases h3 : value = 3
  · rw [if_pos h3, h3]
    exact .op rfl
  rw [if_neg h3]
  by_cases h4 : value = 4
  · rw [if_pos h4, h4]
    exact .op rfl
  rw [if_neg h4]
  by_cases h5 : value = 5
  · rw [if_pos h5, h5]
    exact .op rfl
  rw [if_neg h5]
  by_cases hbyte : (-128 ≤ value && value ≤ 127) = true
  · rw [if_pos hbyte]
    simp only [Bool.and_eq_true, decide_eq_true_eq] at hbyte
    exact .byte (toInt32_toInt8 hbyte.1 hbyte.2)
  rw [if_neg hbyte]
  by_cases hshort : (-32768 ≤ value && value ≤ 32767) = true
  · rw [if_pos hshort]
    simp only [Bool.and_eq_true, decide_eq_true_eq] at hshort
    exact .short (toInt32_toInt16 hshort.1 hshort.2)
  rw [if_neg hshort]
  exact .constant

/-- **The shortest instruction for a number** puts that number on the stack. -/
theorem perform_int (value : Int32) :
    perform around ⟨stack, locals, builders⟩ (Fragment.int value) =
      .next ⟨.int value :: stack, locals, builders⟩ := by
  have hputs := puts_int value
  generalize Fragment.int value = instruction at hputs ⊢
  cases hputs with
  | @op op h =>
      have hperform : performOp (⟨stack, locals, builders⟩ : Frame V) op =
          .next ⟨.int value :: stack, locals, builders⟩ := by
        simp only [performOp, h, Frame.push]
      exact hperform
  | byte h => exact congrArg (fun n => Effect.next ⟨.int n :: stack, locals, builders⟩) h
  | short h => exact congrArg (fun n => Effect.next ⟨.int n :: stack, locals, builders⟩) h
  | constant => rfl

end Instructions

end Running

end Downlevel
