import Downlevel.Code.Fragment
import Downlevel.Proofs.Outcome
import Downlevel.Proofs.Running.Machine

/-!
# Where values come from

A machine for straight code that does not compute values but keeps track of where they come from: a
value is a constant, a variable, an object that the code creates, or what an instruction made of
other values.  How many values a call takes, and whether it leaves one, is read off its descriptor.
So what is on the stack in the end tells what was passed to which call, and in which order.

* `perform`, `run` — what instructions do;
* `Converts` — a value of one type made one of another type;
* `replaces_adapt` — the instructions that adapt a value convert it and do nothing else.
-/

namespace Downlevel

namespace Tracing

/-- Where a value comes from. -/
inductive Origin where
  | constant (value : Loadable)
  | null
  | variable (slot : UInt16)
  /-- An instruction made it of other values. -/
  | made (instruction : Instruction) (operands : List Origin)
  /-- It is an object that the code has created. -/
  | created (number : Nat)

/-- An object that code has created. -/
inductive Creation where
  /-- An array, with what was stored in it: where and what, in order. -/
  | array (element : ClassName) (length : Int32) (stored : List (Int32 × Origin))
  /-- An object before its constructor was called. -/
  | fresh (cls : ClassName)
  /-- An object behind its constructor, with what was passed to that. -/
  | object (constructor : MethodRef) (operands : List Origin)

/-- What code works on: the stack with its top first, and the objects that it has created. -/
structure State where
  stack : List Origin
  objects : List Creation

/-- How many values a call takes beside receivers, and whether it leaves one. -/
def callTraffic? (receivers : Nat) (target : MethodRef) : Option (Nat × Bool) :=
  match MethodType.parse target.descriptor with
  | .ok type => some (receivers + type.parameters.length, type.result.isSome)
  | .error _ => none

/-- How many values an instruction takes, and whether it leaves one. -/
def traffic? : Instruction → Option (Nat × Bool)
  | .checkcast _ => some (1, true)
  | .field .getStatic _ => some (0, true)
  | .field .getField _ => some (1, true)
  | .invokestatic target _ => callTraffic? 0 target
  | .invokevirtual target => callTraffic? 1 target
  | .invokeinterface target => callTraffic? 1 target
  | .invokespecial target _ => callTraffic? 1 target
  | _ => none

/-- What an instruction puts on the stack without taking anything. -/
def pushed? : Instruction → Option Origin
  | .ldc value => some (.constant value)
  | .load .reference slot => some (.variable slot)
  | .bipush value => some (.constant (.int value.toInt32))
  | .sipush value => some (.constant (.int value.toInt32))
  | .op .aconstNull => some .null
  | .op op => (Running.number? op).map fun n => .constant (.int n)
  | _ => none

/-- What a call constructs: its receiver, if no constructor was called on that. -/
def constructed? (objects : List Creation) : Instruction → List Origin → Option Nat
  | .invokespecial _ _, .created number :: _ =>
      match objects[number]? with
      | some (.fresh _) => some number
      | _ => none
  | _, _ => none

/-- Performs an instruction that takes values and leaves one, or a constructor, which leaves nothing
but the object that it was called on.  There are no other instructions that leave nothing, so that
whatever was put on the stack can be found in the end. -/
def call (instruction : Instruction) (state : State) : Option State :=
  match traffic? instruction with
  | none => none
  | some (count, leaves) =>
      if state.stack.length < count then none
      else
        let operands := (state.stack.take count).reverse
        let rest := state.stack.drop count
        match instruction, constructed? state.objects instruction operands with
        | .invokespecial target _, some number =>
            some ⟨rest, state.objects.set number (.object target operands.tail)⟩
        | _, _ =>
            if leaves then some { state with stack := .made instruction operands :: rest } else none

/-- Performs an instruction, if it finds on the stack what it works on. -/
def perform (instruction : Instruction) (state : State) : Option State :=
  match pushed? instruction with
  | some origin => some { state with stack := origin :: state.stack }
  | none =>
      match instruction, state.stack with
      | .op .dup, top :: rest => some { state with stack := top :: top :: rest }
      | .new cls, stack =>
          some ⟨.created state.objects.length :: stack, state.objects ++ [.fresh cls]⟩
      | .anewarray element, .constant (.int length) :: rest =>
          some ⟨.created state.objects.length :: rest,
            state.objects ++ [.array element length []]⟩
      | .op .aastore, value :: .constant (.int index) :: .created number :: rest =>
          match state.objects[number]? with
          | some (.array element length stored) =>
              some ⟨rest,
                state.objects.set number (.array element length (stored ++ [(index, value)]))⟩
          | _ => none
      | instruction, _ => call instruction state

/-- Performs instructions one after the other. -/
def run : List Instruction → State → Option State
  | [], state => some state
  | instruction :: rest, state => (perform instruction state).bind (run rest)

/-- Instructions behind others are performed behind them. -/
theorem run_append (front back : List Instruction) (state : State) :
    run (front ++ back) state = (run front state).bind (run back) := by
  induction front generalizing state with
  | nil => rfl
  | cons instruction front ih =>
      rw [List.cons_append, run, run, Option.bind_assoc]
      exact congrArg _ (funext ih)

/-- Instructions put values on the stack, the last of them on top, and do nothing else. -/
def Puts (instructions : List Instruction) (origins : List Origin) : Prop :=
  ∀ stack objects, run instructions ⟨stack, objects⟩ = some ⟨origins.reverse ++ stack, objects⟩

/-- Instructions replace the value on top of the stack, and do nothing else. -/
def Replaces (instructions : List Instruction) (source target : Origin) : Prop :=
  ∀ stack objects, run instructions ⟨source :: stack, objects⟩ = some ⟨target :: stack, objects⟩

/-- No instructions put nothing. -/
theorem Puts.nil : Puts [] [] := fun _ _ => rfl

/-- Values are put one after the other. -/
theorem Puts.append {front back : List Instruction} {first second : List Origin}
    (h : Puts front first) (h' : Puts back second) : Puts (front ++ back) (first ++ second) := by
  intro stack objects
  rw [run_append, h, Option.bind_some, h', List.reverse_append, List.append_assoc]

/-- A value is put and then replaced. -/
theorem Puts.replace {front back : List Instruction} {source target : Origin}
    (h : Puts front [source]) (h' : Replaces back source target) :
    Puts (front ++ back) [target] := by
  intro stack objects
  rw [run_append, h, Option.bind_some]
  exact h' stack objects

/-- No instructions replace nothing. -/
theorem Replaces.refl (origin : Origin) : Replaces [] origin origin := fun _ _ => rfl

/-- A value is replaced twice. -/
theorem Replaces.trans {front back : List Instruction} {source middle target : Origin}
    (h : Replaces front source middle) (h' : Replaces back middle target) :
    Replaces (front ++ back) source target := by
  intro stack objects
  rw [run_append, h, Option.bind_some, h']

/-- An instruction that takes nothing puts its value. -/
theorem puts_of_pushed {instruction : Instruction} {origin : Origin}
    (h : pushed? instruction = some origin) : Puts [instruction] [origin] := by
  intro stack objects
  have hperform : perform instruction ⟨stack, objects⟩ = some ⟨origin :: stack, objects⟩ := by
    unfold perform
    rw [h]
  rw [run, hperform]
  rfl

/-- **A call takes its operands**, in order, and leaves what it makes of them. -/
theorem call_of_traffic {instruction : Instruction} {operands : List Origin}
    {objects : List Creation} (htraffic : traffic? instruction = some (operands.length, true))
    (hconstructed : constructed? objects instruction operands = none) (stack : List Origin) :
    call instruction ⟨operands.reverse ++ stack, objects⟩ =
      some ⟨.made instruction operands :: stack, objects⟩ := by
  have hlength : operands.length = operands.reverse.length := List.length_reverse.symm
  have hcount : ¬ (operands.reverse ++ stack).length < operands.length := by
    rw [List.length_append, List.length_reverse]
    omega
  have htake : ((operands.reverse ++ stack).take operands.length).reverse = operands := by
    rw [hlength, List.take_left, List.reverse_reverse]
  have hdrop : (operands.reverse ++ stack).drop operands.length = stack := by
    rw [hlength, List.drop_left]
  unfold call
  rw [htraffic]
  dsimp only
  rw [if_neg hcount, htake, hdrop, hconstructed]
  cases instruction <;> rfl

/-- **A constructor takes its object and its operands**, in order. -/
theorem call_constructor {target : MethodRef} {onInterface : Bool} {operands : List Origin}
    {objects : List Creation} {number : Nat} {cls : ClassName} {leaves : Bool}
    (htraffic : traffic? (.invokespecial target onInterface) = some (operands.length + 1, leaves))
    (hfresh : objects[number]? = some (.fresh cls)) (stack : List Origin) :
    call (.invokespecial target onInterface)
        ⟨operands.reverse ++ .created number :: stack, objects⟩ =
      some ⟨stack, objects.set number (.object target operands)⟩ := by
  have hstack : operands.reverse ++ .created number :: stack =
      (.created number :: operands).reverse ++ stack := by simp
  have hlength : operands.length + 1 = ((Origin.created number :: operands).reverse).length := by
    simp
  have hcount : ¬ ((.created number :: operands).reverse ++ stack).length < operands.length + 1 := by
    rw [List.length_append, ← hlength]
    omega
  have htake : (((.created number :: operands).reverse ++ stack).take
      (operands.length + 1)).reverse = .created number :: operands := by
    rw [hlength, List.take_left, List.reverse_reverse]
  have hdrop : ((.created number :: operands).reverse ++ stack).drop (operands.length + 1) =
      stack := by
    rw [hlength, List.drop_left]
  have hconstructed : constructed? objects (.invokespecial target onInterface)
      (.created number :: operands) = some number := by
    rw [constructed?, hfresh]
  unfold call
  rw [htraffic, hstack]
  dsimp only
  rw [if_neg hcount, htake, hdrop, hconstructed]
  rfl

/-- The shortest instruction for a number puts it. -/
theorem puts_int (value : Int32) : Puts [Fragment.int value] [.constant (.int value)] := by
  refine puts_of_pushed ?_
  have hputs := Running.puts_int value
  generalize Fragment.int value = instruction at hputs ⊢
  cases hputs with
  | @op op h =>
      have hop : pushed? (.op op) = (Running.number? op).map fun n => .constant (.int n) := by
        cases op <;> first | rfl | cases h
      rw [hop, h]
      rfl
  | byte h => exact congrArg (fun n => some (Origin.constant (.int n))) h
  | short h => exact congrArg (fun n => some (Origin.constant (.int n))) h
  | constant => rfl

/-! ## Values of one type made values of another one -/

section Parse

/-- A method that boxes takes one value. -/
theorem parse_box {base : BaseType} {cls : ClassName} {method : MethodName}
    (h : base.wrapper? = some (cls, method)) :
    MethodType.parse ("(" ++ JavaType.write ⟨0, base⟩ ++ ")" ++ (JavaType.object cls).write) =
      .ok ⟨[⟨0, base⟩], some (.object cls)⟩ := by
  cases base with
  | object name => cases h
  | _ =>
      cases h
      cbv

/-- A type is read behind an empty list of parameters. -/
theorem read_noParameters {chars : List Char} {type : JavaType} {hshort : [].length < chars.length}
    (h : JavaType.read chars = .ok (type, ⟨[], hshort⟩)) :
    MethodType.read ('(' :: ')' :: chars) = .ok ⟨[], some type⟩ := by
  have hparameters : MethodType.readParameters [] (')' :: chars) = .ok ([], chars) := by
    rw [MethodType.readParameters]
    rfl
  rw [MethodType.read, hparameters]
  -- no type is written as the letter that stands for none
  split
  next heq => cases heq
  next heq =>
    obtain ⟨rfl, rfl⟩ := Prod.mk.inj (Except.ok.inj heq)
    cases h
  next heq =>
    obtain ⟨rfl, rfl⟩ := Prod.mk.inj (Except.ok.inj heq)
    cases h
  next heq =>
    obtain ⟨rfl, rfl⟩ := Prod.mk.inj (Except.ok.inj heq)
    rw [h]

/-- A method without parameters takes nothing. -/
theorem parse_noParameters {descriptor : FieldDescriptor} {type : JavaType}
    (h : JavaType.parse descriptor = .ok type) :
    MethodType.parse ("()" ++ descriptor) = .ok ⟨[], some type⟩ := by
  have hlist : ("()" ++ descriptor).toList = '(' :: ')' :: descriptor.toList := by
    rw [String.toList_append]
    rfl
  unfold JavaType.parse at h
  split at h
  next fault hfault => exact absurd h (by simp)
  next found hshort hparsed =>
    cases h
    rw [MethodType.parse, hlist, read_noParameters hparsed]
  next => exact absurd h fail_ne_ok

end Parse

section Convert

/-- The method that boxes the values of a type in a class. -/
def boxing (type : JavaType) (cls : ClassName) : Instruction :=
  .invokestatic
    ⟨cls, "valueOf", "(" ++ type.write ++ ")" ++ (JavaType.object cls).write⟩ false

/-- The method that gives the value of a type back from its box. -/
def unboxing (type : JavaType) (cls : ClassName) (method : MethodName) : Instruction :=
  .invokevirtual ⟨cls, method, "()" ++ type.write⟩

/-- A value of one type is made one of another type. -/
inductive Converts : JavaType → JavaType → Origin → Origin → Prop where
  /-- It is one already. -/
  | same (type : JavaType) (origin : Origin) : Converts type type origin origin
  /-- Numbers of at most 32 bits are of one kind. -/
  | number {source target : JavaType} (hsource : source.isReference = false)
      (htarget : target.isReference = false) (hint : source.kind = .int) (hint' : target.kind = .int)
      (origin : Origin) : Converts source target origin origin
  /-- A primitive value is boxed. -/
  | box {source target : JavaType} {cls : ClassName} {method : MethodName}
      (hsource : source.wrapper? = some (cls, method))
      (htarget : target = .object cls ∨ target.coversBoxes = true) (origin : Origin) :
      Converts source target origin (.made (boxing source cls) [origin])
  /-- A primitive value is boxed, and the box is said to be what is asked for. -/
  | boxAndCast {source target : JavaType} {cls name : ClassName} {method : MethodName}
      (hsource : source.wrapper? = some (cls, method)) (htarget : target.internalName? = some name)
      (origin : Origin) :
      Converts source target origin (.made (.checkcast name) [.made (boxing source cls) [origin]])
  /-- A reference is taken for a box, and its value is taken out. -/
  | unbox {source target : JavaType} {cls : ClassName} {method : MethodName}
      (hsource : source.isReference = true) (htarget : target.wrapper? = some (cls, method))
      (origin : Origin) :
      Converts source target origin
        (.made (unboxing target cls method) [.made (.checkcast cls) [origin]])
  /-- Every reference is one to an object. -/
  | object {source target : JavaType} (hsource : source.isReference = true)
      (htarget : target.internalName? = some ClassName.javaObject) (origin : Origin) :
      Converts source target origin origin
  /-- A reference is said to be what is asked for. -/
  | cast {source target : JavaType} {name : ClassName} (hsource : source.isReference = true)
      (htarget : target.internalName? = some name) (hname : name ≠ ClassName.javaObject)
      (origin : Origin) :
      Converts source target origin (.made (.checkcast name) [origin])

/-- What is converted was not created by that. -/
theorem Converts.not_created {source target : JavaType} {origin converted : Origin}
    (h : Converts source target origin converted) (horigin : ∀ number, origin ≠ .created number) :
    ∀ number, converted ≠ .created number := by
  cases h with
  | same | number | object => exact horigin
  | box | boxAndCast | unbox | cast => simp

/-- An instruction that takes one value and leaves one replaces it. -/
theorem replaces_of_traffic {instruction : Instruction} {origin : Origin}
    (htraffic : traffic? instruction = some (1, true))
    (hcall : ∀ state, perform instruction state = call instruction state)
    (hconstructed : ∀ objects, constructed? objects instruction [origin] = none) :
    Replaces [instruction] origin (.made instruction [origin]) := by
  intro stack objects
  rw [run, hcall]
  have hcalled : call instruction ⟨origin :: stack, objects⟩ = _ :=
    call_of_traffic htraffic (hconstructed objects) stack
  rw [hcalled]
  rfl

/-- A cast replaces a value. -/
theorem replaces_checkcast (name : ClassName) (origin : Origin) :
    Replaces [.checkcast name] origin (.made (.checkcast name) [origin]) :=
  replaces_of_traffic rfl (fun _ => rfl) fun _ => rfl

/-- Boxing replaces a value. -/
theorem replaces_box {type : JavaType} {cls : ClassName} {method : MethodName}
    (h : type.wrapper? = some (cls, method)) (origin : Origin) :
    Replaces (Fragment.box type) origin (.made (boxing type cls) [origin]) := by
  obtain ⟨base, rfl, hbase⟩ := JavaType.exists_base h
  have hbox : Fragment.box ⟨0, base⟩ = [boxing ⟨0, base⟩ cls] := by
    rw [Fragment.box, h]
    rfl
  have htraffic : traffic? (boxing ⟨0, base⟩ cls) = some (1, true) := by
    have hcall : traffic? (boxing ⟨0, base⟩ cls) = callTraffic? 0
        ⟨cls, "valueOf", "(" ++ JavaType.write ⟨0, base⟩ ++ ")" ++ (JavaType.object cls).write⟩ := rfl
    rw [hcall, callTraffic?, parse_box hbase]
    rfl
  rw [hbox]
  exact replaces_of_traffic htraffic (fun _ => rfl) fun _ => rfl

/-- Taking a value out of a box replaces the box. -/
theorem replaces_unboxing {type : JavaType} {cls : ClassName} {method : MethodName}
    (h : type.wrapper? = some (cls, method)) (origin : Origin) :
    Replaces [unboxing type cls method] origin (.made (unboxing type cls method) [origin]) := by
  obtain ⟨base, rfl, hbase⟩ := JavaType.exists_base h
  have hparse : JavaType.parse (JavaType.write ⟨0, base⟩) = .ok ⟨0, base⟩ := by
    cases base with
    | object name => cases hbase
    | _ => rfl
  have htraffic : traffic? (unboxing ⟨0, base⟩ cls method) = some (1, true) := by
    have hcall : traffic? (unboxing ⟨0, base⟩ cls method) = callTraffic? 1
        ⟨cls, method, "()" ++ JavaType.write ⟨0, base⟩⟩ := rfl
    rw [hcall, callTraffic?, parse_noParameters hparse]
    rfl
  exact replaces_of_traffic htraffic (fun _ => rfl) fun _ => rfl

/-- A reference is made what is asked for by taking a value out of it, or by a cast, or not at all. -/
theorem replaces_unboxOrCast {source target : JavaType} (hsource : source.isReference = true)
    (origin : Origin) :
    ∃ converted, Converts source target origin converted ∧
      Replaces (Fragment.unboxOrCast target) origin converted := by
  cases hwrapper : target.wrapper? with
  | some pair =>
      obtain ⟨cls, method⟩ := pair
      have hunbox : Fragment.unboxOrCast target =
          [.checkcast cls] ++ [unboxing target cls method] := by
        rw [Fragment.unboxOrCast, hwrapper]
        rfl
      rw [hunbox]
      exact ⟨_, .unbox hsource hwrapper origin,
        (replaces_checkcast cls origin).trans (replaces_unboxing hwrapper _)⟩
  | none =>
      obtain ⟨name, hname⟩ := Option.isSome_iff_exists.mp
        ((target.isSome_internalName).trans (JavaType.wrapper_eq_none_iff.mp hwrapper))
      by_cases hobject : name = ClassName.javaObject
      · have hnone : Fragment.unboxOrCast target = [] := by
          simp [Fragment.unboxOrCast, hwrapper, hname, hobject]
        rw [hnone]
        exact ⟨origin, .object hsource (hobject ▸ hname) origin, .refl origin⟩
      · have hcast : Fragment.unboxOrCast target = [.checkcast name] := by
          simp [Fragment.unboxOrCast, hwrapper, hname, hobject]
        rw [hcast]
        exact ⟨_, .cast hsource hname hobject origin, replaces_checkcast name origin⟩

/-- What is no reference has a class of boxes. -/
theorem exists_wrapper {source : JavaType} (hsource : source.isReference = false) :
    ∃ cls method, source.wrapper? = some (cls, method) := by
  cases hwrapper : source.wrapper? with
  | some pair => exact ⟨pair.1, pair.2, rfl⟩
  | none =>
      rw [JavaType.wrapper_eq_none_iff.mp hwrapper] at hsource
      cases hsource

/-- A box of a number or a truth value is made what is asked for by a cast, or it already is that. -/
theorem replaces_box_cast {source target : JavaType} {cls name : ClassName} {method : MethodName}
    (hwrapper : source.wrapper? = some (cls, method)) (hname : target.internalName? = some name)
    (origin : Origin) :
    ∃ converted, Converts source target origin converted ∧
      Replaces (Fragment.box source ++
        if JavaType.object cls != target && !target.coversBoxes then [.checkcast name] else [])
        origin converted := by
  by_cases hcovered : (JavaType.object cls != target && !target.coversBoxes) = true
  · rw [if_pos hcovered]
    exact ⟨_, .boxAndCast hwrapper hname origin,
      (replaces_box hwrapper origin).trans (replaces_checkcast name _)⟩
  · rw [if_neg hcovered, List.append_nil]
    refine ⟨_, .box hwrapper ?_ origin, replaces_box hwrapper origin⟩
    by_cases hequal : target = .object cls
    · exact .inl hequal
    · refine .inr ?_
      simpa [Ne.symm hequal] using hcovered

/-- **Adapting a value converts it** and does nothing else. -/
theorem replaces_adapt {source target : JavaType} {instructions : List Instruction}
    (h : Fragment.adapt source target = .ok instructions) (origin : Origin) :
    ∃ converted, Converts source target origin converted ∧
      Replaces instructions origin converted := by
  unfold Fragment.adapt at h
  by_cases hsame : source = target
  · rw [if_pos hsame] at h
    cases h
    subst hsame
    exact ⟨origin, .same source origin, .refl origin⟩
  rw [if_neg hsame] at h
  cases hsource : source.isReference with
  | true =>
      rw [hsource] at h
      obtain rfl : Fragment.unboxOrCast target = instructions := by
        cases htarget : target.isReference <;> rw [htarget] at h <;> exact Except.ok.inj h
      exact replaces_unboxOrCast hsource origin
  | false =>
      rw [hsource] at h
      cases htarget : target.isReference with
      | true =>
          obtain ⟨cls, method, hwrapper⟩ := exists_wrapper hsource
          obtain ⟨name, hname⟩ := Option.isSome_iff_exists.mp
            ((target.isSome_internalName).trans htarget)
          have hboxed : source.boxed = .object cls := by rw [JavaType.boxed, hwrapper]
          rw [htarget] at h
          dsimp only at h
          rw [hboxed, hname] at h
          cases h
          exact replaces_box_cast hwrapper hname origin
      | false =>
          rw [htarget] at h
          dsimp only at h
          by_cases hints : (source.kind = .int && target.kind = .int) = true
          · rw [if_pos hints] at h
            cases h
            simp only [Bool.and_eq_true, decide_eq_true_eq] at hints
            exact ⟨origin, .number hsource htarget hints.1 hints.2 origin, .refl origin⟩
          · rw [if_neg hints] at h
            exact absurd h fail_ne_ok

end Convert

end Tracing

end Downlevel
