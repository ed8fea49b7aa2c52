import Downlevel.Lower.Apply
import Downlevel.Proofs.Outcome

/-!
# What holds of all instructions

A pass is judged by the instructions that it leaves in a class.  This file has the view through
which that is said: `ClassFile.All P` means that `P` holds of every instruction in every method.

The instructions that passes write themselves are all **direct**: none of them is linked by a
bootstrap method, neither a dynamic call nor a dynamic constant that is loaded.  So a property that
holds of direct instructions cannot be broken by generated code, and a pass has to be looked at only
where it keeps or changes the dynamic instructions that were there before.  Most of them are
**straight**: they do not jump either, so they may stand anywhere without asking for a label.
-/

namespace Downlevel

namespace Instruction

/-- An instruction does without bootstrap methods: it is no dynamic call, and loads no dynamic
constant. -/
def Direct : Instruction → Prop
  | .ldc value => Constants.dynamic? value = none
  | .invokedynamic _ => False
  | _ => True

/-- An instruction does without bootstrap methods and goes nowhere but to the next one, if it goes on
at all. -/
def Straight : Instruction → Prop
  | .ldc value => Constants.dynamic? value = none
  | .invokedynamic _ => False
  | .branch _ _ | .goto _ | .jsr _ | .tableswitch _ _ _ _ | .lookupswitch _ _ => False
  | _ => True

/-- An instruction helps with values without loading any that a pass would have to see to: it goes on
to the next one, loads no dynamic constant and no null, and the static methods that it calls look up
or box. -/
def Helps : Instruction → Prop
  | .ldc value => Constants.dynamic? value = none
  | .op .aconstNull => False
  | .invokestatic target _ => target.name = "lookup" ∨ target.name = "valueOf"
  | .invokedynamic _ => False
  | .branch _ _ | .goto _ | .jsr _ | .tableswitch _ _ _ _ | .lookupswitch _ _ => False
  | _ => True

/-- A helping instruction is straight. -/
theorem Helps.straight {instruction : Instruction} (h : instruction.Helps) :
    instruction.Straight := by
  cases instruction <;> first | exact h | trivial

/-- A straight instruction is direct. -/
theorem Straight.direct {instruction : Instruction} (h : instruction.Straight) :
    instruction.Direct := by
  cases instruction <;> first | exact h | trivial

/-- A straight instruction refers to no labels. -/
theorem Straight.targets {instruction : Instruction} (h : instruction.Straight) :
    instruction.targets = [] := by
  cases instruction <;> first | rfl | cases h

/-- Labels have no part in whether an instruction is straight. -/
theorem Straight.mapLabels {instruction : Instruction} (h : instruction.Straight)
    (f : Label → Label) : (instruction.mapLabels f).Straight := by
  cases instruction <;> exact h

/-- Labels have no part in whether an instruction is direct. -/
theorem Direct.mapLabels {instruction : Instruction} (h : instruction.Direct)
    (f : Label → Label) : (instruction.mapLabels f).Direct := by
  cases instruction <;> exact h

/-- A class file counts the arguments of a call site with two bytes. -/
def Counted : Instruction → Prop
  | .invokedynamic site => site.arguments.length < 65536
  | _ => True

/-- Renaming labels leaves arguments alone. -/
theorem Counted.mapLabels {instruction : Instruction} (h : instruction.Counted)
    (f : Label → Label) : (instruction.mapLabels f).Counted := by
  cases instruction <;> exact h

/-- A direct instruction is no call site. -/
theorem Direct.counted {instruction : Instruction} (h : instruction.Direct) :
    instruction.Counted := by
  cases instruction <;> trivial

end Instruction

open Instruction

/-- Every instruction of code is as `P` says. -/
def Code.All (P : Instruction → Prop) (code : Code) : Prop :=
  ∀ entry ∈ code.instructions, P entry.instruction

/-- Every call site of code has as many arguments as a class file can count. -/
def Code.Counted (code : Code) : Prop :=
  ∀ entry ∈ code.instructions, entry.instruction.Counted

/-- Every instruction of a method is as `P` says. -/
def Method.All (P : Instruction → Prop) (method : Method) : Prop :=
  ∀ code, method.code = some code → code.All P

/-- Every instruction of a class is as `P` says. -/
def ClassFile.All (P : Instruction → Prop) (cls : ClassFile) : Prop :=
  ∀ method ∈ cls.methods, method.All P

/-- A weaker property holds wherever a stronger one does. -/
theorem Code.All.mono {P Q : Instruction → Prop} {code : Code} (h : code.All P)
    (himp : ∀ instruction, P instruction → Q instruction) : code.All Q :=
  fun entry hmem => himp _ (h entry hmem)

/-- A weaker property holds wherever a stronger one does. -/
theorem ClassFile.All.mono {P Q : Instruction → Prop} {cls : ClassFile} (h : cls.All P)
    (himp : ∀ instruction, P instruction → Q instruction) : cls.All Q :=
  fun method hmem code hcode => (h method hmem code hcode).mono himp

/-- A method that has nothing but its code is judged by that code. -/
@[simp] theorem Method.all_ofCode {P : Instruction → Prop} {access : MethodAccess}
    {name : MethodName} {descriptor : MethodDescriptor} {code : Code} :
    (Method.ofCode access name descriptor code).All P ↔ code.All P := by
  simp [Method.All, Method.ofCode]

/-- The instructions of a list of methods and of further ones behind them. -/
theorem ClassFile.all_append {P : Instruction → Prop} {cls : ClassFile} {front back : List Method}
    (hmethods : cls.methods = front ++ back) (hfront : ∀ method ∈ front, method.All P)
    (hback : ∀ method ∈ back, method.All P) : cls.All P := by
  intro method hmem
  rw [hmethods] at hmem
  rcases List.mem_append.mp hmem with h | h
  · exact hfront method h
  · exact hback method h

/-! ## Code made of pieces -/

namespace Assembly

/-- Putting pieces together adds no instructions but those that are pushed. -/
theorem mem_instructions_foldl {pieces : List Piece} {assembly : Assembly} {entry : Labelled}
    (h : entry ∈ (pieces.foldl Assembly.add assembly).instructions) :
    entry ∈ assembly.instructions ∨ Piece.push entry.instruction ∈ pieces := by
  induction pieces generalizing assembly with
  | nil => exact .inl h
  | cons piece rest ih =>
      rcases ih h with hadded | hrest
      · cases piece with
        | push instruction =>
            rcases List.mem_cons.mp hadded with rfl | hold
            · exact .inr List.mem_cons_self
            · exact .inl hold
        | place label =>
            simp only [Assembly.add] at hadded
            split at hadded <;> exact .inl hadded
        | guarded range => exact .inl hadded
      · exact .inr (List.mem_cons_of_mem _ hrest)

end Assembly

/-- Code made of pieces has the instructions that are pushed, with other labels. -/
theorem Code.all_ofPieces {P : Instruction → Prop} {pieces : List Piece}
    (h : ∀ instruction, .push instruction ∈ pieces → ∀ f, P (instruction.mapLabels f)) :
    (Code.ofPieces pieces).All P := by
  intro entry hmem
  simp only [Code.ofPieces, Assembly.finish, List.mem_map, List.mem_reverse] at hmem
  obtain ⟨pushed, hpushed, rfl⟩ := hmem
  rcases Assembly.mem_instructions_foldl hpushed with hnone | hpiece
  · cases hnone
  · exact h _ hpiece _

/-- Code made of direct instructions is direct. -/
theorem Code.all_direct_ofPieces {pieces : List Piece}
    (h : ∀ instruction, .push instruction ∈ pieces → instruction.Direct) :
    (Code.ofPieces pieces).All Direct :=
  Code.all_ofPieces fun instruction hmem f => (h instruction hmem).mapLabels f

/-- A sequence pushes its instructions. -/
@[simp] theorem Piece.push_mem_sequence {instruction : Instruction}
    {instructions : List Instruction} :
    Piece.push instruction ∈ Piece.sequence instructions ↔ instruction ∈ instructions := by
  simp [Piece.sequence]

/-! ## Fragments help, or are straight -/

namespace Fragment

/-- Putting a number on the stack helps. -/
theorem helps_int (value : Int32) : (Fragment.int value).Helps := by
  unfold Fragment.int
  repeat' split
  all_goals trivial

/-- Putting a number on the stack is straight. -/
@[simp] theorem straight_int (value : Int32) : (Fragment.int value).Straight :=
  (helps_int value).straight

/-- Putting a text on the stack helps. -/
theorem helps_text (value : String) : (Fragment.text value).Helps := rfl

/-- Putting a class on the stack helps. -/
theorem helps_classOf (type : JavaType) : (Fragment.classOf type).Helps := by
  unfold Fragment.classOf
  split <;> trivial

/-- Boxing a value helps. -/
theorem helps_box {type : JavaType} {instruction : Instruction}
    (h : instruction ∈ Fragment.box type) : instruction.Helps := by
  unfold Fragment.box at h
  split at h
  · rw [List.mem_singleton.mp h]
    exact .inr rfl
  · cases h

/-- Taking a value out of its box, or casting it, helps. -/
theorem helps_unboxOrCast {type : JavaType} {instruction : Instruction}
    (h : instruction ∈ Fragment.unboxOrCast type) : instruction.Helps := by
  unfold Fragment.unboxOrCast at h
  repeat' split at h
  all_goals simp only [List.mem_cons, List.not_mem_nil, or_false] at h
  · rcases h with rfl | rfl <;> trivial
  · subst h
    trivial

/-- Converting a value helps. -/
theorem helps_adapt {source target : JavaType} {instructions : List Instruction}
    (h : Fragment.adapt source target = .ok instructions) :
    ∀ instruction ∈ instructions, instruction.Helps := by
  intro instruction hmem
  unfold Fragment.adapt at h
  split at h
  · cases h
    cases hmem
  · split at h
    · cases h
      rcases List.mem_append.mp hmem with hbox | hcast
      · exact helps_box hbox
      · split at hcast
        · simp only [List.mem_map] at hcast
          obtain ⟨name, _, rfl⟩ := hcast
          trivial
        · cases hcast
    · cases h
      exact helps_unboxOrCast hmem
    · split at h
      · cases h
        cases hmem
      · cases h

/-- Creating an object is straight. -/
theorem straight_construct {cls : ClassName} {instruction : Instruction}
    (h : instruction ∈ Fragment.construct cls) : instruction.Straight := by
  simp only [Fragment.construct, List.mem_cons, List.not_mem_nil, or_false] at h
  rcases h with rfl | rfl | rfl <;> trivial

/-- Appending a string to a builder is straight. -/
theorem straight_appendString {value : JavaString} {instruction : Instruction}
    (h : instruction ∈ Fragment.appendString value) : instruction.Straight := by
  simp only [Fragment.appendString, List.mem_cons, List.not_mem_nil, or_false] at h
  rcases h with rfl | rfl <;> trivial

/-- Returning what a builder has built is straight. -/
theorem straight_returnBuilt {instruction : Instruction} (h : instruction ∈ Fragment.returnBuilt) :
    instruction.Straight := by
  simp only [Fragment.returnBuilt, List.mem_cons, List.not_mem_nil, or_false] at h
  rcases h with rfl | rfl <;> trivial

end Fragment

/-- What comes before the arguments of a handle's call helps. -/
theorem Handle.helps_beforeArguments {handle : Handle} {instruction : Instruction}
    (h : instruction ∈ handle.beforeArguments) : instruction.Helps := by
  unfold Handle.beforeArguments at h
  split at h
  · simp only [List.mem_cons, List.not_mem_nil, or_false] at h
    rcases h with rfl | rfl <;> trivial
  · cases h

/-- The call through a handle is straight. -/
theorem Handle.straight_call (handle : Handle) : handle.call.Straight := by
  unfold Handle.call
  split <;> trivial

/-- A handle is on one static method only. -/
theorem Handle.isStatic_inj {handle : Handle} {target other : MethodRef}
    (h : handle.isStatic target = true) (h' : handle.isStatic other = true) : target = other := by
  cases handle with
  | field use found => cases h
  | method call found =>
      cases call with
      | static onInterface => exact (of_decide_eq_true h).symm.trans (of_decide_eq_true h')
      | _ => cases h

end Downlevel
