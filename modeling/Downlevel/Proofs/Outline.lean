import Downlevel.Encode.Code
import Downlevel.Proofs.Placed

/-!
# Outlines of stacks

Execution stumbles if an instruction takes what is not on the stack, if two ways to an instruction
leave different numbers of values there, if a local variable is used that does not exist, or if
execution goes where no instruction is.

To tell that an instruction does not stumble, very little has to be known of the stack.  An *outline*
tells how many values there are, and of each whether it surely takes a single slot, which matters where a
value is doubled.  What an instruction does to outlines is computed from the instruction alone, and a
frame that is as an outline says becomes one that is as the outline behind says.

* `Fault.Stumbles` — the faults that tell of stumbling;
* `Outline`, `Frame.Fits` — what is known of the stack, and frames of which that is so;
* `Instruction.trade?`, `Outline.behind?` — what instructions do to outlines;
* `Frame.after_fits` — **an instruction does to frames what it does to outlines**, without stumbling.
-/

namespace Downlevel

/-- A fault tells that execution stumbles: a value is taken that is not on the stack, or half of one;
there are different numbers of values on two ways to an instruction; a local variable is used that
does not exist; or execution goes where no instruction is. -/
@[grind cases]
inductive Fault.Stumbles : Fault → Prop where
  | stackUnderflow : Stumbles (.frame .stackUnderflow)
  | stackHeights : Stumbles (.frame .stackHeights)
  | splitValue (slots : Nat) : Stumbles (.frame (.splitValue slots))
  | localOutOfBounds (slot : Nat) : Stumbles (.frame (.localOutOfBounds slot))
  | fallsOffEnd (index : Nat) : Stumbles (.frame (.fallsOffEnd index))
  | jumpsToEnd (index target : Nat) : Stumbles (.frame (.jumpsToEnd index target))
  | noInstruction (label : UInt16) : Stumbles (.write (.noInstruction label))

/-- A fault does not tell that execution stumbles. -/
def Fault.Harmless (fault : Fault) : Prop :=
  ¬ fault.Stumbles

/-- Whatever goes wrong when a common super class is looked for, it has nothing to do with the code.  It
is looked for of different classes, none of which is an array class. -/
def SuperClasses.Harmless {σ : Type} (supers : SuperClasses σ) : Prop :=
  ∀ a b, a ≠ b → a.isArray = false → b.isArray = false →
    FailsOnly Fault.Harmless (supers.common a b)

/-- There always is an answer which class two classes have in common. -/
def SuperClasses.Answers {σ : Type} (supers : SuperClasses σ) : Prop :=
  ∀ a b, a ≠ b → a.isArray = false → b.isArray = false →
    ∀ s, ∃ name s', supers.common a b s = (.ok name, s')

/-- Nothing goes wrong if there always is an answer. -/
theorem SuperClasses.Answers.harmless {σ : Type} {supers : SuperClasses σ} (h : supers.Answers) :
    supers.Harmless := by
  rintro a b hne ha hb error ⟨s, s', hrun⟩
  obtain ⟨name, after, hanswer⟩ := h a b hne ha hb s
  rw [hanswer] at hrun
  cases hrun

/-- What is known of the values on the stack, the topmost first: of each, whether it surely takes one
slot. -/
abbrev Outline := List Bool

/-- Whether values of a type take one slot. -/
def VType.isNarrow (type : VType) : Bool :=
  !type.isWide

/-! ## Descriptors -/

/-- A field descriptor that cannot be read is nothing that execution stumbles over. -/
theorem JavaType.harmless_parse (descriptor : String) :
    FailsOnly Fault.Harmless (JavaType.parse descriptor) := by
  unfold JavaType.parse
  grind [Fault.Harmless]

/-- Nor is a method descriptor. -/
theorem MethodType.harmless_parse (descriptor : String) :
    FailsOnly Fault.Harmless (MethodType.parse descriptor) := by
  unfold MethodType.parse
  grind [Fault.Harmless]

/-- Nor is the type of a value. -/
theorem VType.harmless_ofDescriptor (descriptor : FieldDescriptor) :
    FailsOnly Fault.Harmless (VType.ofDescriptor descriptor) :=
  failsOnly_bind (JavaType.harmless_parse descriptor) fun _ => failsOnly_pure _

/-! ## Instructions -/

/-- Whether a value surely takes one slot when it is loaded.  Of a dynamic constant that is left open. -/
def Loadable.isNarrow : Loadable → Bool
  | .int _ | .float _ | .cls _ | .string _ | .handle _ | .methodType _ => true
  | .long _ | .double _ | .dynamic _ _ _ _ => false

/-- How many values a call takes beside receivers, and those it gives. -/
def callTrade? (receivers : Nat) (descriptor : MethodDescriptor) : Option (Nat × Outline) :=
  match MethodType.parse descriptor with
  | .ok type =>
      some (type.parameters.length + receivers,
        type.result.toList.map fun result => (VType.ofType result).isNarrow)
  | .error _ => none

/-- How many values reading a field takes, and the one it gives. -/
def fieldTrade? (receivers : Nat) (descriptor : FieldDescriptor) : Option (Nat × Outline) :=
  match VType.ofDescriptor descriptor with
  | .ok type => some (receivers, [type.isNarrow])
  | .error _ => none

/-- How many values an instruction takes, and those it gives.  A reference that is loaded surely takes
one slot if all local variables do. -/
def Instruction.trade? (narrow : Bool) : Instruction → Option (Nat × Outline)
  | .op operation =>
      match operation.effect with
      | .exchange taken given => some (taken, given.toList.map VType.isNarrow)
      | _ => none
  | .bipush _ => some (0, [true])
  | .sipush _ => some (0, [true])
  | .ldc value => some (0, [value.isNarrow])
  | .load .reference _ => some (0, [narrow])
  | .load kind _ => some (0, [!kind.isWide])
  | .iinc _ _ => some (0, [])
  | .branch condition _ => some (if condition.isBinary then 2 else 1, [])
  | .goto _ => some (0, [])
  | .tableswitch _ _ _ _ => some (1, [])
  | .lookupswitch _ _ => some (1, [])
  | .field .getStatic target => fieldTrade? 0 target.descriptor
  | .field .putStatic _ => some (1, [])
  | .field .getField target => fieldTrade? 1 target.descriptor
  | .field .putField _ => some (2, [])
  | .invokevirtual target => callTrade? 1 target.descriptor
  | .invokeinterface target => callTrade? 1 target.descriptor
  | .invokespecial target _ => callTrade? 1 target.descriptor
  | .invokestatic target _ => callTrade? 0 target.descriptor
  | .invokedynamic site => callTrade? 0 site.descriptor
  | .new _ => some (0, [true])
  | .newarray _ => some (1, [true])
  | .anewarray _ => some (1, [true])
  | .checkcast _ => some (1, [true])
  | .instanceof _ => some (1, [true])
  | .multianewarray _ dimensions => some (dimensions.toNat, [true])
  | .store _ _ => none
  | .jsr _ => none
  | .ret _ => none

/-- The outline behind an instruction, if it finds what it takes.  Only a value that surely takes one
slot is doubled or stored. -/
def Outline.behind? (narrow : Bool) (instruction : Instruction) (outline : Outline) :
    Option Outline :=
  match instruction, outline with
  | .op .dup, true :: rest => some (true :: true :: rest)
  | .store _ _, true :: rest => some rest
  | instruction, outline =>
      match instruction.trade? narrow with
      | some (taken, given) =>
          if taken ≤ outline.length then some (given ++ outline.drop taken) else none
      | none => none

/-- An instruction takes values from the top of the stack and gives others. -/
theorem Outline.behind_of_trade {narrow : Bool} {instruction : Instruction} {taken : Nat}
    {given : Outline} (h : instruction.trade? narrow = some (taken, given)) (outline : Outline) :
    outline.behind? narrow instruction =
      if taken ≤ outline.length then some (given ++ outline.drop taken) else none := by
  unfold behind?
  split
  next => cases h
  next => cases h
  next => rw [h]

namespace Frame

open Downlevel.Task

/-- A frame is as an outline says: there are as many local variables as there should be, all of one
slot if that is said, and of the values on the stack those that it says. -/
structure Fits (slots : Nat) (narrow : Bool) (outline : Outline) (frame : Frame) : Prop where
  length : frame.locals.length = slots
  narrow : narrow = true → ∀ type ∈ frame.locals, type.isWide = false
  stack : List.Forall₂ (fun sure type => sure = true → type.isWide = false) outline frame.stack

namespace StepM

variable {slots : Nat} {narrow : Bool} {before between after : Outline} {α β : Type}

/-- Work on frames with one outline leaves frames with another one behind, gives a value with a
property, and does not stumble. -/
def Moves (slots : Nat) (narrow : Bool) (before after : Outline) (work : StepM α)
    (Q : α → Prop) : Prop :=
  ∀ frame : Frame, frame.Fits slots narrow before →
    FailsOnly Fault.Harmless (work frame) ∧
      ∀ value frame', work frame = .ok (value, frame') → Q value ∧ frame'.Fits slots narrow after

/-- A value leaves the frame alone. -/
theorem moves_pure {value : α} {Q : α → Prop} (h : Q value) :
    Moves slots narrow before before (pure value : StepM α) Q := by
  intro frame hframe
  refine ⟨failsOnly_ok _, fun found frame' hrun => ?_⟩
  obtain ⟨rfl, rfl⟩ := work_pure_eq_ok.mp hrun
  exact ⟨h, hframe⟩

/-- What only has an outcome leaves the frame alone. -/
theorem moves_lift {outcome : Except Error α} (h : FailsOnly Fault.Harmless outcome) :
    Moves slots narrow before before (liftM outcome : StepM α) (fun value => outcome = .ok value) := by
  intro frame hframe
  refine ⟨fun error hfails => failsOnly_lift_work h error ⟨frame, hfails⟩, ?_⟩
  intro value frame' hrun
  obtain ⟨hvalue, rfl⟩ := work_lift_eq_ok.mp hrun
  exact ⟨hvalue, hframe⟩

/-- Work in sequence. -/
theorem Moves.bind {work : StepM α} {next : α → StepM β} {Q : α → Prop} {R : β → Prop}
    (h : Moves slots narrow before between work Q)
    (hnext : ∀ value, Q value → Moves slots narrow between after (next value) R) :
    Moves slots narrow before after (work >>= next) R := by
  intro frame hframe
  obtain ⟨hfails, hgives⟩ := h frame hframe
  constructor
  · show FailsOnly Fault.Harmless (work frame >>= fun found => next found.1 found.2)
    refine failsOnly_bind_of_yields hfails fun found hfound => ?_
    obtain ⟨hvalue, hbetween⟩ := hgives found.1 found.2 hfound
    exact (hnext found.1 hvalue found.2 hbetween).1
  · intro value frame' hrun
    obtain ⟨first, middle, hfirst, hrest⟩ := work_bind_eq_ok.mp hrun
    obtain ⟨hvalue, hbetween⟩ := hgives first middle hfirst
    exact (hnext first hvalue middle hbetween).2 value frame' hrest

/-- Taking a value that is there. -/
theorem moves_pop {sure : Bool} :
    Moves slots narrow (sure :: after) after pop fun type => sure = true → type.isWide = false := by
  intro frame hframe
  have hstack := hframe.stack
  rcases hlist : frame.stack with _ | ⟨first, rest⟩
  · rw [hlist] at hstack
    cases hstack
  · rw [hlist] at hstack
    obtain ⟨hfirst, hrest⟩ := List.forall₂_cons.mp hstack
    have hpop : pop frame = .ok (first, { frame with stack := rest }) := by
      unfold pop
      rw [hlist]
    rw [hpop]
    refine ⟨failsOnly_ok _, fun value frame' hrun => ?_⟩
    cases hrun
    exact ⟨hfirst, hframe.length, hframe.narrow, hrest⟩

/-- Taking several values that are there. -/
theorem moves_popMany {n : Nat} (h : n ≤ before.length) :
    Moves slots narrow before (before.drop n) (popMany n) fun _ => True := by
  induction n generalizing before with
  | zero => exact moves_pure trivial
  | succ n ih =>
      cases before with
      | nil => cases h
      | cons sure rest => exact moves_pop.bind fun _ _ => ih (Nat.le_of_succ_le_succ h)

/-- Taking one value, which is there. -/
theorem moves_popOne (h : 1 ≤ before.length) :
    Moves slots narrow before (before.drop 1) pop fun _ => True := by
  cases before with
  | nil => cases h
  | cons sure rest =>
      intro frame hframe
      obtain ⟨hfails, hgives⟩ := moves_pop frame hframe
      exact ⟨hfails, fun value frame' hrun => ⟨trivial, (hgives value frame' hrun).2⟩⟩

/-- Putting a value on the stack. -/
theorem moves_push {type : VType} {sure : Bool} (h : sure = true → type.isWide = false) :
    Moves slots narrow before (sure :: before) (push type) fun _ => True := by
  intro frame hframe
  refine ⟨failsOnly_ok _, fun value frame' hrun => ?_⟩
  cases hrun
  exact ⟨trivial, hframe.length, hframe.narrow, .cons h hframe.stack⟩

/-- What surely takes one slot does. -/
theorem isWide_of_isNarrow {type : VType} (h : type.isNarrow = true) : type.isWide = false := by
  unfold VType.isNarrow at h
  simpa using h

/-- Taking values and putting one of a type on the stack. -/
theorem moves_exchange {n : Nat} (h : n ≤ before.length) {type : VType} {sure : Bool}
    (hsure : sure = true → type.isWide = false) :
    Moves slots narrow before ([sure] ++ before.drop n) (do popMany n; push type) fun _ => True :=
  (moves_popMany h).bind fun _ _ => moves_push hsure

/-- Once enough slots have been split off, no more are. -/
theorem splitSlots_end (slots : Nat) (taken stack : List VType) :
    splitSlots slots slots taken stack = .ok (taken.reverse, stack) := by
  unfold splitSlots
  rw [if_neg (Nat.lt_irrefl slots), if_pos rfl]

/-- Doubling a value of one slot. -/
theorem moves_dup : Moves slots narrow (true :: after) (true :: true :: after)
    (runEffect (.duplicate 1 0)) fun _ => True := by
  intro frame hframe
  have hstack := hframe.stack
  rcases hlist : frame.stack with _ | ⟨first, rest⟩
  · rw [hlist] at hstack
    cases hstack
  · rw [hlist] at hstack
    obtain ⟨hfirst, hrest⟩ := List.forall₂_cons.mp hstack
    have hsize : first.size = 1 := by
      unfold VType.size
      rw [hfirst rfl]
      rfl
    have hsplit : splitSlots 1 0 [] (first :: rest) = .ok ([first], rest) := by
      unfold splitSlots
      rw [if_pos Nat.one_pos]
      dsimp only
      rw [Nat.zero_add, hsize]
      exact splitSlots_end 1 [first] rest
    have hpop : popSlots 1 frame = .ok ([first], { frame with stack := rest }) := by
      unfold popSlots
      rw [hlist, hsplit]
      rfl
    have hnone (other : Frame) : popSlots 0 other = .ok ([], other) := by
      unfold popSlots
      rw [splitSlots_end]
      rfl
    have hrun : runEffect (.duplicate 1 0) frame =
        .ok ((), { frame with stack := [first] ++ [] ++ [first] ++ rest }) := by
      show (popSlots 1 >>= fun taken => popSlots 0 >>= fun below =>
        pushAll (taken ++ below ++ taken)) frame = _
      refine work_bind_eq_ok.mpr ⟨_, _, hpop, ?_⟩
      refine work_bind_eq_ok.mpr ⟨_, _, hnone _, ?_⟩
      rfl
    rw [hrun]
    refine ⟨failsOnly_ok _, fun value frame' hfound => ?_⟩
    cases hfound
    exact ⟨trivial, hframe.length, hframe.narrow, .cons hfirst (.cons hfirst hrest)⟩

/-- Loading a local variable. -/
theorem moves_load {slot : UInt16} (h : slot.toNat < slots) :
    Moves slots narrow before before (load slot) fun type => narrow = true → type.isWide = false := by
  intro frame hframe
  have hslot : slot.toNat < frame.locals.length := by
    rw [hframe.length]
    exact h
  have hload : load slot frame = .ok (frame.locals[slot.toNat], frame) := by
    unfold load
    rw [List.getElem?_eq_getElem hslot]
  rw [hload]
  refine ⟨failsOnly_ok _, fun value frame' hrun => ?_⟩
  cases hrun
  exact ⟨fun hnarrow => hframe.narrow hnarrow _ (List.getElem_mem hslot), hframe⟩

/-- Storing a value of one slot in a local variable. -/
theorem moves_store {slot : UInt16} {type : VType} (h : slot.toNat < slots)
    (htype : type.isWide = false) :
    Moves slots narrow before before (store slot type) fun _ => True := by
  intro frame hframe
  have hsize : type.size = 1 := by
    unfold VType.size
    rw [htype]
    rfl
  have hroom : slot.toNat + type.size ≤ frame.locals.length := by
    rw [hframe.length, hsize]
    omega
  have hstore : store slot type frame =
      .ok ((), { frame with locals := storeIn type slot.toNat frame.locals }) := by
    unfold store
    rw [if_neg (Nat.not_lt.mpr hroom)]
  rw [hstore]
  refine ⟨failsOnly_ok _, fun value frame' hrun => ?_⟩
  cases hrun
  refine ⟨trivial, ?_, fun hnarrow other hmem => ?_, hframe.stack⟩
  · rw [← hframe.length]
    exact length_storeIn hroom
  · rcases mem_of_storeIn hmem with rfl | rfl | hold
    · exact htype
    · rfl
    · exact hframe.narrow hnarrow other hold

/-- Making an object usable. -/
theorem moves_replace (old : VType) (name : ClassName) :
    Moves slots narrow before before (replace old (.object name)) fun _ => True := by
  intro frame hframe
  have hchange : ∀ type : VType, type.isWide = false →
      (if type = old then VType.object name else type).isWide = false := by
    intro type htype
    split
    · rfl
    · exact htype
  refine ⟨failsOnly_ok _, fun value frame' hrun => ?_⟩
  cases hrun
  refine ⟨trivial, ?_, fun hnarrow type hmem => ?_, ?_⟩
  · rw [← hframe.length]
    exact List.length_map _
  · obtain ⟨other, hother, rfl⟩ := List.mem_map.mp hmem
    exact hchange other (hframe.narrow hnarrow other hother)
  · refine List.forall₂_map_right_iff.mpr (hframe.stack.imp ?_)
    exact fun sure type hsure hyes => hchange type (hsure hyes)

end StepM

open StepM

section Steps

variable {slots : Nat} {narrow : Bool} {before behind : Outline} {cls : ClassName}
  {code : Array Instruction} {index : Nat} {instruction : Instruction}

/-- The result of a call. -/
theorem pushResult_moves (type : MethodType) :
    Moves slots narrow before
      ((type.result.toList.map fun result => (VType.ofType result).isNarrow) ++ before)
      (pushResult type) fun _ => True := by
  unfold pushResult
  cases type.result with
  | none => exact moves_pure trivial
  | some result => exact moves_push isWide_of_isNarrow

/-- What the trade of a call says of its descriptor. -/
theorem callTrade_eq_some {receivers taken : Nat} {descriptor : MethodDescriptor} {given : Outline}
    (h : callTrade? receivers descriptor = some (taken, given)) :
    ∃ type, MethodType.parse descriptor = .ok type ∧ taken = type.parameters.length + receivers ∧
      given = type.result.toList.map fun result => (VType.ofType result).isNarrow := by
  unfold callTrade? at h
  split at h
  next type htype =>
    cases h
    exact ⟨type, htype, rfl, rfl⟩
  next => cases h

/-- What takes the arguments and the receiver of a call and goes on with the result gives what the call
gives. -/
theorem takeReceiver_moves {target : MethodRef} {taken : Nat} {given : Outline}
    {next : MethodType → VType → StepM Unit}
    (htrade : callTrade? 1 target.descriptor = some (taken, given)) (hroom : taken ≤ before.length)
    (hnext : ∀ rest type receiver, Moves slots narrow rest
      ((type.result.toList.map fun result => (VType.ofType result).isNarrow) ++ rest)
      (next type receiver) fun _ => True) :
    Moves slots narrow before (given ++ before.drop taken) (do
      let type ← (MethodType.parse target.descriptor : Except Error MethodType)
      popMany type.parameters.length
      let receiver ← pop
      next type receiver) fun _ => True := by
  obtain ⟨type, htype, rfl, rfl⟩ := callTrade_eq_some htrade
  refine (moves_lift (MethodType.harmless_parse _)).bind fun found hfound => ?_
  obtain rfl := Except.ok.inj (htype.symm.trans hfound)
  refine (moves_popMany (by omega)).bind fun _ _ => ?_
  have hmore : 1 ≤ (before.drop type.parameters.length).length := by
    rw [List.length_drop]
    omega
  rw [← List.drop_drop]
  exact (moves_popOne hmore).bind fun receiver _ => hnext _ type receiver

/-- A call with a receiver takes the arguments and the receiver, and gives its result. -/
theorem runCall_moves {target : MethodRef} {taken : Nat} {given : Outline}
    (htrade : callTrade? 1 target.descriptor = some (taken, given)) (hroom : taken ≤ before.length) :
    Moves slots narrow before (given ++ before.drop taken) (runCall target) fun _ => True :=
  takeReceiver_moves htrade hroom fun _ type _ => pushResult_moves type

/-- So does a special call, which may make an object usable. -/
theorem runSpecialCall_moves {target : MethodRef} {taken : Nat} {given : Outline}
    (htrade : callTrade? 1 target.descriptor = some (taken, given)) (hroom : taken ≤ before.length) :
    Moves slots narrow before (given ++ before.drop taken) (runSpecialCall cls code target)
      fun _ => True := by
  refine takeReceiver_moves htrade hroom fun rest type receiver => ?_
  have hresult : Moves slots narrow rest _ (pushResult type) fun _ => True := pushResult_moves type
  split
  next =>
    split
    next => exact (moves_replace _ _).bind fun _ _ => hresult
    next created =>
      have hcreated : FailsOnly Fault.Harmless (createdClass code created) := by
        unfold createdClass
        grind [Fault.Harmless]
      exact (moves_lift hcreated).bind fun name _ => (moves_replace _ _).bind fun _ _ => hresult
    next => exact hresult
  next => exact hresult

/-- A call without a receiver takes the arguments and gives its result. -/
theorem parse_popMany_moves {descriptor : MethodDescriptor} {taken : Nat} {given : Outline}
    (htrade : callTrade? 0 descriptor = some (taken, given)) (hroom : taken ≤ before.length) :
    Moves slots narrow before (given ++ before.drop taken) (do
      let type ← (MethodType.parse descriptor : Except Error MethodType)
      popMany type.parameters.length
      pushResult type) fun _ => True := by
  obtain ⟨type, htype, rfl, rfl⟩ := callTrade_eq_some htrade
  refine (moves_lift (MethodType.harmless_parse _)).bind fun found hfound => ?_
  obtain rfl := Except.ok.inj (htype.symm.trans hfound)
  exact (moves_popMany hroom).bind fun _ _ => pushResult_moves type

/-- What the trade of reading a field says of its descriptor. -/
theorem fieldTrade_eq_some {receivers taken : Nat} {descriptor : FieldDescriptor} {given : Outline}
    (h : fieldTrade? receivers descriptor = some (taken, given)) :
    ∃ type, VType.ofDescriptor descriptor = .ok type ∧ taken = receivers ∧
      given = [type.isNarrow] := by
  unfold fieldTrade? at h
  split at h
  next type htype =>
    cases h
    exact ⟨type, htype, rfl, rfl⟩
  next => cases h

/-- A field that is read gives a value of its type. -/
theorem push_ofDescriptor_moves {descriptor : FieldDescriptor} {type : VType}
    (htype : VType.ofDescriptor descriptor = .ok type) :
    Moves slots narrow before (type.isNarrow :: before)
      (do push (← (VType.ofDescriptor descriptor : Except Error VType))) fun _ => True := by
  refine (moves_lift (VType.harmless_ofDescriptor _)).bind fun found hfound => ?_
  obtain rfl := Except.ok.inj (htype.symm.trans hfound)
  exact moves_push isWide_of_isNarrow

/-- An instruction without operands that exchanges values. -/
theorem runEffect_moves {taken : Nat} (given : Option VType) (hroom : taken ≤ before.length) :
    Moves slots narrow before (given.toList.map VType.isNarrow ++ before.drop taken)
      (runEffect (.exchange taken given)) fun _ => True := by
  refine (moves_popMany hroom).bind fun _ _ => ?_
  cases given with
  | none => exact moves_pure trivial
  | some type => exact moves_push isWide_of_isNarrow

/-- A constant that surely takes one slot is of a type that does. -/
theorem loadedType_isWide {value : Loadable} {type : VType} (htype : loadedType value = .ok type)
    (hsure : value.isNarrow = true) : type.isWide = false := by
  cases value with
  | long | double | dynamic => cases hsure
  | _ =>
      cases htype
      rfl

/-- Nothing is stumbled over when a constant is loaded. -/
theorem harmless_loadedType (value : Loadable) : FailsOnly Fault.Harmless (loadedType value) := by
  unfold loadedType
  cases value with
  | dynamic => exact VType.harmless_ofDescriptor _
  | _ => exact failsOnly_ok _

/-- A constant that is loaded. -/
theorem loadConstant_moves (value : Loadable) :
    Moves slots narrow before (value.isNarrow :: before)
      (do push (← (loadedType value : Except Error VType))) fun _ => True :=
  (moves_lift (harmless_loadedType value)).bind fun _ htype =>
    moves_push (loadedType_isWide htype)

/-- **An instruction that trades values** takes and gives what the trade says. -/
theorem run_trades {taken : Nat} {given : Outline}
    (hslots : Encode.slotsUsed instruction ≤ slots)
    (htrade : instruction.trade? narrow = some (taken, given)) (hroom : taken ≤ before.length) :
    Moves slots narrow before (given ++ before.drop taken) (run cls code index instruction)
      fun _ => True := by
  cases instruction with
  | op operation =>
      show Moves _ _ _ _ (runEffect operation.effect) _
      simp only [Instruction.trade?] at htrade
      split at htrade
      next taken' given' heffect =>
        cases htrade
        rw [heffect]
        exact runEffect_moves given' hroom
      next => cases htrade
  | bipush value =>
      cases htrade
      exact moves_push fun _ => rfl
  | sipush value =>
      cases htrade
      exact moves_push fun _ => rfl
  | ldc value =>
      cases htrade
      exact loadConstant_moves value
  | load kind slot =>
      cases kind with
      | reference =>
          cases htrade
          exact (moves_load hslots).bind fun type htype => moves_push htype
      | int | float =>
          cases htrade
          exact moves_push fun _ => rfl
      | long | double =>
          cases htrade
          exact moves_push nofun
  | store kind slot => cases htrade
  | iinc slot delta =>
      cases htrade
      exact moves_pure trivial
  | branch condition target =>
      cases htrade
      exact moves_popMany hroom
  | goto target =>
      cases htrade
      exact moves_pure trivial
  | jsr target => cases htrade
  | ret slot => cases htrade
  | tableswitch fallback low high targets =>
      cases htrade
      exact moves_popMany hroom
  | lookupswitch fallback cases' =>
      cases htrade
      exact moves_popMany hroom
  | field use target =>
      cases use with
      | getStatic =>
          obtain ⟨type, htype, rfl, rfl⟩ := fieldTrade_eq_some htrade
          exact push_ofDescriptor_moves htype
      | putStatic =>
          cases htrade
          exact moves_popMany hroom
      | getField =>
          obtain ⟨type, htype, rfl, rfl⟩ := fieldTrade_eq_some htrade
          exact (moves_popMany hroom).bind fun _ _ => push_ofDescriptor_moves htype
      | putField =>
          cases htrade
          exact moves_popMany hroom
  | invokevirtual target => exact runCall_moves htrade hroom
  | invokeinterface target => exact runCall_moves htrade hroom
  | invokespecial target onInterface => exact runSpecialCall_moves htrade hroom
  | invokestatic target onInterface => exact parse_popMany_moves htrade hroom
  | invokedynamic site => exact parse_popMany_moves htrade hroom
  | new name =>
      cases htrade
      exact moves_push fun _ => rfl
  | newarray element =>
      cases htrade
      exact moves_exchange hroom fun _ => rfl
  | anewarray name =>
      cases htrade
      exact moves_exchange hroom fun _ => rfl
  | checkcast name =>
      cases htrade
      exact moves_exchange hroom fun _ => rfl
  | instanceof name =>
      cases htrade
      exact moves_exchange hroom fun _ => rfl
  | multianewarray name dimensions =>
      cases htrade
      exact moves_exchange hroom fun _ => rfl

/-- **An instruction does to frames what it does to outlines**, and does not stumble. -/
theorem run_moves (hslots : Encode.slotsUsed instruction ≤ slots)
    (h : before.behind? narrow instruction = some behind) :
    Moves slots narrow before behind (run cls code index instruction) fun _ => True := by
  unfold Outline.behind? at h
  split at h
  next rest =>
    cases h
    exact moves_dup
  next kind slot rest =>
    cases h
    have hused : slot.toNat + (if kind.isWide then 2 else 1) ≤ slots := hslots
    have hslot : slot.toNat < slots := by
      split at hused <;> omega
    exact moves_pop.bind fun type htype => moves_store hslot (htype rfl)
  next =>
    split at h
    next taken given htrade =>
      split at h
      next hroom =>
        cases h
        exact run_trades hslots htrade hroom
      next => cases h
    next => cases h

/-- The frame behind an instruction. -/
theorem after_fits (cls : ClassName) (code : Array Instruction) (index : Nat)
    (hslots : Encode.slotsUsed instruction ≤ slots)
    (h : before.behind? narrow instruction = some behind) {frame : Frame}
    (hframe : frame.Fits slots narrow before) :
    FailsOnly Fault.Harmless (frame.after cls code index instruction) ∧
      ∀ frame', frame.after cls code index instruction = .ok frame' →
        frame'.Fits slots narrow behind := by
  have hmoves : Moves slots narrow before behind (run cls code index instruction) fun _ => True :=
    run_moves hslots h
  obtain ⟨hfails, hgives⟩ := hmoves frame hframe
  unfold after
  cases hrun : run cls code index instruction frame with
  | error error =>
      rw [hrun] at hfails
      exact ⟨failsOnly_error (hfails error rfl), nofun⟩
  | ok found =>
      refine ⟨failsOnly_ok _, fun frame' hfound => ?_⟩
      cases hfound
      exact (hgives found.1 found.2 hrun).2

end Steps

end Frame

end Downlevel
