import Downlevel.Proofs.Failing

/-!
# The parts of a class without labels

The annotations, fields, attributes and instructions of a class are written without looking at any
place in code, and an instruction changes a frame without looking at one either.  All faults of that
are ordinary.

* `Encode.ordinary_field`, `Encode.ordinary_methodAttributes`, `Encode.ordinary_classAttributes` —
  the declarations of a class and the attributes on them;
* `Encode.ordinary_items` — the instructions of code, but for the distances of jumps;
* `Frame.ordinary_after` — what an instruction does to a frame.
-/

namespace Downlevel

namespace Pool

/-- Writing an entry fails if its text is too long. -/
theorem Entry.ordinary_write (item : Entry) : FailsOnly Fault.Ordinary item.write := by
  unfold Entry.write
  cases item <;> grind [Fault.Ordinary]

/-- Writing a pool fails if one of its texts is too long. -/
theorem Builder.ordinary_write (pool : Builder) : FailsOnly Fault.Ordinary pool.write :=
  failsOnly_bind (failsOnly_mapM fun item _ => item.ordinary_write) fun _ => failsOnly_pure _

end Pool

namespace Encode

/-- An attribute is not there, or is written with ordinary faults at most. -/
def OrdinaryIfThere (work : Option (PoolM Bytes)) : Prop :=
  ∀ written ∈ work, FailsOnly Fault.Ordinary written

/-- All attributes of a list are written with ordinary faults at most. -/
def Attributes.Ordinary (attributes : Attributes) : Prop :=
  ∀ work ∈ attributes, OrdinaryIfThere work

namespace Attributes

@[simp] theorem ordinary_nil : Ordinary [] := by
  intro work hwork
  cases hwork

/-- An attribute in front of others. -/
@[simp] theorem ordinary_cons {work : Option (PoolM Bytes)} {attributes : Attributes} :
    Ordinary (work :: attributes) ↔ OrdinaryIfThere work ∧ attributes.Ordinary :=
  List.forall_mem_cons

/-- Attributes behind others. -/
@[simp] theorem ordinary_append {first second : Attributes} :
    Ordinary (first ++ second) ↔ first.Ordinary ∧ second.Ordinary :=
  List.forall_mem_append

end Attributes

/-- An attribute that is there if a condition holds. -/
theorem failsOnly_given {allowed : Fault → Prop} {condition : Bool} {work : PoolM Bytes}
    (h : FailsOnly allowed work) : ∀ written ∈ given condition work, FailsOnly allowed written := by
  unfold given
  intro written hwritten
  split at hwritten
  · cases hwritten
    exact h
  · cases hwritten

@[grind ←] theorem ordinary_given {condition : Bool} {work : PoolM Bytes}
    (h : FailsOnly Fault.Ordinary work) : OrdinaryIfThere (given condition work) :=
  failsOnly_given h

/-- An attribute that is there if a declaration has something. -/
@[grind ←] theorem ordinary_map {α : Type} {value : Option α} {work : α → PoolM Bytes}
    (h : ∀ value, FailsOnly Fault.Ordinary (work value)) : OrdinaryIfThere (value.map work) := by
  intro written hwritten
  obtain ⟨value, -, rfl⟩ := Option.map_eq_some_iff.mp hwritten
  exact h value

/-- Attributes that are kept as they are. -/
@[simp] theorem ordinary_kept (kept : List RawAttribute) :
    Attributes.Ordinary (kept.map fun kept => some (raw kept)) := by
  intro work hwork written hwritten
  obtain ⟨one, -, rfl⟩ := List.mem_map.mp hwork
  cases hwritten
  exact ordinary_raw one

@[grind ←] theorem ordinary_present {attributes : Attributes} (h : attributes.Ordinary) :
    FailsOnly Fault.Ordinary (present attributes) :=
  failsOnly_present h

/-! ## Annotations -/

@[grind ←] theorem ordinary_taggedIndex {tag : UInt8} {work : PoolM UInt16}
    (h : FailsOnly Fault.Ordinary work) : FailsOnly Fault.Ordinary (taggedIndex tag work) := by
  unfold taggedIndex
  grind

mutual

/-- Writing a value of an annotation. -/
theorem ordinary_elementValue :
    ∀ value : ElementValue, FailsOnly Fault.Ordinary (elementValue value)
  | .byte _ | .char _ | .double _ | .float _ | .int _ | .long _ | .short _ | .boolean _
  | .string _ | .constant _ _ | .cls _ => by grind [elementValue]
  | .nested _ values => by
      have hvalues := ordinary_namedValues values
      grind [elementValue, Fault.Ordinary]
  | .array values => by
      have hvalues := ordinary_elementValues values
      grind [elementValue, Fault.Ordinary]

/-- Writing values of an annotation one after the other. -/
theorem ordinary_elementValues :
    ∀ values : List ElementValue, FailsOnly Fault.Ordinary (elementValues values)
  | [] => by grind [elementValues]
  | value :: rest => by
      have hvalue := ordinary_elementValue value
      have hrest := ordinary_elementValues rest
      grind [elementValues]

/-- Writing named values of an annotation one after the other. -/
theorem ordinary_namedValues :
    ∀ values : List (String × ElementValue), FailsOnly Fault.Ordinary (namedValues values)
  | [] => by grind [namedValues]
  | (_, value) :: rest => by
      have hvalue := ordinary_elementValue value
      have hrest := ordinary_namedValues rest
      grind [namedValues]

end

attribute [grind ←] ordinary_elementValue ordinary_namedValues

@[grind ←] theorem ordinary_annot (a : Annot) : FailsOnly Fault.Ordinary (annot a) := by
  unfold annot
  grind [Fault.Ordinary]

@[grind ←] theorem ordinary_annots (items : List Annot) :
    FailsOnly Fault.Ordinary (annots items) := by
  unfold annots
  grind

@[grind ←] theorem ordinary_parameterAnnots (items : List (List Annot)) :
    FailsOnly Fault.Ordinary (parameterAnnots items) := by
  unfold parameterAnnots
  grind [Fault.Ordinary]

@[grind ←] theorem ordinary_typeAnnots (items : List TypeAnnot) :
    FailsOnly Fault.Ordinary (typeAnnots items) := by
  unfold typeAnnots
  grind [Fault.Ordinary]

@[simp] theorem ordinary_annotAttributes (a : Annots) : (annotAttributes a).Ordinary := by
  simp only [annotAttributes, Attributes.ordinary_cons, Attributes.ordinary_nil, and_true]
  and_intros <;> grind

/-! ## Declarations -/

@[simp] theorem ordinary_markers (isDeprecated isSynthetic : Bool) :
    (markers isDeprecated isSynthetic).Ordinary := by
  simp only [markers, Attributes.ordinary_cons, Attributes.ordinary_nil, and_true]
  and_intros <;> grind

@[grind ←] theorem ordinary_signature (text : Option Signature) :
    OrdinaryIfThere (signature text) := by
  unfold signature
  grind

@[grind ←] theorem ordinary_field (f : Field) : FailsOnly Fault.Ordinary (field f) := by
  unfold field
  refine failsOnly_bind (by grind) fun name => failsOnly_bind (by grind) fun descriptor => ?_
  refine failsOnly_bind (ordinary_present ?_) fun attributes => by grind
  simp
  grind

@[grind ←] theorem ordinary_recordComponent (component : RecordComponent) :
    FailsOnly Fault.Ordinary (recordComponent component) := by
  unfold recordComponent
  refine failsOnly_bind (by grind) fun name => failsOnly_bind (by grind) fun descriptor => ?_
  refine failsOnly_bind (ordinary_present ?_) fun attributes => by grind
  simp
  grind

@[grind ←] theorem ordinary_methodAttributes (m : Method) : (methodAttributes m).Ordinary := by
  simp only [methodAttributes, Attributes.ordinary_append, Attributes.ordinary_cons,
    Attributes.ordinary_nil, ordinary_annotAttributes, ordinary_kept, and_true]
  have hparameters (parameter : Parameter) : FailsOnly Fault.Ordinary (do
      let name ← PoolM.optional parameter.name PoolM.utf8
      return Bytes.ofU16 name ++ Bytes.ofU16 parameter.flags.toBits : PoolM Bytes) := by
    grind
  and_intros <;> grind [Fault.Ordinary]

@[grind ←] theorem ordinary_moduleInfo (info : ModuleInfo) :
    FailsOnly Fault.Ordinary (moduleInfo info) := by
  unfold moduleInfo
  refine failsOnly_bind (by grind) fun name => failsOnly_bind (by grind) fun version => ?_
  refine failsOnly_bind (by grind) fun requirements => failsOnly_bind (by grind) fun exported => ?_
  refine failsOnly_bind (by grind) fun opened => failsOnly_bind (by grind) fun used => ?_
  exact failsOnly_bind (ordinary_listOf fun provided => by grind) fun provided => by grind

@[grind ←] theorem ordinary_innerClass (item : InnerClass) :
    FailsOnly Fault.Ordinary (innerClass item) := by
  unfold innerClass
  grind

@[grind ←] theorem ordinary_classAttributes (cls : ClassFile) : (classAttributes cls).Ordinary := by
  simp only [classAttributes, Attributes.ordinary_append, Attributes.ordinary_cons,
    Attributes.ordinary_nil, ordinary_markers, ordinary_annotAttributes, ordinary_kept, and_true,
    true_and]
  and_intros <;> grind [Fault.Ordinary]

@[grind ←] theorem ordinary_bootstrapMethod (bootstrap : Pool.PlacedBootstrap) :
    FailsOnly Fault.Ordinary (bootstrapMethod bootstrap) := by
  unfold bootstrapMethod
  grind

@[grind ←] theorem ordinary_bootstrapAttribute :
    FailsOnly Fault.Ordinary bootstrapAttribute := by
  unfold bootstrapAttribute
  grind

/-! ## Instructions -/

@[grind ←] theorem ordinary_withIndex {opcode : UInt8} {work : PoolM UInt16}
    (h : FailsOnly Fault.Ordinary work) : FailsOnly Fault.Ordinary (withIndex opcode work) := by
  unfold withIndex
  grind

@[grind ←] theorem ordinary_item (instruction : Instruction) :
    FailsOnly Fault.Ordinary (item instruction) := by
  unfold item
  cases instruction <;> grind [Fault.Ordinary]

/-- Writing instructions, but for the distances of jumps. -/
theorem ordinary_itemsFrom (placement : Layout.Placement) (done : List (Option Label × CodeItem))
    (instructions : List Labelled) :
    FailsOnly Fault.Ordinary (itemsFrom placement done instructions) := by
  induction instructions generalizing placement done with
  | nil => exact failsOnly_pure _
  | cons entry rest ih =>
      unfold itemsFrom Layout.Placement.check
      grind [Fault.Ordinary]

end Encode

/-! ## Frames -/

@[grind ←] theorem VType.ordinary_ofDescriptor (descriptor : FieldDescriptor) :
    FailsOnly Fault.Ordinary (VType.ofDescriptor descriptor) := by
  unfold VType.ofDescriptor
  grind

namespace Frame

open StepM

/-- An outcome in a step. -/
@[grind ←] theorem ordinary_lift {α : Type} {outcome : Except Error α}
    (h : FailsOnly Fault.Ordinary outcome) :
    FailsOnly Fault.Ordinary (monadLift outcome : StepM α) :=
  failsOnly_lift_work h

/-- Work on a frame that is given by its outcome for each frame. -/
theorem ordinary_step {α : Type} {work : StepM α}
    (h : ∀ frame, FailsOnly Fault.Ordinary (work frame)) : FailsOnly Fault.Ordinary work := by
  rintro error ⟨frame, hrun⟩
  exact h frame error hrun

@[grind ←] theorem ordinary_pop : FailsOnly Fault.Ordinary pop := by
  refine ordinary_step fun frame => ?_
  unfold pop
  grind [Fault.Ordinary]

@[grind ←] theorem ordinary_popMany (n : Nat) : FailsOnly Fault.Ordinary (popMany n) := by
  induction n with
  | zero => exact failsOnly_pure _
  | succ n ih => exact failsOnly_bind ordinary_pop fun _ => ih

theorem ordinary_splitSlots (slots size : Nat) (taken stack : List VType) :
    FailsOnly Fault.Ordinary (splitSlots slots size taken stack) := by
  induction stack generalizing size taken with
  | nil =>
      unfold splitSlots
      grind [Fault.Ordinary]
  | cons type rest ih =>
      unfold splitSlots
      grind [Fault.Ordinary]

@[grind ←] theorem ordinary_popSlots (slots : Nat) : FailsOnly Fault.Ordinary (popSlots slots) :=
  ordinary_step fun frame =>
    failsOnly_bind (ordinary_splitSlots slots 0 [] frame.stack) fun _ => failsOnly_pure _

@[grind ←] theorem ordinary_push (type : VType) : FailsOnly Fault.Ordinary (push type) :=
  ordinary_step fun _ => failsOnly_ok _

@[grind ←] theorem ordinary_pushAll (types : List VType) :
    FailsOnly Fault.Ordinary (pushAll types) :=
  ordinary_step fun _ => failsOnly_ok _

@[grind ←] theorem ordinary_replace (old new : VType) :
    FailsOnly Fault.Ordinary (replace old new) :=
  ordinary_step fun _ => failsOnly_ok _

@[grind ←] theorem ordinary_load (slot : UInt16) : FailsOnly Fault.Ordinary (load slot) := by
  refine ordinary_step fun frame => ?_
  unfold load
  grind [Fault.Ordinary]

@[grind ←] theorem ordinary_store (slot : UInt16) (type : VType) :
    FailsOnly Fault.Ordinary (store slot type) := by
  refine ordinary_step fun frame => ?_
  unfold store
  grind [Fault.Ordinary]

@[grind ←] theorem ordinary_elementType (array : VType) :
    FailsOnly Fault.Ordinary (elementType array) := by
  unfold elementType
  grind [Fault.Ordinary]

@[grind ←] theorem ordinary_runEffect (effect : StackEffect) :
    FailsOnly Fault.Ordinary (runEffect effect) := by
  unfold runEffect
  cases effect <;> grind

@[grind ←] theorem ordinary_loadedType (value : Loadable) :
    FailsOnly Fault.Ordinary (loadedType value) := by
  unfold loadedType
  cases value <;> grind

@[grind ←] theorem ordinary_createdClass (code : Array Instruction) (index : Nat) :
    FailsOnly Fault.Ordinary (createdClass code index) := by
  unfold createdClass
  grind [Fault.Ordinary]

@[grind ←] theorem ordinary_pushResult (type : MethodType) :
    FailsOnly Fault.Ordinary (pushResult type) := by
  unfold pushResult
  grind

@[grind ←] theorem ordinary_runCall (target : MethodRef) :
    FailsOnly Fault.Ordinary (runCall target) := by
  unfold runCall
  grind

@[grind ←] theorem ordinary_runSpecialCall (cls : ClassName) (code : Array Instruction)
    (target : MethodRef) : FailsOnly Fault.Ordinary (runSpecialCall cls code target) := by
  unfold runSpecialCall
  grind

/-- What an instruction does to a frame fails with ordinary faults only. -/
theorem ordinary_run (cls : ClassName) (code : Array Instruction) (index : Nat)
    (instruction : Instruction) :
    FailsOnly Fault.Ordinary (run cls code index instruction) := by
  unfold run
  cases instruction <;> grind

/-- There is no frame after an instruction for ordinary reasons only. -/
theorem ordinary_after (cls : ClassName) (code : Array Instruction) (index : Nat)
    (instruction : Instruction) (frame : Frame) :
    FailsOnly Fault.Ordinary (frame.after cls code index instruction) := by
  intro error herror
  refine ordinary_run cls code index instruction error ⟨frame, ?_⟩
  unfold after at herror
  cases hrun : run cls code index instruction frame with
  | ok result =>
      rw [hrun] at herror
      cases herror
  | error other =>
      rw [hrun] at herror
      cases herror
      rfl

/-- There is no first frame if the parameters do not fit. -/
theorem ordinary_initial (cls : ClassName) (isStatic : Bool) (name : MethodName)
    (type : MethodType) (maxLocals : UInt16) :
    FailsOnly Fault.Ordinary (initial cls isStatic name type maxLocals) := by
  unfold initial
  grind [Fault.Ordinary]

end Frame

end Downlevel
