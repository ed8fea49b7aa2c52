import Downlevel.Proofs.Frames
import Downlevel.Proofs.Keeping

/-!
# What all frames of a method have

The types in the frames of a method come from the method itself: from its descriptor, the exceptions
that it catches, and what its instructions say of the values that they give.  Other types arise from
those where frames are merged, and where arrays are taken apart.  So a property of types that holds of
the first, and that merging and taking apart keep, holds of all types in frames.

In all frames there are as many slots of local variables as the method has, and the slot behind each
long and double is unusable.  Storing a value makes that so, and so does merging, where a long or
double stays only if both frames have it.

* `Frame.Paired`, `Frame.Formed` — slots that go together, and frames that are well formed;
* `Instruction.Brings`, `Subject.Supplies` — the types that come from an instruction, and those that
  come from a method;
* `Frame.run_stays` — what an instruction does to a well-formed frame;
* `Frame.merge_formed` — what comes of merging two of them;
* `Frame.analyze_formed` — what an analysis finds.
-/

namespace Downlevel

/-- The descriptor of what an instruction calls. -/
def Instruction.callDescriptor? : Instruction → Option MethodDescriptor
  | .invokevirtual target => some target.descriptor
  | .invokeinterface target => some target.descriptor
  | .invokespecial target _ => some target.descriptor
  | .invokestatic target _ => some target.descriptor
  | .invokedynamic site => some site.descriptor
  | _ => none

/-- The types that an instruction gives to values because it says so. -/
inductive Instruction.Brings : Instruction → VType → Prop where
  | ldc {value : Loadable} {type : VType} (h : Frame.loadedType value = .ok type) :
      Brings (.ldc value) type
  | field (use : FieldUse) {target : FieldRef} {type : VType}
      (h : VType.ofDescriptor target.descriptor = .ok type) : Brings (.field use target) type
  | result {instruction : Instruction} {descriptor : MethodDescriptor} {type : MethodType}
      {result : JavaType} (hcall : instruction.callDescriptor? = some descriptor)
      (h : MethodType.parse descriptor = .ok type) (hresult : type.result = some result) :
      Brings instruction (.ofType result)
  | new (name : ClassName) : Brings (.new name) (.object name)
  | anewarray (name : ClassName) : Brings (.anewarray name) (.object (ClassName.arrayOf name))
  | checkcast (name : ClassName) : Brings (.checkcast name) (.object name)
  | multianewarray (name : ClassName) (dimensions : UInt8) :
      Brings (.multianewarray name dimensions) (.object name)

/-- Types that stand for themselves, whatever the method: those that are no class, and not of an
object whose constructor was not called yet. -/
def VType.IsPlain (type : VType) : Prop :=
  (∀ name, type ≠ .object name) ∧ ∀ index, type ≠ .uninitialized index

/-- A property of types that does not depend on a method: plain types have it, arrays of primitive
values, and the elements of arrays that have it. -/
structure VType.Natural (T : VType → Prop) : Prop where
  plain : ∀ type : VType, type.IsPlain → T type
  primitives : ∀ element : Primitive, T (.object element.arrayClass)
  element : ∀ {array element : VType}, T array → Frame.elementType array = .ok element → T element

namespace Frame

open Downlevel.Task

/-- Behind each type of two slots there is an unusable one. -/
def Paired : List VType → Prop
  | [] => True
  | type :: rest => (type.isWide → rest.head? = some .top) ∧ Paired rest

/-- A frame is well formed: there are as many slots as the method has, they go together, and all
types have a property. -/
structure Formed (T : VType → Prop) (size : Nat) (frame : Frame) : Prop where
  length : frame.locals.length = size
  paired : Paired frame.locals
  locals : ∀ type ∈ frame.locals, T type
  stack : ∀ type ∈ frame.stack, T type

section Slots

/-- Nothing need stand behind a type of one slot. -/
theorem paired_cons {type : VType} (hnarrow : type.isWide = false) {rest : List VType}
    (h : Paired rest) : Paired (type :: rest) := by
  refine ⟨fun hwide => ?_, h⟩
  cases hnarrow.symm.trans hwide

/-- The slots of several values go together. -/
theorem Paired.append {front back : List VType} (hfront : Paired front) (hback : Paired back) :
    Paired (front ++ back) := by
  induction front with
  | nil => exact hback
  | cons type rest ih =>
      refine ⟨fun hwide => ?_, ih hfront.2⟩
      show (rest ++ back).head? = some .top
      rw [List.head?_append, hfront.1 hwide, Option.some_or]

/-- The slots of one value go together. -/
theorem paired_slots (type : VType) : Paired type.slots := by
  unfold VType.slots
  split
  next => exact ⟨fun _ => rfl, paired_cons rfl trivial⟩
  next hnarrow => exact paired_cons (Bool.not_eq_true _ ▸ hnarrow) trivial

/-- A value takes the slots of its type, or unusable ones. -/
theorem mem_slots {type slot : VType} (h : slot ∈ type.slots) : slot = type ∨ slot = .top := by
  unfold VType.slots at h
  split at h
  next => simpa using h
  next => exact .inl (List.mem_singleton.mp h)

/-- Slots that are all unusable go together. -/
theorem paired_tops (n : Nat) : Paired (List.replicate n .top) := by
  induction n with
  | zero => trivial
  | succ n ih => exact paired_cons rfl ih

/-- Storing a value of one type keeps the slots together. -/
theorem Paired.storeIn {locals : List VType} (h : Paired locals) (type : VType) (slot : Nat) :
    Paired (StepM.storeIn type slot locals) := by
  fun_induction StepM.storeIn type slot locals with
  | case1 first rest =>
      cases hwide : type.isWide with
      | true =>
          have hdrop : Paired (rest.drop 1) := by
            cases rest with
            | nil => trivial
            | cons second rest => exact h.2.2
          exact ⟨fun _ => rfl, paired_cons rfl hdrop⟩
      | false => exact paired_cons hwide h.2
  | case2 below rest ih =>
      refine ⟨fun hflag => ?_, ih h.2⟩
      -- A long or double below the slot loses its upper half, so nothing of it is left.
      split at hflag
      next => cases hflag
      next hnarrow => exact absurd hflag hnarrow
  | case3 n below rest hpositive ih =>
      refine ⟨fun hwide => ?_, ih h.2⟩
      have hnext := h.1 hwide
      cases rest with
      | nil => cases hnext
      | cons second rest =>
          cases hnext
          cases n with
          | zero => exact (hpositive rfl).elim
          | succ n => cases n <;> rfl
  | case4 => trivial

/-- Storing a value that has room keeps the number of slots. -/
theorem length_storeIn {type : VType} {slot : Nat} {locals : List VType}
    (h : slot + type.size ≤ locals.length) : (StepM.storeIn type slot locals).length = locals.length := by
  fun_induction StepM.storeIn type slot locals with
  | case1 first rest =>
      cases hwide : type.isWide with
      | true =>
          have hsize : type.size = 2 := if_pos hwide
          simp only [List.length_cons, if_true, List.length_drop] at h ⊢
          omega
      | false => rfl
  | case2 below rest ih =>
      rw [List.length_cons] at h
      have hroom : type.size ≤ rest.length := by omega
      rw [List.length_cons, List.length_cons, ih (by rwa [Nat.zero_add])]
  | case3 n below rest hpositive ih =>
      rw [List.length_cons, List.length_cons, ih]
      rw [List.length_cons] at h
      omega
  | case4 => rfl

/-- Putting a type of one slot in place of another one that is not the unusable one keeps slots
together. -/
theorem Paired.map {locals : List VType} (h : Paired locals) {change : VType → VType}
    (htop : change .top = .top) (hwide : ∀ type, (change type).isWide → type.isWide) :
    Paired (locals.map change) := by
  induction locals with
  | nil => trivial
  | cons type rest ih =>
      refine ⟨fun hflag => ?_, ih h.2⟩
      show (rest.map change).head? = some .top
      rw [List.head?_map, h.1 (hwide type hflag), Option.map_some, htop]

/-- Behind a value that is stored, a local variable has its type, no usable one, or the one that it
had. -/
theorem mem_of_storeIn {type other : VType} {slot : Nat} {locals : List VType}
    (h : other ∈ StepM.storeIn type slot locals) : other = type ∨ other = .top ∨ other ∈ locals := by
  fun_induction StepM.storeIn type slot locals with
  | case1 first rest =>
      have hdrop : ∀ type ∈ rest.drop 1, type ∈ rest := fun _ hin => List.mem_of_mem_drop hin
      grind
  | case2 below rest ih => grind
  | case3 n below rest _ ih => grind
  | case4 => cases h

end Slots

/-! ## Instructions -/

namespace StepM

variable {T : VType → Prop} {size : Nat} {α β : Type}

/-- Work on a well-formed frame only leaves such a frame behind, and its value has the property
`Q`. -/
def Stays (T : VType → Prop) (size : Nat) (work : StepM α) (Q : α → Prop) : Prop :=
  ∀ frame value frame', frame.Formed T size → work frame = .ok (value, frame') →
    Q value ∧ frame'.Formed T size

/-- A value leaves the frame alone. -/
theorem stays_pure {value : α} {Q : α → Prop} (h : Q value) :
    Stays T size (pure value : StepM α) Q := by
  intro frame found frame' hframe hrun
  obtain ⟨rfl, rfl⟩ := work_pure_eq_ok.mp hrun
  exact ⟨h, hframe⟩

/-- What only has an outcome leaves the frame alone. -/
theorem stays_lift {outcome : Except Error α} {Q : α → Prop}
    (h : ∀ value, outcome = .ok value → Q value) : Stays T size (liftM outcome : StepM α) Q := by
  intro frame value frame' hframe hrun
  obtain ⟨hvalue, rfl⟩ := work_lift_eq_ok.mp hrun
  exact ⟨h value hvalue, hframe⟩

/-- Work in sequence leaves such frames behind if both parts do. -/
theorem Stays.bind {work : StepM α} {next : α → StepM β} {Q : α → Prop} {R : β → Prop}
    (h : Stays T size work Q) (hnext : ∀ value, Q value → Stays T size (next value) R) :
    Stays T size (work >>= next) R := by
  intro frame value frame' hframe hrun
  obtain ⟨first, between, hfirst, hrest⟩ := work_bind_eq_ok.mp hrun
  obtain ⟨hQ, hbetween⟩ := h frame first between hframe hfirst
  exact hnext first hQ between value frame' hbetween hrest

/-- A value that is taken from the stack was there. -/
theorem stays_pop : Stays T size pop T := by
  intro frame value frame' hframe hrun
  unfold pop at hrun
  split at hrun
  next type rest hstack =>
    cases hrun
    have hall := hframe.stack
    rw [hstack] at hall
    exact ⟨hall _ List.mem_cons_self, hframe.length, hframe.paired, hframe.locals,
      fun other hmem => hall other (List.mem_cons_of_mem _ hmem)⟩
  next => cases hrun

/-- So were several. -/
theorem stays_popMany (n : Nat) : Stays T size (popMany n) fun _ => True := by
  induction n with
  | zero => exact stays_pure trivial
  | succ n ih => exact stays_pop.bind fun _ _ => ih

/-- What is split off a list, and what is left of it, was in it, or had been taken before. -/
theorem mem_of_splitSlots {slots size : Nat} {taken stack front rest : List VType}
    (h : splitSlots slots size taken stack = .ok (front, rest)) :
    (∀ type ∈ front, type ∈ taken ∨ type ∈ stack) ∧ ∀ type ∈ rest, type ∈ stack := by
  fun_induction splitSlots slots size taken stack with
  | case1 => cases h
  | case2 size taken _ type rest' ih =>
      obtain ⟨hfront, hrest⟩ := ih h
      constructor
      · intro other hother
        rcases hfront other hother with hin | hin
        · rcases List.mem_cons.mp hin with rfl | hold
          · exact .inr List.mem_cons_self
          · exact .inl hold
        · exact .inr (List.mem_cons_of_mem _ hin)
      · intro other hother
        exact List.mem_cons_of_mem _ (hrest other hother)
  | case3 =>
      cases h
      exact ⟨fun type hmem => .inl (List.mem_reverse.mp hmem), fun type hmem => hmem⟩
  | case4 => cases h

/-- So were values that take a number of slots. -/
theorem stays_popSlots (slots : Nat) :
    Stays T size (popSlots slots) fun types => ∀ type ∈ types, T type := by
  intro frame value frame' hframe hrun
  obtain ⟨⟨taken, rest⟩, hsplit, hrest⟩ := bind_eq_ok.mp hrun
  cases hrest
  obtain ⟨hfront, hback⟩ := mem_of_splitSlots hsplit
  refine ⟨fun type hmem => ?_, hframe.length, hframe.paired, hframe.locals,
    fun type hmem => hframe.stack type (hback type hmem)⟩
  rcases hfront type hmem with hin | hin
  · cases hin
  · exact hframe.stack type hin

/-- Putting a value on the stack. -/
theorem stays_push {type : VType} (h : T type) : Stays T size (push type) fun _ => True := by
  intro frame value frame' hframe hrun
  cases hrun
  exact ⟨trivial, hframe.length, hframe.paired, hframe.locals,
    List.forall_mem_cons.mpr ⟨h, hframe.stack⟩⟩

/-- Putting several values on the stack. -/
theorem stays_pushAll {types : List VType} (h : ∀ type ∈ types, T type) :
    Stays T size (pushAll types) fun _ => True := by
  intro frame value frame' hframe hrun
  cases hrun
  exact ⟨trivial, hframe.length, hframe.paired, hframe.locals,
    List.forall_mem_append.mpr ⟨h, hframe.stack⟩⟩

/-- A local variable has one of the types of local variables. -/
theorem stays_load (slot : UInt16) : Stays T size (load slot) T := by
  intro frame value frame' hframe hrun
  unfold load at hrun
  split at hrun
  next type hfound =>
    cases hrun
    exact ⟨hframe.locals _ (List.mem_of_getElem? hfound), hframe⟩
  next => cases hrun

/-- Storing a value in a local variable. -/
theorem stays_store (htop : T .top) (slot : UInt16) {type : VType} (h : T type) :
    Stays T size (store slot type) fun _ => True := by
  intro frame value frame' hframe hrun
  unfold store at hrun
  split at hrun
  next => cases hrun
  next hroom =>
    cases hrun
    refine ⟨trivial, ?_, hframe.paired.storeIn type _, fun other hmem => ?_, hframe.stack⟩
    · rw [← hframe.length]
      exact length_storeIn (Nat.not_lt.mp hroom)
    · rcases mem_of_storeIn hmem with rfl | rfl | hin
      · exact h
      · exact htop
      · exact hframe.locals other hin

/-- Making an object usable. -/
theorem stays_replace {old : VType} (hold : old ≠ .top) {name : ClassName} (h : T (.object name)) :
    Stays T size (replace old (.object name)) fun _ => True := by
  intro frame value frame' hframe hrun
  cases hrun
  have hchange : ∀ type : VType, T type → T (if type = old then .object name else type) := by
    intro type htype
    split
    · exact h
    · exact htype
  refine ⟨trivial, ?_, hframe.paired.map (if_neg (Ne.symm hold)) fun type hwide => ?_,
    fun type hmem => ?_, fun type hmem => ?_⟩
  · rw [← hframe.length]
    exact List.length_map _
  · split at hwide
    next => cases hwide
    next => exact hwide
  · obtain ⟨before, hbefore, rfl⟩ := List.mem_map.mp hmem
    exact hchange before (hframe.locals before hbefore)
  · obtain ⟨before, hbefore, rfl⟩ := List.mem_map.mp hmem
    exact hchange before (hframe.stack before hbefore)

end StepM

open StepM

section Steps

variable {T : VType → Prop} {size : Nat} {cls : ClassName} {code : Array Instruction} {index : Nat}
  (hnatural : VType.Natural T)

include hnatural in
/-- An instruction without operands keeps frames well formed. -/
theorem runEffect_stays (effect : StackEffect)
    (hgiven : ∀ taken type, effect = .exchange taken (some type) → T type) :
    Stays T size (runEffect effect) fun _ => True := by
  cases effect with
  | exchange taken given =>
      refine (stays_popMany taken).bind fun _ _ => ?_
      cases given with
      | none => exact stays_pure trivial
      | some type => exact stays_push (hgiven taken type rfl)
  | element =>
      refine stays_pop.bind fun _ _ => stays_pop.bind fun array harray => ?_
      refine (stays_lift fun element helement => ?_).bind fun element helement =>
        stays_push helement
      exact hnatural.element harray helement
  | discard slots => exact (stays_popSlots slots).bind fun _ _ => stays_pure trivial
  | duplicate slots under =>
      refine (stays_popSlots slots).bind fun taken htaken =>
        (stays_popSlots under).bind fun below hbelow => stays_pushAll ?_
      exact List.forall_mem_append.mpr ⟨List.forall_mem_append.mpr ⟨htaken, hbelow⟩, htaken⟩
  | swap =>
      refine (stays_popSlots 1).bind fun first hfirst =>
        (stays_popSlots 1).bind fun second hsecond => stays_pushAll ?_
      exact List.forall_mem_append.mpr ⟨hsecond, hfirst⟩

/-- What an instruction without operands gives is plain. -/
theorem effect_given {op : Op} {taken : Nat} {type : VType}
    (h : op.effect = .exchange taken (some type)) : type.IsPlain := by
  constructor <;> intro _ heq <;> subst heq <;> cases op <;> cases h

/-- The result of a call is what its descriptor says. -/
theorem pushResult_stays {type : MethodType}
    (h : ∀ result, type.result = some result → T (.ofType result)) :
    Stays T size (pushResult type) fun _ => True := by
  unfold pushResult
  split
  next result hresult => exact stays_push (h result hresult)
  next => exact stays_pure trivial

/-- A call with a receiver gives what its descriptor says. -/
theorem runCall_stays {target : MethodRef}
    (h : ∀ type result, MethodType.parse target.descriptor = .ok type →
      type.result = some result → T (.ofType result)) :
    Stays T size (runCall target) fun _ => True := by
  refine (stays_lift fun type htype => htype).bind fun type htype => ?_
  refine (stays_popMany _).bind fun _ _ => stays_pop.bind fun _ _ => ?_
  exact pushResult_stays fun result hresult => h type result htype hresult

/-- A special call makes an object of its class, or of one that an instruction creates, usable. -/
theorem runSpecialCall_stays {target : MethodRef} (hcls : T (.object cls))
    (hcreated : ∀ name, Instruction.new name ∈ code → T (.object name))
    (h : ∀ type result, MethodType.parse target.descriptor = .ok type →
      type.result = some result → T (.ofType result)) :
    Stays T size (runSpecialCall cls code target) fun _ => True := by
  refine (stays_lift fun type htype => htype).bind fun type htype => ?_
  refine (stays_popMany _).bind fun _ _ => stays_pop.bind fun receiver _ => ?_
  have hresult : Stays T size (pushResult type) fun _ => True :=
    pushResult_stays fun result hresult => h type result htype hresult
  split
  next =>
    split
    next => exact (stays_replace (by simp) hcls).bind fun _ _ => hresult
    next created =>
      refine (stays_lift fun name hname => ?_).bind fun name hname =>
        (stays_replace (by simp) hname).bind fun _ _ => hresult
      unfold createdClass at hname
      split at hname
      next found hfound =>
        cases hname
        exact hcreated name (Array.mem_of_getElem? hfound)
      next => cases hname
    next => exact hresult
  next => exact hresult

/-- Values are taken from the stack, and one whose type is known is put there. -/
theorem popMany_push_stays (taken : Nat) {type : VType} (h : T type) :
    Stays T size (do popMany taken; push type) fun _ => True :=
  (stays_popMany taken).bind fun _ _ => stays_push h

/-- A static call gives what its descriptor says. -/
theorem parse_popMany_stays {descriptor : MethodDescriptor}
    (h : ∀ type result, MethodType.parse descriptor = .ok type → type.result = some result →
      T (.ofType result)) :
    Stays T size (do
      let type ← (MethodType.parse descriptor : Except Error MethodType)
      popMany type.parameters.length
      pushResult type) fun _ => True := by
  refine (stays_lift fun type htype => htype).bind fun type htype => ?_
  refine (stays_popMany _).bind fun _ _ => ?_
  exact pushResult_stays fun result hresult => h type result htype hresult

include hnatural in
/-- **An instruction keeps frames well formed**, if the types that come from the instructions and the
class around it have the property, and that of an object that it creates itself. -/
theorem run_stays (hcls : T (.object cls))
    (hcode : ∀ instruction ∈ code, ∀ type, instruction.Brings type → T type)
    {instruction : Instruction} (hhere : code[index]? = some instruction)
    (hcreates : ∀ name, instruction = .new name → T (.uninitialized index)) :
    Stays T size (run cls code index instruction) fun _ => True := by
  have hbrings := hcode instruction (Array.mem_of_getElem? hhere)
  have hresult : ∀ descriptor, instruction.callDescriptor? = some descriptor →
      ∀ type result, MethodType.parse descriptor = .ok type → type.result = some result →
        T (.ofType result) :=
    fun descriptor hcall type result htype hgiven => hbrings _ (.result hcall htype hgiven)
  have hplain : ∀ type : VType, type.IsPlain → Stays T size (push type) fun _ => True :=
    fun type h => stays_push (hnatural.plain type h)
  cases instruction with
  | op op =>
      exact runEffect_stays hnatural op.effect fun taken type h =>
        hnatural.plain type (effect_given h)
  | bipush value => exact hplain _ (by simp [VType.IsPlain])
  | sipush value => exact hplain _ (by simp [VType.IsPlain])
  | ldc value =>
      exact (stays_lift fun type htype => hbrings type (.ldc htype)).bind fun type htype =>
        stays_push htype
  | load kind slot =>
      cases kind with
      | reference => exact (stays_load slot).bind fun type htype => stays_push htype
      | _ => exact hplain _ (by simp [VType.IsPlain])
  | store kind slot =>
      exact stays_pop.bind fun type htype =>
        stays_store (hnatural.plain _ (by simp [VType.IsPlain])) slot htype
  | iinc slot delta => exact stays_pure trivial
  | branch condition target => exact stays_popMany _
  | goto target => exact stays_pure trivial
  | jsr target => exact hplain _ (by simp [VType.IsPlain])
  | ret slot => exact stays_pure trivial
  | tableswitch fallback low high targets => exact stays_popMany 1
  | lookupswitch fallback cases => exact stays_popMany 1
  | field use target =>
      have hfield : ∀ type, VType.ofDescriptor target.descriptor = .ok type → T type :=
        fun type htype => hbrings type (.field use htype)
      cases use with
      | getStatic => exact (stays_lift hfield).bind fun type htype => stays_push htype
      | putStatic => exact stays_popMany 1
      | getField =>
          exact (stays_popMany 1).bind fun _ _ => (stays_lift hfield).bind fun type htype =>
            stays_push htype
      | putField => exact stays_popMany 2
  | invokevirtual target => exact runCall_stays (hresult _ rfl)
  | invokeinterface target => exact runCall_stays (hresult _ rfl)
  | invokespecial target onInterface =>
      exact runSpecialCall_stays hcls (fun name hnew => hcode _ hnew _ (.new name)) (hresult _ rfl)
  | invokestatic target onInterface => exact parse_popMany_stays (hresult _ rfl)
  | invokedynamic site => exact parse_popMany_stays (hresult _ rfl)
  | new name => exact stays_push (hcreates name rfl)
  | newarray element => exact popMany_push_stays 1 (hnatural.primitives element)
  | anewarray name => exact popMany_push_stays 1 (hbrings _ (.anewarray name))
  | checkcast name => exact popMany_push_stays 1 (hbrings _ (.checkcast name))
  | instanceof name =>
      exact popMany_push_stays 1 (hnatural.plain _ (by simp [VType.IsPlain]))
  | multianewarray name dimensions =>
      exact popMany_push_stays _ (hbrings _ (.multianewarray name dimensions))

include hnatural in
/-- The frame behind an instruction. -/
theorem after_formed (hcls : T (.object cls))
    (hcode : ∀ instruction ∈ code, ∀ type, instruction.Brings type → T type)
    {instruction : Instruction} (hhere : code[index]? = some instruction)
    (hcreates : ∀ name, instruction = .new name → T (.uninitialized index)) {frame behind : Frame}
    (hframe : frame.Formed T size) (h : frame.after cls code index instruction = .ok behind) :
    behind.Formed T size := by
  unfold after at h
  cases hrun : run cls code index instruction frame with
  | error error =>
      rw [hrun] at h
      cases h
  | ok found =>
      rw [hrun] at h
      cases h
      exact (run_stays hnatural hcls hcode hhere hcreates frame () found.2 hframe hrun).2

end Steps

/-! ## Merging -/

/-- What covers two types is the first of them, a class, or unusable.  It takes two slots only if it is
both of them, and it is unusable if both are. -/
structure Joined (a b type : VType) : Prop where
  kind : type = a ∨ type = .top ∨ ∃ name, type = .object name
  wide : type.isWide → a = type ∧ b = type
  top : a = .top → b = .top → type = .top

/-- Types with a property that cover the types of two lists one by one. -/
inductive Merged (T : VType → Prop) : List VType → List VType → List VType → Prop where
  | nil : Merged T [] [] []
  | cons {a b type : VType} {as bs types : List VType} (first : T type) (joined : Joined a b type)
      (rest : Merged T as bs types) : Merged T (a :: as) (b :: bs) (type :: types)

section Merging

variable {T : VType → Prop} {as bs types : List VType}

/-- There are as many types as there were. -/
theorem Merged.length (h : Merged T as bs types) : types.length = as.length := by
  induction h with
  | nil => rfl
  | cons _ _ _ ih => rw [List.length_cons, List.length_cons, ih]

/-- All of them have the property. -/
theorem Merged.all (h : Merged T as bs types) : ∀ type ∈ types, T type := by
  induction h with
  | nil => intro type hmem; cases hmem
  | cons first _ _ ih => exact List.forall_mem_cons.mpr ⟨first, ih⟩

/-- Slots that go together on both sides still do. -/
theorem Merged.paired (h : Merged T as bs types) (has : Paired as) (hbs : Paired bs) :
    Paired types := by
  induction h with
  | nil => trivial
  | cons first joined rest ih =>
      refine ⟨fun hwide => ?_, ih has.2 hbs.2⟩
      obtain ⟨rfl, rfl⟩ := joined.wide hwide
      have hA := has.1 hwide
      have hB := hbs.1 hwide
      cases rest with
      | nil => cases hA
      | cons _ next _ => exact congrArg some (next.top (Option.some.inj hA) (Option.some.inj hB))

variable {σ : Type} {supers : SuperClasses σ} {I : σ → Prop}

/-- A class may cover anything that is usable. -/
theorem joined_object {a b : VType} (name : ClassName) (ha : a ≠ .top) : Joined a b (.object name) where
  kind := .inr (.inr ⟨name, rfl⟩)
  wide hwide := nomatch hwide
  top htop := absurd htop ha

/-- The type that covers two types is joined from them. -/
theorem mergeType_joined {a b type : VType} {s s' : σ}
    (h : mergeType supers a b s = (.ok type, s')) : Joined a b type := by
  unfold mergeType at h
  split at h
  next heq =>
    obtain ⟨rfl, -⟩ := task_pure_eq_ok.mp h
    exact ⟨.inl rfl, fun _ => ⟨rfl, heq.symm⟩, fun htop _ => htop⟩
  next =>
    split at h
    next =>
      obtain ⟨rfl, -⟩ := task_pure_eq_ok.mp h
      exact joined_object _ (by simp)
    next =>
      obtain ⟨rfl, -⟩ := task_pure_eq_ok.mp h
      exact joined_object _ (by simp)
    next =>
      obtain ⟨name, _, -, hrest⟩ := task_bind_eq_ok.mp h
      obtain ⟨rfl, -⟩ := task_pure_eq_ok.mp hrest
      exact joined_object _ (by simp)
    next =>
      obtain ⟨rfl, -⟩ := task_pure_eq_ok.mp h
      exact ⟨.inr (.inl rfl), (nomatch ·), fun _ _ => rfl⟩

/-- What covers two types has a property that the first of them has, and classes and unusable types
anyway. -/
theorem mergeType_keeps (hnatural : VType.Natural T) (hobject : ∀ name, T (.object name)) {a : VType}
    (ha : T a) (b : VType) : Ensures (fun _ => True) (mergeType supers a b) T := by
  intro s _
  refine ⟨trivial, fun type hrun => ?_⟩
  rcases (mergeType_joined (Prod.ext hrun rfl)).kind with rfl | rfl | ⟨name, rfl⟩
  · exact ha
  · exact hnatural.plain _ (by simp [VType.IsPlain])
  · exact hobject name

variable (hmerge : ∀ a b, T a → T b → Ensures I (mergeType supers a b) T)

include hmerge

/-- The types that cover the types of two lists. -/
theorem mergeTypesFrom_merged {done : List VType} (hlength : as.length = bs.length)
    (has : ∀ type ∈ as, T type) (hbs : ∀ type ∈ bs, T type) :
    Ensures I (mergeTypesFrom supers done as bs) fun types =>
      ∃ merged, types = done.reverse ++ merged ∧ Merged T as bs merged := by
  induction as generalizing done bs with
  | nil =>
      cases bs with
      | nil => exact ensures_pure ⟨[], (List.append_nil _).symm, .nil⟩
      | cons => cases hlength
  | cons a as ih =>
      cases bs with
      | nil => cases hlength
      | cons b bs =>
          obtain ⟨hfirstA, hrestA⟩ := List.forall_mem_cons.mp has
          obtain ⟨hfirstB, hrestB⟩ := List.forall_mem_cons.mp hbs
          have hfirst := (hmerge a b hfirstA hfirstB).and fun s type s' hrun =>
            mergeType_joined hrun
          refine hfirst.bind fun first hjoined => ?_
          refine (ih (Nat.succ.inj hlength) hrestA hrestB).mono fun types htypes => ?_
          obtain ⟨merged, rfl, hmerged⟩ := htypes
          exact ⟨first :: merged, by simp, .cons hjoined.1 hjoined.2 hmerged⟩

/-- **The frame that covers two well-formed frames is well formed.** -/
theorem merge_formed {size : Nat} {existing incoming : Frame} (hexisting : existing.Formed T size)
    (hincoming : incoming.Formed T size) :
    Ensures I (merge supers existing incoming) fun merged =>
      ∀ frame, merged = some frame → frame.Formed T size := by
  unfold merge
  split
  next hheights =>
    have hsizes : existing.locals.length = incoming.locals.length :=
      hexisting.length.trans hincoming.length.symm
    have hstacks : ∀ {frame : Frame}, frame.Formed T size → ∀ type ∈ frame.stack.reverse, T type :=
      fun hframe type hmem => hframe.stack type (List.mem_reverse.mp hmem)
    have hreversed : existing.stack.reverse.length = incoming.stack.reverse.length := by
      rw [List.length_reverse, List.length_reverse, hheights]
    refine (mergeTypesFrom_merged hmerge hsizes hexisting.locals hincoming.locals).bind
      fun locals hlocals => ?_
    refine (mergeTypesFrom_merged hmerge hreversed (hstacks hexisting) (hstacks hincoming)).bind
      fun stack hstack => ensures_pure fun frame hframe => ?_
    obtain ⟨_, rfl, hlocals⟩ := hlocals
    obtain ⟨_, rfl, hstack⟩ := hstack
    split at hframe
    next => cases hframe
    next =>
      cases hframe
      exact ⟨hlocals.length.trans hexisting.length, hlocals.paired hexisting.paired hincoming.paired,
        hlocals.all, fun type hmem => hstack.all type (List.mem_reverse.mp hmem)⟩
  next => exact ensures_fail

end Merging

/-! ## The analysis -/

/-- The types that code under analysis puts into frames have a property, and execution only goes on to
instructions with a property, if it is at one. -/
structure Subject.Supplies (subject : Subject) (P : Nat → Prop) (T : VType → Prop) : Prop where
  cls : T (.object subject.cls)
  code : ∀ instruction ∈ subject.code, ∀ type, instruction.Brings type → T type
  creates : ∀ index name, P index → subject.code[index]? = some (.new name) →
    T (.uninitialized index)
  caught : ∀ handler ∈ subject.handlers, T handler.caught
  goes : ∀ index instruction targets, P index → subject.code[index]? = some instruction →
    successors subject.code.size subject.places index instruction = .ok targets →
    ∀ target ∈ targets, P target
  handled : ∀ index, P index → index < subject.code.size → ∀ handler ∈ subject.handlers,
    handler.start ≤ index → index < handler.stop → P handler.handler

/-- The frames that an analysis knows so far are well formed, and only instructions with a property
have one. -/
def Flow.Formed (P : Nat → Prop) (T : VType → Prop) (size : Nat) (flow : Flow) : Prop :=
  ∀ index frame, flow.frames[index]? = some (some frame) → P index ∧ frame.Formed T size

section Flowing

variable {P : Nat → Prop} {T : VType → Prop} {size : Nat} {flow : Flow}

/-- Setting a well-formed frame. -/
theorem Flow.Formed.update (h : flow.Formed P T size) {index : Nat} (hindex : P index) {frame : Frame}
    (hframe : frame.Formed T size) : (flow.update index frame).Formed P T size := by
  intro other found hfound
  rw [Flow.frames_update, Array.getElem?_setIfInBounds] at hfound
  split at hfound
  next heq =>
    split at hfound
    next =>
      cases hfound
      exact heq ▸ ⟨hindex, hframe⟩
    next => cases hfound
  next => exact h other found hfound

/-- Noting a size of the stack leaves the frames alone. -/
theorem Flow.Formed.note (h : flow.Formed P T size) (height : Nat) :
    (flow.note height).Formed P T size :=
  h

/-- Taking the next instruction leaves the frames alone. -/
theorem Flow.Formed.next {found : Option Nat} {flow' : Flow} (h : flow.Formed P T size)
    (hnext : flow.next = (found, flow')) : flow'.Formed P T size := by
  unfold Flow.Formed
  rw [Flow.frames_next hnext]
  exact h

variable {σ : Type} {supers : SuperClasses σ} {I : σ → Prop}
  (hmerge : ∀ a b, T a → T b → Ensures I (mergeType supers a b) T)

include hmerge

/-- Letting a frame flow to an instruction. -/
theorem propagate_formed (h : flow.Formed P T size) {target : Nat} (htarget : P target)
    {incoming : Frame} (hincoming : incoming.Formed T size) :
    Ensures I (propagate supers flow target incoming) (Flow.Formed P T size) := by
  unfold propagate
  split
  next => exact ensures_lift fun found hfound => by cases hfound
  next => exact ensures_pure (h.update htarget hincoming)
  next existing hexisting =>
    have hknown := (h target existing hexisting).2
    refine ((merge_formed hmerge hknown hincoming).within _).bind fun merged hmerged => ?_
    split
    next frame => exact ensures_pure (h.update htarget (hmerged frame rfl))
    next => exact ensures_pure h

/-- Letting frames flow to several instructions. -/
theorem propagateAll_formed {choose : Nat → Frame} (hchoose : ∀ target, (choose target).Formed T size)
    {targets : List Nat} (htargets : ∀ target ∈ targets, P target) (h : flow.Formed P T size) :
    Ensures I (propagateAll supers choose targets flow) (Flow.Formed P T size) := by
  induction targets generalizing flow with
  | nil => exact ensures_pure h
  | cons target rest ih =>
      obtain ⟨hfirst, hrest⟩ := List.forall_mem_cons.mp htargets
      exact (propagate_formed hmerge h hfirst (hchoose target)).bind fun next hnext =>
        ih hrest hnext

/-- Letting frames flow into handlers. -/
theorem propagateHandlers_formed (index : Nat) {before behind : Frame}
    (hbefore : before.Formed T size) (hbehind : behind.Formed T size) {handlers : List Handler}
    (hcaught : ∀ handler ∈ handlers, T handler.caught)
    (hhandled : ∀ handler ∈ handlers, handler.start ≤ index → index < handler.stop →
      P handler.handler) (h : flow.Formed P T size) :
    Ensures I (propagateHandlers supers index before behind handlers flow) (Flow.Formed P T size) := by
  induction handlers generalizing flow with
  | nil => exact ensures_pure h
  | cons handler rest ih =>
      obtain ⟨hhere, hothers⟩ := List.forall_mem_cons.mp hcaught
      obtain ⟨hreach, hreachOthers⟩ := List.forall_mem_cons.mp hhandled
      have hentry : ∀ {frame : Frame}, frame.Formed T size →
          Frame.Formed T size ⟨frame.locals, [handler.caught]⟩ :=
        fun hframe => ⟨hframe.length, hframe.paired, hframe.locals, by simpa using hhere⟩
      unfold propagateHandlers
      split
      next hrange =>
        rw [Bool.and_eq_true, decide_eq_true_eq, decide_eq_true_eq] at hrange
        have hhandler := hreach hrange.1 hrange.2
        refine (propagate_formed hmerge (h.note 1) hhandler (hentry hbefore)).bind
          fun first hfirst => ?_
        refine (propagate_formed hmerge hfirst hhandler (hentry hbehind)).bind
          fun second hsecond => ?_
        exact ih hothers hreachOthers hsecond
      next => exact ih hothers hreachOthers h

variable {subject : Subject} (hnatural : VType.Natural T) (hsubject : subject.Supplies P T)

include hnatural hsubject

/-- Looking at an instruction. -/
theorem visit_formed (index : Nat) (h : flow.Formed P T size) :
    Ensures I (visit supers subject index flow) (Flow.Formed P T size) := by
  unfold visit
  split
  next frame instruction hframe hinstruction =>
    obtain ⟨hindex, hbefore⟩ := h index frame hframe
    have hafter : Ensures I (liftM (within (.frame (.afterInstruction index))
        (frame.after subject.cls subject.code index instruction)) : Task σ Frame)
        (Frame.Formed T size) := by
      refine ensures_lift fun behind hbehind => ?_
      refine after_formed hnatural hsubject.cls hsubject.code hinstruction (fun name hnew => ?_)
        hbefore (within_eq_ok.mp hbehind)
      exact hsubject.creates index name hindex (hnew ▸ hinstruction)
    have hsuccessors : Ensures I (liftM (successors subject.code.size subject.places index
        instruction) : Task σ (List Nat)) fun targets => ∀ target ∈ targets, P target :=
      ensures_lift fun targets htargets =>
        hsubject.goes index instruction targets hindex hinstruction htargets
    refine hafter.bind fun behind hbehind => hsuccessors.bind fun targets htargets => ?_
    have hsize := (Array.getElem?_eq_some_iff.mp hinstruction).1
    have hnoted := (h.note frame.stackSize).note behind.stackSize
    refine (propagateAll_formed hmerge (fun target => ?_) htargets hnoted).bind
      fun between hbetween => ?_
    · split
      next => split <;> assumption
      next => exact hbehind
    · exact propagateHandlers_formed hmerge index hbefore hbehind hsubject.caught
        (hsubject.handled index hindex hsize) hbetween
  next => exact ensures_fail

/-- Looking at instructions until none waits. -/
theorem settle_formed (remaining : Nat) (h : flow.Formed P T size) :
    Ensures I (settle supers subject remaining flow) (Flow.Formed P T size) := by
  induction remaining generalizing flow with
  | zero =>
      unfold settle
      split
      next next hnext => exact ensures_pure (h.next hnext)
      next => exact ensures_fail
  | succ remaining ih =>
      unfold settle
      split
      next next hnext => exact ensures_pure (h.next hnext)
      next index next hnext =>
        exact (visit_formed hmerge hnatural hsubject index (h.next hnext)).bind
          fun between hbetween => ih hbetween

end Flowing

section Analysis

variable {P : Nat → Prop} {T : VType → Prop} {cls : ClassName} {method : Method} {code : Code}

/-- The frame before the first instruction is well formed, if the types of the receiver and of the
parameters have the property. -/
theorem initial_formed (hnatural : VType.Natural T) {isStatic : Bool} {name : MethodName}
    {type : MethodType} {maxLocals : UInt16} {first : Frame} (hcls : T (.object cls))
    (hparameters : ∀ parameter ∈ type.parameters, T (.ofType parameter))
    (h : initial cls isStatic name type maxLocals = .ok first) :
    first.Formed T maxLocals.toNat := by
  have htop : T .top := hnatural.plain _ (by simp [VType.IsPlain])
  unfold initial at h
  generalize hreceiver : (if isStatic then []
    else if name = MethodName.constructor && cls != ClassName.javaObject then
      [.uninitializedThis]
    else [.object cls] : List VType) = receiver at h
  have hfirst : Paired receiver ∧ ∀ found ∈ receiver, T found := by
    rw [← hreceiver]
    split
    next => exact ⟨trivial, by simp⟩
    next =>
      split
      next =>
        exact ⟨paired_cons rfl trivial, by simpa using hnatural.plain _ (by simp [VType.IsPlain])⟩
      next => exact ⟨paired_cons rfl trivial, by simpa using hcls⟩
  have harguments : Paired (type.parameters.flatMap fun t => (VType.ofType t).slots) := by
    generalize type.parameters = parameters
    induction parameters with
    | nil => trivial
    | cons parameter rest ih => exact (paired_slots _).append ih
  dsimp only at h
  split at h
  next => cases h
  next hroom =>
    cases h
    refine ⟨?_, (hfirst.1.append harguments).append (paired_tops _), fun found hfound => ?_, by simp⟩
    · rw [List.length_append, List.length_replicate]
      omega
    · rcases List.mem_append.mp hfound with hin | hin
      · rcases List.mem_append.mp hin with hin | hin
        · exact hfirst.2 found hin
        · obtain ⟨parameter, hmem, hslot⟩ := List.mem_flatMap.mp hin
          rcases mem_slots hslot with rfl | rfl
          · exact hparameters parameter hmem
          · exact htop
      · rw [List.eq_of_mem_replicate hin]
        exact htop

/-- What an analysis works on. -/
def subjectOf (cls : ClassName) (code : Code) (handlers : List Handler) : Subject where
  cls := cls
  code := (code.instructions.map Labelled.instruction).toArray
  places := code.labelIndices
  handlers := handlers

variable {σ : Type} {supers : SuperClasses σ} {I : σ → Prop}

/-- **An analysis finds well-formed frames only**, and only for instructions with a property that
execution keeps. -/
theorem analyze_formed (hmerge : ∀ a b, T a → T b → Ensures I (mergeType supers a b) T)
    (hnatural : VType.Natural T) (hstart : P 0)
    (hparameters : ∀ type parameter, MethodType.parse method.descriptor = .ok type →
      parameter ∈ type.parameters → T (.ofType parameter))
    (hsubject : ∀ handlers, handlersOf code.labelIndices code.exceptions = .ok handlers →
      (subjectOf cls code handlers).Supplies P T) (maxLocals : UInt16) :
    Ensures I (analyze supers cls method code maxLocals) fun found =>
      ∀ index frame, found.frames[index]? = some (some frame) →
        P index ∧ frame.Formed T maxLocals.toNat := by
  unfold analyze
  split
  next => exact ensures_fail
  next =>
    have hhandlers : Ensures I (liftM (handlersOf code.labelIndices code.exceptions) :
        Task σ (List Handler)) fun handlers => (subjectOf cls code handlers).Supplies P T :=
      ensures_lift hsubject
    have hparse : Ensures I (liftM (MethodType.parse method.descriptor) : Task σ MethodType)
        fun type => ∀ parameter ∈ type.parameters, T (.ofType parameter) :=
      ensures_lift fun type htype parameter hmem => hparameters type parameter htype hmem
    refine hhandlers.bind fun handlers hsupplies => hparse.bind fun type hgiven => ?_
    have hinitial : Ensures I (liftM (initial cls method.access.isStatic method.name type
        maxLocals) : Task σ Frame) (Frame.Formed T maxLocals.toNat) :=
      ensures_lift fun first hfirst => initial_formed hnatural hsupplies.cls hgiven hfirst
    refine hinitial.bind fun first hfirst => ?_
    have hsettle := fun (flow : Flow) (hflow : flow.Formed P T maxLocals.toNat) =>
      settle_formed hmerge hnatural hsupplies iterationLimit hflow
    refine (hsettle _ fun index frame hframe => ?_).bind
      fun flow hflow => ensures_lift fun found hfound => ?_
    · rw [Array.getElem?_setIfInBounds] at hframe
      split at hframe
      next heq =>
        split at hframe
        next =>
          cases hframe
          exact heq ▸ ⟨hstart, hfirst⟩
        next => cases hframe
      next => cases Array.eq_of_mem_replicate (Array.mem_of_getElem? hframe)
    · rw [frames_of_conclude hfound]
      exact hflow

end Analysis

end Frame

end Downlevel
