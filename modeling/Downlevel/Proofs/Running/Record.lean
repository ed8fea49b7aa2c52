import Downlevel.Proofs.Lower.Asked
import Downlevel.Proofs.Lower.Record
import Downlevel.Proofs.Running.Building

/-!
# What the methods of a lowered record return

The methods that every record has go through its components one after the other.  Comparing is a
chain of blocks, one for each component, which ends with the first pair that differs; hashing and
showing are one run of instructions each.

* `returns_equals`, `returns_hashCode`, `returns_toString` — what the three bodies return;
* `HasComponents` — the components of a record, which it lists or a call site tells of;
* `Retargets`, `Behind` — what becomes of a call in a constructor, and of the code of a method;
* `lowerMethod_behind` — what a method of a record has behind;
* `behaves_like_record` — all of it together.
-/

namespace Downlevel

namespace Running

variable {V : Type}

/-- A value as an object: values of primitive types are boxed, references stay as they are. -/
def Surroundings.boxed (around : Surroundings V) (type : JavaType) : Value V → Option (Object V)
  | .reference object => object
  | value => some (around.box type.base value)

/-- The instruction that boxes the values of a primitive type calls its method. -/
theorem box_primitive {base : BaseType} (h : ∀ name, base ≠ .object name) :
    ∃ target, Fragment.box ⟨0, base⟩ = [.invokestatic target false] ∧
      StaticMethod.ofRef? target = some (.box base) := by
  cases base with
  | object name => exact absurd rfl (h name)
  | _ => exact ⟨_, rfl, by decide +kernel⟩

/-- References have no box. -/
theorem box_reference {type : JavaType} (h : type.isReference = true) : Fragment.box type = [] := by
  rw [Fragment.box, JavaType.wrapper_eq_none_iff.mpr h]

section Box

variable (around : Surroundings V) {type : JavaType} {value : Value V} (stack : List (Value V))
  (locals : UInt16 → Option (Value V)) (builders : List (Option JavaString))
  (rest : List Instruction)

/-- **A value is boxed.** -/
theorem performAll_box (h : value.IsOf type) :
    performAll around ⟨value :: stack, locals, builders⟩ (Fragment.box type ++ rest) =
      performAll around ⟨.reference (around.boxed type value) :: stack, locals, builders⟩ rest := by
  obtain ⟨hkind, hbuilder, -⟩ := h
  by_cases hreference : type.isReference = true
  · rw [(JavaType.isReference_iff type).mp hreference] at hkind
    rw [box_reference hreference]
    cases value with
    | reference object => rfl
    | builder number => exact absurd rfl (hbuilder number)
    | int n | long n | float bits | double bits => cases hkind
  · obtain ⟨base, rfl⟩ : ∃ base, type = ⟨0, base⟩ :=
      ⟨_, JavaType.eq_of_not_isReference (Bool.eq_false_iff.mpr hreference)⟩
    have hbase : ∀ name, base ≠ .object name := by
      rintro name rfl
      exact hreference rfl
    obtain ⟨target, hbox, htarget⟩ := box_primitive hbase
    have hboxed : around.boxed ⟨0, base⟩ value = some (around.box base value) := by
      cases value with
      | reference object =>
          cases base with
          | object name => exact absurd rfl (hbase name)
          | _ => cases hkind
      | _ => rfl
    rw [hbox, hboxed]
    refine performAll_cons around _ ?_
    rw [perform_invokestatic around _ htarget]
    exact if_pos hkind

end Box

/-- Two references are compared. -/
theorem perform_areEqual (around : Surroundings V) (first second : Option (Object V))
    (stack : List (Value V)) (locals : UInt16 → Option (Value V))
    (builders : List (Option JavaString)) :
    perform around ⟨.reference second :: .reference first :: stack, locals, builders⟩
        (.invokestatic ⟨"java/util/Objects", "equals",
          "(Ljava/lang/Object;Ljava/lang/Object;)Z"⟩ false) =
      .next ⟨.ofBool (around.areEqual first second) :: stack, locals, builders⟩ := by
  have hmethod : StaticMethod.ofRef? ⟨"java/util/Objects", "equals",
      "(Ljava/lang/Object;Ljava/lang/Object;)Z"⟩ = some .areEqual := rfl
  rw [perform_invokestatic around _ hmethod]
  rfl

/-- A reference is hashed. -/
theorem perform_hash (around : Surroundings V) (object : Option (Object V))
    (stack : List (Value V)) (locals : UInt16 → Option (Value V))
    (builders : List (Option JavaString)) :
    perform around ⟨.reference object :: stack, locals, builders⟩
        (.invokestatic ⟨"java/util/Objects", "hashCode", "(Ljava/lang/Object;)I"⟩ false) =
      .next ⟨.int (around.hash object) :: stack, locals, builders⟩ := by
  have hmethod : StaticMethod.ofRef? ⟨"java/util/Objects", "hashCode", "(Ljava/lang/Object;)I"⟩ =
      some .hash := rfl
  rw [perform_invokestatic around _ hmethod]
  rfl

end Running

namespace Record

open Running
open Constants (instructionsOf)

variable {V : Type}

section Contents

variable (around : Surroundings V) (cls : ClassName) (object : Object V) (component : Component)

/-- What is in the field of a component. -/
def content : Value V :=
  around.field object ⟨cls, component.name, component.descriptor⟩

/-- The value of a component as an object. -/
def boxedContent : Option (Object V) :=
  match JavaType.parse component.descriptor with
  | .ok type => around.boxed type (content around cls object component)
  | .error _ => none

/-- The text of the value of a component. -/
def contentText : JavaString :=
  match JavaType.parse component.descriptor with
  | .ok type => around.textOf type (content around cls object component)
  | .error _ => nullText

/-- Whether the fields of objects hold values of the types of the components. -/
def HoldsTypes (components : List Component) : Prop :=
  ∀ component ∈ components, ∀ type, JavaType.parse component.descriptor = .ok type →
    ∀ object, around.instanceOf object cls = true →
      (content around cls object component).IsOf type

end Contents

/-- The types of components, in order. -/
def Types (components : List Component) (types : List JavaType) : Prop :=
  List.Forall₂ (fun component type => JavaType.parse component.descriptor = .ok type)
    components types

/-- Components whose descriptors can be read have types. -/
theorem exists_types {components : List Component}
    (h : ∀ component ∈ components, ∃ type, JavaType.parse component.descriptor = .ok type) :
    ∃ types, Types components types := by
  induction components with
  | nil => exact ⟨[], .nil⟩
  | cons component components ih =>
      obtain ⟨⟨type, htype⟩, hrest⟩ := List.forall_mem_cons.mp h
      obtain ⟨types, htypes⟩ := ih hrest
      exact ⟨type :: types, .cons htype htypes⟩

section Load

variable {around : Surroundings V} {cls : ClassName} {object : Object V}
  (hinstance : around.instanceOf object cls = true) {locals : UInt16 → Option (Value V)}
  {slot : UInt16} (hslot : locals slot = some (.reference (some object))) (component : Component)
  (stack : List (Value V)) (builders : List (Option JavaString)) (rest : List Instruction)

include hinstance hslot

/-- A component is loaded. -/
theorem performAll_loadComponent :
    performAll around ⟨stack, locals, builders⟩ (loadComponent cls slot component ++ rest) =
      performAll around ⟨content around cls object component :: stack, locals, builders⟩ rest := by
  have hload := perform_aload around stack locals builders hslot
  have hfield : perform around ⟨.reference (some object) :: stack, locals, builders⟩
      (.field .getField ⟨cls, component.name, component.descriptor⟩) =
        .next ⟨content around cls object component :: stack, locals, builders⟩ :=
    perform_getField around stack locals builders hinstance
  rw [loadComponent, List.cons_append, performAll_cons around _ hload, List.cons_append,
    performAll_cons around _ hfield, List.nil_append]

/-- A component is loaded as an object. -/
theorem performAll_loadBoxed {type : JavaType}
    (htype : JavaType.parse component.descriptor = .ok type)
    (hof : (content around cls object component).IsOf type) :
    performAll around ⟨stack, locals, builders⟩
        (loadComponent cls slot component ++ Fragment.box type ++ rest) =
      performAll around ⟨.reference (boxedContent around cls object component) :: stack, locals,
        builders⟩ rest := by
  have hboxed : boxedContent around cls object component =
      around.boxed type (content around cls object component) := by
    rw [boxedContent, htype]
  rw [List.append_assoc, performAll_loadComponent hinstance hslot, performAll_box around _ _ _ _ hof,
    hboxed]

end Load

section Equals

/-- The instructions that compare a component of two records, in the variables 0 and 2. -/
def comparison (cls : ClassName) (n : Nat) (component : Component) (type : JavaType) :
    List Instruction :=
  loadComponent cls 0 component ++ Fragment.box type ++
    (loadComponent cls 2 component ++ Fragment.box type ++
      [.invokestatic
          ⟨"java/util/Objects", "equals", "(Ljava/lang/Object;Ljava/lang/Object;)Z"⟩ false,
        .branch .ne (.numbered n), .op .iconst0, .op .ireturn])

/-- The blocks that compare components, the first of which starts with other instructions.  A block
goes on with the next one, the first of those with the number `n`, if the components are equal. -/
def comparisonBlocks (cls : ClassName) :
    List Instruction → Nat → List Component → List JavaType → List (List Instruction)
  | front, n, component :: components, type :: types =>
      (front ++ comparison cls n component type) ::
        comparisonBlocks cls [] (n + 1) components types
  | front, _, _, _ => [front ++ [.op .iconst1, .op .ireturn]]

/-- There is a block for each component and one more. -/
theorem comparisonBlocks_eq_cons (cls : ClassName) (front : List Instruction) (n : Nat)
    {components : List Component} {types : List JavaType}
    (h : components.length = types.length) :
    ∃ first others, comparisonBlocks cls front n components types = first :: others ∧
      first ≠ [] ∧ others.length = components.length ∧ ∀ block ∈ others, block ≠ [] := by
  induction components generalizing front n types with
  | nil =>
      obtain rfl := List.length_eq_zero_iff.mp h.symm
      exact ⟨_, [], rfl, by simp, rfl, by simp⟩
  | cons component components ih =>
      cases types with
      | nil => cases h
      | cons type types =>
          obtain ⟨first, others, hblocks, hfirst, hlength, hothers⟩ :=
            ih [] (n + 1) (Nat.succ.inj h)
          refine ⟨_, first :: others, by rw [comparisonBlocks, hblocks], ?_, ?_, ?_⟩
          · simp [comparison]
          · rw [List.length_cons, hlength, List.length_cons]
          · exact List.forall_mem_cons.mpr ⟨hfirst, hothers⟩

/-- **The comparisons of a body are these blocks**, behind the label of the first one. -/
theorem compareComponents_eq (cls : ClassName) (front : List Instruction) (n : Nat)
    {components : List Component} {types : List JavaType} (h : Types components types) :
    ∃ pieces, compareComponents cls (n + 1) components = .ok pieces ∧
      .place (.numbered n) :: (Piece.sequence front ++ pieces ++
          Piece.sequence [.op .iconst1, .op .ireturn]) =
        Piece.blocks n (comparisonBlocks cls front (n + 1) components types) := by
  induction h generalizing front n with
  | nil => exact ⟨[], rfl, by simp [comparisonBlocks, Piece.blocks, Piece.sequence]⟩
  | @cons component type components types htype hrest ih =>
      obtain ⟨pieces, hpieces, hblocks⟩ := ih [] (n + 1)
      refine ⟨Piece.sequence (comparison cls (n + 1) component type) ++
        .place (.numbered (n + 1)) :: pieces, ?_, ?_⟩
      · rw [compareComponents, compareComponent, htype]
        refine bind_eq_ok.mpr ⟨_, rfl, bind_eq_ok.mpr ⟨pieces, hpieces, ?_⟩⟩
        simp [comparison, label, Label.numbered]
      · rw [comparisonBlocks, Piece.blocks, ← hblocks]
        simp [Piece.sequence]

variable {around : Surroundings V} {cls : ClassName} {this other : Object V}
  {locals : UInt16 → Option (Value V)} {component : Component} {type : JavaType}

/-- **A comparison** goes on if the components are equal, and else ends the code. -/
theorem performAll_comparison (hthis : around.instanceOf this cls = true)
    (hother : around.instanceOf other cls = true)
    (hlocal0 : locals 0 = some (.reference (some this)))
    (hlocal2 : locals 2 = some (.reference (some other)))
    (htype : JavaType.parse component.descriptor = .ok type)
    (hof : (content around cls this component).IsOf type)
    (hof' : (content around cls other component).IsOf type)
    (n : Nat) (builders : List (Option JavaString)) :
    performAll around ⟨[], locals, builders⟩ (comparison cls n component type) =
      if around.areEqual (boxedContent around cls this component)
          (boxedContent around cls other component) then
        .jump (.numbered n) ⟨[], locals, builders⟩
      else .finish (.ofBool false) := by
  rw [comparison, performAll_loadBoxed hthis hlocal0 _ _ _ _ htype hof,
    performAll_loadBoxed hother hlocal2 _ _ _ _ htype hof',
    performAll_cons around _ (perform_areEqual around _ _ _ _ _)]
  cases around.areEqual (boxedContent around cls this component)
    (boxedContent around cls other component) <;> rfl

/-- **The blocks compare the components** in order, up to the first pair that differs. -/
theorem reaches_comparisons {code : Code} {components : List Component} {types : List JavaType}
    (htypes : Types components types) (hholds : HoldsTypes around cls components)
    (hthis : around.instanceOf this cls = true) (hother : around.instanceOf other cls = true)
    (hlocal0 : locals 0 = some (.reference (some this)))
    (hlocal2 : locals 2 = some (.reference (some other)))
    {before : List Labelled} {front : List Instruction} {n : Nat} {frame : Running.Frame V}
    (hfront : ∀ rest, performAll around frame (front ++ rest) =
      performAll around ⟨[], locals, []⟩ rest)
    (hcode : code.instructions =
      before ++ Labelled.numbered n (comparisonBlocks cls front (n + 1) components types))
    (hlast : code.lastLabel = none) (hsmall : n + components.length < 65536) :
    Reaches around code (.running before.length frame)
      (.returned (.ofBool (components.all fun component =>
        around.areEqual (boxedContent around cls this component)
          (boxedContent around cls other component)))) := by
  induction htypes generalizing before front n frame with
  | nil =>
      have hreaches := reaches_block around frame hcode
      rw [hfront] at hreaches
      exact hreaches
  | @cons component type components types htype htypes ih =>
      obtain ⟨hhere, hrest⟩ := List.forall_mem_cons.mp hholds
      have hblock : performAll around frame (front ++ comparison cls (n + 1) component type) = _ :=
        (hfront _).trans (performAll_comparison hthis hother hlocal0 hlocal2 htype
          (hhere type htype this hthis) (hhere type htype other hother) (n + 1) [])
      rw [comparisonBlocks] at hcode
      rw [List.all_cons]
      by_cases hequal : around.areEqual (boxedContent around cls this component)
          (boxedContent around cls other component) = true
      · rw [if_pos hequal] at hblock
        rw [hequal, Bool.true_and]
        obtain ⟨next, others, hblocks, hnext, hlength, -⟩ :=
          comparisonBlocks_eq_cons cls [] (n + 2) htypes.length_eq
        have hbehind := blocks_behind hcode
        rw [hblocks] at hcode
        rw [List.length_cons] at hsmall
        exact (reaches_next around hcode hnext hlast (by omega) hblock).trans
          (ih hrest (fun _ => rfl) hbehind (by omega))
      · have hreaches := reaches_block around frame hcode
        rw [hblock, if_neg hequal] at hreaches
        rw [Bool.eq_false_iff.mpr hequal, Bool.false_and]
        exact hreaches

/-- What a body that compares starts with: what is no instance of the class is not equal. -/
def testInstance (cls : ClassName) : List Instruction :=
  [Fragment.aload 1, .op .dup, .instanceof cls, .branch .ne (.numbered 0), .op .iconst0,
    .op .ireturn]

/-- **The body that compares records** is a test and then the blocks for the components. -/
theorem equalsBody_eq {components : List Component} {types : List JavaType} (cls : ClassName)
    (htypes : Types components types) :
    ∃ pieces, equalsBody cls components = .ok pieces ∧
      Code.ofPieces pieces =
        { instructions := (testInstance cls).map Instruction.plain ++
            Labelled.numbered 0
              (comparisonBlocks cls [.checkcast cls, Fragment.astore 2] 1 components types) } := by
  obtain ⟨comparisons, hcomparisons, hblocks⟩ :=
    compareComponents_eq cls [.checkcast cls, Fragment.astore 2] 0 htypes
  obtain ⟨first, others, hcons, hfirst, -, hothers⟩ :=
    comparisonBlocks_eq_cons cls [.checkcast cls, Fragment.astore 2] 1 htypes.length_eq
  have hsome : ∀ block ∈ comparisonBlocks cls [.checkcast cls, Fragment.astore 2] 1 components types,
      block ≠ [] := by
    rw [hcons]
    exact List.forall_mem_cons.mpr ⟨hfirst, hothers⟩
  refine ⟨_, bind_eq_ok.mpr ⟨comparisons, hcomparisons, rfl⟩, ?_⟩
  rw [← Code.ofPieces_blocks (testInstance cls) hsome, ← hblocks]
  simp [testInstance, label, Label.numbered]

/-- The test goes on if the other object is an instance of the class, and else ends the code. -/
theorem performAll_testInstance {argument : Option (Object V)}
    (hlocal1 : locals 1 = some (.reference argument)) :
    performAll around ⟨[], locals, []⟩ (testInstance cls) =
      if argument.any (around.instanceOf · cls) then
        .jump (.numbered 0) ⟨[.reference argument], locals, []⟩
      else .finish (.ofBool false) := by
  have hload := perform_aload around [] locals [] hlocal1
  have htest : perform around ⟨[.reference argument, .reference argument], locals, []⟩
      (.instanceof cls) =
        .next ⟨[.ofBool (argument.any (around.instanceOf · cls)), .reference argument], locals,
          []⟩ := rfl
  have hdup : perform around ⟨[.reference argument], locals, []⟩ (.op .dup) =
      .next ⟨[.reference argument, .reference argument], locals, []⟩ := rfl
  rw [testInstance, performAll_cons around _ hload, performAll_cons around _ hdup,
    performAll_cons around _ htest]
  cases argument.any (around.instanceOf · cls) <;> rfl

/-- **The body that compares records** returns whether the other object is a record of the same class
with equal components. -/
theorem returns_equals {components : List Component} {types : List JavaType} {pieces : List Piece}
    (h : equalsBody cls components = .ok pieces) (htypes : Types components types) (hholds : HoldsTypes around cls components)
    (hsmall : components.length ≤ 65534) (hthis : around.instanceOf this cls = true)
    {argument : Option (Object V)} (hlocal0 : locals 0 = some (.reference (some this)))
    (hlocal1 : locals 1 = some (.reference argument)) :
    Returns around (Code.ofPieces pieces) locals (.ofBool (argument.any fun other =>
      around.instanceOf other cls && components.all fun component =>
        around.areEqual (boxedContent around cls this component)
          (boxedContent around cls other component))) := by
  obtain ⟨found, hfound, hcode⟩ := equalsBody_eq cls htypes
  obtain rfl : found = pieces := Except.ok.inj (hfound.symm.trans h)
  have hinstructions := congrArg Code.instructions hcode
  have hlast : (Code.ofPieces found).lastLabel = none := by rw [hcode]
  have hstands : Stands (Code.ofPieces found) 0 (testInstance cls) := by
    have hfront : (Code.ofPieces found).instructions =
        [] ++ (testInstance cls).map Instruction.plain ++ _ := hinstructions
    simpa [Function.comp_def, Instruction.plain] using Stands.of_append hfront
  have hreaches := reaches_performAll around ⟨[], locals, []⟩ hstands
  rw [performAll_testInstance hlocal1] at hreaches
  cases argument with
  | none => exact hreaches
  | some other =>
      by_cases hother : around.instanceOf other cls = true
      · obtain ⟨first, others, hcons, hfirst, hlength, -⟩ :=
          comparisonBlocks_eq_cons cls [.checkcast cls, Fragment.astore 2] 1 htypes.length_eq
        have hplace : (Code.ofPieces found).labelIndices[Label.numbered 0]? = _ :=
          Code.labelIndices_numbered (hcons ▸ hinstructions) hfirst hlast (by omega)
        rw [if_pos (by exact hother), Effect.after, hplace] at hreaches
        have hfront (rest : List Instruction) :
            performAll around ⟨[.reference (some other)], locals, []⟩
                ([.checkcast cls, Fragment.astore 2] ++ rest) =
              performAll around ((⟨[], locals, []⟩ : Running.Frame V).store 2
                (.reference (some other))) rest := by
          have hcast := perform_checkcast around [] locals [] hother
          rw [List.cons_append, performAll_cons around _ hcast]
          rfl
        have hstored0 : ((⟨[], locals, []⟩ : Running.Frame V).store 2
            (.reference (some other))).locals 0 = some (.reference (some this)) := hlocal0
        have hstored2 : ((⟨[], locals, []⟩ : Running.Frame V).store 2
            (.reference (some other))).locals 2 = some (.reference (some other)) := rfl
        have hcompared := reaches_comparisons htypes hholds hthis hother hstored0 hstored2 hfront
          hinstructions hlast (by omega)
        have hresult : (some other).any (fun other => around.instanceOf other cls &&
            components.all fun component =>
              around.areEqual (boxedContent around cls this component)
                (boxedContent around cls other component)) = components.all fun component =>
              around.areEqual (boxedContent around cls this component)
                (boxedContent around cls other component) := by
          rw [Option.any_some, hother, Bool.true_and]
        rw [hresult]
        exact hreaches.trans hcompared
      · rw [if_neg (by exact hother)] at hreaches
        rw [Option.any_some, Bool.eq_false_iff.mpr hother, Bool.false_and]
        exact hreaches

end Equals

section HashCode

variable {around : Surroundings V} {cls : ClassName} {this : Object V}
  {locals : UInt16 → Option (Value V)}

/-- The hash of the values of components, in order, behind a hash that there is already. -/
def hashFrom (around : Surroundings V) (cls : ClassName) (object : Object V) (start : Int32)
    (components : List Component) : Int32 :=
  components.foldl (fun total component =>
    total * 31 + around.hash (boxedContent around cls object component)) start

/-- **The hash of a component is added.** -/
theorem performAll_hashComponent {component : Component} {instructions : List Instruction}
    (h : hashComponent cls component = .ok instructions)
    (hholds : ∀ type, JavaType.parse component.descriptor = .ok type →
      (content around cls this component).IsOf type)
    (hthis : around.instanceOf this cls = true)
    (hlocal0 : locals 0 = some (.reference (some this))) (total : Int32)
    (rest : List Instruction) :
    performAll around ⟨[.int total], locals, []⟩ (instructions ++ rest) =
      performAll around
        ⟨[.int (total + around.hash (boxedContent around cls this component))], locals, []⟩
        rest := by
  obtain ⟨type, htype, hinstructions⟩ := bind_eq_ok.mp h
  obtain rfl := pure_eq_ok.mp hinstructions
  have hof := hholds type htype
  rw [List.append_assoc, performAll_loadBoxed hthis hlocal0 _ _ _ _ htype hof, List.cons_append,
    performAll_cons around _ (perform_hash around _ _ _ _)]
  rfl

/-- The hashes of components are added, each time after multiplying what there is. -/
theorem performAll_hashRest {components : List Component} {instructions : List Instruction}
    (h : hashRest cls components = .ok instructions) (hholds : HoldsTypes around cls components)
    (hthis : around.instanceOf this cls = true)
    (hlocal0 : locals 0 = some (.reference (some this))) (total : Int32)
    (rest : List Instruction) :
    performAll around ⟨[.int total], locals, []⟩ (instructions ++ rest) =
      performAll around ⟨[.int (hashFrom around cls this total components)], locals, []⟩ rest := by
  induction components generalizing instructions total with
  | nil =>
      cases h
      rfl
  | cons component components ih =>
      obtain ⟨hhere, hrest⟩ := List.forall_mem_cons.mp hholds
      simp only [hashRest, bind_eq_ok, pure_eq_ok] at h
      obtain ⟨first, hfirst, others, hothers, rfl⟩ := h
      have hfactor := perform_int around [.int total] locals [] 31
      have hproduct : perform around ⟨[.int 31, .int total], locals, []⟩ (.op .imul) =
          .next ⟨[.int (total * 31)], locals, []⟩ := rfl
      simp only [List.cons_append, List.append_assoc]
      rw [performAll_cons around _ hfactor, performAll_cons around _ hproduct,
        performAll_hashComponent hfirst (fun type htype => hhere type htype this hthis) hthis hlocal0,
        ih hothers hrest]
      rfl

/-- **The body that hashes a record** returns the hash of all components. -/
theorem returns_hashCode {components : List Component} {pieces : List Piece}
    (h : hashCodeBody cls components = .ok pieces) (hholds : HoldsTypes around cls components)
    (hthis : around.instanceOf this cls = true)
    (hlocal0 : locals 0 = some (.reference (some this))) :
    Returns around (Code.ofPieces pieces) locals
      (.int (hashFrom around cls this 0 components)) := by
  cases components with
  | nil =>
      cases h
      exact Returns.of_sequence around rfl
  | cons component components =>
      obtain ⟨hhere, hrest⟩ := List.forall_mem_cons.mp hholds
      simp only [hashCodeBody, bind_eq_ok, pure_eq_ok] at h
      obtain ⟨first, hfirst, others, hothers, rfl⟩ := h
      refine Returns.of_sequence around ?_
      have hzero : perform around ⟨[], locals, []⟩ (.op .iconst0) =
          .next ⟨[.int 0], locals, []⟩ := rfl
      simp only [List.cons_append, List.append_assoc]
      rw [performAll_cons around _ hzero,
        performAll_hashComponent hfirst (fun type htype => hhere type htype this hthis) hthis hlocal0,
        performAll_hashRest hothers hrest hthis hlocal0]
      rfl

end HashCode

section ToString

variable {around : Surroundings V} {cls : ClassName} {this : Object V}
  {locals : UInt16 → Option (Value V)}

/-- The names and values of components, with what separates them in front of each. -/
def shownFrom (around : Surroundings V) (cls : ClassName) (object : Object V) :
    String → List Component → JavaString
  | _, [] => ⟨[]⟩
  | separator, component :: components =>
      ((JavaString.ofString (separator ++ component.name ++ "=")).append
        (contentText around cls object component)).append
          (shownFrom around cls object ", " components)

/-- The text of a record: the name of the class and, in brackets, the components. -/
def shown (around : Surroundings V) (cls : ClassName) (object : Object V)
    (components : List Component) : JavaString :=
  ⟨(around.simpleName cls).units ++ (JavaString.ofString "[").units ++
    (JavaString.ofString ", ").units.intercalate (components.map fun component =>
      (JavaString.ofString (component.name ++ "=")).units ++
        (contentText around cls object component).units) ++
    (JavaString.ofString "]").units⟩

/-- The units of two texts one behind the other. -/
theorem units_ofString_append (first second : String) :
    (JavaString.ofString (first ++ second)).units =
      (JavaString.ofString first).units ++ (JavaString.ofString second).units := by
  simp [JavaString.ofString]

/-- Components with separators in front are a separator and then components with separators
between them. -/
theorem units_shownFrom (separator : String) (component : Component)
    (components : List Component) :
    (shownFrom around cls this separator (component :: components)).units =
      (JavaString.ofString separator).units ++
        (JavaString.ofString ", ").units.intercalate ((component :: components).map fun component =>
          (JavaString.ofString (component.name ++ "=")).units ++
            (contentText around cls this component).units) := by
  induction components generalizing separator component with
  | nil => simp [shownFrom, JavaString.append, units_ofString_append]
  | cons next components ih =>
      rw [shownFrom, JavaString.append, ih, JavaString.append]
      simp [units_ofString_append, List.intercalate]

/-- What is appended behind the components closes the brackets, or is both of them if there are
none. -/
theorem shown_eq (components : List Component) :
    ((around.simpleName cls).append (shownFrom around cls this "[" components)).append
        (JavaString.ofString (if components.isEmpty then "[]" else "]")) =
      shown around cls this components := by
  cases components with
  | nil =>
      have hbrackets : JavaString.ofString "[]" =
          ⟨(JavaString.ofString "[").units ++ (JavaString.ofString "]").units⟩ := by decide
      rw [shown, List.isEmpty_nil, if_pos rfl, hbrackets]
      simp [shownFrom, JavaString.append]
  | cons component components =>
      rw [shown, JavaString.append, JavaString.append, units_shownFrom]
      simp

/-- **Components are appended** with their names. -/
theorem performAll_appendComponents {components : List Component} {separator : String}
    {instructions : List Instruction}
    (h : appendComponents cls separator components = .ok instructions)
    (hholds : HoldsTypes around cls components) (hthis : around.instanceOf this cls = true)
    (hlocal0 : locals 0 = some (.reference (some this))) (text : JavaString)
    (rest : List Instruction) :
    performAll around (building locals text) (instructions ++ rest) =
      performAll around
        (building locals (text.append (shownFrom around cls this separator components))) rest := by
  induction components generalizing separator instructions text with
  | nil =>
      cases h
      simp [shownFrom, JavaString.append]
  | cons component components ih =>
      obtain ⟨hhere, hrest⟩ := List.forall_mem_cons.mp hholds
      simp only [appendComponents, bind_eq_ok, pure_eq_ok] at h
      obtain ⟨type, htype, others, hothers, rfl⟩ := h
      have htext : contentText around cls this component =
          around.textOf type (content around cls this component) := by
        rw [contentText, htype]
      rw [List.append_assoc, List.append_assoc, Fragment.appendText, performAll_appendString,
        building, performAll_loadComponent hthis hlocal0, List.cons_append,
        performAll_appendValue around locals _ _ (hhere type htype this hthis), ← htext,
        ih hothers hrest]
      simp [shownFrom, JavaString.append]

/-- **The body that shows a record** returns its text. -/
theorem returns_toString {components : List Component} {pieces : List Piece}
    (h : toStringBody cls components = .ok pieces) (hholds : HoldsTypes around cls components)
    (hthis : around.instanceOf this cls = true)
    (hlocal0 : locals 0 = some (.reference (some this))) :
    Returns around (Code.ofPieces pieces) locals
      (.ofText (shown around cls this components)) := by
  obtain ⟨appended, happended, hpieces⟩ := bind_eq_ok.mp h
  obtain rfl := pure_eq_ok.mp hpieces
  refine Returns.of_sequence around ?_
  have hload : perform around (building locals ⟨[]⟩) (.ldc (.cls cls)) =
      .next ⟨[.reference (some (.cls cls)), .builder 0], locals, [some ⟨[]⟩]⟩ := rfl
  have hmethod : Method.ofRef? ⟨ClassName.javaClass, "getSimpleName", "()Ljava/lang/String;"⟩ =
      some .simpleName := rfl
  have hname : perform around ⟨[.reference (some (.cls cls)), .builder 0], locals, [some ⟨[]⟩]⟩
      (.invokevirtual ⟨ClassName.javaClass, "getSimpleName", "()Ljava/lang/String;"⟩) =
        .next ⟨[.ofText (around.simpleName cls), .builder 0], locals, [some ⟨[]⟩]⟩ := by
    rw [perform_invokevirtual around _ hmethod]
    rfl
  have hempty : (⟨[]⟩ : JavaString).append (around.simpleName cls) = around.simpleName cls := by
    simp [JavaString.append]
  simp only [List.append_assoc, List.cons_append, List.nil_append]
  rw [performAll_construct, performAll_cons around _ hload, performAll_cons around _ hname,
    performAll_appendValue around locals ⟨[]⟩ _ (Value.isOf_ofText _),
    Surroundings.textOf_ofText, hempty, performAll_appendComponents happended hholds hthis hlocal0,
    Fragment.appendText, performAll_appendString, performAll_returnBuilt, shown_eq]

end ToString

section Components

/-- The components that the static arguments of a call site tell of: one for each handle that gets a
field, in order. -/
inductive Getters : List Loadable → List Component → Prop where
  | nil : Getters [] []
  | getter {arguments : List Loadable} {components : List Component} (target : FieldRef)
      (hrest : Getters arguments components) :
      Getters (.handle (.field .getField target) :: arguments)
        (⟨target.name, target.descriptor⟩ :: components)
  | other {argument : Loadable} {arguments : List Loadable} {components : List Component}
      (hother : ∀ target, argument ≠ .handle (.field .getField target))
      (hrest : Getters arguments components) : Getters (argument :: arguments) components

/-- Whether the bootstrap method of a call site is one of those for the methods of records. -/
def OfRecord (site : CallSite) : Prop :=
  site.bootstrap.owner = "java/lang/runtime/ObjectMethods"

/-- The components of a record: those that it lists or, if it lists none, those that the first call
site for a method of records tells of. -/
inductive HasComponents (cls : ClassFile) : List Component → Prop where
  | listed {listed : List RecordComponent} (hlisted : cls.recordComponents = some listed) :
      HasComponents cls (listed.map fun component => ⟨component.name, component.descriptor⟩)
  | told {components : List Component} {front back : List Instruction} {site : CallSite}
      (hunlisted : cls.recordComponents = none)
      (hcode : cls.methods.flatMap instructionsOf = front ++ .invokedynamic site :: back)
      (hfirst : ∀ other, .invokedynamic other ∈ front → ¬ OfRecord other) (hsite : OfRecord site)
      (hgetters : Getters site.arguments components) : HasComponents cls components
  | untold (hunlisted : cls.recordComponents = none)
      (hnone : ∀ site, .invokedynamic site ∈ cls.methods.flatMap instructionsOf →
        ¬ OfRecord site) :
      HasComponents cls []

/-- Going through the handles finds the components that they tell of. -/
theorem getters_componentsOf (arguments : List Loadable) :
    Getters arguments (componentsOf arguments) := by
  induction arguments with
  | nil => exact .nil
  | cons argument arguments ih =>
      by_cases hgetter : ∃ target, argument = .handle (.field .getField target)
      · obtain ⟨target, rfl⟩ := hgetter
        exact .getter target ih
      · have hother : ∀ target, argument ≠ .handle (.field .getField target) :=
          fun target hsame => hgetter ⟨target, hsame⟩
        have hsame : componentsOf (argument :: arguments) = componentsOf arguments := by
          refine List.filterMap_cons_none ?_
          split
          next target => exact absurd rfl (hother target)
          next => rfl
        rw [hsame]
        exact .other hother ih

/-- Static arguments tell of one list of components only. -/
theorem Getters.eq {arguments : List Loadable} {components : List Component}
    (h : Getters arguments components) : components = componentsOf arguments := by
  induction h with
  | nil => rfl
  | getter target _ ih => rw [ih]; rfl
  | other hother _ ih =>
      rw [ih]
      refine (List.filterMap_cons_none ?_).symm
      split
      next target => exact absurd rfl (hother target)
      next => rfl

/-- The dynamic call site that an instruction is. -/
def site? : Instruction → Option CallSite
  | .invokedynamic site => some site
  | _ => none

/-- An instruction is a dynamic call site. -/
theorem site?_eq_some {instruction : Instruction} {site : CallSite} :
    site? instruction = some site ↔ instruction = .invokedynamic site := by
  cases instruction <;> simp [site?]

/-- The call sites of a method are those among its instructions. -/
theorem callSites_eq (method : Method) :
    callSites method = (instructionsOf method).filterMap site? := by
  unfold callSites instructionsOf
  cases method.code with
  | none => rfl
  | some code =>
      dsimp only
      rw [List.filterMap_map]
      rfl

/-- The call sites of a method stand among its instructions. -/
theorem mem_callSites {method : Method} {site : CallSite} :
    site ∈ callSites method ↔ .invokedynamic site ∈ instructionsOf method := by
  rw [callSites_eq, List.mem_filterMap]
  simp only [site?_eq_some, exists_eq_right]

/-- The first call site of some kind among instructions is the one that stands behind no other of that
kind. -/
theorem find_site_iff {instructions : List Instruction} {test : CallSite → Bool} {site : CallSite} :
    (instructions.filterMap site?).find? test = some site ↔
      ∃ front back, instructions = front ++ .invokedynamic site :: back ∧ test site = true ∧
        ∀ other, .invokedynamic other ∈ front → ¬ test other = true := by
  constructor
  · intro h
    obtain ⟨htest, before, after, hsplit, hbefore⟩ := List.find?_eq_some_iff_append.mp h
    obtain ⟨front, rest, rfl, hfront, hrest⟩ := List.filterMap_eq_append_iff.mp hsplit
    obtain ⟨between, instruction, back, rfl, hbetween, hsite, -⟩ :=
      List.filterMap_eq_cons_iff.mp hrest
    obtain rfl := site?_eq_some.mp hsite
    refine ⟨front ++ between, back, by simp, htest, fun other hother => ?_⟩
    rcases List.mem_append.mp hother with hin | hin
    · have hmem : other ∈ before := by
        rw [← hfront]
        exact List.mem_filterMap.mpr ⟨_, hin, rfl⟩
      simpa using hbefore other hmem
    · cases (hbetween _ hin).symm
  · rintro ⟨front, back, rfl, htest, hfirst⟩
    have hfront : (front.filterMap site?).find? test = none := by
      rw [List.find?_eq_none]
      intro other hmem
      obtain ⟨instruction, hin, hsite⟩ := List.mem_filterMap.mp hmem
      obtain rfl := site?_eq_some.mp hsite
      exact hfirst other hin
    have hhere : site? (.invokedynamic site) = some site := rfl
    rw [List.filterMap_append, List.find?_append, hfront, List.filterMap_cons_some hhere,
      List.find?_cons_of_pos htest, Option.none_or]

/-- The call sites of a class are those among its instructions. -/
theorem flatMap_callSites (cls : ClassFile) :
    cls.methods.flatMap callSites = (cls.methods.flatMap instructionsOf).filterMap site? := by
  rw [List.filterMap_flatMap]
  exact List.flatMap_congr fun method _ => callSites_eq method

/-- **A record has the components that are worked with**, and no others. -/
theorem hasComponents_iff {cls : ClassFile} {found : List Component} :
    HasComponents cls found ↔ found = components cls := by
  have hof : ∀ site : CallSite, decide (site.bootstrap.owner = objectMethods) = true ↔
      OfRecord site := fun _ => decide_eq_true_iff
  constructor
  · intro h
    unfold components
    cases h with
    | listed hlisted => rw [hlisted]
    | @told _ front back site hunlisted hcode hfirst hsite hgetters =>
        have hfound := find_site_iff.mpr ⟨front, back, hcode, (hof site).mpr hsite,
          fun other hmem htest => hfirst other hmem ((hof other).mp htest)⟩
        rw [hunlisted, flatMap_callSites, hfound]
        exact hgetters.eq
    | untold hunlisted hnone =>
        have hfound : ((cls.methods.flatMap instructionsOf).filterMap site?).find?
            (fun site => decide (site.bootstrap.owner = objectMethods)) = none := by
          rw [List.find?_eq_none]
          intro site hmem htest
          obtain ⟨instruction, hin, hsite⟩ := List.mem_filterMap.mp hmem
          obtain rfl := site?_eq_some.mp hsite
          exact hnone site hin ((hof site).mp htest)
        rw [hunlisted, flatMap_callSites, hfound]
  · rintro rfl
    unfold components
    cases hlisted : cls.recordComponents with
    | some listed => exact .listed hlisted
    | none =>
        dsimp only
        rw [flatMap_callSites]
        cases hfound : ((cls.methods.flatMap instructionsOf).filterMap site?).find? fun site =>
            site.bootstrap.owner = objectMethods with
        | none =>
            refine .untold hlisted fun site hmem hsite => ?_
            rw [List.find?_eq_none] at hfound
            exact hfound site (List.mem_filterMap.mpr ⟨_, hmem, rfl⟩) ((hof site).mpr hsite)
        | some site =>
            obtain ⟨front, back, hcode, hsite, hfirst⟩ := find_site_iff.mp hfound
            exact .told hlisted hcode
              (fun other hmem hother => hfirst other hmem ((hof other).mpr hother))
              ((hof site).mp hsite) (getters_componentsOf site.arguments)

end Components

section Methods

/-- Whether a method is one of those that every record has. -/
def Standard.Names : Standard → Method → Prop
  | equals, method => method.name = "equals" ∧ method.descriptor = "(Ljava/lang/Object;)Z"
  | hashCode, method => method.name = "hashCode" ∧ method.descriptor = "()I"
  | toString, method => method.name = "toString" ∧ method.descriptor = "()Ljava/lang/String;"

/-- Whether a call site asks for one of the methods that every record has: it has the name of the
method, and takes the record before the arguments of the method. -/
def Standard.Asks (cls : ClassName) : Standard → CallSite → Prop
  | equals, site => site.name = "equals" ∧
      site.descriptor = "(L" ++ cls ++ ";Ljava/lang/Object;)Z"
  | hashCode, site => site.name = "hashCode" ∧ site.descriptor = "(L" ++ cls ++ ";)I"
  | toString, site => site.name = "toString" ∧
      site.descriptor = "(L" ++ cls ++ ";)Ljava/lang/String;"

/-- Whether a method has a call site that asks the bootstrap method of records for one of the methods
of a record. -/
def LinkedAs (cls : ClassName) (standard : Standard) (method : Method) : Prop :=
  ∃ site, .invokedynamic site ∈ instructionsOf method ∧ OfRecord site ∧
    site.bootstrap.name = "bootstrap" ∧ standard.Asks cls site

/-- What becomes of an instruction of a constructor: in place of the constructor of records, that of
the root of all classes is called. -/
inductive Retargets : Instruction → Instruction → Prop where
  | record (onInterface : Bool) :
      Retargets (.invokespecial ⟨"java/lang/Record", "<init>", "()V"⟩ onInterface)
        (.invokespecial ⟨"java/lang/Object", "<init>", "()V"⟩ onInterface)
  | other {instruction : Instruction}
      (hother : ∀ onInterface,
        instruction ≠ .invokespecial ⟨"java/lang/Record", "<init>", "()V"⟩ onInterface) :
      Retargets instruction instruction

/-- The code that a method of a record has behind: a body if it is linked, for a constructor its own
code with other calls, and its own code otherwise. -/
inductive Behind (cls : ClassName) (components : List Component) (method : Method) :
    Option Code → Prop where
  | linked {standard : Standard} {pieces : List Piece} (hnames : standard.Names method)
      (hlinked : LinkedAs cls standard method) (hbody : standard.body cls components = .ok pieces) :
      Behind cls components method (some (Code.ofPieces pieces))
  | constructor {code : Code} {instructions : List Labelled} (hname : method.name = "<init>")
      (hcode : method.code = some code)
      (hinstructions : List.Forall₂ (fun entry entry' => entry'.label = entry.label ∧
        Retargets entry.instruction entry'.instruction) code.instructions instructions) :
      Behind cls components method (some { code with instructions := instructions })
  | kept (hname : method.name = "<init>" → method.code = none)
      (hnot : ∀ standard : Standard, standard.Names method → ¬ LinkedAs cls standard method) :
      Behind cls components method method.code

/-- The access that a method of a record has behind: the three methods are public, and all others have
the access that they had. -/
inductive AccessBehind (method : Method) : MethodAccess → Prop where
  | standard {standard : Standard} (hnames : standard.Names method) :
      AccessBehind method
        { method.access with isPrivate := false, isProtected := false, isPublic := true }
  | other (hnot : ∀ standard : Standard, ¬ standard.Names method) :
      AccessBehind method method.access

/-- The methods of records are told by their names. -/
theorem Standard.of_eq_some {method : Method} {standard : Standard} :
    Standard.of? method = some standard ↔ standard.Names method := by
  constructor
  · intro h
    have hfound := List.find?_some h
    simp only [Bool.and_eq_true, decide_eq_true_eq] at hfound
    cases standard <;> exact hfound
  · intro hnames
    cases standard <;> simp [of?, hnames.1, hnames.2, name, descriptor]

/-- Asking whether a method is linked. -/
theorem isLinked_iff {cls : ClassName} {standard : Standard} {method : Method} :
    isLinked cls standard method = true ↔ LinkedAs cls standard method := by
  have hof : ∀ site : CallSite, OfRecord site ↔ site.bootstrap.owner = objectMethods :=
    fun _ => Iff.rfl
  have hasks : ∀ site : CallSite, standard.Asks cls site ↔
      site.name = standard.name ∧ site.descriptor = standard.siteDescriptor cls := fun site => by
    cases standard <;> exact Iff.rfl
  simp [isLinked, LinkedAs, hof, mem_callSites, hasks, and_assoc]

/-- **A call of the constructor of records is retargeted**, and nothing else is. -/
theorem retargets (instruction : Instruction) : Retargets instruction (retarget instruction) := by
  by_cases hcall : ∃ onInterface,
      instruction = .invokespecial ⟨"java/lang/Record", "<init>", "()V"⟩ onInterface
  · obtain ⟨onInterface, rfl⟩ := hcall
    exact .record onInterface
  · have hother : ∀ onInterface,
        instruction ≠ .invokespecial ⟨"java/lang/Record", "<init>", "()V"⟩ onInterface :=
      fun onInterface hsame => hcall ⟨onInterface, hsame⟩
    have hsame : retarget instruction = instruction := by
      unfold retarget
      split
      next target onInterface =>
        refine if_neg fun htarget => hother onInterface ?_
        rw [htarget]
        rfl
      next => rfl
    rw [hsame]
    exact .other hother

/-- **The access and the code of a method of a record behind**, of which nothing else changes. -/
theorem lowerMethod_behind {cls : ClassName} {components : List Component}
    {method method' : Method} (h : lowerMethod cls components method = .ok method') :
    method' = { method with access := method'.access, code := method'.code } ∧
      AccessBehind method method'.access ∧ Behind cls components method method'.code := by
  unfold lowerMethod at h
  by_cases hconstructor : method.name = MethodName.constructor
  · rw [if_pos hconstructor] at h
    obtain rfl := pure_eq_ok.mp h
    have hnot : ∀ standard : Standard, ¬ standard.Names method := by
      intro standard hnames
      cases standard <;> exact absurd (hnames.1.symm.trans hconstructor) (by decide)
    refine ⟨rfl, .other hnot, ?_⟩
    cases hcode : method.code with
    | none =>
        have hkept : Behind cls components method method.code :=
          .kept (fun _ => hcode) fun standard hnames _ => hnot standard hnames
        rwa [hcode] at hkept
    | some code =>
        refine .constructor hconstructor hcode ?_
        rw [List.forall₂_map_right_iff, List.forall₂_same]
        exact fun entry _ => ⟨rfl, retargets entry.instruction⟩
  rw [if_neg hconstructor] at h
  cases hstandard : Standard.of? method with
  | none =>
      rw [hstandard] at h
      obtain rfl := pure_eq_ok.mp h
      have hnot : ∀ standard : Standard, ¬ standard.Names method := by
        intro standard hnames
        rw [Standard.of_eq_some.mpr hnames] at hstandard
        cases hstandard
      exact ⟨rfl, .other hnot, .kept (fun hname => absurd hname hconstructor)
        fun standard hnames _ => hnot standard hnames⟩
  | some standard =>
      have hnames := Standard.of_eq_some.mp hstandard
      rw [hstandard] at h
      dsimp only at h
      split at h
      next hlinked =>
        obtain ⟨body, hbody, h⟩ := bind_eq_ok.mp h
        obtain ⟨pieces, hpieces, hbody⟩ := bind_eq_ok.mp (within_eq_ok.mp hbody)
        obtain rfl := pure_eq_ok.mp h
        obtain rfl := pure_eq_ok.mp hbody
        exact ⟨rfl, .standard hnames, .linked hnames (isLinked_iff.mp hlinked) hpieces⟩
      next hnot =>
        obtain rfl := pure_eq_ok.mp h
        refine ⟨rfl, .standard hnames, .kept (fun hname => absurd hname hconstructor)
          fun other hother hlinked => hnot ?_⟩
        obtain rfl : other = standard :=
          Option.some.inj ((Standard.of_eq_some.mpr hother).symm.trans hstandard)
        exact isLinked_iff.mpr hlinked

/-- The hashes of components of types are added by some instructions. -/
theorem exists_hashRest (cls : ClassName) {components : List Component} {types : List JavaType}
    (h : Types components types) :
    ∃ instructions, hashRest cls components = .ok instructions := by
  induction h with
  | nil => exact ⟨[], rfl⟩
  | cons htype _ ih =>
      obtain ⟨others, hothers⟩ := ih
      exact ⟨_, by rw [hashRest, hashComponent, htype, hothers]; rfl⟩

/-- Components of types are appended by some instructions. -/
theorem exists_appendComponents (cls : ClassName) {components : List Component}
    {types : List JavaType} (h : Types components types) (separator : String) :
    ∃ instructions, appendComponents cls separator components = .ok instructions := by
  induction h generalizing separator with
  | nil => exact ⟨[], rfl⟩
  | cons htype _ ih =>
      obtain ⟨others, hothers⟩ := ih ", "
      exact ⟨_, by rw [appendComponents, htype, hothers]; rfl⟩

/-- **A record with components of types has all three bodies.** -/
theorem exists_body (cls : ClassName) {components : List Component} {types : List JavaType}
    (h : Types components types) (standard : Standard) :
    ∃ pieces, standard.body cls components = .ok pieces := by
  cases standard with
  | equals =>
      obtain ⟨pieces, hpieces, -⟩ := equalsBody_eq cls h
      exact ⟨pieces, hpieces⟩
  | hashCode =>
      cases h with
      | nil => exact ⟨_, rfl⟩
      | cons htype hrest =>
          obtain ⟨others, hothers⟩ := exists_hashRest cls hrest
          exact ⟨_, by rw [Standard.body, hashCodeBody, hashComponent, htype, hothers]; rfl⟩
  | toString =>
      obtain ⟨appended, happended⟩ := exists_appendComponents cls h "["
      exact ⟨_, by rw [Standard.body, toStringBody, happended]; rfl⟩

/-- Every method of a record with components of types can be lowered. -/
theorem exists_lowerMethod (cls : ClassName) {components : List Component} {types : List JavaType}
    (h : Types components types) (method : Method) :
    ∃ method', lowerMethod cls components method = .ok method' := by
  unfold lowerMethod
  split
  next => exact ⟨_, rfl⟩
  next =>
    split
    next => exact ⟨_, rfl⟩
    next standard _ =>
      dsimp only
      split
      next =>
        obtain ⟨pieces, hpieces⟩ := exists_body cls h standard
        exact ⟨_, by rw [linkedBody, hpieces]; rfl⟩
      next => exact ⟨_, rfl⟩

end Methods

/-- **A record with components of types can be lowered**, if it is one. -/
theorem exists_recordToClass {cls : ClassFile} {types : List JavaType}
    (hrecord : cls.isRecord = true) (h : Types (components cls) types) :
    ∃ lowered, Lower.recordToClass cls = .ok lowered := by
  choose lowerWith hlower using exists_lowerMethod cls.name h
  have hmethods : cls.methods.mapM (lowerMethod cls.name (components cls)) =
      .ok (cls.methods.map lowerWith) := by
    rw [mapM_eq_ok_iff, List.forall₂_map_right_iff, List.forall₂_same]
    exact fun method _ => hlower method
  exact ⟨_, by rw [Lower.recordToClass, if_pos hrecord, hmethods]; rfl⟩

/-- **What becomes of a record**: it extends the root of all classes and has no components, and of its
methods the code is as told, method by method. -/
theorem recordToClass_behind {cls : ClassFile} {lowered : Lowered} (hrecord : cls.isRecord = true)
    (h : Lower.recordToClass cls = .ok lowered) :
    lowered.cls = { cls with
        superClass := some "java/lang/Object", recordComponents := none
        methods := lowered.cls.methods } ∧
      List.Forall₂ (fun method method' =>
          method' = { method with access := method'.access, code := method'.code } ∧
          AccessBehind method method'.access ∧
          Behind cls.name (components cls) method method'.code)
        cls.methods lowered.cls.methods := by
  rw [Lower.recordToClass, if_pos hrecord] at h
  obtain ⟨methods, hmethods, hlowered⟩ := bind_eq_ok.mp h
  obtain rfl := pure_eq_ok.mp hlowered
  exact ⟨rfl, (mapM_eq_ok_forall₂ hmethods).imp fun _ _ => lowerMethod_behind⟩

/-- **Lowered records behave like records.**  With components of types there is a body for each of
the three methods.  Called on a record, the first one returns whether the other object is a record
of the same class of which all components are equal, the second one the hash of the components in
order, and the third one the name of the class with the names and values of the components.
A record has the components that it lists or, if it lists none, those that its first call site for
such a method tells of.  If these are of types, lowering succeeds; and it puts these bodies in place
of the code of the methods that are linked, while of all other code only the calls of the constructor
of records in constructors change.  The three methods are public then. -/
theorem behaves_like_record :
    (∀ {V : Type} (around : Surroundings V) (cls : ClassName) (components : List Component)
        (this : Object V) (locals : UInt16 → Option (Value V)),
        components.length ≤ 65534 →
        (∀ component ∈ components, ∃ type, JavaType.parse component.descriptor = .ok type) →
        HoldsTypes around cls components → around.instanceOf this cls = true →
        locals 0 = some (.reference (some this)) →
        (∀ argument, locals 1 = some (.reference argument) →
          ∃ pieces, Standard.equals.body cls components = .ok pieces ∧
            Returns around (Code.ofPieces pieces) locals (.ofBool (argument.any fun other =>
              around.instanceOf other cls && components.all fun component =>
                around.areEqual (boxedContent around cls this component)
                  (boxedContent around cls other component)))) ∧
        (∃ pieces, Standard.hashCode.body cls components = .ok pieces ∧
          Returns around (Code.ofPieces pieces) locals
            (.int (components.foldl (fun total component =>
              total * 31 + around.hash (boxedContent around cls this component)) 0))) ∧
        ∃ pieces, Standard.toString.body cls components = .ok pieces ∧
          Returns around (Code.ofPieces pieces) locals
            (.ofText (shown around cls this components))) ∧
    (∀ cls : ClassFile, ∃ components, HasComponents cls components) ∧
    (∀ (cls : ClassFile) (components : List Component), cls.isRecord = true →
        HasComponents cls components →
        (∀ component ∈ components, ∃ type, JavaType.parse component.descriptor = .ok type) →
        ∃ lowered, Lower.recordToClass cls = .ok lowered) ∧
    (∀ (cls : ClassFile) (components : List Component) (lowered : Lowered), cls.isRecord = true →
        HasComponents cls components → Lower.recordToClass cls = .ok lowered →
        lowered.cls = { cls with
            superClass := some "java/lang/Object", recordComponents := none
            methods := lowered.cls.methods } ∧
          List.Forall₂ (fun method method' =>
              method' = { method with access := method'.access, code := method'.code } ∧
              AccessBehind method method'.access ∧
              Behind cls.name components method method'.code)
            cls.methods lowered.cls.methods) ∧
    ∀ onInterface,
      retarget (.invokespecial ⟨"java/lang/Record", "<init>", "()V"⟩ onInterface) =
        .invokespecial ⟨"java/lang/Object", "<init>", "()V"⟩ onInterface := by
  refine ⟨?_, fun cls => ⟨components cls, hasComponents_iff.mpr rfl⟩, ?_, ?_, fun _ => rfl⟩
  · intro V around cls components this locals hsmall hparse hholds hthis hlocal0
    obtain ⟨types, htypes⟩ := exists_types hparse
    refine ⟨fun argument hlocal1 => ?_, ?_, ?_⟩
    · obtain ⟨pieces, hpieces⟩ := exists_body cls htypes .equals
      exact ⟨pieces, hpieces,
        returns_equals hpieces htypes hholds hsmall hthis hlocal0 hlocal1⟩
    · obtain ⟨pieces, hpieces⟩ := exists_body cls htypes .hashCode
      exact ⟨pieces, hpieces, returns_hashCode hpieces hholds hthis hlocal0⟩
    · obtain ⟨pieces, hpieces⟩ := exists_body cls htypes .toString
      exact ⟨pieces, hpieces, returns_toString hpieces hholds hthis hlocal0⟩
  · intro cls components hrecord hcomponents hparse
    obtain rfl := hasComponents_iff.mp hcomponents
    obtain ⟨types, htypes⟩ := exists_types hparse
    exact exists_recordToClass hrecord htypes
  · intro cls components lowered hrecord hcomponents hlowered
    obtain rfl := hasComponents_iff.mp hcomponents
    exact recordToClass_behind hrecord hlowered

section Example

/-- A program with points, which differ in how far away they are. -/
def points : Surroundings Int64 where
  instanceOf
    | .other _, cls => cls = "a/Point"
    | _, _ => false
  intValue _ := 0
  equals text argument := argument = some (.text text)
  name _ := none
  toText _ := none
  floatText _ := ⟨[]⟩
  doubleText _ := ⟨[]⟩
  constant _ := .reference none
  field
    | .other far, ⟨_, "far", _⟩ => .long far
    | _, ⟨_, "x", _⟩ => .int 3
    | _, _ => .reference none
  box
    | _, .int n => .text (decimal n.toInt)
    | _, .long n => .text (decimal n.toInt)
    | _, _ => .text ⟨[]⟩
  areEqual first second := first = second
  hash
    | some (.text text) => text.units.foldl (fun total unit => total * 31 + unit.toUInt32.toInt32) 0
    | _ => 0
  simpleName _ := JavaString.ofString "Point"

/-- A component of one slot, one of two slots, and a text. -/
def pointComponents : List Component :=
  [⟨"x", "I"⟩, ⟨"far", "J"⟩, ⟨"label", "Ljava/lang/String;"⟩]

/-- The variables of a method of a point with an argument. -/
def pointLocals (argument : Option (Object Int64)) : UInt16 → Option (Value Int64)
  | 0 => some (.reference (some (.other 10)))
  | 1 => some (.reference argument)
  | _ => none

/-- A constructor that calls the one of records. -/
def pointConstructor : Method :=
  Method.ofCode {} "<init>" "()V"
    { instructions := [Instruction.plain (Fragment.aload 0),
        Instruction.plain (.invokespecial ⟨"java/lang/Record", "<init>", "()V"⟩ false),
        Instruction.plain (.op .returnVoid)] }

/-- A method that is linked by the bootstrap method of records, which is told the fields. -/
def linkedHash : Method :=
  Method.ofCode { isPublic := true } "hashCode" "()I"
    { instructions := [Instruction.plain (Fragment.aload 0),
        Instruction.plain (.invokedynamic ⟨"hashCode", "(La/Point;)I",
          .method (.static false) ⟨"java/lang/runtime/ObjectMethods", "bootstrap", "()V"⟩,
          .cls "a/Point" :: pointComponents.map fun component =>
            .handle (.field .getField ⟨"a/Point", component.name, component.descriptor⟩)⟩),
        Instruction.plain (.op .ireturn)] }

/-- The record of the points, which does not list its components. -/
def pointRecord : ClassFile where
  version := ⟨60, 0⟩
  access := { isSuper := true }
  name := "a/Point"
  superClass := some ClassName.javaRecord
  interfaces := []
  methods := [pointConstructor, linkedHash]

/-- The components of the points are those that the linked method tells of. -/
theorem hasComponents_points : HasComponents pointRecord pointComponents := by
  let front : List Instruction := [Fragment.aload 0,
    .invokespecial ⟨"java/lang/Record", "<init>", "()V"⟩ false, .op .returnVoid, Fragment.aload 0]
  refine @HasComponents.told _ _ front _ _ rfl rfl ?_ rfl ?_
  · intro other hmem
    simp [front, Fragment.aload] at hmem
  · exact .other (fun _ hsame => nomatch hsame) (.getter _ (.getter _ (.getter _ .nil)))

/-- The types of the components. -/
theorem types_pointComponents :
    Types pointComponents [.int, .long, .object ClassName.javaString] :=
  .cons rfl (.cons rfl (.cons rfl .nil))

/-- The fields of points hold values of the types of the components. -/
theorem holdsTypes_points : HoldsTypes points "a/Point" pointComponents := by
  intro component hmem type htype object hobject
  cases object with
  | text value | cls name => cases hobject
  | other far =>
      simp only [pointComponents, List.mem_cons, List.not_mem_nil, or_false] at hmem
      rcases hmem with rfl | rfl | rfl
      · obtain rfl : JavaType.int = type := Except.ok.inj htype
        exact ⟨rfl, by simp [content, points], fun h => absurd h (by decide)⟩
      · obtain rfl : JavaType.long = type := Except.ok.inj htype
        exact ⟨rfl, by simp [content, points], fun h => absurd h (by decide)⟩
      · obtain rfl : JavaType.object ClassName.javaString = type := Except.ok.inj htype
        exact ⟨rfl, by simp [content, points], fun _ => .inl rfl⟩

/-- A point equals itself, no point that is farther away, and not nothing; its hash and its text are
made of its components in order; and its record can be lowered, the constructor included. -/
theorem behaves_like_record_points :
    (∃ pieces, Standard.equals.body "a/Point" pointComponents = .ok pieces ∧
      Returns points (Code.ofPieces pieces) (pointLocals (some (.other 10))) (.ofBool true)) ∧
    (∃ pieces, Standard.equals.body "a/Point" pointComponents = .ok pieces ∧
      Returns points (Code.ofPieces pieces) (pointLocals (some (.other 11))) (.ofBool false)) ∧
    (∃ pieces, Standard.equals.body "a/Point" pointComponents = .ok pieces ∧
      Returns points (Code.ofPieces pieces) (pointLocals none) (.ofBool false)) ∧
    (∃ pieces, Standard.hashCode.body "a/Point" pointComponents = .ok pieces ∧
      Returns points (Code.ofPieces pieces) (pointLocals none) (.int 97588)) ∧
    (∃ pieces, Standard.toString.body "a/Point" pointComponents = .ok pieces ∧
      Returns points (Code.ofPieces pieces) (pointLocals none)
        (.ofText (JavaString.ofString "Point[x=3, far=10, label=null]"))) ∧
    ∃ lowered, Lower.recordToClass pointRecord = .ok lowered ∧
      lowered.cls.superClass = some "java/lang/Object" ∧
      List.Forall₂ (fun method method' =>
          method' = { method with access := method'.access, code := method'.code } ∧
          AccessBehind method method'.access ∧
          Behind "a/Point" pointComponents method method'.code)
        [pointConstructor, linkedHash] lowered.cls.methods := by
  have hparse : ∀ component ∈ pointComponents,
      ∃ type, JavaType.parse component.descriptor = .ok type :=
    fun component hmem => (exists_right_of_forall₂ types_pointComponents hmem).imp fun _ h => h.2
  have hrun (argument : Option (Object Int64)) :=
    behaves_like_record.1 points "a/Point" pointComponents (.other 10) (pointLocals argument)
      (by decide) hparse holdsTypes_points rfl rfl
  obtain ⟨lowered, hlowered⟩ :=
    behaves_like_record.2.2.1 pointRecord pointComponents rfl hasComponents_points hparse
  obtain ⟨hcls, hmethods⟩ := behaves_like_record.2.2.2.1 pointRecord pointComponents lowered rfl
    hasComponents_points hlowered
  refine ⟨?_, ?_, ?_, ?_, ?_, lowered, hlowered, ?_, hmethods⟩
  · exact (hrun _).1 _ rfl
  · exact (hrun _).1 _ rfl
  · exact (hrun _).1 _ rfl
  · exact (hrun none).2.1
  · exact (hrun none).2.2
  · rw [hcls]

end Example

end Record

end Downlevel
