import Mathlib.Data.List.Basic
import Downlevel.Symbols.Reference

/-!
# The symbols a class refers to

What a class refers to, said as a relation that follows the parts of a class: its ancestors, its
annotations with the values inside of them, its members, and the instructions of its methods with
the constants they load.  The checks of a class are organised differently, since some of them are
made only if others find nothing.  Yet together they look at exactly the symbols that the class
refers to.

* `Loadable.refersTo_iff`, `ElementValue.refersTo_iff` — constants and annotation values, which
  contain each other;
* `Method.refersTo_iff`, `ClassFile.refersTo_iff` — members and whole classes.
-/

namespace Downlevel

/-- The member behind a handle. -/
inductive Handle.RefersTo : Handle → Reference → Prop where
  | field (use : FieldUse) (target : FieldRef) : RefersTo (.field use target) (.field target)
  | method (use : MethodUse) (target : MethodRef) : RefersTo (.method use target) (.method target)

/-- What a constant refers to.  A dynamic one refers to the classes in its type, to its bootstrap
method, and to whatever the arguments of that refer to. -/
inductive Loadable.RefersTo : Loadable → Reference → Prop where
  | cls (name : ClassName) : RefersTo (.cls name) (.cls name)
  | handle {handle : Handle} {reference : Reference} (h : handle.RefersTo reference) :
      RefersTo (.handle handle) reference
  | methodType (descriptor : MethodDescriptor) :
      RefersTo (.methodType descriptor) (.classesIn descriptor)
  | dynamicType (name : FieldName) (descriptor : FieldDescriptor) (bootstrap : Handle)
      (arguments : List Loadable) :
      RefersTo (.dynamic name descriptor bootstrap arguments) (.classesIn descriptor)
  | bootstrap {name : FieldName} {descriptor : FieldDescriptor} {bootstrap : Handle}
      {arguments : List Loadable} {reference : Reference} (h : bootstrap.RefersTo reference) :
      RefersTo (.dynamic name descriptor bootstrap arguments) reference
  | argument {name : FieldName} {descriptor : FieldDescriptor} {bootstrap : Handle}
      {arguments : List Loadable} {argument : Loadable} {reference : Reference}
      (mem : argument ∈ arguments) (h : RefersTo argument reference) :
      RefersTo (.dynamic name descriptor bootstrap arguments) reference

/-- What an instruction refers to.  The operand of `multianewarray` is an array class, so it is
taken as a type. -/
inductive Instruction.RefersTo : Instruction → Reference → Prop where
  | new (name : ClassName) : RefersTo (.new name) (.cls name)
  | anewarray (name : ClassName) : RefersTo (.anewarray name) (.cls name)
  | checkcast (name : ClassName) : RefersTo (.checkcast name) (.cls name)
  | instanceof (name : ClassName) : RefersTo (.instanceof name) (.cls name)
  | multianewarray (name : ClassName) (dimensions : UInt8) :
      RefersTo (.multianewarray name dimensions) (.type name)
  | field (use : FieldUse) (target : FieldRef) : RefersTo (.field use target) (.field target)
  | invokevirtual (target : MethodRef) : RefersTo (.invokevirtual target) (.method target)
  | invokespecial (target : MethodRef) (onInterface : Bool) :
      RefersTo (.invokespecial target onInterface) (.method target)
  | invokestatic (target : MethodRef) (onInterface : Bool) :
      RefersTo (.invokestatic target onInterface) (.method target)
  | invokeinterface (target : MethodRef) : RefersTo (.invokeinterface target) (.method target)
  | bootstrap {site : CallSite} {reference : Reference} (h : site.bootstrap.RefersTo reference) :
      RefersTo (.invokedynamic site) reference
  | argument {site : CallSite} {argument : Loadable} {reference : Reference}
      (mem : argument ∈ site.arguments) (h : argument.RefersTo reference) :
      RefersTo (.invokedynamic site) reference
  | ldc {value : Loadable} {reference : Reference} (h : value.RefersTo reference) :
      RefersTo (.ldc value) reference

/-- What a value in an annotation refers to: the types of enumerations and of annotations. -/
inductive ElementValue.RefersTo : ElementValue → Reference → Prop where
  | constant (type : FieldDescriptor) (name : String) : RefersTo (.constant type name) (.type type)
  | nestedType (type : FieldDescriptor) (values : List (String × ElementValue)) :
      RefersTo (.nested type values) (.type type)
  | nestedValue {type : FieldDescriptor} {values : List (String × ElementValue)} {name : String}
      {value : ElementValue} {reference : Reference} (mem : (name, value) ∈ values)
      (h : RefersTo value reference) : RefersTo (.nested type values) reference
  | item {values : List ElementValue} {value : ElementValue} {reference : Reference}
      (mem : value ∈ values) (h : RefersTo value reference) : RefersTo (.array values) reference

/-- What an annotation refers to. -/
inductive Annot.RefersTo (annot : Annot) : Reference → Prop where
  | type : RefersTo annot (.type annot.type)
  | value {name : String} {value : ElementValue} {reference : Reference}
      (mem : (name, value) ∈ annot.values) (h : value.RefersTo reference) : RefersTo annot reference

/-- What the annotations of a declaration refer to. -/
inductive Annots.RefersTo (annots : Annots) (reference : Reference) : Prop where
  | visible {annot : Annot} (mem : annot ∈ annots.visible) (h : annot.RefersTo reference)
  | invisible {annot : Annot} (mem : annot ∈ annots.invisible) (h : annot.RefersTo reference)
  | visibleType {annot : TypeAnnot} (mem : annot ∈ annots.visibleTypes)
      (h : annot.body.RefersTo reference)
  | invisibleType {annot : TypeAnnot} (mem : annot ∈ annots.invisibleTypes)
      (h : annot.body.RefersTo reference)

/-- What a field refers to. -/
inductive Field.RefersTo (field : Field) : Reference → Prop where
  | type : RefersTo field (.type field.descriptor)
  | annots {reference : Reference} (h : field.annots.RefersTo reference) : RefersTo field reference

/-- What code refers to: by its instructions, the exceptions it catches, and the types of its local
variables. -/
inductive Code.RefersTo (code : Code) : Reference → Prop where
  | instruction {entry : Labelled} {reference : Reference} (mem : entry ∈ code.instructions)
      (h : entry.instruction.RefersTo reference) : RefersTo code reference
  | caught {range : ExceptionRange} {name : ClassName} (mem : range ∈ code.exceptions)
      (named : range.caught = some name) : RefersTo code (.cls name)
  | localVariable {locals : List LocalVariable} {entry : LocalVariable}
      {descriptor : FieldDescriptor} (given : code.localVariables = some locals)
      (mem : entry ∈ locals) (typed : entry.descriptor = some descriptor) :
      RefersTo code (.type descriptor)

/-- What a method refers to. -/
inductive Method.RefersTo (method : Method) : Reference → Prop where
  | type : RefersTo method (.classesIn method.descriptor)
  | exception {names : List ClassName} {name : ClassName} (given : method.exceptions = some names)
      (mem : name ∈ names) : RefersTo method (.cls name)
  | annots {reference : Reference} (h : method.annots.RefersTo reference) : RefersTo method reference
  | visibleParameter {parameters : List (List Annot)} {annots : List Annot} {annot : Annot}
      {reference : Reference} (given : method.visibleParameterAnnots = some parameters)
      (parameter : annots ∈ parameters) (mem : annot ∈ annots) (h : annot.RefersTo reference) :
      RefersTo method reference
  | invisibleParameter {parameters : List (List Annot)} {annots : List Annot} {annot : Annot}
      {reference : Reference} (given : method.invisibleParameterAnnots = some parameters)
      (parameter : annots ∈ parameters) (mem : annot ∈ annots) (h : annot.RefersTo reference) :
      RefersTo method reference
  | default {value : ElementValue} {reference : Reference} (given : method.defaultValue = some value)
      (h : value.RefersTo reference) : RefersTo method reference
  | code {code : Code} {reference : Reference} (given : method.code = some code)
      (h : code.RefersTo reference) : RefersTo method reference

/-- What a class refers to. -/
inductive ClassFile.RefersTo (cls : ClassFile) : Reference → Prop where
  | superClass {name : ClassName} (given : cls.superClass = some name) : RefersTo cls (.cls name)
  | interface {name : ClassName} (mem : name ∈ cls.interfaces) : RefersTo cls (.cls name)
  | permitted {names : List ClassName} {name : ClassName}
      (given : cls.permittedSubclasses = some names) (mem : name ∈ names) :
      RefersTo cls (.cls name)
  | annots {reference : Reference} (h : cls.annots.RefersTo reference) : RefersTo cls reference
  | field {field : Field} {reference : Reference} (mem : field ∈ cls.fields)
      (h : field.RefersTo reference) : RefersTo cls reference
  | method {method : Method} {reference : Reference} (mem : method ∈ cls.methods)
      (h : method.RefersTo reference) : RefersTo cls reference

/-- What is in a list that may be left out is in the list that is given. -/
theorem mem_getD_nil {α : Type} {items : Option (List α)} {item : α} :
    item ∈ items.getD [] ↔ ∃ given, items = some given ∧ item ∈ given := by
  cases items <;> simp

namespace Check

/-- A single check looks at its symbol. -/
theorem mem_references_single {reference other : Reference} :
    reference ∈ (single other).references ↔ reference = other := by
  simp [references]

/-- Some checks look at a symbol if one of them does. -/
theorem mem_referencesIn {checks : List Check} {reference : Reference} :
    reference ∈ referencesIn checks ↔ ∃ check ∈ checks, reference ∈ check.references := by
  induction checks with
  | nil => simp [referencesIn]
  | cons check rest ih => simp [referencesIn, ih]

/-- Checks behind others look at what both look at. -/
theorem mem_referencesIn_append {first second : List Check} {reference : Reference} :
    reference ∈ referencesIn (first ++ second) ↔
      reference ∈ referencesIn first ∨ reference ∈ referencesIn second := by
  simp [mem_referencesIn, or_and_right, exists_or]

/-- Checks that are made for some items look at what the check of each item looks at. -/
theorem mem_referencesIn_map {α : Type} {items : List α} {check : α → Check}
    {reference : Reference} :
    reference ∈ referencesIn (items.map check) ↔
      ∃ item ∈ items, reference ∈ (check item).references := by
  simp [mem_referencesIn]

end Check

/-- The check of a handle looks at the member behind it. -/
theorem Handle.refersTo_iff {handle : Handle} {reference : Reference} :
    handle.RefersTo reference ↔ reference = Check.ofHandle handle := by
  constructor
  · rintro (⟨use, target⟩ | ⟨use, target⟩) <;> rfl
  · rintro rfl
    cases handle with
    | field use target => exact .field use target
    | method use target => exact .method use target

mutual

/-- The check of a constant looks at exactly what the constant refers to. -/
theorem Loadable.refersTo_iff (value : Loadable) (reference : Reference) :
    value.RefersTo reference ↔
      ∃ check, Check.ofLoadable value = some check ∧ reference ∈ check.references := by
  cases value with
  | dynamic name descriptor bootstrap arguments =>
      have harguments := Loadable.refersTo_iff_list arguments reference
      simp only [Check.ofLoadable, Option.some.injEq, exists_eq_left', Check.references,
        Check.referencesIn, List.mem_append, List.mem_singleton, ← harguments]
      constructor
      · intro h
        cases h with
        | dynamicType => exact .inl rfl
        | bootstrap h => exact .inr (.inl (Handle.refersTo_iff.mp h))
        | argument mem h => exact .inr (.inr ⟨_, mem, h⟩)
      · rintro (rfl | hbootstrap | ⟨argument, mem, h⟩)
        · exact .dynamicType ..
        · exact .bootstrap (Handle.refersTo_iff.mpr hbootstrap)
        · exact .argument mem h
  | cls name =>
      simp only [Check.ofLoadable, Option.some.injEq, exists_eq_left', Check.references,
        List.mem_singleton]
      exact ⟨fun | .cls _ => rfl, fun h => h ▸ .cls name⟩
  | handle handle =>
      simp only [Check.ofLoadable, Option.some.injEq, exists_eq_left', Check.references,
        List.mem_singleton, ← Handle.refersTo_iff]
      exact ⟨fun | .handle h => h, .handle⟩
  | methodType descriptor =>
      simp only [Check.ofLoadable, Option.some.injEq, exists_eq_left', Check.references,
        List.mem_singleton]
      exact ⟨fun | .methodType _ => rfl, fun h => h ▸ .methodType descriptor⟩
  | _ =>
      simp only [Check.ofLoadable, reduceCtorEq, false_and, exists_false, iff_false]
      rintro ⟨⟩

/-- The checks of constants look at exactly what the constants refer to. -/
theorem Loadable.refersTo_iff_list (values : List Loadable) (reference : Reference) :
    (∃ value ∈ values, value.RefersTo reference) ↔
      reference ∈ Check.referencesIn (Check.ofLoadables values) := by
  cases values with
  | nil => simp [Check.ofLoadables, Check.referencesIn]
  | cons value rest =>
      have hvalue := Loadable.refersTo_iff value reference
      have hrest := Loadable.refersTo_iff_list rest reference
      rw [List.exists_mem_cons_iff, hvalue, hrest]
      rw [Check.ofLoadables]
      cases Check.ofLoadable value <;> simp [Check.referencesIn]

end

/-- The check of an instruction looks at exactly what the instruction refers to. -/
theorem Instruction.refersTo_iff {instruction : Instruction} {reference : Reference} :
    instruction.RefersTo reference ↔
      ∃ check, Check.ofInstruction instruction = some check ∧ reference ∈ check.references := by
  cases instruction with
  | invokedynamic site =>
      simp only [Check.ofInstruction, Option.some.injEq, exists_eq_left', Check.references,
        List.mem_cons, ← Loadable.refersTo_iff_list, ← Handle.refersTo_iff]
      constructor
      · intro h
        cases h with
        | bootstrap h => exact .inl h
        | argument mem h => exact .inr ⟨_, mem, h⟩
      · rintro (h | ⟨argument, mem, h⟩)
        · exact .bootstrap h
        · exact .argument mem h
  | ldc value =>
      simp only [Check.ofInstruction, ← Loadable.refersTo_iff]
      exact ⟨fun | .ldc h => h, .ldc⟩
  | new | anewarray | checkcast | instanceof | multianewarray | field | invokevirtual
  | invokespecial | invokestatic | invokeinterface =>
      simp only [Check.ofInstruction, Option.some.injEq, exists_eq_left', Check.references,
        List.mem_singleton]
      constructor
      · rintro ⟨⟩
        rfl
      · rintro rfl
        constructor
  | _ =>
      simp only [Check.ofInstruction, reduceCtorEq, false_and, exists_false, iff_false]
      rintro ⟨⟩

mutual

/-- The checks of a value in an annotation look at exactly what the value refers to. -/
theorem ElementValue.refersTo_iff (value : ElementValue) (reference : Reference) :
    value.RefersTo reference ↔ reference ∈ Check.referencesIn (Check.ofElement value) := by
  cases value with
  | constant type name =>
      simp only [Check.ofElement, Check.referencesIn, Check.references, List.append_nil,
        List.mem_singleton]
      exact ⟨fun | .constant _ _ => rfl, fun h => h ▸ .constant type name⟩
  | nested type values =>
      simp only [Check.ofElement, Check.referencesIn, Check.references, List.append_nil,
        List.mem_cons, ← ElementValue.refersTo_iff_named values reference]
      constructor
      · intro h
        cases h with
        | nestedType => exact .inl rfl
        | nestedValue mem h => exact .inr ⟨_, _, mem, h⟩
      · rintro (rfl | ⟨name, value, mem, h⟩)
        · exact .nestedType type values
        · exact .nestedValue mem h
  | array values =>
      simp only [Check.ofElement, ← ElementValue.refersTo_iff_list values reference]
      exact ⟨fun | .item mem h => ⟨_, mem, h⟩, fun ⟨_, mem, h⟩ => .item mem h⟩
  | _ =>
      simp only [Check.ofElement, Check.referencesIn, List.not_mem_nil, iff_false]
      rintro ⟨⟩

/-- The checks of values in an annotation look at exactly what the values refer to. -/
theorem ElementValue.refersTo_iff_list (values : List ElementValue) (reference : Reference) :
    (∃ value ∈ values, value.RefersTo reference) ↔
      reference ∈ Check.referencesIn (Check.ofElements values) := by
  cases values with
  | nil => simp [Check.ofElements, Check.referencesIn]
  | cons value rest =>
      simp only [List.exists_mem_cons_iff, Check.ofElements, Check.mem_referencesIn_append,
        ElementValue.refersTo_iff value reference, ElementValue.refersTo_iff_list rest reference]

/-- The checks of the named values of an annotation look at exactly what the values refer to. -/
theorem ElementValue.refersTo_iff_named (values : List (String × ElementValue))
    (reference : Reference) :
    (∃ name value, (name, value) ∈ values ∧ value.RefersTo reference) ↔
      reference ∈ Check.referencesIn (Check.ofNamedElements values) := by
  cases values with
  | nil => simp [Check.ofNamedElements, Check.referencesIn]
  | cons entry rest =>
      obtain ⟨name, value⟩ := entry
      have hrest := ElementValue.refersTo_iff_named rest reference
      rw [Check.ofNamedElements, Check.mem_referencesIn_append, ← hrest,
        ← ElementValue.refersTo_iff value reference]
      constructor
      · rintro ⟨other, found, mem, h⟩
        rcases List.mem_cons.mp mem with heq | hlater
        · cases heq
          exact .inl h
        · exact .inr ⟨other, found, hlater, h⟩
      · rintro (h | ⟨other, found, mem, h⟩)
        · exact ⟨name, value, List.mem_cons_self, h⟩
        · exact ⟨other, found, List.mem_cons_of_mem _ mem, h⟩

end

/-- The check of an annotation looks at exactly what the annotation refers to. -/
theorem Annot.refersTo_iff {annot : Annot} {reference : Reference} :
    annot.RefersTo reference ↔ reference ∈ (Check.ofAnnot annot).references := by
  simp only [Check.ofAnnot, Check.references, List.mem_cons,
    ← ElementValue.refersTo_iff_named annot.values reference]
  constructor
  · intro h
    cases h with
    | type => exact .inl rfl
    | value mem h => exact .inr ⟨_, _, mem, h⟩
  · rintro (rfl | ⟨name, value, mem, h⟩)
    · exact .type
    · exact .value mem h

/-- The checks of the annotations of a declaration look at exactly what they refer to. -/
theorem Annots.refersTo_iff {annots : Annots} {reference : Reference} :
    annots.RefersTo reference ↔ reference ∈ Check.referencesIn (Check.ofAnnots annots) := by
  simp only [Check.ofAnnots, Check.mem_referencesIn_append, Check.mem_referencesIn_map,
    List.mem_append, or_and_right, exists_or, ← Annot.refersTo_iff]
  constructor
  · intro h
    cases h with
    | visible mem h => exact .inl (.inl ⟨_, mem, h⟩)
    | invisible mem h => exact .inl (.inr ⟨_, mem, h⟩)
    | visibleType mem h => exact .inr (.inl ⟨_, mem, h⟩)
    | invisibleType mem h => exact .inr (.inr ⟨_, mem, h⟩)
  · rintro ((⟨_, mem, h⟩ | ⟨_, mem, h⟩) | (⟨_, mem, h⟩ | ⟨_, mem, h⟩))
    · exact .visible mem h
    · exact .invisible mem h
    · exact .visibleType mem h
    · exact .invisibleType mem h

/-- The check of a field looks at exactly what the field refers to. -/
theorem Field.refersTo_iff {field : Field} {reference : Reference} :
    field.RefersTo reference ↔ reference ∈ (Check.ofField field).references := by
  simp only [Check.ofField, Check.references, List.mem_cons, ← Annots.refersTo_iff]
  constructor
  · intro h
    cases h with
    | type => exact .inl rfl
    | annots h => exact .inr h
  · rintro (rfl | h)
    · exact .type
    · exact .annots h

/-- The checks of code look at exactly what the code refers to. -/
theorem Code.refersTo_iff {method : Method} {code : Code} {reference : Reference} :
    code.RefersTo reference ↔ reference ∈ Check.referencesIn (Check.ofCode method code) := by
  simp only [Check.ofCode, Check.mem_referencesIn, List.mem_append, List.mem_filterMap,
    Option.map_eq_some_iff, or_and_right, exists_or]
  constructor
  · intro h
    cases h with
    | instruction mem h =>
        obtain ⟨check, hcheck, hlooks⟩ := Instruction.refersTo_iff.mp h
        exact .inl (.inl ⟨_, ⟨_, mem, check, hcheck, rfl⟩, hlooks⟩)
    | caught mem named =>
        exact .inl (.inr ⟨_, ⟨_, mem, _, named, rfl⟩, Check.mem_references_single.mpr rfl⟩)
    | localVariable given mem typed =>
        refine .inr ⟨_, ⟨_, ?_, _, typed, rfl⟩, Check.mem_references_single.mpr rfl⟩
        exact mem_getD_nil.mpr ⟨_, given, mem⟩
  · rintro ((⟨_, ⟨entry, mem, check, hcheck, rfl⟩, hlooks⟩ |
        ⟨_, ⟨range, mem, name, named, rfl⟩, hlooks⟩) |
      ⟨_, ⟨entry, mem, descriptor, typed, rfl⟩, hlooks⟩)
    · exact .instruction mem (Instruction.refersTo_iff.mpr ⟨check, hcheck, hlooks⟩)
    · obtain rfl := Check.mem_references_single.mp hlooks
      exact .caught mem named
    · obtain rfl := Check.mem_references_single.mp hlooks
      obtain ⟨locals, given, hmem⟩ := mem_getD_nil.mp mem
      exact .localVariable given hmem typed

/-- The check of a method looks at exactly what the method refers to. -/
theorem Method.refersTo_iff {method : Method} {reference : Reference} :
    method.RefersTo reference ↔ reference ∈ (Check.ofMethod method).references := by
  rw [Check.ofMethod, Check.references, List.mem_cons]
  simp only [Check.mem_referencesIn_append, Check.mem_referencesIn_map,
    Check.mem_references_single, ← Annots.refersTo_iff, ← Annot.refersTo_iff, List.mem_flatten,
    List.mem_append]
  constructor
  · intro h
    cases h with
    | type => exact .inl rfl
    | exception given mem =>
        exact .inr (.inl (.inl (.inl (.inl ⟨_, mem_getD_nil.mpr ⟨_, given, mem⟩, rfl⟩))))
    | annots h => exact .inr (.inl (.inl (.inl (.inr h))))
    | visibleParameter given parameter mem h =>
        have hparameter := mem_getD_nil.mpr ⟨_, given, parameter⟩
        exact .inr (.inl (.inl (.inr ⟨_, ⟨_, .inl hparameter, mem⟩, h⟩)))
    | invisibleParameter given parameter mem h =>
        have hparameter := mem_getD_nil.mpr ⟨_, given, parameter⟩
        exact .inr (.inl (.inl (.inr ⟨_, ⟨_, .inr hparameter, mem⟩, h⟩)))
    | default given h =>
        refine .inr (.inl (.inr ?_))
        rw [given]
        exact (ElementValue.refersTo_iff _ _).mp h
    | code given h =>
        refine .inr (.inr ?_)
        rw [given]
        exact Code.refersTo_iff.mp h
  · rintro (rfl | (((⟨name, mem, rfl⟩ | h) | ⟨annot, ⟨annots, parameter, mem⟩, h⟩) | h) | h)
    · exact .type
    · obtain ⟨names, given, hmem⟩ := mem_getD_nil.mp mem
      exact .exception given hmem
    · exact .annots h
    · rcases parameter with hvisible | hinvisible
      · obtain ⟨parameters, given, hmem⟩ := mem_getD_nil.mp hvisible
        exact .visibleParameter given hmem mem h
      · obtain ⟨parameters, given, hmem⟩ := mem_getD_nil.mp hinvisible
        exact .invisibleParameter given hmem mem h
    · cases given : method.defaultValue with
      | none => simp [given, Check.referencesIn] at h
      | some value =>
          rw [given] at h
          exact .default given ((ElementValue.refersTo_iff _ _).mpr h)
    · cases given : method.code with
      | none => simp [given, Check.referencesIn] at h
      | some code =>
          rw [given] at h
          exact .code given (Code.refersTo_iff.mpr h)

/-- **The checks of a class look at exactly what the class refers to.** -/
theorem ClassFile.refersTo_iff {cls : ClassFile} {reference : Reference} :
    cls.RefersTo reference ↔ reference ∈ Check.referencesIn cls.checks := by
  simp only [checks, Check.mem_referencesIn_append, Check.mem_referencesIn_map,
    Check.mem_references_single, List.mem_append, ← Annots.refersTo_iff, ← Field.refersTo_iff,
    ← Method.refersTo_iff]
  constructor
  · intro h
    cases h with
    | superClass given =>
        exact .inl (.inl (.inl ⟨_, .inl (.inl (by simpa using given)), rfl⟩))
    | interface mem => exact .inl (.inl (.inl ⟨_, .inl (.inr mem), rfl⟩))
    | permitted given mem =>
        exact .inl (.inl (.inl ⟨_, .inr (mem_getD_nil.mpr ⟨_, given, mem⟩), rfl⟩))
    | annots h => exact .inl (.inl (.inr h))
    | field mem h => exact .inl (.inr ⟨_, mem, h⟩)
    | method mem h => exact .inr ⟨_, mem, h⟩
  · rintro (((⟨name, (hsuper | hinterface) | hpermitted, rfl⟩ | h) | ⟨field, mem, h⟩) |
      ⟨method, mem, h⟩)
    · exact .superClass (by simpa using hsuper)
    · exact .interface hinterface
    · obtain ⟨names, given, mem⟩ := mem_getD_nil.mp hpermitted
      exact .permitted given mem
    · exact .annots h
    · exact .field mem h
    · exact .method mem h

end Downlevel
