import Downlevel.Frame.Analysis
import Downlevel.Proofs.Descriptor
import Downlevel.Proofs.FrameShape
import Downlevel.Proofs.Renaming.Frames

/-!
# Which classes frames are about

The types in the frames of a method come from the method itself, or arise from such types where frames
are merged, and where arrays are taken apart.  So if a property holds of all classes that the method
meets by itself, and of the common super class of any two classes that it holds of, it holds of all
classes that the frames are about.

* `VType.IsAbout`, `Method.Brings` — the class that a type is about, and the types that come from a
  method itself;
* `Frame.mergeType_ensures` — what comes of merging two types;
* `Frame.analyze_ensures` — what an analysis finds.
-/

namespace Downlevel

open Frame (elementClass? length_elementClass?)

/-- The class that a class name, given by its characters, is about: of an array class the class of
what the arrays hold in the end, unless those are primitive values. -/
def baseClass? (name : List Char) : Option ClassName :=
  match name with
  | '[' :: element =>
      match _h : elementClass? element with
      | some inner => baseClass? inner
      | none => none
  | name => some (String.ofList name)
termination_by name.length
decreasing_by
  have := length_elementClass? _h
  simp
  omega

/-- An array of elements of a class is about what that class is about. -/
theorem baseClass?_array {element inner : List Char} (h : elementClass? element = some inner) :
    baseClass? ('[' :: element) = baseClass? inner := by
  rw [baseClass?]
  split
  next found hfound =>
    rw [h] at hfound
    cases hfound
    rfl
  next hnone =>
    rw [h] at hnone
    cases hnone

/-- An array of primitive values is about no class. -/
theorem baseClass?_primitive {element : List Char} (h : elementClass? element = none) :
    baseClass? ('[' :: element) = none := by
  rw [baseClass?]
  split
  next found hfound =>
    rw [h] at hfound
    cases hfound
  next => rfl

/-- A name that does not begin as those of array classes do is the name of none. -/
theorem isArray_ofList {name : List Char} (h : ∀ element, name ≠ '[' :: element) :
    ClassName.isArray (String.ofList name) = false := by
  unfold ClassName.isArray Text.beginsWith
  cases name with
  | nil => rfl
  | cons first rest =>
      have hne : first ≠ '[' := fun heq => h rest (heq ▸ rfl)
      simp [hne]

/-- A class that is no array class is about itself. -/
theorem baseClass?_plain {name : List Char} (h : ∀ element, name ≠ '[' :: element) :
    baseClass? name = some (String.ofList name) := by
  unfold baseClass?
  split
  next element => exact absurd rfl (h element)
  next => rfl

/-- An array class is about what the class of its elements is about. -/
theorem baseClass?_arrayOf (name : ClassName) :
    baseClass? (ClassName.arrayOf name).toList = baseClass? name.toList := by
  unfold ClassName.arrayOf
  split
  next harray =>
    obtain ⟨rest, hrest⟩ : ∃ rest, name.toList = '[' :: rest := Text.beginsWith_iff.mp harray
    have hclass : ("[" ++ name).toList = '[' :: name.toList := by simp
    rw [hclass]
    exact baseClass?_array (by simp [hrest, elementClass?])
  next =>
    have hclass : ("[L" ++ name ++ ";").toList = '[' :: 'L' :: (name.toList ++ [';']) := by simp
    rw [hclass]
    exact baseClass?_array (by simp [elementClass?])

/-- Arrays are about what their elements are about, if those are objects. -/
theorem baseClass?_of_element {element : List Char} {type : JavaType} {name : ClassName}
    (hparse : JavaType.parse (String.ofList element) = .ok type)
    (hname : VType.ofType type = .object name) :
    baseClass? ('[' :: element) = baseClass? name.toList := by
  have hwrite : type.write.toList = element := by
    rw [JavaType.write_of_parse hparse, String.toList_ofList]
  obtain ⟨dimensions, base⟩ := type
  cases dimensions with
  | succ dimensions =>
      have hsame : name.toList = element := by
        cases hname
        exact hwrite
      have harray : element = '[' :: (JavaType.write ⟨dimensions, base⟩).toList := by
        rw [← hwrite]
        simp [JavaType.write, List.replicate_succ]
      rw [hsame]
      exact baseClass?_array (by simp [harray, elementClass?])
  | zero =>
      cases base with
      | object found =>
          cases hname
          have hclass : element = 'L' :: (name.toList ++ [';']) := by
            rw [← hwrite]
            simp [JavaType.write, BaseType.write]
          exact baseClass?_array (by simp [hclass, elementClass?])
      | _ => cases hname

/-! ## Types -/

/-- A type is about a class: it is that class, or arrays of it. -/
def VType.IsAbout (type : VType) (base : ClassName) : Prop :=
  ∃ name, type = .object name ∧ baseClass? name.toList = some base

/-- The class that a type is about, if there is one, has a property. -/
def VType.Within (P : ClassName → Prop) (type : VType) : Prop :=
  ∀ base, type.IsAbout base → P base

/-- The types that come from a method itself, with the code and the class that it has: of the
receiver and the parameters, of the exceptions that it catches, and those that its instructions
give. -/
inductive Method.Brings (cls : ClassName) (method : Method) (code : Code) : VType → Prop where
  | receiver : Brings cls method code (.object cls)
  | parameter {type : MethodType} {parameter : JavaType}
      (h : MethodType.parse method.descriptor = .ok type) (mem : parameter ∈ type.parameters) :
      Brings cls method code (.ofType parameter)
  | caught {range : ExceptionRange} (mem : range ∈ code.exceptions) :
      Brings cls method code (.object (range.caught.getD ClassName.javaThrowable))
  | instruction {entry : Labelled} {type : VType} (mem : entry ∈ code.instructions)
      (h : entry.instruction.Brings type) : Brings cls method code type

/-- The class that each type in a frame is about, if there is one, has a property. -/
structure Frame.Within (P : ClassName → Prop) (frame : Frame) : Prop where
  locals : ∀ type ∈ frame.locals, type.Within P
  stack : ∀ type ∈ frame.stack, type.Within P

section Types

variable {P : ClassName → Prop}

/-- A type that is no class is about nothing. -/
theorem VType.within_of_ne {type : VType} (h : ∀ name, type ≠ .object name) : type.Within P := by
  intro base habout
  obtain ⟨name, rfl, -⟩ := habout
  exact absurd rfl (h name)

/-- An unusable value is about nothing. -/
theorem VType.within_top : VType.top.Within P :=
  within_of_ne (by simp)

/-- A class type is about what its name is about. -/
theorem VType.within_object {name : ClassName} :
    (VType.object name).Within P ↔ ∀ base, baseClass? name.toList = some base → P base := by
  constructor
  · intro h base hbase
    exact h base ⟨name, rfl, hbase⟩
  · rintro h base ⟨_, hname, hbase⟩
    cases hname
    exact h base hbase

/-- The elements of an array are about what the array is about. -/
theorem Frame.elementType_within {array element : VType} (h : array.Within P)
    (helement : elementType array = .ok element) : element.Within P := by
  unfold elementType at helement
  split at helement
  next name =>
    split at helement
    next rest hname =>
      obtain ⟨type, hparse, htype⟩ := bind_eq_ok.mp helement
      cases pure_eq_ok.mp htype
      rintro base ⟨found, hfound, hbase⟩
      refine VType.within_object.mp h base ?_
      rw [hname, baseClass?_of_element hparse hfound, hbase]
    next => cases helement
  next =>
    cases helement
    exact VType.within_of_ne (by simp)
  next => cases helement

/-- Arrays of primitive values are about nothing. -/
theorem VType.within_arrayClass (element : Primitive) : (VType.object element.arrayClass).Within P := by
  rw [within_object]
  intro base hbase
  have hnone : baseClass? element.arrayClass.toList = none := by
    cases element <;> exact baseClass?_primitive rfl
  rw [hnone] at hbase
  cases hbase

/-- Whether a type is about classes with a property does not depend on a method. -/
theorem VType.natural_within : VType.Natural (VType.Within P) where
  plain _ h := within_of_ne h.1
  primitives := within_arrayClass
  element := Frame.elementType_within

end Types

/-! ## Merging -/

/-- While an invariant of the state holds, two different classes with a property have a common super
class that is about classes with the property, and finding it keeps the invariant. -/
def SuperClasses.Closed {σ : Type} (supers : SuperClasses σ) (I : σ → Prop) (P : ClassName → Prop) :
    Prop :=
  ∀ a b, a ≠ b → P a → P b →
    Task.Ensures I (supers.common a b) fun common => (VType.object common).Within P

namespace Frame

open Downlevel.Task

section Merging

variable {σ : Type} {supers : SuperClasses σ} {I : σ → Prop} {P : ClassName → Prop}
  (hclosed : supers.Closed I P) (hobject : (VType.object ClassName.javaObject).Within P)

include hclosed hobject

/-- The class that covers two classes is about classes with the property. -/
theorem mergeNames_ensures (a b : List Char) (ha : ∀ base, baseClass? a = some base → P base)
    (hb : ∀ base, baseClass? b = some base → P base) :
    Ensures I (mergeNames supers a b) fun name => (VType.object name).Within P := by
  fun_induction mergeNames supers a b with
  | case1 a =>
      refine ensures_pure (VType.within_object.mpr ?_)
      rwa [String.toList_ofList]
  | case2 elementA elementB nameA nameB hA hB _ ih =>
      rw [baseClass?_array hA] at ha
      rw [baseClass?_array hB] at hb
      refine (ih ha hb).bind fun name hname => ensures_pure ?_
      rw [VType.within_object, baseClass?_arrayOf]
      exact VType.within_object.mp hname
  | case3 => exact ensures_pure hobject
  | case4 => exact ensures_pure hobject
  | case5 => exact ensures_pure hobject
  | case6 a b hne haPlain hbPlain =>
      refine hclosed _ _ (fun heq => hne ?_) (ha _ (baseClass?_plain haPlain))
        (hb _ (baseClass?_plain hbPlain))
      simpa using congrArg String.toList heq

/-- The type that covers two types is about classes with the property. -/
theorem mergeType_ensures {a b : VType} (ha : a.Within P) (hb : b.Within P) :
    Ensures I (mergeType supers a b) (VType.Within P) := by
  unfold mergeType
  split
  next => exact ensures_pure ha
  next =>
    split
    next => exact ensures_pure hb
    next => exact ensures_pure ha
    next nameA nameB =>
      rw [VType.within_object] at ha hb
      exact (mergeNames_ensures hclosed hobject _ _ ha hb).bind fun name hname => ensures_pure hname
    next => exact ensures_pure VType.within_top

end Merging

/-! ## The analysis -/

section Analysis

variable {P : ClassName → Prop} {cls : ClassName} {method : Method} {code : Code}

/-- The handlers of code catch what its exception table says. -/
theorem caught_of_handlersOf {places : Std.HashMap Label Nat} {exceptions : List ExceptionRange}
    {handlers : List Handler} (h : handlersOf places exceptions = .ok handlers) :
    ∀ handler ∈ handlers, ∃ range ∈ exceptions,
      handler.caught = .object (range.caught.getD ClassName.javaThrowable) := by
  intro handler hmem
  obtain ⟨range, hrange, hrun⟩ := exists_left_of_forall₂ (mapM_eq_ok_forall₂ h) hmem
  obtain ⟨start, -, hrun⟩ := bind_eq_ok.mp hrun
  obtain ⟨stop, -, hrun⟩ := bind_eq_ok.mp hrun
  obtain ⟨place, -, hrun⟩ := bind_eq_ok.mp hrun
  cases pure_eq_ok.mp hrun
  exact ⟨range, hrange, rfl⟩

variable {σ : Type} {supers : SuperClasses σ} {I : σ → Prop}

/-- **An analysis finds frames that are about classes with a property only**, if the types that come
from the method have it, and if common super classes of such classes have it. -/
theorem analyze_ensures (hclosed : supers.Closed I P)
    (hobject : (VType.object ClassName.javaObject).Within P)
    (hbrings : ∀ type, method.Brings cls code type → type.Within P) (maxLocals : UInt16) :
    Ensures I (analyze supers cls method code maxLocals) fun found =>
      ∀ frame, some frame ∈ found.frames → frame.Within P := by
  refine (analyze_formed (P := fun _ => True)
    (fun a b ha hb => mergeType_ensures hclosed hobject ha hb) VType.natural_within trivial
    (fun type parameter htype hmem => hbrings _ (.parameter htype hmem))
    (fun handlers hrun => ?_) maxLocals).mono fun found hformed frame hmem => ?_
  · refine {
      cls := hbrings _ .receiver
      code := fun instruction hmem type hbrought => ?_
      creates := fun index name _ _ => VType.within_of_ne (by simp)
      caught := fun handler hmem => ?_
      goes := fun _ _ _ _ _ _ _ _ => trivial
      handled := fun _ _ _ _ _ _ _ => trivial }
    · obtain ⟨entry, hentry, rfl⟩ := List.mem_map.mp (List.mem_toArray.mp hmem)
      exact hbrings type (.instruction hentry hbrought)
    · obtain ⟨range, hrange, hcaught⟩ := caught_of_handlersOf hrun handler hmem
      rw [hcaught]
      exact hbrings _ (.caught hrange)
  · obtain ⟨index, hindex⟩ := Array.getElem?_of_mem hmem
    obtain ⟨-, hframe⟩ := hformed index frame hindex
    exact ⟨hframe.locals, hframe.stack⟩

end Analysis

end Frame

end Downlevel
