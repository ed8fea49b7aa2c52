import Downlevel.Proofs.Running.Blocks

/-!
# Building a string

Code that builds a string makes a string builder, appends values to it one after the other, and
returns what it has built.  What is appended for a value depends on the type that the value is
declared with.

* `Value.IsOf` — the values of a type;
* `Surroundings.textOf` — the text of a value of a type;
* `performAll_appendValue` — appending a value.
-/

namespace Downlevel

namespace Running

variable {V : Type}

namespace Value

/-- Whether a value is one of a type.  What is declared as a string is a text or nothing. -/
structure IsOf (type : JavaType) (value : Value V) : Prop where
  kind_eq : value.kind = type.kind
  no_builder : ∀ number, value ≠ .builder number
  of_string : type = .object ClassName.javaString →
    value = .reference none ∨ ∃ text, value = .ofText text

/-- A text is a value of the type of strings. -/
theorem isOf_ofText (text : JavaString) :
    (ofText text : Value V).IsOf (.object ClassName.javaString) where
  kind_eq := rfl
  no_builder := by simp [ofText]
  of_string := fun _ => .inr ⟨text, rfl⟩

end Value

namespace Overload

/-- The method of a string builder that appends the values of a type. -/
def ofType (type : JavaType) : Overload :=
  if type = .object ClassName.javaString then string
  else if type.isReference then object
  else
    match type.base with
    | .boolean => boolean
    | .char => char
    | .long => long
    | .float => float
    | .double => double
    | _ => int

/-- The instruction that appends a value of a type calls that method. -/
theorem append_eq (type : JavaType) :
    Fragment.append type =
      .invokevirtual ⟨ClassName.stringBuilder, "append", (ofType type).descriptor⟩ := by
  have hparameter : Fragment.appendParameter type = (ofType type).parameter := by
    unfold Fragment.appendParameter ofType
    by_cases hstring : type = .object ClassName.javaString
    · rw [if_pos hstring, if_pos hstring]
      rfl
    · rw [if_neg hstring, if_neg hstring]
      by_cases hreference : type.isReference = true
      · rw [if_pos hreference, if_pos hreference]
        rfl
      · rw [if_neg hreference, if_neg hreference]
        cases type.base <;> rfl
  rw [Fragment.append, hparameter, descriptor]

end Overload

namespace Surroundings

variable (around : Surroundings V)

/-- The text of a value of a type: truth values and characters are told from other numbers by the
type. -/
def textOf (type : JavaType) : Value V → JavaString
  | .int n =>
      if type = .boolean then truthText n
      else if type = .char then charText n
      else decimal n.toInt
  | .long n => decimal n.toInt
  | .float bits => around.floatText bits
  | .double bits => around.doubleText bits
  | .reference object => around.valueOf object
  | .builder _ => nullText

/-- A text is its own text. -/
@[simp] theorem textOf_ofText (type : JavaType) (text : JavaString) :
    around.textOf type (.ofText text) = text := rfl

end Surroundings

variable (around : Surroundings V)

/-- **What is appended for a value of a type** is its text. -/
theorem appended_ofType {type : JavaType} {value : Value V} (h : value.IsOf type) :
    around.appended? (Overload.ofType type) value = some (around.textOf type value) := by
  obtain ⟨hkind, hbuilder, hstring⟩ := h
  unfold Overload.ofType
  by_cases htype : type = .object ClassName.javaString
  · rw [if_pos htype]
    obtain rfl | ⟨text, rfl⟩ := hstring htype
    · rfl
    · rfl
  rw [if_neg htype]
  by_cases hreference : type.isReference = true
  · rw [if_pos hreference]
    rw [(JavaType.isReference_iff type).mp hreference] at hkind
    cases value with
    | reference object => rfl
    | builder number => exact absurd rfl (hbuilder number)
    | int n | long n | float bits | double bits => cases hkind
  · rw [if_neg hreference]
    obtain ⟨base, rfl⟩ : ∃ base, type = ⟨0, base⟩ :=
      ⟨_, JavaType.eq_of_not_isReference (Bool.eq_false_iff.mpr hreference)⟩
    cases base with
    | object name => exact absurd rfl hreference
    | _ => cases value <;> first | rfl | cases hkind

/-- What code works on while it builds a string. -/
def building (locals : UInt16 → Option (Value V)) (text : JavaString) : Frame V :=
  ⟨[.builder 0], locals, [some text]⟩

variable (locals : UInt16 → Option (Value V)) (text : JavaString) (rest : List Instruction)

/-- A new string builder has no text. -/
theorem performAll_construct :
    performAll around ⟨[], locals, []⟩ (Fragment.construct ClassName.stringBuilder ++ rest) =
      performAll around (building locals ⟨[]⟩) rest := rfl

/-- **A value is appended.** -/
theorem performAll_appendValue {type : JavaType} {value : Value V} (h : value.IsOf type) :
    performAll around ⟨[value, .builder 0], locals, [some text]⟩ (Fragment.append type :: rest) =
      performAll around (building locals (text.append (around.textOf type value))) rest := by
  have hmethod : Method.ofRef?
      ⟨ClassName.stringBuilder, "append", (Overload.ofType type).descriptor⟩ =
        some (.append (Overload.ofType type)) := by
    have hname : ∀ (target : MethodRef), "append" ≠ target.name →
        ¬ (⟨ClassName.stringBuilder, "append", (Overload.ofType type).descriptor⟩ : MethodRef) =
          target := fun _ hne heq => hne (congrArg MethodRef.name heq)
    rw [Method.ofRef?, if_neg (hname _ (by decide)), if_neg (hname _ (by decide)),
      if_neg (hname _ (by decide)), if_neg (hname _ (by decide)), if_pos ⟨rfl, rfl⟩,
      Overload.ofDescriptor?_descriptor]
    rfl
  refine performAll_cons around _ ?_
  rw [Overload.append_eq, perform_invokevirtual around _ hmethod]
  have hbuilt : Frame.built? ⟨[value, .builder 0], locals, [some text]⟩ 0 = some text := rfl
  simp only [invoke, hbuilt, appended_ofType around h]
  rfl

/-- A text is appended. -/
theorem performAll_appendString (value : JavaString) :
    performAll around (building locals text) (Fragment.appendString value ++ rest) =
      performAll around (building locals (text.append value)) rest :=
  performAll_appendValue around locals text rest (Value.isOf_ofText value)

/-- What has been built is returned. -/
theorem performAll_returnBuilt :
    performAll around (building locals text) Fragment.returnBuilt = .finish (.ofText text) := rfl

end Running

end Downlevel
