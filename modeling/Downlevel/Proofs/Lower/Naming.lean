import Downlevel.Proofs.Lower.Gained
import Downlevel.Proofs.RoundTrip.Class

/-!
# The names of added members

The members that lowering adds are named after call sites and constants.  What stands around such a
name is in order for any kind of name.  But the name itself was checked as a name of another kind: a
constant is named like a field, and names of fields may hold the angle brackets that names of
methods may not; and a call site may have one of the two names of methods that are made of angle
brackets themselves, which is no such name any more when something stands around it.

So the members that lowering adds all have the names they should have, except for methods that are
named after something with angle brackets in its name, and the names of those are always refused.

* `Name.isValid_method_numbered` — which names of this form are names of methods;
* `ClassFile.NamesMethod.isValid_iff`, `ClassFile.AddsField.isValid` — the names of members that may
  be added to a class that was read;
* `Converter.convert_names` — **the names of all members that a conversion adds**.
-/

namespace Downlevel

/-! ## Names with something around them -/

namespace Name

/-- A text has none of the characters that separate names. -/
def Whole (name : String) : Prop :=
  ∀ c ∈ name.toList, c ≠ '.' ∧ c ≠ ';' ∧ c ≠ '[' ∧ c ≠ '/'

/-- A text has angle brackets in it. -/
def Bracketed (name : String) : Prop :=
  ∃ c ∈ name.toList, c = '<' ∨ c = '>'

instance (name : String) : Decidable (Whole name) :=
  List.decidableBAll _ name.toList

instance (name : String) : Decidable (Bracketed name) :=
  List.decidableBEx _ name.toList

/-- A name without a package is not empty, and nothing in it separates names. -/
theorem isUnqualified_iff {name : String} :
    isUnqualified name.toList = true ↔ name ≠ "" ∧ Whole name := by
  simp [isUnqualified, Whole, and_assoc, String.toList_eq_nil_iff]

/-- Which names are names of methods. -/
theorem isMethodName_iff {name : String} :
    isMethodName name = true ↔ name = "<init>" ∨ name = "<clinit>" ∨
      name ≠ "" ∧ Whole name ∧ ¬ Bracketed name := by
  simp only [isMethodName, Bool.or_eq_true, decide_eq_true_eq, Bool.and_eq_true, isUnqualified_iff,
    or_assoc, and_assoc]
  simp [Bracketed, not_or]

/-- Two texts in a row. -/
@[simp] theorem whole_append {front back : String} :
    Whole (front ++ back) ↔ Whole front ∧ Whole back := by
  simp only [Whole, String.toList_append, List.mem_append, or_imp, ← forall_and]

/-- Two texts in a row. -/
@[simp] theorem bracketed_append {front back : String} :
    Bracketed (front ++ back) ↔ Bracketed front ∨ Bracketed back := by
  simp [Bracketed, or_and_right, exists_or]

/-- The characters of numbers are digits. -/
theorem isDigit_of_mem_number {number : Nat} {c : Char} (h : c ∈ (toString number).toList) :
    c.isDigit = true := by
  rw [Nat.toString_eq_repr, Nat.toList_repr] at h
  exact Nat.isDigit_of_mem_toDigits (by decide) (by decide) h

/-- No number separates names. -/
@[simp] theorem whole_number (number : Nat) : Whole (toString number) := by
  intro c hc
  have hdigit := isDigit_of_mem_number hc
  refine ⟨?_, ?_, ?_, ?_⟩ <;> rintro rfl <;> exact absurd hdigit (by decide)

/-- Numbers have no angle brackets. -/
@[simp] theorem not_bracketed_number (number : Nat) : ¬ Bracketed (toString number) := by
  rintro ⟨c, hc, rfl | rfl⟩ <;> exact absurd (isDigit_of_mem_number hc) (by decide)

/-- A text with no angle brackets that something else begins with. -/
theorem ne_of_front {front back other : String} (hfront : front ≠ "" ∧ ¬ Bracketed front)
    (hother : other.toList.head? = some '<') : front ++ back ≠ other := by
  rintro rfl
  rw [String.toList_append] at hother
  cases hchars : front.toList with
  | nil => exact hfront.1 (String.toList_eq_nil_iff.mp hchars)
  | cons c rest =>
      rw [hchars] at hother
      cases hother
      exact hfront.2 ⟨'<', by simp [hchars], .inl rfl⟩

/-- What stands in front of the names that members are named after: it does not separate names, and
has no angle brackets. -/
structure Front (front : String) : Prop where
  some : front ≠ ""
  whole : Whole front
  plain : ¬ Bracketed front

/-- **Which names with something around them are names of methods**: those around names without
angle brackets. -/
theorem isValid_method_numbered {front name : String} (hfront : Front front) (hname : Whole name)
    (number : Nat) :
    isValid .methodName (front ++ name ++ "$" ++ toString number) = true ↔ ¬ Bracketed name := by
  have hwhole : Whole (front ++ name ++ "$" ++ toString number) := by
    simp only [whole_append, whole_number, and_true]
    exact ⟨⟨hfront.whole, hname⟩, by decide⟩
  have hbracketed : Bracketed (front ++ name ++ "$" ++ toString number) ↔ Bracketed name := by
    have hdollar : ¬ Bracketed "$" := by decide
    simp only [bracketed_append, hfront.plain, hdollar, not_bracketed_number, false_or, or_false]
  have hspecial : ∀ special : String, special.toList.head? = some '<' →
      front ++ name ++ "$" ++ toString number ≠ special := by
    intro special hspecial
    simp only [String.append_assoc]
    exact ne_of_front ⟨hfront.some, hfront.plain⟩ hspecial
  have hsome : front ++ name ++ "$" ++ toString number ≠ "" := by
    intro hempty
    have hlist := congrArg String.toList hempty
    simp at hlist
  rw [isValid, isMethodName_iff, hbracketed]
  simp only [hspecial "<init>" rfl, hspecial "<clinit>" rfl, hsome, hwhole, ne_eq,
    not_false_eq_true, true_and, false_or]

/-- Names with something around them are names of fields. -/
theorem isValid_field_numbered {front name : String} (hfront : Front front) (hname : Whole name)
    (number : Nat) :
    isValid .fieldName (front ++ name ++ "$" ++ toString number) = true := by
  refine isUnqualified_iff.mpr ⟨fun hempty => ?_, ?_⟩
  · have hlist := congrArg String.toList hempty
    simp at hlist
  · simp only [whole_append, whole_number, and_true]
    exact ⟨⟨hfront.whole, hname⟩, by decide⟩

/-- Names of fields do not separate names. -/
theorem whole_of_field {name : String} (h : isValid .fieldName name = true) : Whole name :=
  (isUnqualified_iff.mp h).2

/-- Neither do names of methods. -/
theorem whole_of_method {name : String} (h : isValid .methodName name = true) : Whole name := by
  rcases isMethodName_iff.mp h with rfl | rfl | ⟨-, hwhole, -⟩
  · decide
  · decide
  · exact hwhole

/-- The only names of methods with angle brackets are the two special ones. -/
theorem bracketed_method_iff {name : String} (h : isValid .methodName name = true) :
    Bracketed name ↔ name = MethodName.constructor ∨ name = MethodName.staticInitializer := by
  constructor
  · intro hbracketed
    rcases isMethodName_iff.mp h with hinit | hclinit | ⟨-, -, hplain⟩
    · exact .inl hinit
    · exact .inr hclinit
    · exact absurd hbracketed hplain
  · rintro (rfl | rfl) <;> decide

end Name

/-! ## Names that were read -/

open Constants (instructionsOf)

namespace Name.Front

/-- What stands in front of names can be checked. -/
instance (front : String) : Decidable (Front front) :=
  decidable_of_iff (front ≠ "" ∧ Whole front ∧ ¬ Bracketed front)
    ⟨fun ⟨hsome, hwhole, hplain⟩ => ⟨hsome, hwhole, hplain⟩,
      fun h => ⟨h.some, h.whole, h.plain⟩⟩

/-- What stands in front of the names of call sites. -/
theorem of_siteFronts : ∀ front ∈ siteFronts, Front front := by
  decide +kernel

/-- What stands in front of the names of constants. -/
theorem of_fieldFronts : ∀ front ∈ fieldFronts, Front front := by
  decide +kernel

end Name.Front

/-- The names in a value that was read are names of fields. -/
theorem Loadable.Lends.valid {value : Loadable} {name : FieldName} (h : value.Lends name)
    {depth : Nat} (hreadable : value.Readable depth) : Name.isValid .fieldName name = true := by
  induction h generalizing depth with
  | here =>
      cases depth with
      | zero => exact hreadable.elim
      | succ depth => exact hreadable.1
  | inside _ hmem _ ih =>
      cases depth with
      | zero => exact hreadable.elim
      | succ depth => exact ih (hreadable.2.2.2 _ hmem)

namespace ClassFile

variable {bytes : Bytes} {cls : ClassFile}

/-- **The names that members are named after**, in a class that was read: call sites are named like
methods, and constants are named like fields. -/
theorem lent_valid (h : ofBytes bytes = .ok cls) :
    (∀ name, cls.LendsSite name → Name.isValid .methodName name = true) ∧
      ∀ name, cls.LendsConstant name → Name.isValid .fieldName name = true := by
  have hkept := keptClass_of_read h
  have hall : cls.All Instruction.Readable := fun method hmem code hcode =>
    ((hkept.methods method hmem).code code hcode).1.instructions
  have hreadable := all_iff.mp hall
  constructor
  · rintro name ⟨instruction, hmem, hlends⟩
    cases hlends with
    | site _ =>
        have hsite : CallSite.Readable _ := hreadable _ hmem
        exact hsite.name
  · rintro name ⟨instruction, hmem, hlends⟩
    cases hlends with
    | loaded hvalue => exact hvalue.valid (hreadable _ hmem)
    | passed hargument hvalue =>
        have hsite : CallSite.Readable _ := hreadable _ hmem
        exact hvalue.valid (hsite.arguments _ hargument)

/-- **Which methods that are named after something in a class have proper names**: those that are
not named after something with angle brackets in its name. -/
theorem NamesMethod.isValid_iff {source : String} {name : MethodName}
    (h : cls.NamesMethod source name) (hread : ofBytes bytes = .ok cls) :
    Name.isValid .methodName name = true ↔ ¬ Name.Bracketed source := by
  obtain ⟨hsites, hconstants⟩ := lent_valid hread
  cases h with
  | site hfront hsource hname =>
      obtain ⟨number, rfl⟩ := hname
      exact Name.isValid_method_numbered (.of_siteFronts _ hfront)
        (Name.whole_of_method (hsites source hsource)) number
  | constant hsource hname =>
      obtain ⟨number, rfl⟩ := hname
      exact Name.isValid_method_numbered (.of_fieldFronts _ List.mem_cons_self)
        (Name.whole_of_field (hconstants source hsource)) number

/-- All fields that are named after constants have proper names. -/
theorem AddsField.isValid {name : FieldName} (h : cls.AddsField name)
    (hread : ofBytes bytes = .ok cls) : Name.isValid .fieldName name = true := by
  obtain ⟨front, hfront, source, hsource, number, rfl⟩ := h
  exact Name.isValid_field_numbered (.of_fieldFronts _ hfront)
    (Name.whole_of_field ((lent_valid hread).2 source hsource)) number

/-- Where no names of call sites are special and no names of constants have angle brackets, all
methods that may be added have proper names. -/
theorem AddsMethod.isValid {id : MethodId} (h : cls.AddsMethod id)
    (hread : ofBytes bytes = .ok cls)
    (hsites : ∀ source, cls.LendsSite source →
      source ≠ MethodName.constructor ∧ source ≠ MethodName.staticInitializer)
    (hconstants : ∀ source, cls.LendsConstant source → ¬ Name.Bracketed source) :
    Name.isValid .methodName id.name = true := by
  rcases h with rfl | ⟨source, hnames⟩
  · decide
  · refine (hnames.isValid_iff hread).mpr ?_
    cases hnames with
    | site _ hsource _ =>
        rw [Name.bracketed_method_iff ((lent_valid hread).1 source hsource), not_or]
        exact hsites source hsource
    | constant hsource _ => exact hconstants source hsource

end ClassFile

/-- Members that keep their names and descriptors come first, and the others are behind them. -/
theorem split_of_ids {α β : Type} {id : α → β} {items old added : List α}
    (h : items.map id = old.map id ++ added.map id) :
    (items.take old.length).map id = old.map id ∧
      ∀ item ∈ items.drop old.length, ∃ other ∈ added, id other = id item := by
  have hlength : (old.map id).length = old.length := List.length_map id
  constructor
  · rw [List.map_take, h, ← hlength, List.take_left]
  · intro item hmem
    have hid : id item ∈ (items.map id).drop old.length := by
      rw [← List.map_drop]
      exact List.mem_map_of_mem hmem
    rw [h, ← hlength, List.drop_left] at hid
    exact List.mem_map.mp hid

/-- A member is one of the old ones, by its name and descriptor, or it is behind them. -/
theorem mem_of_take_ids {α β : Type} {id : α → β} {items old : List α}
    (h : (items.take old.length).map id = old.map id) {item : α} (hmem : item ∈ items) :
    (∃ before ∈ old, id before = id item) ∨ item ∈ items.drop old.length := by
  rw [← List.take_append_drop old.length items, List.mem_append] at hmem
  refine hmem.imp_left fun hold => ?_
  have hid : id item ∈ old.map id := h ▸ List.mem_map_of_mem hold
  exact List.mem_map.mp hid

/-- **The names of the members that a conversion adds.**  Of a class that was read, the members come
first and keep their names and descriptors.  The fields behind them are named after constants of the
class, and all fields have proper names.  Each method behind them initializes the class, or it is
named after a call site or a constant of the class, and its name is proper exactly if there are no
angle brackets in the one that it is named after.  So all methods have proper names where no call
site is named like a constructor or an initializer, and no constant has angle brackets in its name.
-/
theorem Converter.convert_names {converter : Converter} {bytes : Bytes} {cls cls' : ClassFile}
    {session session' : Session} (hread : ClassFile.ofBytes bytes = .ok cls)
    (h : converter.convert cls session = (.ok (some cls'), session')) :
    (cls'.fields.take cls.fields.length).map Field.id = cls.fields.map Field.id ∧
      (∀ field ∈ cls'.fields.drop cls.fields.length, cls.AddsField field.name) ∧
      (∀ field ∈ cls'.fields, Name.isValid .fieldName field.name = true) ∧
      (cls'.methods.take cls.methods.length).map Method.id = cls.methods.map Method.id ∧
      (∀ method ∈ cls'.methods.drop cls.methods.length,
        method.id = Constants.emptyInitializer.id ∨
          ∃ source, cls.NamesMethod source method.name ∧
            (Name.isValid .methodName method.name = true ↔ ¬ Name.Bracketed source)) ∧
      ((∀ name, cls.LendsSite name →
          name ≠ MethodName.constructor ∧ name ≠ MethodName.staticInitializer) →
        (∀ name, cls.LendsConstant name → ¬ Name.Bracketed name) →
        ∀ method ∈ cls'.methods, Name.isValid .methodName method.name = true) := by
  have hkept := ClassFile.keptClass_of_read hread
  have hgains := convert_gains h
  obtain ⟨addedMethods, hmethodIds, hmethods⟩ := hgains.methods
  obtain ⟨addedFields, hfieldIds, hfields⟩ := hgains.fields
  obtain ⟨hmethodsFirst, hmethodsBehind⟩ := split_of_ids hmethodIds
  obtain ⟨hfieldsFirst, hfieldsBehind⟩ := split_of_ids hfieldIds
  have haddsMethod : ∀ method ∈ cls'.methods.drop cls.methods.length,
      cls.AddsMethod method.id := by
    intro method hmem
    obtain ⟨other, hother, hid⟩ := hmethodsBehind method hmem
    exact hid ▸ hmethods other hother
  have haddsField : ∀ field ∈ cls'.fields.drop cls.fields.length, cls.AddsField field.name := by
    intro field hmem
    obtain ⟨other, hother, hid⟩ := hfieldsBehind field hmem
    exact Field.name_of_id hid ▸ hfields other hother
  refine ⟨hfieldsFirst, haddsField, fun field hmem => ?_, hmethodsFirst, fun method hmem => ?_,
    fun hsites hconstants method hmem => ?_⟩
  · rcases mem_of_take_ids hfieldsFirst hmem with ⟨before, hbefore, hsame⟩ | hnew
    · exact Field.name_of_id hsame ▸ (hkept.fields before hbefore).name
    · exact (haddsField field hnew).isValid hread
  · exact (haddsMethod method hmem).imp_right fun ⟨source, hnames⟩ =>
      ⟨source, hnames, hnames.isValid_iff hread⟩
  · rcases mem_of_take_ids hmethodsFirst hmem with ⟨before, hbefore, hsame⟩ | hnew
    · exact Method.name_of_id hsame ▸ (hkept.methods before hbefore).name
    · exact (haddsMethod method hnew).isValid hread hsites hconstants

section Example

/-- A class of release 11 with a method that loads a constant, which has a name of three letters. -/
def lendingClass (name : FieldName) : ClassFile where
  version := ⟨55, 0⟩
  access := { isPublic := true, isSuper := true }
  name := "a/A"
  superClass := some ClassName.javaObject
  interfaces := []
  methods := [
    Method.ofCode { isStatic := true, isPublic := true } "f" "()Ljava/lang/Object;"
      { maxStack := some 1
        maxLocals := some 0
        instructions := [
          ⟨none, .ldc (.dynamic name "Ljava/lang/Object;"
            (.method (.static false) ⟨"a/B", "make",
              "(Ljava/lang/invoke/MethodHandles$Lookup;Ljava/lang/String;Ljava/lang/Class;)" ++
                "Ljava/lang/Object;"⟩) [])⟩,
          ⟨none, .op .areturn⟩] }]

/-- The class file of that class, with the letters of the name. -/
def lendingBytes (letters : Bytes) : Bytes :=
  [0xca, 0xfe, 0xba, 0xbe, 0x00, 0x00, 0x00, 0x37, 0x00, 0x14, 0x01, 0x00, 0x03, 0x61, 0x2f, 0x41,
    0x07, 0x00, 0x01, 0x01, 0x00, 0x10, 0x6a, 0x61, 0x76, 0x61, 0x2f, 0x6c, 0x61, 0x6e, 0x67, 0x2f,
    0x4f, 0x62, 0x6a, 0x65, 0x63, 0x74, 0x07, 0x00, 0x03, 0x01, 0x00, 0x03, 0x61, 0x2f, 0x42, 0x07,
    0x00, 0x05, 0x01, 0x00, 0x04, 0x6d, 0x61, 0x6b, 0x65, 0x01, 0x00, 0x5e, 0x28, 0x4c, 0x6a, 0x61,
    0x76, 0x61, 0x2f, 0x6c, 0x61, 0x6e, 0x67, 0x2f, 0x69, 0x6e, 0x76, 0x6f, 0x6b, 0x65, 0x2f, 0x4d,
    0x65, 0x74, 0x68, 0x6f, 0x64, 0x48, 0x61, 0x6e, 0x64, 0x6c, 0x65, 0x73, 0x24, 0x4c, 0x6f, 0x6f,
    0x6b, 0x75, 0x70, 0x3b, 0x4c, 0x6a, 0x61, 0x76, 0x61, 0x2f, 0x6c, 0x61, 0x6e, 0x67, 0x2f, 0x53,
    0x74, 0x72, 0x69, 0x6e, 0x67, 0x3b, 0x4c, 0x6a, 0x61, 0x76, 0x61, 0x2f, 0x6c, 0x61, 0x6e, 0x67,
    0x2f, 0x43, 0x6c, 0x61, 0x73, 0x73, 0x3b, 0x29, 0x4c, 0x6a, 0x61, 0x76, 0x61, 0x2f, 0x6c, 0x61,
    0x6e, 0x67, 0x2f, 0x4f, 0x62, 0x6a, 0x65, 0x63, 0x74, 0x3b, 0x0c, 0x00, 0x07, 0x00, 0x08, 0x0a,
    0x00, 0x06, 0x00, 0x09, 0x0f, 0x06, 0x00, 0x0a, 0x01, 0x00, 0x03] ++
  letters ++
  [0x01, 0x00, 0x12, 0x4c, 0x6a, 0x61, 0x76, 0x61, 0x2f, 0x6c, 0x61, 0x6e, 0x67, 0x2f, 0x4f, 0x62,
    0x6a, 0x65, 0x63, 0x74, 0x3b, 0x0c, 0x00, 0x0c, 0x00, 0x0d, 0x11, 0x00, 0x00, 0x00, 0x0e, 0x01,
    0x00, 0x04, 0x43, 0x6f, 0x64, 0x65, 0x01, 0x00, 0x01, 0x66, 0x01, 0x00, 0x14, 0x28, 0x29, 0x4c,
    0x6a, 0x61, 0x76, 0x61, 0x2f, 0x6c, 0x61, 0x6e, 0x67, 0x2f, 0x4f, 0x62, 0x6a, 0x65, 0x63, 0x74,
    0x3b, 0x01, 0x00, 0x10, 0x42, 0x6f, 0x6f, 0x74, 0x73, 0x74, 0x72, 0x61, 0x70, 0x4d, 0x65, 0x74,
    0x68, 0x6f, 0x64, 0x73, 0x00, 0x21, 0x00, 0x02, 0x00, 0x04, 0x00, 0x00, 0x00, 0x00, 0x00, 0x01,
    0x00, 0x09, 0x00, 0x11, 0x00, 0x12, 0x00, 0x01, 0x00, 0x10, 0x00, 0x00, 0x00, 0x0f, 0x00, 0x01,
    0x00, 0x00, 0x00, 0x00, 0x00, 0x03, 0x12, 0x0f, 0xb0, 0x00, 0x00, 0x00, 0x00, 0x00, 0x01, 0x00,
    0x13, 0x00, 0x00, 0x00, 0x06, 0x00, 0x01, 0x00, 0x0b, 0x00, 0x00]

/-- The class is read from its bytes, with a name that methods may have. -/
theorem ofBytes_lendingBytes_plain :
    ClassFile.ofBytes (lendingBytes [0x61, 0x5f, 0x62]) = .ok (lendingClass "a_b") := by
  unfold ClassFile.ofBytes Decode.cls Decode.method Decode.methodAttribute Decode.code
  rw [Decode.numberLabels_firstMet]
  decide +kernel

/-- The class is also read with a name that methods may not have. -/
theorem ofBytes_lendingBytes_bracketed :
    ClassFile.ofBytes (lendingBytes [0x61, 0x3c, 0x62]) = .ok (lendingClass "a<b") := by
  unfold ClassFile.ofBytes Decode.cls Decode.method Decode.methodAttribute Decode.code
  rw [Decode.numberLabels_firstMet]
  decide +kernel

/-- The only name that is lent in the class is that of the constant. -/
theorem lends_lendingClass (name : FieldName) :
    (∀ source, ¬ (lendingClass name).LendsSite source) ∧
      ∀ source, (lendingClass name).LendsConstant source → source = name := by
  constructor
  · rintro source ⟨instruction, hmem, ⟨-⟩⟩
    simp [lendingClass, instructionsOf, Method.ofCode] at hmem
  · rintro source ⟨instruction, hmem, hlends⟩
    simp only [lendingClass, instructionsOf, Method.ofCode, List.flatMap_cons, List.flatMap_nil,
      List.append_nil, List.map_cons, List.map_nil, List.mem_cons, List.not_mem_nil,
      or_false] at hmem
    rcases hmem with rfl | rfl
    · cases hlends with
      | loaded h =>
          cases h with
          | here => rfl
          | inside _ hnone => cases hnone
    · cases hlends

/-- With a plain name all members of the converted class have proper names. -/
theorem convert_names_plain :
    ∃ cls' session',
      ClassFile.ofBytes (lendingBytes [0x61, 0x5f, 0x62]) = .ok (lendingClass "a_b") ∧
      Converter.convert ⟨⟨8, by decide, by decide⟩, none⟩ (lendingClass "a_b") {} =
        (.ok (some cls'), session') ∧ cls'.methods.length = 3 ∧
      (∀ field ∈ cls'.fields, Name.isValid .fieldName field.name = true) ∧
      ∀ method ∈ cls'.methods, Name.isValid .methodName method.name = true := by
  have hrun : ((Converter.convert ⟨⟨8, by decide, by decide⟩, none⟩
      (lendingClass "a_b") {}).1.toOption.any fun outcome => outcome.any fun cls' =>
        cls'.methods.length == 3) = true := by decide +kernel
  obtain ⟨outcome, h, hsome⟩ := exists_of_any hrun
  obtain ⟨cls', rfl, hlength⟩ := (Option.any_eq_true _ _).mp hsome
  obtain ⟨-, -, hfields, -, -, hmethods⟩ :=
    Converter.convert_names ofBytes_lendingBytes_plain (Prod.ext h rfl)
  obtain ⟨hsites, hconstants⟩ := lends_lendingClass "a_b"
  refine ⟨cls', _, ofBytes_lendingBytes_plain, Prod.ext h rfl, beq_iff_eq.mp hlength, hfields,
    hmethods (fun source hlends => absurd hlends (hsites source)) fun source hlends => ?_⟩
  rw [hconstants source hlends]
  decide

/-- A new method that returns an object is the accessor of the constant. -/
theorem accessor_of_convert {name : FieldName} {cls' : ClassFile} {session' : Session}
    (h : Converter.convert ⟨⟨8, by decide, by decide⟩, none⟩ (lendingClass name) {} =
      (.ok (some cls'), session'))
    {method : Method} (hmem : method ∈ cls'.methods.drop (lendingClass name).methods.length)
    (hdescriptor : method.descriptor = "()Ljava/lang/Object;") :
    NamedAfter constantFront name method.name := by
  obtain ⟨added, hids, hadds⟩ := (Converter.convert_gains h).methods
  obtain ⟨other, hother, hid⟩ := (split_of_ids hids).2 method hmem
  rcases hid ▸ hadds other hother with hinitializer | ⟨source, hnames⟩
  · have hsame : method.descriptor = "()V" := congrArg MethodId.descriptor hinitializer
    exact absurd (hdescriptor.symm.trans hsame) (by decide)
  · cases hnames with
    | site _ hsource _ => exact absurd hsource ((lends_lendingClass name).1 source)
    | constant hsource hname => exact (lends_lendingClass name).2 source hsource ▸ hname

/-- With angle brackets in the name of the constant, the converted class has a method whose name is
refused. -/
theorem convert_misnames_bracketed :
    ∃ cls' session',
      ClassFile.ofBytes (lendingBytes [0x61, 0x3c, 0x62]) = .ok (lendingClass "a<b") ∧
      Converter.convert ⟨⟨8, by decide, by decide⟩, none⟩ (lendingClass "a<b") {} =
        (.ok (some cls'), session') ∧
      ∃ method ∈ cls'.methods.drop (lendingClass "a<b").methods.length,
        Name.checked .methodName method.name =
          fail (.text (.invalidName .methodName method.name)) := by
  have hrun : ((Converter.convert ⟨⟨8, by decide, by decide⟩, none⟩
      (lendingClass "a<b") {}).1.toOption.any fun outcome => outcome.any fun cls' =>
        (cls'.methods.drop 1).any fun method =>
          method.descriptor == "()Ljava/lang/Object;") = true := by decide +kernel
  obtain ⟨outcome, h, hsome⟩ := exists_of_any hrun
  obtain ⟨cls', rfl, hany⟩ := (Option.any_eq_true _ _).mp hsome
  obtain ⟨method, hmem, hdescriptor⟩ := List.any_eq_true.mp hany
  obtain ⟨number, hname⟩ := accessor_of_convert (Prod.ext h rfl) hmem (beq_iff_eq.mp hdescriptor)
  refine ⟨cls', _, ofBytes_lendingBytes_bracketed, Prod.ext h rfl, method, hmem, ?_⟩
  have hvalid : ¬ Name.isValid .methodName method.name = true := by
    rw [hname, Name.isValid_method_numbered (.of_fieldFronts _ List.mem_cons_self) (by decide)]
    decide
  rw [Name.checked, if_neg hvalid]

end Example

end Downlevel
