import Downlevel.Decode.Class
import Downlevel.Encode.Class
import Downlevel.Proofs.Bytes
import Downlevel.Proofs.RoundTrip.Annot

/-!
# Fields and record components that are written and read again

For each kind of bearer there is what a reader promises of it: names that are spelled right,
annotations that are kept, and no other attribute among those that are kept as they are than one
whose name means nothing there.  Every attribute that is read keeps the promise.  What keeps it is
read again from its bytes, and its bytes can be passed over.
-/

namespace Downlevel

namespace Encode

open Pool PoolM Parse

/-- Whether an attribute holds annotations depends on its name alone. -/
theorem annotAttribute?_eq_none {table table' : Table} {name : String} {old old' : Annots}
    (h : Decode.annotAttribute? table name old = none) :
    Decode.annotAttribute? table' name old' = none := by
  unfold Decode.annotAttribute? at h ⊢
  split at h
  · cases h
  · cases h
  · cases h
  · cases h
  · simp only

/-- An attribute that is kept as it is has the name it was read with. -/
theorem gives_raw (name : String) (size : Nat) :
    Gives (Decode.raw name size) fun other => other.name = name :=
  .after fun _ => gives_pure rfl

/-- The first value of an attribute is taken. -/
theorem once_none {α : Type} (name : String) (value : α) :
    Decode.once name none value = .ok (some value) :=
  rfl

/-- What is taken is the new value. -/
theorem once_eq_ok {α : Type} {name : String} {old : Option α} {value : α} {result : Option α}
    (h : Decode.once name old value = .ok result) : result = some value := by
  cases old with
  | none =>
      cases h
      rfl
  | some _ => cases h

/-- Reading goes on with the new value. -/
theorem gives_once {α β : Type} {name : String} {old : Option α} {value : α}
    {next : Option α → Parse β} {P : β → Prop} (h : Gives (next (some value)) P) :
    Gives ((liftM (Decode.once name old value) : Parse (Option α)) >>= next) P := by
  refine .look fun new honce => ?_
  obtain rfl := once_eq_ok honce
  exact h

/-- One more attribute that is kept as it is. -/
theorem isRaw_append {α : Type} {step : Constants → String → Nat → α → Parse α}
    {add : α → RawAttribute → α} {kept : List RawAttribute} {other : RawAttribute}
    (hkept : ∀ one ∈ kept, IsRaw step add one.name) (hother : IsRaw step add other.name) :
    ∀ one ∈ kept ++ [other], IsRaw step add one.name := by
  intro one hmem
  rcases List.mem_append.mp hmem with hmem | hmem
  · exact hkept one hmem
  · rw [List.mem_singleton.mp hmem]
    exact hother

/-- The attribute with a generic type. -/
theorem adds_signature {α : Type} {step : Constants → String → Nat → α → Parse α}
    (set : Option Signature → α) {text : Option Signature}
    (hstep : ∀ constants size, step constants "Signature" size (set none) = do
      let found ← constants.table.utf8 (← u16)
      let new ← Decode.once "Signature" none found
      return set new) : Adds step (signature text) (set none) (set text) :=
  adds_look "Signature" set (fun text _ => (puts_utf8 text).mono fun _ _ h => h.2) hstep

/-- Passing over one field or method. -/
def skipMember (_ : Unit) : Parse Unit := do
  skip 6
  Decode.skipAttributes

/-- A field or method is passed over by its first six bytes and its attributes. -/
theorem reads_skipMember (access name descriptor : UInt16) {attributes' : Bytes}
    (h : Reads Decode.skipAttributes attributes' ()) :
    Reads (skipMember ()) (Bytes.ofU16 access ++ Bytes.ofU16 name ++ Bytes.ofU16 descriptor ++
      attributes') () :=
  (reads_skip (Bytes.ofU16 access ++ Bytes.ofU16 name ++ Bytes.ofU16 descriptor)).bind h

/-- Members with their number in front are passed over one by one. -/
theorem reads_skipMembers {parts : List Bytes} (hsmall : parts.length < 65536)
    (h : ∀ part ∈ parts, Reads (skipMember ()) part ()) :
    Reads Decode.skipMembers (Bytes.ofU16 parts.length.toUInt16 ++ parts.flatten) () := by
  refine (reads_u16 _).bind ?_
  rw [UInt16.toNat_ofNat_of_lt' hsmall]
  exact reads_iterate (steps_same h)

section Fields

/-- Reading an attribute of a field. -/
abbrev fieldStep (constants : Constants) : String → Nat → Field → Parse Field :=
  Decode.fieldAttribute constants.table

/-- Adding an attribute to a field that is kept as it is. -/
def addToField (field : Field) (other : RawAttribute) : Field :=
  { field with attributes := field.attributes ++ [other] }

/-- A field that a reader can give. -/
structure KeptField (field : Field) : Prop where
  name : Name.isValid .fieldName field.name
  descriptor : Name.isValid .fieldDescriptor field.descriptor
  annots : KeptAnnots field.annots
  attributes : ∀ one ∈ field.attributes, IsRaw fieldStep addToField one.name

/-- Every attribute of a field keeps what a reader promises. -/
theorem gives_fieldAttribute (table : Table) (name : String) (size : Nat) {field : Field}
    (h : KeptField field) : Gives (Decode.fieldAttribute table name size field) KeptField := by
  unfold Decode.fieldAttribute
  cases hannots : Decode.annotAttribute? table name field.annots with
  | some read =>
      refine (gives_annotAttribute hannots h.annots).bind fun annots hnew => ?_
      exact gives_pure { h with annots := hnew }
  | none =>
      simp only
      split
      · exact gives_pure { h with }
      · exact gives_pure { h with }
      · exact .after fun _ => .look fun _ _ => .look fun _ _ => gives_pure { h with }
      · exact .after fun _ => .look fun _ _ => .look fun _ _ => gives_pure { h with }
      · have hraw : IsRaw fieldStep addToField name := by
          intro constants size value
          simp only [fieldStep, Decode.fieldAttribute, annotAttribute?_eq_none hannots]
          rfl
        refine (gives_raw name size).bind ?_
        rintro other rfl
        exact gives_pure { h with attributes := isRaw_append h.attributes hraw }

/-- **Every field that is read is one that a reader can give.** -/
theorem gives_field (table : Table) : Gives (Decode.field table) KeptField := by
  refine .after fun bits => .after fun _ => .look fun name hname => ?_
  refine .after fun _ => .look fun descriptor hdescriptor => .after fun count => ?_
  refine gives_iterate (fun field h => ?_) count.toNat
    ⟨Table.named_valid hname, Table.named_valid hdescriptor, keptAnnots_empty,
      fun one hmem => by cases hmem⟩
  exact .after fun _ => .look fun name _ => .after fun size =>
    gives_fieldAttribute table name size.toNat h

/-- Adding attributes that are kept as they are adds them all. -/
theorem foldl_addToField (kept : List RawAttribute) (field : Field) :
    kept.foldl addToField field = { field with attributes := field.attributes ++ kept } := by
  induction kept generalizing field with
  | nil => simp
  | cons one kept ih => simp [ih, addToField]

/-- A field reads attributes with annotations as its own. -/
theorem bears_field :
    Bears fieldStep Field.annots (fun field annots => { field with annots }) where
  get_set _ _ := rfl
  set_set _ _ _ := rfl
  set_get _ := rfl
  reads constants name size field read h := by
    simp only [fieldStep, Decode.fieldAttribute, h]

/-- A field as far as the first attributes tell. -/
def fieldUpTo (field : Field) (n : Nat) : Field where
  access := field.access
  name := field.name
  descriptor := field.descriptor
  isDeprecated := if 0 < n then field.isDeprecated else false
  isSynthetic := if 1 < n then field.isSynthetic else false
  constantValue := if 2 < n then field.constantValue else none
  signature := if 3 < n then field.signature else none
  annots := if 4 < n then field.annots else {}
  attributes := if 5 < n then field.attributes else []

/-- The attributes of a field lead from the bare field to the whole. -/
theorem addsAll_field {field : Field} (h : KeptField field) :
    AddsAll fieldStep
      (markers field.isDeprecated field.isSynthetic ++
        [field.constantValue.map fun value => single "ConstantValue" (PoolM.constantValue value),
          signature field.signature] ++
        annotAttributes field.annots ++ field.attributes.map fun kept => some (raw kept))
      { access := field.access, name := field.name, descriptor := field.descriptor } field := by
  have hdeprecated : Adds fieldStep (given field.isDeprecated (marker "Deprecated"))
      (fieldUpTo field 0) (fieldUpTo field 1) :=
    adds_marker (fun marked => { fieldUpTo field 0 with isDeprecated := marked })
      fun _ => reads_pure _
  have hsynthetic : Adds fieldStep (given field.isSynthetic (marker "Synthetic"))
      (fieldUpTo field 1) (fieldUpTo field 2) :=
    adds_marker (fun marked => { fieldUpTo field 1 with isSynthetic := marked })
      fun _ => reads_pure _
  have hvalue : Adds fieldStep
      (field.constantValue.map fun value => single "ConstantValue" (PoolM.constantValue value))
      (fieldUpTo field 2) (fieldUpTo field 3) :=
    adds_look "ConstantValue" (fun value => { fieldUpTo field 2 with constantValue := value })
      (fun value _ => puts_constantValue value) fun _ _ => rfl
  have hsignature : Adds fieldStep (signature field.signature)
      (fieldUpTo field 3) (fieldUpTo field 4) :=
    adds_signature (fun text => { fieldUpTo field 3 with signature := text }) fun _ _ => rfl
  have hannots : AddsAll fieldStep (annotAttributes field.annots)
      (fieldUpTo field 4) (fieldUpTo field 5) := bears_field.addsAll h.annots rfl
  have hraw := addsAll_raw h.attributes (fieldUpTo field 5)
  rw [foldl_addToField] at hraw
  exact .append (.append (.append (.cons hdeprecated (.cons hsynthetic (.nil _)))
    (.cons hvalue (.cons hsignature (.nil _)))) hannots) hraw

/-- **A field is read again from its bytes, and can be passed over.** -/
theorem puts_field {field : Field} (h : KeptField field) :
    Puts (Encode.field field) fun constants bytes =>
      Reads (Decode.field constants.table) bytes field ∧ Reads (skipMember ()) bytes () := by
  refine (puts_indexed (puts_named .fieldName h.name)).bind fun name => ?_
  refine (puts_indexed (puts_named .fieldDescriptor h.descriptor)).bind fun descriptor => ?_
  refine (puts_present (addsAll_field h)).bind fun parts => ?_
  refine (puts_lift fun bytes hbytes _ => hbytes).map ?_
  rintro constants bytes hbytes hparts ⟨descriptor, rfl, hdescriptor⟩ ⟨name, rfl, hname⟩
  obtain ⟨hread, hskip⟩ := reads_counted hbytes hparts
  refine ⟨?_, reads_skipMember _ _ _ hskip⟩
  simp only [List.append_assoc]
  refine (reads_u16 _).bind ?_
  rw [FieldAccess.ofBits_toBits]
  exact (reads_u16 name).bind (.look hname ((reads_u16 descriptor).bind (.look hdescriptor hread)))

end Fields

section Components

/-- Reading an attribute of a record component. -/
abbrev componentStep (constants : Constants) :
    String → Nat → RecordComponent → Parse RecordComponent :=
  Decode.componentAttribute constants.table

/-- Adding an attribute to a record component that is kept as it is. -/
def addToComponent (component : RecordComponent) (other : RawAttribute) : RecordComponent :=
  { component with attributes := component.attributes ++ [other] }

/-- A record component that a reader can give. -/
structure KeptComponent (component : RecordComponent) : Prop where
  name : Name.isValid .fieldName component.name
  descriptor : Name.isValid .fieldDescriptor component.descriptor
  annots : KeptAnnots component.annots
  attributes : ∀ one ∈ component.attributes, IsRaw componentStep addToComponent one.name

/-- Every attribute of a record component keeps what a reader promises. -/
theorem gives_componentAttribute (table : Table) (name : String) (size : Nat)
    {component : RecordComponent} (h : KeptComponent component) :
    Gives (Decode.componentAttribute table name size component) KeptComponent := by
  unfold Decode.componentAttribute
  cases hannots : Decode.annotAttribute? table name component.annots with
  | some read =>
      refine (gives_annotAttribute hannots h.annots).bind fun annots hnew => ?_
      exact gives_pure { h with annots := hnew }
  | none =>
      simp only
      split
      · exact .after fun _ => .look fun _ _ => .look fun _ _ => gives_pure { h with }
      · have hraw : IsRaw componentStep addToComponent name := by
          intro constants size value
          simp only [componentStep, Decode.componentAttribute, annotAttribute?_eq_none hannots]
          rfl
        refine (gives_raw name size).bind ?_
        rintro other rfl
        exact gives_pure { h with attributes := isRaw_append h.attributes hraw }

/-- Every record component that is read is one that a reader can give. -/
theorem gives_recordComponent (table : Table) :
    Gives (Decode.recordComponent table) KeptComponent := by
  refine .after fun _ => .look fun name hname => ?_
  refine .after fun _ => .look fun descriptor hdescriptor => .after fun count => ?_
  refine gives_iterate (fun component h => ?_) count.toNat
    ⟨Table.named_valid hname, Table.named_valid hdescriptor, keptAnnots_empty,
      fun one hmem => by cases hmem⟩
  exact .after fun _ => .look fun name _ => .after fun size =>
    gives_componentAttribute table name size.toNat h

/-- Adding attributes that are kept as they are adds them all. -/
theorem foldl_addToComponent (kept : List RawAttribute) (component : RecordComponent) :
    kept.foldl addToComponent component =
      { component with attributes := component.attributes ++ kept } := by
  induction kept generalizing component with
  | nil => simp
  | cons one kept ih => simp [ih, addToComponent]

/-- A record component reads attributes with annotations as its own. -/
theorem bears_component :
    Bears componentStep RecordComponent.annots fun component annots =>
      { component with annots } where
  get_set _ _ := rfl
  set_set _ _ _ := rfl
  set_get _ := rfl
  reads constants name size component read h := by
    simp only [componentStep, Decode.componentAttribute, h]

/-- A record component as far as the first attributes tell. -/
def componentUpTo (component : RecordComponent) (n : Nat) : RecordComponent where
  name := component.name
  descriptor := component.descriptor
  signature := if 0 < n then component.signature else none
  annots := if 1 < n then component.annots else {}
  attributes := if 2 < n then component.attributes else []

/-- **A record component is read again from its bytes.** -/
theorem kept_recordComponent {component : RecordComponent} (h : KeptComponent component) :
    Kept recordComponent (fun constants => Decode.recordComponent constants.table) component := by
  have hsignature : Adds componentStep (signature component.signature)
      (componentUpTo component 0) (componentUpTo component 1) :=
    adds_signature (fun text => { componentUpTo component 0 with signature := text })
      fun _ _ => rfl
  have hannots : AddsAll componentStep (annotAttributes component.annots)
      (componentUpTo component 1) (componentUpTo component 2) := bears_component.addsAll h.annots rfl
  have hraw := addsAll_raw h.attributes (componentUpTo component 2)
  rw [foldl_addToComponent] at hraw
  refine (puts_indexed (puts_named .fieldName h.name)).bind fun name => ?_
  refine (puts_indexed (puts_named .fieldDescriptor h.descriptor)).bind fun descriptor => ?_
  refine (puts_present ((AddsAll.cons hsignature hannots).append hraw)).bind fun parts => ?_
  refine (puts_lift fun bytes hbytes _ => hbytes).map ?_
  rintro constants bytes hbytes hparts ⟨descriptor, rfl, hdescriptor⟩ ⟨name, rfl, hname⟩
  obtain ⟨hread, -⟩ := reads_counted hbytes hparts
  rw [List.append_assoc]
  exact (reads_u16 name).bind (.look hname ((reads_u16 descriptor).bind (.look hdescriptor hread)))

end Components

end Encode

end Downlevel
