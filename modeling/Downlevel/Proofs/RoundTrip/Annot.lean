import Downlevel.Decode.Attribute
import Downlevel.Encode.Attribute
import Downlevel.Proofs.RoundTrip.Attribute

/-!
# Annotations that are written and read again

The values of annotations are nested to any depth, and a reader goes as deep as there are bytes.  A
value is shorter than what it is nested in, so a reader that goes deep enough for the whole goes
deep enough for each part.
-/

namespace Downlevel

namespace Encode

open Pool PoolM Parse

/-- The bytes of a value are read again by every reader that goes as deep as there are bytes. -/
def ReadsDeep (constants : Constants) (bytes : Bytes) (value : ElementValue) : Prop :=
  ∀ depth, bytes.length ≤ depth →
    Reads (Decode.elementValueWithin constants.table depth) bytes value

/-- A value of an annotation that is there again when it is written and read. -/
def KeptValue (value : ElementValue) : Prop :=
  Puts (elementValue value) fun constants bytes => ReadsDeep constants bytes value

/-- A reader of values that goes deep enough for as many bytes as given. -/
def Reaches (constants : Constants) (size : Nat) (value : Parse ElementValue) : Prop :=
  ∀ bytes found, bytes.length ≤ size → ReadsDeep constants bytes found → Reads value bytes found

/-- A reader that goes deep enough for many bytes does so for fewer. -/
theorem Reaches.mono {constants : Constants} {size size' : Nat} {value : Parse ElementValue}
    (h : Reaches constants size value) (hle : size' ≤ size) : Reaches constants size' value :=
  fun bytes found hsize => h bytes found (Nat.le_trans hsize hle)

/-- Reading a value with its name. -/
def readNamed (constants : Constants) (value : Parse ElementValue) :
    Parse (String × ElementValue) := do
  let name ← constants.table.utf8 (← u16)
  return (name, ← value)

/-- A named value gives what the value gives. -/
theorem gives_readNamed (constants : Constants) {value : Parse ElementValue}
    {P : ElementValue → Prop} (h : Gives value P) :
    Gives (readNamed constants value) fun named => P named.2 :=
  .after fun _ => .look fun _ _ => h.bind fun _ hvalue => gives_pure hvalue

/-- Values that are kept are read again one behind the other. -/
theorem puts_elementValues {values : List ElementValue} (h : ∀ value ∈ values, KeptValue value) :
    Puts (elementValues values) fun constants bytes => ∀ value,
      Reaches constants bytes.length value →
        ∃ parts, bytes = parts.flatten ∧ List.Forall₂ (Reads value) parts values := by
  induction values with
  | nil =>
      unfold elementValues
      exact puts_pure fun _ _ _ => ⟨[], rfl, .nil⟩
  | cons first rest ih =>
      unfold elementValues
      refine (h first List.mem_cons_self).bind fun part => ?_
      refine (ih fun other hmem => h other (List.mem_cons_of_mem _ hmem)).map ?_
      intro constants bytes hrest hfirst value hreaches
      rw [List.length_append] at hreaches
      obtain ⟨parts, rfl, hparts⟩ := hrest value (hreaches.mono (Nat.le_add_left _ _))
      exact ⟨part :: parts, rfl, .cons (hreaches _ _ (Nat.le_add_right _ _) hfirst) hparts⟩

/-- Named values that are kept are read again one behind the other. -/
theorem puts_namedValues {values : List (String × ElementValue)}
    (h : ∀ named ∈ values, KeptValue named.2) :
    Puts (namedValues values) fun constants bytes => ∀ value,
      Reaches constants bytes.length value →
        ∃ parts, bytes = parts.flatten ∧
          List.Forall₂ (Reads (readNamed constants value)) parts values := by
  induction values with
  | nil =>
      unfold namedValues
      exact puts_pure fun _ _ _ => ⟨[], rfl, .nil⟩
  | cons named rest ih =>
      obtain ⟨name, first⟩ := named
      have hfirst : KeptValue first := h (name, first) List.mem_cons_self
      unfold namedValues
      refine (puts_indexed (puts_utf8 name)).bind fun index => hfirst.bind fun part => ?_
      refine (ih fun other hmem => h other (List.mem_cons_of_mem _ hmem)).map ?_
      rintro constants bytes hrest hpart ⟨index, rfl, -, hname⟩ value hreaches
      simp only [List.length_append] at hreaches
      obtain ⟨parts, rfl, hparts⟩ := hrest value (hreaches.mono (Nat.le_add_left _ _))
      refine ⟨(Bytes.ofU16 index ++ part) :: parts, rfl, .cons ?_ hparts⟩
      have hvalue := hreaches part first (by omega) hpart
      exact (reads_u16 index).bind (.look hname (hvalue.map fun value => (name, value)))

/-- A reader that goes as deep as given goes deep enough for that many bytes. -/
theorem reaches_elementValueWithin (constants : Constants) (depth : Nat) :
    Reaches constants depth (Decode.elementValueWithin constants.table depth) :=
  fun _ _ hsize h => h depth hsize

/-- The reader that goes as deep as there are bytes goes deep enough for all of them. -/
theorem reaches_elementValue (constants : Constants) (size : Nat) :
    Reaches constants size (Decode.elementValue constants.table) := by
  intro bytes found _ h offset rest
  have hdepth : bytes.length ≤ (bytes ++ rest).length + 1 := by
    rw [List.length_append]
    omega
  exact h _ hdepth offset rest

/-- A value that is a tag and an index is kept if what is at the index is looked up again. -/
theorem keptValue_of_tagged {α : Type} (make : α → ElementValue) (tag : UInt8) {found : α}
    {work : PoolM UInt16} (look : Table → UInt16 → Except Error α)
    (hwork : Puts work fun constants index => look constants.table index = .ok found)
    (hwrite : elementValue (make found) = taggedIndex tag work)
    (hread : ∀ (table : Table) depth bytes,
      Reads (do return make (← look table (← u16))) bytes (make found) →
        Reads (Decode.elementValueWithin table (depth + 1)) (tag :: bytes) (make found)) :
    KeptValue (make found) := by
  unfold KeptValue
  rw [hwrite]
  refine hwork.map fun constants index hlook depth hdepth => ?_
  obtain ⟨depth, rfl⟩ : ∃ n, depth = n + 1 := ⟨depth - 1, by simp at hdepth; omega⟩
  exact hread constants.table depth _ ((reads_u16 index).finish (.look hlook (reads_pure _)))

/-- A value that is a tag and the index of an entry is kept if the entry is looked up again. -/
theorem keptValue_of_entry {α : Type} (make : α → ElementValue) (tag : UInt8) {found : α}
    (item : Entry) (look : Table → UInt16 → Except Error α)
    (hlook : ∀ table index, table.get index = .ok item → look table index = .ok found)
    (hwrite : elementValue (make found) = taggedIndex tag (put item))
    (hread : ∀ (table : Table) depth bytes,
      Reads (do return make (← look table (← u16))) bytes (make found) →
        Reads (Decode.elementValueWithin table (depth + 1)) (tag :: bytes) (make found)) :
    KeptValue (make found) :=
  keptValue_of_tagged make tag look
    ((puts_put item).mono fun constants index hput => hlook constants.table index hput.2)
    hwrite hread

/-- An int within bounds is looked up as one. -/
theorem intBetween_eq_ok {table : Table} {index : UInt16} {value : Int32} {low high : Int}
    (hget : table.get index = .ok (.int value)) (hlow : low ≤ value.toInt)
    (hhigh : value.toInt ≤ high) (wanted : String) :
    table.intBetween low high wanted index = .ok value := by
  simp [Table.intBetween, Table.int, hget, bind, Except.bind, pure, Except.pure, hlow, hhigh]

/-- A byte is kept. -/
theorem keptValue_byte (value : Int8) : KeptValue (.byte value) := by
  have hlow : -128 ≤ value.toInt32.toInt := value.toInt_toInt32 ▸ value.le_toInt
  have hhigh : value.toInt32.toInt ≤ 127 := value.toInt_toInt32 ▸ value.toInt_le
  refine keptValue_of_entry .byte 0x42 (.int value.toInt32) Table.byte (fun table index hget => ?_)
    rfl fun _ _ _ h => (reads_u8 _).bind h
  simp [Table.byte, intBetween_eq_ok hget hlow hhigh, bind, Except.bind, pure, Except.pure]

/-- A character is kept. -/
theorem keptValue_char (value : UInt16) : KeptValue (.char value) := by
  have hsmall := value.toNat_lt
  have hvalue : value.toUInt32.toInt32.toInt = value.toNat := by
    show value.toUInt32.toBitVec.toInt = _
    rw [BitVec.toInt_eq_toNat_of_lt]
    · rfl
    · show 2 * value.toNat < 2 ^ 32
      omega
  have hlow : 0 ≤ value.toUInt32.toInt32.toInt := by omega
  have hhigh : value.toUInt32.toInt32.toInt ≤ 65535 := by omega
  refine keptValue_of_entry .char 0x43 (.int value.toUInt32.toInt32) Table.char
    (fun table index hget => ?_) rfl fun _ _ _ h => (reads_u8 _).bind h
  simp [Table.char, intBetween_eq_ok hget hlow hhigh, bind, Except.bind, pure, Except.pure]

/-- A short is kept. -/
theorem keptValue_short (value : Int16) : KeptValue (.short value) := by
  have hlow : -32768 ≤ value.toInt32.toInt := value.toInt_toInt32 ▸ value.le_toInt
  have hhigh : value.toInt32.toInt ≤ 32767 := value.toInt_toInt32 ▸ value.toInt_le
  refine keptValue_of_entry .short 0x53 (.int value.toInt32) Table.short (fun table index hget => ?_)
    rfl fun _ _ _ h => (reads_u8 _).bind h
  simp [Table.short, intBetween_eq_ok hget hlow hhigh, bind, Except.bind, pure, Except.pure]

/-- A truth value is kept. -/
theorem keptValue_boolean (value : Bool) : KeptValue (.boolean value) := by
  refine keptValue_of_entry .boolean 0x5a (.int (if value then 1 else 0)) Table.boolean (fun table index hget => ?_)
    rfl fun _ _ _ h => (reads_u8 _).bind h
  cases value <;> simp [Table.boolean, Table.int, hget, bind, Except.bind, pure, Except.pure]

/-- An int is kept. -/
theorem keptValue_int (value : Int32) : KeptValue (.int value) := by
  refine keptValue_of_entry .int 0x49 (.int value) Table.int (fun table index hget => ?_)
    rfl fun _ _ _ h => (reads_u8 _).bind h
  simp [Table.int, hget, bind, Except.bind, pure, Except.pure]

/-- A long is kept. -/
theorem keptValue_long (value : Int64) : KeptValue (.long value) := by
  refine keptValue_of_entry .long 0x4a (.long value) Table.long (fun table index hget => ?_)
    rfl fun _ _ _ h => (reads_u8 _).bind h
  simp [Table.long, hget, bind, Except.bind, pure, Except.pure]

/-- A float is kept. -/
theorem keptValue_float (bits : UInt32) : KeptValue (.float bits) := by
  refine keptValue_of_entry .float 0x46 (.float bits) Table.float (fun table index hget => ?_)
    rfl fun _ _ _ h => (reads_u8 _).bind h
  simp [Table.float, hget, bind, Except.bind, pure, Except.pure]

/-- A double is kept. -/
theorem keptValue_double (bits : UInt64) : KeptValue (.double bits) := by
  refine keptValue_of_entry .double 0x44 (.double bits) Table.double (fun table index hget => ?_)
    rfl fun _ _ _ h => (reads_u8 _).bind h
  simp [Table.double, hget, bind, Except.bind, pure, Except.pure]

/-- A text is kept. -/
theorem keptValue_string (value : String) : KeptValue (.string value) :=
  keptValue_of_tagged .string 0x73 Table.utf8 ((puts_utf8 value).mono fun _ _ h => h.2)
    rfl fun _ _ _ h => (reads_u8 _).bind h

/-- A class is kept. -/
theorem keptValue_cls (descriptor : String) : KeptValue (.cls descriptor) :=
  keptValue_of_tagged .cls 0x63 Table.utf8 ((puts_utf8 descriptor).mono fun _ _ h => h.2)
    rfl fun _ _ _ h => (reads_u8 _).bind h

/-- An annotation as a value is kept if its values are. -/
theorem keptValue_nested {type : FieldDescriptor} {values : List (String × ElementValue)}
    (htype : Name.isValid .fieldDescriptor type) (h : ∀ named ∈ values, KeptValue named.2) :
    KeptValue (.nested type values) := by
  unfold KeptValue elementValue
  refine (puts_indexed (puts_named .fieldDescriptor htype)).bind fun index => ?_
  refine (puts_lift fun count hcount _ => count16_eq_ok.mp hcount).bind fun count => ?_
  refine (puts_namedValues h).map ?_
  rintro constants bytes hvalues ⟨hsmall, rfl⟩ ⟨index, rfl, htype⟩ depth hdepth
  obtain ⟨depth, rfl⟩ : ∃ n, depth = n + 1 := ⟨depth - 1, by simp at hdepth; omega⟩
  simp only [List.cons_append, List.length_cons, List.length_append] at hdepth
  obtain ⟨parts, rfl, hparts⟩ := hvalues _
    ((reaches_elementValueWithin constants depth).mono (by omega))
  rw [List.append_assoc]
  refine (reads_u8 0x40).bind ((reads_u16 index).bind (.look htype ?_))
  exact (reads_listOf hparts hsmall).map (ElementValue.nested type)

/-- A list of values is kept if its values are. -/
theorem keptValue_array {values : List ElementValue} (h : ∀ value ∈ values, KeptValue value) :
    KeptValue (.array values) := by
  unfold KeptValue elementValue
  refine (puts_lift fun count hcount _ => count16_eq_ok.mp hcount).bind fun count => ?_
  refine (puts_elementValues h).map ?_
  rintro constants bytes hvalues ⟨hsmall, rfl⟩ depth hdepth
  obtain ⟨depth, rfl⟩ : ∃ n, depth = n + 1 := ⟨depth - 1, by simp at hdepth; omega⟩
  simp only [List.cons_append, List.length_cons, List.length_append] at hdepth
  obtain ⟨parts, rfl, hparts⟩ := hvalues _
    ((reaches_elementValueWithin constants depth).mono (by omega))
  exact (reads_u8 0x5b).bind ((reads_listOf hparts hsmall).map ElementValue.array)

/-- A constant of an enumeration is kept. -/
theorem keptValue_constant {type : FieldDescriptor} (htype : Name.isValid .fieldDescriptor type)
    (name : String) : KeptValue (.constant type name) := by
  unfold KeptValue elementValue
  refine (puts_indexed (puts_named .fieldDescriptor htype)).bind fun first => ?_
  refine (puts_indexed (puts_utf8 name)).map ?_
  rintro constants _ ⟨second, rfl, -, hname⟩ ⟨first, rfl, htype⟩ depth hdepth
  obtain ⟨depth, rfl⟩ : ∃ n, depth = n + 1 := ⟨depth - 1, by simp at hdepth; omega⟩
  refine (reads_u8 0x65).bind ((reads_u16 first).bind (.look htype ?_))
  exact (reads_u16 second).finish (.look hname (reads_pure _))

/-- **Every value of an annotation that is read is kept.**  The induction is on the depth that the
reader may go to. -/
theorem gives_elementValueWithin (table : Table) (depth : Nat) :
    Gives (Decode.elementValueWithin table depth) KeptValue := by
  induction depth with
  | zero =>
      intro cursor value cursor' h
      cases h
  | succ depth ih =>
      refine Gives.after fun tag => ?_
      split
      · exact .after fun _ => .look fun value _ => gives_pure (keptValue_byte value)
      · exact .after fun _ => .look fun value _ => gives_pure (keptValue_char value)
      · exact .after fun _ => .look fun bits _ => gives_pure (keptValue_double bits)
      · exact .after fun _ => .look fun bits _ => gives_pure (keptValue_float bits)
      · exact .after fun _ => .look fun value _ => gives_pure (keptValue_int value)
      · exact .after fun _ => .look fun value _ => gives_pure (keptValue_long value)
      · exact .after fun _ => .look fun value _ => gives_pure (keptValue_short value)
      · exact .after fun _ => .look fun value _ => gives_pure (keptValue_boolean value)
      · exact .after fun _ => .look fun value _ => gives_pure (keptValue_string value)
      · refine .after fun _ => .look fun type htype => .after fun _ => .look fun name _ => ?_
        exact gives_pure (keptValue_constant (Table.named_valid htype) name)
      · exact .after fun _ => .look fun descriptor _ => gives_pure (keptValue_cls descriptor)
      · refine .after fun _ => .look fun type htype => ?_
        have hvalues := gives_listOf (gives_readNamed ⟨table, #[]⟩ ih)
        exact hvalues.bind fun values h =>
          gives_pure (keptValue_nested (Table.named_valid htype) h)
      · exact (gives_listOf ih).bind fun values h => gives_pure (keptValue_array h)
      · exact gives_refuse _

/-- Every value of an annotation that is read is kept. -/
theorem gives_elementValue (table : Table) : Gives (Decode.elementValue table) KeptValue :=
  fun cursor value cursor' h => gives_elementValueWithin table _ cursor value cursor' h

/-- A value that is kept as one of an annotation is kept by itself. -/
theorem KeptValue.kept {value : ElementValue} (h : KeptValue value) :
    Kept elementValue (fun constants => Decode.elementValue constants.table) value :=
  h.mono fun constants bytes hbytes =>
    reaches_elementValue constants bytes.length bytes value (Nat.le_refl _) hbytes

/-- An annotation that is there again when it is written and read. -/
def KeptAnnot : Annot → Prop :=
  Kept annot fun constants => Decode.annot constants.table

/-- Every annotation that is read is kept. -/
theorem gives_annot (table : Table) : Gives (Decode.annot table) KeptAnnot := by
  refine .after fun _ => .look fun type htype => ?_
  have hvalues := gives_listOf (gives_readNamed ⟨table, #[]⟩ (gives_elementValue table))
  refine hvalues.bind fun values hvalues => gives_pure ?_
  refine (puts_indexed (puts_named .fieldDescriptor (Table.named_valid htype))).bind fun index => ?_
  refine (puts_lift fun count hcount _ => count16_eq_ok.mp hcount).bind fun count => ?_
  refine (puts_namedValues hvalues).map ?_
  rintro constants bytes hread ⟨hsmall, rfl⟩ ⟨index, rfl, htype⟩
  obtain ⟨parts, rfl, hparts⟩ := hread _ (reaches_elementValue constants _)
  rw [List.append_assoc]
  refine (reads_u16 index).bind (.look htype ?_)
  exact (reads_listOf hparts hsmall).map (Annot.mk type)

/-- Every list of annotations that is read has kept ones only. -/
theorem gives_annots (table : Table) :
    Gives (Decode.annots table) fun items => ∀ a ∈ items, KeptAnnot a :=
  gives_listOf (gives_annot table)

/-- A list of annotations for each parameter is kept if the annotations are. -/
theorem kept_parameterAnnots {items : List (List Annot)}
    (h : ∀ annots ∈ items, ∀ a ∈ annots, KeptAnnot a) :
    Kept parameterAnnots (fun constants => Decode.parameterAnnots constants.table) items :=
  kept_shortListOf _ fun annots hmem => kept_listOf "annotations" (h annots hmem)

/-- Which type a type annotation is on is read again. -/
theorem reads_annotTarget (target : AnnotTarget) :
    Reads Decode.annotTarget (annotTarget target) target := by
  cases target with
  | classTypeParameter index =>
      exact (reads_u8 _).bind ((reads_u8 index).map AnnotTarget.classTypeParameter)
  | methodTypeParameter index =>
      exact (reads_u8 _).bind ((reads_u8 index).map AnnotTarget.methodTypeParameter)
  | supertype index => exact (reads_u8 _).bind ((reads_u16 index).map AnnotTarget.supertype)
  | classTypeParameterBound parameter bound =>
      exact (reads_u8 _).bind ((reads_u8 parameter).bind
        ((reads_u8 bound).map (AnnotTarget.classTypeParameterBound parameter)))
  | methodTypeParameterBound parameter bound =>
      exact (reads_u8 _).bind ((reads_u8 parameter).bind
        ((reads_u8 bound).map (AnnotTarget.methodTypeParameterBound parameter)))
  | field => exact (reads_u8 _).finish (reads_pure _)
  | result => exact (reads_u8 _).finish (reads_pure _)
  | receiver => exact (reads_u8 _).finish (reads_pure _)
  | formalParameter index =>
      exact (reads_u8 _).bind ((reads_u8 index).map AnnotTarget.formalParameter)
  | throws index => exact (reads_u8 _).bind ((reads_u16 index).map AnnotTarget.throws)

/-- A step into a type is read again. -/
theorem reads_pathStep (step : PathStep) : Reads Decode.pathStep (pathStep step) step := by
  cases step <;> exact (reads_u8 _).bind ((reads_u8 _).finish (reads_pure _))

/-- Every list of type annotations that is read has kept annotations only. -/
theorem gives_typeAnnots (table : Table) :
    Gives (Decode.typeAnnots table) fun items => ∀ a ∈ items, KeptAnnot a.body :=
  gives_listOf <| .after fun _ => .after fun _ =>
    (gives_annot table).bind fun _ hbody => gives_pure hbody

/-- A list of type annotations is kept if the annotations are. -/
theorem kept_typeAnnots {items : List TypeAnnot} (h : ∀ a ∈ items, KeptAnnot a.body) :
    Kept typeAnnots (fun constants => Decode.typeAnnots constants.table) items := by
  refine kept_listOf "type annotations" fun a hmem => ?_
  refine (puts_lift fun count hcount _ => count8_eq_ok.mp hcount).bind fun count => ?_
  refine Puts.map (h a hmem) ?_
  rintro constants body hbody ⟨hsmall, rfl⟩
  have hpath : List.Forall₂ (Reads Decode.pathStep) (a.path.map pathStep) a.path :=
    List.forall₂_map_left_iff.mpr (List.forall₂_same.mpr fun step _ => reads_pathStep step)
  have hlist := reads_shortListOf hpath hsmall
  rw [List.flatMap_def]
  simp only [List.append_assoc]
  refine (reads_annotTarget a.target).bind ?_
  rw [← List.append_assoc]
  exact hlist.bind (hbody.map (TypeAnnot.mk a.target a.path))

/-- All annotations of a declaration are kept. -/
structure KeptAnnots (a : Annots) : Prop where
  visible : ∀ one ∈ a.visible, KeptAnnot one
  invisible : ∀ one ∈ a.invisible, KeptAnnot one
  visibleTypes : ∀ one ∈ a.visibleTypes, KeptAnnot one.body
  invisibleTypes : ∀ one ∈ a.invisibleTypes, KeptAnnot one.body

/-- A declaration without annotations has nothing to keep. -/
theorem keptAnnots_empty : KeptAnnots {} := by
  constructor <;> intro one hmem <;> cases hmem

/-- Reading an attribute with annotations gives kept ones. -/
theorem gives_annotAttribute {table : Table} {name : String} {old : Annots}
    {read : Parse Annots} (h : Decode.annotAttribute? table name old = some read)
    (hold : KeptAnnots old) : Gives read KeptAnnots := by
  unfold Decode.annotAttribute? at h
  split at h
  · cases h
    exact (gives_annots table).bind fun _ hnew => gives_pure { hold with visible := hnew }
  · cases h
    exact (gives_annots table).bind fun _ hnew => gives_pure { hold with invisible := hnew }
  · cases h
    exact (gives_typeAnnots table).bind fun _ hnew => gives_pure { hold with visibleTypes := hnew }
  · cases h
    exact (gives_typeAnnots table).bind fun _ hnew => gives_pure { hold with invisibleTypes := hnew }
  · cases h

section Bearer

variable {α β : Type} {step : Constants → String → Nat → α → Parse α}

/-- Something that has annotations, and reads attributes with annotations as such. -/
structure Bears (step : Constants → String → Nat → α → Parse α) (get : α → Annots)
    (set : α → Annots → α) : Prop where
  get_set : ∀ value a, get (set value a) = a
  set_set : ∀ value a b, set (set value a) b = set value b
  set_get : ∀ value, set value (get value) = value
  reads : ∀ constants name size value read,
    Decode.annotAttribute? constants.table name (get value) = some read →
      step constants name size value = do return set value (← read)

variable {get : α → Annots} {set : α → Annots → α}

/-- One attribute with annotations, which is left out if it has none. -/
theorem Bears.adds (h : Bears step get set) (name : String) {items : List β}
    {write : List β → PoolM Bytes} {read : Constants → Parse (List β)} (hkept : Kept write read items)
    (change : List β → Annots) (value : α)
    (hread : ∀ constants, Decode.annotAttribute? constants.table name (change []) =
      some do return change (← read constants)) :
    Adds step (given (!items.isEmpty) (sized name (write items))) (set value (change []))
      (set value (change items)) := by
  cases items with
  | nil => exact rfl
  | cons first rest =>
      refine ⟨name, carries_sized name (hkept.mono fun constants bytes hbytes => ?_)⟩
      rw [h.reads _ _ _ (set value (change [])) (do return change (← read constants))
        (by rw [h.get_set, hread])]
      have hset := (hbytes.map change).map (set (set value (change [])))
      rwa [h.set_set] at hset

/-- **The annotations of a declaration are read again.** -/
theorem Bears.addsAll (h : Bears step get set) {a : Annots} (ha : KeptAnnots a) {value : α}
    (hvalue : get value = {}) : AddsAll step (annotAttributes a) value (set value a) := by
  have hvisible := h.adds "RuntimeVisibleAnnotations" (kept_listOf "annotations" ha.visible)
    (fun items => { visible := items }) value fun _ => rfl
  have hinvisible := h.adds "RuntimeInvisibleAnnotations" (kept_listOf "annotations" ha.invisible)
    (fun items => { visible := a.visible, invisible := items }) value fun _ => rfl
  have hvisibleTypes := h.adds "RuntimeVisibleTypeAnnotations" (kept_typeAnnots ha.visibleTypes)
    (fun items => { visible := a.visible, invisible := a.invisible, visibleTypes := items })
    value fun _ => rfl
  have hinvisibleTypes :=
    h.adds "RuntimeInvisibleTypeAnnotations" (kept_typeAnnots ha.invisibleTypes)
      (fun items => { a with invisibleTypes := items }) value fun _ => rfl
  have hstart : set value {} = value := by rw [← hvalue, h.set_get]
  rw [hstart] at hvisible
  exact .cons hvisible (.cons hinvisible (.cons hvisibleTypes (.cons hinvisibleTypes (.nil _))))

end Bearer

end Encode

end Downlevel
