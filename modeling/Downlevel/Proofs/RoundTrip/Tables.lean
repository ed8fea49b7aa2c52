import Downlevel.Encode.Code
import Downlevel.Proofs.Locals
import Downlevel.Proofs.Pool.Growth
import Downlevel.Proofs.RoundTrip.Member
import Downlevel.Proofs.RoundTrip.Placed

/-!
# Tables of code that are written and read again

Exception ranges, line numbers and local variables refer to the code by offset.  What a reader
promises of them is that the offsets lie in the code, and that it remembered each of them to be
numbered (`KeptTables`).

In the other direction, tables are written with the places of their labels.  They are read again
with these places, provided that the places lie in the code.
-/

namespace Downlevel

namespace Encode

open Pool PoolM Parse Decode

section Reading

variable {table : Table} {length : UInt16}

/-- An exception range that a reader can give. -/
structure KeptRange (length : UInt16) (range : ExceptionRange) : Prop where
  start : range.start.id < length
  stop : range.stop.id ≤ length
  handler : range.handler.id < length
  caught : ∀ name, range.caught = some name → Name.isValid .className name

/-- A local variable that a reader can give, where it remembers `references`. -/
structure KeptLocal (length : UInt16) (references : List Label) (v : LocalVariable) : Prop where
  start : v.start.id < length
  stop : v.stop.id ≤ length
  start_mem : v.start ∈ references
  stop_mem : v.stop ∈ references
  name : Name.isValid .localVariableName v.name
  descriptor : ∀ descriptor, v.descriptor = some descriptor →
    Name.isValid .fieldDescriptor descriptor

/-- Reading an attribute of code of some length. -/
abbrev codeStep (length : UInt16) (constants : Constants) :
    String → Nat → CodeTables → Parse CodeTables :=
  Decode.codeAttribute constants.table length

/-- Adding an attribute to code that is kept as it is. -/
def addToTables (tables : CodeTables) (other : RawAttribute) : CodeTables :=
  { tables with attributes := tables.attributes ++ [other] }

/-- Tables that a reader can give: all that they refer to lies in the code and is remembered, and
nothing else is. -/
structure KeptTables (length : UInt16) (tables : CodeTables) : Prop where
  lines : ∀ line ∈ tables.lineNumbers.getD [], line.1.id < length ∧ line.1 ∈ tables.references
  locals : ∀ v ∈ tables.localVariables.getD [], KeptLocal length tables.references v
  types : ∀ v ∈ tables.variableTypes, KeptLocal length tables.references v
  described : ∀ v ∈ tables.localVariables.getD [], v.descriptor ≠ none ∧ v.signature = none
  typed : ∀ v ∈ tables.variableTypes, v.descriptor = none ∧ v.signature ≠ none
  referred : ∀ label ∈ tables.references, label ∈ (tables.lineNumbers.getD []).map Prod.fst ∨
    ∃ v, (v ∈ tables.localVariables.getD [] ∨ v ∈ tables.variableTypes) ∧
      (label = v.start ∨ label = v.stop)
  attributes : ∀ one ∈ tables.attributes, ∀ length, IsRaw (codeStep length) addToTables one.name

/-- The end of a range lies in the code. -/
theorem endLabelAt_inside {offset : UInt16} {label : Label}
    (h : endLabelAt length offset = .ok label) : label.id ≤ length := by
  unfold endLabelAt at h
  split at h
  case isTrue hle =>
    cases h
    exact hle
  case isFalse => cases h

/-- A range lies in the code. -/
theorem rangeAt_inside {start size : UInt16} {range : Label × Label}
    (h : rangeAt length start size = .ok range) :
    range.1.id < length ∧ range.2.id ≤ length := by
  unfold rangeAt at h
  split at h
  case isTrue =>
    obtain ⟨first, hfirst, h⟩ := bind_eq_ok.mp h
    obtain ⟨last, hlast, h⟩ := bind_eq_ok.mp h
    cases h
    exact ⟨labelAt_inside hfirst, endLabelAt_inside hlast⟩
  case isFalse => cases h

/-- Every exception range that is read is one that a reader can give. -/
theorem gives_exceptionRange : Gives (exceptionRange table length) (KeptRange length) := by
  refine .after fun _ => .look fun start hstart => .after fun _ => .look fun stop hstop => ?_
  refine .after fun _ => .look fun handler hhandler => .after fun index => ?_
  refine .look fun caught hcaught => gives_pure ⟨labelAt_inside hstart, endLabelAt_inside hstop,
    labelAt_inside hhandler, ?_⟩
  rintro name rfl
  obtain ⟨-, hnone⟩ | ⟨-, found, hfound, heq⟩ := Table.optional_eq_ok.mp hcaught
  · cases hnone
  · cases heq
    exact Table.cls_valid hfound

/-- What is read of a local variable. -/
theorem gives_localVariable
    {describe : UInt16 → Except Error (Option FieldDescriptor × Option Signature)}
    {Q : Option FieldDescriptor × Option Signature → Prop}
    (hdescribe : ∀ index types, describe index = .ok types → Q types) :
    Gives (localVariable table length describe) fun v => v.start.id < length ∧
      v.stop.id ≤ length ∧ Name.isValid .localVariableName v.name ∧ Q (v.descriptor, v.signature) := by
  refine .after fun _ => .after fun _ => .look fun range hrange => .after fun _ => ?_
  refine .look fun name hname => .after fun index => .look fun types htypes => .after fun _ => ?_
  obtain ⟨hfirst, hlast⟩ := rangeAt_inside hrange
  exact gives_pure ⟨hfirst, hlast, Table.named_valid hname, hdescribe index types htypes⟩

/-- What is remembered of local variables is where they start and stop. -/
theorem mem_rangeReferences {old : List Label} {locals : List LocalVariable} {label : Label} :
    label ∈ rangeReferences old locals ↔
      label ∈ old ∨ ∃ v ∈ locals, label = v.start ∨ label = v.stop := by
  unfold rangeReferences
  induction locals generalizing old with
  | nil => simp
  | cons v locals ih =>
      rw [List.foldl_cons, ih]
      simp only [List.mem_cons, exists_eq_or_imp]
      grind

/-- What is remembered of line numbers is where they start. -/
theorem mem_lineReferences {old : List Label} {lines : List (Label × UInt16)} {label : Label} :
    label ∈ lines.foldl (fun labels line => line.1 :: labels) old ↔
      label ∈ old ∨ label ∈ lines.map Prod.fst := by
  induction lines generalizing old with
  | nil => simp
  | cons line lines ih =>
      rw [List.foldl_cons, ih]
      simp only [List.map_cons, List.mem_cons]
      tauto

/-- More references keep a local variable. -/
theorem KeptLocal.mono {references references' : List Label} {v : LocalVariable}
    (h : KeptLocal length references v) (hsub : references ⊆ references') :
    KeptLocal length references' v :=
  { h with start_mem := hsub h.start_mem, stop_mem := hsub h.stop_mem }

/-- More line numbers keep what a reader promises. -/
theorem KeptTables.addLines {tables : CodeTables} (h : KeptTables length tables)
    {lines : List (Label × UInt16)} (hlines : ∀ line ∈ lines, line.1.id < length) :
    KeptTables length { tables with
      lineNumbers := some (tables.lineNumbers.getD [] ++ lines)
      references := lines.foldl (fun labels line => line.1 :: labels) tables.references } where
  lines := by
    rw [Option.getD_some, List.forall_mem_append]
    refine ⟨fun line hline => ⟨(h.lines line hline).1, ?_⟩, fun line hline => ⟨hlines line hline, ?_⟩⟩
    · exact mem_lineReferences.mpr (.inl (h.lines line hline).2)
    · exact mem_lineReferences.mpr (.inr (List.mem_map_of_mem hline))
  locals v hv := (h.locals v hv).mono fun label hlabel => mem_lineReferences.mpr (.inl hlabel)
  types v hv := (h.types v hv).mono fun label hlabel => mem_lineReferences.mpr (.inl hlabel)
  described := h.described
  typed := h.typed
  referred label hlabel := by
    rw [Option.getD_some, List.map_append, List.mem_append, or_assoc]
    rcases mem_lineReferences.mp hlabel with hold | hnew
    · rcases h.referred label hold with hline | hlocal
      · exact .inl hline
      · exact .inr (.inr hlocal)
    · exact .inr (.inl hnew)
  attributes := h.attributes

/-- More local variables keep what a reader promises. -/
theorem KeptTables.addLocals {tables : CodeTables} (h : KeptTables length tables)
    {locals : List LocalVariable}
    (hlocals : ∀ v ∈ locals, v.start.id < length ∧ v.stop.id ≤ length ∧
      Name.isValid .localVariableName v.name ∧
      (∃ descriptor, v.descriptor = some descriptor ∧ Name.isValid .fieldDescriptor descriptor) ∧
      v.signature = none) :
    KeptTables length { tables with
      localVariables := some (tables.localVariables.getD [] ++ locals)
      references := rangeReferences tables.references locals } where
  lines line hline := ⟨(h.lines line hline).1, mem_rangeReferences.mpr (.inl (h.lines line hline).2)⟩
  locals := by
    rw [Option.getD_some, List.forall_mem_append]
    refine ⟨fun v hv => (h.locals v hv).mono fun label hlabel =>
      mem_rangeReferences.mpr (.inl hlabel), fun v hv => ?_⟩
    obtain ⟨hstart, hstop, hname, ⟨descriptor, hdescriptor, hvalid⟩, -⟩ := hlocals v hv
    refine ⟨hstart, hstop, mem_rangeReferences.mpr (.inr ⟨v, hv, .inl rfl⟩),
      mem_rangeReferences.mpr (.inr ⟨v, hv, .inr rfl⟩), hname, ?_⟩
    rintro other hother
    rw [hdescriptor, Option.some.injEq] at hother
    exact hother ▸ hvalid
  types v hv := (h.types v hv).mono fun label hlabel => mem_rangeReferences.mpr (.inl hlabel)
  described := by
    rw [Option.getD_some, List.forall_mem_append]
    refine ⟨h.described, fun v hv => ?_⟩
    obtain ⟨-, -, -, ⟨descriptor, hdescriptor, -⟩, hsignature⟩ := hlocals v hv
    exact ⟨by simp [hdescriptor], hsignature⟩
  typed := h.typed
  referred label hlabel := by
    rcases mem_rangeReferences.mp hlabel with hold | ⟨v, hv, hlabel⟩
    · rcases h.referred label hold with hline | ⟨v, hv | hv, hlabel⟩
      · exact .inl hline
      · exact .inr ⟨v, .inl (List.mem_append_left _ hv), hlabel⟩
      · exact .inr ⟨v, .inr hv, hlabel⟩
    · exact .inr ⟨v, .inl (List.mem_append_right _ hv), hlabel⟩
  attributes := h.attributes

/-- More generic types keep what a reader promises. -/
theorem KeptTables.addTypes {tables : CodeTables} (h : KeptTables length tables)
    {types : List LocalVariable}
    (htypes : ∀ v ∈ types, v.start.id < length ∧ v.stop.id ≤ length ∧
      Name.isValid .localVariableName v.name ∧ v.descriptor = none ∧ v.signature ≠ none) :
    KeptTables length { tables with
      variableTypes := tables.variableTypes ++ types
      references := rangeReferences tables.references types } where
  lines line hline := ⟨(h.lines line hline).1, mem_rangeReferences.mpr (.inl (h.lines line hline).2)⟩
  locals v hv := (h.locals v hv).mono fun label hlabel => mem_rangeReferences.mpr (.inl hlabel)
  types := by
    rw [List.forall_mem_append]
    refine ⟨fun v hv => (h.types v hv).mono fun label hlabel =>
      mem_rangeReferences.mpr (.inl hlabel), fun v hv => ?_⟩
    obtain ⟨hstart, hstop, hname, hdescriptor, -⟩ := htypes v hv
    exact ⟨hstart, hstop, mem_rangeReferences.mpr (.inr ⟨v, hv, .inl rfl⟩),
      mem_rangeReferences.mpr (.inr ⟨v, hv, .inr rfl⟩), hname, by simp [hdescriptor]⟩
  described := h.described
  typed := by
    rw [List.forall_mem_append]
    exact ⟨h.typed, fun v hv => (htypes v hv).2.2.2⟩
  referred label hlabel := by
    rcases mem_rangeReferences.mp hlabel with hold | ⟨v, hv, hlabel⟩
    · rcases h.referred label hold with hline | ⟨v, hv | hv, hlabel⟩
      · exact .inl hline
      · exact .inr ⟨v, .inl hv, hlabel⟩
      · exact .inr ⟨v, .inr (List.mem_append_left _ hv), hlabel⟩
    · exact .inr ⟨v, .inr (List.mem_append_right _ hv), hlabel⟩
  attributes := h.attributes

/-- Every attribute of code keeps what a reader promises. -/
theorem gives_codeAttribute (name : String) (size : Nat) {tables : CodeTables}
    (h : KeptTables length tables) :
    Gives (Decode.codeAttribute table length name size tables) (KeptTables length) := by
  unfold Decode.codeAttribute
  split
  · exact .after fun _ => gives_pure h
  · have hline : Gives (do
          let start ← labelAt length (← u16)
          return (start, ← u16)) fun line : Label × UInt16 => line.1.id < length :=
      .after fun _ => .look fun _ hstart => .after fun _ => gives_pure (labelAt_inside hstart)
    exact (gives_listOf hline).bind fun lines hlines => gives_pure (h.addLines hlines)
  · refine (gives_listOf (gives_localVariable (Q := fun types =>
      (∃ descriptor, types.1 = some descriptor ∧ Name.isValid .fieldDescriptor descriptor) ∧
        types.2 = none) ?_)).bind fun locals hlocals => gives_pure (h.addLocals hlocals)
    intro index types htypes
    obtain ⟨descriptor, hdescriptor, htypes⟩ := bind_eq_ok.mp htypes
    cases htypes
    exact ⟨⟨descriptor, rfl, Table.named_valid hdescriptor⟩, rfl⟩
  · refine (gives_listOf (gives_localVariable (Q := fun types =>
      types.1 = none ∧ types.2 ≠ none) ?_)).bind fun types htypes => gives_pure (h.addTypes htypes)
    intro index types htypes
    obtain ⟨signature, -, htypes⟩ := bind_eq_ok.mp htypes
    cases htypes
    exact ⟨rfl, nofun⟩
  · have hraw : ∀ length, IsRaw (codeStep length) addToTables name := by
      intro length constants size value
      simp only [codeStep, Decode.codeAttribute]
      rfl
    refine (gives_raw name size).bind ?_
    rintro other rfl
    refine gives_pure { h with attributes := fun one hmem => ?_ }
    rcases List.mem_append.mp hmem with hmem | hmem
    · exact h.attributes one hmem
    · rw [List.mem_singleton.mp hmem]
      exact hraw

/-- No tables are tables that a reader can give. -/
theorem keptTables_empty (length : UInt16) : KeptTables length {} where
  lines := nofun
  locals := nofun
  types := nofun
  described := nofun
  typed := nofun
  referred := nofun
  attributes := nofun

/-- **All tables that are read are tables that a reader can give.** -/
theorem gives_codeAttributes :
    Gives (Decode.attributes table (Decode.codeAttribute table length) {}) (KeptTables length) := by
  refine .after fun count => ?_
  refine gives_iterate (fun tables h => ?_) count.toNat (keptTables_empty length)
  exact .after fun _ => .look fun name _ => .after fun size => gives_codeAttribute name size.toNat h

end Reading

section Writing

variable {context : Context}

/-- The label has its place in the code or at its end. -/
def UpTo (labels : Std.HashMap Label Nat) (size : Nat) (label : Label) : Prop :=
  ∀ (place : Nat), labels[label]? = some place → place ≤ size

/-- The offset of a label is that of its place. -/
theorem offsetOfLabel_eq_ok {layout : Layout} {label : Label} {offset : UInt16}
    (h : layout.offsetOfLabel label = .ok offset) :
    ∃ place : Nat, layout.labels[label]? = some place ∧ offset = place.toUInt16 := by
  obtain ⟨place, hplace, h⟩ := bind_eq_ok.mp h
  cases h
  exact ⟨place, orFail_eq_ok.mp hplace, rfl⟩

/-- An offset that was written for a label inside the code is read as its place. -/
theorem labelAt_offset {layout : Layout} {label : Label} {offset : UInt16}
    (h : layout.offsetOfLabel label = .ok offset) (hsize : layout.size < 65536)
    (hinside : Inside layout.labels layout.size label) :
    labelAt layout.size.toUInt16 offset = .ok (placeLabel layout.labels label) := by
  obtain ⟨place, hplace, rfl⟩ := offsetOfLabel_eq_ok h
  rw [placeLabel_eq hplace]
  exact labelAt_eq_ok (hinside place hplace) hsize

/-- An offset that was written for a label is read as its place, also at the end of the code. -/
theorem endLabelAt_offset {layout : Layout} {label : Label} {offset : UInt16}
    (h : layout.offsetOfLabel label = .ok offset) (hsize : layout.size < 65536)
    (hupTo : UpTo layout.labels layout.size label) :
    endLabelAt layout.size.toUInt16 offset = .ok (placeLabel layout.labels label) := by
  obtain ⟨place, hplace, rfl⟩ := offsetOfLabel_eq_ok h
  have hle := hupTo place hplace
  rw [placeLabel_eq hplace, endLabelAt, if_pos]
  rw [UInt16.le_iff_toNat_le, UInt16.toNat_ofNat_of_lt' hsize,
    UInt16.toNat_ofNat_of_lt' (hle.trans_lt hsize)]
  exact hle

/-- A range that was written as a start and a size is read as the places of its ends. -/
theorem rangeAt_offsets {layout : Layout} {first last : Label} {start stop : UInt16}
    (hstart : layout.offsetOfLabel first = .ok start)
    (hstop : layout.offsetOfLabel last = .ok stop) (hforward : ¬ stop < start)
    (hsize : layout.size < 65536) (hinside : Inside layout.labels layout.size first)
    (hupTo : UpTo layout.labels layout.size last) :
    rangeAt layout.size.toUInt16 start (stop - start) =
      .ok (placeLabel layout.labels first, placeLabel layout.labels last) := by
  have hle : start.toNat ≤ stop.toNat := Nat.le_of_not_lt fun hlt =>
    hforward (UInt16.lt_iff_toNat_lt.mpr hlt)
  have hsum : start.toNat + (stop - start).toNat < 65536 := by
    rw [UInt16.toNat_sub_of_le _ _ (UInt16.le_iff_toNat_le.mpr hle)]
    have := stop.toNat_lt
    omega
  rw [rangeAt, if_pos hsum, UInt16.add_comm, UInt16.sub_add_cancel,
    labelAt_offset hstart hsize hinside, endLabelAt_offset hstop hsize hupTo]
  rfl

/-- Line numbers are read again at the places of their labels. -/
theorem carries_lineNumberTable {lines : List (Label × UInt16)}
    (hsize : context.layout.size < 65536)
    (hlines : ∀ line ∈ lines, Inside context.layout.labels context.layout.size line.1) :
    Carries "LineNumberTable" (fun _ contents => Reads (Parse.listOf do
        let start ← labelAt context.layout.size.toUInt16 (← u16)
        return (start, ← u16))
      contents (lines.map fun line => (placeLabel context.layout.labels line.1, line.2)))
      (context.lineNumberTable lines) := by
  refine carries_sized "LineNumberTable" (puts_listOf "line numbers" fun line hline => ?_)
  refine (puts_lift fun start hstart _ => hstart).map fun _ start hstart => ?_
  refine (reads_u16 start).bind (.look (labelAt_offset hstart hsize (hlines line hline)) ?_)
  exact (reads_u16 line.2).map (Prod.mk _)

/-- An entry for a local variable is read again with the places of its labels. -/
theorem puts_variableEntry {v : LocalVariable} {type : String}
    {describe : Constants → UInt16 → Except Error (Option FieldDescriptor × Option Signature)}
    {types : Option FieldDescriptor × Option Signature} (hsize : context.layout.size < 65536)
    (hstart : Inside context.layout.labels context.layout.size v.start)
    (hstop : UpTo context.layout.labels context.layout.size v.stop)
    (hname : Name.isValid .localVariableName v.name)
    (htype : Puts (PoolM.utf8 type) fun constants index => describe constants index = .ok types) :
    Puts (context.variableEntry v type) fun constants bytes =>
      Reads (localVariable constants.table context.layout.size.toUInt16 (describe constants)) bytes
        ⟨placeLabel context.layout.labels v.start, placeLabel context.layout.labels v.stop, v.name,
          types.1, types.2, v.slot⟩ := by
  refine (puts_lift fun start hoffset _ => hoffset).bind fun start => ?_
  refine (puts_lift fun stop hoffset _ => hoffset).bind fun stop => ?_
  split
  case isTrue => exact puts_refuse _
  case isFalse hforward =>
    refine (puts_named .localVariableName hname).bind fun name => htype.map ?_
    intro constants index htypes hname hlast hfirst
    simp only [List.append_assoc]
    refine (reads_u16 start).bind ((reads_u16 (stop - start)).bind
      (.look (rangeAt_offsets hfirst hlast hforward hsize hstart hstop) ?_))
    refine (reads_u16 name).bind (.look hname ((reads_u16 index).bind (.look htypes ?_)))
    exact (reads_u16 v.slot).map _

/-- What is read again of the line numbers of code. -/
def lineTables (code : Code) : CodeTables where
  lineNumbers := code.lineNumbers
  references := (code.lineNumbers.getD []).foldl (fun labels line => line.1 :: labels) []

/-- What is read again of line numbers and descriptors of local variables. -/
def localTables (code : Code) : CodeTables :=
  let locals := described (code.localVariables.getD [])
  { lineTables code with
    localVariables := (some locals).filter fun items => !items.isEmpty
    references := rangeReferences (lineTables code).references locals }

/-- What is read again of line numbers and local variables. -/
def typeTables (code : Code) : CodeTables :=
  let types := typed (code.localVariables.getD [])
  { localTables code with
    variableTypes := types
    references := rangeReferences (localTables code).references types }

/-- What is read again of all tables of code. -/
def allTables (code : Code) : CodeTables :=
  { typeTables code with attributes := code.attributes }

/-- The local variables of code as the reader has them before labels are numbered. -/
theorem allLocals_allTables {code : Code} (h : Merged (code.localVariables.getD [])) :
    (allTables code).allLocals = code.localVariables.filter fun items => !items.isEmpty := by
  rw [allLocals_restore h rfl rfl]
  cases code.localVariables <;> rfl

/-- What is needed to write the tables of code at the places of its labels. -/
structure WritableTables (context : Context) : Prop where
  size : context.layout.size < 65536
  inner : ∀ label ∈ context.code.inner, Inside context.layout.labels context.layout.size label
  stops : ∀ label ∈ context.code.stops, UpTo context.layout.labels context.layout.size label
  names : ∀ v ∈ context.code.localVariables.getD [], Name.isValid .localVariableName v.name ∧
    ∀ descriptor, v.descriptor = some descriptor → Name.isValid .fieldDescriptor descriptor
  caught : ∀ range ∈ context.code.exceptions, ∀ name, range.caught = some name →
    Name.isValid .className name
  attributes : ∀ one ∈ context.code.attributes, ∀ length,
    IsRaw (codeStep length) addToTables one.name

/-- The code with the places of its labels in place of the labels. -/
abbrev Context.placedCode (context : Context) : Code :=
  context.code.mapLabels (placeLabel context.layout.labels)

/-- The attribute with line numbers is read again. -/
theorem adds_lineNumberTable (h : WritableTables context) :
    Adds (codeStep context.layout.size.toUInt16)
      (context.code.lineNumbers.map context.lineNumberTable) {} (lineTables context.placedCode) := by
  have hlines : ∀ lines, context.code.lineNumbers = some lines → ∀ line ∈ lines,
      Inside context.layout.labels context.layout.size line.1 := by
    intro lines hlines line hline
    refine h.inner line.1 ?_
    simp only [Code.inner, hlines, Option.getD_some, List.mem_append, List.mem_map]
    exact .inl (.inr ⟨line, hline, rfl⟩)
  cases hcode : context.code.lineNumbers with
  | none =>
      show _ = lineTables _
      simp [lineTables, Code.mapLabels, hcode]
  | some lines =>
      refine ⟨_, (carries_lineNumberTable h.size (hlines lines hcode)).mono ?_⟩
      intro constants contents hread
      have hresult := hread.map fun found : List (Label × UInt16) =>
        ({ lineNumbers := some found
           references := found.foldl (fun labels line => line.1 :: labels) [] } : CodeTables)
      simp only [lineTables, Code.mapLabels, hcode]
      exact hresult

/-- The entries of a table of local variables, each with the text about its type. -/
def tableEntries (locals : List LocalVariable) (type? : LocalVariable → Option String) :
    List (LocalVariable × String) :=
  locals.filterMap fun v => (type? v).map fun type => (v, type)

/-- Entries are about the variables of the code. -/
theorem mem_tableEntries {locals : List LocalVariable} {type? : LocalVariable → Option String}
    {entry : LocalVariable × String} (h : entry ∈ tableEntries locals type?) :
    entry.1 ∈ locals ∧ type? entry.1 = some entry.2 := by
  obtain ⟨v, hv, hentry⟩ := List.mem_filterMap.mp h
  obtain ⟨type, htype, rfl⟩ := Option.map_eq_some_iff.mp hentry
  exact ⟨hv, htype⟩

/-- A table of local variables is read again with the places of their labels. -/
theorem carries_variableTable (h : WritableTables context) (name what : String)
    (type? : LocalVariable → Option String)
    (describe : Constants → UInt16 → Except Error (Option FieldDescriptor × Option Signature))
    (types : String → Option FieldDescriptor × Option Signature)
    (htypes : ∀ v ∈ context.code.localVariables.getD [], ∀ type, type? v = some type →
      Puts (PoolM.utf8 type) fun constants index => describe constants index = .ok (types type)) :
    Carries name (fun constants contents =>
      Reads (Parse.listOf (localVariable constants.table context.layout.size.toUInt16
        (describe constants))) contents
        ((tableEntries (context.code.localVariables.getD []) type?).map fun entry =>
          ⟨placeLabel context.layout.labels entry.1.start,
            placeLabel context.layout.labels entry.1.stop, entry.1.name, (types entry.2).1,
            (types entry.2).2, entry.1.slot⟩))
      (sized name (listOf what (tableEntries (context.code.localVariables.getD []) type?)
        fun entry => context.variableEntry entry.1 entry.2)) := by
  refine carries_sized name (puts_listOf what fun entry hentry => ?_)
  obtain ⟨hv, htype⟩ := mem_tableEntries hentry
  refine puts_variableEntry h.size (h.inner _ ?_) (h.stops _ ?_) (h.names _ hv).1
    (htypes _ hv _ htype)
  · exact List.mem_append_right _ (List.mem_map_of_mem hv)
  · exact List.mem_append_right _ (List.mem_map_of_mem hv)

/-- Entries with descriptors are what the table of descriptors has. -/
theorem described_mapLabels (g : Label → Label) (locals : List LocalVariable) :
    described (locals.map (LocalVariable.mapLabels g)) =
      (tableEntries locals LocalVariable.descriptor).map fun entry =>
        ⟨g entry.1.start, g entry.1.stop, entry.1.name, some entry.2, none, entry.1.slot⟩ := by
  rw [described, tableEntries, List.filterMap_map, List.map_filterMap]
  congr 1
  funext v
  rw [Option.map_map]
  show v.descriptor.map _ = v.descriptor.map _
  cases hdescriptor : v.descriptor with
  | none => rfl
  | some descriptor => simp [LocalVariable.mapLabels, LocalVariable.withoutSignature, hdescriptor]

/-- Entries with generic types are what the table of generic types has. -/
theorem typed_mapLabels (g : Label → Label) (locals : List LocalVariable) :
    typed (locals.map (LocalVariable.mapLabels g)) =
      (tableEntries locals LocalVariable.signature).map fun entry =>
        ⟨g entry.1.start, g entry.1.stop, entry.1.name, none, some entry.2, entry.1.slot⟩ := by
  rw [typed, tableEntries, List.filterMap_map, List.map_filterMap]
  congr 1
  funext v
  rw [Option.map_map]
  show v.signature.map _ = v.signature.map _
  cases hsignature : v.signature with
  | none => rfl
  | some signature => simp [LocalVariable.mapLabels, LocalVariable.withoutDescriptor, hsignature]

/-- The attribute with descriptors of local variables is read again. -/
theorem adds_localVariableTable (h : WritableTables context) :
    Adds (codeStep context.layout.size.toUInt16)
      (context.variableTable? "LocalVariableTable" "local variables"
        (context.code.localVariables.getD []) LocalVariable.descriptor)
      (lineTables context.placedCode) (localTables context.placedCode) := by
  have hentries := described_mapLabels (placeLabel context.layout.labels)
    (context.code.localVariables.getD [])
  rw [← Code.localVariables_mapLabels] at hentries
  refine adds_entries "LocalVariableTable" ?_ ?_
  · intro hempty
    rw [tableEntries, hempty, List.map_nil] at hentries
    rw [localTables, hentries]
    rfl
  · intro hsome
    refine (carries_variableTable h "LocalVariableTable" "local variables"
      LocalVariable.descriptor
      (fun constants index => do
        return (some (← constants.table.named .fieldDescriptor index), none))
      (fun type => (some type, none)) ?_).mono ?_
    · intro v hv type htype
      refine (puts_named .fieldDescriptor ((h.names v hv).2 type htype)).mono ?_
      intro constants index hlook
      rw [hlook]
      rfl
    · intro constants contents hread
      rw [← hentries] at hread
      have hnonempty : described (context.placedCode.localVariables.getD []) ≠ [] := by
        rw [hentries]
        exact fun hnil => hsome (List.map_eq_nil_iff.mp hnil)
      have hresult := hread.map fun found : List LocalVariable =>
        { lineTables context.placedCode with
          localVariables := some found
          references := rangeReferences (lineTables context.placedCode).references found }
      simp only [localTables, Option.filter_some, List.isEmpty_eq_false_iff.mpr hnonempty]
      exact hresult

/-- The attribute with generic types of local variables is read again. -/
theorem adds_localVariableTypeTable (h : WritableTables context) :
    Adds (codeStep context.layout.size.toUInt16)
      (context.variableTable? "LocalVariableTypeTable" "local variable types"
        (context.code.localVariables.getD []) LocalVariable.signature)
      (localTables context.placedCode) (typeTables context.placedCode) := by
  have hentries := typed_mapLabels (placeLabel context.layout.labels)
    (context.code.localVariables.getD [])
  rw [← Code.localVariables_mapLabels] at hentries
  refine adds_entries "LocalVariableTypeTable" ?_ ?_
  · intro hempty
    rw [tableEntries, hempty, List.map_nil] at hentries
    rw [typeTables, hentries]
    rfl
  · intro hsome
    refine (carries_variableTable h "LocalVariableTypeTable" "local variable types"
      LocalVariable.signature
      (fun constants index => do return (none, some (← constants.table.utf8 index)))
      (fun type => (none, some type)) ?_).mono ?_
    · intro v hv type htype
      refine (puts_utf8 type).mono ?_
      rintro constants index ⟨-, hlook⟩
      rw [hlook]
      rfl
    · intro constants contents hread
      rw [← hentries] at hread
      exact hread.map fun found : List LocalVariable =>
        { localTables context.placedCode with
          variableTypes := found
          references := rangeReferences (localTables context.placedCode).references found }

/-- Whatever frames are written, the reader passes over them. -/
theorem adds_stackMapTable (computeFrames : Bool) (indices : List Nat) (length : UInt16)
    (tables : CodeTables) :
    Adds (codeStep length) (if computeFrames then context.stackMapTable? indices else none)
      tables tables := by
  split
  case isFalse => exact rfl
  case isTrue =>
    unfold Context.stackMapTable?
    split
    · exact rfl
    · next frames hframes =>
      refine adds_entries "StackMapTable" (fun _ => rfl) fun _ => ?_
      refine (carries_sized "StackMapTable" (Q := fun _ _ => True) ?_).mono ?_
      · exact Enlarges.puts
      · intro constants contents _
        exact (reads_skip contents).finish (reads_pure tables)

/-- Adding attributes that are kept as they are adds them all. -/
theorem foldl_addToTables (kept : List RawAttribute) (tables : CodeTables) :
    kept.foldl addToTables tables = { tables with attributes := tables.attributes ++ kept } := by
  induction kept generalizing tables with
  | nil => simp
  | cons one kept ih => simp [ih, addToTables]

/-- **The tables of code are read again**, with the places of labels in place of labels. -/
theorem addsAll_code (h : WritableTables context) (computeFrames : Bool) (indices : List Nat) :
    AddsAll (codeStep context.layout.size.toUInt16) (context.attributes computeFrames indices)
      {} (allTables context.placedCode) := by
  have hraw : AddsAll (codeStep context.layout.size.toUInt16)
      (context.code.attributes.map fun one => some (raw one)) (typeTables context.placedCode)
      (context.code.attributes.foldl addToTables (typeTables context.placedCode)) :=
    addsAll_raw (fun one hone => h.attributes one hone _) (typeTables context.placedCode)
  rw [foldl_addToTables] at hraw
  exact AddsAll.append (.cons (adds_stackMapTable _ _ _ _) (.cons (adds_lineNumberTable h)
    (.cons (adds_localVariableTable h) (.cons (adds_localVariableTypeTable h) (.nil _))))) hraw

/-- An exception range outside of which nothing is taken is read again. -/
theorem puts_exceptionRanges (h : WritableTables context) (hlive : context.deadOffsets = [])
    {range : ExceptionRange} (hrange : range ∈ context.code.exceptions) :
    Puts (context.exceptionRanges range) fun constants parts => ∃ bytes, parts = [bytes] ∧
      Reads (exceptionRange constants.table context.layout.size.toUInt16) bytes
        (range.mapLabels (placeLabel context.layout.labels)) := by
  obtain ⟨hfrom, hto, hcatch⟩ := Code.mem_of_range hrange
  refine (puts_lift fun start hoffset _ => hoffset).bind fun start => ?_
  refine (puts_lift fun stop hoffset _ => hoffset).bind fun stop => ?_
  refine (puts_lift fun handler hoffset _ => hoffset).bind fun handler => ?_
  rw [hlive]
  have hcaught : ∀ name, range.caught = some name → Puts (PoolM.cls name) fun constants index =>
      index ≠ 0 ∧ constants.table.cls index = .ok name := fun name hname =>
    puts_cls (h.caught range hrange name hname)
  refine (puts_optional hcaught).map ?_
  intro constants caught hcaught hhandler hstop hstart
  refine ⟨_, rfl, ?_⟩
  simp only [UInt16.ofNat_toNat, List.append_assoc]
  refine (reads_u16 start).bind
    (.look (labelAt_offset hstart h.size (h.inner _ hfrom)) ?_)
  refine (reads_u16 stop).bind (.look (endLabelAt_offset hstop h.size (h.stops _ hto)) ?_)
  refine (reads_u16 handler).bind
    (.look (labelAt_offset hhandler h.size (h.inner _ hcatch)) ?_)
  exact (reads_u16 caught).finish (.look hcaught (reads_pure _))

/-- **Exception ranges are read again**, with the places of labels in place of labels, if no code is
taken out of them. -/
theorem puts_exceptionTable (h : WritableTables context) (hlive : context.deadOffsets = []) :
    Puts context.exceptionTable fun constants bytes =>
      Reads (Parse.listOf (exceptionRange constants.table context.layout.size.toUInt16)) bytes
        context.placedCode.exceptions := by
  refine (puts_mapM fun range hrange => puts_exceptionRanges h hlive hrange).bind fun parts => ?_
  refine (puts_lift fun count hcount _ => count16_eq_ok.mp hcount).map ?_
  rintro constants count ⟨hsmall, rfl⟩ hparts
  have hreads : List.Forall₂
      (Reads (exceptionRange constants.table context.layout.size.toUInt16)) parts.flatten
      context.placedCode.exceptions := by
    show List.Forall₂ _ _ (context.code.exceptions.map _)
    rw [List.forall₂_map_right_iff]
    clear hsmall
    generalize context.code.exceptions = ranges at hparts
    induction hparts with
    | nil => exact .nil
    | cons hfirst _ ih =>
        obtain ⟨bytes, rfl, hread⟩ := hfirst
        exact .cons hread ih
  rw [hreads.length_eq] at hsmall ⊢
  exact reads_listOf hreads hsmall

end Writing

end Encode

end Downlevel
