import Downlevel.Proofs.RoundTrip.Offsets
import Downlevel.Proofs.RoundTrip.Places
import Downlevel.Proofs.RoundTrip.Tables

/-!
# The code of a method that is written and read again

All parts of code come together here: instructions at their places, and tables with places in place
of labels.  The reader then numbers the places.  In code that was read no label stands at two
places, and exactly those labels are placed that something refers to.  So the places are numbered
as the labels were, but for the order; what is read again is the code with other labels.

* `gives_code` — what is known of code that was read;
* `reads_code` — such code, if it is written without replacing any instruction, is read again.
-/

namespace Downlevel

namespace Encode

open Pool PoolM Parse Decode

section Reading

/-- Code that a reader can give. -/
structure KeptCode (code : Code) : Prop where
  tidy : code.Tidy
  instructions : ∀ entry ∈ code.instructions, entry.instruction.Readable
  caught : ∀ range ∈ code.exceptions, ∀ name, range.caught = some name →
    Name.isValid .className name
  merged : Merged (code.localVariables.getD [])
  names : ∀ v ∈ code.localVariables.getD [], Name.isValid .localVariableName v.name ∧
    ∀ descriptor, v.descriptor = some descriptor → Name.isValid .fieldDescriptor descriptor
  attributes : ∀ one ∈ code.attributes, ∀ length, IsRaw (codeStep length) addToTables one.name

/-- Code as a reader has it before labels are numbered: all labels are offsets, and the offsets of
instructions stand beside them. -/
structure ReadCode (length : UInt16) (instructions : List (UInt16 × Instruction))
    (exceptions : List ExceptionRange) (tables : CodeTables) : Prop where
  offsets : (instructions.map fun one => one.1.toNat).Pairwise (· < ·)
  inside : ∀ one ∈ instructions, one.1.toNat < length.toNat
  instructions : ∀ one ∈ instructions, ReadableAt length one.2
  exceptions : ∀ range ∈ exceptions, KeptRange length range
  tables : KeptTables length tables

variable {length : UInt16} {instructions : List (UInt16 × Instruction)}
  {exceptions : List ExceptionRange} {tables : CodeTables}

/-- The code of which only the offsets of instructions are missing. -/
def offsetCode (instructions : List (UInt16 × Instruction)) (exceptions : List ExceptionRange)
    (tables : CodeTables) : Code where
  instructions := instructions.map fun one => ⟨none, one.2⟩
  exceptions := exceptions
  lineNumbers := tables.lineNumbers
  localVariables := tables.allLocals
  attributes := tables.attributes

/-- All local variables are those with descriptors with generic types added. -/
theorem getD_allLocals : tables.allLocals.getD [] =
    tables.variableTypes.foldl addVariableType (tables.localVariables.getD []) := by
  unfold CodeTables.allLocals
  split
  case isTrue hempty => rw [List.isEmpty_iff.mp hempty, List.foldl_nil]
  case isFalse => rw [Option.getD_some]

/-- All local variables are some that a reader can give. -/
theorem KeptTables.allLocals (h : KeptTables length tables) :
    ∀ v ∈ tables.allLocals.getD [], KeptLocal length tables.references v := by
  rw [getD_allLocals]
  exact forall_foldl_addVariableType h.locals h.types fun v signature hv => { hv with }

/-- All local variables were put together from two tables. -/
theorem KeptTables.merged (h : KeptTables length tables) : Merged (tables.allLocals.getD []) := by
  rw [getD_allLocals]
  exact merged_foldl (merged_described (fun v hv => (h.described v hv).1)
    fun v hv => (h.described v hv).2) h.typed

/-- What tables refer to is what line numbers and local variables refer to. -/
theorem KeptTables.mem_references (h : KeptTables length tables) {label : Label} :
    label ∈ tables.references ↔ label ∈ (tables.lineNumbers.getD []).map Prod.fst ∨
      ∃ v ∈ tables.allLocals.getD [], label = v.start ∨ label = v.stop := by
  constructor
  · intro hlabel
    rcases h.referred label hlabel with hline | ⟨v, hv, hlabel⟩
    · exact .inl hline
    · obtain ⟨w, hw, hstart, hstop, -, -⟩ := exists_alike_foldl hv
      rw [← getD_allLocals] at hw
      rw [← hstart, ← hstop] at hlabel
      exact .inr ⟨w, hw, hlabel⟩
  · rintro (hline | ⟨v, hv, rfl | rfl⟩)
    · obtain ⟨line, hmem, rfl⟩ := List.mem_map.mp hline
      exact (h.lines line hmem).2
    · exact (h.allLocals v hv).start_mem
    · exact (h.allLocals v hv).stop_mem

/-- Offsets of instructions and the end of the code are different. -/
theorem ReadCode.nodup (h : ReadCode length instructions exceptions tables) :
    (offsetsOf length instructions).Nodup := by
  have hnodup : ((offsetsOf length instructions).map fun label => label.id.toNat).Nodup := by
    simp only [offsetsOf, List.map_append, List.map_map, List.map_cons, List.map_nil]
    refine List.nodup_append.mpr ⟨h.offsets.imp fun hlt => hlt.ne, List.nodup_singleton _, ?_⟩
    intro a ha b hb
    obtain ⟨one, hone, rfl⟩ := List.mem_map.mp ha
    rw [List.mem_singleton.mp hb]
    exact (h.inside one hone).ne
  exact List.Nodup.of_map _ hnodup

/-- What must be on an instruction lies before the end of the code. -/
theorem ReadCode.inner_lt (h : ReadCode length instructions exceptions tables) :
    ∀ label ∈ (offsetCode instructions exceptions tables).inner, label.id < length := by
  simp only [Code.inner, offsetCode, List.flatMap_map, List.forall_mem_append, List.forall_mem_map,
    List.mem_flatMap, forall_exists_index, and_imp]
  refine ⟨⟨⟨?_, ?_⟩, fun line hline => (h.tables.lines line hline).1⟩,
    fun v hv => (h.tables.allLocals v hv).start⟩
  · intro label one hone hlabel
    exact (h.instructions one hone).inside label hlabel
  · intro label range hrange hlabel
    simp only [List.mem_cons, List.not_mem_nil, or_false] at hlabel
    rcases hlabel with rfl | rfl
    · exact (h.exceptions range hrange).start
    · exact (h.exceptions range hrange).handler

/-- All that code refers to is remembered, and nothing else. -/
theorem ReadCode.mem_references (h : ReadCode length instructions exceptions tables)
    {label : Label} :
    label ∈ referencesOf instructions exceptions tables ↔
      label ∈ (offsetCode instructions exceptions tables).inner ∨
        label ∈ (offsetCode instructions exceptions tables).stops := by
  simp only [referencesOf, Code.inner, Code.stops, offsetCode, List.mem_append, List.mem_reverse,
    h.tables.mem_references, List.flatMap_map, List.mem_flatMap, List.mem_map, List.mem_cons,
    List.not_mem_nil, or_false]
  constructor
  · rintro ((htarget | ⟨range, hrange, rfl | rfl | rfl⟩) | (hline | ⟨v, hv, rfl | rfl⟩))
    · exact .inl (.inl (.inl (.inl htarget)))
    · exact .inl (.inl (.inl (.inr ⟨range, hrange, .inl rfl⟩)))
    · exact .inr (.inl ⟨range, hrange, rfl⟩)
    · exact .inl (.inl (.inl (.inr ⟨range, hrange, .inr rfl⟩)))
    · exact .inl (.inl (.inr hline))
    · exact .inl (.inr ⟨v, hv, rfl⟩)
    · exact .inr (.inr ⟨v, hv, rfl⟩)
  · rintro ((((htarget | ⟨range, hrange, rfl | rfl⟩) | hline) | ⟨v, hv, rfl⟩) |
      (⟨range, hrange, rfl⟩ | ⟨v, hv, rfl⟩))
    · exact .inl (.inl htarget)
    · exact .inl (.inr ⟨range, hrange, .inl rfl⟩)
    · exact .inl (.inr ⟨range, hrange, .inr (.inr rfl)⟩)
    · exact .inr (.inl hline)
    · exact .inr (.inr ⟨v, hv, .inl rfl⟩)
    · exact .inl (.inr ⟨range, hrange, .inr (.inl rfl)⟩)
    · exact .inr (.inr ⟨v, hv, .inr rfl⟩)

variable {references : List Label} {maxStack maxLocals : UInt16}

/-- Labels are the numbers of the offsets that are referred to. -/
theorem filterMap_labelFor (offsets : List UInt16) :
    offsets.filterMap (labelFor references) =
      ((offsets.map Label.mk).filter fun offset => offset ∈ references).map
        (numberOf references) := by
  induction offsets with
  | nil => rfl
  | cons offset offsets ih =>
      by_cases hmem : (⟨offset⟩ : Label) ∈ references
      · rw [List.filterMap_cons_some (by rw [labelFor, if_pos hmem]), List.map_cons,
          List.filter_cons_of_pos (by simpa using hmem), List.map_cons, ih]
      · rw [List.filterMap_cons_none (by rw [labelFor, if_neg hmem]), List.map_cons,
          List.filter_cons_of_neg (by simpa using hmem), ih]

/-- The labels on numbered instructions. -/
theorem placed_numbered :
    (numbered references length instructions exceptions tables maxStack maxLocals).placed =
      (instructions.map Prod.fst).filterMap (labelFor references) := by
  simp only [Code.placed, numbered, List.filterMap_map]
  rfl

/-- The labels of numbered code. -/
theorem labels_numbered :
    (numbered references length instructions exceptions tables maxStack maxLocals).labels =
      ((offsetsOf length instructions).filter fun offset => offset ∈ references).map
        (numberOf references) := by
  have hlast : (labelFor references length).toList = [length].filterMap (labelFor references) := by
    cases hlabel : labelFor references length with
    | none => rw [List.filterMap_cons_none hlabel, List.filterMap_nil, Option.toList_none]
    | some label => rw [List.filterMap_cons_some hlabel, List.filterMap_nil, Option.toList_some]
  have hoffsets : offsetsOf length instructions =
      (instructions.map Prod.fst ++ [length]).map Label.mk := by
    rw [offsetsOf, List.map_append, List.map_map]
    rfl
  rw [hoffsets, ← filterMap_labelFor, List.filterMap_append, ← hlast, ← placed_numbered]
  rfl

/-- The labels in numbered code that must be on instructions. -/
theorem inner_numbered :
    (numbered references length instructions exceptions tables maxStack maxLocals).inner =
      (offsetCode instructions exceptions tables).inner.map (numberOf references) := by
  rw [← Code.inner_mapLabels]
  simp only [Code.inner, numbered, offsetCode, Code.mapLabels, List.map_map, List.flatMap_map]
  rfl

/-- The labels in numbered code where ranges end. -/
theorem stops_numbered :
    (numbered references length instructions exceptions tables maxStack maxLocals).stops =
      (offsetCode instructions exceptions tables).stops.map (numberOf references) := by
  rw [← Code.stops_mapLabels]
  rfl

/-- Numbered code has no label at two places, and places those that are referred to. -/
theorem ReadCode.tidy (h : ReadCode length instructions exceptions tables)
    (hplaced : ∀ offset ∈ referencesOf instructions exceptions tables,
      offset ∈ offsetsOf length instructions) :
    (numbered (referencesOf instructions exceptions tables) length instructions exceptions tables
      maxStack maxLocals).Tidy := by
  constructor
  · rw [labels_numbered]
    refine List.Nodup.map_on ?_ (h.nodup.filter _)
    intro a ha b hb heq
    rw [List.mem_filter, decide_eq_true_iff] at ha hb
    exact injOn_numberOf _ ha.2 hb.2 heq
  · intro label hlabel
    rw [inner_numbered] at hlabel
    obtain ⟨offset, hoffset, rfl⟩ := List.mem_map.mp hlabel
    have hreferred := h.mem_references.mpr (.inl hoffset)
    have hne : offset ≠ ⟨length⟩ := by
      rintro rfl
      exact UInt16.lt_irrefl _ (h.inner_lt _ hoffset)
    have hmem : offset ∈ (instructions.map Prod.fst).map Label.mk := by
      rcases List.mem_append.mp (hplaced offset hreferred) with hmem | hmem
      · rw [List.map_map]
        exact hmem
      · exact absurd (List.mem_singleton.mp hmem) hne
    rw [placed_numbered, filterMap_labelFor]
    exact List.mem_map_of_mem (List.mem_filter.mpr ⟨hmem, decide_eq_true hreferred⟩)
  · intro label hlabel
    rw [stops_numbered] at hlabel
    obtain ⟨offset, hoffset, rfl⟩ := List.mem_map.mp hlabel
    have hreferred := h.mem_references.mpr (.inr hoffset)
    rw [labels_numbered]
    exact List.mem_map_of_mem (List.mem_filter.mpr ⟨hplaced offset hreferred,
      decide_eq_true hreferred⟩)
  · intro label hlabel
    rw [labels_numbered] at hlabel
    obtain ⟨offset, hoffset, rfl⟩ := List.mem_map.mp hlabel
    rw [List.mem_filter, decide_eq_true_iff] at hoffset
    rw [inner_numbered, stops_numbered]
    exact (h.mem_references.mp hoffset.2).imp List.mem_map_of_mem List.mem_map_of_mem

/-- **Numbering code that was read gives code that a reader can give.** -/
theorem ReadCode.keptCode (h : ReadCode length instructions exceptions tables) {code : Code}
    (hcode : numberLabels length instructions exceptions tables maxStack maxLocals = .ok code) :
    KeptCode code := by
  obtain ⟨hplaced, rfl⟩ := (numberLabels_eq_ok h.nodup).mp hcode
  have hlocals : (numbered (referencesOf instructions exceptions tables) length instructions
      exceptions tables maxStack maxLocals).localVariables.getD [] =
      (tables.allLocals.getD []).map (LocalVariable.mapLabels
        (numberOf (referencesOf instructions exceptions tables))) := by
    show (tables.allLocals.map _).getD [] = _
    cases tables.allLocals <;> rfl
  have hreferences : ∀ label ∈ tables.references,
      label ∈ referencesOf instructions exceptions tables := fun label hlabel =>
    List.mem_append_right _ (List.mem_reverse.mpr hlabel)
  refine ⟨h.tidy hplaced, ?_, ?_, ?_, ?_, h.tables.attributes⟩
  · refine List.forall_mem_map.mpr fun one hone => ?_
    exact (h.instructions one hone).readable.mapLabels _
  · exact List.forall_mem_map.mpr fun range hrange => (h.exceptions range hrange).caught
  · rw [hlocals]
    refine h.tables.merged.mapLabels (injOn_numberOf _) fun v hv => ?_
    have hv := h.tables.allLocals v hv
    exact ⟨hreferences _ hv.start_mem, hreferences _ hv.stop_mem⟩
  · rw [hlocals]
    refine List.forall_mem_map.mpr fun v hv => ?_
    have hv := h.tables.allLocals v hv
    exact ⟨hv.name, hv.descriptor⟩

/-- **All code that is read is code that a reader can give.** -/
theorem gives_code {table : Table} {bootstraps : Array Bootstrap}
    (hbootstraps : ∀ bootstrap ∈ bootstraps, bootstrap.handle.Valid) :
    Gives (Decode.code table bootstraps) KeptCode := by
  refine .after fun maxStack => .after fun maxLocals => .after fun size => ?_
  split
  · exact gives_refuse _
  · refine (gives_take _).bind fun bytes hbytes => .look fun instructions hinstructions => ?_
    obtain ⟨hoffsets, hall⟩ := instructions_spec (gives_instruction hbootstraps)
      (by rw [hbytes]; exact size.toUInt16.toNat_lt) hinstructions
    refine (gives_listOf gives_exceptionRange).bind fun exceptions hexceptions => ?_
    refine gives_codeAttributes.bind fun tables htables => gives_lift fun code hcode => ?_
    refine ReadCode.keptCode ⟨hoffsets, fun one hone => ?_, fun one hone => (hall one hone).2,
      hexceptions, htables⟩ hcode
    rw [← hbytes]
    exact (hall one hone).1

end Reading

section Numbering

open Std (HashMap)

variable {labels : HashMap Label Nat} {size : Nat} {code : Code}
  {found : List (UInt16 × Instruction)}

/-- Code with other labels as it is read again: with the sizes that were written, and without an
empty table of local variables. -/
def reread (f : Label → Label) (maxStack maxLocals : UInt16) (code : Code) : Code :=
  { code.mapLabels f with
    maxStack := some maxStack
    maxLocals := some maxLocals
    localVariables := (code.mapLabels f).localVariables.filter fun items => !items.isEmpty }

/-- Local variables with places in place of labels were put together from two tables. -/
theorem Places.merged (h : Places labels size code found) (hcode : KeptCode code) :
    Merged ((code.mapLabels (placeLabel labels)).localVariables.getD []) := by
  rw [Code.localVariables_mapLabels]
  exact hcode.merged.mapLabels h.injOn fun v hv => hcode.tidy.resolves.of_variable hv

/-- What the reader has before it numbers labels refers to the places of labels. -/
theorem Places.offsetCode_eq (h : Places labels size code found) (hcode : KeptCode code) :
    (offsetCode found (code.mapLabels (placeLabel labels)).exceptions
        (allTables (code.mapLabels (placeLabel labels)))).inner =
        code.inner.map (placeLabel labels) ∧
      (offsetCode found (code.mapLabels (placeLabel labels)).exceptions
        (allTables (code.mapLabels (placeLabel labels)))).stops =
        code.stops.map (placeLabel labels) := by
  have hinstructions : (found.map fun one => (⟨none, one.2⟩ : Labelled)).flatMap
        (fun entry => entry.instruction.targets) =
      (code.mapLabels (placeLabel labels)).instructions.flatMap
        fun entry => entry.instruction.targets := by
    have hmap : found.map (fun one => one.2.targets) =
        code.instructions.map fun entry => (entry.mapLabels (placeLabel labels)).instruction.targets := by
      rw [← List.forall₂_eq_eq_eq, List.forall₂_map_left_iff, List.forall₂_map_right_iff]
      refine h.matched.flip.imp fun one entry hat => ?_
      rw [hat.1]
      rfl
    rw [List.flatMap_map, Code.mapLabels, List.flatMap_map, List.flatMap_def, List.flatMap_def, hmap]
  have hlocals : (allTables (code.mapLabels (placeLabel labels))).allLocals.getD [] =
      (code.mapLabels (placeLabel labels)).localVariables.getD [] := by
    rw [allLocals_allTables (h.merged hcode)]
    cases (code.mapLabels (placeLabel labels)).localVariables with
    | none => rfl
    | some items => cases items <;> rfl
  rw [← Code.inner_mapLabels, ← Code.stops_mapLabels]
  constructor
  · simp only [Code.inner, offsetCode, hinstructions, hlocals]
    rfl
  · simp only [Code.stops, offsetCode, hlocals]

variable {references : List Label}

/-- Instructions get the labels that they had, with other numbers. -/
theorem Places.labelFor_found (h : Places labels size code found)
    (hreferences : ∀ offset, offset ∈ references ↔
      ∃ label ∈ code.labels, placeLabel labels label = offset)
    {entry : Labelled} {one : UInt16 × Instruction}
    (hmem : (entry, one) ∈ code.instructions.zip found) :
    labelFor references one.1 =
      entry.label.map (numberOf references ∘ placeLabel labels) := by
  have hat := (List.forall₂_iff_zip.mp h.matched).2 hmem
  cases hlabel : entry.label with
  | none =>
      rw [labelFor, if_neg, Option.map_none]
      intro hoffset
      obtain ⟨label, hown, hplace⟩ := (hreferences _).mp hoffset
      rw [h.label_of_found hown hmem hplace] at hlabel
      cases hlabel
  | some label =>
      have hplace := placeLabel_of_found (hat.2 label hlabel)
      have hown : label ∈ code.labels := List.mem_append_left _
        (List.mem_filterMap.mpr ⟨entry, (List.of_mem_zip hmem).1, hlabel⟩)
      rw [labelFor, if_pos ((hreferences _).mpr ⟨label, hown, hplace⟩), ← hplace, Option.map_some]
      rfl

/-- The end of the code gets the label that it had, with another number. -/
theorem Places.labelFor_end (h : Places labels size code found)
    (hreferences : ∀ offset, offset ∈ references ↔
      ∃ label ∈ code.labels, placeLabel labels label = offset) :
    labelFor references size.toUInt16 =
      code.lastLabel.map (numberOf references ∘ placeLabel labels) := by
  cases hlabel : code.lastLabel with
  | none =>
      rw [labelFor, if_neg, Option.map_none]
      intro hoffset
      obtain ⟨label, hown, hplace⟩ := (hreferences _).mp hoffset
      rw [h.label_of_end hown hplace] at hlabel
      cases hlabel
  | some label =>
      have hplace := placeLabel_eq (h.last label hlabel)
      have hown : label ∈ code.labels := List.mem_append_right _
        (Option.mem_toList.mpr hlabel)
      rw [labelFor, if_pos ((hreferences _).mpr ⟨label, hown, hplace⟩), ← hplace, Option.map_some]
      rfl

/-- Instructions that were found at their places are numbered as they were, but for the labels. -/
theorem Places.instructions_numbered (h : Places labels size code found)
    (hreferences : ∀ offset, offset ∈ references ↔
      ∃ label ∈ code.labels, placeLabel labels label = offset) :
    code.instructions.map (Labelled.mapLabels (numberOf references ∘ placeLabel labels)) =
      found.map fun one => ⟨labelFor references one.1, one.2.mapLabels (numberOf references)⟩ := by
  rw [← List.forall₂_eq_eq_eq, List.forall₂_map_left_iff, List.forall₂_map_right_iff,
    List.forall₂_iff_zip]
  refine ⟨h.matched.length_eq, fun hmem => ?_⟩
  have hat := (List.forall₂_iff_zip.mp h.matched).2 hmem
  rw [Labelled.mapLabels, h.labelFor_found hreferences hmem, hat.1,
    Instruction.mapLabels_mapLabels]

/-- **Code that was found at its places is numbered as it was, but for the labels.** -/
theorem Places.numberLabels (h : Places labels size code found) (hcode : KeptCode code)
    (hread : ReadCode size.toUInt16 found (code.mapLabels (placeLabel labels)).exceptions
      (allTables (code.mapLabels (placeLabel labels)))) :
    ∃ f : Label → Label, Set.InjOn f {label | label ∈ code.labels} ∧
      ∀ maxStack maxLocals, Decode.numberLabels size.toUInt16 found
        (code.mapLabels (placeLabel labels)).exceptions
        (allTables (code.mapLabels (placeLabel labels))) maxStack maxLocals =
        .ok (reread f maxStack maxLocals code) := by
  obtain ⟨hinner, hstops⟩ := h.offsetCode_eq hcode
  have hreferences : ∀ offset, offset ∈ referencesOf found
      (code.mapLabels (placeLabel labels)).exceptions
      (allTables (code.mapLabels (placeLabel labels))) ↔
      ∃ label ∈ code.labels, placeLabel labels label = offset := by
    intro offset
    rw [hread.mem_references, hinner, hstops, List.mem_map, List.mem_map]
    constructor
    · rintro (⟨label, hlabel, rfl⟩ | ⟨label, hlabel, rfl⟩)
      · exact ⟨label, hcode.tidy.resolves.mem_labels (.inl hlabel), rfl⟩
      · exact ⟨label, hcode.tidy.resolves.mem_labels (.inr hlabel), rfl⟩
    · rintro ⟨label, hlabel, rfl⟩
      exact (hcode.tidy.referred label hlabel).imp (fun hmem => ⟨label, hmem, rfl⟩)
        fun hmem => ⟨label, hmem, rfl⟩
  refine ⟨numberOf (referencesOf found (code.mapLabels (placeLabel labels)).exceptions
    (allTables (code.mapLabels (placeLabel labels)))) ∘ placeLabel labels,
    (injOn_numberOf _).comp h.injOn fun label hlabel => (hreferences _).mpr ⟨label, hlabel, rfl⟩,
    fun maxStack maxLocals => (numberLabels_eq_ok hread.nodup).mpr ⟨?_, ?_⟩⟩
  · intro offset hoffset
    obtain ⟨label, hlabel, rfl⟩ := (hreferences offset).mp hoffset
    exact h.mem_offsetsOf hlabel
  · rw [reread, numbered, ← h.instructions_numbered hreferences, h.labelFor_end hreferences,
      allLocals_allTables (h.merged hcode)]
    simp only [Code.mapLabels, allTables, typeTables, localTables, lineTables, Option.map_map,
      List.map_map, Code.mk.injEq, true_and, and_true]
    refine ⟨rfl, ?_, ?_⟩
    · simp only [Function.comp_def, List.map_map]
    · cases code.localVariables with
      | none => rfl
      | some locals =>
          cases locals with
          | nil => rfl
          | cons v locals =>
              simp only [Option.map_some, Option.filter_some, List.map_cons, List.isEmpty_cons,
                Bool.not_false, if_true, List.map_map]
              rfl

end Numbering

section Writing

/-- Code is written without replacing any instruction: all of them are executed, and no conditional
jump takes its longer form. -/
structure Context.Plain (context : Context) : Prop where
  live : ∀ isLive ∈ context.reachable, isLive = true
  near : ∀ (index : Nat) condition target,
    context.code.instructions[index]?.map Labelled.instruction = some (.branch condition target) →
      context.layout.wide.contains index = false

/-- If all instructions are executed, there are no runs of others. -/
theorem deadRuns_eq_nil {flags : List Bool} (h : ∀ isLive ∈ flags, isLive = true) (index : Nat) :
    deadRuns index none flags = [] := by
  induction flags generalizing index with
  | nil => rfl
  | cons flag flags ih =>
      obtain ⟨rfl, hothers⟩ := List.forall_mem_cons.mp h
      exact ih hothers (index + 1)

/-- If all instructions are executed, their bytes are written. -/
theorem liveBytes_eq {flags : List Bool} {chunks : List Bytes} (done : List Bytes)
    (h : ∀ isLive ∈ flags, isLive = true) (hlength : flags.length = chunks.length) :
    liveBytes 0 done (flags.zip chunks) = done.reverse.flatten ++ chunks.flatten := by
  induction flags generalizing chunks done with
  | nil =>
      rw [List.eq_nil_of_length_eq_zero hlength.symm]
      simp [liveBytes, deadBytes]
  | cons flag flags ih =>
      obtain ⟨rfl, hothers⟩ := List.forall_mem_cons.mp h
      cases chunks with
      | nil => cases hlength
      | cons chunk chunks =>
          rw [List.zip_cons_cons, liveBytes, ih _ hothers (Nat.succ.inj hlength)]
          simp [deadBytes]

variable {context : Context}

/-- If all instructions are executed, nothing is taken out of exception ranges. -/
theorem Context.Plain.deadOffsets (h : context.Plain) : context.deadOffsets = [] := by
  rw [Context.deadOffsets, Context.dead, deadRuns_eq_nil h.live, List.map_nil]

variable {constants : Constants} {items : List (Option Label × CodeItem)}

/-- What can be said of code that has its layout. -/
structure LaidOut (constants : Constants) (context : Context)
    (items : List (Option Label × CodeItem)) : Prop where
  code : KeptCode context.code
  layout : Layout.ofItems items context.code.lastLabel = .ok context.layout
  items : List.Forall₂ (ItemOf constants) context.code.instructions items

namespace LaidOut

/-- The labels on items are those on instructions. -/
theorem placedLabels_eq (h : LaidOut constants context items) :
    Layout.placedLabels items = context.code.placed := by
  have hmap : items.map Prod.fst = context.code.instructions.map Labelled.label := by
    rw [← List.forall₂_eq_eq_eq, List.forall₂_map_left_iff, List.forall₂_map_right_iff]
    exact h.items.flip.imp fun _ _ hitem => hitem.1
  have hlabels := congrArg (List.filterMap id) hmap
  rw [List.filterMap_map, List.filterMap_map] at hlabels
  exact hlabels

/-- Every instruction has its bytes behind those before it, and every label its place. -/
theorem laid (h : LaidOut constants context items) :
    Layout.Laid context.layout.labels context.layout.wide context.layout.size 0 0 items
        context.layout.chunks ∧ context.layout.size < 65536 ∧
      ∀ (label : Label), context.code.lastLabel = some label →
        context.layout.labels[label]? = some context.layout.size := by
  refine Layout.laid_ofItems h.layout ?_
  rw [h.placedLabels_eq]
  exact h.code.tidy.nodup

/-- A label on an instruction has its place before the end of the code. -/
theorem place_lt (h : LaidOut constants context items) :
    ∀ label ∈ context.code.placed, ∃ place : Nat,
      context.layout.labels[label]? = some place ∧ place < context.layout.size := by
  rw [← h.placedLabels_eq]
  refine h.laid.1.places fun item hitem hplain => ?_
  obtain ⟨entry, -, -, hstands⟩ := exists_left_of_forall₂ h.items hitem
  rw [hplain] at hstands
  exact ne_nil_of_readsAt (hstands.2 0 0 0) rfl

/-- What must be on an instruction has its place before the end of the code. -/
theorem inside (h : LaidOut constants context items) :
    ∀ label ∈ context.code.inner, Inside context.layout.labels context.layout.size label := by
  intro label hlabel place hplace
  obtain ⟨place', hplace', hlt⟩ := h.place_lt label (h.code.tidy.inner label hlabel)
  rw [hplace', Option.some.injEq] at hplace
  exact hplace ▸ hlt

/-- Where a range ends is in the code or at its end. -/
theorem upTo (h : LaidOut constants context items) :
    ∀ label ∈ context.code.stops, UpTo context.layout.labels context.layout.size label := by
  intro label hlabel place hplace
  rcases List.mem_append.mp (h.code.tidy.stops label hlabel) with hplaced | hlast
  · obtain ⟨place', hplace', hlt⟩ := h.place_lt label hplaced
    rw [hplace', Option.some.injEq] at hplace
    exact hplace ▸ hlt.le
  · rw [h.laid.2.2 label (Option.mem_toList.mp hlast), Option.some.injEq] at hplace
    exact hplace.ge

/-- The tables of the code can be written. -/
theorem writable (h : LaidOut constants context items) : WritableTables context where
  size := h.laid.2.1
  inner := h.inside
  stops := h.upTo
  names := h.code.names
  caught := h.code.caught
  attributes := h.code.attributes

/-- The instructions of the code are found again at offsets of their own. -/
theorem places (h : LaidOut constants context items) (hplain : context.Plain) :
    ∃ found, Places context.layout.labels context.layout.size context.code found ∧
      Decode.instructions constants.table constants.bootstraps context.layout.size.toUInt16
        context.layout.chunks.flatten = .ok found := by
  obtain ⟨hlaid, hsize, hlast⟩ := h.laid
  obtain ⟨found, hfound, hoffsets, hbounds, hrun⟩ := reads_instructions hlaid hsize h.items
    (fun entry hentry target htarget => h.inside target (Code.mem_inner_of_target hentry htarget))
    hplain.near
  exact ⟨found, ⟨hsize, hfound, hoffsets, hbounds, hlast⟩, hrun⟩

/-- What is read of the code before labels are numbered is what a reader can have. -/
theorem readCode (h : LaidOut constants context items) {found : List (UInt16 × Instruction)}
    (hplaces : Places context.layout.labels context.layout.size context.code found)
    {table : Table} {exceptions attributes' : Bytes}
    (hexceptions : Reads (Parse.listOf (exceptionRange table context.layout.size.toUInt16))
      exceptions context.placedCode.exceptions)
    (hattributes : Reads (Decode.attributes table
      (Decode.codeAttribute table context.layout.size.toUInt16) {}) attributes'
      (allTables context.placedCode)) :
    ReadCode context.layout.size.toUInt16 found context.placedCode.exceptions
      (allTables context.placedCode) where
  offsets := hplaces.offsets
  inside one hone := by
    rw [hplaces.toNat_size]
    exact hplaces.inside one hone
  instructions one hone := by
    obtain ⟨entry, hentry, hat⟩ := exists_left_of_forall₂ hplaces.matched hone
    rw [hat.1]
    refine ⟨(h.code.instructions entry hentry).mapLabels _, ?_⟩
    rw [Instruction.targets_mapLabels, List.forall_mem_map]
    intro target htarget
    obtain ⟨place, hplace, hlt⟩ := h.place_lt target
      (h.code.tidy.inner target (Code.mem_inner_of_target hentry htarget))
    rw [placeLabel_eq hplace]
    exact labelAt_inside (labelAt_eq_ok hlt hplaces.small)
  exceptions := hexceptions.gives (gives_listOf gives_exceptionRange)
  tables := hattributes.gives gives_codeAttributes

/-- **Code that is laid out without replacing any instruction is read again**, with other
labels. -/
theorem reads (h : LaidOut constants context items) (hplain : context.Plain)
    (hlength : context.reachable.length = context.code.instructions.length)
    (hsome : context.layout.size ≠ 0) {exceptions attributes' : Bytes}
    (hexceptions : Reads (Parse.listOf (exceptionRange constants.table
      context.layout.size.toUInt16)) exceptions context.placedCode.exceptions)
    (hattributes : Reads (Decode.attributes constants.table
      (Decode.codeAttribute constants.table context.layout.size.toUInt16) {}) attributes'
      (allTables context.placedCode)) :
    ∃ f : Label → Label, Set.InjOn f {label | label ∈ context.code.labels} ∧
      ∀ maxStack maxLocals, Reads (Decode.code constants.table constants.bootstraps)
        (Bytes.ofU16 maxStack ++ Bytes.ofU16 maxLocals ++
          (Bytes.ofU32 context.layout.size.toUInt32 ++ context.bytes ++ exceptions ++ attributes'))
        (reread f maxStack maxLocals context.code) := by
  obtain ⟨found, hplaces, hrun⟩ := h.places hplain
  obtain ⟨f, hf, hnumber⟩ := hplaces.numberLabels h.code (h.readCode hplaces hexceptions hattributes)
  obtain ⟨hlaid, hsize, -⟩ := h.laid
  refine ⟨f, hf, fun maxStack maxLocals => ?_⟩
  have hchunks : context.reachable.length = context.layout.chunks.length := by
    rw [hlength, h.items.length_eq, hlaid.length_chunks]
  have hbytes : context.bytes = context.layout.chunks.flatten := by
    rw [Context.bytes, liveBytes_eq [] hplain.live hchunks]
    rfl
  have htotal : context.bytes.length = context.layout.size.toUInt16.toNat := by
    rw [hplaces.toNat_size, hbytes, ← hlaid.length, Nat.zero_add]
  have hbounds : ¬ (decide (context.layout.size.toUInt32 = 0) ||
      decide (65535 < context.layout.size.toUInt32)) = true := by
    have hnat : context.layout.size.toUInt32.toNat = context.layout.size :=
      UInt32.toNat_ofNat_of_lt' (show context.layout.size < 4294967296 by omega)
    simp only [Bool.or_eq_true, decide_eq_true_eq, ← UInt32.toNat_inj, UInt32.lt_iff_toNat_lt, hnat]
    show ¬ (context.layout.size = 0 ∨ 65535 < context.layout.size)
    omega
  have hshort : context.layout.size.toUInt32.toUInt16 = context.layout.size.toUInt16 :=
    UInt32.toUInt16_ofNat' _
  simp only [List.append_assoc]
  refine (reads_u16 maxStack).bind ((reads_u16 maxLocals).bind ((reads_u32 _).bind ?_))
  rw [if_neg hbounds, hshort]
  have htake := reads_take context.bytes
  rw [htotal] at htake
  refine htake.bind ?_
  rw [hbytes]
  refine .look hrun (hexceptions.bind (hattributes.finish (reads_lift ?_)))
  exact hnumber maxStack maxLocals

end LaidOut

variable {code : Code} {frames : Option (Array (Option Frame))}

/-- There are as many marks as instructions, if there are as many frames. -/
theorem length_reachable (hframes : ∀ found, frames = some found →
    found.size = code.instructions.length) (layout : Layout) :
    (Context.mk code layout frames).reachable.length = code.instructions.length := by
  cases frames with
  | none => exact List.length_map _
  | some found =>
      rw [← hframes found rfl]
      exact (List.length_map _).trans Array.length_toList

/-- **Code that is written without replacing any instruction is read again**, with other labels and
the sizes that stand in front of it. -/
theorem codeBody_reads {computeFrames : Bool} (hcode : KeptCode code)
    (hframes : ∀ found, frames = some found → found.size = code.instructions.length)
    {pool pool' : Builder} {body : Bytes}
    (hrun : codeBody computeFrames code frames pool = .ok (body, pool')) (hsound : pool.Sound)
    (hplain : ∀ found between layout, Encode.items code.instructions pool = .ok (found, between) →
      Layout.ofItems found code.lastLabel = .ok layout → Context.Plain ⟨code, layout, frames⟩) :
    pool'.Sound ∧ ∀ constants : Constants, constants.Covers pool' → constants.Covers pool ∧
      ∃ f : Label → Label, Set.InjOn f {label | label ∈ code.labels} ∧
        ∀ maxStack maxLocals, Reads (Decode.code constants.table constants.bootstraps)
          (Bytes.ofU16 maxStack ++ Bytes.ofU16 maxLocals ++ body)
          (reread f maxStack maxLocals code) := by
  obtain ⟨placedItems, between, hitems, hrun⟩ := work_bind_eq_ok.mp hrun
  obtain ⟨layout, _, hlift, hrun⟩ := work_bind_eq_ok.mp hrun
  obtain ⟨hlayout, rfl⟩ := work_lift_eq_ok.mp hlift
  obtain ⟨hsound₁, hcovers₁⟩ := puts_items (fun entry hentry =>
    kept_of_readable (hcode.instructions entry hentry)) _ _ _ hitems hsound
  have hplain := hplain _ _ _ hitems hlayout
  have hlaid : ∀ constants : Constants, constants.Covers between →
      LaidOut constants ⟨code, layout, frames⟩ placedItems := fun constants hc =>
    ⟨hcode, hlayout, (hcovers₁ constants hc).2⟩
  -- That tables can be written does not depend on constants, so any that cover the pool will do.
  obtain ⟨bootstraps, -, hc⟩ := hsound₁.exists_covers hsound₁.covers
  have hwritable := (hlaid _ hc).writable
  split at hrun
  case isTrue => cases hrun
  case isFalse hsome =>
    have hrest : Puts (do
        let context : Context := ⟨code, layout, frames⟩
        let indices ← context.frameIndices
        let exceptions ← context.exceptionTable
        let attributes' ← present (context.attributes computeFrames indices)
        return Bytes.ofU32 layout.size.toUInt32 ++ context.bytes ++ exceptions ++
          (← counted "code" attributes'))
        fun constants body => LaidOut constants ⟨code, layout, frames⟩ placedItems →
          ∃ f : Label → Label, Set.InjOn f {label | label ∈ code.labels} ∧
            ∀ maxStack maxLocals, Reads (Decode.code constants.table constants.bootstraps)
              (Bytes.ofU16 maxStack ++ Bytes.ofU16 maxLocals ++ body)
              (reread f maxStack maxLocals code) := by
      refine (puts_lift fun _ _ _ => trivial).bind fun indices => ?_
      refine (puts_exceptionTable hwritable hplain.deadOffsets).bind fun exceptions => ?_
      refine (puts_present (addsAll_code hwritable computeFrames indices)).bind fun parts => ?_
      refine (puts_lift fun bytes hbytes _ => hbytes).map ?_
      intro constants bytes hbytes hparts hexceptions _ hlaid
      exact hlaid.reads hplain (length_reachable hframes layout) hsome hexceptions
        (reads_counted hbytes hparts).1
    obtain ⟨hsound₂, hcovers₂⟩ := hrest _ _ _ hrun hsound₁
    refine ⟨hsound₂, fun constants hc => ?_⟩
    obtain ⟨hbetween, hread⟩ := hcovers₂ constants hc
    exact ⟨(hcovers₁ constants hbetween).1, hread (hlaid constants hbetween)⟩

end Writing

end Encode

end Downlevel
