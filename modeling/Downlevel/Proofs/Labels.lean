import Mathlib.Data.List.Nodup
import Mathlib.Data.List.Perm.Subperm
import Mathlib.Data.Set.Function
import Downlevel.Decode.Code
import Downlevel.Proofs.Outcome

/-!
# Labels and their numbers

Code refers to places by labels, and what the labels are called does not matter.  Two codes are the
same up to labels if one comes from the other by renaming all of them (`Code.mapLabels`).

The reader first has offsets in place of labels, and numbers them in the order in which it meets
them.  Two offsets get different numbers, since there are no more offsets than numbers.  It refuses
code that refers to an offset at which no instruction starts; since it counts the labels that it
placed and compares with the numbers it gave out, this rests on instructions having offsets of
their own.

* `injOn_numberOf` — different offsets have different numbers;
* `numberOffsets_firstMet` — an offset is numbered by its place among those that the reader met;
* `numberLabels_eq_ok` — when the reader accepts references, and the code that it makes of them.
-/

namespace Downlevel

section Renaming

variable (f : Label → Label)

/-- The instruction with other labels. -/
def Labelled.mapLabels (entry : Labelled) : Labelled :=
  ⟨entry.label.map f, entry.instruction.mapLabels f⟩

/-- The range with other labels. -/
def ExceptionRange.mapLabels (range : ExceptionRange) : ExceptionRange :=
  ⟨f range.start, f range.stop, f range.handler, range.caught⟩

/-- The local variable with other labels. -/
def LocalVariable.mapLabels (v : LocalVariable) : LocalVariable :=
  { v with start := f v.start, stop := f v.stop }

/-- The code with other labels. -/
def Code.mapLabels (code : Code) : Code :=
  { code with
    instructions := code.instructions.map (Labelled.mapLabels f)
    exceptions := code.exceptions.map (ExceptionRange.mapLabels f)
    lastLabel := code.lastLabel.map f
    lineNumbers := code.lineNumbers.map fun lines => lines.map fun line => (f line.1, line.2)
    localVariables := code.localVariables.map fun locals =>
      locals.map (LocalVariable.mapLabels f) }

end Renaming

namespace Code

/-- The labels on instructions. -/
def placed (code : Code) : List Label :=
  code.instructions.filterMap Labelled.label

/-- The labels that must be on instructions: where jumps go to, where ranges start, and where
exceptions are handled. -/
def inner (code : Code) : List Label :=
  code.instructions.flatMap (fun entry => entry.instruction.targets) ++
    code.exceptions.flatMap (fun range => [range.start, range.handler]) ++
    (code.lineNumbers.getD []).map Prod.fst ++
    (code.localVariables.getD []).map LocalVariable.start

/-- The labels that may also be behind the last instruction: where ranges end. -/
def stops (code : Code) : List Label :=
  code.exceptions.map ExceptionRange.stop ++
    (code.localVariables.getD []).map LocalVariable.stop

/-- Every label of code can be resolved: none stands at two places, and all that is referred to is
placed, on an instruction unless a range ends there. -/
structure Resolves (code : Code) : Prop where
  nodup : code.labels.Nodup
  inner : ∀ label ∈ code.inner, label ∈ code.placed
  stops : ∀ label ∈ code.stops, label ∈ code.labels

/-- No label stands at two places, all that is referred to is placed, and nothing else is. -/
structure Tidy (code : Code) : Prop where
  nodup : code.labels.Nodup
  inner : ∀ label ∈ code.inner, label ∈ code.placed
  stops : ∀ label ∈ code.stops, label ∈ code.labels
  referred : ∀ label ∈ code.labels, label ∈ code.inner ∨ label ∈ code.stops

end Code

namespace Instruction

/-- Labels that are renamed twice. -/
theorem mapLabels_mapLabels (f g : Label → Label) (instruction : Instruction) :
    (instruction.mapLabels g).mapLabels f = instruction.mapLabels (f ∘ g) := by
  cases instruction <;> simp [mapLabels]

end Instruction

namespace Code

/-- Renaming labels renames those of line numbers. -/
theorem lineNumbers_mapLabels (f : Label → Label) (code : Code) :
    (code.mapLabels f).lineNumbers.getD [] =
      (code.lineNumbers.getD []).map fun line => (f line.1, line.2) := by
  show (code.lineNumbers.map _).getD [] = _
  cases code.lineNumbers <;> rfl

/-- Renaming labels renames those of local variables. -/
theorem localVariables_mapLabels (f : Label → Label) (code : Code) :
    (code.mapLabels f).localVariables.getD [] =
      (code.localVariables.getD []).map (LocalVariable.mapLabels f) := by
  show (code.localVariables.map _).getD [] = _
  cases code.localVariables <;> rfl

/-- Renaming labels renames those that must be on instructions. -/
theorem inner_mapLabels (f : Label → Label) (code : Code) :
    (code.mapLabels f).inner = code.inner.map f := by
  rw [inner, inner, lineNumbers_mapLabels, localVariables_mapLabels]
  simp only [mapLabels, List.flatMap_map, List.map_append, List.map_flatMap, List.map_map]
  simp only [Labelled.mapLabels, Instruction.targets_mapLabels, ExceptionRange.mapLabels,
    LocalVariable.mapLabels, Function.comp_def, List.map_cons, List.map_nil]

/-- Renaming labels renames those where ranges end. -/
theorem stops_mapLabels (f : Label → Label) (code : Code) :
    (code.mapLabels f).stops = code.stops.map f := by
  rw [stops, stops, localVariables_mapLabels]
  simp only [mapLabels, List.map_append, List.map_map]
  simp only [ExceptionRange.mapLabels, LocalVariable.mapLabels, Function.comp_def]

/-- Where jumps go to must be on instructions. -/
theorem mem_inner_of_target {code : Code} {entry : Labelled} (hentry : entry ∈ code.instructions)
    {target : Label} (htarget : target ∈ entry.instruction.targets) : target ∈ code.inner := by
  simp only [inner, List.mem_append, List.mem_flatMap]
  exact .inl (.inl (.inl ⟨entry, hentry, htarget⟩))

/-- A range starts and is handled at instructions, and may end behind the last. -/
theorem mem_of_range {code : Code} {range : ExceptionRange} (hrange : range ∈ code.exceptions) :
    range.start ∈ code.inner ∧ range.stop ∈ code.stops ∧ range.handler ∈ code.inner := by
  have hinner : ∀ label ∈ [range.start, range.handler], label ∈ code.inner := by
    intro label hlabel
    simp only [inner, List.mem_append, List.mem_flatMap]
    exact .inl (.inl (.inr ⟨range, hrange, hlabel⟩))
  exact ⟨hinner _ (by simp), List.mem_append_left _ (List.mem_map_of_mem hrange), hinner _ (by simp)⟩

/-- Lines start at instructions. -/
theorem mem_inner_of_line {code : Code} {line : Label × UInt16}
    (hline : line ∈ code.lineNumbers.getD []) : line.1 ∈ code.inner :=
  List.mem_append_left _ (List.mem_append_right _ (List.mem_map_of_mem hline))

/-- The range of a local variable starts at an instruction, and may end behind the last. -/
theorem mem_of_variable {code : Code} {v : LocalVariable} (hv : v ∈ code.localVariables.getD []) :
    v.start ∈ code.inner ∧ v.stop ∈ code.stops :=
  ⟨List.mem_append_right _ (List.mem_map_of_mem hv), List.mem_append_right _ (List.mem_map_of_mem hv)⟩

/-- All that code refers to is among its labels if they can be resolved. -/
theorem Resolves.mem_labels {code : Code} (h : code.Resolves) {label : Label}
    (hlabel : label ∈ code.inner ∨ label ∈ code.stops) : label ∈ code.labels :=
  hlabel.elim (fun hinner => List.mem_append_left _ (h.inner label hinner)) (h.stops label)

/-- Jumps go to labels of the code. -/
theorem Resolves.of_target {code : Code} (h : code.Resolves) {entry : Labelled}
    (hentry : entry ∈ code.instructions) {target : Label}
    (htarget : target ∈ entry.instruction.targets) : target ∈ code.labels :=
  h.mem_labels (.inl (mem_inner_of_target hentry htarget))

/-- A range is given by labels of the code. -/
theorem Resolves.of_range {code : Code} (h : code.Resolves) {range : ExceptionRange}
    (hrange : range ∈ code.exceptions) : range.start ∈ code.labels ∧ range.stop ∈ code.labels ∧
      range.handler ∈ code.labels := by
  obtain ⟨hstart, hstop, hhandler⟩ := mem_of_range hrange
  exact ⟨h.mem_labels (.inl hstart), h.mem_labels (.inr hstop), h.mem_labels (.inl hhandler)⟩

/-- Lines start at labels of the code. -/
theorem Resolves.of_line {code : Code} (h : code.Resolves) {line : Label × UInt16}
    (hline : line ∈ code.lineNumbers.getD []) : line.1 ∈ code.labels :=
  h.mem_labels (.inl (mem_inner_of_line hline))

/-- The range of a local variable is given by labels of the code. -/
theorem Resolves.of_variable {code : Code} (h : code.Resolves) {v : LocalVariable}
    (hv : v ∈ code.localVariables.getD []) : v.start ∈ code.labels ∧ v.stop ∈ code.labels :=
  ⟨h.mem_labels (.inl (mem_of_variable hv).1), h.mem_labels (.inr (mem_of_variable hv).2)⟩

/-- The labels of tidy code can be resolved. -/
theorem Tidy.resolves {code : Code} (h : code.Tidy) : code.Resolves :=
  ⟨h.nodup, h.inner, h.stops⟩

end Code

namespace Decode

open Std (HashMap)

section Numbers

/-- Numbers one more offset. -/
def addOffset (numbers : HashMap Label Label) (offset : Label) : HashMap Label Label :=
  if numbers.contains offset then numbers else numbers.insert offset ⟨numbers.size.toUInt16⟩

/-- The number of an offset. -/
def numberOf (references : List Label) (offset : Label) : Label :=
  (numberOffsets references).getD offset offset

/-- Numbers are below the number of offsets, and no two offsets have the same. -/
structure Numbering (numbers : HashMap Label Label) : Prop where
  small : ∀ (offset number : Label), numbers[offset]? = some number →
    number.id.toNat < numbers.size
  injective : ∀ (a b number : Label), numbers[a]? = some number → numbers[b]? = some number → a = b

variable {numbers : HashMap Label Label} {offset : Label}

/-- There are no more than `65536` labels, so a map that misses one has fewer. -/
theorem size_lt_of_not_mem (h : offset ∉ numbers) : numbers.size < 65536 := by
  have hnodup : ((offset :: numbers.keys).map fun label => label.id.toNat).Nodup := by
    refine List.Nodup.map ?_ (List.nodup_cons.mpr ⟨?_, HashMap.nodup_keys⟩)
    · rintro ⟨a⟩ ⟨b⟩ heq
      exact congrArg Label.mk (UInt16.toNat_inj.mp heq)
    · rwa [HashMap.mem_keys]
  have hsubset : ((offset :: numbers.keys).map fun label => label.id.toNat) ⊆ List.range 65536 := by
    intro n hn
    obtain ⟨label, -, rfl⟩ := List.mem_map.mp hn
    exact List.mem_range.mpr label.id.toNat_lt
  have hlength := (hnodup.subperm hsubset).length_le
  rw [List.length_map, List.length_cons, HashMap.length_keys, List.length_range] at hlength
  omega

/-- One more offset keeps numbers apart. -/
theorem Numbering.add (h : Numbering numbers) (offset : Label) :
    Numbering (addOffset numbers offset) := by
  unfold addOffset
  split
  case isTrue => exact h
  case isFalse hnew =>
    rw [← HashMap.mem_iff_contains] at hnew
    have hsize := size_lt_of_not_mem hnew
    have hnumber : (⟨numbers.size.toUInt16⟩ : Label).id.toNat = numbers.size :=
      UInt16.toNat_ofNat_of_lt' hsize
    constructor
    · intro other number hother
      rw [HashMap.size_insert, if_neg hnew]
      rw [HashMap.getElem?_insert] at hother
      split at hother
      case isTrue =>
        cases hother
        omega
      case isFalse =>
        have := h.small other number hother
        omega
    · intro a b number ha hb
      rw [HashMap.getElem?_insert] at ha hb
      split at ha
      case isTrue heqa =>
        obtain rfl := eq_of_beq heqa
        cases ha
        split at hb
        case isTrue heqb => exact eq_of_beq heqb
        case isFalse =>
          have := h.small b _ hb
          omega
      case isFalse =>
        split at hb
        case isTrue =>
          cases hb
          have := h.small a _ ha
          omega
        case isFalse => exact h.injective a b number ha hb

/-- Adding an offset adds nothing else. -/
theorem mem_addOffset {other : Label} :
    other ∈ addOffset numbers offset ↔ other ∈ numbers ∨ other = offset := by
  unfold addOffset
  split
  case isTrue hold =>
    rw [← HashMap.mem_iff_contains] at hold
    constructor
    · exact .inl
    · rintro (hmem | rfl)
      · exact hmem
      · exact hold
  case isFalse =>
    rw [HashMap.mem_insert, beq_iff_eq, or_comm, eq_comm]

/-- Adding offsets keeps numbers apart, and adds nothing else. -/
theorem numbering_foldl (references : List Label) (h : Numbering numbers) :
    Numbering (references.foldl addOffset numbers) ∧
      ∀ other, other ∈ references.foldl addOffset numbers ↔
        other ∈ numbers ∨ other ∈ references := by
  induction references generalizing numbers with
  | nil => exact ⟨h, by simp⟩
  | cons offset references ih =>
      obtain ⟨hnumbering, hmem⟩ := ih (h.add offset)
      refine ⟨hnumbering, fun other => ?_⟩
      rw [List.foldl_cons, hmem, mem_addOffset, List.mem_cons, or_assoc]

/-- Numbers of references are apart. -/
theorem numbering_numberOffsets (references : List Label) :
    Numbering (numberOffsets references) ∧
      ∀ other, other ∈ numberOffsets references ↔ other ∈ references := by
  have hempty : Numbering (∅ : HashMap Label Label) := by
    constructor <;> simp
  obtain ⟨hnumbering, hmem⟩ := numbering_foldl references hempty
  exact ⟨hnumbering, fun other => (hmem other).trans (by simp)⟩

/-- An offset has a number if it is referred to. -/
theorem getElem?_numberOffsets (references : List Label) (offset : Label) :
    (numberOffsets references)[offset]? =
      if offset ∈ references then some (numberOf references offset) else none := by
  obtain ⟨-, hmem⟩ := numbering_numberOffsets references
  split
  case isTrue h =>
    rw [← hmem, HashMap.mem_iff_isSome_getElem?, Option.isSome_iff_exists] at h
    obtain ⟨number, hnumber⟩ := h
    rw [numberOf, HashMap.getD_eq_getD_getElem?, hnumber, Option.getD_some]
  case isFalse h =>
    rw [← hmem] at h
    exact HashMap.getElem?_eq_none h

/-- **Offsets that are referred to have different numbers.** -/
theorem injOn_numberOf (references : List Label) :
    Set.InjOn (numberOf references) {offset | offset ∈ references} := by
  intro a ha b hb heq
  obtain ⟨hnumbering, -⟩ := numbering_numberOffsets references
  have hnumber : ∀ offset ∈ references,
      (numberOffsets references)[offset]? = some (numberOf references offset) := by
    intro offset hmem
    rw [getElem?_numberOffsets, if_pos hmem]
  refine hnumbering.injective a b _ (hnumber a ha) ?_
  rw [heq]
  exact hnumber b hb

/-- Offsets in the order in which they are first met. -/
def firstMet (references : List Label) : List Label :=
  references.foldl (fun known offset => if offset ∈ known then known else known ++ [offset]) []

/-- The number of an offset, by its place among those that were met. -/
def placeIn (known : List Label) (offset : Label) : Option Label :=
  (known.idxOf? offset).map fun place => ⟨place.toUInt16⟩

/-- An offset that was met has a number. -/
theorem isSome_placeIn {known : List Label} {offset : Label} :
    (placeIn known offset).isSome ↔ offset ∈ known := by
  simp [placeIn]

/-- An offset that is met last has its number from how many were met before, unless it was among
them. -/
theorem placeIn_append (known : List Label) (offset other : Label) :
    placeIn (known ++ [offset]) other = (placeIn known other).or
      (if offset == other then some ⟨known.length.toUInt16⟩ else none) := by
  simp only [placeIn, List.idxOf?, List.findIdx?_append, List.findIdx?_singleton]
  cases List.findIdx? (fun x => x == other) known <;> split <;> simp

/-- Numbers that are the places of offsets among those that were met. -/
structure NumbersPlaces (numbers : HashMap Label Label) (known : List Label) : Prop where
  size : numbers.size = known.length
  found : ∀ offset, numbers[offset]? = placeIn known offset

/-- Numbers still are places when another offset is met. -/
theorem NumbersPlaces.add {known : List Label} (h : NumbersPlaces numbers known) (offset : Label) :
    NumbersPlaces (addOffset numbers offset)
      (if offset ∈ known then known else known ++ [offset]) := by
  have hmem : numbers.contains offset = true ↔ offset ∈ known := by
    rw [HashMap.contains_eq_isSome_getElem?, h.found, isSome_placeIn]
  unfold addOffset
  by_cases hold : offset ∈ known
  · rwa [if_pos hold, if_pos (hmem.mpr hold)]
  · have hnew := hmem.not.mpr hold
    rw [if_neg hold, if_neg hnew]
    refine ⟨?_, fun other => ?_⟩
    · rw [HashMap.size_insert, if_neg (HashMap.mem_iff_contains.not.mpr hnew), h.size,
        List.length_append, List.length_singleton]
    · rw [HashMap.getElem?_insert, h.found, h.size, placeIn_append]
      split
      case isTrue heq =>
        obtain rfl := eq_of_beq heq
        rw [Option.not_isSome_iff_eq_none.mp (isSome_placeIn.not.mpr hold)]
        rfl
      case isFalse => rw [Option.or_none]

/-- **Offsets are numbered in the order in which they are first met.** -/
theorem numberOffsets_firstMet (references : List Label) :
    NumbersPlaces (numberOffsets references) (firstMet references) :=
  List.foldl_rel ⟨HashMap.size_empty, fun _ => HashMap.getElem?_empty⟩
    fun offset _ _ _ h => h.add offset

/-- As many places are found as offsets have numbers exactly if all of these offsets are places. -/
theorem countP_eq_size_iff {places : List Label} (hplaces : places.Nodup) :
    places.countP (fun place => numbers.contains place) = numbers.size ↔
      ∀ offset, offset ∈ numbers → offset ∈ places := by
  have hnodup : (places.filter fun place => numbers.contains place).Nodup := hplaces.filter _
  have hfilter : ∀ offset, offset ∈ places.filter (fun place => numbers.contains place) ↔
      offset ∈ places ∧ offset ∈ numbers.keys := by
    intro offset
    rw [List.mem_filter, HashMap.mem_keys, HashMap.mem_iff_contains]
  have hsub := hnodup.subperm fun offset hmem => ((hfilter offset).mp hmem).2
  rw [List.countP_eq_length_filter, ← HashMap.length_keys (m := numbers)]
  constructor
  · intro hlength offset hmem
    have hperm := hsub.perm_of_length_le hlength.ge
    rw [← HashMap.mem_keys, ← hperm.mem_iff, hfilter] at hmem
    exact hmem.1
  · intro hall
    refine Nat.le_antisymm hsub.length_le (HashMap.nodup_keys.subperm ?_).length_le
    intro offset hmem
    exact (hfilter offset).mpr ⟨hall offset (HashMap.mem_keys.mp hmem), hmem⟩

end Numbers

section Code

variable {length : UInt16} {instructions : List (UInt16 × Instruction)}
  {exceptions : List ExceptionRange} {tables : CodeTables} {maxStack maxLocals : UInt16}

/-- The places in code that can have labels: where its instructions start, and its end. -/
def offsetsOf (length : UInt16) (instructions : List (UInt16 × Instruction)) : List Label :=
  instructions.map (fun i => ⟨i.1⟩) ++ [⟨length⟩]

/-- The offsets that code refers to, in the order in which they are numbered. -/
def referencesOf (instructions : List (UInt16 × Instruction)) (exceptions : List ExceptionRange)
    (tables : CodeTables) : List Label :=
  instructions.flatMap (fun i => i.2.targets) ++
    exceptions.flatMap (fun e => [e.start, e.stop, e.handler]) ++ tables.references.reverse

/-- The label at an offset, where some offsets are referred to. -/
def labelFor (references : List Label) (offset : UInt16) : Option Label :=
  if (⟨offset⟩ : Label) ∈ references then some (numberOf references ⟨offset⟩) else none

/-- The code with numbers in place of offsets, where some offsets are referred to. -/
def numbered (references : List Label) (length : UInt16)
    (instructions : List (UInt16 × Instruction)) (exceptions : List ExceptionRange)
    (tables : CodeTables) (maxStack maxLocals : UInt16) : Code where
  maxStack := some maxStack
  maxLocals := some maxLocals
  instructions := instructions.map fun i =>
    ⟨labelFor references i.1, i.2.mapLabels (numberOf references)⟩
  exceptions := exceptions.map (ExceptionRange.mapLabels (numberOf references))
  lastLabel := labelFor references length
  lineNumbers := tables.lineNumbers.map fun lines =>
    lines.map fun line => (numberOf references line.1, line.2)
  localVariables := tables.allLocals.map fun locals =>
    locals.map (LocalVariable.mapLabels (numberOf references))
  attributes := tables.attributes

/-- The reader counts the labels on instructions and behind them. -/
theorem countP_placed (numbers : HashMap Label Label) (length : UInt16)
    (instructions : List (UInt16 × Instruction)) (make : UInt16 × Instruction → Instruction) :
    (instructions.map fun i => (⟨numbers[(⟨i.1⟩ : Label)]?, make i⟩ : Labelled)).countP
        (fun i => i.label.isSome) + (numbers[(⟨length⟩ : Label)]?).toList.length =
      (offsetsOf length instructions).countP fun place => numbers.contains place := by
  have hlast : (numbers[(⟨length⟩ : Label)]?).toList.length =
      if numbers.contains ⟨length⟩ then 1 else 0 := by
    rw [HashMap.contains_eq_isSome_getElem?]
    cases numbers[(⟨length⟩ : Label)]? <;> rfl
  rw [offsetsOf, List.countP_append, List.countP_map, List.countP_map, List.countP_singleton, hlast]
  simp only [Function.comp_def, HashMap.isSome_getElem?_eq_contains]

/-- **The reader accepts code exactly if all offsets that it refers to are places**, and gives it
with numbers in place of offsets. -/
theorem numberLabels_eq_ok {code : Code} (hoffsets : (offsetsOf length instructions).Nodup) :
    numberLabels length instructions exceptions tables maxStack maxLocals = .ok code ↔
      (∀ offset ∈ referencesOf instructions exceptions tables,
        offset ∈ offsetsOf length instructions) ∧
      code = numbered (referencesOf instructions exceptions tables) length instructions exceptions
        tables maxStack maxLocals := by
  have hall : (∀ offset, offset ∈ numberOffsets (referencesOf instructions exceptions tables) →
      offset ∈ offsetsOf length instructions) ↔
      ∀ offset ∈ referencesOf instructions exceptions tables,
        offset ∈ offsetsOf length instructions := by
    simp only [(numbering_numberOffsets _).2]
  have hcode : numberLabels length instructions exceptions tables maxStack maxLocals =
      if (offsetsOf length instructions).countP (fun place =>
          (numberOffsets (referencesOf instructions exceptions tables)).contains place) =
          (numberOffsets (referencesOf instructions exceptions tables)).size then
        .ok (numbered (referencesOf instructions exceptions tables) length instructions exceptions
          tables maxStack maxLocals)
      else fail (.read .looseOffset) := by
    rw [← countP_placed _ _ _ fun i =>
      i.2.mapLabels (numberOf (referencesOf instructions exceptions tables))]
    simp only [numbered, labelFor, ← getElem?_numberOffsets]
    rfl
  rw [hcode]
  split
  case isTrue h =>
    rw [countP_eq_size_iff hoffsets, hall] at h
    rw [Except.ok.injEq, and_iff_right h, eq_comm]
  case isFalse h =>
    rw [countP_eq_size_iff hoffsets, hall] at h
    simp only [fail_ne_ok, h, false_and]

/-- The reader, with offsets numbered by their places among those that it met. -/
theorem numberLabels_firstMet : @numberLabels =
    fun length instructions exceptions tables maxStack maxLocals =>
      let known := firstMet (referencesOf instructions exceptions tables)
      let number (offset : Label) : Label := (placeIn known offset).getD offset
      let placed := instructions.map fun i =>
        (⟨placeIn known ⟨i.1⟩, i.2.mapLabels number⟩ : Labelled)
      let lastLabel := placeIn known ⟨length⟩
      if placed.countP (fun i => i.label.isSome) + lastLabel.toList.length = known.length then
        .ok {
          maxStack := some maxStack
          maxLocals := some maxLocals
          instructions := placed
          exceptions := exceptions.map (ExceptionRange.mapLabels number)
          lastLabel := lastLabel
          lineNumbers := tables.lineNumbers.map fun lines =>
            lines.map fun line => (number line.1, line.2)
          localVariables := tables.allLocals.map fun locals =>
            locals.map (LocalVariable.mapLabels number)
          attributes := tables.attributes }
      else fail (.read .looseOffset) := by
  funext length instructions exceptions tables maxStack maxLocals
  obtain ⟨hsize, hfound⟩ :=
    numberOffsets_firstMet (referencesOf instructions exceptions tables)
  simp only [← hsize, ← hfound, ← HashMap.getD_eq_getD_getElem?]
  rfl

end Code

end Decode

end Downlevel
