import Downlevel.Proofs.Labels
import Downlevel.Proofs.Lower.Instructions

/-!
# Labels of new code

New code is put together from pieces.  Of several labels that are placed in front of one instruction
the code keeps only the first, and turns the others into it wherever they are referred to.  So what
is referred to is on an instruction behind all that, provided that every label is placed once, that
nothing else is referred to, and that an instruction stands behind the last label.

* `Assembly.Sound` — what holds of everything that was put together so far;
* `Code.resolves_ofPieces` — code that is put together from consistent pieces resolves its labels;
* `Code.resolves_of_loose` — so does code without any labels.
-/

namespace Downlevel

open Instruction

/-- An instruction asks for nothing from the code that it stands in: it refers to no labels, and a
class file can count the arguments it has. -/
def Instruction.Loose (instruction : Instruction) : Prop :=
  instruction.targets = [] ∧ instruction.Counted

/-- A straight instruction is loose. -/
theorem Instruction.Straight.loose {instruction : Instruction} (h : instruction.Straight) :
    instruction.Loose :=
  ⟨h.targets, h.direct.counted⟩

namespace Piece

/-- The labels that pieces place. -/
def places (pieces : List Piece) : List Label :=
  pieces.filterMap fun piece =>
    match piece with
    | .place label => some label
    | _ => none

/-- What pieces place is what one part of them places, and what the other does. -/
@[simp] theorem places_append (front back : List Piece) :
    places (front ++ back) = places front ++ places back :=
  List.filterMap_append

/-- A sequence of instructions places nothing. -/
@[simp] theorem places_sequence (instructions : List Instruction) :
    places (sequence instructions) = [] := by
  refine List.filterMap_eq_nil_iff.mpr fun piece hpiece => ?_
  obtain ⟨instruction, _, rfl⟩ := List.mem_map.mp hpiece
  rfl

/-- A label that is placed in front of others. -/
@[simp] theorem places_place (label : Label) (rest : List Piece) :
    places (.place label :: rest) = label :: places rest := rfl

/-- A sequence of instructions has no ranges. -/
@[simp] theorem guarded_not_mem_sequence {range : ExceptionRange}
    {instructions : List Instruction} : Piece.guarded range ∉ sequence instructions := by
  simp [sequence]

/-- A range places nothing. -/
@[simp] theorem places_guarded (range : ExceptionRange) (rest : List Piece) :
    places (.guarded range :: rest) = places rest := rfl

/-- No pieces place nothing. -/
@[simp] theorem places_nil : places [] = [] := rfl

/-- Pieces fit together: each label is placed once, what is referred to is placed, and behind the last
label there is an instruction. -/
structure Consistent (pieces : List Piece) : Prop where
  nodup : (places pieces).Nodup
  targets : ∀ instruction, .push instruction ∈ pieces →
    ∀ target ∈ instruction.targets, target ∈ places pieces
  ranges : ∀ range, .guarded range ∈ pieces → range.start ∈ places pieces ∧
    range.stop ∈ places pieces ∧ range.handler ∈ places pieces
  closed : (pieces.foldl Assembly.add {}).pending = none

end Piece

namespace Assembly

variable {assembly : Assembly} {seen : List Label}

/-- The labels of what was put together so far: the one that waits for an instruction, and those on
instructions. -/
def labels (assembly : Assembly) : List Label :=
  assembly.pending.toList ++ assembly.instructions.filterMap Labelled.label

/-- All labels that were placed so far stand for different ones on instructions, or for the one that
waits for an instruction. -/
structure Sound (assembly : Assembly) (seen : List Label) : Prop where
  nodup : assembly.labels.Nodup
  placed : ∀ label ∈ assembly.labels, label ∈ seen
  renamed : ∀ entry ∈ assembly.aliases, entry.1 ∈ seen
  resolves : ∀ label ∈ seen, assembly.resolve label ∈ assembly.labels

/-- Nothing was put together yet. -/
theorem sound_empty : Sound {} [] where
  nodup := List.nodup_nil
  placed _ hnone := by cases hnone
  renamed _ hnone := by cases hnone
  resolves _ hnone := by cases hnone

/-- One more instruction takes the label that waits. -/
theorem Sound.push (h : assembly.Sound seen) (instruction : Instruction) :
    (assembly.add (.push instruction)).Sound seen := by
  have hlabels : (assembly.add (.push instruction)).labels = assembly.labels := by
    unfold labels add
    rw [Option.toList_none, List.nil_append, List.filterMap_cons]
    cases assembly.pending <;> rfl
  exact ⟨hlabels ▸ h.nodup, hlabels ▸ h.placed, h.renamed, hlabels ▸ h.resolves⟩

/-- A label that is no other name for anything stands for itself. -/
theorem Sound.resolve_of_not_mem (h : assembly.Sound seen) {label : Label} (hnew : label ∉ seen) :
    assembly.resolve label = label := by
  have hnone : assembly.aliases.lookup label = none := by
    refine List.lookup_eq_none_iff.mpr fun entry hentry => ?_
    have hne : label ≠ entry.1 := fun heq => hnew (heq ▸ h.renamed entry hentry)
    simpa using hne
  rw [resolve, hnone, Option.getD_none]

/-- One more label waits for an instruction, or becomes another name for the one that waits. -/
theorem Sound.place (h : assembly.Sound seen) {label : Label} (hnew : label ∉ seen) :
    (assembly.add (.place label)).Sound (seen ++ [label]) := by
  have hself := h.resolve_of_not_mem hnew
  cases hpending : assembly.pending with
  | none =>
      have hadd : assembly.add (.place label) = { assembly with pending := some label } := by
        simp only [add, hpending]
      have hlabels : labels { assembly with pending := some label } = label :: assembly.labels := by
        simp only [labels, hpending, Option.toList_some, Option.toList_none, List.nil_append,
          List.singleton_append]
      rw [hadd]
      refine ⟨?_, ?_, fun entry hentry => List.mem_append_left _ (h.renamed entry hentry), ?_⟩
      · rw [hlabels]
        exact List.nodup_cons.mpr ⟨fun hmem => hnew (h.placed label hmem), h.nodup⟩
      · rw [hlabels]
        intro other hother
        rcases List.mem_cons.mp hother with rfl | hearlier
        · exact List.mem_append_right _ (List.mem_singleton.mpr rfl)
        · exact List.mem_append_left _ (h.placed other hearlier)
      · rw [hlabels]
        intro other hother
        rcases List.mem_append.mp hother with hearlier | hlast
        · exact List.mem_cons_of_mem _ (h.resolves other hearlier)
        · obtain rfl := List.mem_singleton.mp hlast
          exact List.mem_cons.mpr (.inl hself)
  | some pending =>
      have hadd : assembly.add (.place label) =
          { assembly with aliases := (label, pending) :: assembly.aliases } := by
        simp only [add, hpending]
      have hwaits : pending ∈ assembly.labels := by
        simp [labels, hpending]
      rw [hadd]
      refine ⟨h.nodup, fun other hother => List.mem_append_left _ (h.placed other hother), ?_, ?_⟩
      · intro entry hentry
        rcases List.mem_cons.mp hentry with rfl | hearlier
        · exact List.mem_append_right _ (List.mem_singleton.mpr rfl)
        · exact List.mem_append_left _ (h.renamed entry hearlier)
      · intro other hother
        rcases List.mem_append.mp hother with hearlier | hlast
        · have hne : other ≠ label := fun heq => hnew (heq ▸ hearlier)
          have hlookup : (other == label) = false := by simpa using hne
          have hresolve := h.resolves other hearlier
          rw [resolve, List.lookup_cons, hlookup]
          exact hresolve
        · obtain rfl := List.mem_singleton.mp hlast
          rw [resolve, List.lookup_cons, beq_self_eq_true]
          exact hwaits

/-- Putting pieces together keeps that. -/
theorem Sound.foldl {pieces : List Piece} (h : assembly.Sound seen)
    (hnodup : (seen ++ Piece.places pieces).Nodup) :
    (pieces.foldl Assembly.add assembly).Sound (seen ++ Piece.places pieces) := by
  induction pieces generalizing assembly seen with
  | nil =>
      rw [Piece.places_nil, List.append_nil]
      exact h
  | cons piece rest ih =>
      cases piece with
      | push instruction => exact ih (h.push instruction) hnodup
      | guarded range => exact ih ⟨h.nodup, h.placed, h.renamed, h.resolves⟩ hnodup
      | place label =>
          rw [Piece.places_place, List.append_cons] at hnodup ⊢
          have hnew : label ∉ seen := by
            have hfront := (List.nodup_append.mp hnodup).1
            intro hmem
            exact (List.nodup_append.mp hfront).2.2 label hmem label (List.mem_singleton.mpr rfl) rfl
          exact ih (h.place hnew) hnodup

/-- Putting pieces together adds no ranges but those that are given. -/
theorem mem_exceptions_foldl {pieces : List Piece} {range : ExceptionRange}
    (h : range ∈ (pieces.foldl Assembly.add assembly).exceptions) :
    range ∈ assembly.exceptions ∨ Piece.guarded range ∈ pieces := by
  induction pieces generalizing assembly with
  | nil => exact .inl h
  | cons piece rest ih =>
      rcases ih h with hadded | hrest
      · cases piece with
        | push instruction => exact .inl hadded
        | place label =>
            simp only [Assembly.add] at hadded
            split at hadded <;> exact .inl hadded
        | guarded other =>
            rcases List.mem_cons.mp hadded with rfl | hold
            · exact .inr List.mem_cons_self
            · exact .inl hold
      · exact .inr (List.mem_cons_of_mem _ hrest)

/-- Behind an instruction no label waits. -/
theorem pending_push (front : List Piece) (instruction : Instruction) (assembly : Assembly) :
    ((front ++ [Piece.push instruction]).foldl Assembly.add assembly).pending = none := by
  rw [List.foldl_append]
  rfl

/-- Behind a sequence of two instructions no label waits. -/
theorem pending_pair (front : List Piece) (first second : Instruction) (assembly : Assembly) :
    ((front ++ Piece.sequence [first, second]).foldl Assembly.add assembly).pending = none := by
  rw [List.foldl_append]
  rfl

/-- A range makes no label wait. -/
theorem pending_guarded (front : List Piece) (range : ExceptionRange) (assembly : Assembly) :
    ((front ++ [Piece.guarded range]).foldl Assembly.add assembly).pending =
      (front.foldl Assembly.add assembly).pending := by
  rw [List.foldl_append]
  rfl

end Assembly

namespace Code

/-- **Code that is put together from consistent pieces resolves its labels.** -/
theorem resolves_ofPieces {pieces : List Piece} (h : Piece.Consistent pieces) :
    (Code.ofPieces pieces).Resolves := by
  have hsound : (pieces.foldl Assembly.add {}).Sound (Piece.places pieces) :=
    Assembly.sound_empty.foldl h.nodup
  have hinstructions := @Assembly.mem_instructions_foldl pieces {}
  have hexceptions := @Assembly.mem_exceptions_foldl {} pieces
  have hclosed := h.closed
  unfold Code.ofPieces
  generalize pieces.foldl Assembly.add {} = assembly at *
  have hplaced : assembly.finish.placed = (assembly.instructions.filterMap Labelled.label).reverse := by
    rw [Code.placed, Assembly.finish, List.filterMap_map, ← List.filterMap_reverse]
    rfl
  have hlabels : assembly.labels = assembly.instructions.filterMap Labelled.label := by
    rw [Assembly.labels, hclosed, Option.toList_none, List.nil_append]
  have hall : assembly.finish.labels = assembly.finish.placed := by
    rw [Code.labels, Assembly.finish, hclosed, Option.toList_none, List.append_nil]
    rfl
  have hresolve : ∀ label ∈ Piece.places pieces,
      assembly.resolve label ∈ assembly.finish.placed := by
    intro label hlabel
    have hfound := hsound.resolves label hlabel
    rw [hlabels] at hfound
    rw [hplaced]
    exact List.mem_reverse.mpr hfound
  have hranges : ∀ range ∈ assembly.exceptions, range.start ∈ Piece.places pieces ∧
      range.stop ∈ Piece.places pieces ∧ range.handler ∈ Piece.places pieces := by
    intro range hrange
    rcases hexceptions hrange with hnone | hgiven
    · cases hnone
    · exact h.ranges range hgiven
  refine ⟨?_, ?_, ?_⟩
  · rw [hall, hplaced]
    exact List.nodup_reverse.mpr (hlabels ▸ hsound.nodup)
  · intro label hlabel
    simp only [Code.inner, Assembly.finish, Option.getD_none, List.map_nil, List.append_nil,
      List.mem_append, List.mem_flatMap, List.mem_map, List.mem_reverse] at hlabel
    rcases hlabel with ⟨_, ⟨entry, hentry, rfl⟩, htarget⟩ | ⟨_, ⟨range, hrange, rfl⟩, hmem⟩
    · rw [Instruction.targets_mapLabels] at htarget
      obtain ⟨target, hthere, rfl⟩ := List.mem_map.mp htarget
      rcases hinstructions hentry with hnone | hpushed
      · cases hnone
      · exact hresolve target (h.targets _ hpushed target hthere)
    · obtain ⟨hstart, -, hhandler⟩ := hranges range hrange
      rcases List.mem_pair.mp hmem with rfl | rfl
      · exact hresolve _ hstart
      · exact hresolve _ hhandler
  · intro label hlabel
    simp only [Code.stops, Assembly.finish, Option.getD_none, List.map_nil, List.append_nil,
      List.mem_map, List.mem_reverse] at hlabel
    obtain ⟨_, ⟨range, hrange, rfl⟩, rfl⟩ := hlabel
    rw [hall]
    exact hresolve _ (hranges range hrange).2.1

/-- Labels with numbers in a row differ, if there are enough numbers. -/
theorem nodup_row {count : Nat} (h : count ≤ 65536) :
    ((List.range count).map fun n => (⟨n.toUInt16⟩ : Label)).Nodup := by
  refine List.Nodup.map_on (fun a ha b hb heq => ?_) List.nodup_range
  have hsmall : ∀ n ∈ List.range count, n < UInt16.size := fun n hn =>
    Nat.lt_of_lt_of_le (List.mem_range.mp hn) h
  have hsame := congrArg UInt16.toNat (Label.mk.inj heq)
  rwa [UInt16.toNat_ofNat_of_lt' (hsmall a ha), UInt16.toNat_ofNat_of_lt' (hsmall b hb)] at hsame

/-- Code that places labels with numbers in a row, and only jumps to them on some condition, resolves
its labels if there are labels enough. -/
theorem resolves_of_row {pieces : List Piece} {last : Nat} (hlast : last < 65536)
    (hplaces : Piece.places pieces = (List.range (last + 1)).map fun n => (⟨n.toUInt16⟩ : Label))
    (hpushed : ∀ instruction, .push instruction ∈ pieces → instruction.Straight ∨
      ∃ condition number, instruction = .branch condition ⟨number.toUInt16⟩ ∧ number ≤ last)
    (hranges : ∀ range, Piece.guarded range ∉ pieces)
    (hclosed : (pieces.foldl Assembly.add {}).pending = none) : (Code.ofPieces pieces).Resolves := by
  refine resolves_ofPieces ⟨hplaces ▸ nodup_row hlast, ?_, ?_, hclosed⟩
  · intro instruction hmem target htarget
    rcases hpushed instruction hmem with hstraight | ⟨condition, number, rfl, hnumber⟩
    · rw [hstraight.targets] at htarget
      cases htarget
    · rw [hplaces, List.mem_singleton.mp htarget]
      exact List.mem_map.mpr ⟨number, List.mem_range.mpr (by omega), rfl⟩
  · exact fun range hrange => absurd hrange (hranges range)

/-- Code made of loose instructions has no labels to resolve. -/
theorem resolves_of_loose {instructions : List Instruction}
    (h : ∀ instruction ∈ instructions, instruction.Loose) :
    (Code.ofPieces (Piece.sequence instructions)).Resolves := by
  refine resolves_ofPieces ⟨?_, ?_, ?_, ?_⟩
  · rw [Piece.places_sequence]
    exact List.nodup_nil
  · intro instruction hmem target htarget
    rw [(h instruction (Piece.push_mem_sequence.mp hmem)).1] at htarget
    cases htarget
  · exact fun range hrange => absurd hrange Piece.guarded_not_mem_sequence
  · rcases List.eq_nil_or_concat instructions with rfl | ⟨front, last, rfl⟩
    · rfl
    · rw [Piece.sequence, List.concat_eq_append, List.map_append]
      exact Assembly.pending_push _ last {}

end Code

end Downlevel
