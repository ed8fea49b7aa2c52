import Downlevel.Proofs.Labels
import Downlevel.Proofs.RoundTrip.Placed

/-!
# Labels and the offsets that are read for them

Code was laid out and read again, each instruction at an offset of its own.  A label of the code has
the offset of its instruction as its place, and the label behind the last instruction the end of the
code.  So labels and their places determine each other.
-/

namespace Downlevel

namespace Encode

open Decode
open Std (HashMap)

variable {labels : HashMap Label Nat} {size : Nat} {code : Code}
  {found : List (UInt16 × Instruction)}

/-- The instructions of code were found at offsets of their own inside the code, and the label
behind the last one at its end. -/
structure Places (labels : HashMap Label Nat) (size : Nat) (code : Code)
    (found : List (UInt16 × Instruction)) : Prop where
  small : size < 65536
  matched : List.Forall₂ (FoundAt labels) code.instructions found
  offsets : (found.map fun one => one.1.toNat).Pairwise (· < ·)
  inside : ∀ one ∈ found, one.1.toNat < size
  last : ∀ (label : Label), code.lastLabel = some label → labels[label]? = some size

/-- A label that is on an instruction has its offset as its place. -/
theorem placeLabel_of_found {label : Label} {one : UInt16 × Instruction}
    (h : labels[label]? = some one.1.toNat) : placeLabel labels label = ⟨one.1⟩ := by
  rw [placeLabel_eq h, Nat.toUInt16_eq, UInt16.ofNat_toNat]

/-- Only the label of an instruction is at its offset. -/
theorem label_of_offset {entries : List Labelled}
    (hfound : List.Forall₂ (FoundAt labels) entries found)
    (hoffsets : (found.map fun one => one.1.toNat).Pairwise (· < ·)) {label : Label}
    (hlabel : label ∈ entries.filterMap Labelled.label) {entry : Labelled}
    {one : UInt16 × Instruction} (hmem : (entry, one) ∈ entries.zip found)
    (hplace : labels[label]? = some one.1.toNat) : entry.label = some label := by
  induction hfound with
  | nil => cases hmem
  | @cons first one' entries found hfirst hrest ih =>
      obtain ⟨hlt, hoffsets⟩ := List.pairwise_cons.mp hoffsets
      rw [List.zip_cons_cons, List.mem_cons] at hmem
      by_cases hown : first.label = some label
      · have heq := Option.some.inj ((hfirst.2 label hown).symm.trans hplace)
        rcases hmem with hmem | hmem
        · cases hmem
          exact hown
        · have hlater : one'.1.toNat < one.1.toNat :=
            hlt _ (List.mem_map_of_mem (List.of_mem_zip hmem).2)
          omega
      · have hothers : label ∈ entries.filterMap Labelled.label := by
          obtain ⟨other, hother, hsome⟩ := List.mem_filterMap.mp hlabel
          rcases List.mem_cons.mp hother with rfl | hother
          · exact absurd hsome hown
          · exact List.mem_filterMap.mpr ⟨other, hother, hsome⟩
        rcases hmem with hmem | hmem
        · cases hmem
          obtain ⟨other, hother, hsome⟩ := List.mem_filterMap.mp hothers
          obtain ⟨later, hmem, hat⟩ := exists_right_of_forall₂ hrest hother
          have hlater : one.1.toNat < later.1.toNat := hlt _ (List.mem_map_of_mem hmem)
          have heq := Option.some.inj ((hat.2 label hsome).symm.trans hplace)
          omega
        · exact ih hoffsets hothers hmem

namespace Places

/-- A label on an instruction has the offset of that instruction as its place. -/
theorem exists_offset (h : Places labels size code found) {label : Label}
    (hlabel : label ∈ code.placed) :
    ∃ entry one, (entry, one) ∈ code.instructions.zip found ∧ entry.label = some label ∧
      labels[label]? = some one.1.toNat := by
  obtain ⟨entry, hentry, hsome⟩ := List.mem_filterMap.mp hlabel
  obtain ⟨one, hmem, hat⟩ := exists_zip_of_forall₂ h.matched hentry
  exact ⟨entry, one, hmem, hsome, hat.2 label hsome⟩

/-- The offset of the end of the code. -/
theorem toNat_size (h : Places labels size code found) : size.toUInt16.toNat = size :=
  UInt16.toNat_ofNat_of_lt' h.small

/-- All labels of the code have places that can have labels. -/
theorem mem_offsetsOf (h : Places labels size code found) {label : Label}
    (hlabel : label ∈ code.labels) :
    placeLabel labels label ∈ offsetsOf size.toUInt16 found := by
  rcases List.mem_append.mp hlabel with hplaced | hlast
  · obtain ⟨entry, one, hmem, -, hplace⟩ := h.exists_offset hplaced
    rw [placeLabel_of_found hplace]
    exact List.mem_append_left _ (List.mem_map.mpr ⟨one, (List.of_mem_zip hmem).2, rfl⟩)
  · rw [placeLabel_eq (h.last label (Option.mem_toList.mp hlast))]
    exact List.mem_append_right _ (List.mem_singleton.mpr rfl)

/-- A label of the code whose place is the offset of an instruction is on that instruction. -/
theorem label_of_found (h : Places labels size code found) {label : Label}
    (hlabel : label ∈ code.labels) {entry : Labelled} {one : UInt16 × Instruction}
    (hmem : (entry, one) ∈ code.instructions.zip found)
    (hplace : placeLabel labels label = ⟨one.1⟩) : entry.label = some label := by
  rcases List.mem_append.mp hlabel with hplaced | hlast
  · obtain ⟨-, other, -, -, hother⟩ := h.exists_offset hplaced
    rw [placeLabel_of_found hother, Label.mk.injEq] at hplace
    rw [hplace] at hother
    exact label_of_offset h.matched h.offsets hplaced hmem hother
  · rw [placeLabel_eq (h.last label (Option.mem_toList.mp hlast)), Label.mk.injEq] at hplace
    have hlt := h.inside one (List.of_mem_zip hmem).2
    rw [← hplace, h.toNat_size] at hlt
    exact absurd hlt (Nat.lt_irrefl _)

/-- A label of the code whose place is its end is the one behind the last instruction. -/
theorem label_of_end (h : Places labels size code found) {label : Label}
    (hlabel : label ∈ code.labels) (hplace : placeLabel labels label = ⟨size.toUInt16⟩) :
    code.lastLabel = some label := by
  rcases List.mem_append.mp hlabel with hplaced | hlast
  · obtain ⟨entry, one, hmem, -, hother⟩ := h.exists_offset hplaced
    rw [placeLabel_of_found hother, Label.mk.injEq] at hplace
    have hlt := h.inside one (List.of_mem_zip hmem).2
    rw [hplace, h.toNat_size] at hlt
    exact absurd hlt (Nat.lt_irrefl _)
  · exact Option.mem_toList.mp hlast

/-- **Different labels of the code have different places.** -/
theorem injOn (h : Places labels size code found) :
    Set.InjOn (placeLabel labels) {label | label ∈ code.labels} := by
  intro a ha b hb heq
  rcases List.mem_append.mp ha with hplaced | hlast
  · obtain ⟨entry, one, hmem, hsome, hplace⟩ := h.exists_offset hplaced
    have hb' := h.label_of_found hb hmem (heq.symm.trans (placeLabel_of_found hplace))
    rw [hsome, Option.some.injEq] at hb'
    exact hb'
  · have hplace := placeLabel_eq (h.last a (Option.mem_toList.mp hlast))
    have hb' := h.label_of_end hb (heq.symm.trans hplace)
    rw [Option.mem_toList.mp hlast, Option.some.injEq] at hb'
    exact hb'

end Places

end Encode

end Downlevel
