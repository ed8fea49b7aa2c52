import Downlevel.Proofs.Layout
import Downlevel.Proofs.RoundTrip.Instruction
import Downlevel.Proofs.Starts

/-!
# Code that is written and read again

Once all labels have their places, the distances of jumps follow.  The reader adds each distance to
the position it reads at and so finds the places again: an instruction that was laid out is read as
the same instruction, with the place of each label in place of the label.  Only a conditional jump in
its longer form is read as two instructions.

* `readAs` — what an instruction at its position is read as;
* `instructionsFrom_fits` — one instruction at its position;
* `instructions_laid` — all instructions, each with its position;
* `reads_instructions` — the same if no conditional jump has its longer form.
-/

namespace Downlevel

namespace Encode

open Pool PoolM Parse
open Std (HashMap HashSet)
open Layout (distance isShort short long padding Fits Laid)

/-- The place of a label, as a label. -/
def placeLabel (labels : HashMap Label Nat) (label : Label) : Label :=
  ⟨(labels[label]?.getD 0).toUInt16⟩

/-- A label that has a place. -/
theorem placeLabel_eq {labels : HashMap Label Nat} {label : Label} {place : Nat}
    (h : labels[label]? = some place) : placeLabel labels label = ⟨place.toUInt16⟩ := by
  rw [placeLabel, h, Option.getD_some]

section Targets

variable {size position place : Nat}

/-- A place inside the code is an offset inside the code. -/
theorem labelAt_eq_ok (hplace : place < size) (hsize : size < 65536) :
    Decode.labelAt size.toUInt16 place.toUInt16 = .ok ⟨place.toUInt16⟩ := by
  rw [Decode.labelAt, if_pos]
  rw [UInt16.lt_iff_toNat_lt, UInt16.toNat_ofNat_of_lt' hsize,
    UInt16.toNat_ofNat_of_lt' (hplace.trans hsize)]
  exact hplace

/-- A distance leads from the position to the place. -/
theorem position_add_distance : (position : Int) + distance position place = place := by
  unfold distance
  omega

/-- A distance in two bytes leads to the place it was taken to. -/
theorem reads_shortTarget (hshort : isShort (distance position place) = true)
    (hplace : place < size) (hsize : size < 65536) :
    Reads (Decode.shortTarget size.toUInt16 position) (short (distance position place))
      ⟨place.toUInt16⟩ := by
  simp only [isShort, Bool.and_eq_true, decide_eq_true_eq] at hshort
  refine (reads_i16 _).finish ?_
  rw [Int16.toInt_ofInt_of_le (by omega) (by omega), position_add_distance]
  have hrange : (decide (0 ≤ (place : Int)) && decide ((place : Int) < 65536)) = true := by
    simp only [Bool.and_eq_true, decide_eq_true_eq]
    omega
  rw [if_pos hrange, Int.toNat_natCast]
  exact reads_lift (labelAt_eq_ok hplace hsize)

/-- A distance in four bytes leads to the place it was taken to. -/
theorem reads_longTarget (hposition : position < 65536) (hplace : place < size)
    (hsize : size < 65536) :
    Reads (Decode.longTarget size.toUInt16 position) (long (distance position place))
      ⟨place.toUInt16⟩ := by
  have hdistance : -65536 < distance position place ∧ distance position place < 65536 := by
    unfold distance
    omega
  refine (reads_i32 _).finish ?_
  rw [Int32.toInt_ofInt_of_le (by omega) (by omega), position_add_distance]
  have hrange : (decide (0 ≤ (place : Int)) && decide ((place : Int) < 4294967296)) = true := by
    simp only [Bool.and_eq_true, decide_eq_true_eq]
    omega
  have hsmall : (place : Int) < 65536 := by omega
  rw [if_pos hrange, if_pos hsmall, Int.toNat_natCast]
  exact reads_lift (labelAt_eq_ok hplace hsize)

/-- The bytes up to a multiple of four are passed over. -/
theorem readsAt_align (position : Nat) : ReadsAt (position + 1) Decode.align (padding position) () := by
  intro rest
  have hlength : (padding position).length = (4 - (position + 1) % 4) % 4 := List.length_replicate
  show skip ((4 - (position + 1) % 4) % 4) ⟨position + 1, padding position ++ rest⟩ = _
  rw [← hlength]
  exact reads_skip (padding position) (position + 1) rest

end Targets

section Instructions

variable {constants : Constants} {labels : HashMap Label Nat} {size position : Nat}

/-- The label has its place inside the code. -/
def Inside (labels : HashMap Label Nat) (size : Nat) (target : Label) : Prop :=
  ∀ (place : Nat), labels[target]? = some place → place < size

/-- A jump through a table is read with the places of its labels. -/
theorem readsAt_tableswitch {fallback : Label} {low high : Int32} {targets : List Label}
    {place : Nat} {places : List Nat} (hposition : position < 65536) (hsize : size < 65536)
    (hbounds : ¬ high < low) (hlength : targets.length = (high.toInt - low.toInt + 1).toNat)
    (hfallback : labels[fallback]? = some place)
    (htargets : List.Forall₂ (fun target place => labels[target]? = some place) targets places)
    (hinside : ∀ target ∈ fallback :: targets, Inside labels size target) :
    ReadsAt (position + 1) (Decode.tableswitch size.toUInt16 position)
      (padding position ++ (long (distance position place) ++
        (Bytes.ofI32 low ++ Bytes.ofI32 high ++
          (places.map fun place => long (distance position place)).flatten)))
      (.tableswitch (placeLabel labels fallback) low high (targets.map (placeLabel labels))) := by
  obtain ⟨hfirst, hothers⟩ := List.forall_mem_cons.mp hinside
  have htable : List.Forall₂ (Reads (Decode.longTarget size.toUInt16 position))
      (places.map fun place => long (distance position place))
      (targets.map (placeLabel labels)) := by
    rw [List.forall₂_map_left_iff, List.forall₂_map_right_iff]
    refine ((List.forall₂_and_left _ _).mpr ⟨hothers, htargets⟩).flip.imp ?_
    rintro place target ⟨hplace, htarget⟩
    rw [placeLabel_eq htarget]
    exact reads_longTarget hposition (hplace place htarget) hsize
  have hread := (reads_times htable).map
    (Instruction.tableswitch (placeLabel labels fallback) low high)
  rw [List.length_map, hlength] at hread
  refine (readsAt_align position).bind (ReadsAt.bind
    (reads_longTarget hposition (hfirst place hfallback) hsize _) ?_)
  rw [List.append_assoc, ← placeLabel_eq hfallback]
  refine (reads_i32 low _).bind ((reads_i32 high _).bind ?_)
  rw [if_neg hbounds]
  exact hread _

/-- A jump by keys is read with the places of its labels. -/
theorem readsAt_lookupswitch {fallback : Label} {cases : List (Int32 × Label)} {place : Nat}
    {parts : List Bytes} (hposition : position < 65536) (hsize : size < 65536)
    (hlength : cases.length < 65536) (hfallback : labels[fallback]? = some place)
    (hcases : List.Forall₂ (fun (c : Int32 × Label) part => ∃ place,
      labels[c.2]? = some place ∧ part = Bytes.ofI32 c.1 ++ long (distance position place))
      cases parts)
    (hinside : ∀ target ∈ fallback :: cases.map Prod.snd, Inside labels size target) :
    ReadsAt (position + 1) (Decode.lookupswitch size.toUInt16 position)
      (padding position ++ (long (distance position place) ++
        (Bytes.ofU32 cases.length.toUInt32 ++ parts.flatten)))
      (.lookupswitch (placeLabel labels fallback)
        (cases.map fun c => (c.1, placeLabel labels c.2))) := by
  obtain ⟨hfirst, hothers⟩ := List.forall_mem_cons.mp hinside
  rw [List.forall_mem_map] at hothers
  have htable : List.Forall₂ (Reads (do
        let key ← i32
        return (key, ← Decode.longTarget size.toUInt16 position)))
      parts (cases.map fun c => (c.1, placeLabel labels c.2)) := by
    rw [List.forall₂_map_right_iff]
    refine ((List.forall₂_and_left _ _).mpr ⟨hothers, hcases⟩).flip.imp ?_
    rintro _ ⟨key, target⟩ ⟨hplace, place, htarget, rfl⟩
    simp only [placeLabel_eq htarget]
    exact (reads_i32 key).bind
      ((reads_longTarget hposition (hplace place htarget) hsize).map (Prod.mk key))
  have hread := (reads_times htable).map
    (Instruction.lookupswitch (placeLabel labels fallback))
  rw [List.length_map] at hread
  have hcount : (cases.length.toUInt32.toInt32).toInt = cases.length := by
    show (BitVec.ofNat 32 cases.length).toInt = cases.length
    rw [BitVec.toInt_ofNat']
    exact Int.bmod_eq_of_le (by omega) (by omega)
  have hnonneg : ¬ cases.length.toUInt32.toInt32 < 0 := by
    rw [Int32.lt_iff_toInt_lt, hcount]
    exact Int.not_lt.mpr (Int.natCast_nonneg _)
  refine (readsAt_align position).bind (ReadsAt.bind
    (reads_longTarget hposition (hfirst place hfallback) hsize _) ?_)
  rw [← placeLabel_eq hfallback]
  refine (reads_i32 cases.length.toUInt32.toInt32 _).bind ?_
  rw [if_neg hnonneg, hcount, Int.toNat_natCast]
  exact hread _

/-- An instruction is read by its opcode and its operands behind it. -/
theorem readsAt_instruction {length : UInt16} {opcode : UInt8} {bytes : Bytes}
    {instruction : Instruction}
    (h : ReadsAt (position + 1)
      (Decode.operands constants.table constants.bootstraps length position opcode)
      bytes instruction) :
    ReadsAt position (readInstruction constants length position) (opcode :: bytes) instruction :=
  (reads_u8 opcode position).bind h

/-- **An instruction at its position is read with the places of its labels**, if it is not a
conditional jump in its longer form. -/
theorem readsAt_fits {instruction : Instruction} {item : CodeItem} {isWide : Bool} {bytes : Bytes}
    (hstands : Stands constants instruction item) (hfits : Fits labels position isWide item bytes)
    (hnear : ∀ condition target, item = .branch condition target → isWide = false)
    (hposition : position < 65536) (hsize : size < 65536) (hlength : bytes.length < 65536)
    (hinside : ∀ target ∈ instruction.targets, Inside labels size target) :
    ReadsAt position (readInstruction constants size.toUInt16 position) bytes
      (instruction.mapLabels (placeLabel labels)) := by
  cases hfits with
  | plain bytes =>
      rw [hstands.1]
      exact hstands.2 _ position position
  | @branch condition target place hplace hshort =>
      obtain rfl : instruction = .branch condition target := hstands
      have hread := (reads_shortTarget hshort (hinside target List.mem_cons_self place hplace)
        hsize).map (Instruction.branch condition)
      rw [← placeLabel_eq hplace] at hread
      refine readsAt_instruction ?_
      cases condition <;> exact hread _
  | farBranch hplace => cases hnear _ _ rfl
  | @jump _ opcode wideOpcode target place hplace hshort =>
      obtain ⟨rfl, -, rfl⟩ | ⟨rfl, -, rfl⟩ := hstands
      · have hread := (reads_shortTarget hshort (hinside target List.mem_cons_self place hplace)
          hsize).map Instruction.goto
        rw [← placeLabel_eq hplace] at hread
        exact readsAt_instruction (hread _)
      · have hread := (reads_shortTarget hshort (hinside target List.mem_cons_self place hplace)
          hsize).map Instruction.jsr
        rw [← placeLabel_eq hplace] at hread
        exact readsAt_instruction (hread _)
  | @farJump _ opcode wideOpcode target place hplace =>
      obtain ⟨-, rfl, rfl⟩ | ⟨-, rfl, rfl⟩ := hstands
      · have hread := (reads_longTarget hposition (hinside target List.mem_cons_self place hplace)
          hsize).map Instruction.goto
        rw [← placeLabel_eq hplace] at hread
        exact readsAt_instruction (hread _)
      · have hread := (reads_longTarget hposition (hinside target List.mem_cons_self place hplace)
          hsize).map Instruction.jsr
        rw [← placeLabel_eq hplace] at hread
        exact readsAt_instruction (hread _)
  | table hfallback htargets =>
      obtain ⟨rfl, hbounds, hcount⟩ := hstands
      exact readsAt_instruction
        (readsAt_tableswitch hposition hsize hbounds hcount hfallback htargets hinside)
  | @lookup _ fallback cases place parts hfallback hcases =>
      obtain rfl : instruction = .lookupswitch fallback cases := hstands
      have hparts : parts.flatten.length = 8 * cases.length := by
        refine length_flatten_of_forall₂ (hcases.flip.imp ?_)
        rintro _ c ⟨place, -, rfl⟩
        rfl
      have hsmall : cases.length < 65536 := by
        simp only [List.length_cons, List.length_append] at hlength
        omega
      exact readsAt_instruction
        (readsAt_lookupswitch hposition hsize hsmall hfallback hcases hinside)

/-- An instruction takes a byte at least. -/
theorem ne_nil_of_readsAt {length : UInt16} {bytes : Bytes} {instruction : Instruction}
    (h : ReadsAt position (readInstruction constants length position) bytes instruction) :
    bytes ≠ [] := by
  rintro rfl
  cases h []

end Instructions

section Code

variable {constants : Constants} {labels : HashMap Label Nat} {wide : HashSet Nat}

/-- The item has the label of an instruction and stands for it. -/
def ItemOf (constants : Constants) (entry : Labelled) (item : Option Label × CodeItem) : Prop :=
  item.1 = entry.label ∧ Stands constants entry.instruction item.2

/-- Instructions are written as items that stand for them, behind those that are there. -/
theorem puts_itemsFrom {entries : List Labelled}
    (h : ∀ entry ∈ entries, KeptInstruction entry.instruction) (placement : Layout.Placement)
    (done : List (Option Label × CodeItem)) :
    Puts (itemsFrom placement done entries) fun constants items =>
      ∃ own, items = done.reverse ++ own ∧ List.Forall₂ (ItemOf constants) entries own := by
  induction entries generalizing placement done with
  | nil => exact puts_pure fun _ => ⟨[], by rw [List.append_nil], .nil⟩
  | cons entry entries ih =>
      obtain ⟨hfirst, hothers⟩ := List.forall_mem_cons.mp h
      refine (puts_lift fun _ _ _ => trivial).bind fun _ => ?_
      refine (Puts.within hfirst .atInstruction).bind fun item => ?_
      refine (ih hothers (placement.add false entry.label item) ((entry.label, item) :: done)).mono ?_
      rintro constants items ⟨own, rfl, hown⟩ hitem -
      refine ⟨(entry.label, item) :: own, ?_, .cons ⟨rfl, hitem⟩ hown⟩
      rw [List.reverse_cons, List.append_assoc, List.singleton_append]

/-- Instructions are written as items that stand for them. -/
theorem puts_items {entries : List Labelled}
    (h : ∀ entry ∈ entries, KeptInstruction entry.instruction) :
    Puts (items entries) fun constants items => List.Forall₂ (ItemOf constants) entries items := by
  refine (puts_itemsFrom h {} []).mono ?_
  rintro constants items ⟨own, rfl, hown⟩
  exact hown

/-- An instruction that was read again, with the position it was found at: labels are replaced by
their places, and its own label is at its position. -/
def FoundAt (labels : HashMap Label Nat) (entry : Labelled) (found : UInt16 × Instruction) : Prop :=
  found.2 = entry.instruction.mapLabels (placeLabel labels) ∧
    ∀ (own : Label), entry.label = some own → labels[own]? = some found.1.toNat

/-- One instruction is read, and then the others. -/
theorem instructionsFrom_succ {length : UInt16} {offset : Nat} {rest : Bytes} {cursor : Cursor}
    {next : Instruction} (fuel : Nat) (done : List (UInt16 × Instruction)) (hrest : rest ≠ [])
    (h : readInstruction constants length offset ⟨offset, rest⟩ = .ok (next, cursor)) :
    Decode.instructionsFrom constants.table constants.bootstraps length (fuel + 1) done
        ⟨offset, rest⟩ =
      Decode.instructionsFrom constants.table constants.bootstraps length fuel
        ((offset.toUInt16, next) :: done) cursor := by
  cases rest with
  | nil => cases hrest rfl
  | cons byte rest =>
      show Except.bind (Downlevel.within (.read (.atOffset offset))
        (readInstruction constants length offset ⟨offset, byte :: rest⟩)) _ = _
      rw [h]
      rfl

/-- What stands for an instruction has bytes. -/
theorem Stands.ne_nil {instruction : Instruction} {item : CodeItem}
    (h : Stands constants instruction item) : item ≠ .plain [] := by
  intro hnil
  subst hnil
  exact ne_nil_of_readsAt (h.2 0 0 0) rfl

/-- Nothing else stands for a conditional jump. -/
theorem Stands.eq_branch {condition : Condition} {target : Label} {item : CodeItem}
    (h : Stands constants (.branch condition target) item) : item = .branch condition target := by
  cases item with
  | plain bytes =>
      have hsame := h.1 fun _ => ⟨target.id + 1⟩
      simp only [Instruction.mapLabels, Instruction.branch.injEq, true_and] at hsame
      have hid : target.id + 1 = target.id := congrArg Label.id hsame
      simp at hid
  | branch condition' target' =>
      cases h
      rfl
  | jump | table | lookup => simp [Stands] at h

/-- What an instruction at a position is read as.  The longer form of a conditional jump is one on the
inverse condition, which goes past the plain jump behind it. -/
def readAs (labels : HashMap Label Nat) (isWide : Bool) (position : Nat) :
    Instruction → List (UInt16 × Instruction)
  | .branch condition target =>
      if isWide then
        [(position.toUInt16, .branch condition.inverse ⟨(position + 8).toUInt16⟩),
          ((position + 3).toUInt16, .goto (placeLabel labels target))]
      else [(position.toUInt16, .branch condition (placeLabel labels target))]
  | instruction => [(position.toUInt16, instruction.mapLabels (placeLabel labels))]

/-- Only a conditional jump in its longer form is read as more than one instruction. -/
theorem readAs_eq_singleton {isWide : Bool} {position : Nat} {instruction : Instruction}
    (hnear : ∀ condition target, instruction = .branch condition target → isWide = false) :
    readAs labels isWide position instruction =
      [(position.toUInt16, instruction.mapLabels (placeLabel labels))] := by
  cases instruction with
  | branch condition target =>
      rw [hnear condition target rfl]
      rfl
  | _ => rfl

/-- The longer form of a conditional jump is read as two instructions. -/
theorem instructionsFrom_farBranch {condition : Condition} {target : Label} {size position place : Nat}
    (hplace : labels[target]? = some place) (hposition : position + 8 < size) (hinside : place < size)
    (hsize : size < 65536) (fuel : Nat) (done : List (UInt16 × Instruction)) (rest : Bytes) :
    Decode.instructionsFrom constants.table constants.bootstraps size.toUInt16 (fuel + 2) done
        ⟨position, condition.inverse.opcode ::
          (short 8 ++ [0xc8] ++ long (distance (position + 3) place)) ++ rest⟩ =
      Decode.instructionsFrom constants.table constants.bootstraps size.toUInt16 fuel
        ((readAs labels true position (.branch condition target)).reverse ++ done)
        ⟨position + 8, rest⟩ := by
  have hdistance : distance position (position + 8) = 8 := by
    unfold distance
    omega
  have hshort : isShort (distance position (position + 8)) = true := by
    rw [hdistance]
    rfl
  have hover : ReadsAt position (readInstruction constants size.toUInt16 position)
      (condition.inverse.opcode :: short 8)
      (.branch condition.inverse ⟨(position + 8).toUInt16⟩) := by
    have hread := (reads_shortTarget hshort hposition hsize).map
      (Instruction.branch condition.inverse)
    rw [hdistance] at hread
    refine readsAt_instruction ?_
    cases condition <;> exact hread _
  have hgoto : ReadsAt (position + 3) (readInstruction constants size.toUInt16 (position + 3))
      (0xc8 :: long (distance (position + 3) place)) (.goto (placeLabel labels target)) := by
    have hbehind : position + 3 < 65536 := by omega
    have hread := (reads_longTarget hbehind hinside hsize).map Instruction.goto
    rw [← placeLabel_eq hplace] at hread
    exact readsAt_instruction (hread _)
  have hbytes : condition.inverse.opcode ::
      (short 8 ++ [0xc8] ++ long (distance (position + 3) place)) ++ rest =
      (condition.inverse.opcode :: short 8) ++
        ((0xc8 :: long (distance (position + 3) place)) ++ rest) := by
    simp only [List.cons_append, List.append_assoc, List.nil_append]
  rw [hbytes]
  exact (instructionsFrom_succ (fuel + 1) done (List.cons_ne_nil _ _) (hover _)).trans
    (instructionsFrom_succ fuel _ (List.cons_ne_nil _ _) (hgoto rest))

/-- **An instruction at its position is read, and then the others.** -/
theorem instructionsFrom_fits {instruction : Instruction} {item : CodeItem} {isWide : Bool}
    {bytes : Bytes} {size position : Nat} (hstands : Stands constants instruction item)
    (hfits : Fits labels position isWide item bytes) (hposition : position < 65536)
    (hsize : size < 65536) (hlength : bytes.length < 65536)
    (hinside : ∀ target ∈ instruction.targets, Inside labels size target)
    (hbehind : ∀ condition target, instruction = .branch condition target → isWide = true →
      position + bytes.length < size)
    (fuel : Nat) (done : List (UInt16 × Instruction)) (rest : Bytes) :
    (readAs labels isWide position instruction).length ≤ bytes.length ∧
      Decode.instructionsFrom constants.table constants.bootstraps size.toUInt16
          (fuel + (readAs labels isWide position instruction).length) done
          ⟨position, bytes ++ rest⟩ =
        Decode.instructionsFrom constants.table constants.bootstraps size.toUInt16 fuel
          ((readAs labels isWide position instruction).reverse ++ done)
          ⟨position + bytes.length, rest⟩ := by
  by_cases hfar : ∃ condition target, item = .branch condition target ∧ isWide = true
  · obtain ⟨condition, target, rfl, rfl⟩ := hfar
    obtain rfl : instruction = .branch condition target := hstands
    cases hfits with
    | @farBranch _ _ place hplace =>
        have hlong : position + 8 < size := hbehind condition target rfl rfl
        have hplaceInside := hinside target List.mem_cons_self place hplace
        constructor
        · show 2 ≤ 8
          omega
        · exact instructionsFrom_farBranch hplace hlong hplaceInside hsize fuel done rest
  · have hnear : ∀ condition target, item = .branch condition target → isWide = false := by
      intro condition target hitem
      by_contra hwide
      exact hfar ⟨condition, target, hitem, Bool.eq_true_of_not_eq_false hwide⟩
    have hsingle : readAs labels isWide position instruction =
        [(position.toUInt16, instruction.mapLabels (placeLabel labels))] := by
      refine readAs_eq_singleton fun condition target hbranch => ?_
      subst hbranch
      exact hnear condition target hstands.eq_branch
    have hread := readsAt_fits hstands hfits hnear hposition hsize hlength hinside
    have hbytes := ne_nil_of_readsAt hread
    rw [hsingle]
    exact ⟨List.length_pos_iff.mpr hbytes, instructionsFrom_succ fuel done
      (List.append_ne_nil_of_left_ne_nil hbytes _) (hread rest)⟩

/-- **Instructions that were laid out are read again**, each at its position and behind those that are
there, if the reader takes all offsets that they jump to.  As every instruction takes a byte at least,
there is always enough fuel. -/
theorem instructionsFrom_laid {size limit index position : Nat} {entries : List Labelled}
    {items : List (Option Label × CodeItem)} {chunks : List Bytes} {offset : Nat → Nat}
    (hlaid : Laid labels wide size index position items chunks) (hsize : size < 65536)
    (hlimit : limit < 65536) (hitems : List.Forall₂ (ItemOf constants) entries items)
    (hinside : ∀ entry ∈ entries, ∀ target ∈ entry.instruction.targets, Inside labels limit target)
    (hbehind : ∀ (n : Nat) condition target, entries[n]?.map Labelled.instruction =
      some (.branch condition target) → wide.contains (index + n) = true →
        offset (index + n + 1) < limit)
    (hoffset : ∀ n, offset (index + n) = position + (chunks.take n).flatten.length)
    (fuel : Nat) (done : List (UInt16 × Instruction)) (hfuel : chunks.flatten.length ≤ fuel) :
    Decode.instructionsFrom constants.table constants.bootstraps limit.toUInt16 fuel done
        ⟨position, chunks.flatten⟩ =
      .ok (done.reverse ++ (entries.zipIdx index).flatMap (fun one =>
        readAs labels (wide.contains one.2) (offset one.2) one.1.instruction), ⟨size, []⟩) := by
  induction hlaid generalizing entries fuel done with
  | done index =>
      cases hitems
      rw [List.zipIdx_nil, List.flatMap_nil, List.append_nil]
      cases fuel <;> rfl
  | @more index position label item bytes items chunks hstart hlabel hfits hrest ih =>
      cases hitems with
      | @cons entry _ entries _ hitem hitems =>
      obtain ⟨rfl, hstands⟩ := hitem
      obtain ⟨hfirst, hothers⟩ := List.forall_mem_cons.mp hinside
      have hend := hrest.length
      have hhere : offset index = position := hoffset 0
      have hlast : ∀ condition target, entry.instruction = .branch condition target →
          wide.contains index = true → position + bytes.length < limit := by
        intro condition target hbranch hwide
        have hmore := hbehind 0 condition target (by
          rw [List.getElem?_cons_zero, Option.map_some, hbranch]) hwide
        rw [Nat.add_zero, hoffset 1] at hmore
        simpa using hmore
      obtain ⟨hcount, hrun⟩ := instructionsFrom_fits hstands hfits hstart hlimit (by omega) hfirst
        hlast (fuel - (readAs labels (wide.contains index) position entry.instruction).length) done
        chunks.flatten
      rw [List.flatten_cons, List.length_append] at hfuel
      rw [Nat.sub_add_cancel (by omega)] at hrun
      rw [List.flatten_cons, hrun, ih hitems hothers ?_ ?_ _ _ (by omega)]
      · rw [List.reverse_append, List.reverse_reverse, List.zipIdx_cons, List.flatMap_cons,
          List.append_assoc, hhere]
      · intro n condition target hbranch hwide
        rw [Nat.add_assoc index, Nat.add_comm 1 n] at hwide ⊢
        exact hbehind (n + 1) condition target hbranch hwide
      · intro n
        have hnext := hoffset (n + 1)
        rw [List.take_succ_cons, List.flatten_cons, List.length_append] at hnext
        rw [Nat.add_assoc, Nat.add_comm 1 n, hnext, Nat.add_assoc]

/-- **Code that was laid out is read again**, each instruction at its position, if the reader takes
all offsets that they jump to. -/
theorem instructions_laid {size limit : Nat} {entries : List Labelled}
    {items : List (Option Label × CodeItem)} {chunks : List Bytes} {offset : Nat → Nat}
    (hlaid : Laid labels wide size 0 0 items chunks) (hsize : size < 65536)
    (hlimit : limit < 65536) (hitems : List.Forall₂ (ItemOf constants) entries items)
    (hinside : ∀ entry ∈ entries, ∀ target ∈ entry.instruction.targets, Inside labels limit target)
    (hbehind : ∀ (n : Nat) condition target, entries[n]?.map Labelled.instruction =
      some (.branch condition target) → wide.contains n = true → offset (n + 1) < limit)
    (hoffset : ∀ n, offset n = (chunks.take n).flatten.length) :
    Decode.instructions constants.table constants.bootstraps limit.toUInt16 chunks.flatten =
      .ok (entries.zipIdx.flatMap fun one =>
        readAs labels (wide.contains one.2) (offset one.2) one.1.instruction) := by
  have hrun : Decode.instructionsFrom constants.table constants.bootstraps limit.toUInt16
      chunks.flatten.length [] ⟨0, chunks.flatten⟩ =
        .ok ([].reverse ++ (entries.zipIdx 0).flatMap (fun one =>
          readAs labels (wide.contains one.2) (offset one.2) one.1.instruction), ⟨size, []⟩) :=
    instructionsFrom_laid hlaid hsize hlimit hitems hinside
      (fun n condition target hbranch hwide => by
        rw [Nat.zero_add] at hwide ⊢
        exact hbehind n condition target hbranch hwide)
      (fun n => by rw [Nat.zero_add, Nat.zero_add, hoffset n]) _ [] (Nat.le_refl _)
  rw [Decode.instructions, Cursor.start, hrun]
  rfl

/-- Where the bytes of the instruction at an index start. -/
def startOf (chunks : List Bytes) (index : Nat) : Nat :=
  (chunks.take index).flatten.length

/-- How the instruction at an index is read: where it starts, and with places for labels. -/
def lookAt (labels : HashMap Label Nat) (chunks : List Bytes) (one : Labelled × Nat) :
    UInt16 × Instruction :=
  ((startOf chunks one.2).toUInt16, one.1.instruction.mapLabels (placeLabel labels))

section Starts

variable {size : Nat} {entries : List Labelled} {items : List (Option Label × CodeItem)}
  {chunks : List Bytes}

/-- Later instructions start at higher offsets. -/
theorem startOf_lt (hlaid : Laid labels wide size 0 0 items chunks)
    (hitems : List.Forall₂ (ItemOf constants) entries items) {i j : Nat} (hlt : i < j)
    (hle : j ≤ entries.length) : startOf chunks i < startOf chunks j := by
  have hcount : chunks.length = entries.length := hlaid.length_chunks.trans hitems.length_eq.symm
  have hsome : ∀ item ∈ items, item.2 ≠ .plain [] := by
    intro item hmem
    obtain ⟨entry, _, hitem⟩ := exists_left_of_forall₂ hitems hmem
    exact hitem.2.ne_nil
  exact length_take_lt (hlaid.ne_nil hsome) hlt (hcount ▸ hle)

/-- All of them start within the code. -/
theorem startOf_lt_size (hlaid : Laid labels wide size 0 0 items chunks)
    (hitems : List.Forall₂ (ItemOf constants) entries items) {n : Nat} (hlt : n < entries.length) :
    startOf chunks n < size := by
  have hend := hlaid.length
  have hcount : chunks.length = entries.length := hlaid.length_chunks.trans hitems.length_eq.symm
  have hall : startOf chunks entries.length = chunks.flatten.length := by
    rw [startOf, ← hcount, List.take_length]
  have hless := startOf_lt hlaid hitems hlt (Nat.le_refl _)
  omega

/-- Where they start fits into 16 bits. -/
theorem toNat_startOf (hlaid : Laid labels wide size 0 0 items chunks) (hsize : size < 65536)
    (hitems : List.Forall₂ (ItemOf constants) entries items) {n : Nat} (hlt : n < entries.length) :
    (startOf chunks n).toUInt16.toNat = startOf chunks n :=
  UInt16.toNat_ofNat_of_lt' ((startOf_lt_size hlaid hitems hlt).trans hsize)

/-- Each instruction is found where it was placed. -/
theorem foundAt_lookAt (hlaid : Laid labels wide size 0 0 items chunks) (hsize : size < 65536)
    (hitems : List.Forall₂ (ItemOf constants) entries items) :
    List.Forall₂ (FoundAt labels) entries (entries.zipIdx.map (lookAt labels chunks)) := by
  refine List.forall₂_iff_get.mpr ⟨by simp, fun n hlt hlt' => ?_⟩
  have hget : (entries.zipIdx.map (lookAt labels chunks))[n] = lookAt labels chunks (entries[n], n) := by
    simp
  rw [List.get_eq_getElem, List.get_eq_getElem, hget]
  refine ⟨rfl, fun own hown => ?_⟩
  have hin : n < items.length := hitems.length_eq ▸ hlt
  have hitem := hitems.get hlt hin
  rw [List.get_eq_getElem, List.get_eq_getElem] at hitem
  have hlabel : items[n]? = some (some own, items[n].2) := by
    rw [List.getElem?_eq_getElem hin, ← hown, ← hitem.1]
  rw [hlaid.label_place hlabel, Nat.zero_add]
  exact congrArg some (toNat_startOf hlaid hsize hitems hlt).symm

end Starts

/-- **Code that was laid out without longer forms of conditional jumps is read again**, each
instruction at its position. -/
theorem reads_instructions {size : Nat} {entries : List Labelled}
    {items : List (Option Label × CodeItem)} {chunks : List Bytes}
    (hlaid : Laid labels wide size 0 0 items chunks) (hsize : size < 65536)
    (hitems : List.Forall₂ (ItemOf constants) entries items)
    (hinside : ∀ entry ∈ entries, ∀ target ∈ entry.instruction.targets, Inside labels size target)
    (hnear : ∀ (n : Nat) condition target, entries[n]?.map Labelled.instruction =
      some (.branch condition target) → wide.contains n = false) :
    ∃ found : List (UInt16 × Instruction), List.Forall₂ (FoundAt labels) entries found ∧
      (found.map fun one => one.1.toNat).Pairwise (· < ·) ∧
      (∀ one ∈ found, one.1.toNat < size) ∧
      Decode.instructions constants.table constants.bootstraps size.toUInt16 chunks.flatten =
        .ok found := by
  refine ⟨entries.zipIdx.map (lookAt labels chunks), foundAt_lookAt hlaid hsize hitems, ?_, ?_, ?_⟩
  · rw [List.map_map, List.pairwise_iff_getElem]
    intro i j hi hj hlt
    rw [List.length_map, List.length_zipIdx] at hi hj
    simp only [List.getElem_map, List.getElem_zipIdx, Nat.zero_add, Function.comp_def]
    show (startOf chunks i).toUInt16.toNat < (startOf chunks j).toUInt16.toNat
    rw [toNat_startOf hlaid hsize hitems hi, toNat_startOf hlaid hsize hitems hj]
    exact startOf_lt hlaid hitems hlt (Nat.le_of_lt hj)
  · intro one hone
    obtain ⟨⟨entry, n⟩, hmem, rfl⟩ := List.mem_map.mp hone
    have hin : n < entries.length :=
      (List.getElem?_eq_some_iff.mp (List.mem_zipIdx_iff_getElem?.mp hmem)).1
    show (startOf chunks n).toUInt16.toNat < size
    rw [toNat_startOf hlaid hsize hitems hin]
    exact startOf_lt_size hlaid hitems hin
  · have hstarts : ∀ n, startOf chunks n = (chunks.take n).flatten.length := fun _ => rfl
    rw [instructions_laid hlaid hsize hsize hitems hinside
      (fun n condition target hbranch hwide => by
        rw [hnear n condition target hbranch] at hwide
        cases hwide) hstarts, List.map_eq_flatMap]
    refine congrArg Except.ok (List.flatMap_congr fun one hone => ?_)
    refine readAs_eq_singleton fun condition target hbranch => ?_
    refine hnear one.2 condition target ?_
    rw [List.mem_zipIdx_iff_getElem?.mp hone, Option.map_some, hbranch]

end Code

end Encode

end Downlevel
