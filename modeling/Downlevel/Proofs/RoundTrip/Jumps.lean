import Mathlib
import Downlevel.Proofs.Attempts
import Downlevel.Proofs.Emitting
import Downlevel.Proofs.Pool.Growth
import Downlevel.Proofs.RoundTrip.Placed

/-!
# Jumps in code that is written

A method's code is placed again and again, until all distances fit.  There are no more attempts than
jumps, and one.  In the bytes that come of it a reader finds the instructions of the code again, each
where it was placed, and all of them jump to where their labels are.

A conditional jump that did not reach its target in some attempt is written in its longer form.  It
keeps that form, although padding may bring its target near again when other jumps are made longer.

A reader is given a bound for the offsets that it takes as targets.  The one for class files takes
those inside the code, so it refuses code in which something jumps behind the last instruction.

* `Code.jumps` — how many jumps have a shorter and a longer form;
* `LabelsLead` — where labels are;
* `MarksTell` — which conditional jumps have their longer form;
* `readBack` — what a reader finds in code;
* `code_jumps` — code is written like that.
-/

namespace Downlevel

/-- Whether an instruction is a jump with a shorter and a longer form. -/
def Instruction.isJump : Instruction → Bool
  | .branch _ _ => true
  | .goto _ => true
  | .jsr _ => true
  | _ => false

/-- How many jumps have a shorter and a longer form. -/
def Code.jumps (code : Code) : Nat :=
  code.instructions.countP fun entry => entry.instruction.isJump

namespace Encode

open Pool PoolM Builder
open Std (HashMap HashSet)
open Layout (distance isShort Laid Fits)

/-- **Where labels are**: those on instructions where these start, the last one at the end of the
code, and no instruction jumps to another one. -/
structure LabelsLead (code : Code) (layout : Layout) : Prop where
  own : ∀ (index : Nat) (entry : Labelled) (label : Label), code.instructions[index]? = some entry →
    entry.label = some label → layout.labels[label]? = some (layout.offsetOf index)
  last : ∀ label : Label, code.lastLabel = some label → layout.labels[label]? = some layout.size
  targets : ∀ entry ∈ code.instructions, ∀ target ∈ entry.instruction.targets, target ∈ code.labels

/-- **Which conditional jumps have their longer form**: all whose target is too far for two bytes, and
no others than those whose target was too far in some attempt. -/
structure MarksTell (code : Code) (placed : List (Option Label × CodeItem)) (layout : Layout) :
    Prop where
  near : ∀ (index : Nat) (condition : Condition) (target : Label),
    code.instructions[index]?.map Labelled.instruction = some (.branch condition target) →
    layout.wide.contains index = false → ∀ place : Nat, layout.labels[target]? = some place →
      isShort (distance (layout.offsetOf index) place) = true
  far : ∀ (index : Nat) (condition : Condition) (target : Label),
    code.instructions[index]?.map Labelled.instruction = some (.branch condition target) →
    layout.wide.contains index = true → ∃ (marks : HashSet Nat) (placement : Layout.Placement)
      (start place : Nat), Layout.Attempted placed code.lastLabel marks ∧
        Layout.place marks placed code.lastLabel = .ok placement ∧
        placement.offsets[index]? = some start ∧ placement.labels[target]? = some place ∧
        isShort (distance start place) = false

/-- What a reader finds in code: every instruction where it starts, and the places of labels in place
of the labels. -/
def readBack (code : Code) (layout : Layout) : List (UInt16 × Instruction) :=
  code.instructions.zipIdx.flatMap fun one =>
    readAs layout.labels (layout.wide.contains one.2) (layout.offsetOf one.2) one.1.instruction

/-- All jumps go to offsets below a limit, and so does the jump over the plain one in the longer form
of a conditional jump. -/
structure JumpsBelow (code : Code) (layout : Layout) (limit : UInt16) : Prop where
  targets : ∀ entry ∈ code.instructions, ∀ target ∈ entry.instruction.targets,
    Inside layout.labels limit.toNat target
  past : ∀ (index : Nat) (condition : Condition) (target : Label),
    code.instructions[index]?.map Labelled.instruction = some (.branch condition target) →
    layout.wide.contains index = true → layout.offsetOf (index + 1) < limit.toNat

section Stands

variable {constants : Constants} {instruction : Instruction} {item : CodeItem}

/-- An instruction that stays the same with other labels has none. -/
theorem targets_eq_nil (h : ∀ f, instruction.mapLabels f = instruction) :
    instruction.targets = [] := by
  rw [List.eq_nil_iff_forall_not_mem]
  intro target htarget
  have hmap := instruction.targets_mapLabels fun _ => ⟨target.id + 1⟩
  rw [h] at hmap
  rw [hmap] at htarget
  obtain ⟨_, _, hsame⟩ := List.mem_map.mp htarget
  have hid : target.id + 1 = target.id := congrArg Label.id hsame
  simp at hid

/-- What stands for an instruction is a jump if the instruction is one. -/
theorem Stands.isSome_jump (h : Stands constants instruction item) :
    item.jump?.isSome = instruction.isJump := by
  cases item with
  | plain bytes =>
      have hnone := targets_eq_nil h.1
      cases instruction with
      | branch | goto | jsr => cases hnone
      | _ => rfl
  | branch condition target =>
      obtain rfl : instruction = .branch condition target := h
      rfl
  | jump opcode wideOpcode target =>
      obtain ⟨-, -, rfl⟩ | ⟨-, -, rfl⟩ := h
      · rfl
      · rfl
  | table fallback low high targets =>
      obtain ⟨rfl, _⟩ := h
      rfl
  | lookup fallback cases =>
      obtain rfl : instruction = .lookupswitch fallback cases := h
      rfl

/-- All labels that an instruction jumps to have places when it has its bytes. -/
theorem Fits.exists_place {labels : HashMap Label Nat} {position : Nat} {isWide : Bool}
    {bytes : Bytes} (hfits : Fits labels position isWide item bytes)
    (h : Stands constants instruction item) :
    ∀ target ∈ instruction.targets, ∃ place : Nat, labels[target]? = some place := by
  cases hfits with
  | plain bytes =>
      rw [targets_eq_nil h.1]
      exact nofun
  | branch hplace | farBranch hplace =>
      rw [show instruction = _ from h]
      exact List.forall_mem_singleton.mpr ⟨_, hplace⟩
  | jump hplace | farJump hplace =>
      obtain ⟨-, -, rfl⟩ | ⟨-, -, rfl⟩ := h
      · exact List.forall_mem_singleton.mpr ⟨_, hplace⟩
      · exact List.forall_mem_singleton.mpr ⟨_, hplace⟩
  | table hplace hplaces =>
      rw [h.1]
      refine List.forall_mem_cons.mpr ⟨⟨_, hplace⟩, fun target htarget => ?_⟩
      obtain ⟨place, _, htarget⟩ := exists_right_of_forall₂ hplaces htarget
      exact ⟨place, htarget⟩
  | lookup hplace hplaces =>
      rw [show instruction = _ from h]
      refine List.forall_mem_cons.mpr ⟨⟨_, hplace⟩, List.forall_mem_map.mpr fun c hc => ?_⟩
      obtain ⟨part, _, place, htarget, _⟩ := exists_right_of_forall₂ hplaces hc
      exact ⟨place, htarget⟩

end Stands

section Layout

variable {constants : Constants} {code : Code} {placed : List (Option Label × CodeItem)}
  {layout : Layout}

/-- As many jumps are written as there are. -/
theorem jumps_eq {entries : List Labelled}
    (h : List.Forall₂ (ItemOf constants) entries placed) :
    Layout.jumps placed = entries.countP fun entry => entry.instruction.isJump := by
  unfold Layout.jumps
  induction h with
  | nil => rfl
  | cons hfirst _ ih => rw [List.countP_cons, List.countP_cons, ih, hfirst.2.isSome_jump]

/-- The labels on what is written are those on the instructions. -/
theorem labels_eq {entries : List Labelled}
    (h : List.Forall₂ (ItemOf constants) entries placed) :
    Layout.placedLabels placed = entries.filterMap Labelled.label := by
  unfold Layout.placedLabels
  induction h with
  | nil => rfl
  | cons hfirst _ ih => rw [List.filterMap_cons, List.filterMap_cons, ih, hfirst.1]

variable (hlabels : code.labels.Nodup) (hlayout : Layout.ofItems placed code.lastLabel = .ok layout)
  (hplaced : List.Forall₂ (ItemOf constants) code.instructions placed)

include hlabels hlayout hplaced

/-- The labels of the code are laid out as they are. -/
theorem laid_of_items : (Layout.placedLabels placed ++ code.lastLabel.toList).Nodup ∧
    Laid layout.labels layout.wide layout.size 0 0 placed layout.chunks ∧
    ∀ label : Label, code.lastLabel = some label → layout.labels[label]? = some layout.size := by
  have hnodup : (Layout.placedLabels placed ++ code.lastLabel.toList).Nodup := by
    rw [labels_eq hplaced]
    exact hlabels
  obtain ⟨hlaid, _, hlast⟩ := Layout.laid_ofItems hlayout hnodup
  exact ⟨hnodup, hlaid, hlast⟩

/-- An instruction has the bytes of what stands for it, where it starts. -/
theorem exists_fits {index : Nat} {entry : Labelled} (hentry : code.instructions[index]? = some entry) :
    ∃ item bytes, placed[index]? = some (entry.label, item) ∧
      Stands constants entry.instruction item ∧
      Fits layout.labels (layout.offsetOf index) (layout.wide.contains index) item bytes := by
  obtain ⟨_, hlaid, _⟩ := laid_of_items hlabels hlayout hplaced
  obtain ⟨hlt, hget⟩ := List.getElem?_eq_some_iff.mp hentry
  have hlt' : index < placed.length := hplaced.length_eq ▸ hlt
  have hitem := hplaced.get hlt hlt'
  rw [List.get_eq_getElem, List.get_eq_getElem, hget] at hitem
  have hfound : placed[index]? = some (entry.label, placed[index].2) := by
    rw [List.getElem?_eq_getElem hlt', ← hitem.1]
  obtain ⟨bytes, _, hfits⟩ := hlaid.fits hfound
  rw [Nat.zero_add, Nat.zero_add, ← (Layout.ofItems_starts hlayout).2.2.2.1 index] at hfits
  exact ⟨_, bytes, hfound, hitem.2, hfits⟩

/-- **Labels are where they should be.** -/
theorem labelsLead : LabelsLead code layout where
  own index entry label hentry hlabel := by
    obtain ⟨_, hlaid, _⟩ := laid_of_items hlabels hlayout hplaced
    obtain ⟨item, _, hfound, _⟩ := exists_fits hlabels hlayout hplaced hentry
    rw [hlabel] at hfound
    rw [hlaid.label_place hfound, Nat.zero_add, (Layout.ofItems_starts hlayout).2.2.2.1 index]
  last := (laid_of_items hlabels hlayout hplaced).2.2
  targets entry hentry target htarget := by
    obtain ⟨index, hindex⟩ := List.mem_iff_getElem?.mp hentry
    obtain ⟨item, bytes, _, hstands, hfits⟩ := exists_fits hlabels hlayout hplaced hindex
    obtain ⟨place, hplace⟩ := Fits.exists_place hfits hstands target htarget
    have hnodup := (laid_of_items hlabels hlayout hplaced).1
    have hmem := Layout.mem_of_place hlayout hnodup hplace
    rw [labels_eq hplaced] at hmem
    exact hmem

/-- **A conditional jump has its longer form if its target is too far**, or was in some attempt. -/
theorem marksTell : MarksTell code placed layout where
  near index condition target hbranch hmark place hplace := by
    obtain ⟨entry, hentry, hinstruction⟩ := Option.map_eq_some_iff.mp hbranch
    obtain ⟨item, bytes, _, hstands, hfits⟩ := exists_fits hlabels hlayout hplaced hentry
    rw [hinstruction] at hstands
    rw [hmark, hstands.eq_branch] at hfits
    cases hfits with
    | branch hfound hnear =>
        cases hfound.symm.trans hplace
        exact hnear
  far index condition target hbranch hmark := by
    obtain ⟨entry, hentry, hinstruction⟩ := Option.map_eq_some_iff.mp hbranch
    obtain ⟨item, _, hfound, hstands, _⟩ := exists_fits hlabels hlayout hplaced hentry
    rw [hinstruction] at hstands
    have hattempts := Layout.settle_attempted hlayout .first
    obtain ⟨marks, hbefore, hgives⟩ := hattempts.exists_givesUp hmark
    obtain ⟨_, item', other, placement, start, place, hitem, hjump, _, hplace, hstart, htarget, hfar⟩ :=
      hgives.far
    cases hfound.symm.trans hitem
    rw [hstands.eq_branch] at hjump
    cases hjump
    exact ⟨marks, placement, start, place, hbefore, hplace, hstart, htarget, hfar⟩

/-- **A reader finds the instructions again**, if it takes all offsets that they jump to. -/
theorem reads_readBack {limit : UInt16} (hlimit : JumpsBelow code layout limit) :
    Decode.instructions constants.table constants.bootstraps limit layout.chunks.flatten =
      .ok (readBack code layout) := by
  obtain ⟨_, hlaid, _⟩ := laid_of_items hlabels hlayout hplaced
  obtain ⟨_, _, hsize, hoffset, _⟩ := Layout.ofItems_starts hlayout
  have hread := instructions_laid hlaid hsize limit.toNat_lt hplaced hlimit.targets hlimit.past hoffset
  rwa [Nat.toUInt16_eq, UInt16.ofNat_toNat] at hread

end Layout

section Written

variable {σ : Type} {supers : SuperClasses σ} {computeFrames : Bool} {cls : ClassName}
  {method : Method} {code : Code} {pool pool' : Pool.Builder} {bytes : Bytes} {state state' : σ}

/-- What is written behind the sizes of code: its instructions come first, and all that follows only
adds to the pool. -/
theorem codeBody_front {frames : Option (Array (Option Frame))} {body : Bytes}
    (h : codeBody computeFrames code frames pool = .ok (body, pool')) :
    ∃ placed filled layout rest, items code.instructions pool = .ok (placed, filled) ∧
      Layout.ofItems placed code.lastLabel = .ok layout ∧ filled.Promises pool' ∧
      body = Bytes.ofU32 layout.size.toUInt32 ++ (Context.mk code layout frames).bytes ++ rest := by
  obtain ⟨placed, filled, layout, indices, table, exceptions, parts, attributes, hitems, hlayout, -,
    htable, hparts, -, rfl⟩ := codeBody_eq_ok h
  refine ⟨placed, filled, layout, table ++ attributes, hitems, hlayout,
    PoolM.Entered.trans (PoolM.Enlarges.run htable) (PoolM.Enlarges.run hparts), ?_⟩
  simp only [List.append_assoc]

/-- **Jumps in code that is written are right.**  The code of a method in which no label stands twice,
and whose operands pass what a reader checks, is settled with at most one attempt more than there are
jumps.  Labels are where they should be, and a conditional jump has its longer form if its target is
too far, or was in some attempt.  In the bytes of the instructions, a reader finds all of them again
if it takes the offsets that they jump to. -/
theorem code_jumps (hlabels : code.labels.Nodup)
    (hreadable : ∀ entry ∈ code.instructions, entry.instruction.Readable) (hpool : pool.Sound)
    (h : Encode.code supers computeFrames cls method code pool state =
      (.ok (bytes, pool'), state')) :
    ∃ placed filled layout frames sizes rest,
      items code.instructions pool = .ok (placed, filled) ∧
      Layout.ofItems placed code.lastLabel = .ok layout ∧
      bytes = sizes ++ (Bytes.ofU32 layout.size.toUInt32 ++
        (Context.mk code layout frames).bytes ++ rest) ∧
      (∀ attempts, code.jumps < attempts →
        Layout.settle placed code.lastLabel attempts ∅ = .ok layout) ∧
      LabelsLead code layout ∧ MarksTell code placed layout ∧ pool'.Sound ∧
      ∀ (constants : Constants) (limit : UInt16), constants.Covers pool' →
        JumpsBelow code layout limit →
          Decode.instructions constants.table constants.bootstraps limit layout.chunks.flatten =
            .ok (readBack code layout) := by
  obtain ⟨locals, maxStack, frames, body, _, _, hbody, rfl⟩ := code_run.mp h
  obtain ⟨placed, filled, layout, rest, hitems, hlayout, hgrows, rfl⟩ := codeBody_front hbody
  have hkept : ∀ entry ∈ code.instructions, KeptInstruction entry.instruction :=
    fun entry hentry => kept_of_readable (hreadable entry hentry)
  obtain ⟨hfilled, hcovered⟩ := puts_items hkept _ _ _ hitems hpool
  obtain ⟨hsound, hgrows⟩ := hgrows hfilled
  -- A sound pool has a table, with which the items stand for the instructions.
  obtain ⟨bootstraps, _, hcovers⟩ := hfilled.exists_covers hfilled.covers
  obtain ⟨_, hplaced⟩ := hcovered _ hcovers
  refine ⟨placed, filled, layout, frames, _, rest, hitems, hlayout, rfl, fun attempts hattempts => ?_,
    labelsLead hlabels hlayout hplaced, marksTell hlabels hlayout hplaced, hsound,
    fun constants limit hconstants hlimit => ?_⟩
  · rw [Code.jumps, ← jumps_eq hplaced] at hattempts
    rw [Layout.settle_enough hattempts, hlayout]
  · exact reads_readBack hlabels hlayout (hcovered constants (hgrows constants hconstants)).2 hlimit

end Written

/-- Instructions that put nothing into the pool are written if they can be placed. -/
theorem itemsFrom_of_addAll {entries : List Labelled} {written : List (Option Label × CodeItem)}
    {placement placement' : Layout.Placement} {pool : Pool.Builder}
    (done : List (Option Label × CodeItem))
    (hplace : Layout.Placement.addAll ∅ written placement = .ok placement')
    (hitems : List.Forall₂ (fun (entry : Labelled) one => one.1 = entry.label ∧
      item entry.instruction pool = .ok (one.2, pool)) entries written) :
    itemsFrom placement done entries pool = .ok (done.reverse ++ written, pool) := by
  induction hitems generalizing placement done with
  | nil => exact work_pure_eq_ok.mpr ⟨(List.append_nil _).symm, rfl⟩
  | @cons entry one entries written hfirst _ ih =>
      obtain ⟨label, next⟩ := one
      obtain ⟨rfl, hitem⟩ := hfirst
      obtain ⟨_, hcheck, hrest⟩ := bind_eq_ok.mp hplace
      have hmark : (∅ : HashSet Nat).contains placement.offsets.size = false :=
        HashSet.contains_empty
      rw [hmark] at hrest
      refine work_bind_eq_ok.mpr ⟨(), pool, work_lift_eq_ok.mpr ⟨hcheck, rfl⟩, ?_⟩
      refine work_bind_eq_ok.mpr ⟨next, pool, within_eq_ok.mpr hitem, ?_⟩
      rw [ih _ hrest, List.reverse_cons, List.append_assoc]
      rfl

section Example

/-! ### Code without frames

The first instruction takes a value from a stack that is empty.  So no frames are found, which does not
matter when none are written. -/

/-- Code in which something takes a value from an empty stack, in front of other instructions. -/
def unframedCode (rest : List Labelled) (lastLabel : Option Label) : Code where
  maxStack := some 1
  instructions := ⟨none, .op .pop⟩ :: rest
  lastLabel := lastLabel

/-- A method with such code. -/
def unframedMethod (rest : List Labelled) (lastLabel : Option Label) : Method where
  access := { isStatic := true }
  name := "f"
  descriptor := "()V"
  code := some (unframedCode rest lastLabel)

/-- The analysis of the code gives up at its first instruction. -/
theorem analyze_unframedCode (rest : List Labelled) (lastLabel : Option Label) (locals : UInt16) :
    ∃ error : Error, error.isFatal = false ∧
      Frame.analyze (SuperClasses.objectOnly Unit) "a/A" (unframedMethod rest lastLabel)
        (unframedCode rest lastLabel) locals () = (.error error, ()) := by
  let code := unframedCode rest lastLabel
  let first : Frame := ⟨List.replicate locals.toNat .top, []⟩
  let subject : Frame.Subject :=
    ⟨"a/A", (code.instructions.map Labelled.instruction).toArray, code.labelIndices, []⟩
  let underflow : Error := .of (.frame .stackUnderflow)
  have hparse : MethodType.parse (unframedMethod rest lastLabel).descriptor = .ok ⟨[], none⟩ := by
    show MethodType.parse "()V" = _
    cbv
  have hinitial : (liftM (Frame.initial "a/A" true "f" ⟨[], none⟩ locals) : Task Unit Frame) () =
      (.ok first, ()) := rfl
  have hafter : first.after subject.cls subject.code 0 (.op .pop) = .error underflow := by
    show Except.map _ ((Frame.StepM.popSlots 1 first).bind _) = _
    unfold Frame.StepM.popSlots Frame.StepM.splitSlots
    rfl
  have hvisit (flow : Frame.Flow) (h : flow.frames[0]? = some (some first)) :
      Frame.visit (SuperClasses.objectOnly Unit) subject 0 flow () =
        (.error (underflow.within (.frame (.afterInstruction 0))), ()) := by
    have hcode : subject.code[0]? = some (.op .pop) := rfl
    unfold Frame.visit
    simp only [h, hcode]
    refine task_bind_of_error ?_
    rw [hafter]
    rfl
  have hsome : ¬ code.instructions.isEmpty = true := Bool.false_ne_true
  refine ⟨underflow.within (.frame (.afterInstruction 0)), rfl, ?_⟩
  unfold Frame.analyze
  rw [if_neg hsome, hparse]
  refine (task_bind_of_ok rfl).trans <| (task_bind_of_ok rfl).trans ?_
  refine (task_bind_of_ok hinitial).trans (task_bind_of_error ?_)
  unfold Frame.settle
  exact task_bind_of_error (hvisit _ rfl)

/-- The method has no parameters, so only instructions need slots for local variables. -/
theorem maxLocals_unframed {rest : List Labelled} {lastLabel : Option Label} {needed : Nat}
    (hneeded : rest.foldl (fun n entry => max n (slotsUsed entry.instruction)) 0 = needed)
    (hsmall : needed < 65536) :
    maxLocals (unframedMethod rest lastLabel) (unframedCode rest lastLabel) =
      .ok needed.toUInt16 := by
  have hparse : MethodType.parse "()V" = .ok ⟨[], none⟩ := by cbv
  subst hneeded
  exact bind_eq_ok.mpr ⟨_, hparse, if_pos hsmall⟩

/-- The code is written if its instructions can be placed. -/
theorem code_unframedCode {rest : List Labelled} {lastLabel : Option Label} {locals : UInt16}
    {placed : List (Option Label × CodeItem)}
    {pool : Pool.Builder} {layout : Layout}
    (hlocals : maxLocals (unframedMethod rest lastLabel) (unframedCode rest lastLabel) = .ok locals)
    (hitems : items (unframedCode rest lastLabel).instructions {} = .ok (placed, pool))
    (hlayout : Layout.ofItems placed lastLabel = .ok layout) (hsize : layout.size ≠ 0) :
    ∃ bytes, Encode.code (SuperClasses.objectOnly Unit) false "a/A" (unframedMethod rest lastLabel)
      (unframedCode rest lastLabel) {} () = (.ok (bytes, pool), ()) := by
  obtain ⟨error, hfatal, hanalyze⟩ := analyze_unframedCode rest lastLabel locals
  have hanalysis : analysis (SuperClasses.objectOnly Unit) false "a/A"
      (unframedMethod rest lastLabel) (unframedCode rest lastLabel) locals () =
        (.ok (1, none), ()) := by
    unfold analysis
    simp only [Bool.false_eq_true, if_false, hanalyze, hfatal]
    rfl
  let context : Context := ⟨unframedCode rest lastLabel, layout, none⟩
  have hbody : codeBody false (unframedCode rest lastLabel) none {} =
      .ok (Bytes.ofU32 layout.size.toUInt32 ++ context.bytes ++ [0, 0] ++ [0, 0], pool) := by
    refine work_bind_eq_ok.mpr ⟨placed, pool, hitems, ?_⟩
    refine work_bind_eq_ok.mpr ⟨layout, pool, work_lift_eq_ok.mpr ⟨hlayout, rfl⟩, ?_⟩
    rw [if_neg hsize]
    refine work_bind_eq_ok.mpr ⟨[], pool, work_lift_eq_ok.mpr ⟨rfl, rfl⟩, ?_⟩
    refine work_bind_eq_ok.mpr ⟨[0, 0], pool, rfl, ?_⟩
    exact work_bind_eq_ok.mpr ⟨[], pool, rfl, rfl⟩
  exact ⟨_, code_run.mpr ⟨locals, 1, none, _, hlocals, hanalysis, hbody, rfl⟩⟩

/-! ### Code in which a target comes near again

The conditional jump goes too far at first.  With its longer form the second plain jump goes too far, and
with that the first one, which then moves the target of the conditional jump by two bytes. -/

/-- Many jumps to one place. -/
def backTo (n : Nat) : List Label :=
  List.replicate n ⟨0⟩

@[simp] theorem length_backTo (n : Nat) : (backTo n).length = n :=
  List.length_replicate

/-- The instructions behind the first one. -/
def driftingRest : List Labelled :=
  [⟨none, .bipush 0⟩, ⟨none, .goto ⟨1⟩⟩, ⟨none, .iinc 256 0⟩,
    ⟨some ⟨0⟩, .tableswitch ⟨0⟩ 0 8183 (backTo 8184)⟩, ⟨none, .goto ⟨2⟩⟩, ⟨none, .bipush 0⟩,
    ⟨some ⟨1⟩, .lookupswitch ⟨0⟩ []⟩, ⟨none, .op .nop⟩, ⟨none, .branch .eq ⟨0⟩⟩,
    ⟨none, .tableswitch ⟨0⟩ 0 8181 (backTo 8182)⟩, ⟨some ⟨2⟩, .op .returnVoid⟩]

/-- What stands for the instructions. -/
def driftingItems : List (Option Label × CodeItem) :=
  [(none, .plain [0x57]), (none, .plain [0x10, 0x00]), (none, .jump 0xa7 0xc8 ⟨1⟩),
    (none, .plain [0xc4, 0x84, 0x01, 0x00, 0x00, 0x00]),
    (some ⟨0⟩, .table ⟨0⟩ 0 8183 (backTo 8184)), (none, .jump 0xa7 0xc8 ⟨2⟩),
    (none, .plain [0x10, 0x00]), (some ⟨1⟩, .lookup ⟨0⟩ []), (none, .plain [0x00]),
    (none, .branch .eq ⟨0⟩), (none, .table ⟨0⟩ 0 8181 (backTo 8182)), (some ⟨2⟩, .plain [0xb1])]

section Attempts

open Layout

-- Which jumps are marked: the first plain one, the second, and the conditional one.
variable (first second back : Bool)

/-- The first label and its place. -/
def driftingHome : HashMap Label Nat :=
  (∅ : HashMap Label Nat).insert ⟨0⟩ (if first then 14 else 12)

/-- The first two labels and their places. -/
def driftingMiddle : HashMap Label Nat :=
  (driftingHome first).insert ⟨1⟩ (if second then 32771 else 32769)

/-- All labels and their places. -/
def driftingLabels : HashMap Label Nat :=
  (driftingMiddle first second).insert ⟨2⟩ (if back then 65532 else 65528)

/-- Where the instructions start. -/
def driftingOffsets : Array Nat :=
  #[0, 1, 3, if first then 8 else 6, if first then 14 else 12, 32764, if second then 32769 else 32767,
    if second then 32771 else 32769, 32780, 32781, if back then 32789 else 32784,
    if back then 65532 else 65528]

/-- The parts of the instructions. -/
def driftingParts : List (List Chunk) :=
  [partsOf ∅ 0 false (.plain [0x57]), partsOf ∅ 1 false (.plain [0x10, 0x00]),
    partsOf ∅ 3 first (.jump 0xa7 0xc8 ⟨1⟩),
    partsOf ∅ (if first then 8 else 6) false (.plain [0xc4, 0x84, 0x01, 0x00, 0x00, 0x00]),
    partsOf (driftingHome first) (if first then 14 else 12) false
      (.table ⟨0⟩ 0 8183 (backTo 8184)),
    partsOf (driftingHome first) 32764 second (.jump 0xa7 0xc8 ⟨2⟩),
    partsOf (driftingHome first) (if second then 32769 else 32767) false (.plain [0x10, 0x00]),
    partsOf (driftingMiddle first second) (if second then 32771 else 32769) false (.lookup ⟨0⟩ []),
    partsOf (driftingMiddle first second) 32780 false (.plain [0x00]),
    partsOf (driftingMiddle first second) 32781 back (.branch .eq ⟨0⟩),
    partsOf (driftingMiddle first second) (if back then 32789 else 32784) false
      (.table ⟨0⟩ 0 8181 (backTo 8182)),
    partsOf (driftingLabels first second back) (if back then 65532 else 65528) false (.plain [0xb1])]

/-- What an attempt comes to. -/
def driftingPlacement : Placement where
  placed := (driftingParts first second back).reverse
  offsets := driftingOffsets first second back
  labels := driftingLabels first second back
  size := if back then 65533 else 65529

/-- The layout that the attempts end with: all three jumps have their longer forms. -/
def driftingLayout (chunks : List Bytes) : Layout where
  chunks := chunks
  offsets := driftingOffsets true true true
  labels := driftingLabels true true true
  size := 65533
  wide := (((∅ : HashSet Nat).insert 9).insert 5).insert 2

/-- An attempt places the instructions like that. -/
theorem place_driftingItems {wide : HashSet Nat} (hwide : (List.range 12).map wide.contains =
      [false, false, first, false, false, second, false, false, false, back, false, false]) :
    place wide driftingItems none = .ok (driftingPlacement first second back) := by
  simp only [List.range_succ, List.range_zero, List.nil_append, List.cons_append, List.map_cons,
    List.map_nil, List.cons.injEq, and_true] at hwide
  cases first <;> cases second <;> cases back <;>
    simp [place, driftingItems, driftingPlacement, driftingParts, driftingOffsets, driftingLabels,
      driftingMiddle, driftingHome, Placement.addAll, Placement.check, Placement.add_eq,
      CodeItem.room, bind, Except.bind, pure, Except.pure, hwide]

/-- The places of the labels. -/
theorem getElem?_driftingLabels :
    (driftingLabels first second back)[(⟨0⟩ : Label)]? = some (if first then 14 else 12) ∧
      (driftingLabels first second back)[(⟨1⟩ : Label)]? =
        some (if second then 32771 else 32769) ∧
      (driftingLabels first second back)[(⟨2⟩ : Label)]? =
        some (if back then 65532 else 65528) := by
  simp [driftingLabels, driftingMiddle, driftingHome, HashMap.getElem_insert]

/-- All instructions can be filled in but jumps that go too far. -/
theorem ready_driftingParts {n : Nat} {parts : List Chunk}
    (hparts : (driftingParts first second back)[n]? = some parts)
    (hfirst : n = 2 →
      (CodeItem.jump 0xa7 0xc8 ⟨1⟩).Ready (driftingLabels first second back) 3 first)
    (hsecond : n = 5 →
      (CodeItem.jump 0xa7 0xc8 ⟨2⟩).Ready (driftingLabels first second back) 32764 second)
    (hback : n = 9 →
      (CodeItem.branch .eq ⟨0⟩).Ready (driftingLabels first second back) 32781 back) :
    ∀ part ∈ parts, part.Ready (driftingLabels first second back) := by
  obtain ⟨hhome, _⟩ := getElem?_driftingLabels first second back
  have htable (count position : Nat) (high : Int32) :
      (CodeItem.table ⟨0⟩ 0 high (backTo count)).Ready (driftingLabels first second back) position
        false := by
    refine List.forall_mem_cons.mpr ⟨⟨_, hhome⟩, fun target htarget => ?_⟩
    obtain rfl := List.eq_of_mem_replicate htarget
    exact ⟨_, hhome⟩
  have hlookup (position : Nat) :
      (CodeItem.lookup ⟨0⟩ []).Ready (driftingLabels first second back) position false :=
    List.forall_mem_singleton.mpr ⟨_, hhome⟩
  match n, hparts with
  | 0, rfl | 1, rfl | 3, rfl | 6, rfl | 8, rfl | 11, rfl => exact ready_partsOf trivial
  | 2, rfl => exact ready_partsOf (hfirst rfl)
  | 4, rfl => exact ready_partsOf (htable 8184 _ _)
  | 5, rfl => exact ready_partsOf (hsecond rfl)
  | 7, rfl => exact ready_partsOf (hlookup _)
  | 9, rfl => exact ready_partsOf (hback rfl)
  | 10, rfl => exact ready_partsOf (htable 8182 _ _)

/-- Filling in distances stops at a jump that goes too far, if the others in front of it do not. -/
theorem fillAll_driftingParts (n origin place : Nat) (opcode : Bytes) (target : Label)
    (hfirst : n ≤ 2 ∨
      (CodeItem.jump 0xa7 0xc8 ⟨1⟩).Ready (driftingLabels first second back) 3 first)
    (hsecond : n ≤ 5 ∨
      (CodeItem.jump 0xa7 0xc8 ⟨2⟩).Ready (driftingLabels first second back) 32764 second)
    (hn : n ≤ 9)
    (hjump : (driftingParts first second back)[n]? = some [.done opcode, .narrow origin target])
    (htarget : (driftingLabels first second back)[target]? = some place)
    (hfar : isShort (distance origin place) = false) :
    fillAll (driftingPlacement first second back).labels 0 []
      (driftingPlacement first second back).placed.reverse = .ok (.inr n) := by
  have hplaced : (driftingPlacement first second back).placed.reverse =
      driftingParts first second back := List.reverse_reverse _
  have hready : ∀ m < n, ∀ parts, (driftingParts first second back)[m]? = some parts →
      ∀ part ∈ parts, part.Ready (driftingLabels first second back) := by
    intro m hm parts hparts
    refine ready_driftingParts first second back hparts ?_ ?_ ?_
    · rintro rfl
      exact hfirst.resolve_left (by omega)
    · rintro rfl
      exact hsecond.resolve_left (by omega)
    · omega
  rw [hplaced]
  exact (fillAll_far n origin place opcode target hready hjump htarget hfar 0 []).trans
    (by rw [Nat.zero_add])

/-- The conditional jump goes too far at first, then the second plain jump, then the first one. -/
theorem givesUp_driftingItems : GivesUp driftingItems none ∅ 9 ∧
    GivesUp driftingItems none ((∅ : HashSet Nat).insert 9) 5 ∧
    GivesUp driftingItems none (((∅ : HashSet Nat).insert 9).insert 5) 2 := by
  have hfirst (first back : Bool) :
      (CodeItem.jump 0xa7 0xc8 ⟨1⟩).Ready (driftingLabels first false back) 3 first :=
    ⟨32769, (getElem?_driftingLabels _ _ _).2.1, .inr rfl⟩
  have hsecond (first second : Bool) :
      (CodeItem.jump 0xa7 0xc8 ⟨2⟩).Ready (driftingLabels first second false) 32764 second :=
    ⟨65528, (getElem?_driftingLabels _ _ _).2.2, .inr rfl⟩
  refine ⟨⟨driftingPlacement false false false, place_driftingItems _ _ _ ?_, ?_⟩,
    ⟨driftingPlacement false false true, place_driftingItems _ _ _ ?_, ?_⟩,
    ⟨driftingPlacement false true true, place_driftingItems _ _ _ ?_, ?_⟩⟩
  · simp [List.range_succ]
  · have hparts : partsOf (driftingMiddle false false) 32781 false (.branch .eq ⟨0⟩) =
        [.done [0x99], .narrow 32781 ⟨0⟩] := by
      simp [partsOf, driftingMiddle, driftingHome, HashMap.getElem_insert, isShort, distance,
        Condition.opcode]
    exact fillAll_driftingParts _ _ _ 9 32781 12 [0x99] ⟨0⟩ (.inr (hfirst _ _))
      (.inr (hsecond _ _)) (by omega) (congrArg some hparts) (getElem?_driftingLabels _ _ _).1 rfl
  · simp [List.range_succ]
  · have hparts : partsOf (driftingHome false) 32764 false (.jump 0xa7 0xc8 ⟨2⟩) =
        [.done [0xa7], .narrow 32764 ⟨2⟩] := by
      simp [partsOf, driftingHome]
    exact fillAll_driftingParts _ _ _ 5 32764 65532 [0xa7] ⟨2⟩ (.inr (hfirst _ _))
      (.inl (Nat.le_refl 5)) (by omega) (congrArg some hparts)
      (getElem?_driftingLabels _ _ _).2.2 rfl
  · simp [List.range_succ]
  · have hparts : partsOf ∅ 3 false (.jump 0xa7 0xc8 ⟨1⟩) = [.done [0xa7], .narrow 3 ⟨1⟩] := by
      simp [partsOf]
    exact fillAll_driftingParts _ _ _ 2 3 32771 [0xa7] ⟨1⟩ (.inl (Nat.le_refl 2))
      (.inl (by omega)) (by omega) (congrArg some hparts) (getElem?_driftingLabels _ _ _).2.1 rfl

/-- The fourth attempt is the last one. -/
theorem ofItems_driftingItems :
    ∃ chunks, ofItems driftingItems none = .ok (driftingLayout chunks) := by
  obtain ⟨hback, hsecond, hfirst⟩ := givesUp_driftingItems
  obtain ⟨hhome, hmiddle, hlast⟩ := getElem?_driftingLabels true true true
  have hready : ∀ parts ∈ driftingParts true true true,
      ∀ part ∈ parts, part.Ready (driftingLabels true true true) := by
    intro parts hparts
    obtain ⟨n, hn⟩ := List.mem_iff_getElem?.mp hparts
    exact ready_driftingParts _ _ _ hn (fun _ => ⟨_, hmiddle, .inl rfl⟩)
      (fun _ => ⟨_, hlast, .inl rfl⟩) (fun _ => ⟨_, hhome, .inl rfl⟩)
  obtain ⟨chunks, hchunks⟩ := fillAll_ready hready 0 []
  have hplaced : (driftingPlacement true true true).placed.reverse = driftingParts true true true :=
    List.reverse_reverse _
  have hattempts : driftingItems.length + 1 = 9 + 1 + 1 + 1 + 1 := rfl
  rw [ofItems, hattempts, hback.settle, hsecond.settle, hfirst.settle]
  refine ⟨chunks, bind_eq_ok.mpr ⟨_, place_driftingItems true true true ?_,
    bind_eq_ok.mpr ⟨.inl chunks, ?_, rfl⟩⟩⟩
  · simp [List.range_succ]
  · rw [hplaced]
    exact hchunks

end Attempts

/-- That stands for the instructions. -/
theorem items_drifting :
    items (unframedCode driftingRest none).instructions {} = .ok (driftingItems, {}) := by
  have hplaced : Layout.place ∅ driftingItems none = .ok (driftingPlacement false false false) :=
    place_driftingItems false false false (by simp [List.range_succ])
  obtain ⟨_, hplace, _⟩ := Layout.place_eq_ok hplaced
  have htable (high : Int32) (n : Nat) (hhigh : ¬ high < 0)
      (hn : (high.toInt - (0 : Int32).toInt + 1).toNat = n) :
      item (.tableswitch ⟨0⟩ 0 high (backTo n)) {} = .ok (.table ⟨0⟩ 0 high (backTo n), {}) := by
    simp only [item, if_neg hhigh, hn, length_backTo, if_true]
    rfl
  refine itemsFrom_of_addAll [] hplace <|
    .cons ⟨rfl, rfl⟩ <| .cons ⟨rfl, rfl⟩ <| .cons ⟨rfl, rfl⟩ <| .cons ⟨rfl, rfl⟩ <|
    .cons ⟨rfl, htable 8183 8184 (by decide) rfl⟩ <| .cons ⟨rfl, rfl⟩ <| .cons ⟨rfl, rfl⟩ <|
    .cons ⟨rfl, rfl⟩ <| .cons ⟨rfl, rfl⟩ <| .cons ⟨rfl, rfl⟩ <|
    .cons ⟨rfl, htable 8181 8182 (by decide) rfl⟩ <| .cons ⟨rfl, rfl⟩ .nil

/-- The code is written. -/
theorem code_drifting : ∃ bytes, Encode.code (SuperClasses.objectOnly Unit) false "a/A"
    (unframedMethod driftingRest none) (unframedCode driftingRest none) {} () =
      (.ok (bytes, {}), ()) := by
  obtain ⟨chunks, hlayout⟩ := ofItems_driftingItems
  have hlocals : maxLocals (unframedMethod driftingRest none) (unframedCode driftingRest none) =
      .ok 257 := maxLocals_unframed rfl (by decide)
  exact code_unframedCode hlocals items_drifting hlayout (show (65533 : Nat) ≠ 0 by decide)

/-- Nothing that the instructions hold is refused by a reader. -/
theorem readable_drifting :
    ∀ entry ∈ (unframedCode driftingRest none).instructions, entry.instruction.Readable := by
  simp [unframedCode, driftingRest, Instruction.Readable]

theorem labels_drifting : (unframedCode driftingRest none).labels.Nodup := by
  decide

/-- What a reader knows of the pool if nothing is in it. -/
def noConstants : Constants where
  table := ⟨#[none]⟩
  bootstraps := #[]

/-- That is all that there is in an empty pool. -/
theorem covers_noConstants : noConstants.Covers {} where
  table := sound_empty.covers
  bootstraps _ _ h := by simp at h

/-- All jumps go to offsets inside the code. -/
theorem jumpsBelow_drifting {chunks : List Bytes}
    (hlayout : Layout.ofItems driftingItems none = .ok (driftingLayout chunks))
    (hplaced : List.Forall₂ (ItemOf noConstants) (unframedCode driftingRest none).instructions
      driftingItems) :
    JumpsBelow (unframedCode driftingRest none) (driftingLayout chunks) 65533 where
  targets entry hentry target htarget place hplace := by
    obtain ⟨hhome, hmiddle, hlast⟩ := getElem?_driftingLabels true true true
    have hmem := (labelsLead labels_drifting hlayout hplaced).targets entry hentry target htarget
    have hlabels : (unframedCode driftingRest none).labels = [⟨0⟩, ⟨1⟩, ⟨2⟩] := rfl
    simp only [hlabels, List.mem_cons, List.not_mem_nil, or_false] at hmem
    obtain rfl | rfl | rfl := hmem
    · cases hhome.symm.trans hplace
      decide
    · cases hmiddle.symm.trans hplace
      decide
    · cases hlast.symm.trans hplace
      decide
  past index condition target hbranch hmark := by
    simp only [driftingLayout, HashSet.contains_insert, HashSet.contains_empty, Bool.or_false,
      Bool.or_eq_true, beq_iff_eq] at hmark
    obtain rfl | rfl | rfl := hmark
    · cases hbranch
    · cases hbranch
    · exact show (32789 : Nat) < 65533 by decide

/-- A reader finds the instructions of the code again. -/
theorem reads_drifting {chunks : List Bytes}
    (hlayout : Layout.ofItems driftingItems none = .ok (driftingLayout chunks)) :
    Decode.instructions noConstants.table noConstants.bootstraps 65533 chunks.flatten =
      .ok (readBack (unframedCode driftingRest none) (driftingLayout chunks)) := by
  have hkept : ∀ entry ∈ (unframedCode driftingRest none).instructions,
      KeptInstruction entry.instruction :=
    fun entry hentry => kept_of_readable (readable_drifting entry hentry)
  obtain ⟨_, hcovered⟩ := puts_items hkept _ _ _ items_drifting sound_empty
  obtain ⟨_, hplaced⟩ := hcovered _ covers_noConstants
  exact reads_readBack labels_drifting hlayout hplaced (jumpsBelow_drifting hlayout hplaced)

/-! ### Code that a reader refuses -/

/-- Instructions that jump behind the last of them. -/
def behindRest : List Labelled :=
  [⟨none, .goto ⟨0⟩⟩]

/-- What stands for them. -/
def behindItems : List (Option Label × CodeItem) :=
  [(none, .plain [0x57]), (none, .jump 0xa7 0xc8 ⟨0⟩)]

/-- The code is written. -/
theorem code_behind : ∃ bytes, Encode.code (SuperClasses.objectOnly Unit) false "a/A"
    (unframedMethod behindRest (some ⟨0⟩)) (unframedCode behindRest (some ⟨0⟩)) {} () =
      (.ok (bytes, {}), ()) ∧
    Layout.ofItems behindItems (some ⟨0⟩) =
      .ok ⟨[[0x57], [0xa7, 0, 3]], #[0, 1], (∅ : HashMap Label Nat).insert ⟨0⟩ 4, 4, ∅⟩ := by
  have hlayout : Layout.ofItems behindItems (some ⟨0⟩) =
      .ok ⟨[[0x57], [0xa7, 0, 3]], #[0, 1], (∅ : HashMap Label Nat).insert ⟨0⟩ 4, 4, ∅⟩ := by
    cbv
  have hlocals : maxLocals (unframedMethod behindRest (some ⟨0⟩))
      (unframedCode behindRest (some ⟨0⟩)) = .ok 0 := maxLocals_unframed rfl (by decide)
  obtain ⟨bytes, hcode⟩ := code_unframedCode hlocals rfl hlayout (by decide)
  exact ⟨bytes, hcode, hlayout⟩

/-- Instructions that create an object of a class without a name. -/
def namelessRest : List Labelled :=
  [⟨none, .new ""⟩, ⟨none, .op .returnVoid⟩]

/-- What stands for them. -/
def namelessItems : List (Option Label × CodeItem) :=
  [(none, .plain [0x57]), (none, .plain [0xbb, 0, 2]), (none, .plain [0xb1])]

/-- The pool with that name. -/
def namelessPool : Builder :=
  filled [.utf8 (JavaString.ofString ""), .cls 1]

/-- The code is written. -/
theorem code_nameless : ∃ bytes, Encode.code (SuperClasses.objectOnly Unit) false "a/A"
    (unframedMethod namelessRest none) (unframedCode namelessRest none) {} () =
      (.ok (bytes, namelessPool), ()) ∧
    items (unframedCode namelessRest none).instructions {} = .ok (namelessItems, namelessPool) ∧
    Layout.ofItems namelessItems none =
      .ok ⟨[[0x57], [0xbb, 0, 2], [0xb1]], #[0, 1, 4], ∅, 5, ∅⟩ := by
  have hlayout : Layout.ofItems namelessItems none =
      .ok ⟨[[0x57], [0xbb, 0, 2], [0xb1]], #[0, 1, 4], ∅, 5, ∅⟩ := by
    cbv
  have hlocals : maxLocals (unframedMethod namelessRest none) (unframedCode namelessRest none) =
      .ok 0 := maxLocals_unframed rfl (by decide)
  have hitems : items (unframedCode namelessRest none).instructions {} =
      .ok (namelessItems, namelessPool) := by
    cbv
  obtain ⟨bytes, hcode⟩ := code_unframedCode hlocals hitems hlayout (by decide)
  exact ⟨bytes, hcode, hitems, hlayout⟩

/-- **Not all jumps are read as they could be.**  A conditional jump keeps its longer form although its
target is near in the end.  Code that jumps behind its last instruction is written, but a reader that
knows how long it is refuses it, and it refuses a class without a name, too. -/
theorem jumps_read_otherwise :
    (∃ bytes layout found,
      Encode.code (SuperClasses.objectOnly Unit) false "a/A" (unframedMethod driftingRest none)
        (unframedCode driftingRest none) {} () = (.ok (bytes, {}), ()) ∧
      items (unframedCode driftingRest none).instructions {} = .ok (driftingItems, {}) ∧
      Layout.ofItems driftingItems none = .ok layout ∧
      layout.offsetOf 9 = 32781 ∧ layout.labels[(⟨0⟩ : Label)]? = some 14 ∧
      isShort (distance 32781 14) = true ∧
      Decode.instructions noConstants.table noConstants.bootstraps 65533 layout.chunks.flatten =
        .ok found ∧
      found[9]? = some (32781, .branch .ne ⟨32789⟩) ∧
      found[10]? = some (32784, .goto ⟨14⟩)) ∧
    (∃ bytes layout,
      Encode.code (SuperClasses.objectOnly Unit) false "a/A" (unframedMethod behindRest (some ⟨0⟩))
        (unframedCode behindRest (some ⟨0⟩)) {} () = (.ok (bytes, {}), ()) ∧
      items (unframedCode behindRest (some ⟨0⟩)).instructions {} = .ok (behindItems, {}) ∧
      Layout.ofItems behindItems (some ⟨0⟩) = .ok layout ∧
      ∀ found, Decode.instructions noConstants.table noConstants.bootstraps
        layout.size.toUInt16 layout.chunks.flatten ≠ .ok found) ∧
    (∃ bytes layout,
      Encode.code (SuperClasses.objectOnly Unit) false "a/A" (unframedMethod namelessRest none)
        (unframedCode namelessRest none) {} () = (.ok (bytes, namelessPool), ()) ∧
      items (unframedCode namelessRest none).instructions {} = .ok (namelessItems, namelessPool) ∧
      Layout.ofItems namelessItems none = .ok layout ∧
      ∀ found, Decode.instructions ⟨namelessPool.slots.toArray⟩ #[] layout.size.toUInt16
        layout.chunks.flatten ≠ .ok found) := by
  refine ⟨?_, ?_, ?_⟩
  · obtain ⟨bytes, hcode⟩ := code_drifting
    obtain ⟨chunks, hlayout⟩ := ofItems_driftingItems
    obtain ⟨hhome, _⟩ := getElem?_driftingLabels true true true
    have hmark : 9 ∈ (driftingLayout chunks).wide := by simp [driftingLayout]
    have hread := reads_drifting hlayout
    refine ⟨bytes, driftingLayout chunks, _, hcode, items_drifting, hlayout, rfl, hhome, rfl, hread,
      ?_, ?_⟩
    · simp [readBack, readAs, hmark, unframedCode, driftingRest]
      exact ⟨rfl, rfl, rfl⟩
    · simp [readBack, readAs, hmark, unframedCode, driftingRest]
      exact ⟨rfl, placeLabel_eq hhome⟩
  · obtain ⟨bytes, hcode, hlayout⟩ := code_behind
    have hrefused : (Decode.instructions noConstants.table noConstants.bootstraps 4
        [0x57, 0xa7, 0, 3]).isOk = false := by decide
    refine ⟨bytes, _, hcode, rfl, hlayout, fun found hfound => ?_⟩
    rw [show Decode.instructions noConstants.table noConstants.bootstraps 4 [0x57, 0xa7, 0, 3] =
      .ok found from hfound] at hrefused
    cases hrefused
  · obtain ⟨bytes, hcode, hitems, hlayout⟩ := code_nameless
    have hrefused : (Decode.instructions ⟨namelessPool.slots.toArray⟩ #[] 5
        [0x57, 0xbb, 0, 2, 0xb1]).isOk = false := by cbv
    refine ⟨bytes, _, hcode, hitems, hlayout, fun found hfound => ?_⟩
    rw [show Decode.instructions ⟨namelessPool.slots.toArray⟩ #[] 5 [0x57, 0xbb, 0, 2, 0xb1] =
      .ok found from hfound] at hrefused
    cases hrefused

/-- The code in which a target comes near again has three jumps and is settled in the fourth attempt.  A
reader finds it again. -/
theorem code_jumps_drifting :
    ((unframedCode driftingRest none).labels.Nodup ∧
      (∀ entry ∈ (unframedCode driftingRest none).instructions, entry.instruction.Readable) ∧
      Sound {} ∧ ∃ bytes, Encode.code (SuperClasses.objectOnly Unit) false "a/A"
        (unframedMethod driftingRest none) (unframedCode driftingRest none) {} () =
          (.ok (bytes, {}), ())) ∧
      ∃ layout, Layout.settle driftingItems none 4 ∅ = .ok layout ∧
        LabelsLead (unframedCode driftingRest none) layout := by
  obtain ⟨bytes, hcode⟩ := code_drifting
  refine ⟨⟨labels_drifting, readable_drifting, sound_empty, bytes, hcode⟩, ?_⟩
  obtain ⟨placed, _, layout, _, _, _, hitems, _, _, hsettle, hlabels, _⟩ :=
    code_jumps labels_drifting readable_drifting sound_empty hcode
  cases items_drifting.symm.trans hitems
  exact ⟨layout, hsettle 4 (by decide), hlabels⟩

end Example

end Encode

end Downlevel
