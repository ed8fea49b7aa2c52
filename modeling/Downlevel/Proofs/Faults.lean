import Downlevel.Proofs.FrameTypes
import Downlevel.Proofs.Ordinary
import Downlevel.Proofs.Renaming.Layout
import Downlevel.Proofs.StackMap.Places

/-!
# What writing a class fails with

Nearly everything that writing can fail with is ordinary.  Two kinds of faults are not, and each has one
cause.  A fault about a label needs a label that the code refers to and that it does not have.  A fault
about an item beyond the end of a list needs a handler of exceptions that begins behind the last
instruction: the places of handlers are the only ones that are not checked before frames are looked up
there.

Labels are looked up in two maps: in that of the instructions they stand on, when frames are computed
and collected, and in that of their offsets, when distances are filled in and tables are written.  Both
maps have all labels of the code.  Frames are looked up in two places: where something flows to an
instruction, and where the frame of an instruction is written.  There is one for every instruction, and
jumps that are executed never go behind the last.

* `Code.Finds`, `Code.HandlesBehind` — what faults depend on, `Code.Allows` — faults that they allow;
* `Frame.failsOnly_analyze` — the frames of code;
* `Layout.failsOnly_ofItems`, `Layout.mem_labels_ofItems` — placing its instructions;
* `Encode.failsOnly_codeBody`, `Encode.failsOnly_code` — the whole code;
* `ClassFile.failsOnly_toBytes` — **writing a class fails as the code of its methods allows**.
-/

namespace Downlevel

open Std (HashMap HashSet)

/-! ## Faults that code allows -/

/-- Faults of frames are ordinary. -/
theorem Fault.ordinary_frame (fault : FrameFault) : (Fault.frame fault).Ordinary :=
  ⟨by rintro ⟨⟩, by rintro _ _ ⟨⟩⟩

namespace Code

/-- All labels that code refers to are labels of the code. -/
def Finds (code : Code) : Prop :=
  ∀ label, label ∈ code.inner ∨ label ∈ code.stops → label ∈ code.labels

/-- Some handler of exceptions begins behind the last instruction. -/
def HandlesBehind (code : Code) : Prop :=
  ∃ range ∈ code.exceptions, code.lastLabel = some range.handler

/-- **Faults that code allows**: all ordinary ones; those about labels, unless all labels are found; and
those about items beyond the end of a list, unless no handler begins behind the last instruction. -/
structure Allows (code : Code) (allowed : Fault → Prop) : Prop where
  ordinary : ∀ fault, fault.Ordinary → allowed fault
  label : code.Finds ∨ ∀ fault, fault.AboutLabel → allowed fault
  beyond : ¬ code.HandlesBehind ∨ ∀ length index, allowed (.outOfRange length index)

/-- A label that code refers to is one of its labels, or it does not matter. -/
theorem Allows.mem_labels {code : Code} {allowed : Fault → Prop} (h : code.Allows allowed)
    {label : Label} (hlabel : label ∈ code.inner ∨ label ∈ code.stops) :
    label ∈ code.labels ∨ ∀ fault, fault.AboutLabel → allowed fault :=
  h.label.imp_left fun hfinds => hfinds label hlabel

/-- A handler begins at an instruction, or it does not matter. -/
theorem Allows.handler_lt {code : Code} {allowed : Fault → Prop} (h : code.Allows allowed)
    {range : ExceptionRange} (hrange : range ∈ code.exceptions) {index : Nat}
    (hplace : code.labelIndices[range.handler]? = some index) :
    index < code.instructions.length ∨ ∀ length index, allowed (.outOfRange length index) :=
  h.beyond.imp_left fun hnone => labelIndices_lt hplace fun hlast => hnone ⟨range, hrange, hlast⟩

end Code

variable {allowed : Fault → Prop}

/-! ## Frames -/

namespace Frame

section Types

variable {σ : Type} {supers : SuperClasses σ}
  (hsupers : ∀ a b, a ≠ b → a.isArray = false → b.isArray = false →
    FailsOnly allowed (supers.common a b))

include hsupers

/-- Merging the names of two classes fails as looking for common super classes does. -/
theorem failsOnly_mergeNames (a b : List Char) : FailsOnly allowed (mergeNames supers a b) := by
  fun_induction mergeNames supers a b with
  | case1 => exact failsOnly_pure _
  | case2 _ _ _ _ _ _ _ ih => exact failsOnly_bind ih fun _ => failsOnly_pure _
  | case6 a b hne ha hb _ =>
      have hdiffer : String.ofList a ≠ String.ofList b := fun heq => hne (String.ofList_injective heq)
      exact hsupers _ _ hdiffer (isArray_ofList ha) (isArray_ofList hb)
  | _ => exact failsOnly_pure _

/-- So does merging two types. -/
theorem failsOnly_mergeType (a b : VType) : FailsOnly allowed (mergeType supers a b) := by
  unfold mergeType
  refine failsOnly_ite (failsOnly_pure _) ?_
  split
  · exact failsOnly_pure _
  · exact failsOnly_pure _
  · exact failsOnly_bind (failsOnly_mergeNames hsupers _ _) fun _ => failsOnly_pure _
  · exact failsOnly_pure _

/-- So does merging two lists of types. -/
theorem failsOnly_mergeTypesFrom (done as bs : List VType) :
    FailsOnly allowed (mergeTypesFrom supers done as bs) := by
  induction as generalizing done bs with
  | nil => exact failsOnly_pure _
  | cons a as ih =>
      cases bs with
      | nil => exact failsOnly_pure _
      | cons b bs =>
          exact failsOnly_bind (failsOnly_mergeType hsupers a b) fun first => ih (first :: done) bs

end Types

/-- The place of a label that has one. -/
theorem failsOnly_placeOf {places : HashMap Label Nat} {label : Label} (h : label ∈ places) :
    FailsOnly allowed (placeOf places label) := by
  obtain ⟨place, hplace⟩ := Option.isSome_iff_exists.mp (HashMap.mem_iff_isSome_getElem?.mp h)
  unfold placeOf
  rw [hplace]
  exact failsOnly_ok place

/-- The place of a label that has one, if that matters. -/
theorem failsOnly_placeOf_any {places : HashMap Label Nat} {label : Label}
    (h : label ∈ places ∨ ∀ fault, fault.AboutLabel → allowed fault) :
    FailsOnly allowed (placeOf places label) := by
  rcases h with hmem | hallowed
  · exact failsOnly_placeOf hmem
  · exact failsOnly_orFail (hallowed _ (.noInstruction _))

section Flowing

variable {σ : Type} {supers : SuperClasses σ}
  (hordinary : ∀ fault : Fault, fault.Ordinary → allowed fault)
  (hsupers : ∀ a b, FailsOnly allowed (supers.common a b))

include hordinary hsupers

/-- Merging two frames. -/
theorem failsOnly_merge (existing incoming : Frame) :
    FailsOnly allowed (merge supers existing incoming) := by
  unfold merge
  refine failsOnly_ite ?_ (failsOnly_lift_task (failsOnly_fail (hordinary _ (Fault.ordinary_frame _))))
  have hcommon (a b : ClassName) (_ : a ≠ b) (_ : a.isArray = false) (_ : b.isArray = false) :
      FailsOnly allowed (supers.common a b) :=
    hsupers a b
  refine failsOnly_bind (failsOnly_mergeTypesFrom hcommon _ _ _) fun locals => ?_
  exact failsOnly_bind (failsOnly_mergeTypesFrom hcommon _ _ _) fun stack => failsOnly_pure _

variable {length : Nat} {flow : Flow} (hsize : flow.frames.size = length)

include hsize

/-- Letting a frame flow to an instruction that there is. -/
theorem failsOnly_propagate {target : Nat}
    (h : target < length ∨ ∀ length index, allowed (.outOfRange length index)) (incoming : Frame) :
    FailsOnly allowed (propagate supers flow target incoming) := by
  unfold propagate
  split
  next hnone =>
    have hbehind := Array.getElem?_eq_none_iff.mp hnone
    exact failsOnly_lift_task (failsOnly_fail (h.resolve_left (by omega) _ _))
  next => exact failsOnly_pure _
  next =>
    have hmerge := failsOnly_merge hordinary hsupers
    refine failsOnly_bind (failsOnly_task_within (hordinary _ (Fault.ordinary_frame _)) (hmerge _ _))
      fun merged => ?_
    cases merged with
    | some merged => exact failsOnly_pure _
    | none => exact failsOnly_pure _

/-- Letting frames flow to several instructions that there are. -/
theorem failsOnly_propagateAll (choose : Nat → Frame) {targets : List Nat}
    (h : ∀ target ∈ targets, target < length) :
    FailsOnly allowed (propagateAll supers choose targets flow) := by
  induction targets generalizing flow with
  | nil => exact failsOnly_pure _
  | cons target rest ih =>
      obtain ⟨htarget, hothers⟩ := List.forall_mem_cons.mp h
      refine failsOnly_bind_of_yields
        (failsOnly_propagate hordinary hsupers hsize (.inl htarget) _) fun flow' hflow => ?_
      obtain ⟨_, _, hflow⟩ := hflow
      exact ih ((propagate_size hflow).trans hsize) hothers

/-- Letting frames flow into handlers that there are. -/
theorem failsOnly_propagateHandlers (index : Nat) (before behind : Frame) {handlers : List Handler}
    (h : ∀ handler ∈ handlers,
      handler.handler < length ∨ ∀ length index, allowed (.outOfRange length index)) :
    FailsOnly allowed (propagateHandlers supers index before behind handlers flow) := by
  induction handlers generalizing flow with
  | nil => exact failsOnly_pure _
  | cons handler rest ih =>
      obtain ⟨hhandler, hothers⟩ := List.forall_mem_cons.mp h
      unfold propagateHandlers
      refine failsOnly_ite ?_ (ih hsize hothers)
      have hnoted : (flow.note 1).frames.size = length := hsize
      refine failsOnly_bind_of_yields
        (failsOnly_propagate hordinary hsupers hnoted hhandler _) fun first hfirst => ?_
      obtain ⟨_, _, hfirst⟩ := hfirst
      have hfirst : first.frames.size = length := (propagate_size hfirst).trans hnoted
      refine failsOnly_bind_of_yields
        (failsOnly_propagate hordinary hsupers hfirst hhandler _) fun second hsecond => ?_
      obtain ⟨_, _, hsecond⟩ := hsecond
      exact ih ((propagate_size hsecond).trans hfirst) hothers

end Flowing

/-- **Execution goes on at instructions that there are**, or it is an error. -/
theorem lt_of_mem_successors {length index : Nat} {places : HashMap Label Nat}
    {instruction : Instruction} {targets : List Nat}
    (h : successors length places index instruction = .ok targets) :
    ∀ target ∈ targets, target < length := by
  obtain ⟨jumps, -, h⟩ := bind_eq_ok.mp h
  split at h
  next => exact absurd h fail_ne_ok
  next =>
    dsimp only at h
    split at h
    next => exact absurd h fail_ne_ok
    next hnone =>
      cases pure_eq_ok.mp h
      intro target hmem
      rw [mem_sortedSet] at hmem
      simpa using List.find?_eq_none.mp hnone target hmem

/-- What comes behind an instruction. -/
theorem failsOnly_successors (hordinary : ∀ fault : Fault, fault.Ordinary → allowed fault)
    {places : HashMap Label Nat} {instruction : Instruction}
    (h : ∀ target ∈ instruction.targets,
      target ∈ places ∨ ∀ fault, fault.AboutLabel → allowed fault) (length index : Nat) :
    FailsOnly allowed (successors length places index instruction) := by
  unfold successors
  refine failsOnly_bind (failsOnly_mapM fun target htarget => failsOnly_placeOf_any (h target htarget))
    fun targets => ?_
  refine failsOnly_ite ?_ ?_
  · exact failsOnly_fail (hordinary _ (Fault.ordinary_frame _))
  · dsimp only
    split
    · exact failsOnly_fail (hordinary _ (Fault.ordinary_frame _))
    · exact failsOnly_pure _

section Analysis

variable {σ : Type} {supers : SuperClasses σ} (hsupers : ∀ a b, FailsOnly allowed (supers.common a b))

include hsupers

section Subject

variable (hordinary : ∀ fault : Fault, fault.Ordinary → allowed fault) {subject : Subject}
  (hlabels : ∀ instruction ∈ subject.code, ∀ target ∈ instruction.targets,
    target ∈ subject.places ∨ ∀ fault, fault.AboutLabel → allowed fault)
  (hhandlers : ∀ handler ∈ subject.handlers,
    handler.handler < subject.code.size ∨ ∀ length index, allowed (.outOfRange length index))

include hordinary hlabels hhandlers

/-- Looking at an instruction. -/
theorem failsOnly_visit (index : Nat) {flow : Flow} (hsize : flow.frames.size = subject.code.size) :
    FailsOnly allowed (visit supers subject index flow) := by
  unfold visit
  split
  next frame instruction _ hinstruction =>
    have hmem := Array.mem_of_getElem? hinstruction
    refine failsOnly_bind (failsOnly_lift_task (failsOnly_within (hordinary _ (Fault.ordinary_frame _))
      ((ordinary_after _ _ _ _ _).mono hordinary))) fun behind => ?_
    refine failsOnly_bind_of_yields
      (failsOnly_lift_task (failsOnly_successors hordinary (hlabels instruction hmem) _ _))
      fun targets htargets => ?_
    obtain ⟨_, _, htargets⟩ := htargets
    have hlt := lt_of_mem_successors (task_lift_eq_ok.mp htargets).1
    have hnoted : ((flow.note frame.stackSize).note behind.stackSize).frames.size =
        subject.code.size := hsize
    refine failsOnly_bind_of_yields
      (failsOnly_propagateAll hordinary hsupers hnoted _ hlt) fun flow' hflow => ?_
    obtain ⟨_, _, hflow⟩ := hflow
    exact failsOnly_propagateHandlers hordinary hsupers ((propagateAll_size hflow).trans hnoted) _ _ _
      hhandlers
  next => exact failsOnly_lift_task (failsOnly_fail (hordinary _ (Fault.ordinary_frame _)))

/-- Looking at instructions until none waits. -/
theorem failsOnly_settle (remaining : Nat) {flow : Flow}
    (hsize : flow.frames.size = subject.code.size) :
    FailsOnly allowed (settle supers subject remaining flow) := by
  induction remaining generalizing flow with
  | zero =>
      unfold settle
      split
      · exact failsOnly_pure _
      · exact failsOnly_lift_task (failsOnly_fail (hordinary _ (Fault.ordinary_frame _)))
  | succ remaining ih =>
      unfold settle
      split
      next => exact failsOnly_pure _
      next index next hnext =>
        have hnext : next.frames.size = subject.code.size := by rw [Flow.frames_next hnext, hsize]
        refine failsOnly_bind_of_yields
          (failsOnly_visit hsupers hordinary hlabels hhandlers index hnext) fun flow' hflow => ?_
        obtain ⟨_, _, hflow⟩ := hflow
        exact ih ((visit_size hflow).trans hnext)

end Subject

/-- **The frames of code.** -/
theorem failsOnly_analyze {code : Code} (hcode : code.Allows allowed) (cls : ClassName)
    (method : Method) (maxLocals : UInt16) :
    FailsOnly allowed (analyze supers cls method code maxLocals) := by
  have hordinary := hcode.ordinary
  have hplaces {label : Label} (h : label ∈ code.inner ∨ label ∈ code.stops) :
      label ∈ code.labelIndices ∨ ∀ fault, fault.AboutLabel → allowed fault :=
    (hcode.mem_labels h).imp_left Code.mem_labelIndices.mpr
  have hhandlers : FailsOnly allowed (handlersOf code.labelIndices code.exceptions) := by
    refine failsOnly_mapM fun range hrange => ?_
    obtain ⟨hstart, hstop, hhandler⟩ := Code.mem_of_range hrange
    refine failsOnly_bind (failsOnly_placeOf_any (hplaces (.inl hstart))) fun start => ?_
    refine failsOnly_bind (failsOnly_placeOf_any (hplaces (.inr hstop))) fun stop => ?_
    exact failsOnly_bind (failsOnly_placeOf_any (hplaces (.inl hhandler)))
      fun handler => failsOnly_pure _
  unfold analyze
  refine failsOnly_ite (failsOnly_lift_task (failsOnly_fail (hordinary _ (Fault.ordinary_frame _)))) ?_
  refine failsOnly_bind_of_yields (failsOnly_lift_task hhandlers) fun handlers hfound => ?_
  obtain ⟨_, _, hfound⟩ := hfound
  have hspec := handlersOf_spec (task_lift_eq_ok.mp hfound).1
  refine failsOnly_bind (failsOnly_lift_task ((MethodType.ordinary_parse _).mono hordinary))
    fun type => ?_
  refine failsOnly_bind (failsOnly_lift_task ((ordinary_initial _ _ _ _ _).mono hordinary))
    fun first => ?_
  refine failsOnly_bind (failsOnly_settle hsupers hordinary ?_ ?_ _ (by simp))
    fun flow => failsOnly_lift_task ?_
  · intro instruction hinstruction target htarget
    obtain ⟨entry, hentry, rfl⟩ := List.mem_map.mp (List.mem_toArray.mp hinstruction)
    exact hplaces (.inl (Code.mem_inner_of_target hentry htarget))
  · intro handler hmem
    obtain ⟨range, hrange, -, -, hplace, -⟩ := exists_left_of_forall₂ hspec hmem
    simpa using hcode.handler_lt hrange hplace
  · unfold conclude
    exact failsOnly_ite (failsOnly_ok _) (failsOnly_fail (hordinary _ (Fault.ordinary_frame _)))

end Analysis

end Frame

/-! ## Placing instructions -/

namespace Layout

section Filling

variable (hordinary : ∀ fault : Fault, fault.Ordinary → allowed fault) {labels : HashMap Label Nat}

/-- Where a target is that has a place, if that matters. -/
theorem failsOnly_target {target : Label}
    (h : target ∈ labels ∨ ∀ fault, fault.AboutLabel → allowed fault) :
    FailsOnly allowed (within (.write .unplacedTarget) (placeOf labels target)) := by
  unfold placeOf
  rcases h with hmem | hallowed
  · obtain ⟨place, hplace⟩ := Option.isSome_iff_exists.mp (HashMap.mem_iff_isSome_getElem?.mp hmem)
    rw [hplace]
    exact failsOnly_ok place
  · exact failsOnly_within (hallowed _ .unplacedTarget) (failsOnly_orFail (hallowed _ (.noOffset _)))

/-- The parts of an instruction have distances to fill in. -/
theorem failsOnly_fillFrom {parts : List Chunk} (h : ∀ chunk ∈ parts, ∀ target,
      chunk.target? = some target → target ∈ labels ∨ ∀ fault, fault.AboutLabel → allowed fault)
    (done : List Bytes) : FailsOnly allowed (fillFrom labels done parts) := by
  induction parts generalizing done with
  | nil => exact failsOnly_ok _
  | cons chunk rest ih =>
      obtain ⟨hfirst, hothers⟩ := List.forall_mem_cons.mp h
      cases chunk with
      | done bytes => exact ih hothers _
      | narrow origin target =>
          refine failsOnly_bind (failsOnly_target (hfirst target rfl)) fun place => ?_
          exact failsOnly_ite (ih hothers _) (failsOnly_pure _)
      | wide origin target =>
          exact failsOnly_bind (failsOnly_target (hfirst target rfl)) fun place => ih hothers _

/-- Instructions have distances to fill in. -/
theorem failsOnly_fillAll {all : List (List Chunk)} (h : ∀ parts ∈ all, ∀ chunk ∈ parts, ∀ target,
      chunk.target? = some target → target ∈ labels ∨ ∀ fault, fault.AboutLabel → allowed fault)
    (index : Nat) (done : List Bytes) : FailsOnly allowed (fillAll labels index done all) := by
  induction all generalizing index done with
  | nil => exact failsOnly_ok _
  | cons parts rest ih =>
      obtain ⟨hfirst, hothers⟩ := List.forall_mem_cons.mp h
      refine failsOnly_bind (failsOnly_fillFrom hfirst []) fun filled => ?_
      cases filled with
      | fits bytes => exact ih hothers _ _
      | tooFar => exact failsOnly_pure _

end Filling

section Placing

variable {items : List (Option Label × CodeItem)} {lastLabel : Option Label}

/-- Instructions are placed unless they take too many bytes. -/
theorem ordinary_addAll (wide : HashSet Nat) (items : List (Option Label × CodeItem))
    (placement : Placement) :
    FailsOnly Fault.Ordinary (Placement.addAll wide items placement) := by
  induction items generalizing placement with
  | nil => exact failsOnly_ok _
  | cons item rest ih =>
      unfold Placement.addAll Placement.check
      grind [Fault.Ordinary]

/-- All instructions are placed unless they take too many bytes. -/
theorem ordinary_place (wide : HashSet Nat) (items : List (Option Label × CodeItem))
    (lastLabel : Option Label) : FailsOnly Fault.Ordinary (place wide items lastLabel) := by
  unfold place Placement.check
  refine failsOnly_bind (ordinary_addAll wide items {}) fun placement => ?_
  grind [Fault.Ordinary]

/-- The labels of instructions have places once these are placed, as have those before. -/
theorem mem_labels_addAll {wide : HashSet Nat} {placement last : Placement}
    (h : Placement.addAll wide items placement = .ok last) {label : Label}
    (hlabel : label ∈ placement.labels ∨ label ∈ placedLabels items) : label ∈ last.labels := by
  induction items generalizing placement with
  | nil =>
      cases h
      exact hlabel.resolve_right List.not_mem_nil
  | cons item rest ih =>
      obtain ⟨⟨⟩, -, hrest⟩ := bind_eq_ok.mp h
      apply ih hrest
      obtain ⟨own, code⟩ := item
      cases own with
      | none => exact hlabel
      | some own =>
          have hown : label ∈ (placement.add (wide.contains placement.offsets.size) (some own)
              code).labels ↔ own = label ∨ label ∈ placement.labels := by
            show label ∈ placement.labels.insert own placement.size ↔ _
            simp
          rw [hown]
          rcases hlabel with hbefore | hitems
          · exact .inl (.inr hbefore)
          · rcases List.mem_cons.mp hitems with rfl | hothers
            · exact .inl (.inl rfl)
            · exact .inr hothers

/-- All labels of code have places once it is placed. -/
theorem mem_labels_place {wide : HashSet Nat} {placement : Placement}
    (h : place wide items lastLabel = .ok placement) :
    ∀ label ∈ placedLabels items ++ lastLabel.toList, label ∈ placement.labels := by
  intro label hlabel
  obtain ⟨before, hbefore, -, -, -, -, hlabels⟩ := place_eq_ok h
  have hitems (hmem : label ∈ placedLabels items) : label ∈ before.labels :=
    mem_labels_addAll hbefore (.inr hmem)
  rw [hlabels]
  cases lastLabel with
  | none =>
      rw [Option.toList_none, List.append_nil] at hlabel
      exact hitems hlabel
  | some last =>
      refine HashMap.mem_insert.mpr ?_
      rcases List.mem_append.mp hlabel with hmem | hlast
      · exact .inr (hitems hmem)
      · exact .inl (beq_iff_eq.mpr (Option.some_inj.mp (Option.mem_toList.mp hlast)))

/-- All labels of code have places in its layout. -/
theorem mem_labels_ofItems {layout : Layout} (h : ofItems items lastLabel = .ok layout) :
    ∀ label ∈ placedLabels items ++ lastLabel.toList, label ∈ layout.labels := by
  obtain ⟨placement, hplace, -, hlabels, -⟩ := settle_eq_ok h
  rw [hlabels]
  exact mem_labels_place hplace

variable (hordinary : ∀ fault : Fault, fault.Ordinary → allowed fault)
  (hitems : (∀ item ∈ items, Uses (placedLabels items ++ lastLabel.toList) item) ∨
    ∀ fault, fault.AboutLabel → allowed fault)

include hordinary hitems

/-- Settling code.  There are more attempts than jumps that are not marked, so the last is never given
up. -/
theorem failsOnly_settle {attempts : Nat} {wide : HashSet Nat}
    (h : unmarked wide 0 items < attempts) :
    FailsOnly allowed (settle items lastLabel attempts wide) := by
  induction attempts generalizing wide with
  | zero => exact absurd h (Nat.not_lt_zero _)
  | succ attempts ih =>
      refine failsOnly_bind_of_yields ((ordinary_place _ _ _).mono hordinary) fun placement hplace => ?_
      refine failsOnly_bind_of_yields (failsOnly_fillAll ?_ _ _) fun filled hfilled => ?_
      · intro parts hparts chunk hchunk target htarget
        rcases hitems with hitems | hallowed
        · -- what the parts keep room for does not depend on the names of labels
          obtain ⟨_, -, halike⟩ := place_alike (f := id) (fun _ _ _ _ => id) hitems
            (fun label hlabel => List.mem_append_right _ (Option.mem_toList.mpr hlabel)) hplace
          exact .inl (mem_labels_place hplace target
            (halike.targets parts (List.mem_reverse.mp hparts) chunk hchunk target htarget))
        · exact .inr hallowed
      · cases filled with
        | inl chunks => exact failsOnly_pure _
        | inr index =>
            have hfewer := GivesUp.unmarked_lt ⟨placement, hplace, hfilled⟩
            exact ih (by omega)

/-- **Placing code.** -/
theorem failsOnly_ofItems : FailsOnly allowed (ofItems items lastLabel) := by
  have hfew : unmarked ∅ 0 items < items.length + 1 := by
    rw [unmarked_empty]
    exact Nat.lt_succ_of_le List.countP_le_length
  exact failsOnly_settle hordinary hitems hfew

end Placing

/-- The offset of a label that has a place, if that matters. -/
theorem failsOnly_offsetOfLabel {layout : Layout} {label : Label}
    (h : label ∈ layout.labels ∨ ∀ fault, fault.AboutLabel → allowed fault) :
    FailsOnly allowed (layout.offsetOfLabel label) := by
  unfold offsetOfLabel placeOf
  rcases h with hmem | hallowed
  · obtain ⟨place, hplace⟩ := Option.isSome_iff_exists.mp (HashMap.mem_iff_isSome_getElem?.mp hmem)
    rw [hplace]
    exact failsOnly_ok _
  · exact failsOnly_bind (failsOnly_orFail (hallowed _ (.noOffset _))) fun _ => failsOnly_pure _

end Layout

/-! ## Writing code -/

namespace Encode

section Items

/-- What is written for an instruction jumps only where the instruction does. -/
theorem targets_item {instruction : Instruction} {next : CodeItem} {pool pool' : Pool.Builder}
    (h : item instruction pool = .ok (next, pool')) :
    ∀ target ∈ next.targets, target ∈ instruction.targets := by
  cases instruction <;> simp only [item, withIndex, work_bind_eq_ok, work_pure_eq_ok] at h <;>
    grind [CodeItem.targets, Instruction.targets, work_pure_eq_ok, PoolM.refuse, fail]

/-- Instructions are written with their labels and their targets. -/
theorem items_run {code : Code} {found : List (Option Label × CodeItem)}
    {pool pool' : Pool.Builder} (h : items code.instructions pool = .ok (found, pool')) :
    Layout.placedLabels found = code.placed ∧
      (code.Finds → ∀ written ∈ found, Layout.Uses code.labels written) := by
  have hown := items_forall₂ h
  constructor
  · show found.filterMap Prod.fst = code.instructions.filterMap Labelled.label
    clear h
    generalize code.instructions = entries at hown ⊢
    induction hown with
    | nil => rfl
    | cons hfirst _ ih => rw [List.filterMap_cons, List.filterMap_cons, hfirst.1, ih]
  · intro hcode written hwritten
    obtain ⟨entry, hentry, hlabel, _, _, hrun⟩ := exists_left_of_forall₂ hown hwritten
    constructor
    · intro label hsome
      exact List.mem_append_left _ (List.mem_filterMap.mpr ⟨entry, hentry, hlabel ▸ hsome⟩)
    · intro target htarget
      exact hcode target (.inl (Code.mem_inner_of_target hentry (targets_item hrun target htarget)))

end Items

/-! ### Tables -/

section Tables

open Context

variable {context : Context} (hcode : context.code.Allows allowed)

section Frames

include hcode

/-- The instructions that need a frame. -/
theorem failsOnly_frameIndices : FailsOnly allowed context.frameIndices := by
  have hplaces {label : Label} (h : label ∈ context.code.inner) :
      label ∈ context.code.labelIndices ∨ ∀ fault, fault.AboutLabel → allowed fault :=
    (hcode.mem_labels (.inl h)).imp_left Code.mem_labelIndices.mpr
  have hafter (index : Nat) {entry : Labelled} (hentry : entry ∈ context.code.instructions) :
      FailsOnly allowed (framesAfter context context.code.labelIndices
        context.code.instructions.length index entry.instruction) := by
    refine failsOnly_bind (failsOnly_mapM fun target htarget =>
      Frame.failsOnly_placeOf_any (hplaces (Code.mem_inner_of_target hentry htarget))) fun targets => ?_
    exact failsOnly_ite (failsOnly_pure _) (failsOnly_pure _)
  have hfrom (entries : List (Bool × Labelled))
      (hentries : ∀ entry ∈ entries, entry.2 ∈ context.code.instructions) (index : Nat)
      (done : List Nat) : FailsOnly allowed (framesFrom context context.code.labelIndices
        context.code.instructions.length index done entries) := by
    induction entries generalizing index done with
    | nil => exact failsOnly_ok _
    | cons entry rest ih =>
        obtain ⟨hfirst, hothers⟩ := List.forall_mem_cons.mp hentries
        obtain ⟨isLive, entry⟩ := entry
        cases isLive with
        | false => exact ih hothers _ _
        | true => exact failsOnly_bind (hafter index hfirst) fun needed => ih hothers _ _
  unfold frameIndices
  split
  · exact failsOnly_pure _
  · refine failsOnly_bind (hfrom _ (fun entry hentry => (List.of_mem_zip hentry).2) 0 []) fun live => ?_
    refine failsOnly_bind (failsOnly_mapM fun range hrange => ?_) fun handlers => failsOnly_pure _
    exact Frame.failsOnly_placeOf_any (hplaces (Code.mem_of_range hrange).2.2)

end Frames

/-- A type in a frame. -/
theorem ordinary_vtype (context : Context) (type : VType) :
    FailsOnly Fault.Ordinary (vtype context type) := by
  unfold vtype
  cases type <;> grind

/-- A frame. -/
theorem ordinary_fullFrame (context : Context) (delta : Nat) (frame : Frame) :
    FailsOnly Fault.Ordinary (fullFrame context delta frame) := by
  have htype := ordinary_vtype context
  unfold fullFrame
  grind

/-- The frames at some instructions, if there are frames for all of them. -/
theorem failsOnly_fullFrames (hordinary : ∀ fault : Fault, fault.Ordinary → allowed fault)
    {frames : Array (Option Frame)} {indices : List Nat}
    (h : (∀ index ∈ indices, index < frames.size) ∨
      ∀ length index, allowed (.outOfRange length index)) (previous : Option Nat)
    (done : List Bytes) : FailsOnly allowed (fullFrames context frames previous done indices) := by
  induction indices generalizing previous done with
  | nil => exact failsOnly_pure _
  | cons index rest ih =>
      unfold fullFrames
      dsimp only
      split
      next hnone =>
        have hbehind := Array.getElem?_eq_none_iff.mp hnone
        refine failsOnly_lift_pool (failsOnly_fail (h.resolve_left (fun hlt => ?_) _ _))
        exact absurd (hlt index List.mem_cons_self) (Nat.not_lt_of_le hbehind)
      next =>
        refine failsOnly_bind ((ordinary_fullFrame _ _ _).mono hordinary) fun bytes => ih ?_ _ _
        exact h.imp_left fun hlt other hother => hlt other (List.mem_cons_of_mem _ hother)

section Offsets

variable (hlabels : ∀ label ∈ context.code.labels, label ∈ context.layout.labels)

include hcode hlabels

/-- The offset of a label that code refers to. -/
theorem failsOnly_offset {label : Label}
    (h : label ∈ context.code.inner ∨ label ∈ context.code.stops) :
    FailsOnly allowed (liftM (context.layout.offsetOfLabel label) : PoolM UInt16) :=
  failsOnly_lift_pool (Layout.failsOnly_offsetOfLabel ((hcode.mem_labels h).imp_left (hlabels label)))

/-- The table of exceptions. -/
theorem failsOnly_exceptionTable : FailsOnly allowed context.exceptionTable := by
  have hordinary := hcode.ordinary
  have hoffset {label : Label} := @failsOnly_offset _ _ hcode hlabels label
  have hranges : ∀ range ∈ context.code.exceptions,
      FailsOnly allowed (exceptionRanges context range) := by
    intro range hrange
    obtain ⟨hstart, hstop, hhandler⟩ := Code.mem_of_range hrange
    refine failsOnly_bind (hoffset (.inl hstart)) fun start => ?_
    refine failsOnly_bind (hoffset (.inr hstop)) fun stop => ?_
    refine failsOnly_bind (hoffset (.inl hhandler)) fun handler => ?_
    refine failsOnly_ite (failsOnly_pure _) (failsOnly_bind ?_ fun caught => failsOnly_pure _)
    exact (PoolM.ordinary_optional PoolM.ordinary_cls).mono hordinary
  refine failsOnly_bind (failsOnly_mapM hranges) fun ranges => ?_
  exact failsOnly_bind (failsOnly_lift_pool
    ((ordinary_count16 (by grind [Fault.Ordinary]) _).mono hordinary)) fun count => failsOnly_pure _

/-- The attributes of code. -/
theorem failsOnly_attributes {indices : List Nat}
    (hindices : ∀ frames, context.frames = some frames → (∀ index ∈ indices, index < frames.size) ∨
      ∀ length index, allowed (.outOfRange length index)) (computeFrames : Bool) :
    ∀ work ∈ context.attributes computeFrames indices, ∀ written ∈ work,
      FailsOnly allowed written := by
  have hordinary := hcode.ordinary
  have hoffset {label : Label} := @failsOnly_offset _ _ hcode hlabels label
  have hlines : ∀ written ∈ context.code.lineNumbers.map (lineNumberTable context),
      FailsOnly allowed written := by
    intro written hwritten
    obtain ⟨lines, hsome, rfl⟩ := Option.map_eq_some_iff.mp hwritten
    refine failsOnly_sized hordinary (failsOnly_listOf hordinary fun line hline => ?_)
    have hline : line ∈ context.code.lineNumbers.getD [] := by
      rw [hsome]
      exact hline
    exact failsOnly_bind (hoffset (.inl (Code.mem_inner_of_line hline))) fun offset => failsOnly_pure _
  have hvariables (name what : String) (type? : LocalVariable → Option String) :
      ∀ written ∈ variableTable? context name what (context.code.localVariables.getD []) type?,
        FailsOnly allowed written := by
    refine failsOnly_given (failsOnly_sized hordinary (failsOnly_listOf hordinary ?_))
    intro entry hentry
    obtain ⟨v, hv, hsome⟩ := List.mem_filterMap.mp hentry
    obtain ⟨type, -, rfl⟩ := Option.map_eq_some_iff.mp hsome
    obtain ⟨hstart, hstop⟩ := Code.mem_of_variable hv
    refine failsOnly_bind (hoffset (.inl hstart)) fun start => ?_
    refine failsOnly_bind (hoffset (.inr hstop)) fun stop => ?_
    refine failsOnly_ite (failsOnly_refuse (hordinary _ (by grind [Fault.Ordinary]))) ?_
    refine failsOnly_bind ((PoolM.ordinary_utf8 _).mono hordinary) fun name => ?_
    exact failsOnly_bind ((PoolM.ordinary_utf8 _).mono hordinary) fun type => failsOnly_pure _
  have hframes : ∀ written ∈ stackMapTable? context indices, FailsOnly allowed written := by
    unfold stackMapTable?
    split
    · intro written hwritten
      cases hwritten
    next frames hsome =>
      refine failsOnly_given (failsOnly_sized hordinary ?_)
      refine failsOnly_bind (failsOnly_lift_pool
        ((ordinary_count16 (by grind [Fault.Ordinary]) _).mono hordinary)) fun _ => ?_
      exact failsOnly_bind (failsOnly_fullFrames hordinary (hindices frames hsome) _ _)
        fun _ => failsOnly_pure _
  unfold Context.attributes
  refine List.forall_mem_append.mpr ⟨?_, ?_⟩
  · simp only [List.forall_mem_cons]
    refine ⟨?_, hlines, hvariables _ _ _, hvariables _ _ _, fun _ hwork => absurd hwork List.not_mem_nil⟩
    split
    · exact hframes
    · intro written hwritten
      cases hwritten
  · refine List.forall_mem_map.mpr fun kept _ => ?_
    rintro _ ⟨⟩
    exact (ordinary_raw kept).mono hordinary

end Offsets

end Tables

/-! ### Frames that are written -/

section Fitting

/-- What an analysis promises of the frames that it finds: there is one for every instruction, and
instructions that are reached jump to instructions only. -/
structure FramesOf (code : Code) (frames : Array (Option Frame)) : Prop where
  size : frames.size = code.instructions.length
  jumps : ∀ (index : Nat) (frame : Frame) (entry : Labelled), frames[index]? = some (some frame) →
    code.instructions[index]? = some entry → ∀ label ∈ entry.instruction.targets, ∀ place : Nat,
      code.labelIndices[label]? = some place → place < code.instructions.length

/-- **Frames that an analysis finds** are for the instructions of the code. -/
theorem framesOf_analyze {σ : Type} {supers : SuperClasses σ} {cls : ClassName} {method : Method}
    {code : Code} {maxLocals : UInt16} {state state' : σ} {found : Frame.Analysis}
    (h : Frame.analyze supers cls method code maxLocals state = (.ok found, state')) :
    FramesOf code found.frames := by
  have hkeeps : ∀ handlers, Frame.handlersOf code.labelIndices code.exceptions = .ok handlers →
      (Frame.subjectOf cls code handlers).Keeps fun _ => True :=
    fun _ _ => ⟨fun _ _ _ => trivial, fun _ _ _ _ _ _ => trivial⟩
  obtain ⟨_, _, _, -, -, -, -, -, hdone⟩ :=
    Frame.analyze_settled (Frame.merges_any supers) hkeeps trivial h
  refine ⟨Frame.analyze_size h, fun index frame entry hframe hentry label hlabel place hplace => ?_⟩
  obtain ⟨-, instruction, _, hhere⟩ := hdone index frame hframe
  obtain ⟨targets, htargets⟩ := hhere.succeeds
  obtain ⟨_, hsame, rfl⟩ := Frame.code_subjectOf hhere.code
  cases hentry.symm.trans hsame
  have hmem := (Frame.mem_successors htargets place).mpr (.jump hlabel hplace)
  simpa [Frame.subjectOf] using Frame.lt_of_mem_successors htargets place hmem

variable {context : Context} {places : HashMap Label Nat} {length : Nat}

/-- The instructions that need a frame because of one are within the code if its targets are. -/
theorem lt_of_mem_framesAfter {index : Nat} {instruction : Instruction} {needed : List Nat}
    (h : context.framesAfter places length index instruction = .ok needed)
    (hjumps : ∀ label ∈ instruction.targets, ∀ place, places[label]? = some place → place < length) :
    ∀ target ∈ needed, target < length := by
  obtain ⟨targets, htargets, h⟩ := bind_eq_ok.mp h
  have hlt : ∀ target ∈ targets, target < length := by
    intro target hmem
    obtain ⟨label, hlabel, hplace⟩ := (Frame.mem_of_mapM_placeOf htargets target).mp hmem
    exact hjumps label hlabel target hplace
  have hafter (flag : Bool) (h : (if (flag && decide (index + 1 < length)) = true then
      pure (targets ++ [index + 1]) else pure targets : Except Error (List Nat)) = .ok needed) :
      ∀ target ∈ needed, target < length := by
    split at h
    next hmore =>
      cases pure_eq_ok.mp h
      have hnext : index + 1 < length := of_decide_eq_true ((Bool.and_eq_true _ _).mp hmore).2
      exact List.forall_mem_append.mpr ⟨hlt, List.forall_mem_singleton.mpr hnext⟩
    next =>
      cases pure_eq_ok.mp h
      exact hlt
  exact hafter _ h

/-- The instructions that need a frame because of several. -/
theorem lt_of_mem_framesFrom {start : Nat} {done found : List Nat} {pairs : List (Bool × Labelled)}
    (h : context.framesFrom places length start done pairs = .ok found)
    (hdone : ∀ index ∈ done, index < length)
    (hpairs : ∀ entry, (true, entry) ∈ pairs → ∀ label ∈ entry.instruction.targets, ∀ place,
      places[label]? = some place → place < length) : ∀ index ∈ found, index < length := by
  induction pairs generalizing start done with
  | nil =>
      cases h
      exact hdone
  | cons pair rest ih =>
      have hothers entry (hentry : (true, entry) ∈ rest) :=
        hpairs entry (List.mem_cons_of_mem pair hentry)
      obtain ⟨live, first⟩ := pair
      cases live with
      | false => exact ih h hdone hothers
      | true =>
          obtain ⟨needed, hfirst, h⟩ := bind_eq_ok.mp h
          have hneeded := lt_of_mem_framesAfter hfirst (hpairs first List.mem_cons_self)
          exact ih h (List.forall_mem_append.mpr ⟨hneeded, hdone⟩) hothers

/-- **Frames are needed for instructions only**, if all handlers begin at one. -/
theorem lt_of_mem_frameIndices {frames : Array (Option Frame)} {indices : List Nat}
    (hframes : context.frames = some frames) (hof : FramesOf context.code frames)
    (hhandlers : ¬ context.code.HandlesBehind) (h : context.frameIndices = .ok indices) :
    ∀ index ∈ indices, index < context.code.instructions.length := by
  have hreachable : context.reachable = frames.toList.map Option.isSome := by
    unfold Context.reachable
    rw [hframes]
  have hlength : context.reachable.length = context.code.instructions.length := by
    rw [hreachable, List.length_map, Array.length_toList, hof.size]
  unfold Context.frameIndices at h
  rw [hframes] at h
  obtain ⟨live, hlive, h⟩ := bind_eq_ok.mp h
  obtain ⟨handlers, hplaces, h⟩ := bind_eq_ok.mp h
  cases pure_eq_ok.mp h
  intro index hmem
  rw [Frame.mem_sortedSet, List.mem_append, List.mem_append] at hmem
  rcases hmem with (hmem | hmem) | hmem
  · refine lt_of_mem_framesFrom hlive (fun _ hnone => absurd hnone List.not_mem_nil)
      (fun entry hentry => ?_) index hmem
    obtain ⟨at', hat⟩ := List.mem_iff_getElem?.mp hentry
    obtain ⟨hflag, hentry⟩ := List.getElem?_zip_eq_some.mp hat
    rw [hreachable, List.getElem?_map, Array.getElem?_toList] at hflag
    obtain ⟨frame?, hframe, hsome⟩ := Option.map_eq_some_iff.mp hflag
    obtain ⟨frame, rfl⟩ := Option.isSome_iff_exists.mp hsome
    exact hof.jumps at' frame entry hframe hentry
  · obtain ⟨run, hrun, hmem⟩ := List.mem_flatMap.mp hmem
    have hrun := mem_deadRuns.mp hrun
    have hlt := hrun.lt
    have hle := hrun.le
    rw [hlength] at hle
    split at hmem <;> simp only [List.mem_cons, List.not_mem_nil, or_false] at hmem <;> omega
  · obtain ⟨range, hrange, hplace⟩ := exists_left_of_forall₂ (mapM_eq_ok_forall₂ hplaces) hmem
    exact Code.labelIndices_lt (orFail_eq_ok.mp hplace) fun hlast => hhandlers ⟨range, hrange, hlast⟩

end Fitting

/-! ### Whole classes -/

section Classes

variable {σ : Type} {supers : SuperClasses σ} (hsupers : ∀ a b, FailsOnly allowed (supers.common a b))

/-- **The contents of code.** -/
theorem failsOnly_codeBody {code : Code} (hcode : code.Allows allowed) (computeFrames : Bool)
    {frames : Option (Array (Option Frame))}
    (hframes : ∀ known, frames = some known → FramesOf code known) :
    FailsOnly allowed (codeBody computeFrames code frames) := by
  have hordinary := hcode.ordinary
  refine failsOnly_bind_of_yields ((ordinary_itemsFrom _ _ _).mono hordinary) fun items hitems => ?_
  obtain ⟨_, _, hitems⟩ := hitems
  obtain ⟨hplaced, huses⟩ := items_run hitems
  have hlabels : Layout.placedLabels items ++ code.lastLabel.toList = code.labels := by
    rw [hplaced]
    rfl
  have hlayout : FailsOnly allowed (Layout.ofItems items code.lastLabel) :=
    Layout.failsOnly_ofItems hordinary (hcode.label.imp_left fun hfinds => hlabels.symm ▸ huses hfinds)
  refine failsOnly_bind_of_yields (failsOnly_lift_pool hlayout) fun layout hlayout => ?_
  obtain ⟨_, _, hlayout⟩ := hlayout
  have hmem := Layout.mem_labels_ofItems (work_lift_eq_ok.mp hlayout).1
  rw [hlabels] at hmem
  refine failsOnly_ite (failsOnly_refuse (hordinary _ (by grind [Fault.Ordinary]))) ?_
  refine failsOnly_bind_of_yields (failsOnly_lift_pool (failsOnly_frameIndices hcode))
    fun indices hindices => ?_
  obtain ⟨_, _, hindices⟩ := hindices
  have hlt : ∀ known, frames = some known → (∀ index ∈ indices, index < known.size) ∨
      ∀ length index, allowed (.outOfRange length index) := by
    intro known hknown
    refine hcode.beyond.imp_left fun hnone => ?_
    rw [(hframes known hknown).size]
    exact lt_of_mem_frameIndices hknown (hframes known hknown) hnone (work_lift_eq_ok.mp hindices).1
  refine failsOnly_bind (failsOnly_exceptionTable hcode hmem) fun exceptions => ?_
  refine failsOnly_bind (failsOnly_present (failsOnly_attributes hcode hmem hlt _))
    fun attributes => ?_
  exact failsOnly_bind (failsOnly_lift_pool ((ordinary_counted _ _).mono hordinary))
    fun _ => failsOnly_pure _

include hsupers

/-- The size of the stack and the frames of code. -/
theorem failsOnly_analysis {code : Code} (hcode : code.Allows allowed) (computeFrames : Bool)
    (cls : ClassName) (method : Method) (maxLocals : UInt16) :
    FailsOnly allowed (analysis supers computeFrames cls method code maxLocals) := by
  unfold analysis
  refine failsOnly_ite ?_ ?_
  · have hanalyze := Frame.failsOnly_analyze hsupers hcode cls method maxLocals
    have hfault := hcode.ordinary (.write .frames) (by grind [Fault.Ordinary])
    exact failsOnly_bind (failsOnly_task_within hfault hanalyze) fun found => failsOnly_pure _
  · have hroot (a b : ClassName) : FailsOnly allowed ((SuperClasses.objectOnly σ).common a b) :=
      failsOnly_pure _
    have hanalyze := Frame.failsOnly_analyze hroot hcode cls method maxLocals
    rintro error ⟨state, state', hrun⟩
    dsimp only at hrun
    rcases hother : Frame.analyze (SuperClasses.objectOnly σ) cls method code maxLocals state with
      ⟨other | found, after⟩
    · have hallowed := hanalyze other ⟨state, after, hother⟩
      rw [hother] at hrun
      dsimp only at hrun
      split at hrun
      · cases hrun
        exact hallowed
      · cases hstack : code.maxStack with
        | none =>
            rw [hstack] at hrun
            cases hrun
            exact hallowed
        | some maxStack =>
            rw [hstack] at hrun
            cases hrun
    · rw [hother] at hrun
      cases hrun

/-- Code. -/
theorem failsOnly_code {body : Code} (hcode : body.Allows allowed) (computeFrames : Bool)
    (cls : ClassName) (method : Method) :
    FailsOnly allowed (code supers computeFrames cls method body) := by
  have hordinary := hcode.ordinary
  have hlocals : FailsOnly allowed (maxLocals method body) := by
    refine failsOnly_bind ((MethodType.ordinary_parse _).mono hordinary) fun type => ?_
    refine failsOnly_ite (failsOnly_pure _) (failsOnly_fail (hordinary _ ?_))
    grind [Fault.Ordinary]
  refine failsOnly_bind (failsOnly_lift_emit hlocals) fun maxLocals => ?_
  refine failsOnly_bind_of_yields (failsOnly_task (failsOnly_analysis hsupers hcode _ _ _ _))
    fun found hfound => ?_
  obtain ⟨maxStack, frames⟩ := found
  obtain ⟨pool, pool', s, s', hfound⟩ := hfound
  have hframes : ∀ known, frames = some known → FramesOf body known := by
    rintro known rfl
    rcases analysis_found (emit_task_eq_ok.mp hfound).1 with ⟨_, analysed, heq, hrun⟩ | ⟨hnone, -⟩
    · cases heq
      exact framesOf_analyze hrun
    · cases hnone
  exact failsOnly_bind (failsOnly_pool (failsOnly_codeBody hcode _ hframes))
    fun body => failsOnly_pure _

variable (hordinary : ∀ fault : Fault, fault.Ordinary → allowed fault)

include hordinary

/-- A method. -/
theorem failsOnly_method {m : Method} (hcode : ∀ code, m.code = some code → code.Allows allowed)
    (computeFrames : Bool) (cls : ClassName) :
    FailsOnly allowed (method supers computeFrames cls m) := by
  have hindexed (text : String) : FailsOnly allowed (indexed (PoolM.utf8 text)) :=
    (ordinary_indexed (PoolM.ordinary_utf8 text)).mono hordinary
  have hbody : FailsOnly allowed (codeAttribute supers computeFrames cls m) := by
    unfold codeAttribute
    cases hsome : m.code with
    | none => exact failsOnly_pure _
    | some body =>
        have hcode := failsOnly_code hsupers (hcode body hsome) computeFrames cls m
        refine failsOnly_bind (failsOnly_emit_within (hordinary _ (by grind [Fault.Ordinary])) hcode)
          fun bytes => ?_
        exact failsOnly_bind (failsOnly_pool ((ordinary_sized (failsOnly_pure bytes)).mono hordinary))
          fun written => failsOnly_pure _
  refine failsOnly_bind (failsOnly_pool (hindexed _)) fun name => ?_
  refine failsOnly_bind (failsOnly_pool (hindexed _)) fun descriptor => ?_
  refine failsOnly_bind (failsOnly_pool ((ordinary_present (ordinary_markers _ _)).mono hordinary))
    fun first => ?_
  refine failsOnly_bind hbody fun written => ?_
  refine failsOnly_bind
    (failsOnly_pool ((ordinary_present (ordinary_methodAttributes m)).mono hordinary)) fun rest => ?_
  exact failsOnly_bind (failsOnly_lift_emit ((ordinary_counted _ _).mono hordinary))
    fun _ => failsOnly_pure _

omit hsupers in
/-- Members that are each written with faults that are allowed. -/
theorem failsOnly_members {α : Type} {items : List α} {member : α → Emit σ Bytes}
    (h : ∀ item ∈ items, FailsOnly allowed (member item)) (cls : ClassName) (what : String) :
    FailsOnly allowed (members cls what items member) := by
  have hcount : FailsOnly allowed (count16 (.countOf what cls) items.length) :=
    (ordinary_count16 (by grind [Fault.Ordinary]) _).mono hordinary
  refine failsOnly_bind (failsOnly_lift_emit hcount) fun count => ?_
  exact failsOnly_bind (failsOnly_mapM h) fun written => failsOnly_pure _

/-- A class but for the pool. -/
theorem failsOnly_behindPool {cls : ClassFile}
    (hcls : ∀ m ∈ cls.methods, ∀ code, m.code = some code → code.Allows allowed)
    (computeFrames : Bool) : FailsOnly allowed (behindPool supers computeFrames cls) := by
  have hname (name : ClassName) : FailsOnly allowed (indexed (PoolM.cls name)) :=
    (ordinary_indexed (PoolM.ordinary_cls name)).mono hordinary
  have hsuper : FailsOnly allowed (indexed (PoolM.optional cls.superClass PoolM.cls)) :=
    (ordinary_indexed (PoolM.ordinary_optional PoolM.ordinary_cls)).mono hordinary
  refine failsOnly_bind (failsOnly_pool (hname _)) fun name => ?_
  refine failsOnly_bind (failsOnly_pool hsuper) fun superClass => ?_
  refine failsOnly_bind
    (failsOnly_members hordinary (fun name _ => failsOnly_pool (hname name)) _ _)
    fun interfaces => ?_
  refine failsOnly_bind (failsOnly_members hordinary (fun f _ => failsOnly_pool ?_) _ _)
    fun fields => ?_
  · exact failsOnly_pool_within (hordinary _ (by grind [Fault.Ordinary]))
      ((ordinary_field f).mono hordinary)
  refine failsOnly_bind (failsOnly_members hordinary (fun m hm => ?_) _ _) fun methods => ?_
  · exact failsOnly_emit_within (hordinary _ (by grind [Fault.Ordinary]))
      (failsOnly_method hsupers hordinary (hcls m hm) _ _)
  refine failsOnly_bind
    (failsOnly_pool ((ordinary_present (ordinary_classAttributes cls)).mono hordinary))
    fun attributes => ?_
  refine failsOnly_bind (failsOnly_pool (ordinary_bootstrapAttribute.mono hordinary))
    fun bootstraps => ?_
  exact failsOnly_bind (failsOnly_lift_emit ((ordinary_counted _ _).mono hordinary))
    fun _ => failsOnly_pure _

end Classes

end Encode

/-- **Writing a class fails as the code of its methods allows**, and as looking for common super classes
does. -/
theorem ClassFile.failsOnly_toBytes {σ : Type} {supers : SuperClasses σ}
    (hsupers : ∀ a b, FailsOnly allowed (supers.common a b))
    (hordinary : ∀ fault : Fault, fault.Ordinary → allowed fault) {cls : ClassFile}
    (hcls : ∀ m ∈ cls.methods, ∀ code, m.code = some code → code.Allows allowed)
    (computeFrames : Bool) : FailsOnly allowed (cls.toBytes supers computeFrames) := by
  refine failsOnly_task_within (hordinary _ (by grind [Fault.Ordinary])) ?_
  refine failsOnly_bind ?_ fun written => ?_
  · intro error herror
    exact Encode.failsOnly_behindPool hsupers hordinary hcls _ error ⟨{}, herror⟩
  · exact failsOnly_bind (failsOnly_lift_task (Pool.Builder.ordinary_write _ |>.mono hordinary))
      fun pool => failsOnly_pure _

end Downlevel
