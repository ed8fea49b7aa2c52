import Downlevel.Proofs.Frames
import Downlevel.Proofs.Labels

/-!
# Frames of code with other labels

An analysis looks at labels only to find the instructions that they are on.  So code with other
labels, one for each, has the same frames.  While it merges frames the analysis asks for common
super classes; if the answers do not depend on what was asked before, neither does what is found.

* `Code.mem_labelIndices` — every label of code is found;
* `Code.renamed_labelIndices` — a label that is renamed is found at the same place;
* `Frame.analyze_alike` — code with other labels has the same frames, whatever the state.
-/

namespace Downlevel

open Std (HashMap)

section Places

/-- Labels are found in one map where other labels in their place are found in another. -/
def Renamed (f : Label → Label) (labels : List Label) (places places' : HashMap Label Nat) : Prop :=
  ∀ label ∈ labels, places'[f label]? = places[label]?

variable {f : Label → Label} {labels : List Label} {places places' : HashMap Label Nat}

/-- Nothing is found in empty maps. -/
theorem renamed_empty : Renamed f labels ∅ ∅ := by
  intro label _
  rw [HashMap.getElem?_empty, HashMap.getElem?_empty]

/-- One more label that is placed in both maps. -/
theorem Renamed.insert (h : Renamed f labels places places')
    (hf : Set.InjOn f {label | label ∈ labels}) {label : Label} (hlabel : label ∈ labels)
    (place : Nat) : Renamed f labels (places.insert label place)
      (places'.insert (f label) place) := by
  intro other hother
  rw [HashMap.getElem?_insert, HashMap.getElem?_insert, h other hother]
  by_cases heq : label = other
  · rw [heq]
    simp
  · have hne : f label ≠ f other := fun h => heq (hf hlabel hother h)
    simp [heq, hne]

end Places

namespace Code

/-- Notes the place of the label on one more instruction. -/
def noteLabel (found : HashMap Label Nat × Nat) (entry : Labelled) : HashMap Label Nat × Nat :=
  match entry.label with
  | some label => (found.1.insert label found.2, found.2 + 1)
  | none => (found.1, found.2 + 1)

/-- The places of labels are noted one instruction after the other. -/
theorem labelIndices_eq (code : Code) :
    code.labelIndices =
      match code.lastLabel with
      | some label => (code.instructions.foldl noteLabel (∅, 0)).1.insert label
          (code.instructions.foldl noteLabel (∅, 0)).2
      | none => (code.instructions.foldl noteLabel (∅, 0)).1 := by
  rfl

/-- The instructions are counted while places are noted. -/
theorem foldl_noteLabel_snd (entries : List Labelled) (found : HashMap Label Nat × Nat) :
    (entries.foldl noteLabel found).2 = found.2 + entries.length := by
  induction entries generalizing found with
  | nil => rfl
  | cons entry entries ih =>
      have hnote : (noteLabel found entry).2 = found.2 + 1 := by
        unfold noteLabel
        split <;> rfl
      rw [List.foldl_cons, ih, hnote, List.length_cons]
      omega

/-- The labels that are noted are those on instructions. -/
theorem mem_foldl_noteLabel {entries : List Labelled} {found : HashMap Label Nat × Nat}
    {label : Label} : label ∈ (entries.foldl noteLabel found).1 ↔
      label ∈ found.1 ∨ label ∈ entries.filterMap Labelled.label := by
  induction entries generalizing found with
  | nil => simp
  | cons entry entries ih =>
      rw [List.foldl_cons, ih]
      cases hlabel : entry.label with
      | none => rw [List.filterMap_cons_none hlabel, noteLabel, hlabel]
      | some placed =>
          rw [List.filterMap_cons_some hlabel, noteLabel, hlabel, HashMap.mem_insert, beq_iff_eq,
            List.mem_cons, eq_comm (a := placed), or_comm (a := label = placed), or_assoc]

/-- **Every label of code is found.** -/
theorem mem_labelIndices {code : Code} {label : Label} :
    label ∈ code.labelIndices ↔ label ∈ code.labels := by
  have hfold : label ∈ (code.instructions.foldl noteLabel (∅, 0)).1 ↔ _ := mem_foldl_noteLabel
  simp only [HashMap.not_mem_empty, false_or] at hfold
  rw [labelIndices_eq, labels, List.mem_append, ← hfold]
  cases code.lastLabel with
  | none => simp
  | some last =>
      simp only [HashMap.mem_insert, beq_iff_eq, Option.toList_some, List.mem_singleton]
      rw [or_comm, eq_comm]

/-- Places that are noted are in front of what is noted next. -/
theorem foldl_noteLabel_lt {entries : List Labelled} {found : HashMap Label Nat × Nat}
    (hfound : ∀ (label : Label) (index : Nat), found.1[label]? = some index → index < found.2)
    {label : Label} {index : Nat}
    (h : (entries.foldl noteLabel found).1[label]? = some index) :
    index < (entries.foldl noteLabel found).2 := by
  induction entries generalizing found with
  | nil => exact hfound label index h
  | cons entry entries ih =>
      refine ih (fun other place hother => ?_) h
      unfold noteLabel at hother ⊢
      cases hlabel : entry.label with
      | none =>
          rw [hlabel] at hother
          exact Nat.lt_succ_of_lt (hfound other place hother)
      | some placed =>
          simp only [hlabel, HashMap.getElem?_insert] at hother
          split at hother
          next =>
            cases hother
            exact Nat.lt_succ_self _
          next => exact Nat.lt_succ_of_lt (hfound other place hother)

/-- **Every label but the last one is on an instruction.** -/
theorem labelIndices_lt {code : Code} {label : Label} {index : Nat}
    (h : code.labelIndices[label]? = some index) (hlast : code.lastLabel ≠ some label) :
    index < code.instructions.length := by
  have hfold : (code.instructions.foldl noteLabel (∅, 0)).1[label]? = some index := by
    rw [labelIndices_eq] at h
    split at h
    next last hsome =>
      have hne : ¬ last = label := fun heq => hlast (by rw [hsome, heq])
      rw [HashMap.getElem?_insert] at h
      simpa [hne] using h
    next => exact h
  have hlt := foldl_noteLabel_lt (fun _ _ hnone => by simp at hnone) hfold
  rwa [foldl_noteLabel_snd, Nat.zero_add] at hlt

/-- **The last label is behind the last instruction.** -/
theorem labelIndices_last {code : Code} {label : Label} (hlast : code.lastLabel = some label) :
    code.labelIndices[label]? = some code.instructions.length := by
  rw [labelIndices_eq, hlast]
  simp [foldl_noteLabel_snd]

variable {f : Label → Label} {labels : List Label}

/-- Labels that are renamed are noted at the same places. -/
theorem renamed_foldl_noteLabel (hf : Set.InjOn f {label | label ∈ labels})
    {entries : List Labelled} (hlabels : ∀ label ∈ entries.filterMap Labelled.label, label ∈ labels)
    {found found' : HashMap Label Nat × Nat} (h : Renamed f labels found.1 found'.1)
    (hindex : found'.2 = found.2) :
    Renamed f labels (entries.foldl noteLabel found).1
        ((entries.map (Labelled.mapLabels f)).foldl noteLabel found').1 ∧
      ((entries.map (Labelled.mapLabels f)).foldl noteLabel found').2 =
        (entries.foldl noteLabel found).2 := by
  induction entries generalizing found found' with
  | nil => exact ⟨h, hindex⟩
  | cons entry entries ih =>
      rw [List.map_cons, List.foldl_cons, List.foldl_cons]
      cases hlabel : entry.label with
      | none =>
          rw [List.filterMap_cons_none hlabel] at hlabels
          refine ih hlabels ?_ ?_
          · simpa [noteLabel, Labelled.mapLabels, hlabel] using h
          · simpa [noteLabel, Labelled.mapLabels, hlabel] using hindex
      | some label =>
          rw [List.filterMap_cons_some hlabel] at hlabels
          obtain ⟨hfirst, hrest⟩ := List.forall_mem_cons.mp hlabels
          refine ih hrest ?_ ?_
          · have hinsert := h.insert hf hfirst found.2
            simpa [noteLabel, Labelled.mapLabels, hlabel, hindex] using hinsert
          · simpa [noteLabel, Labelled.mapLabels, hlabel] using hindex

/-- **A label that is renamed is found at the same place.** -/
theorem renamed_labelIndices {code : Code} (hf : Set.InjOn f {label | label ∈ code.labels}) :
    Renamed f code.labels code.labelIndices (code.mapLabels f).labelIndices := by
  have hplaced : ∀ label ∈ code.instructions.filterMap Labelled.label, label ∈ code.labels :=
    fun label hlabel => List.mem_append_left _ hlabel
  obtain ⟨hrenamed, hindex⟩ := renamed_foldl_noteLabel hf hplaced renamed_empty
    (rfl : ((∅ : HashMap Label Nat), 0).2 = ((∅ : HashMap Label Nat), 0).2)
  rw [labelIndices_eq, labelIndices_eq]
  show Renamed f _ _ (match code.lastLabel.map f with
    | some label => _
    | none => _)
  cases hlast : code.lastLabel with
  | none => exact hrenamed
  | some label =>
      have hlabel : label ∈ code.labels := by
        rw [labels, hlast]
        exact List.mem_append_right _ List.mem_cons_self
      have hinsert := hrenamed.insert hf hlabel (code.instructions.foldl noteLabel (∅, 0)).2
      rw [← hindex] at hinsert
      simp only [Option.map_some]
      rw [← hindex]
      exact hinsert

end Code

section Tasks

variable {σ α β : Type}

/-- Two tasks have the same outcome, whatever states they work on. -/
def Alike (task task' : Task σ α) : Prop :=
  ∀ state state', (task state).1 = (task' state').1

/-- The outcome of a run is found again from any state. -/
theorem Alike.runs {task task' : Task σ α} (h : Alike task task') {state after : σ}
    {outcome : Except Error α} (hrun : task state = (outcome, after)) (state' : σ) :
    ∃ after', task' state' = (outcome, after') := by
  have heq := h state state'
  rw [hrun] at heq
  exact ⟨(task' state').2, Prod.ext heq.symm rfl⟩

/-- A value is its own outcome. -/
theorem alike_pure (value : α) : Alike (pure value : Task σ α) (pure value) :=
  fun _ _ => rfl

/-- What only has an outcome has it in every state. -/
theorem alike_lift (outcome : Except Error α) :
    Alike (liftM outcome : Task σ α) (liftM outcome) :=
  fun _ _ => rfl

/-- Tasks in sequence have the same outcome if their parts have. -/
theorem Alike.bind {task task' : Task σ α} {next next' : α → Task σ β} (h : Alike task task')
    (hnext : ∀ value, Alike (next value) (next' value)) : Alike (task >>= next) (task' >>= next') := by
  intro state state'
  show (ExceptT.bindCont next (task state).1 (task state).2).1 =
    (ExceptT.bindCont next' (task' state').1 (task' state').2).1
  rw [h state state']
  cases (task' state').1 with
  | error error => rfl
  | ok value => exact hnext value _ _

/-- Naming the place of an error does the same to the same outcomes. -/
theorem Alike.within {task task' : Task σ α} (h : Alike task task') (fault : Fault) :
    Alike (task.within fault) (task'.within fault) := by
  intro state state'
  have heq := h state state'
  unfold Task.within
  match hrun : task state, hrun' : task' state' with
  | (.ok value, _), (.ok value', _) =>
      rw [hrun, hrun'] at heq
      simpa using heq
  | (.error error, _), (.error error', _) =>
      rw [hrun, hrun'] at heq
      cases heq
      rfl
  | (.ok value, _), (.error error, _) =>
      rw [hrun, hrun'] at heq
      cases heq
  | (.error error, _), (.ok value, _) =>
      rw [hrun, hrun'] at heq
      cases heq

/-- Which class two classes have in common does not depend on what was asked before. -/
def SuperClasses.Steady (supers : SuperClasses σ) : Prop :=
  ∀ a b, Alike (supers.common a b) (supers.common a b)

/-- That only the root of all classes is known does not depend on anything. -/
theorem SuperClasses.steady_objectOnly : (SuperClasses.objectOnly σ).Steady :=
  fun _ _ => alike_pure _

end Tasks

namespace Frame

section Merging

variable {σ : Type} {supers : SuperClasses σ} (h : supers.Steady)

include h

/-- The class that covers two classes is always the same. -/
theorem mergeNames_alike (a b : List Char) : Alike (mergeNames supers a b) (mergeNames supers a b) := by
  fun_induction mergeNames supers a b with
  | case1 => exact alike_pure _
  | case2 _ _ _ _ _ _ _ ih => exact ih.bind fun _ => alike_pure _
  | _ => first | exact alike_pure _ | exact h _ _

/-- The type that covers two types is always the same. -/
theorem mergeType_alike (a b : VType) : Alike (mergeType supers a b) (mergeType supers a b) := by
  unfold mergeType
  split
  · exact alike_pure _
  · split
    · exact alike_pure _
    · exact alike_pure _
    · exact (mergeNames_alike h _ _).bind fun _ => alike_pure _
    · exact alike_pure _

/-- The types that cover the types of two lists are always the same. -/
theorem mergeTypesFrom_alike (done as bs : List VType) :
    Alike (mergeTypesFrom supers done as bs) (mergeTypesFrom supers done as bs) := by
  induction as generalizing done bs with
  | nil => exact alike_pure _
  | cons a as ih =>
      cases bs with
      | nil => exact alike_pure _
      | cons b bs => exact (mergeType_alike h a b).bind fun first => ih (first :: done) bs

/-- The frame that covers two frames is always the same. -/
theorem merge_alike (existing incoming : Frame) :
    Alike (merge supers existing incoming) (merge supers existing incoming) := by
  unfold merge
  split
  · exact (mergeTypesFrom_alike h _ _ _).bind fun locals =>
      (mergeTypesFrom_alike h _ _ _).bind fun stack => alike_pure _
  · exact alike_lift _

/-- Where a frame flows to is always the same. -/
theorem propagate_alike (flow : Flow) (target : Nat) (incoming : Frame) :
    Alike (propagate supers flow target incoming) (propagate supers flow target incoming) := by
  unfold propagate
  split
  · exact alike_lift _
  · exact alike_pure _
  · refine ((merge_alike h _ _).within _).bind fun merged => ?_
    split <;> exact alike_pure _

/-- Where frames flow to is always the same. -/
theorem propagateAll_alike (choose : Nat → Frame) (targets : List Nat) (flow : Flow) :
    Alike (propagateAll supers choose targets flow) (propagateAll supers choose targets flow) := by
  induction targets generalizing flow with
  | nil => exact alike_pure _
  | cons target rest ih => exact (propagate_alike h _ _ _).bind fun flow => ih flow

/-- Which handlers frames flow into is always the same. -/
theorem propagateHandlers_alike (index : Nat) (before behind : Frame) (handlers : List Handler)
    (flow : Flow) : Alike (propagateHandlers supers index before behind handlers flow)
      (propagateHandlers supers index before behind handlers flow) := by
  induction handlers generalizing flow with
  | nil => exact alike_pure _
  | cons handler rest ih =>
      unfold propagateHandlers
      split
      · exact (propagate_alike h _ _ _).bind fun first =>
          (propagate_alike h _ _ _).bind fun second => ih second
      · exact ih flow

end Merging

/-- Code under analysis with other labels: an analysis finds the same instructions through them. -/
structure Subject.SameBut (f : Label → Label) (subject subject' : Subject) : Prop where
  cls : subject'.cls = subject.cls
  code : subject'.code = subject.code.map (Instruction.mapLabels f)
  places : ∀ instruction ∈ subject.code, ∀ target ∈ instruction.targets,
    placeOf subject'.places (f target) = placeOf subject.places target
  handlers : subject'.handlers = subject.handlers

section Renaming

variable {f : Label → Label}

/-- Renaming labels keeps how execution goes on. -/
@[simp] theorem isUnconditional_mapLabels (instruction : Instruction) :
    (instruction.mapLabels f).isUnconditional = instruction.isUnconditional := by
  cases instruction <;> rfl

/-- Renaming labels keeps what objects are created. -/
theorem createdClass_map (code : Array Instruction) (index : Nat) :
    createdClass (code.map (Instruction.mapLabels f)) index = createdClass code index := by
  unfold createdClass
  rw [Array.getElem?_map]
  cases code[index]? with
  | none => rfl
  | some instruction => cases instruction <;> rfl

/-- Renaming labels keeps what a special call does. -/
theorem runSpecialCall_map (cls : ClassName) (code : Array Instruction) (target : MethodRef) :
    runSpecialCall cls (code.map (Instruction.mapLabels f)) target =
      runSpecialCall cls code target := by
  unfold runSpecialCall
  simp only [createdClass_map]

/-- Renaming labels keeps what an instruction does to a frame. -/
theorem after_mapLabels (cls : ClassName) (code : Array Instruction) (index : Nat)
    (instruction : Instruction) (frame : Frame) :
    frame.after cls (code.map (Instruction.mapLabels f)) index (instruction.mapLabels f) =
      frame.after cls code index instruction := by
  unfold after
  cases instruction with
  | invokespecial target onInterface =>
      simp only [Instruction.mapLabels, run, runSpecialCall_map]
  | load kind slot => cases kind <;> rfl
  | field use target => cases use <;> rfl
  | _ => rfl

/-- Labels in other places are found where they are found here, one after the other. -/
theorem mapM_placeOf {places places' : HashMap Label Nat} {targets : List Label}
    (h : ∀ target ∈ targets, placeOf places' (f target) = placeOf places target) :
    (targets.map f).mapM (placeOf places') = targets.mapM (placeOf places) := by
  induction targets with
  | nil => rfl
  | cons target rest ih =>
      obtain ⟨hfirst, hrest⟩ := List.forall_mem_cons.mp h
      rw [List.map_cons, List.mapM_cons, List.mapM_cons, hfirst, ih hrest]

/-- Renaming labels keeps what can come behind an instruction. -/
theorem successors_mapLabels {places places' : HashMap Label Nat} {instruction : Instruction}
    (h : ∀ target ∈ instruction.targets, placeOf places' (f target) = placeOf places target)
    (length index : Nat) : successors length places' index (instruction.mapLabels f) =
      successors length places index instruction := by
  unfold successors
  rw [Instruction.targets_mapLabels, mapM_placeOf h, isUnconditional_mapLabels]

variable {σ : Type} {supers : SuperClasses σ} (hsteady : supers.Steady)
  {subject subject' : Subject} (hsame : subject.SameBut f subject')

include hsteady hsame

/-- Looking at an instruction has the same outcome with other labels. -/
theorem visit_alike (index : Nat) (flow : Flow) :
    Alike (visit supers subject index flow) (visit supers subject' index flow) := by
  have hcode : subject'.code[index]? = subject.code[index]?.map (Instruction.mapLabels f) := by
    rw [hsame.code, Array.getElem?_map]
  unfold visit
  match hframe : flow.frames[index]?, hinstruction : subject.code[index]? with
  | some (some frame), some instruction =>
      rw [hinstruction, Option.map_some] at hcode
      simp only [hcode, hsame.cls, hsame.handlers]
      rw [hsame.code, after_mapLabels, Array.size_map,
        successors_mapLabels (hsame.places instruction (Array.mem_of_getElem? hinstruction))]
      refine (alike_lift _).bind fun behind => (alike_lift _).bind fun targets => ?_
      -- Which frame flows where depends on the kind of the instruction alone.
      cases instruction <;>
        exact (propagateAll_alike hsteady _ _ _).bind fun flow =>
          propagateHandlers_alike hsteady _ _ _ _ _
  | some (some frame), none =>
      rw [hinstruction, Option.map_none] at hcode
      simp only [hcode]
      exact alike_lift _
  | some none, _ => exact alike_lift _
  | none, _ => exact alike_lift _

/-- Looking at instructions until none waits has the same outcome with other labels. -/
theorem settle_alike (remaining : Nat) (flow : Flow) :
    Alike (settle supers subject remaining flow) (settle supers subject' remaining flow) := by
  induction remaining generalizing flow with
  | zero =>
      unfold settle
      split
      · exact alike_pure _
      · exact alike_lift _
  | succ remaining ih =>
      unfold settle
      split
      · exact alike_pure _
      · exact (visit_alike hsteady hsame _ _).bind fun flow => ih flow

end Renaming

section Analysis

variable {f : Label → Label} {σ : Type} {supers : SuperClasses σ} {code : Code}

/-- A label of code is found where the label in its place is found. -/
theorem placeOf_renamed (hf : Set.InjOn f {label | label ∈ code.labels}) {label : Label}
    (hlabel : label ∈ code.labels) :
    placeOf (code.mapLabels f).labelIndices (f label) = placeOf code.labelIndices label := by
  have hfound := Code.mem_labelIndices.mpr hlabel
  rw [HashMap.mem_iff_isSome_getElem?, Option.isSome_iff_exists] at hfound
  obtain ⟨place, hplace⟩ := hfound
  unfold placeOf
  rw [Code.renamed_labelIndices hf label hlabel, hplace]
  rfl

/-- Code with other labels has the same handlers. -/
theorem handlersOf_mapLabels (hf : Set.InjOn f {label | label ∈ code.labels}) (hcode : code.Tidy) :
    handlersOf (code.mapLabels f).labelIndices (code.mapLabels f).exceptions =
      handlersOf code.labelIndices code.exceptions := by
  have hmap : ∀ ranges : List ExceptionRange, (∀ range ∈ ranges, range ∈ code.exceptions) →
      handlersOf (code.mapLabels f).labelIndices (ranges.map (ExceptionRange.mapLabels f)) =
        handlersOf code.labelIndices ranges := by
    intro ranges
    induction ranges with
    | nil => intro _; rfl
    | cons range ranges ih =>
        intro hranges
        obtain ⟨hfirst, hrest⟩ := List.forall_mem_cons.mp hranges
        obtain ⟨hstart, hstop, hhandler⟩ := hcode.resolves.of_range hfirst
        have hothers := ih hrest
        unfold handlersOf at hothers ⊢
        rw [List.map_cons, List.mapM_cons, List.mapM_cons, hothers]
        simp only [ExceptionRange.mapLabels, placeOf_renamed hf hstart, placeOf_renamed hf hstop,
          placeOf_renamed hf hhandler]
  exact hmap code.exceptions fun _ hrange => hrange

/-- **Code with other labels has the same frames**, whatever the state. -/
theorem analyze_alike (hsteady : supers.Steady) (hf : Set.InjOn f {label | label ∈ code.labels})
    (hcode : code.Tidy) {code' : Code}
    (hinstructions : code'.instructions = (code.mapLabels f).instructions)
    (hexceptions : code'.exceptions = (code.mapLabels f).exceptions)
    (hlast : code'.lastLabel = (code.mapLabels f).lastLabel) (cls : ClassName) (method : Method)
    (held : Option Code) (maxLocals : UInt16) :
    Alike (analyze supers cls method code maxLocals)
      (analyze supers cls { method with code := held } code' maxLocals) := by
  have hplaces : code'.labelIndices = (code.mapLabels f).labelIndices := by
    rw [Code.labelIndices_eq, Code.labelIndices_eq, hinstructions, hlast]
  have hempty : code'.instructions.isEmpty = code.instructions.isEmpty := by
    rw [hinstructions]
    exact List.isEmpty_map
  have harray : (code'.instructions.map Labelled.instruction).toArray =
      (code.instructions.map Labelled.instruction).toArray.map (Instruction.mapLabels f) := by
    rw [hinstructions]
    simp [Code.mapLabels, Labelled.mapLabels, Function.comp_def]
  have hsame : ∀ handlers, Subject.SameBut f
      ⟨cls, (code.instructions.map Labelled.instruction).toArray, code.labelIndices, handlers⟩
      ⟨cls, (code.instructions.map Labelled.instruction).toArray.map (Instruction.mapLabels f),
        (code.mapLabels f).labelIndices, handlers⟩ := by
    refine fun handlers => ⟨rfl, rfl, ?_, rfl⟩
    intro instruction hmem target htarget
    obtain ⟨entry, hentry, rfl⟩ := List.mem_map.mp (List.mem_toArray.mp hmem)
    exact placeOf_renamed hf (hcode.resolves.of_target hentry htarget)
  simp only [analyze, hempty, hplaces, hexceptions, handlersOf_mapLabels hf hcode, harray,
    Array.size_map]
  split
  · exact alike_lift _
  · refine (alike_lift _).bind fun handlers => (alike_lift _).bind fun type => ?_
    refine (alike_lift _).bind fun first => ?_
    refine (settle_alike hsteady (hsame handlers) _ _).bind fun flow => alike_lift _

end Analysis

end Frame

end Downlevel
