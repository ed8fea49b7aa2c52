import Downlevel.Proofs.Outline
import Downlevel.Proofs.Reachable
import Downlevel.Proofs.Running.Blocks

/-!
# Balanced code

Code of which it is known what stands on the stack before each instruction does not stumble.  An
analysis starts with an empty stack, and lets frames flow only where outlines are known that they fit,
so it never meets two stacks of different heights.

A *sketch* gives the outline before each instruction with a label.  Going through the instructions once,
from the first to the last, then shows that all outlines fit, and that each instruction is one that
execution comes to: from the one before, or because an earlier one goes to its label.

* `Frame.settle_meets` — frames that fit outlines flow without stumbling;
* `Sketch.walk`, `Code.Balanced` — going through code;
* `Code.Balanced.reachable` — execution can come to every instruction of balanced code;
* `Frame.analyze_harmless` — **the analysis of balanced code does not stumble**.
-/

namespace Downlevel

namespace Frame

open Downlevel.Task

/-! ## The analysis -/

/-- A task does not stumble, and the values that it gives have a property. -/
structure Meets {σ α : Type} (task : Task σ α) (Q : α → Prop) : Prop where
  fails : FailsOnly Fault.Harmless task
  gives : Ensures (fun _ => True) task Q

section Meeting

variable {σ α β : Type} {task : Task σ α} {Q R : α → Prop}

/-- A value. -/
theorem meets_pure {value : α} (h : Q value) : Meets (pure value : Task σ α) Q :=
  ⟨failsOnly_pure value, ensures_pure h⟩

/-- What only has an outcome. -/
theorem meets_lift {outcome : Except Error α} (h : FailsOnly Fault.Harmless outcome)
    (hQ : ∀ value, outcome = .ok value → Q value) : Meets (liftM outcome : Task σ α) Q :=
  ⟨failsOnly_lift_task h, ensures_lift hQ⟩

/-- A fault that is harmless. -/
theorem meets_fail {fault : Fault} (h : fault.Harmless) :
    Meets (liftM (fail fault : Except Error α) : Task σ α) Q :=
  meets_lift (failsOnly_fail h) fun _ hnone => absurd hnone fail_ne_ok

/-- Tasks in sequence. -/
theorem Meets.bind {next : α → Task σ β} {R : β → Prop} (h : Meets task Q)
    (hnext : ∀ value, Q value → Meets (next value) R) : Meets (task >>= next) R where
  fails := by
    refine failsOnly_bind_of_yields h.fails fun value hvalue => ?_
    obtain ⟨s, s', hrun⟩ := hvalue
    exact (hnext value (h.gives.run trivial hrun).1).fails
  gives := h.gives.bind fun value hvalue => (hnext value hvalue).gives

/-- Naming the place of an error. -/
theorem Meets.within (h : Meets task Q) {fault : Fault} (hfault : fault.Harmless) :
    Meets (task.within fault) Q :=
  ⟨failsOnly_task_within hfault h.fails, h.gives.within fault⟩

end Meeting

section Merging

variable {σ : Type} {supers : SuperClasses σ} {slots : Nat} {narrow : Bool} {outline : Outline}

/-- What covers a type of one slot takes one slot. -/
theorem Merged.isWide {T : VType → Prop} {as bs types : List VType} (h : Merged T as bs types) :
    List.Forall₂ (fun a type => a.isWide = false → type.isWide = false) as types := by
  induction h with
  | nil => exact .nil
  | @cons a b type as bs types _ joined _ ih =>
      refine .cons (fun hnarrow => ?_) ih
      by_contra hwide
      obtain ⟨rfl, -⟩ := joined.wide (by simpa using hwide)
      exact hwide hnarrow

/-- Types of two lists are merged without stumbling. -/
theorem mergeTypes_meets (hsupers : supers.Harmless) {as bs : List VType}
    (hlength : as.length = bs.length) :
    Meets (mergeTypes supers as bs) (Merged (fun _ => True) as bs) where
  fails := failsOnly_mergeTypesFrom hsupers [] as bs
  gives := by
    have hany : ∀ a b : VType, True → True →
        Ensures (fun _ => True) (mergeType supers a b) fun _ => True :=
      fun _ _ _ _ _ _ => ⟨trivial, fun _ _ => trivial⟩
    refine (mergeTypesFrom_merged hany hlength (fun _ _ => trivial) fun _ _ => trivial).mono ?_
    rintro types ⟨merged, rfl, hmerged⟩
    exact hmerged

/-- **Frames with one outline are merged without stumbling**, to a frame with that outline. -/
theorem merge_meets (hsupers : supers.Harmless) {existing incoming : Frame}
    (hexisting : existing.Fits slots narrow outline) (hincoming : incoming.Fits slots narrow outline) :
    Meets (merge supers existing incoming) fun merged =>
      ∀ frame, merged = some frame → frame.Fits slots narrow outline := by
  have hheights : existing.stack.length = incoming.stack.length :=
    hexisting.stack.length_eq.symm.trans hincoming.stack.length_eq
  have hlocals : existing.locals.length = incoming.locals.length :=
    hexisting.length.trans hincoming.length.symm
  have hstacks : existing.stack.reverse.length = incoming.stack.reverse.length := by
    rw [List.length_reverse, List.length_reverse, hheights]
  unfold merge
  rw [if_pos hheights]
  refine (mergeTypes_meets hsupers hlocals).bind fun locals hlocals => ?_
  refine (mergeTypes_meets hsupers hstacks).bind fun stack hstack => meets_pure fun frame hframe => ?_
  split at hframe
  next => cases hframe
  next =>
    cases hframe
    refine ⟨hlocals.length.trans hexisting.length, fun hnarrow type hmem => ?_, ?_⟩
    · obtain ⟨other, hother, hkept⟩ := exists_left_of_forall₂ hlocals.isWide hmem
      exact hkept (hexisting.narrow hnarrow other hother)
    · have hkept := List.forall₂_reverse_iff.mpr hstack.isWide
      rw [List.reverse_reverse] at hkept
      exact forall₂_through (fun _ _ _ hsure hkeeps hyes => hkeeps (hsure hyes)) hexisting.stack hkept

end Merging

/-- The frames that an analysis knows are as outlines say, which are known for their places. -/
def Flow.Fits (slots : Nat) (narrow : Bool) (found : Nat → Option Outline) (flow : Flow) : Prop :=
  ∀ index frame, flow.frames[index]? = some (some frame) →
    ∃ outline, found index = some outline ∧ frame.Fits slots narrow outline

/-- The outlines that are known for places in code fit the code: an instruction finds what it takes,
and wherever execution goes behind it there is an instruction, for which just that outline is known
that it leaves behind. -/
structure Subject.Levels (subject : Subject) (slots : Nat) (narrow : Bool)
    (found : Nat → Option Outline) : Prop where
  slotsUsed : ∀ instruction ∈ subject.code, Encode.slotsUsed instruction ≤ slots
  steady : ∀ index instruction, subject.code[index]? = some instruction →
    FailsOnly Fault.Harmless (successors subject.code.size subject.places index instruction)
  goes : ∀ index instruction outline, subject.code[index]? = some instruction →
    found index = some outline → ∃ behind, outline.behind? narrow instruction = some behind ∧
      ∀ target, GoesTo subject.places index instruction target → found target = some behind
  handled : ∀ handler ∈ subject.handlers, found handler.handler = some [true]
  caught : ∀ handler ∈ subject.handlers, handler.caught.isWide = false

section Flowing

variable {σ : Type} {supers : SuperClasses σ} (hsupers : supers.Harmless) {slots : Nat} {narrow : Bool}
  {found : Nat → Option Outline} {flow : Flow}

/-- Setting a frame that is as an outline says. -/
theorem Flow.Fits.update (h : flow.Fits slots narrow found) {target : Nat} {outline : Outline}
    (htarget : found target = some outline) {frame : Frame} (hframe : frame.Fits slots narrow outline) :
    (flow.update target frame).Fits slots narrow found := by
  intro index other hother
  rw [Flow.frames_update, Array.getElem?_setIfInBounds] at hother
  split at hother
  next heq =>
    split at hother
    next =>
      cases hother
      exact ⟨outline, heq ▸ htarget, hframe⟩
    next => cases hother
  next => exact h index other hother

/-- Taking the next instruction leaves the frames alone. -/
theorem Flow.Fits.next {next : Option Nat} {flow' : Flow} (h : flow.Fits slots narrow found)
    (hnext : flow.next = (next, flow')) : flow'.Fits slots narrow found := by
  unfold Flow.Fits
  rw [Flow.frames_next hnext]
  exact h

include hsupers

/-- Letting a frame flow to an instruction. -/
theorem propagate_meets (h : flow.Fits slots narrow found) {target : Nat} {outline : Outline}
    (htarget : found target = some outline) {incoming : Frame}
    (hincoming : incoming.Fits slots narrow outline) :
    Meets (propagate supers flow target incoming) (Flow.Fits slots narrow found) := by
  unfold propagate
  split
  next => exact meets_fail (by rintro ⟨⟩)
  next => exact meets_pure (h.update htarget hincoming)
  next existing hexisting =>
    obtain ⟨known, hknown, hfits⟩ := h target existing hexisting
    obtain rfl := Option.some.inj (hknown.symm.trans htarget)
    refine ((merge_meets hsupers hfits hincoming).within (by rintro ⟨⟩)).bind fun merged hmerged => ?_
    split
    next frame => exact meets_pure (h.update htarget (hmerged frame rfl))
    next => exact meets_pure h

/-- Letting a frame flow to several instructions. -/
theorem propagateAll_meets {choose : Nat → Frame} {outline : Outline}
    (hchoose : ∀ target, (choose target).Fits slots narrow outline) {targets : List Nat}
    (htargets : ∀ target ∈ targets, found target = some outline) (h : flow.Fits slots narrow found) :
    Meets (propagateAll supers choose targets flow) (Flow.Fits slots narrow found) := by
  induction targets generalizing flow with
  | nil => exact meets_pure h
  | cons target rest ih =>
      obtain ⟨hfirst, hrest⟩ := List.forall_mem_cons.mp htargets
      exact (propagate_meets hsupers h hfirst (hchoose target)).bind fun next hnext => ih hrest hnext

/-- Letting local variables flow into handlers. -/
theorem propagateHandlers_meets (index : Nat) {before behind : Frame} {outline outline' : Outline}
    (hbefore : before.Fits slots narrow outline) (hbehind : behind.Fits slots narrow outline')
    {handlers : List Handler} (hhandled : ∀ handler ∈ handlers, found handler.handler = some [true])
    (hcaught : ∀ handler ∈ handlers, handler.caught.isWide = false)
    (h : flow.Fits slots narrow found) :
    Meets (propagateHandlers supers index before behind handlers flow)
      (Flow.Fits slots narrow found) := by
  induction handlers generalizing flow with
  | nil => exact meets_pure h
  | cons handler rest ih =>
      obtain ⟨hhere, hothers⟩ := List.forall_mem_cons.mp hhandled
      obtain ⟨htype, htypes⟩ := List.forall_mem_cons.mp hcaught
      have hentry {frame : Frame} {outline : Outline} (hframe : frame.Fits slots narrow outline) :
          Frame.Fits slots narrow [true] ⟨frame.locals, [handler.caught]⟩ :=
        ⟨hframe.length, hframe.narrow, .cons (fun _ => htype) .nil⟩
      unfold propagateHandlers
      split
      next =>
        have hnoted : (flow.note 1).Fits slots narrow found := h
        refine (propagate_meets hsupers hnoted hhere (hentry hbefore)).bind fun first hfirst => ?_
        refine (propagate_meets hsupers hfirst hhere (hentry hbehind)).bind fun second hsecond => ?_
        exact ih hothers htypes hsecond
      next => exact ih hothers htypes h

variable {subject : Subject} (hsubject : subject.Levels slots narrow found)

include hsubject

/-- Looking at an instruction. -/
theorem visit_meets (index : Nat) (h : flow.Fits slots narrow found) :
    Meets (visit supers subject index flow) (Flow.Fits slots narrow found) := by
  unfold visit
  split
  next frame instruction hframe hinstruction =>
    obtain ⟨outline, hfound, hbefore⟩ := h index frame hframe
    obtain ⟨behind, hbehind, hgoes⟩ := hsubject.goes index instruction outline hinstruction hfound
    have hslots := hsubject.slotsUsed instruction (Array.mem_of_getElem? hinstruction)
    obtain ⟨hfails, hgives⟩ := after_fits subject.cls subject.code index hslots hbehind hbefore
    have hafter : Meets (liftM (Downlevel.within (.frame (.afterInstruction index))
        (frame.after subject.cls subject.code index instruction)) : Task σ Frame)
        (Frame.Fits slots narrow behind) :=
      meets_lift (failsOnly_within (by rintro ⟨⟩) hfails) fun frame' hrun =>
        hgives frame' (within_eq_ok.mp hrun)
    have hsuccessors : Meets (liftM (successors subject.code.size subject.places index instruction) :
        Task σ (List Nat)) fun targets => ∀ target ∈ targets, found target = some behind :=
      meets_lift (hsubject.steady index instruction hinstruction) fun targets htargets target hmem =>
        hgoes target ((mem_successors htargets target).mp hmem)
    refine hafter.bind fun frame' hframe' => hsuccessors.bind fun targets htargets => ?_
    have hnoted : ((flow.note frame.stackSize).note frame'.stackSize).Fits slots narrow found := h
    refine (propagateAll_meets hsupers (fun target => ?_) htargets hnoted).bind fun between hbetween =>
      propagateHandlers_meets hsupers index hbefore hframe' hsubject.handled hsubject.caught hbetween
    · split
      next => cases hbehind
      next => exact hframe'
  next => exact meets_fail (by rintro ⟨⟩)

/-- Looking at instructions until none waits. -/
theorem settle_meets (remaining : Nat) (h : flow.Fits slots narrow found) :
    Meets (settle supers subject remaining flow) (Flow.Fits slots narrow found) := by
  induction remaining generalizing flow with
  | zero =>
      unfold settle
      split
      next next hnext => exact meets_pure (h.next hnext)
      next => exact meets_fail (by rintro ⟨⟩)
  | succ remaining ih =>
      unfold settle
      split
      next next hnext => exact meets_pure (h.next hnext)
      next index next hnext =>
        exact (visit_meets hsupers hsubject index (h.next hnext)).bind fun between hbetween =>
          ih hbetween

end Flowing

end Frame

/-! ## Going through code -/

/-- What is expected of code: whether all local variables take one slot, what stands on the stack before
the instruction with a label, and the ranges in which exceptions are caught. -/
structure Sketch where
  narrow : Bool
  outlines : Label → Option Outline
  ranges : List ExceptionRange

/-- How far one has come in code: the outline with which execution comes from the instruction before, if
it does, and the labels that it can go to. -/
structure Course where
  outline : Option Outline
  seen : List Label

/-- Where code starts. -/
def Course.start : Course :=
  ⟨some [], []⟩

namespace Sketch

variable (sketch : Sketch)

/-- The outline before the next instruction, which may have a label. -/
def before? (course : Course) : Option Label → Option Outline
  | none => course.outline
  | some label =>
      match course.outline with
      | some outline => if sketch.outlines label = some outline then some outline else none
      | none => if label ∈ course.seen then sketch.outlines label else none

/-- The handlers of the ranges that start with a label. -/
def handlersAt : Option Label → List Label
  | none => []
  | some label => (sketch.ranges.filter (·.start = label)).map ExceptionRange.handler

/-- Goes past an instruction that finds what it takes, and behind which execution goes only where just
that is expected which it leaves. -/
def step (course : Course) (entry : Labelled) : Option Course := do
  let outline ← sketch.before? course entry.label
  let behind ← outline.behind? sketch.narrow entry.instruction
  if ∀ target ∈ entry.instruction.targets, sketch.outlines target = some behind then
    some {
      outline := if entry.instruction.isUnconditional then none else some behind
      seen := entry.instruction.targets ++ sketch.handlersAt entry.label ++ course.seen }
  else none

/-- Goes past instructions one after the other. -/
def walk (course : Course) (entries : List Labelled) : Option Course :=
  entries.foldlM sketch.step course

/-- The outline before the instruction at an index of code. -/
def outlineAt? (code : Code) (index : Nat) : Option Outline := do
  let course ← sketch.walk .start (code.instructions.take index)
  let entry ← code.instructions[index]?
  sketch.before? course entry.label

end Sketch

/-- Code holds together: its labels can be resolved and stand on instructions; one can go through it
from the first instruction to the last, behind which execution does not go on; and exceptions are caught
in ranges that are not empty, by handlers that expect just them. -/
structure Code.Balanced (code : Code) (sketch : Sketch) : Prop where
  resolves : code.Resolves
  closed : code.lastLabel = none
  ranges : code.exceptions = sketch.ranges
  forward : ∀ range ∈ code.exceptions, ∀ start stop, code.labelIndices[range.start]? = some start →
    code.labelIndices[range.stop]? = some stop → start < stop
  handlers : ∀ range ∈ code.exceptions, sketch.outlines range.handler = some [true]
  walks : ∃ seen, sketch.walk .start code.instructions = some ⟨none, seen⟩

namespace Sketch

variable {sketch : Sketch} {course course' : Course} {entry : Labelled}

/-- What it takes to go past an instruction. -/
theorem step_eq_some : sketch.step course entry = some course' ↔
    ∃ outline behind, sketch.before? course entry.label = some outline ∧
      outline.behind? sketch.narrow entry.instruction = some behind ∧
      (∀ target ∈ entry.instruction.targets, sketch.outlines target = some behind) ∧
      course' = {
        outline := if entry.instruction.isUnconditional then none else some behind
        seen := entry.instruction.targets ++ sketch.handlersAt entry.label ++ course.seen } := by
  unfold step
  simp only [Option.bind_eq_bind, Option.bind_eq_some_iff, Option.ite_none_right_eq_some,
    Option.some.injEq]
  constructor
  · rintro ⟨outline, hbefore, behind, hbehind, htargets, rfl⟩
    exact ⟨outline, behind, hbefore, hbehind, htargets, rfl⟩
  · rintro ⟨outline, behind, hbefore, hbehind, htargets, rfl⟩
    exact ⟨outline, hbefore, behind, hbehind, htargets, rfl⟩

/-- Before an instruction with a label there is what is expected there. -/
theorem outlines_of_before {label : Label} {outline : Outline}
    (h : sketch.before? course (some label) = some outline) : sketch.outlines label = some outline := by
  unfold before? at h
  cases hcourse : course.outline with
  | some known =>
      simp only [hcourse, Option.ite_none_right_eq_some, Option.some.injEq] at h
      obtain ⟨hlabel, rfl⟩ := h
      exact hlabel
  | none =>
      simp only [hcourse, Option.ite_none_right_eq_some] at h
      exact h.2

/-- Before an instruction to which execution comes from the one before there is what that leaves. -/
theorem outline_of_before {label : Option Label} {outline known : Outline}
    (h : sketch.before? course label = some outline) (hcourse : course.outline = some known) :
    outline = known := by
  cases label with
  | none => exact Option.some.inj (h.symm.trans hcourse)
  | some label =>
      simp only [before?, hcourse, Option.ite_none_right_eq_some, Option.some.injEq] at h
      exact h.2.symm

/-- To an instruction to which execution does not come from the one before it goes by its label. -/
theorem seen_of_before {label : Option Label} {outline : Outline}
    (h : sketch.before? course label = some outline) (hcourse : course.outline = none) :
    ∃ found ∈ course.seen, label = some found := by
  cases label with
  | none => cases hcourse.symm.trans h
  | some label =>
      simp only [before?, hcourse, Option.ite_none_right_eq_some] at h
      exact ⟨label, h.1, rfl⟩

/-- Going past instructions and others behind them. -/
theorem walk_append (course : Course) (front back : List Labelled) :
    sketch.walk course (front ++ back) = (sketch.walk course front).bind fun between =>
      sketch.walk between back := by
  unfold walk
  rw [List.foldlM_append]
  rfl

/-- Going past one instruction. -/
theorem walk_singleton (course : Course) (entry : Labelled) :
    sketch.walk course [entry] = sketch.step course entry := by
  simp [walk]

/-- Who goes past all instructions of code goes past each of them. -/
theorem walk_take {code : Code} {last : Course} (h : sketch.walk .start code.instructions = some last)
    {index : Nat} {entry : Labelled} (hentry : code.instructions[index]? = some entry) :
    ∃ course course', sketch.walk .start (code.instructions.take index) = some course ∧
      sketch.step course entry = some course' ∧
      sketch.walk .start (code.instructions.take (index + 1)) = some course' := by
  obtain ⟨hlt, rfl⟩ := List.getElem?_eq_some_iff.mp hentry
  have hnext := List.take_append_getElem (l := code.instructions) hlt
  have hsplit := List.take_append_drop (index + 1) code.instructions
  rw [← hsplit, walk_append] at h
  obtain ⟨course', hwalk, -⟩ := Option.bind_eq_some_iff.mp h
  have hfront := hwalk
  rw [← hnext, walk_append] at hfront
  obtain ⟨course, hcourse, hstep⟩ := Option.bind_eq_some_iff.mp hfront
  rw [walk_singleton] at hstep
  exact ⟨course, course', hcourse, hstep, hwalk⟩

end Sketch

namespace Code

variable {code : Code} {sketch : Sketch}

/-- A label is found on the instruction that carries it. -/
theorem Resolves.place_eq (h : code.Resolves) (hclosed : code.lastLabel = none) {index : Nat}
    {entry : Labelled} {label : Label} (hentry : code.instructions[index]? = some entry)
    (hcarries : entry.label = some label) : code.labelIndices[label]? = some index := by
  obtain ⟨hlt, rfl⟩ := List.getElem?_eq_some_iff.mp hentry
  have hsplit : code.instructions = code.instructions.take index ++
      code.instructions[index] :: code.instructions.drop (index + 1) := by
    rw [List.getElem_cons_drop, List.take_append_drop]
  have hnodup := h.nodup
  rw [labels, hclosed, Option.toList_none, List.append_nil, hsplit, List.filterMap_append,
    List.filterMap_cons_some hcarries] at hnodup
  have hafter := (List.nodup_cons.mp (List.nodup_append.mp hnodup).2.1).1
  rw [labelIndices_of_last hsplit hcarries hafter hclosed, List.length_take, Nat.min_eq_left hlt.le]

/-- A label that is referred to is found on an instruction. -/
theorem Resolves.exists_place (h : code.Resolves) (hclosed : code.lastLabel = none) {label : Label}
    (hlabel : label ∈ code.inner) :
    ∃ index entry, code.labelIndices[label]? = some index ∧
      code.instructions[index]? = some entry ∧ entry.label = some label := by
  obtain ⟨entry, hmem, hcarries⟩ := List.mem_filterMap.mp (h.inner label hlabel)
  obtain ⟨index, hentry⟩ := List.mem_iff_getElem?.mp hmem
  exact ⟨index, entry, h.place_eq hclosed hentry hcarries, hentry, hcarries⟩

namespace Balanced

/-- There is an outline before each instruction. -/
theorem exists_outline (h : code.Balanced sketch) {index : Nat} {entry : Labelled}
    (hentry : code.instructions[index]? = some entry) :
    ∃ course outline, sketch.walk .start (code.instructions.take index) = some course ∧
      sketch.before? course entry.label = some outline ∧
      sketch.outlineAt? code index = some outline := by
  obtain ⟨seen, hwalks⟩ := h.walks
  obtain ⟨course, course', hcourse, hstep, -⟩ := Sketch.walk_take hwalks hentry
  obtain ⟨outline, behind, hbefore, -⟩ := Sketch.step_eq_some.mp hstep
  refine ⟨course, outline, hcourse, hbefore, ?_⟩
  rw [Sketch.outlineAt?, hcourse, hentry]
  exact hbefore

/-- Nothing stands on the stack before the first instruction. -/
theorem outlineAt_zero (h : code.Balanced sketch) (hsome : 0 < code.instructions.length) :
    sketch.outlineAt? code 0 = some [] := by
  obtain ⟨course, outline, hcourse, hbefore, hknown⟩ :=
    h.exists_outline (List.getElem?_eq_getElem hsome)
  cases hcourse
  rw [hknown, Sketch.outline_of_before hbefore rfl]

/-- What is expected at a label is the outline before the instruction with that label. -/
theorem outlineAt_label (h : code.Balanced sketch) {label : Label} (hlabel : label ∈ code.inner)
    {index : Nat} (hplace : code.labelIndices[label]? = some index) :
    index < code.instructions.length ∧ sketch.outlineAt? code index = sketch.outlines label := by
  obtain ⟨place, entry, hfound, hentry, hcarries⟩ := h.resolves.exists_place h.closed hlabel
  obtain rfl := Option.some.inj (hfound.symm.trans hplace)
  obtain ⟨course, outline, -, hbefore, hknown⟩ := h.exists_outline hentry
  rw [hcarries] at hbefore
  exact ⟨(List.getElem?_eq_some_iff.mp hentry).1,
    hknown.trans (Sketch.outlines_of_before hbefore).symm⟩

/-- Execution does not go on behind the last instruction. -/
theorem next_of_conditional (h : code.Balanced sketch) {index : Nat} {entry : Labelled}
    (hentry : code.instructions[index]? = some entry)
    (hgoes : entry.instruction.isUnconditional = false) :
    ∃ next, code.instructions[index + 1]? = some next := by
  obtain ⟨seen, hwalks⟩ := h.walks
  obtain ⟨course, course', -, hstep, hnext⟩ := Sketch.walk_take hwalks hentry
  obtain ⟨outline, behind, -, -, -, rfl⟩ := Sketch.step_eq_some.mp hstep
  have hlt : index + 1 < code.instructions.length := by
    by_contra hlast
    rw [List.take_of_length_le (Nat.not_lt.mp hlast), hwalks, hgoes] at hnext
    cases hnext
  exact ⟨_, List.getElem?_eq_getElem hlt⟩

/-- **Each instruction of balanced code finds what it takes**, and execution goes on behind it only
where just that is expected which it leaves. -/
theorem goes (h : code.Balanced sketch) {index : Nat} {entry : Labelled} {outline : Outline}
    (hentry : code.instructions[index]? = some entry)
    (houtline : sketch.outlineAt? code index = some outline) :
    ∃ behind, outline.behind? sketch.narrow entry.instruction = some behind ∧
      ∀ target, Frame.GoesTo code.labelIndices index entry.instruction target →
        sketch.outlineAt? code target = some behind := by
  obtain ⟨seen, hwalks⟩ := h.walks
  obtain ⟨course, course', hcourse, hstep, hbehind⟩ := Sketch.walk_take hwalks hentry
  obtain ⟨known, behind, hbefore, hleaves, htargets, rfl⟩ := Sketch.step_eq_some.mp hstep
  obtain rfl : known = outline := by
    rw [Sketch.outlineAt?, hcourse, hentry] at houtline
    exact Option.some.inj (hbefore.symm.trans houtline)
  refine ⟨behind, hleaves, fun target hgoes => ?_⟩
  cases hgoes with
  | jump hlabel hplace =>
      have hinner := mem_inner_of_target (List.mem_of_getElem? hentry) hlabel
      rw [(h.outlineAt_label hinner hplace).2]
      exact htargets _ hlabel
  | fall hfalls =>
      obtain ⟨next, hnext⟩ := h.next_of_conditional hentry hfalls
      obtain ⟨between, found, hbetween, hfound, hknown⟩ := h.exists_outline hnext
      obtain rfl := Option.some.inj (hbehind.symm.trans hbetween)
      rw [hknown, Sketch.outline_of_before hfound (by rw [hfalls]; rfl)]

/-- A range in which exceptions are caught starts with the instruction that carries its label. -/
theorem handler_of_start (h : code.Balanced sketch) {index : Nat} {entry : Labelled} {label : Label}
    (hentry : code.instructions[index]? = some entry) (hlabel : label ∈ sketch.handlersAt entry.label) :
    ∃ range ∈ code.exceptions, ∃ stop, code.labelIndices[range.start]? = some index ∧
      code.labelIndices[range.stop]? = some stop ∧ index < stop ∧ range.handler = label := by
  cases hcarries : entry.label with
  | none =>
      rw [hcarries] at hlabel
      cases hlabel
  | some start =>
      rw [hcarries] at hlabel
      obtain ⟨range, hmem, hhandler⟩ := List.mem_map.mp hlabel
      obtain ⟨hrange, hstart⟩ := List.mem_filter.mp hmem
      obtain rfl : range.start = start := by simpa using hstart
      rw [← h.ranges] at hrange
      have hplace := h.resolves.place_eq h.closed hentry hcarries
      have hstop := mem_labelIndices.mpr (h.resolves.of_range hrange).2.1
      obtain ⟨stop, hstop⟩ := Option.isSome_iff_exists.mp
        (Std.HashMap.mem_iff_isSome_getElem?.mp hstop)
      exact ⟨range, hrange, stop, hplace, hstop, h.forward range hrange _ _ hplace hstop, hhandler⟩

/-- **Execution can come to every instruction of balanced code.** -/
theorem reachable (h : code.Balanced sketch) {index : Nat} (hindex : index < code.instructions.length) :
    code.Reachable index := by
  obtain ⟨seen, hwalks⟩ := h.walks
  -- Past the first `n` instructions, execution can come to the next one unless it does not come from
  -- the one before, and to all labels seen so far.
  have hcome : ∀ n course, sketch.walk .start (code.instructions.take n) = some course →
      n ≤ code.instructions.length →
      (∀ earlier < n, code.Reachable earlier) ∧ (course.outline ≠ none → code.Reachable n) ∧
        ∀ label ∈ course.seen, ∀ place, code.labelIndices[label]? = some place →
          code.Reachable place := by
    intro n
    induction n with
    | zero =>
        intro course hcourse _
        cases hcourse
        exact ⟨nofun, fun _ => .start, nofun⟩
    | succ n ih =>
        intro course hcourse hle
        have hentry : code.instructions[n]? = some code.instructions[n] :=
          List.getElem?_eq_getElem hle
        obtain ⟨before, behind, hbefore, hstep, hbehind⟩ := Sketch.walk_take hwalks hentry
        obtain rfl := Option.some.inj (hbehind.symm.trans hcourse)
        obtain ⟨hearlier, hnext, hseen⟩ := ih before hbefore (by omega)
        obtain ⟨outline, left, hfound, -, -, rfl⟩ := Sketch.step_eq_some.mp hstep
        have hhere : code.Reachable n := by
          cases hcomes : before.outline with
          | some known => exact hnext (by simp [hcomes])
          | none =>
              obtain ⟨label, hlabel, hcarries⟩ := Sketch.seen_of_before hfound hcomes
              exact hseen label hlabel n (h.resolves.place_eq h.closed hentry hcarries)
        refine ⟨fun earlier hlt => ?_, fun hgoes => ?_, fun label hlabel place hplace => ?_⟩
        · rcases Nat.lt_succ_iff_lt_or_eq.mp hlt with hless | rfl
          · exact hearlier earlier hless
          · exact hhere
        · refine hhere.goes hentry (.fall ?_)
          by_contra hends
          simp [hends] at hgoes
        · simp only [List.mem_append] at hlabel
          rcases hlabel with (htarget | hhandler) | hold
          · exact hhere.goes hentry (.jump htarget hplace)
          · obtain ⟨range, hrange, stop, hstart, hstop, hlt, rfl⟩ :=
              h.handler_of_start hentry hhandler
            exact hhere.caught hrange hstart hstop hplace le_rfl hlt
          · exact hseen label hold place hplace
  exact (hcome _ _ (by rw [List.take_length]; exact hwalks) le_rfl).1 index hindex

/-- What comes behind an instruction is found without stumbling. -/
theorem successors_harmless (h : code.Balanced sketch) {index : Nat} {entry : Labelled}
    (hentry : code.instructions[index]? = some entry) :
    FailsOnly Fault.Harmless
      (Frame.successors code.instructions.length code.labelIndices index entry.instruction) := by
  have hmem := List.mem_of_getElem? hentry
  have hplaces : FailsOnly Fault.Harmless
      (entry.instruction.targets.mapM (Frame.placeOf code.labelIndices)) :=
    failsOnly_mapM fun label hlabel =>
      Frame.failsOnly_placeOf (mem_labelIndices.mpr (h.resolves.of_target hmem hlabel))
  unfold Frame.successors
  refine failsOnly_bind_of_yields hplaces fun targets htargets => ?_
  have hinside : ∀ target ∈ targets, target < code.instructions.length := by
    intro target htarget
    obtain ⟨label, hlabel, hplace⟩ := (Frame.mem_of_mapM_placeOf htargets target).mp htarget
    exact (h.outlineAt_label (mem_inner_of_target hmem hlabel) hplace).1
  cases hgoes : entry.instruction.isUnconditional with
  | true =>
      have hnone : targets.find? (fun target => code.instructions.length ≤ target) = none := by
        simpa using hinside
      simp only [Bool.not_true, Bool.false_and, if_true, hnone]
      exact failsOnly_pure _
  | false =>
      obtain ⟨next, hnext⟩ := h.next_of_conditional hentry hgoes
      have hlt := (List.getElem?_eq_some_iff.mp hnext).1
      have hnone : (targets ++ [index + 1]).find?
          (fun target => code.instructions.length ≤ target) = none := by
        simp only [List.find?_eq_none, List.mem_append, List.mem_singleton, decide_eq_true_eq, not_le]
        rintro target (htarget | rfl)
        · exact hinside target htarget
        · exact hlt
      have hinner : decide (code.instructions.length ≤ index + 1) = false := by
        simpa using hlt
      simp only [Bool.not_false, Bool.true_and, hinner, hnone, Bool.false_eq_true, if_false]
      exact failsOnly_pure _

end Balanced

end Code

namespace Frame

variable {σ : Type} {supers : SuperClasses σ} {cls : ClassName} {method : Method} {code : Code}
  {sketch : Sketch} {maxLocals : UInt16}

/-- The outlines of balanced code fit what an analysis works on. -/
theorem levels_of_balanced (h : code.Balanced sketch)
    (hslots : ∀ entry ∈ code.instructions, Encode.slotsUsed entry.instruction ≤ maxLocals.toNat)
    {handlers : List Handler} (hhandlers : handlersOf code.labelIndices code.exceptions = .ok handlers) :
    (subjectOf cls code handlers).Levels maxLocals.toNat sketch.narrow (sketch.outlineAt? code) where
  slotsUsed instruction hmem := by
    obtain ⟨entry, hentry, rfl⟩ := List.mem_map.mp (List.mem_toArray.mp hmem)
    exact hslots entry hentry
  steady index instruction hcode := by
    obtain ⟨entry, hentry, rfl⟩ := code_subjectOf hcode
    have hsize : (subjectOf cls code handlers).code.size = code.instructions.length := by
      simp [subjectOf]
    rw [hsize]
    exact h.successors_harmless hentry
  goes index instruction outline hcode houtline := by
    obtain ⟨entry, hentry, rfl⟩ := code_subjectOf hcode
    exact h.goes hentry houtline
  handled handler hmem := by
    obtain ⟨range, hrange, -, -, hplace, -⟩ := exists_left_of_forall₂ (handlersOf_spec hhandlers) hmem
    rw [(h.outlineAt_label (Code.mem_of_range hrange).2.2 hplace).2]
    exact h.handlers range hrange
  caught handler hmem := by
    obtain ⟨range, -, -, -, -, hcaught⟩ := exists_left_of_forall₂ (handlersOf_spec hhandlers) hmem
    rw [hcaught]
    rfl

/-- The frame before the first instruction is as an empty outline says. -/
theorem initial_fits {isStatic narrow : Bool} {name : MethodName} {type : MethodType} {first : Frame}
    (hnarrow : narrow = true → ∀ parameter ∈ type.parameters, (VType.ofType parameter).isWide = false)
    (h : initial cls isStatic name type maxLocals = .ok first) :
    first.Fits maxLocals.toNat narrow [] := by
  unfold initial at h
  generalize hreceiver : (if isStatic then []
    else if name = MethodName.constructor && cls != ClassName.javaObject then
      [.uninitializedThis]
    else [.object cls] : List VType) = receiver at h
  have hself : ∀ type ∈ receiver, type.isWide = false := by
    rw [← hreceiver]
    split
    next => simp
    next => split <;> simp [VType.isWide]
  dsimp only at h
  split at h
  next => cases h
  next hroom =>
    cases h
    refine ⟨?_, fun hyes found hfound => ?_, .nil⟩
    · rw [List.length_append, List.length_replicate]
      omega
    · rcases List.mem_append.mp hfound with hin | hin
      · rcases List.mem_append.mp hin with hin | hin
        · exact hself found hin
        · obtain ⟨parameter, hmem, hslot⟩ := List.mem_flatMap.mp hin
          rcases mem_slots hslot with rfl | rfl
          · exact hnarrow hyes parameter hmem
          · rfl
      · rw [List.eq_of_mem_replicate hin]
        rfl

/-- **The analysis of balanced code does not stumble**, if there are as many local variables as the code
uses, and all parameters take one slot where the sketch says so. -/
theorem analyze_harmless (h : code.Balanced sketch) (hsupers : supers.Harmless)
    (hslots : ∀ entry ∈ code.instructions, Encode.slotsUsed entry.instruction ≤ maxLocals.toNat)
    (hnarrow : sketch.narrow = true → ∀ type, MethodType.parse method.descriptor = .ok type →
      ∀ parameter ∈ type.parameters, (VType.ofType parameter).isWide = false) :
    FailsOnly Fault.Harmless (analyze supers cls method code maxLocals) := by
  have hplaces {label : Label} (hlabel : label ∈ code.labels) : label ∈ code.labelIndices :=
    Code.mem_labelIndices.mpr hlabel
  have hhandlers : FailsOnly Fault.Harmless (handlersOf code.labelIndices code.exceptions) := by
    refine failsOnly_mapM fun range hrange => ?_
    obtain ⟨hstart, hstop, hhandler⟩ := h.resolves.of_range hrange
    refine failsOnly_bind (failsOnly_placeOf (hplaces hstart)) fun start => ?_
    refine failsOnly_bind (failsOnly_placeOf (hplaces hstop)) fun stop => ?_
    exact failsOnly_bind (failsOnly_placeOf (hplaces hhandler)) fun handler => failsOnly_pure _
  have hinitial (type : MethodType) : FailsOnly Fault.Harmless
      (initial cls method.access.isStatic method.name type maxLocals) := by
    unfold initial
    grind [Fault.Harmless]
  have hconclude (flow : Flow) : FailsOnly Fault.Harmless (conclude flow) := by
    unfold conclude
    grind [Fault.Harmless]
  unfold analyze
  refine failsOnly_ite (failsOnly_lift_task (failsOnly_fail (by rintro ⟨⟩))) ?_
  have hmeets : Meets (liftM (handlersOf code.labelIndices code.exceptions) : Task σ (List Handler))
      fun handlers => (subjectOf cls code handlers).Levels maxLocals.toNat sketch.narrow
        (sketch.outlineAt? code) :=
    meets_lift hhandlers fun handlers hrun => levels_of_balanced h hslots hrun
  have hparse : Meets (liftM (MethodType.parse method.descriptor) : Task σ MethodType)
      fun type => MethodType.parse method.descriptor = .ok type :=
    meets_lift (MethodType.harmless_parse _) fun _ hrun => hrun
  refine (hmeets.bind (R := fun _ => True) fun handlers hlevels =>
    hparse.bind fun type htype => ?_).fails
  have hfirst : Meets (liftM (initial cls method.access.isStatic method.name type maxLocals) :
      Task σ Frame) (Frame.Fits maxLocals.toNat sketch.narrow []) :=
    meets_lift (hinitial type) fun first hrun =>
      initial_fits (fun hyes => hnarrow hyes type htype) hrun
  refine hfirst.bind fun first hfits => ?_
  refine (settle_meets hsupers hlevels iterationLimit ?_).bind fun flow _ =>
    meets_lift (hconclude flow) fun _ _ => trivial
  intro index frame hframe
  rw [Array.getElem?_setIfInBounds] at hframe
  split at hframe
  next heq =>
    split at hframe
    next hsize =>
      cases hframe
      subst heq
      rw [Array.size_replicate, List.size_toArray, List.length_map] at hsize
      exact ⟨[], h.outlineAt_zero hsize, hfits⟩
    next => cases hframe
  next => cases Array.eq_of_mem_replicate (Array.mem_of_getElem? hframe)

end Frame

end Downlevel
