import Mathlib.Data.List.Basic
import Downlevel.Proofs.Covering
import Downlevel.Proofs.Frames

/-!
# What an analysis finds is consistent

An analysis looks at instructions that wait until none does.  Whenever the frame before an instruction
changes, the instruction waits to be looked at again.  So at any time an instruction that was reached
waits, or it was looked at with the frame that it has now, and whatever came of that arrived where it
flows to.  What arrived there once stays covered, as frames are only replaced by frames that cover
them.  In the end nothing waits, and all frames fit together.

What it means that one frame is covered by another one is left open as far as possible.

* `Frame.GoesTo` — where execution can go on behind an instruction;
* `Frame.Merges` — merging covers, in some sense, what is merged;
* `Frame.Done` — what came of looking at an instruction has arrived;
* `Frame.visit_grows` — looking at an instruction keeps what has arrived, and makes that so for the
  instruction;
* `Frame.analyze_settled` — so it is for all instructions in the end;
* `Frame.analyze_consistent` — if classes have joins, all that flows to a frame is absorbed by it.
-/

namespace Downlevel

namespace Frame

open Downlevel.Task

/-! ## Where execution goes on -/

/-- Leaving out repetitions, from an item on, keeps what a list has. -/
theorem mem_eraseRepsBy_loop {index first : Nat} {rest done : List Nat} :
    index ∈ List.eraseRepsBy.loop (fun a b => a == b) first rest done ↔
      index ∈ done ∨ index = first ∨ index ∈ rest := by
  induction rest generalizing first done with
  | nil => simp [List.eraseRepsBy.loop, or_comm]
  | cons next rest ih =>
      unfold List.eraseRepsBy.loop
      split
      next heq =>
        have hsame : first = next := beq_iff_eq.mp heq
        rw [ih, hsame, List.mem_cons]
        tauto
      next =>
        rw [ih, List.mem_cons, List.mem_cons]
        tauto

/-- A sorted set has the members of the list that it is made of. -/
theorem mem_sortedSet {index : Nat} {indices : List Nat} :
    index ∈ sortedSet indices ↔ index ∈ indices := by
  have hmem : ∀ list : List Nat, index ∈ list.eraseReps ↔ index ∈ list := by
    intro list
    cases list with
    | nil => rfl
    | cons first rest =>
        refine mem_eraseRepsBy_loop.trans ?_
        simp
  rw [sortedSet, hmem, List.mem_mergeSort]

/-- Where execution can go on behind the instruction at an index: at its targets, and behind it unless
it is one that never falls through. -/
inductive GoesTo (places : Std.HashMap Label Nat) (index : Nat) (instruction : Instruction) :
    Nat → Prop where
  | jump {label : Label} {target : Nat} (mem : label ∈ instruction.targets)
      (place : places[label]? = some target) : GoesTo places index instruction target
  | fall (h : instruction.isUnconditional = false) : GoesTo places index instruction (index + 1)

/-- The places of labels are those that the table of places tells. -/
theorem mem_of_mapM_placeOf {places : Std.HashMap Label Nat} {labels : List Label}
    {found : List Nat} (h : labels.mapM (placeOf places) = .ok found) (target : Nat) :
    target ∈ found ↔ ∃ label ∈ labels, places[label]? = some target := by
  have hall := mapM_eq_ok_forall₂ h
  constructor
  · intro hmem
    obtain ⟨label, hlabel, hplace⟩ := exists_left_of_forall₂ hall hmem
    exact ⟨label, hlabel, orFail_eq_ok.mp hplace⟩
  · rintro ⟨label, hlabel, hplace⟩
    obtain ⟨other, hother, hplace'⟩ := exists_right_of_forall₂ hall hlabel
    cases hplace.symm.trans (orFail_eq_ok.mp hplace')
    exact hother

/-- **The successors of an instruction** are where execution can go on behind it. -/
theorem mem_successors {length index : Nat} {places : Std.HashMap Label Nat}
    {instruction : Instruction} {targets : List Nat}
    (h : successors length places index instruction = .ok targets) (target : Nat) :
    target ∈ targets ↔ GoesTo places index instruction target := by
  obtain ⟨jumps, hjumps, h⟩ := bind_eq_ok.mp h
  have hmem := mem_of_mapM_placeOf hjumps target
  split at h
  next => exact absurd h fail_ne_ok
  next =>
    dsimp only at h
    split at h
    next => exact absurd h fail_ne_ok
    next =>
      cases pure_eq_ok.mp h
      rw [mem_sortedSet]
      cases hflag : instruction.isUnconditional with
      | true =>
          rw [if_pos rfl, hmem]
          constructor
          · rintro ⟨label, hlabel, hplace⟩
            exact .jump hlabel hplace
          · intro hgoes
            cases hgoes with
            | jump hlabel hplace => exact ⟨_, hlabel, hplace⟩
            | fall hfalls => cases hflag.symm.trans hfalls
      | false =>
          rw [if_neg Bool.false_ne_true, List.mem_append, hmem, List.mem_singleton]
          constructor
          · rintro (⟨label, hlabel, hplace⟩ | rfl)
            · exact .jump hlabel hplace
            · exact .fall hflag
          · intro hgoes
            cases hgoes with
            | jump hlabel hplace => exact .inl ⟨_, hlabel, hplace⟩
            | fall => exact .inr rfl

/-- What flows from an instruction to another one: the frame behind it, or, from a subroutine call to
the instruction that it returns to, the frame before it. -/
def flowing (instruction : Instruction) (index : Nat) (before behind : Frame) (target : Nat) :
    Frame :=
  match instruction with
  | .jsr _ => if target = index + 1 then before else behind
  | _ => behind

/-! ## What has arrived -/

variable {σ : Type} {supers : SuperClasses σ} {R : Frame → Frame → Prop} {P : Nat → Prop}

/-- Merging covers, in the sense of `R`, what was there and what came in. -/
structure Merges (supers : SuperClasses σ) (R : Frame → Frame → Prop) : Prop where
  refl : ∀ frame, R frame frame
  trans : ∀ {highest above frame}, R highest above → R above frame → R highest frame
  merge : ∀ {existing incoming result state state'},
    merge supers existing incoming state = (.ok result, state') →
      R (result.getD existing) existing ∧ R (result.getD existing) incoming

/-- If classes have joins, merging covers what was merged. -/
theorem merges_covers {join : ClassName → ClassName → ClassName} (hjoins : supers.Joins join) :
    Merges supers (Covers join) where
  refl := .refl
  trans h hframe := h.trans hjoins hframe
  merge h := covers_of_merge hjoins h

/-- That there is a frame at all is a sense in which merging covers what was merged. -/
theorem merges_any (supers : SuperClasses σ) : Merges supers fun _ _ => True where
  refl _ := trivial
  trans _ _ := trivial
  merge _ := ⟨trivial, trivial⟩

/-- A frame has arrived at an instruction: the frame there covers it. -/
def Arrived (R : Frame → Frame → Prop) (frames : Array (Option Frame)) (target : Nat)
    (incoming : Frame) : Prop :=
  ∃ frame, frames[target]? = some (some frame) ∧ R frame incoming

/-- What came of looking at an instruction with a frame has arrived where it flows to, and the stack
was noted to be large enough. -/
structure Done (R : Frame → Frame → Prop) (subject : Subject) (frames : Array (Option Frame))
    (maxStack index : Nat) (instruction : Instruction) (frame behind : Frame) : Prop where
  code : subject.code[index]? = some instruction
  after : frame.after subject.cls subject.code index instruction = .ok behind
  succeeds : ∃ targets, successors subject.code.size subject.places index instruction = .ok targets
  goes : ∀ target, GoesTo subject.places index instruction target →
    Arrived R frames target (flowing instruction index frame behind target)
  handled : ∀ handler ∈ subject.handlers, handler.start ≤ index → index < handler.stop →
    Arrived R frames handler.handler ⟨frame.locals, [handler.caught]⟩ ∧
      Arrived R frames handler.handler ⟨behind.locals, [handler.caught]⟩
  before_le : frame.stackSize ≤ maxStack
  behind_le : behind.stackSize ≤ maxStack

namespace Flow

variable {flow flow' between : Flow}

/-- An instruction is among those to look at. -/
def Waits (flow : Flow) (index : Nat) : Prop :=
  index ∈ flow.queue ∨ index ∈ flow.later

/-- Only instructions that are among those to look at are marked as waiting. -/
def Marked (flow : Flow) : Prop :=
  ∀ index, flow.waiting[index]? = some true → flow.Waits index

/-- **Frames flow on**: what had arrived stays arrived, and where a frame changed, which may be at
indices with the property `P` only, the instruction waits. -/
structure Grows (R : Frame → Frame → Prop) (P : Nat → Prop) (flow flow' : Flow) : Prop where
  arrived : ∀ target incoming, Arrived R flow.frames target incoming →
    Arrived R flow'.frames target incoming
  changed : ∀ index frame, flow'.frames[index]? = some (some frame) →
    flow.frames[index]? = some (some frame) ∨ flow'.Waits index ∧ P index
  waits : ∀ index, flow.Waits index → flow'.Waits index
  marked : flow.Marked → flow'.Marked
  maxStack : flow.maxStack ≤ flow'.maxStack

/-- Nothing flows. -/
theorem Grows.refl (flow : Flow) : Grows R P flow flow where
  arrived _ _ h := h
  changed _ _ h := .inl h
  waits _ h := h
  marked h := h
  maxStack := le_refl _

/-- Frames flow on, and then on. -/
theorem Grows.trans (h : Grows R P flow between) (hrest : Grows R P between flow') :
    Grows R P flow flow' where
  arrived target incoming harrived :=
    hrest.arrived target incoming (h.arrived target incoming harrived)
  changed index frame hframe := by
    rcases hrest.changed index frame hframe with hbefore | hwaits
    · rcases h.changed index frame hbefore with hfirst | ⟨hwaits, hindex⟩
      · exact .inl hfirst
      · exact .inr ⟨hrest.waits index hwaits, hindex⟩
    · exact .inr hwaits
  waits index hwaits := hrest.waits index (h.waits index hwaits)
  marked hmarked := hrest.marked (h.marked hmarked)
  maxStack := h.maxStack.trans hrest.maxStack

/-- Noting a size of the stack changes no frame. -/
theorem grows_note (flow : Flow) (size : Nat) : Grows R P flow (flow.note size) where
  arrived _ _ h := h
  changed _ _ h := .inl h
  waits _ h := h
  marked h := h
  maxStack := le_max_left _ _

end Flow

/-- What had arrived stays done while frames flow on. -/
theorem Done.mono {subject : Subject} {flow flow' : Flow} {index : Nat} {instruction : Instruction}
    {frame behind : Frame} (hgrows : flow.Grows R P flow')
    (h : Done R subject flow.frames flow.maxStack index instruction frame behind) :
    Done R subject flow'.frames flow'.maxStack index instruction frame behind where
  code := h.code
  after := h.after
  succeeds := h.succeeds
  goes target hgoes := hgrows.arrived _ _ (h.goes target hgoes)
  handled handler hmem hstart hstop := by
    obtain ⟨hbefore, hbehind⟩ := h.handled handler hmem hstart hstop
    exact ⟨hgrows.arrived _ _ hbefore, hgrows.arrived _ _ hbehind⟩
  before_le := h.before_le.trans hgrows.maxStack
  behind_le := h.behind_le.trans hgrows.maxStack

/-- A larger stack is large enough, too. -/
theorem Done.enlarge {subject : Subject} {frames : Array (Option Frame)} {maxStack larger : Nat}
    {index : Nat} {instruction : Instruction} {frame behind : Frame} (hle : maxStack ≤ larger)
    (h : Done R subject frames maxStack index instruction frame behind) :
    Done R subject frames larger index instruction frame behind :=
  { h with before_le := h.before_le.trans hle, behind_le := h.behind_le.trans hle }

/-! ## One step -/

section Step

variable {flow flow' : Flow} {state state' : σ}

/-- Behind setting its frame an instruction waits, and so does every other one that did. -/
theorem Flow.waits_update (hmarked : flow.Marked) (target : Nat) (frame : Frame) :
    (flow.update target frame).Waits target ∧
      (∀ index, flow.Waits index → (flow.update target frame).Waits index) ∧
      (flow.update target frame).Marked := by
  unfold Flow.update
  dsimp only
  split
  next hwaiting =>
    have htarget : flow.waiting[target]? = some true := by
      cases hflag : flow.waiting[target]? with
      | none => simp [hflag] at hwaiting
      | some flag => simpa [hflag] using hwaiting
    exact ⟨hmarked target htarget, fun _ hwaits => hwaits, hmarked⟩
  next =>
    refine ⟨.inr List.mem_cons_self, fun index hwaits => ?_, fun index hflag => ?_⟩
    · exact hwaits.imp_right (List.mem_cons_of_mem target)
    · by_cases hindex : target = index
      · exact hindex ▸ .inr List.mem_cons_self
      · rw [Array.getElem?_setIfInBounds_ne hindex] at hflag
        exact (hmarked index hflag).imp_right (List.mem_cons_of_mem target)

/-- Setting the frame before an instruction to one that covers what was there. -/
theorem update_grows (hmerges : Merges supers R) {target : Nat} {frame : Frame}
    (hsize : target < flow.frames.size) (htarget : P target)
    (hcovers : ∀ old, flow.frames[target]? = some (some old) → R frame old)
    (hmarked : flow.Marked) :
    flow.Grows R P (flow.update target frame) := by
  obtain ⟨hwaits, hkept, hmarked'⟩ := Flow.waits_update hmarked target frame
  refine ⟨fun index incoming harrived => ?_, fun index found hfound => ?_, hkept,
    fun _ => hmarked', ?_⟩
  · obtain ⟨old, hold, hR⟩ := harrived
    by_cases hindex : target = index
    · subst hindex
      refine ⟨frame, ?_, hmerges.trans (hcovers old hold) hR⟩
      rw [Flow.frames_update, Array.getElem?_setIfInBounds_self_of_lt hsize]
    · refine ⟨old, ?_, hR⟩
      rw [Flow.frames_update, Array.getElem?_setIfInBounds_ne hindex, hold]
  · by_cases hindex : target = index
    · exact hindex ▸ .inr ⟨hwaits, htarget⟩
    · rw [Flow.frames_update, Array.getElem?_setIfInBounds_ne hindex] at hfound
      exact .inl hfound
  · unfold Flow.update
    dsimp only
    split
    next => exact le_refl _
    next => exact le_refl _

/-- **A frame that flows to an instruction arrives there.** -/
theorem propagate_grows (hmerges : Merges supers R) {target : Nat} {incoming : Frame}
    (htarget : P target) (hmarked : flow.Marked)
    (h : propagate supers flow target incoming state = (.ok flow', state')) :
    flow.Grows R P flow' ∧ Arrived R flow'.frames target incoming := by
  have harrive : ∀ frame, target < flow.frames.size → R frame incoming →
      Arrived R (flow.update target frame).frames target incoming := by
    intro frame hsize hR
    refine ⟨frame, ?_, hR⟩
    rw [Flow.frames_update, Array.getElem?_setIfInBounds_self_of_lt hsize]
  unfold propagate at h
  cases hframe : flow.frames[target]? with
  | none =>
      simp only [hframe] at h
      exact absurd (task_lift_eq_ok.mp h).1 fail_ne_ok
  | some known =>
      have hsize : target < flow.frames.size := (Array.getElem?_eq_some_iff.mp hframe).1
      cases known with
      | none =>
          simp only [hframe] at h
          obtain ⟨rfl, -⟩ := task_pure_eq_ok.mp h
          refine ⟨update_grows hmerges hsize htarget ?_ hmarked, harrive _ hsize (hmerges.refl _)⟩
          intro old hold
          cases hframe.symm.trans hold
      | some existing =>
          simp only [hframe] at h
          obtain ⟨result, between, hmerge, hrest⟩ := task_bind_eq_ok.mp h
          obtain ⟨hexisting, hincoming⟩ := hmerges.merge (task_within_eq_ok.mp hmerge)
          cases result with
          | none =>
              obtain ⟨rfl, -⟩ := task_pure_eq_ok.mp hrest
              exact ⟨.refl flow, existing, hframe, hincoming⟩
          | some merged =>
              obtain ⟨rfl, -⟩ := task_pure_eq_ok.mp hrest
              refine ⟨update_grows hmerges hsize htarget ?_ hmarked, harrive _ hsize hincoming⟩
              intro old hold
              cases hframe.symm.trans hold
              exact hexisting

/-- Frames that flow to several instructions arrive there. -/
theorem propagateAll_grows (hmerges : Merges supers R) {choose : Nat → Frame} {targets : List Nat}
    (htargets : ∀ target ∈ targets, P target) (hmarked : flow.Marked)
    (h : propagateAll supers choose targets flow state = (.ok flow', state')) :
    flow.Grows R P flow' ∧ ∀ target ∈ targets, Arrived R flow'.frames target (choose target) := by
  induction targets generalizing flow state with
  | nil =>
      obtain ⟨rfl, -⟩ := task_pure_eq_ok.mp h
      exact ⟨.refl flow, fun target hmem => absurd hmem List.not_mem_nil⟩
  | cons target rest ih =>
      obtain ⟨hhere, hothers⟩ := List.forall_mem_cons.mp htargets
      obtain ⟨between, _, hfirst, hrest⟩ := task_bind_eq_ok.mp h
      obtain ⟨hgrows, harrived⟩ := propagate_grows hmerges hhere hmarked hfirst
      obtain ⟨hgrows', harrived'⟩ := ih hothers (hgrows.marked hmarked) hrest
      exact ⟨hgrows.trans hgrows',
        List.forall_mem_cons.mpr ⟨hgrows'.arrived _ _ harrived, harrived'⟩⟩

/-- Local variables that flow into handlers arrive there. -/
theorem propagateHandlers_grows (hmerges : Merges supers R) {index : Nat} {before behind : Frame}
    {handlers : List Handler}
    (hhandlers : ∀ handler ∈ handlers, handler.start ≤ index → index < handler.stop →
      P handler.handler) (hmarked : flow.Marked)
    (h : propagateHandlers supers index before behind handlers flow state = (.ok flow', state')) :
    flow.Grows R P flow' ∧ ∀ handler ∈ handlers, handler.start ≤ index → index < handler.stop →
      Arrived R flow'.frames handler.handler ⟨before.locals, [handler.caught]⟩ ∧
        Arrived R flow'.frames handler.handler ⟨behind.locals, [handler.caught]⟩ := by
  induction handlers generalizing flow state with
  | nil =>
      obtain ⟨rfl, -⟩ := task_pure_eq_ok.mp h
      exact ⟨.refl flow, fun handler hmem => absurd hmem List.not_mem_nil⟩
  | cons handler rest ih =>
      obtain ⟨hhere, hothers⟩ := List.forall_mem_cons.mp hhandlers
      unfold propagateHandlers at h
      split at h
      next hrange =>
        simp only [Bool.and_eq_true, decide_eq_true_eq] at hrange
        have hplace := hhere hrange.1 hrange.2
        have hnoted : (flow.note 1).Marked := hmarked
        obtain ⟨first, _, hfirst, h⟩ := task_bind_eq_ok.mp h
        obtain ⟨second, _, hsecond, h⟩ := task_bind_eq_ok.mp h
        obtain ⟨hgrows, harrived⟩ := propagate_grows hmerges hplace hnoted hfirst
        have hmarked' := hgrows.marked hnoted
        obtain ⟨hgrows', harrived'⟩ := propagate_grows hmerges hplace hmarked' hsecond
        obtain ⟨hrest, hothersArrived⟩ := ih hothers (hgrows'.marked hmarked') h
        refine ⟨((Flow.grows_note flow 1).trans hgrows).trans (hgrows'.trans hrest),
          List.forall_mem_cons.mpr ⟨fun _ _ => ?_, hothersArrived⟩⟩
        exact ⟨hrest.arrived _ _ (hgrows'.arrived _ _ harrived), hrest.arrived _ _ harrived'⟩
      next hrange =>
        obtain ⟨hgrows, harrived⟩ := ih hothers hmarked h
        refine ⟨hgrows, List.forall_mem_cons.mpr ⟨fun hstart hstop => ?_, harrived⟩⟩
        exact absurd (by simp [hstart, hstop]) hrange

end Step

/-! ## The whole run -/

/-- Indices with the property `P` lead to such indices only. -/
structure Subject.Keeps (subject : Subject) (P : Nat → Prop) : Prop where
  goes : ∀ {index instruction target}, P index → subject.code[index]? = some instruction →
    GoesTo subject.places index instruction target → P target
  handled : ∀ {index}, P index → index < subject.code.size → ∀ handler ∈ subject.handlers,
    handler.start ≤ index → index < handler.stop → P handler.handler

section Run

variable {flow flow' between : Flow} {state state' : σ} {subject : Subject}

/-- **Looking at an instruction** lets what comes of it arrive where it flows to. -/
theorem visit_grows (hmerges : Merges supers R) (hkeeps : subject.Keeps P) {index : Nat}
    (hreached : ∀ frame, flow.frames[index]? = some (some frame) → P index)
    (hmarked : flow.Marked)
    (h : visit supers subject index flow state = (.ok flow', state')) :
    flow.Grows R P flow' ∧ ∃ frame instruction behind,
      flow.frames[index]? = some (some frame) ∧
      Done R subject flow'.frames flow'.maxStack index instruction frame behind := by
  unfold visit at h
  match hframe : flow.frames[index]?, hcode : subject.code[index]? with
  | some (some frame), some instruction =>
      have hindex := hreached frame hframe
      simp only [hframe, hcode] at h
      obtain ⟨behind, _, hbehind, h⟩ := task_bind_eq_ok.mp h
      obtain ⟨targets, _, htargets, h⟩ := task_bind_eq_ok.mp h
      obtain ⟨between, _, hall, h⟩ := task_bind_eq_ok.mp h
      have hmem := mem_successors (task_lift_eq_ok.mp htargets).1
      have hgoes : ∀ target ∈ targets, P target :=
        fun target htarget => hkeeps.goes hindex hcode ((hmem target).mp htarget)
      have hhandled := hkeeps.handled hindex (Array.getElem?_eq_some_iff.mp hcode).1
      let noted := (flow.note frame.stackSize).note behind.stackSize
      have hnoted : flow.Grows R P noted :=
        (Flow.grows_note flow _).trans (Flow.grows_note _ _)
      obtain ⟨hgrows, harrived⟩ :=
        propagateAll_grows hmerges hgoes (hnoted.marked hmarked) hall
      have hmarked' := hgrows.marked (hnoted.marked hmarked)
      obtain ⟨hgrows', hhandlers⟩ := propagateHandlers_grows hmerges hhandled hmarked' h
      have hmax := hgrows.maxStack.trans hgrows'.maxStack
      refine ⟨hnoted.trans (hgrows.trans hgrows'), frame, instruction, behind, rfl, hcode,
        within_eq_ok.mp (task_lift_eq_ok.mp hbehind).1, ⟨targets, (task_lift_eq_ok.mp htargets).1⟩,
        fun target hgoesTo => ?_, hhandlers, ?_, ?_⟩
      · exact hgrows'.arrived _ _ (harrived target ((hmem target).mpr hgoesTo))
      · exact ((le_max_right _ _).trans (le_max_left _ _)).trans hmax
      · exact (le_max_right _ _).trans hmax
  | some (some _), none | some none, _ | none, _ =>
      simp only [hframe, hcode] at h
      exact absurd (task_lift_eq_ok.mp h).1 fail_ne_ok

/-- **What is known while an analysis runs**: the instructions that were reached are among those with
the property `P`, and each waits, or what came of it has arrived. -/
structure Flow.Settled (R : Frame → Frame → Prop) (P : Nat → Prop) (subject : Subject)
    (flow : Flow) : Prop where
  marked : flow.Marked
  reached : ∀ index frame, flow.frames[index]? = some (some frame) → P index
  settled : ∀ index frame, flow.frames[index]? = some (some frame) → flow.Waits index ∨
    ∃ instruction behind,
      Done R subject flow.frames flow.maxStack index instruction frame behind

/-- Taking the next instruction to look at leaves the others waiting. -/
theorem Flow.waits_next {index : Nat} (h : flow.next = (some index, flow')) :
    (flow.Waits index ∧ ∀ other, flow.Waits other → other = index ∨ flow'.Waits other) ∧
      flow'.maxStack = flow.maxStack ∧ (flow.Marked → flow'.Marked) := by
  have hmarked : ∀ queue later, (∀ other, flow.Waits other → other = index ∨
      other ∈ queue ∨ other ∈ later) → flow.Marked → Flow.Marked
        { flow with queue, later, waiting := flow.waiting.setIfInBounds index false } := by
    intro queue later hrest hmarked other hflag
    by_cases hother : index = other
    · subst hother
      rw [Array.getElem?_setIfInBounds_self] at hflag
      split at hflag <;> cases hflag
    · rw [Array.getElem?_setIfInBounds_ne hother] at hflag
      exact (hrest other (hmarked other hflag)).resolve_left (Ne.symm hother)
  unfold Flow.next at h
  split at h
  next first rest hqueue =>
    cases h
    have hrest : ∀ other, flow.Waits other → other = index ∨ other ∈ rest ∨ other ∈ flow.later := by
      intro other hwaits
      rw [Flow.Waits, hqueue, List.mem_cons, or_assoc] at hwaits
      exact hwaits
    refine ⟨⟨?_, hrest⟩, rfl, hmarked rest flow.later hrest⟩
    rw [Flow.Waits, hqueue]
    exact .inl List.mem_cons_self
  next hqueue =>
    split at h
    next first rest hlater =>
      cases h
      have hmem : ∀ other, other ∈ flow.later ↔ other ∈ index :: rest := by
        intro other
        rw [← List.mem_reverse, hlater]
      have hrest : ∀ other, flow.Waits other → other = index ∨ other ∈ rest ∨ other ∈ [] := by
        intro other hwaits
        rw [Flow.Waits, hqueue, hmem, List.mem_cons] at hwaits
        simpa using hwaits
      refine ⟨⟨?_, hrest⟩, rfl, hmarked rest [] hrest⟩
      rw [Flow.Waits, hmem]
      exact .inr List.mem_cons_self
    next => cases h

/-- If there is no instruction to look at, none waits. -/
theorem Flow.not_waits_of_next (h : flow.next = (none, flow')) (index : Nat) :
    flow' = flow ∧ ¬ flow.Waits index := by
  unfold Flow.next at h
  split at h
  next => cases h
  next hqueue =>
    split at h
    next => cases h
    next hlater =>
      cases h
      refine ⟨rfl, ?_⟩
      rw [Flow.Waits, hqueue, List.reverse_eq_nil_iff.mp hlater]
      simp

/-- Looking at the next instruction keeps what is known. -/
theorem settled_step (hmerges : Merges supers R) (hkeeps : subject.Keeps P) {index : Nat}
    {next : Flow} (hsettled : flow.Settled R P subject) (hnext : flow.next = (some index, next))
    (h : visit supers subject index next state = (.ok flow', state')) :
    flow'.Settled R P subject ∧
      ∀ target incoming, Arrived R flow.frames target incoming →
        Arrived R flow'.frames target incoming := by
  obtain ⟨⟨_, hothers⟩, hmax, hmarked⟩ := Flow.waits_next hnext
  have hframes := Flow.frames_next hnext
  have hmarked' := hmarked hsettled.marked
  have hreached : ∀ frame, next.frames[index]? = some (some frame) → P index :=
    fun frame hframe => hsettled.reached index frame (hframes ▸ hframe)
  obtain ⟨hgrows, frame, instruction, behind, hframe, hdone⟩ :=
    visit_grows hmerges hkeeps hreached hmarked' h
  refine ⟨⟨hgrows.marked hmarked', fun other found hfound => ?_, fun other found hfound => ?_⟩,
    fun target incoming harrived => ?_⟩
  · rcases hgrows.changed other found hfound with hbefore | ⟨_, hother⟩
    · exact hsettled.reached other found (hframes ▸ hbefore)
    · exact hother
  · rcases hgrows.changed other found hfound with hbefore | ⟨hwaits, _⟩
    · by_cases hsame : other = index
      · subst hsame
        cases hframe.symm.trans hbefore
        exact .inr ⟨instruction, behind, hdone⟩
      · rw [hframes] at hbefore
        rcases hsettled.settled other found hbefore with hwaits | ⟨instruction, behind, hold⟩
        · exact .inl (hgrows.waits other ((hothers other hwaits).resolve_left hsame))
        · rw [← hframes, ← hmax] at hold
          exact .inr ⟨instruction, behind, hold.mono hgrows⟩
    · exact .inl hwaits
  · rw [← hframes] at harrived
    exact hgrows.arrived target incoming harrived

/-- Once there is no instruction to look at, all are done, and what arrived has arrived. -/
theorem settled_end (hsettled : flow.Settled R P subject) (hnext : flow.next = (none, flow')) :
    (∀ index frame, flow'.frames[index]? = some (some frame) → P index ∧
      ∃ instruction behind,
        Done R subject flow'.frames flow'.maxStack index instruction frame behind) ∧
    ∀ target incoming, Arrived R flow.frames target incoming →
      Arrived R flow'.frames target incoming := by
  have hidle := Flow.not_waits_of_next hnext
  obtain rfl := (hidle 0).1
  exact ⟨fun index frame hframe => ⟨hsettled.reached index frame hframe,
    (hsettled.settled index frame hframe).resolve_left (hidle index).2⟩, fun _ _ harrived => harrived⟩

/-- **Looking at instructions until none waits** leaves all of them done. -/
theorem settle_done (hmerges : Merges supers R) (hkeeps : subject.Keeps P) {remaining : Nat}
    (hsettled : flow.Settled R P subject)
    (h : settle supers subject remaining flow state = (.ok flow', state')) :
    (∀ index frame, flow'.frames[index]? = some (some frame) → P index ∧
      ∃ instruction behind,
        Done R subject flow'.frames flow'.maxStack index instruction frame behind) ∧
    ∀ target incoming, Arrived R flow.frames target incoming →
      Arrived R flow'.frames target incoming := by
  induction remaining generalizing flow state with
  | zero =>
      unfold settle at h
      rcases hnext : flow.next with ⟨_ | index, next⟩
      · simp only [hnext] at h
        obtain ⟨rfl, -⟩ := task_pure_eq_ok.mp h
        exact settled_end hsettled hnext
      · simp only [hnext] at h
        exact absurd (task_lift_eq_ok.mp h).1 fail_ne_ok
  | succ remaining ih =>
      unfold settle at h
      rcases hnext : flow.next with ⟨_ | index, next⟩
      · simp only [hnext] at h
        obtain ⟨rfl, -⟩ := task_pure_eq_ok.mp h
        exact settled_end hsettled hnext
      · simp only [hnext] at h
        obtain ⟨between, _, hvisit, h⟩ := task_bind_eq_ok.mp h
        obtain ⟨hbetween, harrived⟩ := settled_step hmerges hkeeps hsettled hnext hvisit
        obtain ⟨hdone, harrived'⟩ := ih hbetween h
        exact ⟨hdone, fun target incoming hfirst =>
          harrived' target incoming (harrived target incoming hfirst)⟩

/-- Looking at an instruction, from the frame behind it and where that flows to. -/
theorem visit_run {index : Nat} {targets : List Nat} {instruction : Instruction}
    {frame behind : Frame} {middle : σ} (hframe : flow.frames[index]? = some (some frame))
    (hcode : subject.code[index]? = some instruction)
    (hafter : frame.after subject.cls subject.code index instruction = .ok behind)
    (hsuccessors : successors subject.code.size subject.places index instruction = .ok targets)
    (hall : propagateAll supers (flowing instruction index frame behind) targets
      ((flow.note frame.stackSize).note behind.stackSize) state = (.ok between, middle))
    (hhandlers : propagateHandlers supers index frame behind subject.handlers between middle =
      (.ok flow', state')) :
    visit supers subject index flow state = (.ok flow', state') := by
  unfold visit
  simp only [hframe, hcode]
  refine task_bind_eq_ok.mpr ⟨behind, state, ?_, ?_⟩
  · exact task_lift_eq_ok.mpr ⟨within_eq_ok.mpr hafter, rfl⟩
  refine task_bind_eq_ok.mpr ⟨targets, state, task_lift_eq_ok.mpr ⟨hsuccessors, rfl⟩, ?_⟩
  exact task_bind_eq_ok.mpr ⟨between, middle, hall, hhandlers⟩

/-- Going on with the instruction that waits first. -/
theorem settle_run {remaining index : Nat} {next : Flow} {middle : σ}
    (hnext : flow.next = (some index, next))
    (hvisit : visit supers subject index next state = (.ok between, middle))
    (h : settle supers subject remaining between middle = (.ok flow', state')) :
    settle supers subject (remaining + 1) flow state = (.ok flow', state') := by
  unfold settle
  simp only [hnext]
  exact task_bind_eq_ok.mpr ⟨between, middle, hvisit, h⟩

end Run

/-- The stack that an analysis concludes with is as large as was noted, and has room for what is thrown
in place of instructions that were not reached. -/
theorem maxStack_of_conclude {flow : Flow} {found : Analysis} (h : conclude flow = .ok found) :
    flow.maxStack ≤ found.maxStack.toNat ∧
      ∀ index : Nat, found.frames[index]? = some none → 1 ≤ found.maxStack.toNat := by
  have hframes := frames_of_conclude h
  unfold conclude at h
  dsimp only at h
  generalize hmax : (if flow.frames.any Option.isNone then max flow.maxStack 1 else flow.maxStack) =
    maxStack at h
  split at h
  next hsmall =>
    cases h
    show _ ≤ maxStack.toUInt16.toNat ∧ ∀ index : Nat, flow.frames[index]? = some none →
      1 ≤ maxStack.toUInt16.toNat
    rw [Nat.toUInt16, UInt16.toNat_ofNat_of_lt' hsmall, ← hmax]
    constructor
    · split
      next => exact le_max_left _ _
      next => exact le_refl _
    · intro index hindex
      have hany : flow.frames.any Option.isNone = true :=
        Array.any_eq_true'.mpr ⟨none, Array.mem_of_getElem? hindex, rfl⟩
      rw [if_pos hany]
      exact le_max_right _ _
  next => cases h

section Analysis

variable {cls : ClassName} {method : Method} {code : Code} {maxLocals : UInt16} {found : Analysis}
  {state state' : σ}

/-- In the beginning only the first instruction was reached, and it waits. -/
theorem settled_start {subject : Subject} (size : Nat) (first : Frame) (hstart : P 0) :
    Flow.Settled R P subject
      { frames := (Array.replicate size none).setIfInBounds 0 (some first)
        queue := [0]
        later := []
        waiting := (Array.replicate size false).setIfInBounds 0 true
        maxStack := 0 } := by
  have hzero : ∀ index frame, ((Array.replicate size none).setIfInBounds 0
      (some first))[index]? = some (some frame) → index = 0 := by
    intro index frame hframe
    by_contra hne
    rw [Array.getElem?_setIfInBounds_ne (Ne.symm hne)] at hframe
    cases Array.eq_of_mem_replicate (Array.mem_of_getElem? hframe)
  refine ⟨fun index hflag => ?_, fun index frame hframe => hzero index frame hframe ▸ hstart,
    fun index frame hframe => .inl (.inl ?_)⟩
  · have hindex : index = 0 := by
      by_contra hne
      dsimp only at hflag
      rw [Array.getElem?_setIfInBounds_ne (Ne.symm hne)] at hflag
      cases Array.eq_of_mem_replicate (Array.mem_of_getElem? hflag)
    exact .inl (List.mem_singleton.mpr hindex)
  · exact List.mem_singleton.mpr (hzero index frame hframe)

/-- **All that flows has arrived when an analysis ends.** -/
theorem analyze_settled (hmerges : Merges supers R)
    (hkeeps : ∀ handlers, handlersOf code.labelIndices code.exceptions = .ok handlers →
      (subjectOf cls code handlers).Keeps P) (hstart : P 0)
    (h : analyze supers cls method code maxLocals state = (.ok found, state')) :
    ∃ handlers type first, handlersOf code.labelIndices code.exceptions = .ok handlers ∧
      MethodType.parse method.descriptor = .ok type ∧
      initial cls method.access.isStatic method.name type maxLocals = .ok first ∧
      Arrived R found.frames 0 first ∧
      (∀ index : Nat, found.frames[index]? = some none → 1 ≤ found.maxStack.toNat) ∧
      ∀ index frame, found.frames[index]? = some (some frame) → P index ∧
        ∃ instruction behind, Done R (subjectOf cls code handlers) found.frames
          found.maxStack.toNat index instruction frame behind := by
  unfold analyze at h
  split at h
  case isTrue => exact absurd (task_lift_eq_ok.mp h).1 fail_ne_ok
  case isFalse hinstructions =>
    obtain ⟨handlers, _, hhandlers, h⟩ := task_bind_eq_ok.mp h
    obtain ⟨type, _, htype, h⟩ := task_bind_eq_ok.mp h
    obtain ⟨first, _, hfirst, h⟩ := task_bind_eq_ok.mp h
    obtain ⟨flow, _, hsettle, h⟩ := task_bind_eq_ok.mp h
    have hconclude := (task_lift_eq_ok.mp h).1
    obtain ⟨hhandlers, -⟩ := task_lift_eq_ok.mp hhandlers
    obtain ⟨htype, -⟩ := task_lift_eq_ok.mp htype
    obtain ⟨hfirst, -⟩ := task_lift_eq_ok.mp hfirst
    have hsettled : Flow.Settled R P (subjectOf cls code handlers) _ :=
      settled_start (code.instructions.map Labelled.instruction).toArray.size first hstart
    have hsize : 0 < (code.instructions.map Labelled.instruction).toArray.size := by
      cases hlist : code.instructions with
      | nil => simp [hlist] at hinstructions
      | cons => simp
    obtain ⟨hdone, hkept⟩ := settle_done hmerges (hkeeps handlers hhandlers) hsettled hsettle
    have hframes := frames_of_conclude hconclude
    obtain ⟨hlarge, hroom⟩ := maxStack_of_conclude hconclude
    refine ⟨handlers, type, first, hhandlers, htype, hfirst, ?_, hroom, fun index frame hframe => ?_⟩
    · rw [hframes]
      refine hkept 0 first ⟨first, ?_, hmerges.refl first⟩
      exact Array.getElem?_setIfInBounds_self_of_lt (by rwa [Array.size_replicate])
    · rw [hframes] at hframe ⊢
      obtain ⟨hP, instruction, behind, hhere⟩ := hdone index frame hframe
      exact ⟨hP, instruction, behind, hhere.enlarge hlarge⟩

/-- The handlers of code, by the places of the labels in its exception table. -/
theorem handlersOf_spec {places : Std.HashMap Label Nat} {exceptions : List ExceptionRange}
    {handlers : List Handler} (h : handlersOf places exceptions = .ok handlers) :
    List.Forall₂ (fun range handler => places[range.start]? = some handler.start ∧
      places[range.stop]? = some handler.stop ∧ places[range.handler]? = some handler.handler ∧
      handler.caught = .object (range.caught.getD ClassName.javaThrowable)) exceptions handlers := by
  refine (mapM_eq_ok_forall₂ h).imp fun range handler hrun => ?_
  obtain ⟨start, hstart, hrun⟩ := bind_eq_ok.mp hrun
  obtain ⟨stop, hstop, hrun⟩ := bind_eq_ok.mp hrun
  obtain ⟨place, hplace, hrun⟩ := bind_eq_ok.mp hrun
  cases pure_eq_ok.mp hrun
  exact ⟨orFail_eq_ok.mp hstart, orFail_eq_ok.mp hstop, orFail_eq_ok.mp hplace, rfl⟩

/-- **All that flows to a frame is absorbed by it.**  If classes have joins, then in what an analysis
finds the first frame absorbs the one that the method starts with.  Every instruction with a frame can
be executed with it, and what comes of that is absorbed where execution goes on, or, for the return of a
subroutine, the frame before the call.  Handlers absorb the local variables before and behind every
instruction in their range, and the stack has room for all frames. -/
theorem analyze_consistent {join : ClassName → ClassName → ClassName} (hjoins : supers.Joins join)
    (h : analyze supers cls method code maxLocals state = (.ok found, state')) :
    let instructions := (code.instructions.map Labelled.instruction).toArray
    (∃ type first entry, MethodType.parse method.descriptor = .ok type ∧
      initial cls method.access.isStatic method.name type maxLocals = .ok first ∧
      found.frames[0]? = some (some entry) ∧ Absorbs supers entry first) ∧
    ∀ index frame, found.frames[index]? = some (some frame) →
      ∃ instruction behind targets, instructions[index]? = some instruction ∧
        frame.after cls instructions index instruction = .ok behind ∧
        successors instructions.size code.labelIndices index instruction = .ok targets ∧
        (∀ target, target ∈ targets ↔ GoesTo code.labelIndices index instruction target) ∧
        (∀ target ∈ targets, ∃ next, found.frames[target]? = some (some next) ∧
          Absorbs supers next (flowing instruction index frame behind target)) ∧
        (∀ range ∈ code.exceptions, ∃ start stop handler,
          code.labelIndices[range.start]? = some start ∧
          code.labelIndices[range.stop]? = some stop ∧
          code.labelIndices[range.handler]? = some handler ∧
          (start ≤ index → index < stop → ∃ next, found.frames[handler]? = some (some next) ∧
            ∀ locals ∈ [frame.locals, behind.locals], Absorbs supers next
              ⟨locals, [.object (range.caught.getD ClassName.javaThrowable)]⟩)) ∧
        frame.stackSize ≤ found.maxStack.toNat ∧ behind.stackSize ≤ found.maxStack.toNat := by
  have hkeeps : ∀ handlers, handlersOf code.labelIndices code.exceptions = .ok handlers →
      (subjectOf cls code handlers).Keeps fun _ => True :=
    fun _ _ => ⟨fun _ _ _ => trivial, fun _ _ _ _ _ _ => trivial⟩
  obtain ⟨handlers, type, first, hhandlers, htype, hfirst, ⟨entry, hentry, hcovers⟩, -, hdone⟩ :=
    analyze_settled (merges_covers hjoins) hkeeps trivial h
  refine ⟨⟨type, first, entry, htype, hfirst, hentry, hcovers.absorbs hjoins⟩,
    fun index frame hframe => ?_⟩
  obtain ⟨_, instruction, behind, hhere⟩ := hdone index frame hframe
  obtain ⟨targets, htargets⟩ := hhere.succeeds
  refine ⟨instruction, behind, targets, hhere.code, hhere.after, htargets,
    mem_successors htargets, fun target hmem => ?_, fun range hrange => ?_, hhere.before_le,
    hhere.behind_le⟩
  · obtain ⟨next, hnext, hnextCovers⟩ := hhere.goes target ((mem_successors htargets target).mp hmem)
    exact ⟨next, hnext, hnextCovers.absorbs hjoins⟩
  · obtain ⟨handler, hmem, hstart, hstop, hplace, hcaught⟩ :=
      exists_right_of_forall₂ (handlersOf_spec hhandlers) hrange
    refine ⟨handler.start, handler.stop, handler.handler, hstart, hstop, hplace,
      fun hge hlt => ?_⟩
    rw [← hcaught]
    obtain ⟨⟨next, hnext, hbefore⟩, other, hother, hbehind⟩ := hhere.handled handler hmem hge hlt
    cases hnext.symm.trans hother
    refine ⟨next, hnext, List.forall_mem_cons.mpr ⟨hbefore.absorbs hjoins, ?_⟩⟩
    exact List.forall_mem_singleton.mpr (hbehind.absorbs hjoins)

end Analysis

section Example

/-- Code that puts a class into a variable, again and again. -/
def againCode : Code where
  instructions := [⟨some ⟨0⟩, .ldc (.cls "a/A")⟩, ⟨none, .store .reference 0⟩, ⟨none, .goto ⟨0⟩⟩]

/-- A method with that code, the variable of which is a number at first. -/
def againMethod : Method where
  access := { isStatic := true }
  name := "f"
  descriptor := "(I)V"
  code := some againCode

/-- Nothing is known of the variable before it is set, and it is a class behind that. -/
theorem analyze_againCode :
    analyze (SuperClasses.objectOnly Unit) "a/A" againMethod againCode 1 () =
      (.ok ⟨#[some ⟨[.top], []⟩, some ⟨[.top], [.object ClassName.javaClass]⟩,
        some ⟨[.object ClassName.javaClass], []⟩], 1⟩, ()) := by
  let supers := SuperClasses.objectOnly Unit
  let subject : Subject :=
    ⟨"a/A", (againCode.instructions.map Labelled.instruction).toArray, againCode.labelIndices, []⟩
  let number : Frame := ⟨[.int], []⟩
  let numberSet : Frame := ⟨[.int], [.object ClassName.javaClass]⟩
  let any : Frame := ⟨[.top], []⟩
  let anySet : Frame := ⟨[.top], [.object ClassName.javaClass]⟩
  let set : Frame := ⟨[.object ClassName.javaClass], []⟩
  have hsuccessors : successors 3 subject.places 0 (.ldc (.cls "a/A")) = .ok [1] ∧
      successors 3 subject.places 1 (.store .reference 0) = .ok [2] ∧
      successors 3 subject.places 2 (.goto ⟨0⟩) = .ok [0] := by
    cbv
  obtain ⟨hload, hstore, hgoto⟩ := hsuccessors
  have hmerge : merge supers number set () = (.ok (some any), ()) := rfl
  have hmergeSet : merge supers numberSet anySet () = (.ok (some anySet), ()) := rfl
  have hmergeSame : merge supers set set () = (.ok none, ()) := rfl
  -- All three instructions are looked at, and the first two of them again.
  have hfirst : visit supers subject 0
      ⟨#[some number, none, none], [], [], #[false, false, false], 0⟩ () =
      (.ok ⟨#[some number, some numberSet, none], [], [1], #[false, true, false], 1⟩, ()) :=
    visit_run rfl rfl rfl hload rfl rfl
  have hsecond : visit supers subject 1
      ⟨#[some number, some numberSet, none], [], [], #[false, false, false], 1⟩ () =
      (.ok ⟨#[some number, some numberSet, some set], [], [2], #[false, false, true], 1⟩, ()) :=
    visit_run rfl rfl rfl hstore rfl rfl
  have hthird : visit supers subject 2
      ⟨#[some number, some numberSet, some set], [], [], #[false, false, false], 1⟩ () =
      (.ok ⟨#[some any, some numberSet, some set], [], [0], #[true, false, false], 1⟩, ()) :=
    visit_run rfl rfl rfl hgoto
      (task_bind_eq_ok.mpr ⟨_, _, task_bind_eq_ok.mpr ⟨_, _, task_within_eq_ok.mpr hmerge, rfl⟩, rfl⟩)
      rfl
  have hfourth : visit supers subject 0
      ⟨#[some any, some numberSet, some set], [], [], #[false, false, false], 1⟩ () =
      (.ok ⟨#[some any, some anySet, some set], [], [1], #[false, true, false], 1⟩, ()) :=
    visit_run rfl rfl rfl hload
      (task_bind_eq_ok.mpr ⟨_, _, task_bind_eq_ok.mpr ⟨_, _, task_within_eq_ok.mpr hmergeSet, rfl⟩, rfl⟩)
      rfl
  have hfifth : visit supers subject 1
      ⟨#[some any, some anySet, some set], [], [], #[false, false, false], 1⟩ () =
      (.ok ⟨#[some any, some anySet, some set], [], [], #[false, false, false], 1⟩, ()) :=
    visit_run rfl rfl rfl hstore
      (task_bind_eq_ok.mpr ⟨_, _, task_bind_eq_ok.mpr ⟨_, _, task_within_eq_ok.mpr hmergeSame, rfl⟩, rfl⟩)
      rfl
  have hsettle : settle supers subject iterationLimit
      ⟨#[some number, none, none], [0], [], #[true, false, false], 0⟩ () =
      (.ok ⟨#[some any, some anySet, some set], [], [], #[false, false, false], 1⟩, ()) :=
    settle_run rfl hfirst (settle_run rfl hsecond (settle_run rfl hthird
      (settle_run rfl hfourth (settle_run rfl hfifth rfl))))
  have hparse : MethodType.parse againMethod.descriptor = .ok ⟨[.int], none⟩ := by cbv
  unfold analyze
  rw [if_neg (by decide)]
  refine task_bind_eq_ok.mpr ⟨[], (), rfl, ?_⟩
  refine task_bind_eq_ok.mpr ⟨_, (), task_lift_eq_ok.mpr ⟨hparse, rfl⟩, ?_⟩
  refine task_bind_eq_ok.mpr ⟨number, (), rfl, ?_⟩
  refine task_bind_eq_ok.mpr ⟨_, (), hsettle, ?_⟩
  exact task_lift_eq_ok.mpr ⟨by simp [conclude, any, anySet, set], rfl⟩

/-- What comes of the last instruction is absorbed before the first one. -/
theorem analyze_consistent_again :
    (∃ join, (SuperClasses.objectOnly Unit).Joins join) ∧
      analyze (SuperClasses.objectOnly Unit) "a/A" againMethod againCode 1 () =
        (.ok ⟨#[some ⟨[.top], []⟩, some ⟨[.top], [.object ClassName.javaClass]⟩,
          some ⟨[.object ClassName.javaClass], []⟩], 1⟩, ()) ∧
      Absorbs (SuperClasses.objectOnly Unit) ⟨[.top], []⟩ ⟨[.object ClassName.javaClass], []⟩ := by
  refine ⟨⟨_, SuperClasses.objectOnly_joins Unit⟩, analyze_againCode, ?_⟩
  obtain ⟨_, hall⟩ := analyze_consistent (SuperClasses.objectOnly_joins Unit) analyze_againCode
  obtain ⟨instruction, behind, targets, hcode, hafter, _, hmem, habsorbs, _⟩ := hall 2 _ rfl
  cases hcode
  cases hafter
  have hgoes : GoesTo againCode.labelIndices 2 (.goto ⟨0⟩) 0 :=
    .jump List.mem_cons_self (by cbv)
  obtain ⟨next, hnext, hflows⟩ := habsorbs 0 ((hmem 0).mpr hgoes)
  cases hnext
  exact hflows

end Example

end Frame

end Downlevel
