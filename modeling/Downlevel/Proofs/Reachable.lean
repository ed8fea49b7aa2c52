import Downlevel.Proofs.Settled

/-!
# Instructions that execution can reach

Execution starts at the first instruction.  From each that it reaches it goes on to the targets of a
jump and to the instruction behind, and from each in the range of an exception to the handler.  An
analysis follows the same ways, so it finds frames exactly for the instructions that can be reached.

Which frame is found does not matter here, so any two frames cover each other.

Until its constructor was called, an object is known by the instruction that created it.  Such a type
comes into frames only from that instruction, and it is never what covers two other types.  So every
such type in a frame tells an instruction that execution can reach, and that creates an object.

* `Code.Reachable` — an instruction that can be reached;
* `Frame.analyze_reachable` — these have frames, and no others;
* `VType.Created` — an object under construction comes from an instruction that creates it;
* `Frame.analyze_created` — all those in frames do, and all frames are well formed.
-/

namespace Downlevel

/-- An instruction that execution can reach, by its index. -/
inductive Code.Reachable (code : Code) : Nat → Prop where
  | start : Reachable code 0
  /-- Behind an instruction, at a target of it or in its place in the list. -/
  | goes {index target : Nat} {entry : Labelled} (reached : Reachable code index)
      (here : code.instructions[index]? = some entry)
      (goes : Frame.GoesTo code.labelIndices index entry.instruction target) :
      Reachable code target
  /-- At the handler of an exception that is thrown in its range. -/
  | caught {index start stop handler : Nat} {range : ExceptionRange}
      (reached : Reachable code index) (mem : range ∈ code.exceptions)
      (start_place : code.labelIndices[range.start]? = some start)
      (stop_place : code.labelIndices[range.stop]? = some stop)
      (handler_place : code.labelIndices[range.handler]? = some handler)
      (start_le : start ≤ index) (lt_stop : index < stop) : Reachable code handler

namespace Frame

variable {σ : Type} {supers : SuperClasses σ} {cls : ClassName} {method : Method} {code : Code}
  {maxLocals : UInt16} {found : Analysis} {state state' : σ}

/-- An instruction of code that is looked at is one of the code. -/
theorem code_subjectOf {handlers : List Handler} {index : Nat} {instruction : Instruction}
    (h : (subjectOf cls code handlers).code[index]? = some instruction) :
    ∃ entry, code.instructions[index]? = some entry ∧ entry.instruction = instruction := by
  have hlist : (code.instructions.map Labelled.instruction)[index]? = some instruction := by
    rw [← List.getElem?_toArray]
    exact h
  rw [List.getElem?_map] at hlist
  exact Option.map_eq_some_iff.mp hlist

/-- Execution goes on from instructions that it reaches to such instructions. -/
theorem keeps_reachable {handlers : List Handler}
    (h : handlersOf code.labelIndices code.exceptions = .ok handlers) :
    (subjectOf cls code handlers).Keeps code.Reachable where
  goes := by
    intro index instruction target hindex hcode hgoes
    obtain ⟨entry, hentry, rfl⟩ := code_subjectOf hcode
    exact .goes hindex hentry hgoes
  handled := by
    intro index hindex _ handler hmem hge hlt
    obtain ⟨range, hrange, hstart, hstop, hhandler, _⟩ :=
      exists_left_of_forall₂ (handlersOf_spec h) hmem
    exact .caught hindex hrange hstart hstop hhandler hge hlt

/-- **An analysis finds frames for the instructions that can be reached**, and for no others.  If there
are others, the stack has room for what is thrown in their place. -/
theorem analyze_reachable
    (h : analyze supers cls method code maxLocals state = (.ok found, state')) :
    (∀ index, (∃ frame, found.frames[index]? = some (some frame)) ↔ code.Reachable index) ∧
      ∀ index < code.instructions.length, ¬ code.Reachable index →
        1 ≤ found.maxStack.toNat := by
  obtain ⟨handlers, _, _, hhandlers, _, _, ⟨first, hfirst, _⟩, hroom, hdone⟩ :=
    analyze_settled (merges_any supers) (fun _ => keeps_reachable) .start h
  have hreached : ∀ index, (∃ frame, found.frames[index]? = some (some frame)) ↔
      code.Reachable index := by
    intro index
    constructor
    · intro hframe
      obtain ⟨frame, hframe⟩ := hframe
      exact (hdone index frame hframe).1
    · intro hindex
      induction hindex with
      | start => exact ⟨first, hfirst⟩
      | @goes index target entry _ hentry hgoes ih =>
          obtain ⟨frame, hframe⟩ := ih
          obtain ⟨_, instruction, behind, hhere⟩ := hdone index frame hframe
          obtain ⟨other, hother, rfl⟩ := code_subjectOf hhere.code
          cases hentry.symm.trans hother
          obtain ⟨next, hnext, _⟩ := hhere.goes target hgoes
          exact ⟨next, hnext⟩
      | @caught index start stop handler range _ hmem hstart hstop hhandler hge hlt ih =>
          obtain ⟨frame, hframe⟩ := ih
          obtain ⟨_, instruction, behind, hhere⟩ := hdone index frame hframe
          obtain ⟨known, hknown, hstart', hstop', hhandler', _⟩ :=
            exists_right_of_forall₂ (handlersOf_spec hhandlers) hmem
          cases hstart.symm.trans hstart'
          cases hstop.symm.trans hstop'
          cases hhandler.symm.trans hhandler'
          obtain ⟨⟨next, hnext, _⟩, _⟩ := hhere.handled known hknown hge hlt
          exact ⟨next, hnext⟩
  refine ⟨hreached, fun index hlt hunreached => ?_⟩
  have hsize : index < found.frames.size := by
    rw [analyze_size h]
    exact hlt
  cases hframe : found.frames[index] with
  | some frame =>
      exact absurd ((hreached index).mp ⟨frame, Array.getElem?_eq_some_iff.mpr ⟨hsize, hframe⟩⟩)
        hunreached
  | none => exact hroom index (Array.getElem?_eq_some_iff.mpr ⟨hsize, hframe⟩)

end Frame

/-- Execution reaches the instruction at an index, which creates an object. -/
def Code.Creates (code : Code) (index : Nat) : Prop :=
  code.Reachable index ∧
    ∃ entry name, code.instructions[index]? = some entry ∧ entry.instruction = .new name

/-- An object whose constructor was not called yet comes from an instruction that creates it. -/
def VType.Created (code : Code) (type : VType) : Prop :=
  ∀ index, type = .uninitialized index → code.Creates index

section Analysis

variable {code : Code}

/-- A class is created by no instruction of its own. -/
theorem VType.created_of_ne {type : VType} (h : ∀ index, type ≠ .uninitialized index) :
    type.Created code :=
  fun index heq => absurd heq (h index)

/-- Declared types are not those of objects under construction. -/
theorem VType.created_ofType (type : JavaType) : (VType.ofType type).Created code := by
  refine created_of_ne fun index heq => ?_
  unfold VType.ofType at heq
  split at heq
  next => cases heq
  next => split at heq <;> cases heq

/-- Nor are those that a descriptor stands for. -/
theorem VType.created_of_descriptor {descriptor : FieldDescriptor} {type : VType}
    (h : VType.ofDescriptor descriptor = .ok type) : type.Created code := by
  obtain ⟨declared, _, hrest⟩ := bind_eq_ok.mp h
  cases pure_eq_ok.mp hrest
  exact created_ofType declared

/-- What is created does not depend on how values are moved. -/
theorem VType.natural_created : VType.Natural (VType.Created code) where
  plain _ h := created_of_ne h.2
  primitives _ := created_of_ne (by simp)
  element _ helement := by
    unfold Frame.elementType at helement
    split at helement
    next =>
      split at helement
      next => exact created_of_descriptor helement
      next => cases helement
    next =>
      cases helement
      exact created_of_ne (by simp)
    next => cases helement

/-- What an instruction says of the values that it gives. -/
theorem Instruction.Brings.created {instruction : Instruction} {type : VType}
    (h : instruction.Brings type) : type.Created code := by
  cases h with
  | @ldc value type hloaded =>
      cases value with
      | dynamic => exact VType.created_of_descriptor hloaded
      | _ =>
          cases hloaded
          exact VType.created_of_ne (by simp)
  | field use htype => exact VType.created_of_descriptor htype
  | result => exact VType.created_ofType _
  | new name => exact VType.created_of_ne (by simp)
  | anewarray name => exact VType.created_of_ne (by simp)
  | checkcast name => exact VType.created_of_ne (by simp)
  | multianewarray name dimensions => exact VType.created_of_ne (by simp)

namespace Frame

variable {σ : Type} {supers : SuperClasses σ} {cls : ClassName} {method : Method} {locals : UInt16}
  {found : Analysis} {state state' : σ}

/-- The code of a method creates the objects under construction that it puts into frames. -/
theorem supplies_created {handlers : List Handler}
    (h : handlersOf code.labelIndices code.exceptions = .ok handlers) :
    (subjectOf cls code handlers).Supplies code.Reachable (VType.Created code) where
  cls := VType.created_of_ne (by simp)
  code _ _ _ hbrings := hbrings.created
  creates index name hreach hnew := by
    rintro other heq
    cases heq
    obtain ⟨entry, hentry, hinstruction⟩ := code_subjectOf hnew
    exact ⟨hreach, entry, name, hentry, hinstruction⟩
  caught handler hmem := by
    obtain ⟨range, _, hcaught⟩ := caught_of_handlersOf h handler hmem
    rw [hcaught]
    exact VType.created_of_ne (by simp)
  goes index instruction targets hreach hhere htargets target hmem :=
    (keeps_reachable h).goes hreach hhere ((mem_successors htargets target).mp hmem)
  handled index hreach := (keeps_reachable h).handled hreach

/-- **The frames of a method are well formed**, and objects under construction in them come from
instructions that create them. -/
theorem analyze_created (h : analyze supers cls method code locals state = (.ok found, state'))
    {index : Nat} {frame : Frame} (hframe : found.frames[index]? = some (some frame)) :
    frame.Formed (VType.Created code) locals.toNat := by
  have hmerge (a b : VType) (ha : a.Created code) (_ : b.Created code) :
      Task.Ensures (fun _ => True) (mergeType supers a b) (VType.Created code) :=
    mergeType_keeps VType.natural_created (fun _ => VType.created_of_ne (by simp)) ha b
  have hensures : Task.Ensures (fun _ => True) (analyze supers cls method code locals)
      fun found => ∀ index frame, found.frames[index]? = some (some frame) →
        code.Reachable index ∧ frame.Formed (VType.Created code) locals.toNat :=
    analyze_formed hmerge VType.natural_created .start
      (fun _ parameter _ _ => VType.created_ofType parameter) (fun _ => supplies_created) locals
  exact ((hensures.run trivial h).1 index frame hframe).2

end Frame

end Analysis

end Downlevel
