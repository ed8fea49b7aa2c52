import Downlevel.Frame.Analysis
import Downlevel.Proofs.Outcome

/-!
# How many frames an analysis finds

The analysis keeps a frame, or the room for one, for every instruction.  No step of it adds or takes
away any, so what is found in the end has as many as there are instructions.

* `Frame.analyze_size` — an analysis finds as many frames as there are instructions.
-/

namespace Downlevel

namespace Frame

/-- The frames behind setting one. -/
@[simp] theorem Flow.frames_update (flow : Flow) (index : Nat) (frame : Frame) :
    (flow.update index frame).frames = flow.frames.setIfInBounds index (some frame) := by
  simp only [Flow.update]
  split <;> rfl

/-- Setting a frame keeps their number. -/
theorem Flow.size_update (flow : Flow) (index : Nat) (frame : Frame) :
    (flow.update index frame).frames.size = flow.frames.size := by
  simp

/-- Noting a size of the stack leaves the frames alone. -/
@[simp] theorem Flow.frames_note (flow : Flow) (size : Nat) : (flow.note size).frames = flow.frames :=
  rfl

/-- Taking the next instruction leaves the frames alone. -/
theorem Flow.frames_next {flow flow' : Flow} {found : Option Nat}
    (h : flow.next = (found, flow')) : flow'.frames = flow.frames := by
  unfold Flow.next at h
  split at h
  · cases h
    rfl
  · split at h
    · cases h
      rfl
    · cases h
      rfl

variable {σ : Type} {supers : SuperClasses σ} {flow flow' : Flow} {state state' : σ}

/-- Letting a frame flow to an instruction keeps the number of frames. -/
theorem propagate_size {target : Nat} {incoming : Frame}
    (h : propagate supers flow target incoming state = (.ok flow', state')) :
    flow'.frames.size = flow.frames.size := by
  unfold propagate at h
  cases hframe : flow.frames[target]? with
  | none =>
      simp only [hframe] at h
      obtain ⟨hfail, -⟩ := task_lift_eq_ok.mp h
      cases hfail
  | some known =>
      cases known with
      | none =>
          simp only [hframe] at h
          obtain ⟨rfl, -⟩ := task_pure_eq_ok.mp h
          exact Flow.size_update flow target incoming
      | some existing =>
          simp only [hframe] at h
          obtain ⟨merged, _, -, hrest⟩ := task_bind_eq_ok.mp h
          cases merged with
          | none =>
              obtain ⟨rfl, -⟩ := task_pure_eq_ok.mp hrest
              rfl
          | some merged =>
              obtain ⟨rfl, -⟩ := task_pure_eq_ok.mp hrest
              exact Flow.size_update flow target merged

/-- Letting frames flow to several instructions keeps the number of frames. -/
theorem propagateAll_size {choose : Nat → Frame} {targets : List Nat}
    (h : propagateAll supers choose targets flow state = (.ok flow', state')) :
    flow'.frames.size = flow.frames.size := by
  induction targets generalizing flow state with
  | nil =>
      obtain ⟨rfl, -⟩ := task_pure_eq_ok.mp h
      rfl
  | cons target rest ih =>
      obtain ⟨between, _, hfirst, hrest⟩ := task_bind_eq_ok.mp h
      rw [ih hrest, propagate_size hfirst]

/-- Letting frames flow into handlers keeps the number of frames. -/
theorem propagateHandlers_size {index : Nat} {before behind : Frame} {handlers : List Handler}
    (h : propagateHandlers supers index before behind handlers flow state = (.ok flow', state')) :
    flow'.frames.size = flow.frames.size := by
  induction handlers generalizing flow state with
  | nil =>
      obtain ⟨rfl, -⟩ := task_pure_eq_ok.mp h
      rfl
  | cons handler rest ih =>
      unfold propagateHandlers at h
      split at h
      case isTrue =>
        obtain ⟨first, _, hfirst, h⟩ := task_bind_eq_ok.mp h
        obtain ⟨second, _, hsecond, h⟩ := task_bind_eq_ok.mp h
        rw [ih h, propagate_size hsecond, propagate_size hfirst, Flow.frames_note]
      case isFalse => exact ih h

/-- Looking at an instruction keeps the number of frames. -/
theorem visit_size {subject : Subject} {index : Nat}
    (h : visit supers subject index flow state = (.ok flow', state')) :
    flow'.frames.size = flow.frames.size := by
  unfold visit at h
  match hframe : flow.frames[index]?, hcode : subject.code[index]? with
  | some (some frame), some instruction =>
      simp only [hframe, hcode] at h
      obtain ⟨behind, _, -, h⟩ := task_bind_eq_ok.mp h
      obtain ⟨targets, _, -, h⟩ := task_bind_eq_ok.mp h
      obtain ⟨between, _, hall, h⟩ := task_bind_eq_ok.mp h
      rw [propagateHandlers_size h, propagateAll_size hall, Flow.frames_note, Flow.frames_note]
  | some (some _), none | some none, _ | none, _ =>
      simp only [hframe, hcode] at h
      obtain ⟨hfail, -⟩ := task_lift_eq_ok.mp h
      cases hfail

/-- Looking at instructions until none waits keeps the number of frames. -/
theorem settle_size {subject : Subject} {remaining : Nat}
    (h : settle supers subject remaining flow state = (.ok flow', state')) :
    flow'.frames.size = flow.frames.size := by
  induction remaining generalizing flow state with
  | zero =>
      unfold settle at h
      match hnext : flow.next with
      | (none, next) =>
          simp only [hnext] at h
          obtain ⟨rfl, -⟩ := task_pure_eq_ok.mp h
          rw [Flow.frames_next hnext]
      | (some index, next) =>
          simp only [hnext] at h
          obtain ⟨hfail, -⟩ := task_lift_eq_ok.mp h
          cases hfail
  | succ remaining ih =>
      unfold settle at h
      match hnext : flow.next with
      | (none, next) =>
          simp only [hnext] at h
          obtain ⟨rfl, -⟩ := task_pure_eq_ok.mp h
          rw [Flow.frames_next hnext]
      | (some index, next) =>
          simp only [hnext] at h
          obtain ⟨between, _, hvisit, h⟩ := task_bind_eq_ok.mp h
          rw [ih h, visit_size hvisit, Flow.frames_next hnext]

/-- What an analysis found are the frames that it knows in the end. -/
theorem frames_of_conclude {found : Analysis} (h : conclude flow = .ok found) :
    found.frames = flow.frames := by
  rw [conclude] at h
  generalize (if flow.frames.any Option.isNone then max flow.maxStack 1 else flow.maxStack) =
    maxStack at h
  split at h
  · cases h
    rfl
  · cases h

/-- **An analysis finds as many frames as there are instructions.** -/
theorem analyze_size {cls : ClassName} {method : Method} {code : Code} {maxLocals : UInt16}
    {found : Analysis}
    (h : analyze supers cls method code maxLocals state = (.ok found, state')) :
    found.frames.size = code.instructions.length := by
  unfold analyze at h
  split at h
  case isTrue =>
    obtain ⟨hfail, -⟩ := task_lift_eq_ok.mp h
    cases hfail
  case isFalse =>
    obtain ⟨handlers, _, -, h⟩ := task_bind_eq_ok.mp h
    obtain ⟨type, _, -, h⟩ := task_bind_eq_ok.mp h
    obtain ⟨first, _, -, h⟩ := task_bind_eq_ok.mp h
    obtain ⟨flow, _, hsettle, h⟩ := task_bind_eq_ok.mp h
    obtain ⟨hconclude, -⟩ := task_lift_eq_ok.mp h
    rw [frames_of_conclude hconclude, settle_size hsettle]
    simp

end Frame

end Downlevel
