import Downlevel.Proofs.Lower.Instructions

/-!
# What is left of records and of the exception for failed matches

The methods that a record gets and the instructions that take the place of the exception are all
direct, and otherwise these two passes leave the instructions of a class alone.
-/

namespace Downlevel

open Instruction

namespace Record

/-- Loading a component is straight. -/
theorem straight_loadComponent {cls : ClassName} {slot : UInt16} {component : Component}
    {instruction : Instruction} (h : instruction ∈ loadComponent cls slot component) :
    instruction.Straight := by
  simp only [loadComponent, List.mem_cons, List.not_mem_nil, or_false] at h
  rcases h with rfl | rfl <;> trivial

/-- Comparing a component is straight, but for going on behind it. -/
theorem mem_compareComponent {cls : ClassName} {n : Nat} {component : Component}
    {pieces : List Piece} (h : compareComponent cls n component = .ok pieces) :
    ∀ instruction, .push instruction ∈ pieces →
      instruction.Straight ∨ ∃ condition, instruction = .branch condition (label n) := by
  unfold compareComponent at h
  simp only [bind_eq_ok, pure_eq_ok] at h
  obtain ⟨type, _, rfl⟩ := h
  intro instruction hmem
  simp only [List.mem_append, Piece.push_mem_sequence, List.mem_cons, List.not_mem_nil, or_false,
    reduceCtorEq, or_assoc] at hmem
  rcases hmem with hload | hbox | hload | hbox | rfl | rfl | rfl | rfl
  · exact .inl (straight_loadComponent hload)
  · exact .inl ((Fragment.helps_box hbox).straight)
  · exact .inl (straight_loadComponent hload)
  · exact .inl ((Fragment.helps_box hbox).straight)
  · exact .inl trivial
  · exact .inr ⟨_, rfl⟩
  · exact .inl trivial
  · exact .inl trivial

/-- Comparing components is straight, but for going on behind one of them. -/
theorem mem_compareComponents {cls : ClassName} {n : Nat} {components : List Component}
    {pieces : List Piece} (h : compareComponents cls n components = .ok pieces) :
    ∀ instruction, .push instruction ∈ pieces → instruction.Straight ∨
      ∃ condition number, instruction = .branch condition (label number) ∧
        n ≤ number ∧ number < n + components.length := by
  induction components generalizing n pieces with
  | nil =>
      cases h
      intro instruction hmem
      cases hmem
  | cons component rest ih =>
      simp only [compareComponents, bind_eq_ok, pure_eq_ok] at h
      obtain ⟨first, hfirst, others, hothers, rfl⟩ := h
      intro instruction hmem
      rw [List.length_cons]
      rcases List.mem_append.mp hmem with hhere | hrest
      · rcases mem_compareComponent hfirst instruction hhere with hstraight | ⟨condition, rfl⟩
        · exact .inl hstraight
        · exact .inr ⟨condition, n, rfl, by omega, by omega⟩
      · rcases ih hothers instruction hrest with
          hstraight | ⟨condition, number, rfl, habove, hbelow⟩
        · exact .inl hstraight
        · exact .inr ⟨condition, number, rfl, by omega, by omega⟩

/-- The body of the method that compares records is straight, but for going to one of its labels. -/
theorem mem_equalsBody {cls : ClassName} {components : List Component} {pieces : List Piece}
    (h : equalsBody cls components = .ok pieces) :
    ∀ instruction, .push instruction ∈ pieces → instruction.Straight ∨
      ∃ condition number, instruction = .branch condition (label number) ∧
        number ≤ components.length := by
  simp only [equalsBody, bind_eq_ok, pure_eq_ok] at h
  obtain ⟨comparisons, hcomparisons, rfl⟩ := h
  intro instruction hmem
  simp only [List.mem_append, Piece.push_mem_sequence, List.mem_cons, List.not_mem_nil,
    or_false, reduceCtorEq, or_assoc] at hmem
  rcases hmem with rfl | rfl | rfl | rfl | rfl | rfl | rfl | rfl | hhere | rfl | rfl
  case inr.inr.inr.inl => exact .inr ⟨_, 0, rfl, by omega⟩
  case inr.inr.inr.inr.inr.inr.inr.inr.inl =>
    rcases mem_compareComponents hcomparisons instruction hhere with
      hstraight | ⟨condition, number, rfl, -, hbelow⟩
    · exact .inl hstraight
    · exact .inr ⟨condition, number, rfl, by omega⟩
  all_goals exact .inl trivial

/-- Adding the hash of a component is straight. -/
theorem straight_hashComponent {cls : ClassName} {component : Component}
    {instructions : List Instruction} (h : hashComponent cls component = .ok instructions) :
    ∀ instruction ∈ instructions, instruction.Straight := by
  unfold hashComponent at h
  simp only [bind_eq_ok, pure_eq_ok] at h
  obtain ⟨type, _, rfl⟩ := h
  intro instruction hmem
  simp only [List.mem_append, List.mem_cons, List.not_mem_nil, or_false, or_assoc] at hmem
  rcases hmem with hload | hbox | rfl | rfl
  · exact straight_loadComponent hload
  · exact (Fragment.helps_box hbox).straight
  all_goals trivial

/-- Adding the hashes of components is straight. -/
theorem straight_hashRest {cls : ClassName} {components : List Component}
    {instructions : List Instruction} (h : hashRest cls components = .ok instructions) :
    ∀ instruction ∈ instructions, instruction.Straight := by
  induction components generalizing instructions with
  | nil =>
      cases h
      intro instruction hmem
      cases hmem
  | cons component rest ih =>
      simp only [hashRest, bind_eq_ok, pure_eq_ok] at h
      obtain ⟨first, hfirst, others, hothers, rfl⟩ := h
      intro instruction hmem
      simp only [List.cons_append, List.mem_cons, List.mem_append] at hmem
      rcases hmem with rfl | rfl | hhere | hrest
      · exact Fragment.straight_int _
      · trivial
      · exact straight_hashComponent hfirst instruction hhere
      · exact ih hothers instruction hrest

/-- Appending components to a string builder is straight. -/
theorem straight_appendComponents {cls : ClassName} {separator : String}
    {components : List Component} {instructions : List Instruction}
    (h : appendComponents cls separator components = .ok instructions) :
    ∀ instruction ∈ instructions, instruction.Straight := by
  induction components generalizing separator instructions with
  | nil =>
      cases h
      intro instruction hmem
      cases hmem
  | cons component rest ih =>
      simp only [appendComponents, bind_eq_ok, pure_eq_ok] at h
      obtain ⟨type, _, others, hothers, rfl⟩ := h
      intro instruction hmem
      simp only [List.append_assoc, List.mem_append, List.mem_cons] at hmem
      rcases hmem with htext | hload | rfl | hrest
      · exact Fragment.straight_appendString htext
      · exact straight_loadComponent hload
      · trivial
      · exact ih hothers instruction hrest

/-- The body of the method that computes the hash of a record is a sequence of straight
instructions. -/
theorem hashCodeBody_eq_ok {cls : ClassName} {components : List Component} {pieces : List Piece}
    (h : hashCodeBody cls components = .ok pieces) :
    ∃ instructions, (∀ instruction ∈ instructions, instruction.Straight) ∧
      pieces = Piece.sequence instructions := by
  cases components with
  | nil =>
      cases h
      refine ⟨_, fun instruction hmem => ?_, rfl⟩
      simp only [List.mem_cons, List.not_mem_nil, or_false] at hmem
      rcases hmem with rfl | rfl <;> trivial
  | cons component rest =>
      simp only [hashCodeBody, bind_eq_ok, pure_eq_ok] at h
      obtain ⟨first, hfirst, others, hothers, rfl⟩ := h
      refine ⟨_, fun instruction hmem => ?_, rfl⟩
      simp only [List.cons_append, List.mem_append, List.mem_cons, List.not_mem_nil, or_false,
        or_assoc] at hmem
      rcases hmem with rfl | hhere | hrest | rfl
      · trivial
      · exact straight_hashComponent hfirst instruction hhere
      · exact straight_hashRest hothers instruction hrest
      · trivial

/-- The body of the method that shows a record as text is a sequence of straight instructions. -/
theorem toStringBody_eq_ok {cls : ClassName} {components : List Component} {pieces : List Piece}
    (h : toStringBody cls components = .ok pieces) :
    ∃ instructions, (∀ instruction ∈ instructions, instruction.Straight) ∧
      pieces = Piece.sequence instructions := by
  simp only [toStringBody, bind_eq_ok, pure_eq_ok] at h
  obtain ⟨appended, happended, rfl⟩ := h
  refine ⟨_, fun instruction hmem => ?_, rfl⟩
  simp only [List.mem_append, List.mem_cons, List.not_mem_nil, or_false, or_assoc] at hmem
  rcases hmem with hnew | rfl | rfl | rfl | hhere | htext | hreturn
  · exact Fragment.straight_construct hnew
  · trivial
  · trivial
  · trivial
  · exact straight_appendComponents happended instruction hhere
  · exact Fragment.straight_appendString htext
  · exact Fragment.straight_returnBuilt hreturn

/-- The bodies of the methods that every record has are direct. -/
theorem direct_standardBody {cls : ClassName} {components : List Component} {standard : Standard}
    {pieces : List Piece} (h : standard.body cls components = .ok pieces) :
    ∀ instruction, .push instruction ∈ pieces → instruction.Direct := by
  intro instruction hmem
  cases standard with
  | equals =>
      rcases mem_equalsBody h instruction hmem with hstraight | ⟨condition, number, rfl, -⟩
      · exact hstraight.direct
      · trivial
  | hashCode =>
      obtain ⟨instructions, hstraight, rfl⟩ := hashCodeBody_eq_ok h
      exact (hstraight instruction (Piece.push_mem_sequence.mp hmem)).direct
  | toString =>
      obtain ⟨instructions, hstraight, rfl⟩ := toStringBody_eq_ok h
      exact (hstraight instruction (Piece.push_mem_sequence.mp hmem)).direct

/-- Retargeting a call changes straight instructions only, and keeps them straight. -/
theorem retarget_cases (instruction : Instruction) :
    retarget instruction = instruction ∨ (retarget instruction).Straight := by
  unfold retarget
  split
  · split
    · exact .inr trivial
    · exact .inl rfl
  · exact .inl rfl

/-- A method of a record behind: its instructions are those from before, or direct. -/
theorem lowerMethod_holds {P : Instruction → Prop}
    (hdirect : ∀ instruction, instruction.Direct → P instruction) {cls : ClassName}
    {components : List Component} {method method' : Method}
    (h : lowerMethod cls components method = .ok method') (hold : method.All P) :
    method'.All P := by
  unfold lowerMethod at h
  split at h
  · simp only [pure_eq_ok] at h
    subst h
    intro code' hcode' entry hmem
    obtain ⟨code, hcode, rfl⟩ := Option.map_eq_some_iff.mp hcode'
    obtain ⟨old, hentry, rfl⟩ := List.mem_map.mp hmem
    rcases retarget_cases old.instruction with hsame | hnew
    · show P (retarget old.instruction)
      rw [hsame]
      exact hold code hcode old hentry
    · exact hdirect _ hnew.direct
  · split at h
    · simp only [pure_eq_ok] at h
      exact h ▸ hold
    · dsimp only at h
      split at h
      · simp only [bind_eq_ok, pure_eq_ok, linkedBody, within_eq_ok] at h
        obtain ⟨body, ⟨pieces, hpieces, rfl⟩, rfl⟩ := h
        intro code' hcode'
        cases hcode'
        exact (Code.all_direct_ofPieces (direct_standardBody hpieces)).mono hdirect
      · simp only [pure_eq_ok] at h
        subst h
        exact hold

/-- **Making a plain class of a record keeps a property** of instructions that holds of what is
direct. -/
theorem recordToClass_all {P : Instruction → Prop}
    (hdirect : ∀ instruction, instruction.Direct → P instruction) {cls : ClassFile}
    {lowered : Lowered} (h : Lower.recordToClass cls = .ok lowered) (hold : cls.All P) :
    lowered.cls.All P := by
  unfold Lower.recordToClass at h
  split at h
  · simp only [bind_eq_ok, pure_eq_ok] at h
    obtain ⟨methods, hmethods, rfl⟩ := h
    intro method' hmem
    obtain ⟨method, hmethod, hlower⟩ := exists_left_of_forall₂ (mapM_eq_ok_forall₂ hmethods) hmem
    exact lowerMethod_holds hdirect hlower (hold method hmethod)
  · simp only [pure_eq_ok] at h
    subst h
    exact hold

/-- Behind the pass no class is a record. -/
theorem superClass_ne_record {cls : ClassFile} {lowered : Lowered}
    (h : Lower.recordToClass cls = .ok lowered) :
    lowered.cls.superClass ≠ some ClassName.javaRecord := by
  unfold Lower.recordToClass at h
  split at h
  · simp only [bind_eq_ok, pure_eq_ok] at h
    obtain ⟨methods, _, rfl⟩ := h
    show some ClassName.javaObject ≠ some ClassName.javaRecord
    decide
  · next hrecord =>
      simp only [pure_eq_ok] at h
      subst h
      simpa [ClassFile.isRecord, Lowered.unchanged] using hrecord

end Record

namespace MatchFailure

/-- What takes the place of an instruction about the exception is straight, and no longer about
it. -/
theorem mem_replace {old instruction : Instruction} (h : instruction ∈ replace old) :
    instruction.Straight ∧ isAbout instruction = false := by
  unfold replace at h
  split at h
  · simp only [constructorCall, tagMessage] at h
    repeat' split at h
    all_goals
      simp only [List.cons_append, List.nil_append, List.mem_cons, List.not_mem_nil, or_false] at h
    · rcases h with rfl | rfl <;> exact ⟨by trivial, rfl⟩
    · rcases h with rfl | rfl | rfl | rfl | rfl <;> exact ⟨by trivial, rfl⟩
    · rcases h with rfl | rfl | rfl | rfl | rfl | rfl | rfl <;> exact ⟨by trivial, rfl⟩
    · subst h
      exact ⟨trivial, rfl⟩
  · rw [List.mem_singleton.mp h]
    exact ⟨trivial, rfl⟩

/-- **One instruction.**  It is about something else and stays, or what takes its place is straight
and about something else. -/
theorem mem_replaceEntry {old entry : Labelled} (h : entry ∈ replaceEntry old) :
    (isAbout old.instruction = false ∧ entry = old) ∨
      (entry.instruction.Straight ∧ isAbout entry.instruction = false) := by
  unfold replaceEntry at h
  split at h
  · split at h
    · cases h
    · next first rest hreplace =>
        rcases List.mem_cons.mp h with rfl | hrest
        · exact .inr (mem_replace (hreplace ▸ List.mem_cons_self))
        · obtain ⟨instruction, hmem, rfl⟩ := List.mem_map.mp hrest
          exact .inr (mem_replace (hreplace ▸ List.mem_cons_of_mem _ hmem))
  · next hnot =>
      exact .inl ⟨by simpa using hnot, List.mem_singleton.mp h⟩

/-- **Replacing the exception keeps a property** of instructions that holds of what is direct and
not about the exception. -/
theorem matchFailure_all {P : Instruction → Prop}
    (hdirect : ∀ instruction, instruction.Direct → isAbout instruction = false → P instruction)
    {cls : ClassFile}
    (hold : cls.All fun instruction => isAbout instruction = false → P instruction) :
    (Lower.matchFailure cls).cls.All P := by
  intro method' hmem code' hcode' entry' hentry'
  obtain ⟨method, hmethod, rfl⟩ := List.mem_map.mp hmem
  obtain ⟨code, hcode, rfl⟩ := Option.map_eq_some_iff.mp hcode'
  obtain ⟨entry, hentry, hreplaced⟩ := List.mem_flatMap.mp hentry'
  rcases mem_replaceEntry hreplaced with ⟨hother, rfl⟩ | ⟨hnew, hother⟩
  · exact hold method hmethod code hcode entry' hentry hother
  · exact hdirect _ hnew.direct hother

/-- Code that is not about the exception stays. -/
theorem flatMap_replaceEntry {instructions : List Labelled}
    (h : ∀ entry ∈ instructions, isAbout entry.instruction = false) :
    instructions.flatMap replaceEntry = instructions := by
  induction instructions with
  | nil => rfl
  | cons entry rest ih =>
      have hhere : replaceEntry entry = [entry] := by
        simp [replaceEntry, h entry List.mem_cons_self]
      rw [List.flatMap_cons, hhere, ih fun other hmem => h other (List.mem_cons_of_mem _ hmem)]
      rfl

/-- A method that is not about the exception stays. -/
theorem replaceIn_of_other {method : Method}
    (h : method.All fun instruction => isAbout instruction = false) :
    replaceIn method = method := by
  obtain ⟨access, name, descriptor, isDeprecated, isSynthetic, code, _⟩ := method
  cases code with
  | none => rfl
  | some code => simp [replaceIn, flatMap_replaceEntry (h code rfl)]

/-- Whether a class is about the exception is told right. -/
theorem matchFailure_changed (cls : ClassFile) :
    (Lower.matchFailure cls).changed = false ↔
      cls.All fun instruction => isAbout instruction = false := by
  simp only [Lower.matchFailure, ClassFile.All, Method.All, Code.All, List.any_eq_false,
    Option.any_eq_true, occursIn, List.any_eq_true, not_exists, not_and]
  grind

end MatchFailure

end Downlevel
