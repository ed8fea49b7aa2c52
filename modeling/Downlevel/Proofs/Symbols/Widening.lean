import Downlevel.Proofs.Symbols.Endings
import Downlevel.Lower.Lowered

/-!
# Where calls go

A call of a method that the receiver decides on moves to the class that the search comes to from its
owner.  In a catalog in which no class stands above itself the search always comes to something, and
what it comes to depends on the method and the owner only.  So every call of a class moves on its
own, and a call that has moved stays where it is.

* `SymbolTable.widenCall_spec` — what the search comes to, in whatever session;
* `SymbolTable.Moves`, `SymbolTable.Widens` — what becomes of a call and of an instruction;
* `SymbolTable.widenCalls_spec` — what becomes of a class, and that doing it again changes nothing.
-/

namespace Downlevel

namespace Task

variable {σ α β : Type}

/-- A task gives a value, whatever state it works on. -/
def Always (task : Task σ α) (value : α) : Prop :=
  ∀ s, ∃ s', task s = (.ok value, s')

/-- A value is always given. -/
theorem always_pure (value : α) : Always (pure value : Task σ α) value :=
  fun s => ⟨s, rfl⟩

/-- What is given with some events is always given. -/
theorem Writes.always {task : Task Session α} {value : α} {events : Journal}
    (h : Writes task value events) : Always task value :=
  fun session => ⟨_, h session⟩

/-- Tasks in sequence give what the second one gives. -/
theorem Always.bind {task : Task σ α} {next : α → Task σ β} {value : α} {result : β}
    (h : Always task value) (hnext : Always (next value) result) :
    Always (task >>= next) result := by
  intro s
  obtain ⟨t, hfirst⟩ := h s
  obtain ⟨s', hsecond⟩ := hnext t
  exact ⟨s', task_bind_eq_ok.mpr ⟨value, t, hfirst, hsecond⟩⟩

/-- Naming the place of an error does not touch values. -/
theorem Always.within {task : Task σ α} {value : α} (fault : Fault) (h : Always task value) :
    Always (Task.within fault task) value := by
  intro s
  obtain ⟨s', hrun⟩ := h s
  exact ⟨s', task_within_eq_ok.mpr hrun⟩

/-- Going through a list gives what the items give. -/
theorem always_mapM {items : List α} {task : α → Task σ β} {value : α → β}
    (h : ∀ item ∈ items, Always (task item) (value item)) :
    Always (items.mapM task) (items.map value) := by
  induction items with
  | nil => exact always_pure []
  | cons item rest ih =>
      rw [List.mapM_cons, List.map_cons]
      refine (h item List.mem_cons_self).bind ?_
      exact (ih fun other hmem => h other (List.mem_cons_of_mem _ hmem)).bind (always_pure _)

end Task

namespace SymbolTable

open Downlevel.Task

variable {table : SymbolTable}

/-- What a search comes to does not depend on where the call is; only reports name that. -/
theorem Comes.elsewhere {query : CallQuery} {owner : ClassName} {answer : Option CallTarget}
    {found : Journal} (h : table.Comes query owner answer found) (cls : ClassName)
    (context : String) :
    ∃ later, table.Comes { query with cls := cls, context := context } owner answer later := by
  induction h with
  | unknown hunknown => exact ⟨[], .unknown hunknown⟩
  | here hfound hdeclares => exact ⟨[], .here hfound hdeclares⟩
  | up hfound hnot _ ih =>
      choose! laterOf hlater using ih
      exact ⟨_, .up hfound hnot hlater⟩

/-- **Where a call is widened to.**  If its owner is a class that newer releases have, then to what
the search comes to, and otherwise nowhere. -/
theorem widenCall_spec (answers : table.catalog.Answers) (hloopless : table.catalog.Loopless)
    (name : MethodName) (descriptor : MethodDescriptor) (owner : ClassName) :
    ∃ answer, (owner ∈ table.inventory → table.Search name descriptor owner answer) ∧
      (owner ∉ table.inventory → answer = none) ∧
      ∀ cls context, Always (table.widenCall ⟨cls, context, name, descriptor⟩ owner) answer := by
  by_cases hknown : owner ∈ table.inventory
  · let query : CallQuery := ⟨owner, "", name, descriptor⟩
    obtain ⟨answer, found, hcomes⟩ :=
      (comes_iff answers).mpr (hloopless.looplessFrom query.declares owner)
    refine ⟨answer, fun _ => hcomes.search, absurd hknown, fun cls context => ?_⟩
    obtain ⟨later, hthere⟩ := hcomes.elsewhere cls context
    exact (hthere.widenCall answers hknown).always
  · refine ⟨none, fun h => absurd h hknown, fun _ => rfl, fun cls context => ?_⟩
    exact (widenCall_of_not_mem hknown).always

end SymbolTable

/-- A method that is called, and whether it is called as one of an interface. -/
abbrev Callee := MethodRef × Bool

namespace Instruction

variable {instruction : Instruction} {callee : Callee}

/-- The method that an instruction calls, or that its bootstrap method is, if the receiver decides
which method is run. -/
def callee? : Instruction → Option Callee
  | invokevirtual target => some (target, false)
  | invokeinterface target => some (target, true)
  | invokedynamic site =>
      match site.bootstrap with
      | .method .virtual target => some (target, false)
      | .method .interface target => some (target, true)
      | _ => none
  | _ => none

/-- An instruction with another method in place of the one that it calls. -/
def withCallee (callee : Callee) : Instruction → Instruction
  | invokedynamic site => invokedynamic { site with bootstrap := SymbolTable.handleOf callee }
  | _ => SymbolTable.callOf callee

/-- With another method an instruction calls that method. -/
theorem callee?_withCallee (moved : Callee) (h : instruction.callee? = some callee) :
    (instruction.withCallee moved).callee? = some moved := by
  obtain ⟨target, flag⟩ := moved
  unfold callee? at h
  split at h
  next => cases flag <;> rfl
  next => cases flag <;> rfl
  next => cases flag <;> rfl
  next => cases h

/-- Of two methods put into an instruction the second one stays. -/
theorem withCallee_withCallee (first second : Callee) (h : instruction.callee? = some callee) :
    (instruction.withCallee first).withCallee second = instruction.withCallee second := by
  obtain ⟨target, flag⟩ := first
  unfold callee? at h
  split at h
  next => cases flag <;> rfl
  next => cases flag <;> rfl
  next => rfl
  next => cases h

end Instruction

/-- A class with each instruction of its methods changed. -/
def ClassFile.mapInstructions (f : Instruction → Instruction) (cls : ClassFile) : ClassFile :=
  { cls with
    methods := cls.methods.map fun method =>
      { method with code := method.code.map (Code.mapInstructions f) } }

namespace SymbolTable

open Downlevel.Task

variable {table : SymbolTable} {instruction : Instruction} {call moved : Callee}

/-- **What becomes of a call.**  It still names the same method, and another owner or kind only if its
owner is a class that newer releases have; the new owner is then the first class on some way up from
the old one that declares the method, and it is said rightly whether that is an interface.  An owner
that declares the method is kept.  If only one class at or above the owner declares it, the call goes
there. -/
structure Moves (table : SymbolTable) (call moved : Callee) : Prop where
  method : moved.1 = { call.1 with owner := moved.1.owner }
  outside : call.1.owner ∉ table.inventory → moved = call
  changed : moved ≠ call →
    table.catalog.FirstDeclared (·.hasOpenMethod call.1.name call.1.descriptor) call.1.owner
      moved.1.owner ∧ (moved.2 = true ↔ table.catalog.IsInterface moved.1.owner)
  kept : table.catalog.DeclaredAt (·.hasOpenMethod call.1.name call.1.descriptor) call.1.owner →
    moved.1.owner = call.1.owner
  sole : call.1.owner ∈ table.inventory → ∀ holder,
    table.catalog.SoleHolder (·.hasOpenMethod call.1.name call.1.descriptor) call.1.owner holder →
      moved.1.owner = holder ∧ (moved.2 = true ↔ table.catalog.IsInterface holder)

/-- What becomes of an instruction: nothing, unless it calls a method that the receiver decides on. -/
def Widens (table : SymbolTable) (instruction widened : Instruction) : Prop :=
  match instruction.callee? with
  | none => widened = instruction
  | some call => ∃ moved, table.Moves call moved ∧ widened = instruction.withCallee moved

/-- The method that a call goes to, given what the search comes to. -/
def move (call : Callee) : Option CallTarget → Callee
  | some target => ({ call.1 with owner := target.owner }, target.isInterface)
  | none => call

/-- **A call moves to what the search comes to.** -/
theorem moves_of_search {answer : Option CallTarget}
    (hsearch : call.1.owner ∈ table.inventory →
      table.Search call.1.name call.1.descriptor call.1.owner answer)
    (hnone : call.1.owner ∉ table.inventory → answer = none) : table.Moves call (move call answer) where
  method := by cases answer <;> rfl
  outside h := by rw [hnone h]; rfl
  changed h := by
    by_cases hknown : call.1.owner ∈ table.inventory
    · cases answer with
      | none => exact absurd rfl h
      | some target => exact (hsearch hknown).first target rfl
    · exact absurd (by rw [hnone hknown]; rfl) h
  kept h := by
    by_cases hknown : call.1.owner ∈ table.inventory
    · obtain ⟨target, rfl⟩ := (hsearch hknown).here h
      exact ((hsearch hknown).first target rfl).1.eq_of_declaredAt h
    · rw [hnone hknown]
      rfl
  sole hknown holder h := by
    obtain ⟨target, rfl, rfl⟩ := (hsearch hknown).sole holder h
    exact ⟨rfl, ((hsearch hknown).first target rfl).2⟩

/-- A call that was moved moves nowhere else. -/
theorem move_move {answerOf : Callee → Option CallTarget}
    (hsearch : ∀ call, call.1.owner ∈ table.inventory →
      table.Search call.1.name call.1.descriptor call.1.owner (answerOf call))
    (hnone : ∀ call, call.1.owner ∉ table.inventory → answerOf call = none) (call : Callee) :
    move (move call (answerOf call)) (answerOf (move call (answerOf call))) =
      move call (answerOf call) := by
  cases hanswer : answerOf call with
  | none =>
      show move call (answerOf call) = call
      rw [hanswer]
      rfl
  | some target =>
      have hknown : call.1.owner ∈ table.inventory := by
        by_contra h
        cases hanswer.symm.trans (hnone call h)
      obtain ⟨hway, hmarked⟩ := (hsearch call hknown).first target hanswer
      let moved : Callee := ({ call.1 with owner := target.owner }, target.isInterface)
      show move moved (answerOf moved) = moved
      by_cases hthere : target.owner ∈ table.inventory
      · -- The new owner declares the method, so that the search ends where it begins.
        obtain ⟨found, hfound⟩ := (hsearch moved hthere).here hway.declared
        obtain ⟨hway', hmarked'⟩ := (hsearch moved hthere).first found hfound
        cases hmarked'.eq hmarked (hway'.eq_of_declaredAt hway.declared)
        rw [hfound]
        rfl
      · rw [hnone moved hthere]
        rfl

/-- An instruction with its call moved to what the search comes to. -/
def step (answerOf : Callee → Option CallTarget) (instruction : Instruction) : Instruction :=
  match instruction.callee? with
  | some call => instruction.withCallee (move call (answerOf call))
  | none => instruction

section Always

variable {answerOf : Callee → Option CallTarget} {cls : ClassName} {context : String}

/-- The method that a call goes to is told by where the call is widened to. -/
theorem widenTarget_always {target : MethodRef} {answer : Option CallTarget}
    (h : Always (table.widenCall ⟨cls, context, target.name, target.descriptor⟩ target.owner)
      answer) :
    Always (table.widenTarget cls context target)
      (answer.map fun found => ({ target with owner := found.owner }, found.isInterface)) := by
  refine Always.within _ (h.bind ?_)
  cases answer <;> exact always_pure _

/-- Widening an instruction moves its call. -/
theorem widenInstruction_always
    (h : ∀ call : Callee,
      Always (table.widenCall ⟨cls, context, call.1.name, call.1.descriptor⟩ call.1.owner)
        (answerOf call)) (instruction : Instruction) :
    Always (table.widenInstruction cls context instruction) (step answerOf instruction) := by
  have hcall : ∀ (target : MethodRef) (flag : Bool), instruction = callOf (target, flag) →
      Always (do return ((← table.widenTarget cls context target).map callOf).getD instruction :
          Task Session Instruction) (callOf (move (target, flag) (answerOf (target, flag)))) := by
    intro target flag hinstruction
    refine (widenTarget_always (h (target, flag))).bind ?_
    cases answerOf (target, flag) with
    | none => exact hinstruction ▸ always_pure _
    | some found => exact always_pure _
  unfold widenInstruction
  cases instruction
  case invokevirtual target => exact hcall target false rfl
  case invokeinterface target => exact hcall target true rfl
  case invokedynamic site =>
    have hsite : ∀ (target : MethodRef) (flag : Bool),
        site.bootstrap = handleOf (target, flag) → ∀ next : Option Callee → Task Session Instruction,
        next none = pure (.invokedynamic site) →
        (∀ found, next (some found) =
          pure (.invokedynamic { site with bootstrap := handleOf found })) →
        Always (table.widenTarget cls context target >>= next) (.invokedynamic
          { site with bootstrap := handleOf (move (target, flag) (answerOf (target, flag))) }) := by
      intro target flag hbootstrap next hnone hsome
      refine (widenTarget_always (h (target, flag))).bind ?_
      cases answerOf (target, flag) with
      | none =>
          rw [Option.map_none, hnone, move, ← hbootstrap]
          exact always_pure _
      | some found =>
          rw [Option.map_some, hsome]
          exact always_pure _
    obtain ⟨name, descriptor, bootstrap, arguments⟩ := site
    rcases bootstrap with ⟨use, target⟩ | ⟨_ | _ | _ | _ | _, target⟩
    case method.virtual => exact hsite target false rfl _ rfl fun _ => rfl
    case method.interface => exact hsite target true rfl _ rfl fun _ => rfl
    all_goals exact always_pure _
  all_goals exact always_pure _

/-- Widening the calls of a class moves the call of each instruction. -/
theorem widenCalls_always (cls : ClassFile)
    (h : ∀ cls context (call : Callee),
      Always (table.widenCall ⟨cls, context, call.1.name, call.1.descriptor⟩ call.1.owner)
        (answerOf call)) :
    Always (table.widenCalls cls) (cls.mapInstructions (step answerOf)) := by
  unfold widenCalls
  have hmethod : ∀ method : Method, Always (table.widenMethod cls.name method)
      { method with code := method.code.map (Code.mapInstructions (step answerOf)) } := by
    intro method
    unfold widenMethod
    cases hcode : method.code with
    | none =>
        have hsame : { method with code := none } = method := by rw [← hcode]
        exact (congrArg (Always (pure method)) hsame.symm).mp (always_pure method)
    | some code =>
        have hentries : ∀ entry ∈ code.instructions,
            Always (do
                return { entry with
                  instruction := ← table.widenInstruction cls.name
                    (cls.name ++ "." ++ method.name ++ method.descriptor) entry.instruction } :
                Task Session Labelled)
              { entry with instruction := step answerOf entry.instruction } :=
          fun entry _ => (widenInstruction_always (h _ _) entry.instruction).bind (always_pure _)
        exact (always_mapM hentries).bind (always_pure _)
  exact Always.within _ ((always_mapM fun method _ => hmethod method).bind (always_pure _))

end Always

/-- Changing the instructions of a class twice is changing them once, if a second change of an
instruction does nothing. -/
theorem mapInstructions_mapInstructions {f : Instruction → Instruction}
    (hf : ∀ instruction, f (f instruction) = f instruction) (cls : ClassFile) :
    (cls.mapInstructions f).mapInstructions f = cls.mapInstructions f := by
  have hcode : ∀ code : Code, (code.mapInstructions f).mapInstructions f = code.mapInstructions f := by
    intro code
    simp [Code.mapInstructions, hf]
  simp [ClassFile.mapInstructions, Function.comp_def, hcode]

/-- **Widening the calls of a class.**  If the catalog answers every name and no class stands above
itself, then widening always gives a class, and the same one from every session.  All that is changed
are instructions whose call moves: to another owner, or to another kind of call.  Widening the class
that comes of it changes nothing. -/
theorem widenCalls_spec (answers : table.catalog.Answers) (hloopless : table.catalog.Loopless)
    (cls : ClassFile) :
    ∃ widen : Instruction → Instruction, (∀ instruction, table.Widens instruction (widen instruction)) ∧
      Always (table.widenCalls cls) (cls.mapInstructions widen) ∧
      Always (table.widenCalls (cls.mapInstructions widen)) (cls.mapInstructions widen) := by
  choose answerOf hsearch hnone halways using fun call : Callee =>
    widenCall_spec answers hloopless call.1.name call.1.descriptor call.1.owner
  have hcalls := fun cls context call => halways call cls context
  have htwice : ∀ instruction, step answerOf (step answerOf instruction) =
      step answerOf instruction := by
    intro instruction
    cases hcallee : instruction.callee? with
    | none => simp only [step, hcallee]
    | some call =>
        have hmoved := Instruction.callee?_withCallee (move call (answerOf call)) hcallee
        simp only [step, hcallee, hmoved, Instruction.withCallee_withCallee _ _ hcallee]
        rw [move_move hsearch hnone]
  refine ⟨step answerOf, fun instruction => ?_, widenCalls_always cls hcalls, ?_⟩
  · unfold Widens step
    cases instruction.callee? with
    | none => rfl
    | some call => exact ⟨_, moves_of_search (hsearch call) (hnone call), rfl⟩
  · have hagain := widenCalls_always (cls.mapInstructions (step answerOf)) hcalls
    rwa [mapInstructions_mapInstructions htwice] at hagain

section Threads

/-- The outlines of an older release, in which one class has a method only from its super class and
another one only from an interface. -/
def threadOutlines : List ClassOutline :=
  [{ name := "java/nio/Buffer", superClass := some ClassName.javaObject,
      methods := [⟨"flip", "()V", false⟩] },
    { name := "java/nio/ByteBuffer", superClass := some "java/nio/Buffer" },
    { name := "java/lang/Runnable", superClass := some ClassName.javaObject, isInterface := true,
      methods := [⟨"run", "()V", false⟩] },
    { name := "java/lang/Thread", superClass := some ClassName.javaObject,
      interfaces := ["java/lang/Runnable"] }]

/-- The symbols of that release. -/
def threads : SymbolTable where
  release := default
  inventory := Std.HashSet.ofList ["java/nio/ByteBuffer", "java/lang/Thread"]
  catalog := .ofOutlines threadOutlines

/-- How far a class is from the top. -/
def threadHeight (name : ClassName) : Nat :=
  if name = "java/nio/ByteBuffer" ∨ name = "java/lang/Thread" then 2
  else if name = "java/nio/Buffer" ∨ name = "java/lang/Runnable" then 1
  else 0

/-- No class of the release stands above itself. -/
theorem loopless_threads : threads.catalog.Loopless :=
  Lookup.loopless_ofOutlines threadHeight (by decide)

/-- Of the classes above threads only one declares how they are run. -/
theorem soleHolder_threads : threads.catalog.SoleHolder (·.hasOpenMethod "run" "()V")
    "java/lang/Thread" "java/lang/Runnable" where
  above := by
    refine .single ⟨_, Lookup.resolve_ofOutlines _ _, ?_⟩
    decide
  declared := ⟨_, Lookup.resolve_ofOutlines _ _, by decide⟩
  unique other _ hdeclared := by
    obtain ⟨outline, hfound, hdeclares⟩ := hdeclared
    obtain ⟨hmem, rfl⟩ := Lookup.mem_of_resolve_ofOutlines hfound
    simp only [threadOutlines, List.mem_cons, List.not_mem_nil, or_false] at hmem
    rcases hmem with rfl | rfl | rfl | rfl
    · exact absurd hdeclares (by decide)
    · exact absurd hdeclares (by decide)
    · rfl
    · exact absurd hdeclares (by decide)

/-- **A call on a thread becomes one on the interface that declares the method**, and a second run
finds nothing to do. -/
theorem widenCalls_spec_threads :
    threads.catalog.Answers ∧ threads.catalog.Loopless ∧
      let call : MethodRef := ⟨"java/lang/Thread", "run", "()V"⟩
      let widened : MethodRef := ⟨"java/lang/Runnable", "run", "()V"⟩
      Always (threads.widenCalls (doing (.invokevirtual call))) (doing (.invokeinterface widened)) ∧
        Always (threads.widenCalls (doing (.invokeinterface widened)))
          (doing (.invokeinterface widened)) := by
  have answers : threads.catalog.Answers := Lookup.answers_ofOutlines threadOutlines
  refine ⟨answers, loopless_threads, ?_⟩
  obtain ⟨widen, hwidens, hfirst, hsecond⟩ := widenCalls_spec answers loopless_threads
    (doing (.invokevirtual ⟨"java/lang/Thread", "run", "()V"⟩))
  obtain ⟨⟨target, flag⟩, hmoves, hwiden⟩ :=
    hwidens (.invokevirtual ⟨"java/lang/Thread", "run", "()V"⟩)
  have hknown : "java/lang/Thread" ∈ threads.inventory := by simp [threads]
  obtain ⟨howner, hflag⟩ := hmoves.sole hknown "java/lang/Runnable" soleHolder_threads
  have htarget : target = ⟨"java/lang/Runnable", "run", "()V"⟩ := by
    rw [show target = _ from hmoves.method, show target.owner = _ from howner]
  have hinterface : flag = true :=
    hflag.mpr ⟨_, Lookup.resolve_ofOutlines _ _, by decide⟩
  have hclass : (doing (.invokevirtual ⟨"java/lang/Thread", "run", "()V"⟩)).mapInstructions widen =
      doing (.invokeinterface ⟨"java/lang/Runnable", "run", "()V"⟩) := by
    rw [htarget, hinterface] at hwiden
    exact congrArg doing hwiden
  rw [hclass] at hfirst hsecond
  exact ⟨hfirst, hsecond⟩

end Threads

end SymbolTable

end Downlevel
