import Downlevel.Proofs.Lower.Constants
import Downlevel.Proofs.Lower.Conversion
import Downlevel.Proofs.Lower.Pieces
import Downlevel.Proofs.Lower.Record

/-!
# Where the methods of a lowered class come from

Whatever a pass does, each method behind it is one of those from before, with its code touched up
instruction by instruction; or one whose code was written anew; or one that was added.  This file
says so once, with all that can happen to the access and to the code of a method, so that what holds
of all methods can be followed through the passes case by case.

* `Code.Continues` — what touching up leaves alone: the places of the labels, and the tables;
* `Pass.Writes`, `Pass.Alters` — the code that a pass writes, and what it does to access flags;
* `Pass.run_origin` — **every method behind a pass has an origin**.
-/

namespace Downlevel

open Instruction

/-- An instruction may take the place of another one as far as labels and arguments are concerned. -/
def Instruction.Follows (old new : Instruction) : Prop :=
  new.Loose ∨ (new.targets = old.targets ∧ (old.Counted → new.Counted))

/-- An instruction may stay. -/
theorem Instruction.Follows.refl (instruction : Instruction) : instruction.Follows instruction :=
  .inr ⟨rfl, id⟩

/-- What takes the place of a loose instruction is loose. -/
theorem Instruction.Follows.loose {old new : Instruction} (h : old.Follows new)
    (hold : old.Loose) : new.Loose := by
  rcases h with hnew | ⟨htargets, hcounted⟩
  · exact hnew
  · exact ⟨htargets.trans hold.1, hcounted hold.2⟩

/-- What may take the place of an instruction, and what may take its place. -/
theorem Instruction.Follows.trans {first second third : Instruction} (h : first.Follows second)
    (h' : second.Follows third) : first.Follows third := by
  rcases h' with hloose | ⟨htargets, hcounted⟩
  · exact .inl hloose
  · rcases h with hloose | ⟨htargets', hcounted'⟩
    · exact .inl ⟨htargets.trans hloose.1, hcounted hloose.2⟩
    · exact .inr ⟨htargets.trans htargets', hcounted ∘ hcounted'⟩

/-- Code comes of other code: labels and tables stay, and each instruction is loose or follows one
from before. -/
structure Code.Continues (code code' : Code) : Prop where
  placed : code'.placed = code.placed
  lastLabel : code'.lastLabel = code.lastLabel
  exceptions : code'.exceptions = code.exceptions
  lineNumbers : code'.lineNumbers = code.lineNumbers
  localVariables : code'.localVariables = code.localVariables
  instructions : ∀ entry' ∈ code'.instructions, entry'.instruction.Loose ∨
    ∃ entry ∈ code.instructions, entry.instruction.Follows entry'.instruction

/-- A method comes of another one: the name and the descriptor stay, and its code comes of the code
of the other one. -/
structure Method.Continues (method method' : Method) : Prop where
  name : method'.name = method.name
  descriptor : method'.descriptor = method.descriptor
  code : ∀ code', method'.code = some code' → ∃ code, method.code = some code ∧ code.Continues code'

namespace Code

variable {code : Code}

/-- Code with the same instructions and tables. -/
theorem Continues.of_same {code' : Code} (hinstructions : code'.instructions = code.instructions)
    (hlast : code'.lastLabel = code.lastLabel) (hexceptions : code'.exceptions = code.exceptions)
    (hlines : code'.lineNumbers = code.lineNumbers)
    (hlocals : code'.localVariables = code.localVariables) : code.Continues code' where
  placed := by rw [Code.placed, Code.placed, hinstructions]
  lastLabel := hlast
  exceptions := hexceptions
  lineNumbers := hlines
  localVariables := hlocals
  instructions entry hentry := .inr ⟨entry, hinstructions ▸ hentry, .refl _⟩

/-- Instructions that were replaced one by one, with the labels left in place, have the labels of
those from before. -/
theorem filterMap_label {entries entries' : List Labelled}
    (h : List.Forall₂ (fun entry entry' => entry'.label = entry.label) entries entries') :
    entries'.filterMap Labelled.label = entries.filterMap Labelled.label := by
  induction h with
  | nil => rfl
  | cons hfirst _ ih => rw [List.filterMap_cons, List.filterMap_cons, hfirst, ih]

/-- Code whose instructions were replaced one by one, with the labels left in place. -/
theorem Continues.of_forall₂ {instructions : List Labelled}
    (h : List.Forall₂ (fun entry entry' => entry'.label = entry.label ∧
      entry.instruction.Follows entry'.instruction) code.instructions instructions) :
    code.Continues { code with instructions := instructions } where
  placed := filterMap_label (h.imp fun _ _ hstep => hstep.1)
  lastLabel := rfl
  exceptions := rfl
  lineNumbers := rfl
  localVariables := rfl
  instructions entry' hentry' := by
    obtain ⟨entry, hentry, -, hfollows⟩ := exists_left_of_forall₂ h hentry'
    exact .inr ⟨entry, hentry, hfollows⟩

/-- Code that starts with some more instructions, which are straight. -/
theorem Continues.of_front {front : List Instruction}
    (h : ∀ instruction ∈ front, instruction.Straight) :
    code.Continues { code with
      instructions := front.map Instruction.plain ++ code.instructions } where
  placed := by
    have hnone : (front.map Instruction.plain).filterMap Labelled.label = [] := by
      rw [List.filterMap_map]
      exact List.filterMap_eq_nil_iff.mpr fun _ _ => rfl
    unfold Code.placed
    dsimp only
    rw [List.filterMap_append, hnone, List.nil_append]
  lastLabel := rfl
  exceptions := rfl
  lineNumbers := rfl
  localVariables := rfl
  instructions entry hentry := by
    rcases List.mem_append.mp hentry with hfront | hback
    · obtain ⟨instruction, hinstruction, rfl⟩ := List.mem_map.mp hfront
      exact .inl (h instruction hinstruction).loose
    · exact .inr ⟨entry, hback, .refl _⟩

/-- Code that comes of code that comes of other code. -/
theorem Continues.trans {code' code'' : Code} (h : code.Continues code')
    (h' : code'.Continues code'') : code.Continues code'' where
  placed := h'.placed.trans h.placed
  lastLabel := h'.lastLabel.trans h.lastLabel
  exceptions := h'.exceptions.trans h.exceptions
  lineNumbers := h'.lineNumbers.trans h.lineNumbers
  localVariables := h'.localVariables.trans h.localVariables
  instructions entry'' hentry'' := by
    rcases h'.instructions entry'' hentry'' with hloose | ⟨entry', hentry', hfollows'⟩
    · exact .inl hloose
    · rcases h.instructions entry' hentry' with hloose | ⟨entry, hentry, hfollows⟩
      · exact .inl (hfollows'.loose hloose)
      · exact .inr ⟨entry, hentry, hfollows.trans hfollows'⟩

end Code

namespace Method

variable {method : Method}

/-- A method with the same code. -/
theorem Continues.of_same {method' : Method} (hname : method'.name = method.name)
    (hdescriptor : method'.descriptor = method.descriptor) (hcode : method'.code = method.code) :
    method.Continues method' where
  name := hname
  descriptor := hdescriptor
  code code' hcode' := ⟨code', hcode ▸ hcode', .of_same rfl rfl rfl rfl rfl⟩

/-- A method whose code was changed, if it has any. -/
theorem Continues.of_map {f : Code → Code} (h : ∀ code, method.code = some code →
    code.Continues (f code)) : method.Continues { method with code := method.code.map f } where
  name := rfl
  descriptor := rfl
  code code' hcode' := by
    obtain ⟨code, hcode, rfl⟩ := Option.map_eq_some_iff.mp hcode'
    exact ⟨code, hcode, h code hcode⟩

/-- A method that comes of one that comes of another one. -/
theorem Continues.trans {method' method'' : Method} (h : method.Continues method')
    (h' : method'.Continues method'') : method.Continues method'' where
  name := h'.name.trans h.name
  descriptor := h'.descriptor.trans h.descriptor
  code code'' hcode'' := by
    obtain ⟨code', hcode', hcontinues'⟩ := h'.code code'' hcode''
    obtain ⟨code, hcode, hcontinues⟩ := h.code code' hcode'
    exact ⟨code, hcode, hcontinues.trans hcontinues'⟩

end Method

/-- The code that passes write for a class. -/
inductive Pass.Writes (cls : ClassFile) : Pass → Code → Prop where
  | concat {site : CallSite} {code : Code} (h : Concat.generate site = .ok (some code)) :
      Writes cls .dynamicStringConcat code
  | switch {method : Method} {site : CallSite} {code : Code} (mem : method ∈ cls.methods)
      (occurs : site ∈ Record.callSites method) (h : Switch.generate site = .ok (some code)) :
      Writes cls .dynamicSwitchPatterns code
  | bouncer {bouncer : Constants.Bouncer} {code : Code} {found found' : Constants.Found}
      (h : Constants.bouncerCode cls bouncer found = .ok (code, found')) :
      Writes cls .explicitConstants code
  | accessor {name : String} {constant : Constants.Dynamic} {code : Code}
      {found found' : Constants.Found}
      (h : Constants.accessorCode cls name constant found = .ok (code, found')) :
      Writes cls .explicitConstants code
  | standard {standard : Record.Standard} {code : Code}
      (h : Record.linkedBody cls.name (Record.components cls) standard = .ok code) :
      Writes cls .recordToClass code

/-- What passes do to the access flags of a method. -/
inductive Pass.Alters (cls : ClassFile) (access : MethodAccess) : Pass → MethodAccess → Prop where
  | same {pass : Pass} : Alters cls access pass access
  | strict : Alters cls access .alwaysStrict { access with isStrict := true }
  | opened (nest : cls.nestHost.isSome = true ∨ cls.nestMembers.isSome = true) :
      Alters cls access .nestHostToPackage { access with isPrivate := false }
  | published : Alters cls access .recordToClass
      { access with isPrivate := false, isProtected := false, isPublic := true }

/-- Where a method behind a pass comes from. -/
inductive Method.Origin (pass : Pass) (cls : ClassFile) (method' : Method) : Prop where
  /-- It was there, and its code was touched up. -/
  | kept {method : Method} (mem : method ∈ cls.methods) (continues : method.Continues method')
      (access : pass.Alters cls method.access method'.access)
  /-- It was there, and its code was written anew. -/
  | rewritten {method : Method} {code : Code} (mem : method ∈ cls.methods)
      (name : method'.name = method.name) (access : pass.Alters cls method.access method'.access)
      (held : method'.code = some code) (writes : pass.Writes cls code)
  /-- It was added. -/
  | added {name : MethodName} {descriptor : MethodDescriptor} {code : Code}
      (writes : pass.Writes cls code)
      (eq : method' = Method.ofCode cls.addedMethodAccess name descriptor code)
  /-- It was added to initialize the class. -/
  | initializer (continues : Constants.emptyInitializer.Continues method')

/-! ## Call sites -/

namespace CallSites

variable {plan : Plan} {method : Method} {progress progress' : Progress}

/-- One instruction keeps its label, and what takes its place is the call of a method that was
added. -/
theorem replaceInstruction_follows {entry entry' : Labelled}
    (h : replaceInstruction plan method entry progress = .ok (entry', progress')) :
    entry'.label = entry.label ∧ entry.instruction.Follows entry'.instruction := by
  rcases replaceInstruction_cases h with ⟨_, _, _, _, -, -, -, rfl, -⟩ | ⟨-, rfl, -⟩
  · exact ⟨rfl, .inl ⟨rfl, trivial⟩⟩
  · exact ⟨rfl, .refl _⟩

/-- A method was added for a site of the class. -/
def AddedFor (plan : Plan) (method : Method) : Prop :=
  ∃ caller ∈ plan.cls.methods, ∃ site ∈ Record.callSites caller, ∃ name body,
    plan.generate site = .ok (some body) ∧
      method = Method.ofCode plan.cls.addedMethodAccess name site.descriptor body

/-- A call site in the code of a method is among its call sites. -/
theorem mem_callSites {code : Code} {entry : Labelled} {site : CallSite}
    (hcode : method.code = some code) (hentry : entry ∈ code.instructions)
    (hsite : entry.instruction = .invokedynamic site) : site ∈ Record.callSites method := by
  unfold Record.callSites
  rw [hcode]
  exact List.mem_filterMap.mpr ⟨entry, hentry, by rw [hsite]⟩

/-- One method of the class comes of what it was, and every method that is added is added for a
site. -/
theorem replaceMethod_continues {method' : Method} (hmethod : method ∈ plan.cls.methods)
    (h : replaceMethod plan method progress = .ok (method', progress')) :
    method.Continues method' ∧ method'.access = method.access ∧
      ((∀ added ∈ progress.added, AddedFor plan added) →
        ∀ added ∈ progress'.added, AddedFor plan added) := by
  unfold replaceMethod at h
  cases hcode : method.code with
  | none =>
      simp only [hcode, work_pure_eq_ok] at h
      obtain ⟨rfl, rfl⟩ := h
      exact ⟨.of_same rfl rfl rfl, rfl, id⟩
  | some code =>
      simp only [hcode, work_bind_eq_ok, work_pure_eq_ok] at h
      obtain ⟨instructions, t, hmap, rfl, rfl⟩ := h
      refine ⟨⟨rfl, rfl, ?_⟩, rfl, ?_⟩
      · rintro _ ⟨⟩
        refine ⟨code, hcode, .of_forall₂ ((work_mapM_forall₂ hmap).imp ?_)⟩
        intro entry entry' hstep
        obtain ⟨_, _, hstep⟩ := hstep
        exact replaceInstruction_follows hstep
      · refine work_mapM_run (fun t t' => (∀ added ∈ t.added, AddedFor plan added) →
          ∀ added ∈ t'.added, AddedFor plan added) (fun _ => id) (fun hfirst hthen => hthen ∘ hfirst)
          (fun entry hentry t entry' t' hstep hold => ?_) hmap
        rcases replaceInstruction_cases hstep with
          ⟨site, body, name, names, hsite, hgenerate, -, -, rfl⟩ | ⟨-, -, rfl⟩
        · intro added hadded
          rcases List.mem_cons.mp hadded with rfl | hearlier
          · have hoccurs := mem_callSites hcode hentry hsite
            exact ⟨method, hmethod, site, hoccurs, name, body, hgenerate, rfl⟩
          · exact hold added hearlier
        · exact hold

end CallSites

/-- Behind the replacement of call sites, a method comes of one that was there, or was added for a
site. -/
theorem ClassFile.replaceCallSites_methods {cls : ClassFile} {basename : String}
    {generate : CallSite → Except Error (Option Code)} {lowered : Lowered}
    (h : cls.replaceCallSites basename generate = .ok lowered) {method' : Method}
    (hmem : method' ∈ lowered.cls.methods) :
    (∃ method ∈ cls.methods, method.Continues method' ∧ method'.access = method.access) ∨
      CallSites.AddedFor ⟨cls, basename, generate⟩ method' := by
  obtain ⟨methods, progress, hrun, rfl⟩ := replaceCallSites_run h
  rcases List.mem_append.mp hmem with hold | hnew
  · obtain ⟨method, hmethod, _, _, hstep⟩ := exists_left_of_forall₂ (work_mapM_forall₂ hrun) hold
    obtain ⟨hcontinues, haccess, -⟩ := CallSites.replaceMethod_continues hmethod hstep
    exact .inl ⟨method, hmethod, hcontinues, haccess⟩
  · have hadded := work_mapM_run
      (fun t t' => (∀ added ∈ t.added, CallSites.AddedFor ⟨cls, basename, generate⟩ added) →
        ∀ added ∈ t'.added, CallSites.AddedFor ⟨cls, basename, generate⟩ added)
      (fun _ => id) (fun hfirst hthen => hthen ∘ hfirst)
      (fun method hmethod t method' t' hstep =>
        (CallSites.replaceMethod_continues hmethod hstep).2.2) hrun
    exact .inr (hadded (fun _ hnone => by cases hnone) method' (List.mem_reverse.mp hnew))

/-! ## Constants -/

namespace Constants

section Replace

variable {cls : ClassFile} {found found' : Found}

/-- What takes the place of an instruction with dynamic constants asks for no more than it did. -/
theorem replaceInstruction_follows {instruction instruction' : Instruction}
    {bouncer : Option Bouncer}
    (h : replaceInstruction cls instruction found = .ok ((instruction', bouncer), found')) :
    instruction.Follows instruction' := by
  rcases replaceInstruction_run h with ⟨-, rfl, -, -⟩ | ⟨_, _, -, -, hload, -⟩ |
    ⟨site, _, _, rfl, -, -, rfl, -, -⟩
  · exact .refl _
  · exact .inl (load_spec hload).1.loose
  · exact .inr ⟨rfl, fun _ => Nat.zero_lt_succ _⟩

/-- One method of the class comes of what it was. -/
theorem replaceMethod_continues {method : Method} {replaced : Method × List Bouncer}
    (h : replaceMethod cls method found = .ok (replaced, found')) :
    method.Continues replaced.1 ∧ replaced.1.access = method.access := by
  unfold replaceMethod at h
  cases hcode : method.code with
  | none =>
      simp only [hcode, work_pure_eq_ok] at h
      obtain ⟨rfl, rfl⟩ := h
      exact ⟨.of_same rfl rfl rfl, rfl⟩
  | some code =>
      simp only [hcode, work_bind_eq_ok, work_pure_eq_ok, placed, within_eq_ok] at h
      obtain ⟨⟨code', bouncers⟩, t, hrun, rfl, rfl⟩ := h
      obtain ⟨replaced, hmap, rfl, rfl⟩ := replaceCode_run hrun
      refine ⟨⟨rfl, rfl, ?_⟩, rfl⟩
      rintro _ ⟨⟩
      refine ⟨code, hcode, .of_forall₂ (List.forall₂_map_right_iff.mpr ?_)⟩
      refine (work_mapM_forall₂ hmap).imp ?_
      rintro entry ⟨entry', bouncer⟩ ⟨_, _, hstep⟩
      obtain ⟨hlabel, hinstruction⟩ := replaceEntry_eq_ok hstep
      exact ⟨hlabel, replaceInstruction_follows hinstruction⟩

end Replace

section Locks

variable {front : List Instruction}

/-- A method that starts with some more instructions comes of what it was. -/
theorem startWith_continues {method method' : Method} (h : startWith front method = .ok method')
    (hfront : ∀ instruction ∈ front, instruction.Straight) :
    method.Continues method' ∧ method'.access = method.access := by
  unfold startWith at h
  simp only [bind_eq_ok, pure_eq_ok, orFail_eq_ok] at h
  obtain ⟨code, hcode, rfl⟩ := h
  refine ⟨⟨rfl, rfl, ?_⟩, rfl⟩
  rintro _ ⟨⟩
  exact ⟨code, hcode, .of_front hfront⟩

/-- Methods of which one starts with some more instructions come of what they were, or of a method
that does nothing. -/
theorem startFirst_continues {methods methods' : List Method}
    (h : startFirst front methods = .ok methods')
    (hfront : ∀ instruction ∈ front, instruction.Straight) :
    ∀ method' ∈ methods', emptyInitializer.Continues method' ∨
      ∃ method ∈ methods, method.Continues method' ∧ method'.access = method.access := by
  induction methods generalizing methods' with
  | nil =>
      simp only [startFirst, bind_eq_ok, pure_eq_ok] at h
      obtain ⟨initializer, hstart, rfl⟩ := h
      intro method' hmem
      rw [List.mem_singleton.mp hmem]
      exact .inl (startWith_continues hstart hfront).1
  | cons first rest ih =>
      unfold startFirst at h
      split at h
      · simp only [bind_eq_ok, pure_eq_ok] at h
        obtain ⟨started, hstart, rfl⟩ := h
        intro method' hmem
        rcases List.mem_cons.mp hmem with rfl | hrest
        · exact .inr ⟨first, List.mem_cons_self, startWith_continues hstart hfront⟩
        · exact .inr ⟨method', List.mem_cons_of_mem _ hrest, .of_same rfl rfl rfl, rfl⟩
      · simp only [bind_eq_ok, pure_eq_ok] at h
        obtain ⟨others, hothers, rfl⟩ := h
        intro method' hmem
        rcases List.mem_cons.mp hmem with rfl | hrest
        · exact .inr ⟨method', List.mem_cons_self, .of_same rfl rfl rfl, rfl⟩
        · rcases ih hothers method' hrest with hnew | ⟨method, hmethod, hcontinues⟩
          · exact .inl hnew
          · exact .inr ⟨method, List.mem_cons_of_mem _ hmethod, hcontinues⟩

/-- Creating the locks leaves methods that come of what they were, or of a method that does
nothing. -/
theorem addLocks_continues {owner : ClassName} {names : List String}
    {methods methods' : List Method} (h : addLocks owner names methods = .ok methods') :
    ∀ method' ∈ methods', emptyInitializer.Continues method' ∨
      ∃ method ∈ methods, method.Continues method' ∧ method'.access = method.access := by
  unfold addLocks at h
  split at h
  · cases h
    exact fun method' hmem => .inr ⟨method', hmem, .of_same rfl rfl rfl, rfl⟩
  · refine startFirst_continues h fun instruction hmem => ?_
    obtain ⟨name, _, hlock⟩ := List.mem_flatMap.mp hmem
    exact straight_createLock hlock

end Locks

/-- A method behind the lowering of constants comes of one that was there or initializes the class, or it
is a bouncer or an accessor. -/
theorem dynamicConstants_methods {cls : ClassFile} {lowered : Lowered}
    (h : Lower.dynamicConstants cls = .ok lowered) {method' : Method}
    (hmem : method' ∈ lowered.cls.methods) :
    (∃ method ∈ cls.methods, method.Continues method' ∧ method'.access = method.access) ∨
      emptyInitializer.Continues method' ∨
      (∃ bouncer found found', bouncerMethod cls bouncer found = .ok (method', found')) ∨
      ∃ name constant found found', accessorMethod cls name constant found = .ok (method', found') := by
  obtain ⟨replaced, found, hrun, ⟨-, -, rfl⟩ |
    ⟨bouncers, found₁, accessors, found₂, methods, hbouncers, haccessors, hlocks, -, -, rfl⟩⟩ :=
    dynamicConstants_run h
  · exact .inl ⟨method', hmem, .of_same rfl rfl rfl, rfl⟩
  · rcases List.mem_append.mp hmem with hfront | haccessor
    · rcases List.mem_append.mp hfront with hold | hbouncer
      · rcases addLocks_continues hlocks method' hold with
          hnew | ⟨between, hbetween, hcontinues', haccess'⟩
        · exact .inr (.inl hnew)
        · obtain ⟨result, hresult, rfl⟩ := List.mem_map.mp hbetween
          obtain ⟨method, hmethod, _, _, hstep⟩ :=
            exists_left_of_forall₂ (work_mapM_forall₂ hrun) hresult
          obtain ⟨hcontinues, haccess⟩ := replaceMethod_continues hstep
          exact .inl ⟨method, hmethod, hcontinues.trans hcontinues', haccess'.trans haccess⟩
      · obtain ⟨bouncer, _, _, _, hstep⟩ :=
          exists_left_of_forall₂ (work_mapM_forall₂ hbouncers) hbouncer
        exact .inr (.inr (.inl ⟨bouncer, _, _, hstep⟩))
    · obtain ⟨accessor, hin, rfl⟩ := List.mem_map.mp haccessor
      exact .inr (.inr (.inr (haccessors.accessorMethod accessor hin)))

/-- Every method behind the lowering of constants has an origin. -/
theorem dynamicConstants_origin {cls : ClassFile} {lowered : Lowered}
    (h : Lower.dynamicConstants cls = .ok lowered) {method' : Method}
    (hmem : method' ∈ lowered.cls.methods) : method'.Origin .explicitConstants cls := by
  rcases dynamicConstants_methods h hmem with ⟨method, hmethod, hcontinues, haccess⟩ | hnew |
    ⟨_, _, _, hstep⟩ | ⟨_, _, _, _, hstep⟩
  · refine .kept hmethod hcontinues ?_
    rw [haccess]
    exact .same
  · exact .initializer hnew
  · obtain ⟨code, hcode, heq⟩ := bouncerMethod_run hstep
    exact .added (.bouncer hcode) heq
  · obtain ⟨code, hcode, heq⟩ := accessorMethod_run hstep
    exact .added (.accessor hcode) heq

end Constants

/-! ## Records and the exception for failed matches -/

/-- A method of a record becomes one of a plain class: its code is touched up, or written anew if it
was linked. -/
theorem Record.lowerMethod_cases {cls : ClassFile} {method method' : Method}
    (h : lowerMethod cls.name (components cls) method = .ok method') :
    (method.Continues method' ∧ Pass.Alters cls method.access .recordToClass method'.access) ∨
      ∃ standard code, Standard.of? method = some standard ∧
        linkedBody cls.name (components cls) standard = .ok code ∧
        method' = { method with
          access := { method.access with isPrivate := false, isProtected := false, isPublic := true }
          code := some code } := by
  unfold lowerMethod at h
  split at h
  · simp only [pure_eq_ok] at h
    subst h
    refine .inl ⟨.of_map fun code _ => .of_forall₂ ?_, .same⟩
    refine List.forall₂_map_right_iff.mpr (List.forall₂_same.mpr fun entry _ => ⟨rfl, ?_⟩)
    rcases retarget_cases entry.instruction with hsame | hnew
    · dsimp only
      rw [hsame]
      exact .refl _
    · exact .inl hnew.loose
  · split at h
    · simp only [pure_eq_ok] at h
      subst h
      exact .inl ⟨.of_same rfl rfl rfl, .same⟩
    · next standard hstandard =>
      dsimp only at h
      split at h
      · simp only [bind_eq_ok, pure_eq_ok] at h
        obtain ⟨code, hcode, rfl⟩ := h
        exact .inr ⟨standard, code, hstandard, hcode, rfl⟩
      · simp only [pure_eq_ok] at h
        subst h
        exact .inl ⟨.of_same rfl rfl rfl, .published⟩

/-- A method of a record has an origin behind. -/
theorem Record.lowerMethod_origin {cls : ClassFile} {method method' : Method}
    (hmethod : method ∈ cls.methods)
    (h : lowerMethod cls.name (components cls) method = .ok method') :
    method'.Origin .recordToClass cls := by
  rcases lowerMethod_cases h with ⟨hcontinues, haccess⟩ | ⟨_, _, -, hcode, rfl⟩
  · exact .kept hmethod hcontinues haccess
  · exact .rewritten hmethod rfl .published rfl (.standard hcode)

namespace MatchFailure

/-- Something takes the place of an instruction about the exception. -/
theorem replace_ne_nil (instruction : Instruction) : replace instruction ≠ [] := by
  unfold replace constructorCall
  repeat' split
  all_goals exact List.cons_ne_nil _ _

/-- The first of the new instructions carries the label. -/
theorem filterMap_label_replaceEntry (entry : Labelled) :
    (replaceEntry entry).filterMap Labelled.label = entry.label.toList := by
  have hplain : ∀ instructions : List Instruction,
      (instructions.map Instruction.plain).filterMap Labelled.label = [] := by
    intro instructions
    rw [List.filterMap_map]
    exact List.filterMap_eq_nil_iff.mpr fun _ _ => rfl
  have hcons : ∀ (instruction : Instruction) (rest : List Labelled),
      rest.filterMap Labelled.label = [] →
      ((⟨entry.label, instruction⟩ : Labelled) :: rest).filterMap Labelled.label =
        entry.label.toList := by
    intro instruction rest hrest
    rw [List.filterMap_cons, hrest]
    cases entry.label <;> rfl
  unfold replaceEntry
  split
  · split
    · next hreplace => exact absurd hreplace (replace_ne_nil entry.instruction)
    · exact hcons _ _ (hplain _)
  · exact hcons entry.instruction [] rfl

/-- Replacing the exception touches code up. -/
theorem replaceIn_continues (method : Method) : method.Continues (replaceIn method) := by
  refine .of_map fun code _ => ⟨?_, rfl, rfl, rfl, rfl, ?_⟩
  · unfold Code.placed
    rw [List.filterMap_flatMap]
    simp only [filterMap_label_replaceEntry]
    exact (List.filterMap_eq_flatMap_toList _ _).symm
  · intro entry' hentry'
    obtain ⟨entry, hentry, hreplaced⟩ := List.mem_flatMap.mp hentry'
    rcases mem_replaceEntry hreplaced with ⟨-, rfl⟩ | ⟨hnew, -⟩
    · exact .inr ⟨entry', hentry, .refl _⟩
    · exact .inl hnew.loose

end MatchFailure

/-! ## All passes -/

variable {cls : ClassFile} {lowered : Lowered}

/-- **Every method behind a pass has an origin**: it was there, touched up or written anew, or it was
added. -/
theorem Pass.run_origin {pass : Pass} (h : pass.run cls = .ok lowered) :
    ∀ method' ∈ lowered.cls.methods, method'.Origin pass cls := by
  intro method' hmem
  cases pass with
  | moduleRemover =>
      cases h
      exact .kept hmem (.of_same rfl rfl rfl) .same
  | unsealClasses =>
      cases h
      exact .kept hmem (.of_same rfl rfl rfl) .same
  | dynamicStringConcat =>
      rcases ClassFile.replaceCallSites_methods h hmem with
        ⟨method, hmethod, hcontinues, haccess⟩ | ⟨_, _, site, _, name, body, hbody, heq⟩
      · refine .kept hmethod hcontinues ?_
        rw [haccess]
        exact .same
      · exact .added (.concat hbody) heq
  | dynamicSwitchPatterns =>
      rcases ClassFile.replaceCallSites_methods h hmem with
        ⟨method, hmethod, hcontinues, haccess⟩ | ⟨caller, hcaller, site, hsite, name, body, hbody, heq⟩
      · refine .kept hmethod hcontinues ?_
        rw [haccess]
        exact .same
      · exact .added (.switch hcaller hsite hbody) heq
  | explicitConstants => exact Constants.dynamicConstants_origin h hmem
  | nestHostToPackage =>
      simp only [run, Except.ok.injEq] at h
      subst h
      unfold Lower.openNest at hmem
      split at hmem
      · exact .kept hmem (.of_same rfl rfl rfl) .same
      · next hnest =>
          obtain ⟨method, hmethod, rfl⟩ := List.mem_map.mp hmem
          refine .kept hmethod (.of_same rfl rfl rfl) (.opened ?_)
          simpa [or_iff_not_imp_left, Option.isSome_iff_ne_none] using hnest
  | recordToClass =>
      simp only [run, Lower.recordToClass] at h
      split at h
      · simp only [bind_eq_ok, pure_eq_ok] at h
        obtain ⟨methods, hmap, rfl⟩ := h
        obtain ⟨method, hmethod, hlower⟩ := exists_left_of_forall₂ (mapM_eq_ok_forall₂ hmap) hmem
        exact Record.lowerMethod_origin hmethod hlower
      · simp only [pure_eq_ok] at h
        subst h
        exact .kept hmem (.of_same rfl rfl rfl) .same
  | alwaysStrict =>
      cases h
      obtain ⟨method, hmethod, rfl⟩ := List.mem_map.mp hmem
      split
      · exact .kept hmethod (.of_same rfl rfl rfl) .strict
      · exact .kept hmethod (.of_same rfl rfl rfl) .same
  | matchExceptionFixer =>
      cases h
      obtain ⟨method, hmethod, rfl⟩ := List.mem_map.mp hmem
      exact .kept hmethod (MatchFailure.replaceIn_continues method) .same
  | removeAttributes =>
      cases h
      obtain ⟨method, hmethod, rfl⟩ := List.mem_map.mp hmem
      refine .kept hmethod ⟨rfl, rfl, fun code' hcode' => ?_⟩ .same
      obtain ⟨code, hcode, rfl⟩ := Option.map_eq_some_iff.mp hcode'
      exact ⟨code, hcode, .of_same rfl rfl rfl rfl rfl⟩

/-! ## Widening -/

/-- A widened instruction asks for no more than it did. -/
theorem SymbolTable.widenInstruction_follows {table : SymbolTable} {owner : ClassName}
    {place : String} {instruction instruction' : Instruction} {session session' : Session}
    (h : table.widenInstruction owner place instruction session = (.ok instruction', session')) :
    instruction.Follows instruction' := by
  rcases widenInstruction_cases h with rfl | ⟨found, rfl⟩ | ⟨site, found, rfl, rfl⟩
  · exact .refl _
  · obtain ⟨target, _ | _⟩ := found <;> exact .inl ⟨rfl, trivial⟩
  · exact .inr ⟨rfl, id⟩

/-- Behind the widening of calls, every method comes of one that was there, with the same access. -/
theorem SymbolTable.widenCalls_methods {table : SymbolTable} {cls cls' : ClassFile}
    {session session' : Session} (h : table.widenCalls cls session = (.ok cls', session')) :
    ∀ method' ∈ cls'.methods, ∃ method ∈ cls.methods,
      method.Continues method' ∧ method'.access = method.access := by
  obtain ⟨methods, hmap, rfl⟩ := widenCalls_run h
  intro method' hmem
  obtain ⟨method, hmethod, _, _, hstep⟩ := exists_left_of_forall₂ (task_mapM_forall₂ hmap) hmem
  refine ⟨method, hmethod, ?_⟩
  rcases widenMethod_run hstep with ⟨-, rfl⟩ | ⟨code, instructions, hcode, hwidened, rfl⟩
  · exact ⟨.of_same rfl rfl rfl, rfl⟩
  · refine ⟨⟨rfl, rfl, ?_⟩, rfl⟩
    rintro _ ⟨⟩
    refine ⟨code, hcode, .of_forall₂ (hwidened.imp ?_)⟩
    rintro entry entry' ⟨hlabel, _, _, hwiden⟩
    exact ⟨hlabel, widenInstruction_follows hwiden⟩

end Downlevel
