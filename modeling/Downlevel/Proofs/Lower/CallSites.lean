import Downlevel.Proofs.Lower.Instructions

/-!
# What is left of dynamic call sites

Replacing call sites goes through the instructions of a class once.  A site for which code is
generated becomes a static call of a new method with that code; everything else stays as it is.

* `replaceInstruction_cases` — all that can happen to one instruction;
* `replaceCallSites_all` — what holds of the sites that stay and of the generated code holds of the
  class behind;
* `replaceCallSites_of_leaves`, `leaves_of_unchanged` — the class is said to be unchanged exactly if
  there was nothing to replace.

The two passes of this kind are told apart by the bootstrap methods whose sites they replace.
-/

namespace Downlevel

open Instruction

namespace CallSites

/-- An instruction for which no code is generated: it is no call site, or a site to leave alone. -/
def Leaves (generate : CallSite → Except Error (Option Code)) : Instruction → Prop
  | .invokedynamic site => generate site = .ok none
  | _ => True

/-- The static call that takes the place of a site. -/
def replacement (plan : Plan) (site : CallSite) (name : MethodName) : Instruction :=
  .invokestatic ⟨plan.cls.name, name, site.descriptor⟩ plan.cls.access.isInterface

/-- What the name of the method that takes the place of a site starts with. -/
def stem (plan : Plan) (site : CallSite) : String :=
  plan.basename ++ "$" ++ site.bootstrap.name ++ "$" ++ site.name ++ "$"

/-- **One instruction.**  Either it is a call site with generated code, which becomes the code of
the method added last, under the next free name, or nothing happens. -/
theorem replaceInstruction_cases {plan : Plan} {method : Method} {entry entry' : Labelled}
    {progress progress' : Progress}
    (h : replaceInstruction plan method entry progress = .ok (entry', progress')) :
    (∃ site body name names, entry.instruction = .invokedynamic site ∧
        plan.generate site = .ok (some body) ∧
        progress.names.next (stem plan site) [] = (name, names) ∧
        entry' = { entry with instruction := replacement plan site name } ∧
        progress' = ⟨names, Method.ofCode plan.cls.addedMethodAccess name site.descriptor body ::
          progress.added⟩) ∨
      (Leaves plan.generate entry.instruction ∧ entry' = entry ∧ progress' = progress) := by
  unfold replaceInstruction at h
  cases hinstruction : entry.instruction
  case invokedynamic site =>
    simp only [hinstruction, work_bind_eq_ok, work_lift_eq_ok, within_eq_ok] at h
    obtain ⟨generated, _, ⟨hgenerate, rfl⟩, h⟩ := h
    cases generated with
    | some body =>
        simp only [work_bind_eq_ok, work_pure_eq_ok] at h
        obtain ⟨call, t, hadd, rfl, rfl⟩ := h
        simp only [addMethod, Except.ok.injEq, Prod.mk.injEq] at hadd
        obtain ⟨rfl, rfl⟩ := hadd
        exact .inl ⟨site, body, _, _, rfl, hgenerate, rfl, rfl, rfl⟩
    | none =>
        simp only [work_pure_eq_ok] at h
        exact .inr ⟨hgenerate, h.1.symm, h.2.symm⟩
  all_goals
    simp only [hinstruction, work_pure_eq_ok] at h
    exact .inr ⟨trivial, h.1.symm, h.2.symm⟩

/-- An instruction to leave alone is left alone. -/
theorem replaceInstruction_of_leaves (plan : Plan) (method : Method) {entry : Labelled}
    (h : Leaves plan.generate entry.instruction) (progress : Progress) :
    replaceInstruction plan method entry progress = .ok (entry, progress) := by
  unfold replaceInstruction
  cases hinstruction : entry.instruction
  case invokedynamic site =>
    rw [hinstruction] at h
    simp only [work_bind_eq_ok, work_lift_eq_ok, within_eq_ok]
    exact ⟨none, progress, ⟨h, rfl⟩, rfl⟩
  all_goals rfl

/-- A method in which every instruction is to be left alone is left alone. -/
theorem replaceMethod_of_leaves (plan : Plan) {method : Method}
    (h : method.All (Leaves plan.generate)) (progress : Progress) :
    replaceMethod plan method progress = .ok (method, progress) := by
  unfold replaceMethod
  cases hcode : method.code with
  | none => rfl
  | some code =>
      have hsame := work_mapM_of_pure code.instructions (g := id)
        (fun entry hmem => replaceInstruction_of_leaves plan method (h code hcode entry hmem))
        progress
      simp only [List.map_id] at hsame
      simp only [work_bind_eq_ok, work_pure_eq_ok]
      refine ⟨_, _, hsame, ?_, rfl⟩
      cases method
      cases hcode
      rfl

/-- Where no method was added, none was before, and every instruction was to be left alone. -/
theorem leaves_of_added_nil {plan : Plan} {method method' : Method} {progress progress' : Progress}
    (h : replaceMethod plan method progress = .ok (method', progress'))
    (hnil : progress'.added = []) :
    progress.added = [] ∧ method.All (Leaves plan.generate) := by
  unfold replaceMethod at h
  cases hcode : method.code with
  | none =>
      simp only [hcode, work_pure_eq_ok] at h
      exact ⟨h.2 ▸ hnil, fun code hsome => by rw [hcode] at hsome; cases hsome⟩
  | some code =>
      simp only [hcode, work_bind_eq_ok, work_pure_eq_ok] at h
      obtain ⟨instructions, t, hmap, _, rfl⟩ := h
      have hquiet := work_mapM_quiet (fun progress => progress.added = [])
        (fun entry _ => Leaves plan.generate entry.instruction)
        (fun entry _ t entry' t' hstep hnone => by
          rcases replaceInstruction_cases hstep with
            ⟨_, _, _, _, _, _, _, _, rfl⟩ | ⟨hleaves, _, rfl⟩
          · cases hnone
          · exact ⟨hnone, hleaves⟩)
        hmap hnil
      refine ⟨hquiet.1, fun code' hcode' entry hmem => ?_⟩
      rw [hcode] at hcode'
      cases hcode'
      obtain ⟨_, _, hleaves⟩ := exists_right_of_forall₂ hquiet.2 hmem
      exact hleaves

section Holds

variable {P : Instruction → Prop} {plan : Plan}

/-- What is asked of a property so that replacing the sites of some instructions keeps it: it holds
of what is left alone, of static calls, and of generated code. -/
structure Kept (P : Instruction → Prop) (generate : CallSite → Except Error (Option Code))
    (instruction : Instruction) : Prop where
  stays : Leaves generate instruction → P instruction
  body : ∀ site body, instruction = .invokedynamic site → generate site = .ok (some body) →
    body.All P

/-- The methods added so far are as `P` says. -/
def AddedAll (P : Instruction → Prop) (progress : Progress) : Prop :=
  ∀ method ∈ progress.added, method.All P

/-- One instruction: what takes its place is as `P` says, and so is an added method. -/
theorem replaceInstruction_holds
    (hcall : ∀ target onInterface, P (.invokestatic target onInterface)) {method : Method}
    {entry entry' : Labelled} {progress progress' : Progress}
    (h : replaceInstruction plan method entry progress = .ok (entry', progress'))
    (hkept : Kept P plan.generate entry.instruction) :
    P entry'.instruction ∧ (AddedAll P progress → AddedAll P progress') := by
  rcases replaceInstruction_cases h with
    ⟨site, body, name, names, hsite, hgenerate, -, rfl, rfl⟩ | ⟨hleaves, rfl, rfl⟩
  · refine ⟨hcall _ _, fun hadded added hmem => ?_⟩
    rcases List.mem_cons.mp hmem with rfl | hold
    · exact Method.all_ofCode.mpr (hkept.body site body hsite hgenerate)
    · exact hadded added hold
  · exact ⟨hkept.stays hleaves, id⟩

/-- One method: its instructions behind are as `P` says, and so are the methods added. -/
theorem replaceMethod_holds (hcall : ∀ target onInterface, P (.invokestatic target onInterface))
    {method method' : Method} {progress progress' : Progress}
    (h : replaceMethod plan method progress = .ok (method', progress'))
    (hkept : method.All (Kept P plan.generate)) :
    method'.All P ∧ (AddedAll P progress → AddedAll P progress') := by
  unfold replaceMethod at h
  cases hcode : method.code with
  | none =>
      simp only [hcode, work_pure_eq_ok] at h
      obtain ⟨rfl, rfl⟩ := h
      refine ⟨fun code hsome => ?_, id⟩
      rw [hcode] at hsome
      cases hsome
  | some code =>
      simp only [hcode, work_bind_eq_ok, work_pure_eq_ok] at h
      obtain ⟨instructions, t, hmap, rfl, rfl⟩ := h
      have hkept' := hkept code hcode
      constructor
      · intro code' hcode' entry' hmem
        cases hcode'
        obtain ⟨entry, hentry, t, t', hstep⟩ :=
          exists_left_of_forall₂ (work_mapM_forall₂ hmap) hmem
        exact (replaceInstruction_holds hcall hstep (hkept' entry hentry)).1
      · exact work_mapM_run (fun t t' => AddedAll P t → AddedAll P t') (fun _ => id)
          (fun h h' => h' ∘ h)
          (fun entry hmem t entry' t' hstep =>
            (replaceInstruction_holds hcall hstep (hkept' entry hmem)).2) hmap

end Holds

end CallSites

namespace ClassFile

open CallSites

variable {cls : ClassFile} {basename : String} {generate : CallSite → Except Error (Option Code)}
  {lowered : Lowered}

/-- A run over a class: the run over its methods, and the methods that were added by it. -/
theorem replaceCallSites_run (h : cls.replaceCallSites basename generate = .ok lowered) :
    ∃ methods progress,
      cls.methods.mapM (replaceMethod ⟨cls, basename, generate⟩) ⟨NameSupply.ofClass cls, []⟩ =
        .ok (methods, progress) ∧
      lowered = ⟨{ cls with methods := methods ++ progress.added.reverse },
        !progress.added.isEmpty⟩ := by
  unfold replaceCallSites at h
  simp only [bind_eq_ok, pure_eq_ok] at h
  obtain ⟨⟨methods, progress⟩, hrun, rfl⟩ := h
  exact ⟨methods, progress, hrun, rfl⟩

/-- **Replacing sites keeps a property** of instructions that holds of static calls, of what is left
alone, and of the code that is generated. -/
theorem replaceCallSites_all {P : Instruction → Prop}
    (h : cls.replaceCallSites basename generate = .ok lowered)
    (hcall : ∀ target onInterface, P (.invokestatic target onInterface))
    (hkept : cls.All (Kept P generate)) : lowered.cls.All P := by
  obtain ⟨methods, progress, hrun, rfl⟩ := replaceCallSites_run h
  refine all_append rfl ?_ ?_
  · intro method' hmem
    obtain ⟨method, hmethod, _, _, hstep⟩ := exists_left_of_forall₂ (work_mapM_forall₂ hrun) hmem
    exact (replaceMethod_holds hcall hstep (hkept method hmethod)).1
  · intro added hmem
    have hadded := work_mapM_run (fun t t' => AddedAll P t → AddedAll P t') (fun _ => id)
      (fun h h' => h' ∘ h)
      (fun method hmethod t method' t' hstep =>
        (replaceMethod_holds hcall hstep (hkept method hmethod)).2) hrun
    exact hadded (fun _ hnone => by cases hnone) added (List.mem_reverse.mp hmem)

/-- A class in which every instruction is to be left alone is not changed. -/
theorem replaceCallSites_of_leaves (basename : String) (h : cls.All (Leaves generate)) :
    cls.replaceCallSites basename generate = .ok (Lowered.unchanged cls) := by
  have hsame := work_mapM_of_pure cls.methods (g := id)
    (fun method hmem => replaceMethod_of_leaves ⟨cls, basename, generate⟩ (h method hmem))
    ⟨NameSupply.ofClass cls, []⟩
  unfold replaceCallSites
  simp only [bind_eq_ok, pure_eq_ok]
  exact ⟨_, hsame, by simp [Lowered.unchanged]⟩

/-- If no change is told, every instruction was to be left alone. -/
theorem leaves_of_unchanged (h : cls.replaceCallSites basename generate = .ok lowered)
    (hunchanged : lowered.changed = false) : cls.All (Leaves generate) := by
  obtain ⟨methods, progress, hrun, rfl⟩ := replaceCallSites_run h
  have hnil : progress.added = [] := by simpa using hunchanged
  have hquiet := work_mapM_quiet (fun progress => progress.added = [])
    (fun method _ => method.All (Leaves generate))
    (fun method _ t method' t' hstep hnone => leaves_of_added_nil hstep hnone) hrun hnil
  intro method hmem
  obtain ⟨_, _, hleaves⟩ := exists_right_of_forall₂ hquiet.2 hmem
  exact hleaves

/-- Replacing sites touches nothing but the methods. -/
theorem replaceCallSites_frame (h : cls.replaceCallSites basename generate = .ok lowered) :
    ∃ methods, lowered.cls = { cls with methods := methods } := by
  obtain ⟨methods, progress, _, rfl⟩ := replaceCallSites_run h
  exact ⟨_, rfl⟩

end ClassFile

/-! ## Which sites the passes replace -/

/-- An instruction is no dynamic call that is linked by one of the given static methods. -/
def Instruction.NotLinkedBy (bootstraps : List MethodRef) : Instruction → Prop
  | .invokedynamic site =>
      ∀ bootstrap ∈ bootstraps, site.bootstrap.isStatic bootstrap = false
  | _ => True

/-- A direct instruction is linked by nothing. -/
theorem Instruction.NotLinkedBy.of_direct {bootstraps : List MethodRef} {instruction : Instruction}
    (h : instruction.Direct) : instruction.NotLinkedBy bootstraps := by
  cases instruction <;> trivial

namespace Switch

/-- The bootstrap methods of switches. -/
def linkers : List MethodRef :=
  [bootstrap "typeSwitch", bootstrap "enumSwitch"]

/-- The sites that are left alone are those that no bootstrap method of switches links. -/
theorem leaves_iff {instruction : Instruction} :
    CallSites.Leaves generate instruction ↔ instruction.NotLinkedBy linkers := by
  cases instruction
  case invokedynamic site =>
    simp only [CallSites.Leaves, NotLinkedBy, linkers, List.mem_cons, List.not_mem_nil, or_false,
      forall_eq_or_imp, forall_eq]
    unfold generate
    constructor
    · intro h
      split at h
      · simp only [bind_eq_ok, pure_eq_ok, reduceCtorEq, and_false, exists_false] at h
      · split at h
        · simp only [bind_eq_ok, pure_eq_ok, reduceCtorEq, and_false, exists_false] at h
        · simp_all
    · rintro ⟨htype, henum⟩
      simp [htype, henum]
  all_goals simp [CallSites.Leaves, NotLinkedBy]

/-- Testing a case is straight, but for going on behind it. -/
theorem mem_test {miss : Label} {item : Case} {instruction : Instruction}
    (h : instruction ∈ test miss item) :
    instruction.Straight ∨ ∃ condition, instruction = .branch condition miss := by
  cases item <;> simp only [test, List.mem_cons, List.not_mem_nil, or_false] at h <;>
    rcases h with rfl | rfl | rfl | rfl | rfl | rfl | rfl | rfl | rfl <;>
    first | exact .inl trivial | exact .inl (Fragment.straight_int _) | exact .inr ⟨_, rfl⟩ |
      exact .inl rfl

/-- The pieces of cases are straight, but for going on behind one of them. -/
theorem mem_casesFrom {index : Nat} {cases : List Case} {instruction : Instruction}
    (h : .push instruction ∈ casesFrom index cases) :
    instruction.Straight ∨ ∃ condition number, instruction = .branch condition (label number) ∧
      index < number ∧ number ≤ index + cases.length := by
  induction cases generalizing index with
  | nil => cases h
  | cons item rest ih =>
      simp only [casesFrom, casePieces, List.mem_append, Piece.push_mem_sequence, List.mem_cons,
        List.not_mem_nil, or_false, reduceCtorEq] at h
      rw [List.length_cons]
      rcases h with (((rfl | rfl | rfl) | htest) | rfl | rfl) | hrest
      · exact .inl (Fragment.straight_int _)
      · exact .inl trivial
      · exact .inr ⟨_, index + 1, rfl, by omega, by omega⟩
      · rcases mem_test htest with hstraight | ⟨condition, rfl⟩
        · exact .inl hstraight
        · exact .inr ⟨condition, index + 1, rfl, by omega, by omega⟩
      · exact .inl (Fragment.straight_int _)
      · exact .inl trivial
      · rcases ih hrest with hstraight | ⟨condition, number, rfl, habove, hbelow⟩
        · exact .inl hstraight
        · exact .inr ⟨condition, number, rfl, by omega, by omega⟩

/-- The pieces of a switch. -/
def pieces (cases : List Case) : List Piece :=
  Piece.sequence
      [Fragment.aload 0, .branch .nonnull (label 0), Fragment.int (-1), .op .ireturn] ++
    [.place (label 0)] ++ casesFrom 0 cases ++
    Piece.sequence [Fragment.int (Int32.ofNat cases.length), .op .ireturn]

/-- The pieces of a switch are straight, but for going to one of its labels. -/
theorem mem_pieces {cases : List Case} {instruction : Instruction}
    (h : .push instruction ∈ pieces cases) :
    instruction.Straight ∨ ∃ condition number, instruction = .branch condition (label number) ∧
      number ≤ cases.length := by
  simp only [pieces, List.mem_append, Piece.push_mem_sequence, List.mem_cons, List.not_mem_nil,
    or_false, reduceCtorEq] at h
  rcases h with ((rfl | rfl | rfl | rfl) | hcases) | rfl | rfl
  · exact .inl trivial
  · exact .inr ⟨_, 0, rfl, by omega⟩
  · exact .inl (Fragment.straight_int _)
  · exact .inl trivial
  · rcases mem_casesFrom hcases with hstraight | ⟨condition, number, rfl, -, hbelow⟩
    · exact .inl hstraight
    · exact .inr ⟨condition, number, rfl, by omega⟩
  · exact .inl (Fragment.straight_int _)
  · exact .inl trivial

/-- The method for a switch is direct. -/
theorem direct_body (cases : List Case) : (body cases).All Direct := by
  refine Code.all_direct_ofPieces fun instruction hmem => ?_
  rcases mem_pieces hmem with hstraight | ⟨condition, number, rfl, -⟩
  · exact hstraight.direct
  · trivial

/-- The code that takes the place of a site of a switch has a case for each argument of the site. -/
theorem generate_eq_some {site : CallSite} {code : Code} (h : generate site = .ok (some code)) :
    ∃ cases, cases.length = site.arguments.length ∧ code = body cases := by
  unfold generate at h
  split at h
  · simp only [bind_eq_ok, pure_eq_ok, Option.some.injEq] at h
    obtain ⟨owner, _, cases, hcases, rfl⟩ := h
    exact ⟨cases, (mapM_eq_ok_forall₂ hcases).length_eq.symm, rfl⟩
  · split at h
    · simp only [bind_eq_ok, pure_eq_ok, Option.some.injEq] at h
      obtain ⟨cases, hcases, rfl⟩ := h
      exact ⟨cases, (mapM_eq_ok_forall₂ hcases).length_eq.symm, rfl⟩
    · cases h

/-- The code that takes the place of a site of a switch is direct. -/
theorem direct_generate {site : CallSite} {code : Code}
    (h : generate site = .ok (some code)) : code.All Direct := by
  obtain ⟨cases, -, rfl⟩ := generate_eq_some h
  exact direct_body cases

end Switch

namespace Concat

/-- The bootstrap methods of string concatenation. -/
def linkers : List MethodRef :=
  [plainBootstrap, recipeBootstrap]

/-- The sites that are left alone are those that no bootstrap method of concatenation links. -/
theorem leaves_iff {instruction : Instruction} :
    CallSites.Leaves generate instruction ↔ instruction.NotLinkedBy linkers := by
  cases instruction
  case invokedynamic site =>
    simp only [CallSites.Leaves, NotLinkedBy, linkers, List.mem_cons, List.not_mem_nil, or_false,
      forall_eq_or_imp, forall_eq]
    unfold generate
    constructor
    · intro h
      split at h
      · simp only [bind_eq_ok, pure_eq_ok, reduceCtorEq, and_false, exists_false] at h
      · split at h
        · split at h
          · cases h
          · simp only [bind_eq_ok, pure_eq_ok, reduceCtorEq, and_false, exists_false] at h
          · cases h
        · simp_all
    · rintro ⟨hplain, hrecipe⟩
      simp [hplain, hrecipe]
  all_goals simp [CallSites.Leaves, NotLinkedBy]

/-- What appends the parts of a recipe is straight, but for the constants that it loads. -/
theorem mem_appendParts {subject : Subject} {parts : List Part} {parameters : List JavaType}
    {slot : UInt16} {constants : List Loadable} {instructions : List Instruction}
    (h : appendParts subject parts parameters slot constants = .ok instructions) :
    ∀ instruction ∈ instructions,
      instruction.Straight ∨ ∃ constant ∈ constants, instruction = .ldc constant := by
  fun_induction appendParts subject parts parameters slot constants generalizing instructions with
  | case1 => cases h; simp
  | case2 parameters slot constants text rest ih =>
      simp only [bind_eq_ok, pure_eq_ok] at h
      obtain ⟨others, hothers, rfl⟩ := h
      intro instruction hmem
      rcases List.mem_append.mp hmem with hhere | hrest
      · exact .inl (Fragment.straight_appendString hhere)
      · exact ih hothers instruction hrest
  | case3 => cases h
  | case4 slot constants rest parameter parameters ih =>
      simp only [bind_eq_ok, pure_eq_ok] at h
      obtain ⟨others, hothers, rfl⟩ := h
      intro instruction hmem
      rcases List.mem_cons.mp hmem with rfl | hmem
      · exact .inl trivial
      · rcases List.mem_cons.mp hmem with rfl | hrest
        · exact .inl trivial
        · exact ih hothers instruction hrest
  | case5 => cases h
  | case6 parameters slot rest constant constants ih =>
      simp only [bind_eq_ok, pure_eq_ok] at h
      obtain ⟨type, _, others, hothers, rfl⟩ := h
      intro instruction hmem
      rcases List.mem_cons.mp hmem with rfl | hmem
      · exact .inr ⟨constant, List.mem_cons_self, rfl⟩
      · rcases List.mem_cons.mp hmem with rfl | hrest
        · exact .inl trivial
        · rcases ih hothers instruction hrest with hstraight | ⟨other, hother, rfl⟩
          · exact .inl hstraight
          · exact .inr ⟨other, List.mem_cons_of_mem _ hother, rfl⟩

/-- The method for a concatenation is a sequence of straight instructions and of those that load a
constant. -/
theorem body_eq_ok {descriptor : MethodDescriptor} {recipe : JavaString} {constants : List Loadable}
    {code : Code} (h : body descriptor recipe constants = .ok code) :
    ∃ instructions, code = Code.ofPieces (Piece.sequence instructions) ∧
      ∀ instruction ∈ instructions,
        instruction.Straight ∨ ∃ constant ∈ constants, instruction = .ldc constant := by
  unfold body at h
  simp only [bind_eq_ok, pure_eq_ok] at h
  obtain ⟨type, _, appended, happended, rfl⟩ := h
  refine ⟨_, rfl, fun instruction hmem => ?_⟩
  rcases List.mem_append.mp hmem with hfront | hreturn
  · rcases List.mem_append.mp hfront with hnew | hparts
    · exact .inl (Fragment.straight_construct hnew)
    · exact mem_appendParts happended instruction hparts
  · exact .inl (Fragment.straight_returnBuilt hreturn)

/-- The code that takes the place of a site of a concatenation is a sequence of straight instructions
and of those that load an argument of the site. -/
theorem generate_eq_some {site : CallSite} {code : Code} (h : generate site = .ok (some code)) :
    ∃ instructions, code = Code.ofPieces (Piece.sequence instructions) ∧
      ∀ instruction ∈ instructions,
        instruction.Straight ∨ ∃ argument ∈ site.arguments, instruction = .ldc argument := by
  unfold generate at h
  split at h
  · simp only [bind_eq_ok, pure_eq_ok, Option.some.injEq] at h
    obtain ⟨type, _, body, hbody, rfl⟩ := h
    obtain ⟨instructions, rfl, hall⟩ := body_eq_ok hbody
    refine ⟨instructions, rfl, fun instruction hmem => ?_⟩
    rcases hall instruction hmem with hstraight | ⟨_, hnone, _⟩
    · exact .inl hstraight
    · cases hnone
  · split at h
    · split at h
      · cases h
        refine ⟨_, rfl, fun instruction hmem => .inl ?_⟩
        simp only [List.mem_cons, List.not_mem_nil, or_false] at hmem
        rcases hmem with rfl | rfl <;> trivial
      · next recipe constants hsite =>
          simp only [bind_eq_ok, pure_eq_ok, Option.some.injEq] at h
          obtain ⟨body, hbody, rfl⟩ := h
          obtain ⟨instructions, rfl, hall⟩ := body_eq_ok hbody
          refine ⟨instructions, rfl, fun instruction hmem => ?_⟩
          rcases hall instruction hmem with hstraight | ⟨constant, hconstant, rfl⟩
          · exact .inl hstraight
          · exact .inr ⟨constant, hsite ▸ List.mem_cons_of_mem _ hconstant, rfl⟩
      · cases h
    · cases h

/-- The code that takes the place of a site of a concatenation is as a property says that holds of
straight instructions and of those that load an argument of the site. -/
theorem all_generate {P : Instruction → Prop}
    (hstraight : ∀ instruction, instruction.Straight → P instruction) {site : CallSite} {code : Code}
    (h : generate site = .ok (some code))
    (harguments : ∀ argument ∈ site.arguments, P (.ldc argument)) : code.All P := by
  obtain ⟨instructions, rfl, hall⟩ := generate_eq_some h
  refine Code.all_ofPieces fun instruction hmem f => ?_
  rcases hall instruction (Piece.push_mem_sequence.mp hmem) with h | ⟨argument, hargument, rfl⟩
  · exact hstraight _ (h.mapLabels f)
  · exact harguments argument hargument

end Concat

end Downlevel
