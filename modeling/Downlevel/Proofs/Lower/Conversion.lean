import Downlevel.Converter
import Downlevel.Proofs.Outcome

/-!
# What a conversion keeps

A conversion runs the stages between two releases, widens calls, drops what is not understood, and
changes the version.  So a property of classes holds behind it if it held before and each of these
steps keeps it; what stages do follows from what a single run of a pass does.

* `SymbolTable.widenCalls_run`, `Converter.convert_steps` — the parts of widening and of a
  conversion;
* `Converter.runStages_keeps`, `Converter.convert_keeps` — what every step keeps, a list of stages
  and a whole conversion keep.
-/

namespace Downlevel

/-- The pass that a stage runs. -/
def Stage.pass : Stage → Pass
  | once pass => pass
  | fixedPoint pass => pass

section Keeps

variable {P : ClassFile → Prop}

/-- What a run of a pass keeps, applying it keeps. -/
theorem Pass.apply_keeps {pass : Pass}
    (hpass : ∀ cls lowered, pass.run cls = .ok lowered → P cls → P lowered.cls)
    {cls : ClassFile} {lowered : Lowered} (h : pass.apply cls = .ok lowered) (hold : P cls) :
    P lowered.cls := by
  simp only [Pass.apply, within_eq_ok] at h
  exact hpass cls lowered h hold

/-- What a run of a pass keeps, running it until it settles keeps. -/
theorem Pass.settle_keeps {pass : Pass}
    (hpass : ∀ cls lowered, pass.run cls = .ok lowered → P cls → P lowered.cls)
    {rounds : Nat} {cls cls' : ClassFile} (h : pass.settle rounds cls = .ok cls') (hold : P cls) :
    P cls' := by
  induction rounds generalizing cls with
  | zero => simp [Pass.settle] at h
  | succ rounds ih =>
      simp only [Pass.settle, bind_eq_ok] at h
      obtain ⟨lowered, happly, hrest⟩ := h
      have hfirst := Pass.apply_keeps hpass happly hold
      split at hrest
      · exact ih hrest hfirst
      · cases hrest
        exact hfirst

/-- What a run of its pass keeps, a stage keeps. -/
theorem Stage.run_keeps {stage : Stage}
    (hpass : ∀ cls lowered, stage.pass.run cls = .ok lowered → P cls → P lowered.cls)
    {cls cls' : ClassFile} (h : stage.run cls = .ok cls') (hold : P cls) : P cls' := by
  cases stage with
  | once pass =>
      simp only [Stage.run, bind_eq_ok, pure_eq_ok] at h
      obtain ⟨lowered, happly, rfl⟩ := h
      exact Pass.apply_keeps hpass happly hold
  | fixedPoint pass => exact Pass.settle_keeps hpass h hold

/-- **What runs of their passes keep, a list of stages keeps.** -/
theorem Converter.runStages_keeps {stages : List Stage}
    (hpass : ∀ stage ∈ stages, ∀ cls lowered, stage.pass.run cls = .ok lowered → P cls →
      P lowered.cls)
    {cls cls' : ClassFile} (h : runStages stages cls = .ok cls') (hold : P cls) : P cls' := by
  induction stages generalizing cls with
  | nil =>
      cases h
      exact hold
  | cons stage rest ih =>
      simp only [runStages, bind_eq_ok] at h
      obtain ⟨between, hrun, hrest⟩ := h
      have hbetween := Stage.run_keeps (hpass stage List.mem_cons_self) hrun hold
      exact ih (fun later hlater => hpass later (List.mem_cons_of_mem _ hlater)) hrest hbetween

end Keeps

namespace SymbolTable

variable {table : SymbolTable} {session session' : Session}

/-- **One instruction.**  It stays, or is a call that goes somewhere else, or is a call site whose
bootstrap method is somewhere else. -/
theorem widenInstruction_cases {owner : ClassName} {context : String}
    {instruction instruction' : Instruction}
    (h : table.widenInstruction owner context instruction session = (.ok instruction', session')) :
    instruction' = instruction ∨ (∃ found, instruction' = callOf found) ∨
      ∃ site found, instruction = .invokedynamic site ∧
        instruction' = .invokedynamic { site with bootstrap := handleOf found } := by
  have hcall : ∀ (target : MethodRef) (t t' : Session),
      (do return ((← table.widenTarget owner context target).map callOf).getD instruction :
        Task Session Instruction) t = (.ok instruction', t') →
      instruction' = instruction ∨ ∃ found, instruction' = callOf found := by
    intro target t t' hrun
    simp only [task_bind_eq_ok, task_pure_eq_ok] at hrun
    obtain ⟨_ | found, _, _, rfl, _⟩ := hrun
    · exact .inl rfl
    · exact .inr ⟨found, rfl⟩
  unfold widenInstruction at h
  cases instruction
  case invokevirtual target => exact (hcall target _ _ h).imp_right .inl
  case invokeinterface target => exact (hcall target _ _ h).imp_right .inl
  case invokedynamic site =>
    rcases hbootstrap : site.bootstrap with ⟨use, target⟩ | ⟨_ | _ | _ | _ | _, target⟩
    all_goals simp only [hbootstrap] at h
    case method.virtual | method.interface =>
      obtain ⟨_ | found, _, _, hrest⟩ := task_bind_eq_ok.mp h
      · exact .inl (task_pure_eq_ok.mp hrest).1.symm
      · exact .inr (.inr ⟨site, found, rfl, (task_pure_eq_ok.mp hrest).1.symm⟩)
    all_goals exact .inl (task_pure_eq_ok.mp h).1.symm
  all_goals exact .inl (task_pure_eq_ok.mp h).1.symm

/-- Widening the calls in a class touches nothing but the methods. -/
theorem widenCalls_run {cls cls' : ClassFile}
    (h : table.widenCalls cls session = (.ok cls', session')) :
    ∃ methods, cls.methods.mapM (table.widenMethod cls.name) session = (.ok methods, session') ∧
      cls' = { cls with methods := methods } := by
  unfold widenCalls at h
  simp only [task_within_eq_ok, task_bind_eq_ok, task_pure_eq_ok] at h
  obtain ⟨methods, _, hmap, rfl, rfl⟩ := h
  exact ⟨methods, hmap, rfl⟩

/-- Widening the calls in a method touches nothing but the instructions, one by one, and keeps their
labels. -/
theorem widenMethod_run {owner : ClassName} {method method' : Method}
    (h : table.widenMethod owner method session = (.ok method', session')) :
    (method.code = none ∧ method' = method) ∨
      ∃ code instructions, method.code = some code ∧
        List.Forall₂ (fun entry entry' => entry'.label = entry.label ∧
            ∃ t t', table.widenInstruction owner
              (owner ++ "." ++ method.name ++ method.descriptor) entry.instruction t =
                (.ok entry'.instruction, t'))
          code.instructions instructions ∧
        method' = { method with code := some { code with instructions := instructions } } := by
  unfold widenMethod at h
  cases hcode : method.code with
  | none =>
      simp only [hcode, task_pure_eq_ok] at h
      exact .inl ⟨rfl, h.1.symm⟩
  | some code =>
      simp only [hcode, task_bind_eq_ok, task_pure_eq_ok] at h
      obtain ⟨instructions, _, hmap, rfl, _⟩ := h
      refine .inr ⟨code, instructions, rfl, (task_mapM_forall₂ hmap).imp ?_, rfl⟩
      rintro entry entry' ⟨t, t', hstep⟩
      simp only [task_bind_eq_ok, task_pure_eq_ok] at hstep
      obtain ⟨instruction, _, hwiden, rfl, _⟩ := hstep
      exact ⟨rfl, t, _, hwiden⟩

end SymbolTable

namespace Converter

variable {converter : Converter} {cls cls' : ClassFile} {session session' : Session}

/-- The parts of a conversion: the stages between the two releases, widening, and dropping what is
not understood. -/
theorem convert_steps (h : converter.convert cls session = (.ok (some cls'), session')) :
    ∃ stages between before after widened lowered,
      converter.target.stagesFrom cls.version = .ok (some stages) ∧
      runStages stages cls = .ok between ∧
      converter.widen between before = (.ok widened, after) ∧
      Pass.removeAttributes.apply widened = .ok lowered ∧
      cls' = { lowered.cls with version := converter.target.version } := by
  unfold convert at h
  simp only [task_bind_eq_ok, task_lift_eq_ok] at h
  obtain ⟨stages, _, ⟨hstages, rfl⟩, h⟩ := h
  cases stages with
  | none =>
      simp only [task_pure_eq_ok] at h
      cases h.1
  | some stages =>
      simp only [task_bind_eq_ok, task_lift_eq_ok, task_pure_eq_ok] at h
      obtain ⟨_, _, _, between, _, ⟨hrun, rfl⟩, widened, _, hwiden, lowered, _, ⟨happly, rfl⟩,
        hcls, rfl⟩ := h
      cases hcls
      exact ⟨stages, between, _, _, widened, lowered, hstages, hrun, hwiden, happly, rfl⟩

/-- A pass is run when a class is brought down: by one of the stages between the two releases, or at
the end. -/
def Runs (converter : Converter) (cls : ClassFile) (pass : Pass) : Prop :=
  pass = .removeAttributes ∨
    ∃ stages, converter.target.stagesFrom cls.version = .ok (some stages) ∧
      ∃ stage ∈ stages, stage.pass = pass

/-- **What every step keeps, a conversion keeps**: the passes that are run, widening calls, and a new
version. -/
theorem convert_keeps {P : ClassFile → Prop}
    (hpass : ∀ pass, converter.Runs cls pass → ∀ cls lowered, pass.run cls = .ok lowered → P cls →
      P lowered.cls)
    (hwiden : ∀ (table : SymbolTable) cls cls' before after,
      table.widenCalls cls before = (.ok cls', after) → P cls → P cls')
    (hversion : ∀ cls version, P cls → P { cls with version := version })
    (h : converter.convert cls session = (.ok (some cls'), session')) (hold : P cls) : P cls' := by
  obtain ⟨stages, between, before, after, widened, lowered, hstages, hrun, hwidened, happly, rfl⟩ :=
    convert_steps h
  have hbetween : P between :=
    runStages_keeps (fun stage hstage => hpass stage.pass (.inr ⟨stages, hstages, stage, hstage, rfl⟩))
      hrun hold
  have hthen : P widened := by
    unfold widen at hwidened
    cases hsymbols : converter.symbols with
    | none =>
        simp only [hsymbols, task_pure_eq_ok] at hwidened
        exact hwidened.1 ▸ hbetween
    | some table =>
        simp only [hsymbols] at hwidened
        exact hwiden table between widened before after hwidened hbetween
  exact hversion _ _ (Pass.apply_keeps (hpass .removeAttributes (.inl rfl)) happly hthen)

end Converter

end Downlevel
