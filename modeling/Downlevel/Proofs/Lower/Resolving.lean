import Downlevel.Proofs.Lower.Methods

/-!
# Lowering keeps labels resolvable

The writer can only write code in which all labels that are referred to have a place.  Passes put
instructions in front of code, replace one instruction by several, and write code of their own.  All
of them keep the labels of a class resolvable, as long as there are labels enough: the code for a
switch takes one label more than it has cases, and that for comparing records one more than there are
components.  A class file counts both with two bytes, and so it has to be with the class.

* `Code.Continues.resolves` — touching code up keeps its labels;
* `Pass.Writes.resolves` — the labels of code that passes write;
* `Pass.run_resolves`, `SymbolTable.widenCalls_resolves` — passes and widening keep the labels of
  a class resolvable.
-/

namespace Downlevel

open Instruction

/-- The labels of all code in a class can be resolved. -/
def ClassFile.Resolves (cls : ClassFile) : Prop :=
  ∀ method ∈ cls.methods, ∀ code, method.code = some code → code.Resolves

/-- A class has no more arguments at a call site, and no more record components, than a class file can
count. -/
structure ClassFile.Countable (cls : ClassFile) : Prop where
  arguments : ∀ method ∈ cls.methods, ∀ code, method.code = some code → code.Counted
  components : ∀ components, cls.recordComponents = some components → components.length < 65536

/-- The arguments of every call site can be counted. -/
theorem ClassFile.Countable.site {cls : ClassFile} (h : cls.Countable) {method : Method}
    {site : CallSite} (hmethod : method ∈ cls.methods) (hsite : site ∈ Record.callSites method) :
    site.arguments.length < 65536 := by
  unfold Record.callSites at hsite
  cases hcode : method.code with
  | none =>
      rw [hcode] at hsite
      cases hsite
  | some code =>
      rw [hcode] at hsite
      obtain ⟨entry, hentry, hfound⟩ := List.mem_filterMap.mp hsite
      have hcounted := h.arguments method hmethod code hcode entry hentry
      cases hinstruction : entry.instruction
      case invokedynamic other =>
        rw [hinstruction] at hfound hcounted
        cases hfound
        exact hcounted
      all_goals
        rw [hinstruction] at hfound
        cases hfound

/-! ## Code that is touched up -/

namespace Code.Continues

variable {code code' : Code}

/-- **Touching code up keeps its labels.** -/
theorem resolves (h : code.Continues code') (hold : code.Resolves) : code'.Resolves := by
  have hlabels : code'.labels = code.labels := by
    show code'.placed ++ _ = code.placed ++ _
    rw [h.placed, h.lastLabel]
  have hstops : code'.stops = code.stops := by
    rw [Code.stops, Code.stops, h.exceptions, h.localVariables]
  refine ⟨hlabels ▸ hold.nodup, ?_, hstops ▸ hlabels ▸ hold.stops⟩
  rw [h.placed]
  intro label hlabel
  rw [Code.inner, h.exceptions, h.lineNumbers, h.localVariables] at hlabel
  simp only [List.mem_append, List.mem_flatMap, or_assoc] at hlabel
  have hinner := hold.inner label
  simp only [Code.inner, List.mem_append, List.mem_flatMap, or_assoc] at hinner
  rcases hlabel with ⟨entry', hentry', htarget⟩ | hrest
  · rcases h.instructions entry' hentry' with hloose | ⟨entry, hentry, hloose | ⟨hsame, -⟩⟩
    · rw [hloose.1] at htarget
      cases htarget
    · rw [hloose.1] at htarget
      cases htarget
    · exact hinner (.inl ⟨entry, hentry, hsame ▸ htarget⟩)
  · exact hinner (.inr hrest)

/-- Touching code up adds no arguments to call sites. -/
theorem counted (h : code.Continues code') (hold : code.Counted) : code'.Counted := by
  intro entry' hentry'
  rcases h.instructions entry' hentry' with hloose | ⟨entry, hentry, hloose | ⟨-, hcounted⟩⟩
  · exact hloose.2
  · exact hloose.2
  · exact hcounted (hold entry hentry)

end Code.Continues

/-! ## Code that is written -/

namespace Switch

/-- Each case places the label behind it. -/
theorem places_casesFrom (index : Nat) (cases : List Case) :
    Piece.places (casesFrom index cases) =
      (List.range cases.length).map fun n => label (index + 1 + n) := by
  induction cases generalizing index with
  | nil => rfl
  | cons item rest ih =>
      rw [casesFrom, Piece.places_append, ih, casePieces, Piece.places_append,
        Piece.places_sequence, List.length_cons, List.range_succ_eq_map, List.map_cons, List.map_map]
      simp only [Function.comp_def, Nat.add_assoc, Nat.add_comm 1]
      rfl

/-- Cases have no ranges. -/
theorem guarded_not_mem_casesFrom {index : Nat} {cases : List Case} {range : ExceptionRange} :
    Piece.guarded range ∉ casesFrom index cases := by
  induction cases generalizing index with
  | nil => exact List.not_mem_nil
  | cons item rest ih => simp [casesFrom, casePieces, ih]

/-- **The labels of the code of a switch can be resolved**, if there are labels enough. -/
theorem resolves_body {cases : List Case} (h : cases.length < 65536) : (body cases).Resolves := by
  show (Code.ofPieces (pieces cases)).Resolves
  refine Code.resolves_of_row h ?_ (fun _ => mem_pieces) ?_ ?_
  · simp only [pieces, Piece.places_append, Piece.places_sequence, Piece.places_place,
      Piece.places_nil, places_casesFrom, List.nil_append, List.append_nil, List.singleton_append,
      List.range_succ_eq_map, List.map_cons, List.map_map]
    simp only [Function.comp_def, Nat.zero_add, Nat.succ_eq_add_one, Nat.add_comm 1]
    rfl
  · intro range hrange
    simp [pieces, guarded_not_mem_casesFrom] at hrange
  · exact Assembly.pending_pair _ _ _ _

end Switch

namespace Record

/-- Comparing a component places the label behind. -/
theorem places_compareComponents {cls : ClassName} {n : Nat} {components : List Component}
    {pieces : List Piece} (h : compareComponents cls n components = .ok pieces) :
    Piece.places pieces = ((List.range components.length).map fun m => label (n + m)) ∧
      ∀ range, Piece.guarded range ∉ pieces := by
  induction components generalizing n pieces with
  | nil =>
      cases h
      exact ⟨rfl, fun _ => List.not_mem_nil⟩
  | cons component rest ih =>
      simp only [compareComponents, compareComponent, bind_eq_ok, pure_eq_ok] at h
      obtain ⟨_, ⟨type, _, rfl⟩, others, hothers, rfl⟩ := h
      obtain ⟨hplaces, hranges⟩ := ih hothers
      constructor
      · rw [Piece.places_append, Piece.places_append, Piece.places_sequence, hplaces,
          List.length_cons, List.range_succ_eq_map, List.map_cons, List.map_map]
        simp only [Function.comp_def, Nat.add_assoc, Nat.add_comm 1]
        rfl
      · intro range hrange
        simp [hranges range] at hrange

/-- **The labels of the method that compares records can be resolved**, if there are labels
enough. -/
theorem resolves_equalsBody {cls : ClassName} {components : List Component} {pieces : List Piece}
    (h : equalsBody cls components = .ok pieces) (hcount : components.length < 65536) :
    (Code.ofPieces pieces).Resolves := by
  have hpushed := mem_equalsBody h
  simp only [equalsBody, bind_eq_ok, pure_eq_ok] at h
  obtain ⟨comparisons, hcomparisons, rfl⟩ := h
  obtain ⟨hplaces, hranges⟩ := places_compareComponents hcomparisons
  refine Code.resolves_of_row hcount ?_ hpushed ?_ ?_
  · simp only [Piece.places_append, Piece.places_sequence, Piece.places_place,
      Piece.places_nil, hplaces, List.nil_append, List.append_nil, List.singleton_append,
      List.range_succ_eq_map, List.map_cons, List.map_map]
    simp only [Function.comp_def, Nat.succ_eq_add_one, Nat.add_comm 1]
    rfl
  · intro range hrange
    simp [hranges range] at hrange
  · exact Assembly.pending_pair _ _ _ _

/-- A call site tells of no more components than it has arguments. -/
theorem length_componentsOf (arguments : List Loadable) :
    (componentsOf arguments).length ≤ arguments.length :=
  List.length_filterMap_le _ _

/-- A record has no more components than can be counted. -/
theorem length_components {cls : ClassFile} (h : cls.Countable) :
    (components cls).length < 65536 := by
  unfold components
  split
  · next listed hlisted =>
      rw [List.length_map]
      exact h.components listed hlisted
  · split
    · next site hsite =>
        obtain ⟨method, hmethod, hin⟩ := List.mem_flatMap.mp (List.mem_of_find?_eq_some hsite)
        have hcounted := h.site hmethod hin
        exact Nat.lt_of_le_of_lt (length_componentsOf site.arguments) hcounted
    · exact Nat.zero_lt_succ _

end Record

namespace Constants

/-- **The labels of an accessor can be resolved.** -/
theorem resolves_accessorPieces (owner : ClassName) (name : String) (constant : Dynamic)
    (type : JavaType) {compute : List Instruction}
    (hcompute : ∀ instruction ∈ compute, instruction.Straight) :
    (Code.ofPieces (accessorPieces owner name constant type compute)).Resolves := by
  have hplaces : Piece.places (accessorPieces owner name constant type compute) =
      [⟨2⟩, ⟨1⟩, ⟨3⟩, ⟨4⟩, ⟨0⟩] := by
    simp [accessorPieces]
  refine Code.resolves_ofPieces ⟨?_, ?_, ?_, ?_⟩
  · rw [hplaces]
    decide
  · rw [hplaces]
    intro instruction hmem target htarget
    simp only [accessorPieces, List.mem_append, Piece.push_mem_sequence, List.mem_cons,
      List.not_mem_nil, or_false, reduceCtorEq, or_assoc] at hmem
    rcases hmem with rfl | rfl | rfl | rfl | rfl | rfl | rfl | rfl | hhere | rfl | rfl | rfl | rfl |
      rfl | rfl | rfl | rfl | rfl | rfl | rfl | rfl | rfl | rfl | rfl | rfl
    case inr.inr.inr.inr.inr.inr.inr.inr.inl =>
      rw [(hcompute instruction hhere).targets] at htarget
      cases htarget
    all_goals
      simp only [Instruction.targets, Fragment.aload, Fragment.astore, Fragment.returnValue,
        List.mem_cons, List.not_mem_nil, or_false] at htarget
      try
        subst htarget
        decide
  · rw [hplaces]
    intro range hrange
    simp only [accessorPieces, List.mem_append, Piece.guarded_not_mem_sequence, List.mem_cons,
      List.not_mem_nil, or_false, reduceCtorEq, false_or, Piece.guarded.injEq] at hrange
    subst hrange
    decide
  · rw [accessorPieces, Assembly.pending_guarded]
    exact Assembly.pending_pair _ _ _ _

end Constants

/-- **The labels of code that a pass writes can be resolved**, if there are labels enough. -/
theorem Pass.Writes.resolves {cls : ClassFile} {pass : Pass} {code : Code}
    (h : pass.Writes cls code) (hcls : cls.Countable) : code.Resolves := by
  cases h with
  | concat h =>
      obtain ⟨instructions, rfl, hall⟩ := Concat.generate_eq_some h
      refine Code.resolves_of_loose fun instruction hmem => ?_
      rcases hall instruction hmem with hstraight | ⟨argument, _, rfl⟩
      · exact hstraight.loose
      · exact ⟨rfl, trivial⟩
  | switch mem occurs h =>
      obtain ⟨cases, hlength, rfl⟩ := Switch.generate_eq_some h
      exact Switch.resolves_body (hlength ▸ hcls.site mem occurs)
  | bouncer h =>
      obtain ⟨instructions, hstraight, rfl⟩ := Constants.bouncerCode_run h
      exact Code.resolves_of_loose fun instruction hmem => (hstraight instruction hmem).loose
  | accessor h =>
      obtain ⟨type, compute, hcompute, rfl⟩ := Constants.accessorCode_run h
      exact Constants.resolves_accessorPieces _ _ _ type hcompute
  | @standard standard code h =>
      simp only [Record.linkedBody, within_eq_ok, bind_eq_ok, pure_eq_ok] at h
      obtain ⟨pieces, hpieces, rfl⟩ := h
      cases standard with
      | equals => exact Record.resolves_equalsBody hpieces (Record.length_components hcls)
      | hashCode =>
          obtain ⟨instructions, hstraight, rfl⟩ := Record.hashCodeBody_eq_ok hpieces
          exact Code.resolves_of_loose fun instruction hmem => (hstraight instruction hmem).loose
      | toString =>
          obtain ⟨instructions, hstraight, rfl⟩ := Record.toStringBody_eq_ok hpieces
          exact Code.resolves_of_loose fun instruction hmem => (hstraight instruction hmem).loose

/-- The code that a pass writes has no call sites. -/
theorem Pass.Writes.counted {cls : ClassFile} {pass : Pass} {code : Code}
    (h : pass.Writes cls code) : code.Counted := by
  have hcounted : ∀ {code : Code}, code.All Direct → code.Counted := fun hall entry hentry =>
    (hall entry hentry).counted
  cases h with
  | concat h =>
      exact Concat.all_generate (fun _ hstraight => hstraight.direct.counted) h fun _ _ => trivial
  | switch _ _ h => exact hcounted (Switch.direct_generate h)
  | bouncer h => exact hcounted (Constants.direct_bouncerCode h)
  | accessor h => exact hcounted (Constants.direct_accessorCode h)
  | standard h =>
      simp only [Record.linkedBody, within_eq_ok, bind_eq_ok, pure_eq_ok] at h
      obtain ⟨pieces, hpieces, rfl⟩ := h
      exact hcounted (Code.all_direct_ofPieces (Record.direct_standardBody hpieces))

/-- The method that does nothing to initialize a class does so without labels and call sites. -/
theorem Constants.emptyInitializer_code {code : Code}
    (h : Constants.emptyInitializer.code = some code) : code.Resolves ∧ code.Counted := by
  cases h
  constructor
  · show (Code.ofPieces (Piece.sequence [.op .returnVoid])).Resolves
    refine Code.resolves_of_loose fun instruction hmem => ?_
    rw [List.mem_singleton.mp hmem]
    exact ⟨rfl, trivial⟩
  · intro entry hentry
    rw [List.mem_singleton.mp hentry]
    trivial

/-! ## Classes -/

section Classes

variable {cls cls' : ClassFile}

/-- What holds of the code of the methods that are there, of the code that is written, and of code
that comes of other code of which it holds, holds of the code of a method with an origin. -/
theorem Method.Origin.code_holds {P : Code → Prop} {pass : Pass} {method' : Method}
    (h : method'.Origin pass cls)
    (hold : ∀ method ∈ cls.methods, ∀ code, method.code = some code → P code)
    (hcontinues : ∀ code code' : Code, code.Continues code' → P code → P code')
    (hwrites : ∀ code, pass.Writes cls code → P code)
    (hempty : ∀ code, Constants.emptyInitializer.code = some code → P code) :
    ∀ code, method'.code = some code → P code := by
  intro code' hcode'
  cases h with
  | @kept method mem continues =>
      obtain ⟨code, hcode, hstep⟩ := continues.code code' hcode'
      exact hcontinues code code' hstep (hold method mem code hcode)
  | rewritten mem name access held writes =>
      cases held.symm.trans hcode'
      exact hwrites _ writes
  | added writes eq =>
      rw [eq] at hcode'
      cases hcode'
      exact hwrites _ writes
  | initializer continues =>
      obtain ⟨code, hcode, hstep⟩ := continues.code code' hcode'
      exact hcontinues code code' hstep (hempty code hcode)

/-- No pass adds record components. -/
theorem Pass.run_components {pass : Pass} {lowered : Lowered} (h : pass.run cls = .ok lowered)
    (hold : cls.Countable) : ∀ components, lowered.cls.recordComponents = some components →
      components.length < 65536 := by
  intro components hcomponents
  have hsame : lowered.cls.recordComponents = cls.recordComponents →
      components.length < 65536 := fun heq => hold.components components (heq ▸ hcomponents)
  cases pass with
  | dynamicStringConcat =>
      obtain ⟨methods, hcls⟩ := ClassFile.replaceCallSites_frame h
      exact hsame (hcls ▸ rfl)
  | dynamicSwitchPatterns =>
      obtain ⟨methods, hcls⟩ := ClassFile.replaceCallSites_frame h
      exact hsame (hcls ▸ rfl)
  | explicitConstants =>
      obtain ⟨fields, methods, hcls⟩ := Constants.dynamicConstants_frame h
      exact hsame (hcls ▸ rfl)
  | nestHostToPackage =>
      cases h
      refine hsame ?_
      unfold Lower.openNest
      split <;> rfl
  | recordToClass =>
      simp only [run, Lower.recordToClass] at h
      split at h
      · simp only [bind_eq_ok, pure_eq_ok] at h
        obtain ⟨methods, _, rfl⟩ := h
        cases hcomponents
      · simp only [pure_eq_ok] at h
        exact hsame (h ▸ rfl)
  | removeAttributes =>
      cases h
      obtain ⟨listed, hlisted, rfl⟩ := Option.map_eq_some_iff.mp hcomponents
      rw [List.length_map]
      exact hold.components listed hlisted
  | moduleRemover | alwaysStrict | unsealClasses | matchExceptionFixer =>
      cases h
      exact hsame rfl

/-- **A pass keeps the labels of a class resolvable**, and what can be counted stays countable. -/
theorem Pass.run_resolves {pass : Pass} {lowered : Lowered} (h : pass.run cls = .ok lowered)
    (hresolves : cls.Resolves) (hcountable : cls.Countable) :
    lowered.cls.Resolves ∧ lowered.cls.Countable := by
  refine ⟨fun method' hmem => ?_, fun method' hmem => ?_, Pass.run_components h hcountable⟩
  · exact (Pass.run_origin h method' hmem).code_holds hresolves (fun _ _ hstep => hstep.resolves)
      (fun _ hwrites => hwrites.resolves hcountable)
      fun _ hcode => (Constants.emptyInitializer_code hcode).1
  · exact (Pass.run_origin h method' hmem).code_holds hcountable.arguments
      (fun _ _ hstep => hstep.counted) (fun _ hwrites => hwrites.counted)
      fun _ hcode => (Constants.emptyInitializer_code hcode).2

/-- **Widening calls keeps the labels of a class resolvable**, and what can be counted stays
countable. -/
theorem SymbolTable.widenCalls_resolves {table : SymbolTable} {session session' : Session}
    (h : table.widenCalls cls session = (.ok cls', session')) (hresolves : cls.Resolves)
    (hcountable : cls.Countable) : cls'.Resolves ∧ cls'.Countable := by
  have horigin := widenCalls_methods h
  obtain ⟨methods, _, rfl⟩ := widenCalls_run h
  refine ⟨fun method' hmem code' hcode' => ?_, fun method' hmem code' hcode' => ?_,
    hcountable.components⟩
  · obtain ⟨method, hmethod, hcontinues, -⟩ := horigin method' hmem
    obtain ⟨code, hcode, hstep⟩ := hcontinues.code code' hcode'
    exact hstep.resolves (hresolves method hmethod code hcode)
  · obtain ⟨method, hmethod, hcontinues, -⟩ := horigin method' hmem
    obtain ⟨code, hcode, hstep⟩ := hcontinues.code code' hcode'
    exact hstep.counted (hcountable.arguments method hmethod code hcode)

end Classes

end Downlevel
