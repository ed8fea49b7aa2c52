import Downlevel.Proofs.Symbols.Missing
import Downlevel.Proofs.Symbols.References

/-!
# The symbol check finds what is missing

A check of a class looks at the symbols that the class refers to, reports those that are missing,
and passes over some symbols once others are reported.  So not every missing symbol is reported,
but if there is one then one is, and nothing else is ever reported.

Running a check is described by what it looks at, its answer, and what it puts into the journal
(`SymbolTable.Reports`).  Two runs in a row compose, and so does a run that is made only if
the first one found nothing; the checks of a class are built from these two.

* `SymbolTable.runCheck_finds` — a check finds what is missing among the symbols it may look at;
* `SymbolTable.check_exact` — checking a class answers whether all it refers to is there.
-/

namespace Downlevel

namespace SymbolTable

variable (table : SymbolTable) (cls : ClassName)

/-- What comes of looking at some symbols: an answer to whether one is missing, and reports, of
missing ones only, and of at least one if there is one. -/
structure Reports (references : List Reference) (answer : Bool) (found : Journal) : Prop where
  tells : answer = true ↔ ∃ reference ∈ references, table.Missing reference
  recorded : answer = true ↔ found ≠ []
  sound : ∀ event ∈ found, ∃ reference ∈ references, table.Missing reference ∧
    event = .found ⟨cls, table.findingOf reference⟩

/-- A task that looks at some symbols and changes nothing but the journal. -/
def Finds (references : List Reference) (task : Task Session Bool) : Prop :=
  ∀ session, ∃ answer found, table.Reports cls references answer found ∧
    task session = (.ok answer, { session with journal := session.journal ++ found })

variable {table cls}

namespace Reports

variable {first second : List Reference} {answer other : Bool} {found later : Journal}

/-- Nothing comes of looking at nothing. -/
theorem nil : table.Reports cls [] false [] :=
  ⟨by simp, by simp, by simp⟩

/-- Looking at some symbols and then at others. -/
theorem append (h : table.Reports cls first answer found)
    (hlater : table.Reports cls second other later) :
    table.Reports cls (first ++ second) (answer || other) (found ++ later) where
  tells := by simp [h.tells, hlater.tells, or_and_right, exists_or]
  recorded := by
    rw [Bool.or_eq_true, h.recorded, hlater.recorded]
    simp only [ne_eq, List.append_eq_nil_iff, not_and_or]
  sound event hevent := by
    rcases List.mem_append.mp hevent with hin | hin
    · obtain ⟨reference, hreference, hrest⟩ := h.sound event hin
      exact ⟨reference, List.mem_append_left _ hreference, hrest⟩
    · obtain ⟨reference, hreference, hrest⟩ := hlater.sound event hin
      exact ⟨reference, List.mem_append_right _ hreference, hrest⟩

/-- Once something is reported, other symbols can be passed over. -/
theorem widen (h : table.Reports cls first true found) (others : List Reference) :
    table.Reports cls (first ++ others) true found where
  tells := by
    obtain ⟨reference, hreference, hmissing⟩ := h.tells.mp rfl
    exact ⟨fun _ => ⟨reference, List.mem_append_left _ hreference, hmissing⟩, fun _ => rfl⟩
  recorded := h.recorded
  sound event hevent := by
    obtain ⟨reference, hreference, hrest⟩ := h.sound event hevent
    exact ⟨reference, List.mem_append_left _ hreference, hrest⟩

end Reports

namespace Finds

variable {first second : List Reference} {task next : Task Session Bool}

/-- Naming the place of an error is not noticed. -/
theorem within {fault : Fault} (h : table.Finds cls first task) :
    table.Finds cls first (Task.within fault task) := by
  intro session
  obtain ⟨answer, found, hreports, hrun⟩ := h session
  exact ⟨answer, found, hreports, task_within_eq_ok.mpr hrun⟩

/-- Looking at other symbols only if nothing was found. -/
theorem orElse (h : table.Finds cls first task) (hnext : table.Finds cls second next) :
    table.Finds cls (first ++ second) (do if ← task then return true else next) := by
  intro session
  obtain ⟨answer, found, hreports, hrun⟩ := h session
  cases answer with
  | true => exact ⟨true, found, hreports.widen second, task_bind_eq_ok.mpr ⟨_, _, hrun, rfl⟩⟩
  | false =>
      obtain ⟨other, later, hlater, hrest⟩ :=
        hnext { session with journal := session.journal ++ found }
      refine ⟨other, found ++ later, hreports.append hlater, task_bind_eq_ok.mpr ⟨_, _, hrun, ?_⟩⟩
      simpa [List.append_assoc] using hrest

end Finds

/-- Looking at a symbol reports it if it is missing. -/
theorem look_finds (answers : table.catalog.Answers) (reference : Reference) :
    table.Finds cls [reference] (table.look cls reference) := by
  intro session
  obtain ⟨answer, hanswer, hmissing⟩ := isMissing_spec answers reference
  have hlift : (liftM (table.isMissing reference) : Task Session Bool) session =
      (.ok answer, session) := task_lift_eq_ok.mpr ⟨hanswer, rfl⟩
  cases answer with
  | true =>
      refine ⟨true, [.found ⟨cls, table.findingOf reference⟩], ⟨?_, by simp, ?_⟩, ?_⟩
      · simpa using hmissing
      · simpa using hmissing
      · exact task_bind_eq_ok.mpr ⟨_, _, hlift, rfl⟩
  | false =>
      refine ⟨false, [], ⟨by simpa using hmissing, by simp, by simp⟩, ?_⟩
      refine task_bind_eq_ok.mpr ⟨_, _, hlift, ?_⟩
      simp

mutual

/-- A check finds what is missing among the symbols it may look at. -/
theorem runCheck_finds (answers : table.catalog.Answers) (check : Check) :
    table.Finds cls check.references (table.runCheck cls check) := by
  cases check with
  | single reference =>
      rw [Check.references, runCheck]
      exact look_finds answers reference
  | guarded first rest =>
      rw [Check.references, runCheck]
      have hrest : table.Finds cls (Check.referencesIn rest) (table.runChecks cls false rest) :=
        fun session => by simpa using runChecks_finds answers rest false session
      exact (look_finds answers first).orElse hrest
  | upToFirst checks =>
      rw [Check.references, runCheck]
      exact runUpToFirst_finds answers checks
  | inMethod name descriptor check =>
      rw [Check.references, runCheck]
      exact (runCheck_finds answers check).within

/-- Checks one after the other find what is missing among all the symbols they may look at. -/
theorem runChecks_finds (answers : table.catalog.Answers) (checks : List Check) (reported : Bool)
    (session : Session) :
    ∃ answer found, table.Reports cls (Check.referencesIn checks) answer found ∧
      table.runChecks cls reported checks session =
        (.ok (reported || answer), { session with journal := session.journal ++ found }) := by
  cases checks with
  | nil =>
      rw [Check.referencesIn, runChecks]
      exact ⟨false, [], .nil, by simp⟩
  | cons check rest =>
      rw [Check.referencesIn, runChecks]
      have hcheck : table.Finds cls check.references _ := runCheck_finds answers check
      obtain ⟨answer, found, hreports, hrun⟩ := hcheck session
      obtain ⟨other, later, hlater, hrest⟩ := runChecks_finds answers rest (reported || answer)
        { session with journal := session.journal ++ found }
      refine ⟨answer || other, found ++ later, hreports.append hlater, ?_⟩
      refine task_bind_eq_ok.mpr ⟨_, _, hrun, ?_⟩
      simpa [List.append_assoc, Bool.or_assoc] using hrest

/-- Checks up to the first that reports something find what is missing. -/
theorem runUpToFirst_finds (answers : table.catalog.Answers) (checks : List Check) :
    table.Finds cls (Check.referencesIn checks) (table.runUpToFirst cls checks) := by
  cases checks with
  | nil =>
      rw [Check.referencesIn, runUpToFirst]
      exact fun session => ⟨false, [], .nil, by simp⟩
  | cons check rest =>
      rw [Check.referencesIn, runUpToFirst]
      exact (runCheck_finds answers check).orElse (runUpToFirst_finds answers rest)

end

/-- What is reported of a missing symbol is a missing symbol. -/
theorem findingOf_kind (reference : Reference) :
    (table.findingOf reference).kind = .missingSymbol := by
  cases reference <;> rfl

/-- Reports of missing symbols show in a journal if there are any. -/
theorem Reports.hasMissingSymbols_iff {references : List Reference} {answer : Bool}
    {found : Journal} (h : table.Reports cls references answer found) :
    Journal.hasMissingSymbols found = true ↔ answer = true := by
  rw [h.recorded]
  cases found with
  | nil => simp [Journal.hasMissingSymbols, Journal.reports]
  | cons event rest =>
      obtain ⟨reference, _, _, rfl⟩ := h.sound event List.mem_cons_self
      simp [Journal.hasMissingSymbols, Journal.reports, Event.report?, Report.isMissingSymbol,
        findingOf_kind]

/-- Checking a class answers whether nothing it refers to is missing, and puts reports of missing
symbols only into the journal. -/
theorem check_reports (answers : table.catalog.Answers) (cls : ClassFile) (session : Session) :
    ∃ answer found,
      table.Reports cls.name (Check.referencesIn cls.checks) answer found ∧
        table.check cls session =
          (.ok !answer, { session with journal := session.journal ++ found }) := by
  obtain ⟨answer, found, hreports, hrun⟩ : ∃ answer found, table.Reports cls.name _ answer found ∧ _ :=
    runChecks_finds answers cls.checks false session
  refine ⟨answer, found, hreports, ?_⟩
  unfold check
  refine task_within_eq_ok.mpr (task_bind_eq_ok.mpr ⟨_, _, hrun, ?_⟩)
  simp

/-- **The symbol check is exact.**  If the catalog can answer for every class, then checking a class
succeeds; the check is passed exactly if nothing that the class refers to is missing; it is failed
exactly if it put a missing symbol into the journal; and it puts nothing into the journal but
reports of symbols that the class refers to and that are missing. -/
theorem check_exact (table : SymbolTable) (answers : table.catalog.Answers) (cls : ClassFile)
    (session : Session) :
    ∃ passed found,
      table.check cls session =
          (.ok passed, { session with journal := session.journal ++ found }) ∧
        (passed = true ↔ ∀ reference, cls.RefersTo reference → ¬ table.Missing reference) ∧
        (passed = false ↔ Journal.hasMissingSymbols found = true) ∧
        ∀ event ∈ found, ∃ reference, cls.RefersTo reference ∧ table.Missing reference ∧
          event = .found ⟨cls.name, table.findingOf reference⟩ := by
  obtain ⟨answer, found, hreports, hrun⟩ := check_reports answers cls session
  refine ⟨!answer, found, hrun, ?_, ?_, ?_⟩
  · rw [Bool.not_eq_true', ← Bool.not_eq_true, hreports.tells]
    simp [ClassFile.refersTo_iff]
  · rw [Bool.not_eq_false', hreports.hasMissingSymbols_iff]
  · intro event hevent
    obtain ⟨reference, hreference, hmissing, hfinding⟩ := hreports.sound event hevent
    exact ⟨reference, ClassFile.refersTo_iff.mpr hreference, hmissing, hfinding⟩

/-- A class with one method, which does one thing. -/
def doing (instruction : Instruction) : ClassFile where
  version := ⟨52, 0⟩
  access := {}
  name := "a/A"
  superClass := some ClassName.javaObject
  interfaces := []
  methods := [{
    access := { isStatic := true }
    name := "f"
    descriptor := "()V"
    code := some { instructions := [instruction.plain] } }]

/-- An interface that extends another one and declares nothing. -/
def extending (name above : ClassName) : ClassOutline :=
  { name := name, interfaces := [above], isInterface := true }

/-- Two interfaces of which each extends the other one, in a release that lacks all methods of the
first, and records. -/
def roundabout : SymbolTable where
  release := default
  inventory := Std.HashSet.ofList ["java/util/Deque", "java/lang/Record"]
  catalog := .ofOutlines [extending "java/util/Deque" "java/util/Queue",
    extending "java/util/Queue" "java/util/Deque"]

/-- The catalog answers for every class. -/
theorem roundabout_answers : roundabout.catalog.Answers :=
  fun name => ⟨_, Lookup.resolve_ofOutlines _ name⟩

/-- A method that neither of the two interfaces has. -/
def reversed : MethodRef :=
  ⟨"java/util/Deque", "reversed", "()Ljava/util/Deque;"⟩

/-- The search for the method goes around and finds nothing. -/
theorem roundabout_lacks_reversed : roundabout.Missing (.method reversed) := by
  refine .method rfl ⟨by simp [roundabout, reversed], fun hdeclared => ?_⟩
  have hexplored : roundabout.catalog.Explored
      (fun outline => outline.hasMethod reversed.name reversed.descriptor)
      (Std.HashSet.ofList ["java/util/Deque", "java/util/Queue"]) [] := by
    intro name hname outline houtline
    rw [roundabout, Lookup.resolve_ofOutlines] at houtline
    obtain rfl | rfl : name = "java/util/Deque" ∨ name = "java/util/Queue" := by
      simpa using hname
    · cases houtline
      exact ⟨rfl, by simp [extending, ClassOutline.parents]⟩
    · cases houtline
      exact ⟨rfl, by simp [extending, ClassOutline.parents]⟩
  obtain ⟨_, hnone, _⟩ := hexplored.declared_later (by simp [reversed]) hdeclared
  cases hnone

/-- A class that calls the method fails the check, and the journal says so. -/
theorem check_exact_roundabout :
    roundabout.catalog.Answers ∧
      ∃ found, roundabout.check (doing (.invokevirtual reversed)) {} =
          (.ok false, { journal := found }) ∧ Journal.hasMissingSymbols found = true := by
  refine ⟨roundabout_answers, ?_⟩
  obtain ⟨passed, found, hrun, hpassed, hfailed, -⟩ :=
    check_exact roundabout roundabout_answers (doing (.invokevirtual reversed)) {}
  have hfalse : passed = false := by
    rw [← Bool.not_eq_true, hpassed]
    intro hnothing
    refine hnothing (.method reversed) ?_ roundabout_lacks_reversed
    exact .method List.mem_cons_self
      (.code rfl (.instruction List.mem_cons_self (.invokevirtual reversed)))
  subst hfalse
  exact ⟨found, hrun, hfailed.mp rfl⟩

/-- The operand of `multianewarray` is looked at as a type.  So if it is a class that is no array,
nobody asks whether it is missing. -/
theorem check_passes_over_flat_multianewarray :
    roundabout.catalog.Answers ∧ roundabout.MissingClass ClassName.javaRecord ∧
      (∃ method ∈ (doing (.multianewarray ClassName.javaRecord 1)).methods, ∃ code,
        method.code = some code ∧
          (Instruction.multianewarray ClassName.javaRecord 1).plain ∈ code.instructions) ∧
      ∀ session, roundabout.check (doing (.multianewarray ClassName.javaRecord 1)) session =
        (.ok true, session) := by
  have hlacking : roundabout.MissingClass ClassName.javaRecord := by
    refine .plain rfl (by simp [roundabout, ClassName.javaRecord]) ?_
    rw [roundabout, Lookup.resolve_ofOutlines]
    rfl
  refine ⟨roundabout_answers, hlacking,
    ⟨_, List.mem_cons_self, _, rfl, List.mem_cons_self⟩, fun session => ?_⟩
  obtain ⟨answer, found, hreports, hrun⟩ := check_reports roundabout_answers
    (doing (.multianewarray ClassName.javaRecord 1)) session
  have hreferences : Check.referencesIn (doing (.multianewarray ClassName.javaRecord 1)).checks =
      [.cls ClassName.javaObject, .classesIn "()V", .type ClassName.javaRecord] := rfl
  have hnothing : ¬ answer = true := by
    rw [hreports.tells, hreferences]
    rintro ⟨reference, hreference, hmissing⟩
    simp only [List.mem_cons, List.not_mem_nil, or_false] at hreference
    rcases hreference with rfl | rfl | rfl
    · cases hmissing with
      | cls missing =>
          cases missing with
          | plain _ known _ => simp [roundabout, ClassName.javaObject] at known
          | array isArray _ _ => cases isArray
    · cases hmissing with
      | classesIn named _ => simp [classNamesIn, classNamesFrom] at named
    · rcases missing_type_iff.mp hmissing with ⟨name, written, _⟩ | ⟨⟨rest, written⟩, _⟩
      · cases written
      · cases written
  have hfound : found = [] := by
    by_contra hne
    exact hnothing (hreports.recorded.mpr hne)
  subst hfound
  simpa [hnothing] using hrun

end SymbolTable

end Downlevel
