import Downlevel.Proofs.Lower.Asked
import Downlevel.Proofs.Lower.Members

/-!
# One accessor for each constant

A class needs the dynamic constants that its code loads, those that its bouncers pass on, and those
that are passed to the bootstrap methods of constants that it needs, unless these are null.  The
list of entries that lowering works on grows while it is gone through, and in the end it holds just
these constants, each of them once.

* `Needed` — the constants that a class needs;
* `StartsWith` — where the locks are created;
* `Accessed` — what becomes of a class in terms of the constants that it needs, the bodies that are
  written included: these load the constants within their own as the code of the class does;
* `dynamicConstants_accessed` — this is what lowering does, and its search always ends.
-/

namespace Downlevel

namespace Constants

/-- The dynamic constants that the code of a class loads. -/
def loadedConstants (cls : ClassFile) : List Dynamic :=
  (cls.methods.flatMap instructionsOf).filterMap loaded?

/-- The call sites in the code of a class that have dynamic constants among their arguments. -/
def dynamicSites (cls : ClassFile) : List CallSite :=
  (cls.methods.flatMap instructionsOf).filterMap dynamicSite?

/-- The dynamic constants that a class needs: the least set of those that its code loads, those that
are passed on for its call sites, and those that are passed to the bootstrap methods of others that
are needed and not null. -/
inductive Needed (cls : ClassFile) : Dynamic → Prop where
  | loaded {constant : Dynamic} (hmem : constant ∈ loadedConstants cls) : Needed cls constant
  | passedOn {constant : Dynamic} {site : CallSite} (hsite : site ∈ dynamicSites cls)
      (hmem : constant ∈ passedConstants site.bootstrap site.arguments) : Needed cls constant
  | inner {constant outer : Dynamic} (houter : Needed cls outer)
      (hnull : outer.bootstrap.isMethod nullBootstrap = false)
      (hmem : constant ∈ passedConstants outer.bootstrap outer.arguments) : Needed cls constant

/-! ## Where the locks are created -/

/-- The first method that initializes the class starts with some instructions, its old code behind
them.  Where no method does that, there is a new one behind the others. -/
inductive StartsWith (instructions : List Instruction) : List Method → List Method → Prop where
  | added : StartsWith instructions []
      [Method.ofCode { isStatic := true } MethodName.staticInitializer "()V"
        { instructions := instructions.map Instruction.plain ++
            [Instruction.plain (.op .returnVoid)] }]
  | here {method : Method} {code : Code} {rest : List Method}
      (hfirst : isInitializer method = true) (hcode : method.code = some code) :
      StartsWith instructions (method :: rest)
        ({ method with
            code := some { code with
              instructions := instructions.map Instruction.plain ++ code.instructions } } :: rest)
  | later {method : Method} {rest rest' : List Method} (hother : isInitializer method = false)
      (hrest : StartsWith instructions rest rest') :
      StartsWith instructions (method :: rest) (method :: rest')

/-- Letting the first method that initializes the class start with some instructions. -/
theorem startsWith_of_startFirst {instructions : List Instruction} {methods methods' : List Method}
    (h : startFirst instructions methods = .ok methods') :
    StartsWith instructions methods methods' := by
  induction methods generalizing methods' with
  | nil =>
      simp only [startFirst, startWith, bind_eq_ok, orFail_eq_ok, pure_eq_ok] at h
      obtain ⟨_, ⟨code, hcode, rfl⟩, rfl⟩ := h
      cases hcode
      exact .added
  | cons method rest ih =>
      unfold startFirst at h
      cases hfirst : isInitializer method with
      | true =>
          simp only [hfirst, if_true, startWith, bind_eq_ok, orFail_eq_ok, pure_eq_ok] at h
          obtain ⟨_, ⟨code, hcode, rfl⟩, rfl⟩ := h
          exact .here hfirst hcode
      | false =>
          simp only [hfirst, Bool.false_eq_true, if_false, bind_eq_ok, pure_eq_ok] at h
          obtain ⟨rest', hrest, rfl⟩ := h
          exact .later hfirst (ih hrest)

/-- A method is added exactly if no method initializes the class. -/
theorem StartsWith.length {instructions : List Instruction} {methods methods' : List Method}
    (h : StartsWith instructions methods methods') :
    methods'.length = methods.length + if methods.any isInitializer then 0 else 1 := by
  induction h with
  | added => rfl
  | here hfirst _ => simp [hfirst]
  | later hother _ ih => simp [hother, ih, Nat.add_right_comm]

/-! ## The class behind -/

/-- What becomes of a class, where `entries` are the constants that it needs and how they are loaded
from then on, and `replaced` are its own methods behind and the bouncers that they need. -/
structure Accessed (cls cls' : ClassFile) (entries : List (Dynamic × Access))
    (replaced : List (Method × List Bouncer)) : Prop where
  /-- Each constant is there once. -/
  distinct : (entries.map Prod.fst).Nodup
  /-- The constants are those that the class needs. -/
  needed : ∀ constant, constant ∈ entries.map Prod.fst ↔ Needed cls constant
  /-- A constant has an accessor unless its bootstrap method says that it is null. -/
  null : ∀ entry ∈ entries,
    (entry.2 = .null ↔ entry.1.bootstrap.isMethod nullBootstrap = true)
  /-- The names of bouncers and of the fields that are added differ. -/
  names : ((replaced.flatMap Prod.snd).map Bouncer.name ++
    (cls'.fields.drop cls.fields.length).map Field.name).Nodup
  /-- No member of the class has one of these names. -/
  fresh : ∀ name ∈ (replaced.flatMap Prod.snd).map Bouncer.name ++
      (cls'.fields.drop cls.fields.length).map Field.name,
    name ∉ cls.methods.map Method.name ∧ name ∉ cls.fields.map Field.name
  /-- Members that differ go on to do so. -/
  members : cls.DistinctMembers → cls'.DistinctMembers
  /-- The methods of the class load their constants as the entries say. -/
  own : List.Forall₂ (ReplacesIn cls entries) cls.methods replaced
  /-- There is one bouncer for each site with dynamic constants among its arguments. -/
  bouncers : (replaced.flatMap Prod.snd).map (fun bouncer => (bouncer.bootstrap, bouncer.arguments)) =
    (dynamicSites cls).map fun site => (site.bootstrap, site.arguments)
  /-- Each constant that is not null has three fields, behind those of the class: for its value, for
  whether that was computed, and for the lock. -/
  fields : cls'.fields = cls.fields ++ (bootstrapped entries).flatMap fun entry =>
    [{ access := { isPrivate := true, isStatic := true, isVolatile := true, isSynthetic := true }
       name := entry.2, descriptor := entry.1.descriptor },
     { access := { isPrivate := true, isStatic := true, isVolatile := true, isSynthetic := true }
       name := "has$" ++ entry.2, descriptor := "Z" },
     { access := { isPrivate := true, isStatic := true, isFinal := true, isSynthetic := true }
       name := "lock$" ++ entry.2, descriptor := "Ljava/lang/Object;" }]
  /-- Behind the methods of the class there are the bouncers and one accessor for each constant that
  is not null, of new names that differ.  If there are any accessors, then the class starts with
  creating a lock for each. -/
  methods : ∃ started bouncers accessors, cls'.methods = started ++ bouncers ++ accessors ∧
    (if bootstrapped entries = [] then started = replaced.map Prod.fst
      else StartsWith ((bootstrapped entries).flatMap fun entry =>
          [.new "java/lang/Object", .op .dup,
            .invokespecial ⟨"java/lang/Object", "<init>", "()V"⟩ false,
            .field .putStatic ⟨cls.name, "lock$" ++ entry.2, "Ljava/lang/Object;"⟩])
        (replaced.map Prod.fst) started) ∧
    List.Forall₂ (BouncerFor cls entries) (replaced.flatMap Prod.snd) bouncers ∧
    List.Forall₂ (fun entry => AccessorFor cls entries entry.1 entry.2) (bootstrapped entries)
      accessors ∧
    ((bouncers ++ accessors).map Method.name).Nodup ∧
    ∀ method ∈ bouncers ++ accessors, method.name ∉ cls.methods.map Method.name
  /-- Nothing else of the class changes. -/
  rest : cls' = { cls with fields := cls'.fields, methods := cls'.methods }

section Lower

variable {cls : ClassFile} {lowered : Lowered}

/-- The bouncers that methods need are one for each site with dynamic constants among its
arguments. -/
theorem bouncers_of_replacesIn {entries : List (Dynamic × Access)} {methods : List Method}
    {replaced : List (Method × List Bouncer)}
    (h : List.Forall₂ (ReplacesIn cls entries) methods replaced) :
    ((replaced.flatMap Prod.snd).map fun bouncer => (bouncer.bootstrap, bouncer.arguments)) =
      ((methods.flatMap instructionsOf).filterMap dynamicSite?).map fun site =>
        (site.bootstrap, site.arguments) := by
  induction h with
  | nil => rfl
  | cons hfirst _ ih =>
      rw [List.flatMap_cons, List.flatMap_cons, List.map_append, List.filterMap_append,
        List.map_append, ih, hfirst.bouncers]

/-- What bouncers pass on is what is passed on for the call sites. -/
theorem flatMap_passedConstants {bouncers : List Bouncer} {sites : List CallSite}
    (h : (bouncers.map fun bouncer => (bouncer.bootstrap, bouncer.arguments)) =
      sites.map fun site => (site.bootstrap, site.arguments)) :
    (bouncers.flatMap fun bouncer => passedConstants bouncer.bootstrap bouncer.arguments) =
      sites.flatMap fun site => passedConstants site.bootstrap site.arguments := by
  have hbouncers := List.flatMap_map
    (fun bouncer : Bouncer => (bouncer.bootstrap, bouncer.arguments))
    (fun pair => passedConstants pair.1 pair.2) bouncers
  have hsites := List.flatMap_map (fun site : CallSite => (site.bootstrap, site.arguments))
    (fun pair => passedConstants pair.1 pair.2) sites
  rw [← hbouncers, h, hsites]

/-- The fields that accessors come with. -/
theorem flatMap_fields_of_written {entries : List (Dynamic × String)}
    {accessors : List (Method × List Field)}
    {written : Dynamic → String → Method → Prop}
    (h : List.Forall₂ (fun entry accessor => written entry.1 entry.2 accessor.1 ∧
      accessor.2 = fieldsOf entry.2 entry.1) entries accessors) :
    accessors.flatMap Prod.snd = entries.flatMap fun entry => fieldsOf entry.2 entry.1 := by
  induction h with
  | nil => rfl
  | cons hfirst _ ih => rw [List.flatMap_cons, List.flatMap_cons, ih, hfirst.2]

/-- A constant whose entry is not null has an accessor. -/
theorem mem_bootstrapped {entries : List (Dynamic × Access)} {constant : Dynamic} {name : String} :
    (constant, name) ∈ bootstrapped entries ↔ (constant, .accessor name) ∈ entries := by
  rw [bootstrapped, List.mem_filterMap]
  constructor
  · rintro ⟨⟨known, _ | name'⟩, hmem, hsome⟩
    · cases hsome
    · cases hsome
      exact hmem
  · intro hmem
    exact ⟨_, hmem, rfl⟩

/-- **The constants that are known in the end are those that the class needs.** -/
theorem mem_known_iff_needed {names : NameSupply} {found found₁ found₂ : Found}
    {accessors : List (Method × List Field)}
    (hloaded : Found.Asks ⟨[], names⟩ found (loadedConstants cls))
    (hpassed : found.Asks found₁
      ((dynamicSites cls).flatMap fun site => passedConstants site.bootstrap site.arguments))
    (hvisits : Visits cls 0 found₁ accessors found₂) (constant : Dynamic) :
    constant ∈ found₂.known ↔ Needed cls constant := by
  have hasks := hloaded.append hpassed
  have hinner := hvisits.asks
  have hnull : ∀ entry ∈ found₂.entries,
      (entry.2 = .null ↔ entry.1.bootstrap.isMethod nullBootstrap = true) := fun entry hentry =>
    ((hasks.append hinner).only entry hentry).elim (fun hnone => by cases hnone) And.right
  rw [List.drop_zero] at hinner
  constructor
  · refine hvisits.induction (P := Needed cls)
      (fun _ houter hnull _ => .inner houter hnull) (fun entry hentry => ?_)
      (fun known hknown => ?_) constant
    · exact hnull entry (hinner.grows.subset hentry)
    · rcases hasks.mem_or hknown with hnone | hmem
      · cases hnone
      · rcases List.mem_append.mp hmem with hcode | hsite
        · exact .loaded hcode
        · obtain ⟨site, hin, hmem⟩ := List.mem_flatMap.mp hsite
          exact .passedOn hin hmem
  · intro hneeded
    induction hneeded with
    | loaded hmem => exact hinner.mem_known (hasks.known _ (List.mem_append_left _ hmem))
    | passedOn hsite hmem =>
        refine hinner.mem_known (hasks.known _ (List.mem_append_right _ ?_))
        exact List.mem_flatMap.mpr ⟨_, hsite, hmem⟩
    | @inner constant outer _ houter hmem ih =>
        obtain ⟨access, hentry⟩ := Found.mem_known.mp ih
        cases access with
        | null => simp [(hnull _ hentry).mp rfl] at houter
        | accessor name =>
            exact hinner.known _ (List.mem_flatMap.mpr ⟨_, mem_bootstrapped.mpr hentry, hmem⟩)

/-- **Lowering the constants of a class gives each that it needs one accessor.** -/
theorem accessed_of_changed (h : Lower.dynamicConstants cls = .ok lowered)
    (hchanged : lowered.changed = true) :
    ∃ entries replaced, Accessed cls lowered.cls entries replaced := by
  obtain ⟨replaced, found, hrun, ⟨-, -, rfl⟩ |
    ⟨bouncers, found₁, accessors, found₂, methods, hbouncers, hvisits, hlocks, -, -, rfl⟩⟩ :=
    dynamicConstants_run h
  · cases hchanged
  -- What was asked for: by the methods of the class, by the bouncers, and by the accessors.
  obtain ⟨hloaded, hreplaced⟩ := replaceMethods_asks hrun
  have hsites := bouncers_of_replacesIn hreplaced
  obtain ⟨hpassed, hpassing⟩ := bouncerMethods_loads hbouncers
  rw [flatMap_passedConstants hsites] at hpassed
  have hinner := hvisits.asks
  have hasks := (hloaded.append hpassed).append hinner
  have hwritten := hvisits.written
  rw [List.drop_zero] at hwritten
  -- All names come from one supply.
  obtain ⟨hfirst, hbouncerNames⟩ := bouncerMethods_yields hbouncers
  obtain ⟨hthen, haccessorNames, hfieldNames⟩ := hvisits.writesFrom
  obtain ⟨new, hnew, hyields, -⟩ :=
    ((replaceMethods_yields hrun).append (hfirst.append hthen)).names
  obtain rfl : found₂.entries = new := by simpa using hnew
  simp only [List.append_nil] at hyields
  rw [List.drop_zero] at haccessorNames hfieldNames
  have hadded : (cls.fields ++ accessors.flatMap Prod.snd).drop cls.fields.length =
      accessors.flatMap Prod.snd := List.drop_left
  have hfresh : ∀ name ∈ (replaced.flatMap Prod.snd).map Bouncer.name ++ fieldNames found₂.entries,
      name ∉ cls.methods.map Method.name ∧ name ∉ cls.fields.map Field.name := by
    intro name hmem
    have hunused := hyields.new name hmem
    rwa [NameSupply.mem_ofClass, not_or] at hunused
  have hmethodNames : ((bouncers ++ accessors.map Prod.fst).map Method.name).Sublist
      ((replaced.flatMap Prod.snd).map Bouncer.name ++ fieldNames found₂.entries) := by
    rw [List.map_append, hbouncerNames, List.map_map]
    exact (haccessorNames ▸ accessorNames_sublist found₂.entries).append_left _
  refine ⟨found₂.entries, replaced, ⟨hasks.distinct List.nodup_nil, ?_, ?_, ?_, ?_,
    dynamicConstants_distinct h, ?_, hsites, ?_, ?_, rfl⟩⟩
  · exact mem_known_iff_needed hloaded hpassed hvisits
  · exact fun entry hentry => (hasks.only entry hentry).elim (fun hnone => by cases hnone) And.right
  · rw [hadded, hfieldNames]
    exact hyields.distinct
  · rw [hadded, hfieldNames]
    exact hfresh
  · exact hreplaced.imp fun _ _ hmethod => (hmethod.stays hpassed).stays hinner
  · rw [flatMap_fields_of_written hwritten]
    rfl
  · refine ⟨methods, bouncers, accessors.map Prod.fst, rfl, ?_,
      hpassing.imp fun _ _ hbouncer => hbouncer.stays hinner,
      List.forall₂_map_right_iff.mpr (hwritten.imp fun _ _ haccessor => haccessor.1),
      hyields.distinct.sublist hmethodNames, fun method hmem =>
        (hfresh _ (hmethodNames.subset (List.mem_map_of_mem hmem))).1⟩
    unfold addLocks at hlocks
    simp only [accessorNames_eq, List.isEmpty_iff, List.map_eq_nil_iff] at hlocks
    split at hlocks
    next hnone => rw [if_pos hnone, Except.ok.inj hlocks]
    next hsome =>
      rw [if_neg hsome]
      rw [List.flatMap_map] at hlocks
      exact startsWith_of_startFirst hlocks

/-- There are three fields more for each constant that is not null. -/
theorem Accessed.fields_length {cls' : ClassFile} {entries : List (Dynamic × Access)}
    {replaced : List (Method × List Bouncer)} (h : Accessed cls cls' entries replaced) :
    cls'.fields.length = cls.fields.length + 3 * (bootstrapped entries).length := by
  rw [h.fields, List.length_append, List.length_flatMap]
  simp [Nat.mul_comm]

/-- Replacing instructions keeps what a method is for. -/
theorem ReplacesIn.isInitializer {entries : List (Dynamic × Access)} {method : Method}
    {result : Method × List Bouncer} (h : ReplacesIn cls entries method result) :
    Constants.isInitializer result.1 = Constants.isInitializer method := by
  cases h <;> rfl

/-- Replacing instructions keeps whether a method initializes the class. -/
theorem any_isInitializer_of_replacesIn {entries : List (Dynamic × Access)} {methods : List Method}
    {replaced : List (Method × List Bouncer)}
    (h : List.Forall₂ (ReplacesIn cls entries) methods replaced) :
    (replaced.map Prod.fst).any isInitializer = methods.any isInitializer := by
  induction h with
  | nil => rfl
  | cons hfirst _ ih => rw [List.map_cons, List.any_cons, List.any_cons, ih, hfirst.isInitializer]

/-- There is one method more for each site with dynamic constants among its arguments and for each
constant that is not null, and one that creates the locks, if there are any and no method
initializes the class. -/
theorem Accessed.methods_length {cls' : ClassFile} {entries : List (Dynamic × Access)}
    {replaced : List (Method × List Bouncer)} (h : Accessed cls cls' entries replaced) :
    cls'.methods.length = cls.methods.length +
      (if bootstrapped entries = [] ∨ cls.methods.any isInitializer = true then 0 else 1) +
      (dynamicSites cls).length + (bootstrapped entries).length := by
  obtain ⟨started, bouncers, accessors, hmethods, hstarted, hbouncers, haccessors, -, -⟩ := h.methods
  have hsites := congrArg List.length h.bouncers
  rw [List.length_map, List.length_map] at hsites
  have hown : started.length = cls.methods.length +
      if bootstrapped entries = [] ∨ cls.methods.any isInitializer = true then 0 else 1 := by
    by_cases hnone : bootstrapped entries = []
    · rw [if_pos hnone] at hstarted
      rw [if_pos (.inl hnone), hstarted, List.length_map, h.own.length_eq, Nat.add_zero]
    · rw [if_neg hnone] at hstarted
      rw [hstarted.length, any_isInitializer_of_replacesIn h.own, List.length_map, h.own.length_eq]
      simp [hnone]
  rw [hmethods, List.length_append, List.length_append, hown, ← hbouncers.length_eq, hsites,
    haccessors.length_eq]

/-- Lowering one method does not end in a search without an end. -/
theorem replaceMethod_ends {method : Method} {found : Found} :
    replaceMethod cls method found ≠ .error (Error.of (.lower .endlessSearch)) := by
  intro h
  unfold replaceMethod at h
  cases hcode : method.code with
  | none => simp [hcode] at h
  | some code =>
      simp only [hcode, work_bind_eq_error, work_pure_ne_error, and_false, exists_false,
        or_false] at h
      exact placed_ne_endless (by simp) h

/-- Letting a method start with more instructions fails only if it has no code. -/
theorem startFirst_error {instructions : List Instruction} {methods : List Method} {error : Error}
    (h : startFirst instructions methods = .error error) :
    error = Error.of (.lower .initializerWithoutCode) := by
  have hstart : ∀ {method : Method}, startWith instructions method = .error error →
      error = Error.of (.lower .initializerWithoutCode) := by
    intro method h
    unfold startWith at h
    cases hcode : method.code with
    | none =>
        rw [hcode] at h
        exact (Except.error.inj h).symm
    | some code =>
        rw [hcode] at h
        cases h
  induction methods with
  | nil =>
      simp only [startFirst, bind_eq_error, pure_ne_error, and_false, exists_false, or_false] at h
      exact hstart h
  | cons method rest ih =>
      unfold startFirst at h
      split at h
      · simp only [bind_eq_error, pure_ne_error, and_false, exists_false, or_false] at h
        exact hstart h
      · simp only [bind_eq_error, pure_ne_error, and_false, exists_false, or_false] at h
        exact ih h

/-- **The search for the constants that a class needs ends.**  Of all that lowering does, only going
through the entries could fail for not ending, and that ends by itself. -/
theorem dynamicConstants_ends (cls : ClassFile) :
    Lower.dynamicConstants cls ≠ .error (Error.of (.lower .endlessSearch)) := by
  intro h
  unfold Lower.dynamicConstants lower at h
  simp only [bind_eq_error, pure_ne_error, and_false, exists_false, or_false, work_bind_eq_error,
    work_get_ne_error, work_get_eq_ok, false_or] at h
  rcases h with hmethods | ⟨replaced, found, hrun, _, _, ⟨rfl, rfl⟩, h⟩
  · obtain ⟨method, -, t, hstep⟩ := work_mapM_error hmethods
    exact replaceMethod_ends hstep
  split at h
  · simp at h
  simp only [work_bind_eq_error, work_get_ne_error, work_get_eq_ok, work_lift_eq_error,
    work_lift_eq_ok, work_pure_ne_error, and_false, exists_false, or_false, false_or] at h
  obtain ⟨_, _, ⟨rfl, rfl⟩, hinterface | ⟨_, _, ⟨-, rfl⟩, hbouncers | ⟨bouncers, found₁, -, _, _,
    ⟨rfl, rfl⟩, haccessors | ⟨accessors, found₂, -, _, _, ⟨rfl, rfl⟩, hlocks⟩⟩⟩⟩ := h
  · unfold checkInterface at hinterface
    split at hinterface
    · split at hinterface
      · simp [fail, Error.of] at hinterface
      · cases hinterface
    · cases hinterface
  · obtain ⟨bouncer, -, t, hstep⟩ := work_mapM_error hbouncers
    simp only [bouncerMethod, work_bind_eq_error, work_pure_ne_error, and_false, exists_false,
      or_false] at hstep
    exact placed_ne_endless (by simp) hstep
  · exact accessorsFrom_ends (by rw [List.drop_zero, bound_eq_weight]) haccessors
  · unfold addLocks at hlocks
    split at hlocks
    · cases hlocks
    · have herror := startFirst_error hlocks
      simp [Error.of] at herror

end Lower

/-- **Every constant that a class needs gets one accessor.**  The search for them ends.  Where
lowering changes a class, there are entries for exactly the constants that it needs, each of them
once, and the class behind is as they say: it has three fields and an accessor more for each that is
not null, a bouncer more for each site with dynamic constants among its arguments, and a method that
initializes it if there are locks to create and it had none. -/
theorem dynamicConstants_accessed (cls : ClassFile) :
    Lower.dynamicConstants cls ≠ .error (Error.of (.lower .endlessSearch)) ∧
      ∀ lowered, Lower.dynamicConstants cls = .ok lowered → lowered.changed = true →
        ∃ entries replaced, Accessed cls lowered.cls entries replaced ∧
          lowered.cls.fields.length = cls.fields.length + 3 * (bootstrapped entries).length ∧
          lowered.cls.methods.length = cls.methods.length +
            (if bootstrapped entries = [] ∨ cls.methods.any isInitializer = true then 0 else 1) +
            (dynamicSites cls).length + (bootstrapped entries).length := by
  refine ⟨dynamicConstants_ends cls, fun lowered h hchanged => ?_⟩
  obtain ⟨entries, replaced, haccessed⟩ := accessed_of_changed h hchanged
  exact ⟨entries, replaced, haccessed, haccessed.fields_length, haccessed.methods_length⟩

/-- A constant that is made by a method of another class. -/
def innerConstant : Loadable :=
  .dynamic "inner" "Ljava/lang/Object;"
    (.method (.static false) ⟨"a/B", "make",
      "(Ljava/lang/invoke/MethodHandles$Lookup;Ljava/lang/String;Ljava/lang/Class;)" ++
        "Ljava/lang/Object;"⟩) []

/-- A constant with another one within. -/
def outerConstant : Loadable :=
  .dynamic "outer" "Ljava/lang/Object;"
    (.method (.static false) ⟨"a/B", "wrap",
      "(Ljava/lang/invoke/MethodHandles$Lookup;Ljava/lang/String;Ljava/lang/Class;" ++
        "Ljava/lang/Object;)Ljava/lang/Object;"⟩) [innerConstant]

/-- A class of release 11 that loads a constant with another one within, and that has the other one
among the arguments of a call site. -/
def nestedConstants : ClassFile where
  version := ⟨55, 0⟩
  access := {}
  name := "a/A"
  superClass := some ClassName.javaObject
  interfaces := []
  methods := [
    Method.ofCode { isStatic := true } "f" "()Ljava/lang/Object;"
      { instructions := [⟨none, .ldc outerConstant⟩, ⟨none, .op .areturn⟩] },
    Method.ofCode { isStatic := true } "g" "()V"
      { instructions := [
        ⟨none, .invokedynamic ⟨"h", "()V",
          .method (.static false) ⟨"a/B", "site",
            "(Ljava/lang/invoke/MethodHandles$Lookup;Ljava/lang/String;" ++
              "Ljava/lang/invoke/MethodType;Ljava/lang/Object;)Ljava/lang/invoke/CallSite;"⟩,
          [innerConstant]⟩⟩,
        ⟨none, .op .returnVoid⟩] }]

/-- The class has both constants and the site lowered: there are three fields for each constant, and
beside its own methods a bouncer, two accessors and one that creates the locks. -/
theorem dynamicConstants_accessed_nested :
    ∃ lowered, Lower.dynamicConstants nestedConstants = .ok lowered ∧ lowered.changed = true ∧
      lowered.cls.fields.length = 6 ∧ lowered.cls.methods.length = 6 ∧
      ∃ entries replaced, Accessed nestedConstants lowered.cls entries replaced := by
  have hrun : ((Lower.dynamicConstants nestedConstants).toOption.any fun lowered =>
      lowered.changed && lowered.cls.fields.length = 6 && lowered.cls.methods.length = 6) =
        true := by
    decide +kernel
  obtain ⟨lowered, h, hresult⟩ := exists_of_any hrun
  simp only [Bool.and_eq_true, decide_eq_true_eq] at hresult
  obtain ⟨⟨hchanged, hfields⟩, hmethods⟩ := hresult
  obtain ⟨entries, replaced, haccessed, -⟩ :=
    (dynamicConstants_accessed nestedConstants).2 lowered h hchanged
  exact ⟨lowered, h, hchanged, hfields, hmethods, entries, replaced, haccessed⟩

end Constants

end Downlevel
