import Mathlib.Data.Finset.Card
import Mathlib.Logic.Relation
import Downlevel.Proofs.Outcome
import Downlevel.Symbols.Check

/-!
# What a release lacks

A class is missing if the newer release has it and the catalog of the older one does not.  A member
is missing if the newer release has its owner and no class that the catalog places at or above the
owner declares it.  "Above" is reachability along the links to super classes and interfaces, which
may well run in circles; the search for a member follows these links with a set of the classes it
has visited, and gives up only if it is out of fuel.

The two agree as long as the catalog answers every name it is asked for.

* `Lookup.resolve_within_size` — every class of a catalog is one of at most `size` names, so the
  fuel of a search is enough;
* `SymbolTable.isDeclared_spec` — the search from some classes finds a member exactly if it is
  declared at a class above one of them;
* `SymbolTable.isMissing_spec` — asking for a symbol answers whether it is missing.
-/

namespace Downlevel

namespace Lookup

/-- The lookup can read every class it is asked for, or has none of that name. -/
def Answers (lookup : Lookup) : Prop :=
  ∀ name, ∃ answer, lookup.resolve name = .ok answer

/-- A lookup in some outlines finds the last one of a name. -/
theorem resolve_ofOutlines (outlines : List ClassOutline) (name : ClassName) :
    (ofOutlines outlines).resolve name =
      .ok (outlines.reverse.find? fun cls => cls.name = name) := by
  induction outlines using List.reverseRecOn with
  | nil => simp [ofOutlines, resolve, resolveIn, OutlineTable.ofOutlines]
  | append_singleton front last ih =>
      simp only [ofOutlines, resolve, resolveIn, OutlineTable.ofOutlines, List.foldl_append,
        List.foldl_cons, List.foldl_nil, Std.HashMap.getElem?_insert, List.reverse_append,
        List.reverse_singleton, List.singleton_append, List.find?_cons, beq_iff_eq] at ih ⊢
      by_cases hname : last.name = name
      · simp only [hname, if_true, decide_true]
        rfl
      · simp only [hname, if_false, decide_false]
        exact ih

/-- A lookup in some outlines answers every name. -/
theorem answers_ofOutlines (outlines : List ClassOutline) : (ofOutlines outlines).Answers :=
  fun name => ⟨_, resolve_ofOutlines outlines name⟩

/-- What a lookup in some outlines finds is one of them. -/
theorem mem_of_resolve_ofOutlines {outlines : List ClassOutline} {name : ClassName}
    {outline : ClassOutline} (h : (ofOutlines outlines).resolve name = .ok (some outline)) :
    outline ∈ outlines ∧ outline.name = name := by
  rw [resolve_ofOutlines] at h
  have hfound := Except.ok.inj h
  have hmem := List.mem_of_find?_eq_some hfound
  have hname := List.find?_some hfound
  exact ⟨List.mem_reverse.mp hmem, of_decide_eq_true hname⟩

/-- One class names another one as its super class or as an interface. -/
def Extends (lookup : Lookup) (below above : ClassName) : Prop :=
  ∃ outline, lookup.resolve below = .ok (some outline) ∧ above ∈ outline.parents

/-- A class is known and is an interface. -/
def IsInterface (lookup : Lookup) (name : ClassName) : Prop :=
  ∃ outline, lookup.resolve name = .ok (some outline) ∧ outline.isInterface = true

/-- A class is another one or stands above it. -/
def AtOrAbove (lookup : Lookup) : ClassName → ClassName → Prop :=
  Relation.ReflTransGen lookup.Extends

/-- A member is declared at a class or above it. -/
def Declared (lookup : Lookup) (declares : ClassOutline → Bool) (name : ClassName) : Prop :=
  ∃ holder outline, lookup.AtOrAbove name holder ∧ lookup.resolve holder = .ok (some outline) ∧
    declares outline = true

/-- The names of the classes in some tables. -/
def namesIn (tables : List OutlineTable) : Finset ClassName :=
  (tables.flatMap Std.HashMap.keys).toFinset

/-- What is found in some tables is one of their names. -/
theorem mem_namesIn_of_resolveIn {tables : List OutlineTable} {name : ClassName}
    {outline : ClassOutline} (h : resolveIn name tables = .ok (some outline)) :
    name ∈ namesIn tables := by
  induction tables with
  | nil => simp [resolveIn] at h
  | cons table rest ih =>
      simp only [namesIn, List.mem_toFinset, List.flatMap_cons, List.mem_append] at ih ⊢
      unfold resolveIn at h
      cases hentry : table[name]? with
      | some entry =>
          have hkey : name ∈ table := Std.HashMap.mem_iff_isSome_getElem?.mpr (by simp [hentry])
          exact .inl (Std.HashMap.mem_keys.mpr hkey)
      | none =>
          rw [hentry] at h
          exact .inr (ih h)

/-- The size of a lookup is the number of entries in its tables. -/
theorem size_eq_length (lookup : Lookup) :
    lookup.size = (lookup.tables.flatMap Std.HashMap.keys).length := by
  have sums : ∀ (tables : List OutlineTable) (start : Nat),
      tables.foldl (fun total table => total + table.size) start =
        start + (tables.flatMap Std.HashMap.keys).length := by
    intro tables
    induction tables with
    | nil => simp
    | cons table rest ih =>
        intro start
        simp only [List.foldl_cons, List.flatMap_cons, List.length_append, ih,
          Std.HashMap.length_keys]
        omega
  simpa [size] using sums lookup.tables 0

/-- **A lookup has at most as many classes as its size says.** -/
theorem resolve_within_size (lookup : Lookup) :
    ∃ names : Finset ClassName, names.card ≤ lookup.size ∧
      ∀ name outline, lookup.resolve name = .ok (some outline) → name ∈ names := by
  refine ⟨namesIn lookup.tables, ?_, fun name outline h => mem_namesIn_of_resolveIn h⟩
  rw [size_eq_length]
  exact List.toFinset_card_le _

/-- Nothing is declared at or above a class that is not there. -/
theorem not_declared_of_none {lookup : Lookup} {declares : ClassOutline → Bool} {name : ClassName}
    (h : lookup.resolve name = .ok none) : ¬ lookup.Declared declares name := by
  rintro ⟨holder, outline, hup, hholder, _⟩
  rcases hup.cases_head with rfl | ⟨above, ⟨found, hfound, _⟩, _⟩
  · rw [h] at hholder
    cases hholder
  · rw [h] at hfound
    cases hfound

/-- A member is declared at or above a class if the class itself declares it, or it is declared at
or above one of the class's parents. -/
theorem declared_iff {lookup : Lookup} {declares : ClassOutline → Bool} {name : ClassName}
    {outline : ClassOutline} (h : lookup.resolve name = .ok (some outline)) :
    lookup.Declared declares name ↔
      declares outline = true ∨ ∃ above ∈ outline.parents, lookup.Declared declares above := by
  constructor
  · rintro ⟨holder, found, hup, hholder, hdeclares⟩
    rcases hup.cases_head with rfl | ⟨above, ⟨other, hother, habove⟩, hrest⟩
    · rw [h] at hholder
      cases hholder
      exact .inl hdeclares
    · rw [h] at hother
      cases hother
      exact .inr ⟨above, habove, holder, found, hrest, hholder, hdeclares⟩
  · rintro (hdeclares | ⟨above, habove, holder, found, hup, hholder, hdeclares⟩)
    · exact ⟨name, outline, .refl, h, hdeclares⟩
    · exact ⟨holder, found, .head ⟨outline, h, habove⟩ hup, hholder, hdeclares⟩

/-- What a search has behind it: none of the visited classes declares the member, and whatever
stands directly above one of them was visited too or is still to be visited. -/
def Explored (lookup : Lookup) (declares : ClassOutline → Bool) (visited : Std.HashSet ClassName)
    (toVisit : List ClassName) : Prop :=
  ∀ name ∈ visited, ∀ outline, lookup.resolve name = .ok (some outline) →
    declares outline = false ∧ ∀ above ∈ outline.parents, above ∈ visited ∨ above ∈ toVisit

namespace Explored

variable {lookup : Lookup} {declares : ClassOutline → Bool} {visited : Std.HashSet ClassName}
  {name : ClassName} {rest : List ClassName}

/-- A class that was visited need not be visited again. -/
theorem skip (h : lookup.Explored declares visited (name :: rest)) (hseen : name ∈ visited) :
    lookup.Explored declares visited rest := by
  intro other hother outline houtline
  obtain ⟨hnot, hparents⟩ := h other hother outline houtline
  refine ⟨hnot, fun above habove => ?_⟩
  rcases hparents above habove with hin | hnext
  · exact .inl hin
  · rcases List.mem_cons.mp hnext with rfl | hrest
    · exact .inl hseen
    · exact .inr hrest

/-- A class that does not declare the member is visited by putting its parents on the list. -/
theorem visit (h : lookup.Explored declares visited (name :: rest))
    {next : List ClassName} (hrest : ∀ other ∈ rest, other ∈ next)
    (hnew : ∀ outline, lookup.resolve name = .ok (some outline) →
      declares outline = false ∧ ∀ above ∈ outline.parents, above ∈ next) :
    lookup.Explored declares (visited.insert name) next := by
  intro other hother outline houtline
  rcases Std.HashSet.mem_insert.mp hother with hsame | hold
  · obtain rfl : name = other := by simpa using hsame
    obtain ⟨hnot, hparents⟩ := hnew outline houtline
    exact ⟨hnot, fun above habove => .inr (hparents above habove)⟩
  · obtain ⟨hnot, hparents⟩ := h other hold outline houtline
    refine ⟨hnot, fun above habove => ?_⟩
    rcases hparents above habove with hin | hnext
    · exact .inl (Std.HashSet.mem_insert.mpr (.inr hin))
    · rcases List.mem_cons.mp hnext with rfl | hlater
      · exact .inl Std.HashSet.mem_insert_self
      · exact .inr (hrest above hlater)

/-- Every way up from a visited class to a declaration leads through a class that is still to be
visited. -/
theorem declared_later (h : lookup.Explored declares visited rest) (hseen : name ∈ visited)
    (hdeclared : lookup.Declared declares name) :
    ∃ other ∈ rest, lookup.Declared declares other := by
  obtain ⟨holder, outline, hup, hholder, hdeclares⟩ := hdeclared
  induction hup using Relation.ReflTransGen.head_induction_on with
  | refl =>
      have hnot := (h holder hseen outline hholder).1
      rw [hdeclares] at hnot
      cases hnot
  | head hstep hrest ih =>
      obtain ⟨below, hbelow, habove⟩ := hstep
      rcases (h _ hseen below hbelow).2 _ habove with hin | hnext
      · exact ih hin
      · exact ⟨_, hnext, holder, outline, hrest, hholder, hdeclares⟩

end Explored

end Lookup

/-- A name that ends at the first semicolon has none. -/
theorem not_mem_of_splitName {done chars name : List Char} {after : Shorter chars}
    (h : BaseType.splitName done chars = some (name, after)) (hdone : ';' ∉ done) : ';' ∉ name := by
  induction chars generalizing done with
  | nil => simp [BaseType.splitName] at h
  | cons c rest ih =>
      unfold BaseType.splitName at h
      by_cases hc : c = ';'
      · rw [if_pos hc] at h
        cases h
        simpa using hdone
      · rw [if_neg hc] at h
        split at h
        · next found hfound =>
            cases h
            refine ih hfound ?_
            simp [hdone, Ne.symm hc]
        · cases h

/-- A text without semicolons cannot be split. -/
theorem splitName_eq_none {done chars : List Char} (h : ';' ∉ chars) :
    BaseType.splitName done chars = none := by
  induction chars generalizing done with
  | nil => rfl
  | cons c rest ih =>
      obtain ⟨hc, hrest⟩ : c ≠ ';' ∧ ';' ∉ rest := by simpa [eq_comm] using h
      simp [BaseType.splitName, hc, ih hrest]

/-- The names of classes that a text mentions have no semicolons. -/
theorem not_mem_of_mem_classNamesFrom {done : List ClassName} {chars : List Char}
    (hdone : ∀ name ∈ done, ';' ∉ name.toList) :
    ∀ name ∈ classNamesFrom done chars, ';' ∉ name.toList := by
  fun_induction classNamesFrom done chars with
  | case1 done => simpa using hdone
  | case2 done rest name after _ hsplit ih =>
      refine ih fun other hother => ?_
      rcases List.mem_cons.mp hother with rfl | hold
      · simpa using not_mem_of_splitName hsplit (by simp)
      · exact hdone other hold
  | case3 done rest hsplit => simpa using hdone
  | case4 done c rest _ ih => exact ih hdone

/-- A text without semicolons mentions no classes. -/
theorem classNamesFrom_eq_reverse {done : List ClassName} {chars : List Char} (h : ';' ∉ chars) :
    classNamesFrom done chars = done.reverse := by
  fun_induction classNamesFrom done chars with
  | case1 done => rfl
  | case2 done rest name after _ hsplit ih =>
      rw [splitName_eq_none (by simpa using h)] at hsplit
      cases hsplit
  | case3 done rest hsplit => rfl
  | case4 done c rest _ ih => exact ih (by simp_all)

/-- The name of a class that a text mentions mentions no classes itself. -/
theorem classNamesIn_of_mem {text : String} {name : ClassName} (h : name ∈ classNamesIn text) :
    classNamesIn name = [] :=
  classNamesFrom_eq_reverse (not_mem_of_mem_classNamesFrom (by simp) name h)

namespace SymbolTable

variable (table : SymbolTable)

/-- A class is missing: the newer release has it and the older one does not, or it is an array with
such a class in its name. -/
inductive MissingClass : ClassName → Prop where
  | plain {name : ClassName} (notArray : name.isArray = false) (known : name ∈ table.inventory)
      (lacking : table.catalog.resolve name = .ok none) : MissingClass name
  | array {name inner : ClassName} (isArray : name.isArray = true)
      (named : inner ∈ classNamesIn name) (missing : MissingClass inner) : MissingClass name

/-- A member is missing: the newer release has its owner, and no class at or above the owner
declares it. -/
def MissingMember (owner : ClassName) (declares : ClassOutline → Bool) : Prop :=
  owner ∈ table.inventory ∧ ¬ table.catalog.Declared declares owner

/-- A symbol is missing. -/
inductive Missing : Reference → Prop where
  | cls {name : ClassName} (missing : table.MissingClass name) : Missing (.cls name)
  | objectType {name : ClassName} {descriptor : FieldDescriptor}
      (written : descriptor = "L" ++ name ++ ";") (missing : table.MissingClass name) :
      Missing (.type descriptor)
  | arrayType {descriptor : FieldDescriptor} (isArray : Text.beginsWith '[' descriptor = true)
      (missing : table.MissingClass descriptor) : Missing (.type descriptor)
  | classesIn {descriptor : String} {name : ClassName} (named : name ∈ classNamesIn descriptor)
      (missing : table.MissingClass name) : Missing (.classesIn descriptor)
  | field {target : FieldRef}
      (missing : table.MissingMember target.owner fun outline =>
        outline.hasField target.name target.descriptor) : Missing (.field target)
  | method {target : MethodRef} (notArray : target.owner.isArray = false)
      (missing : table.MissingMember target.owner fun outline =>
        outline.hasMethod target.name target.descriptor) : Missing (.method target)

variable {table}

/-- Asking about something gives an answer, and the right one. -/
def Tells (question : Except Error Bool) (holds : Prop) : Prop :=
  ∃ answer, question = .ok answer ∧ (answer = true ↔ holds)

namespace Tells

variable {question : Except Error Bool} {holds : Prop}

/-- What is known to be the answer. -/
theorem of_ok {answer : Bool} (h : answer = true ↔ holds) : Tells (.ok answer) holds :=
  ⟨answer, rfl, h⟩

/-- A question that is passed on, about something that comes to the same. -/
theorem congr {other : Prop} (h : Tells question holds) (hiff : holds ↔ other) :
    Tells question other := by
  obtain ⟨answer, hanswer, hright⟩ := h
  exact ⟨answer, hanswer, hright.trans hiff⟩

/-- The opposite of an answer tells the opposite. -/
theorem not (h : Tells question holds) :
    Tells (do return !(← question)) (¬ holds) := by
  obtain ⟨answer, rfl, hright⟩ := h
  refine ⟨!answer, rfl, ?_⟩
  rw [← hright]
  cases answer <;> simp

/-- Asking one question and, only if the answer is no, another one tells whether one of the two
things holds. -/
theorem orElse {next : Except Error Bool} {others : Prop} (h : Tells question holds)
    (hnext : Tells next others) :
    Tells (do if ← question then return true else next) (holds ∨ others) := by
  obtain ⟨answer, rfl, hright⟩ := h
  cases answer with
  | true => exact ⟨true, rfl, by simp [← hright]⟩
  | false =>
      have hno : ¬ holds := by simpa using hright.not
      exact hnext.congr (by simp [hno])

end Tells

/-- Visiting a class leaves no class to visit that was not left before. -/
theorem unvisited_subset (names : Finset ClassName) (visited : Std.HashSet ClassName)
    (name : ClassName) : names.filter (· ∉ visited.insert name) ⊆ names.filter (· ∉ visited) := by
  intro other hother
  simp only [Finset.mem_filter, Std.HashSet.mem_insert, not_or] at hother ⊢
  exact ⟨hother.1, hother.2.2⟩

/-- Visiting a class of the catalog for the first time leaves fewer classes to visit. -/
theorem card_unvisited_lt {names : Finset ClassName} {visited : Std.HashSet ClassName}
    {name : ClassName} (hname : name ∈ names) (hnew : name ∉ visited) :
    (names.filter (· ∉ visited.insert name)).card < (names.filter (· ∉ visited)).card := by
  refine Finset.card_lt_card ⟨unvisited_subset names visited name, fun hback => ?_⟩
  have hstill := hback (Finset.mem_filter.mpr ⟨hname, hnew⟩)
  simp at hstill

/-- A search that has enough fuel for the classes it has not visited finds a member exactly if it
is declared at or above a class that is to be visited. -/
theorem isDeclared_explored (answers : table.catalog.Answers) {names : Finset ClassName}
    (covers : ∀ name outline, table.catalog.resolve name = .ok (some outline) → name ∈ names)
    (declares : ClassOutline → Bool) (fuel : Nat) (visited : Std.HashSet ClassName)
    (toVisit : List ClassName)
    (hfuel : (names.filter (· ∉ visited)).card ≤ fuel)
    (hexplored : table.catalog.Explored declares visited toVisit) :
    Tells (table.isDeclared declares fuel visited toVisit)
      (∃ name ∈ toVisit, table.catalog.Declared declares name) := by
  fun_induction isDeclared table declares fuel visited toVisit with
  | case1 fuel visited => exact .of_ok (by simp)
  | case2 fuel visited name rest hseen ih =>
      have hrest := hexplored.skip hseen
      refine (ih hfuel hrest).congr ⟨?_, ?_⟩
      · rintro ⟨other, hother, hdeclared⟩
        exact ⟨other, List.mem_cons_of_mem _ hother, hdeclared⟩
      · rintro ⟨other, hother, hdeclared⟩
        rcases List.mem_cons.mp hother with rfl | hlater
        · exact hrest.declared_later hseen hdeclared
        · exact ⟨other, hlater, hdeclared⟩
  | case3 fuel visited name rest hseen ihnone ihsome =>
      have hnew : name ∉ visited := by simpa using hseen
      obtain ⟨answer, hanswer⟩ := answers name
      rw [hanswer]
      cases answer with
      | none =>
          have hless : (names.filter (· ∉ visited.insert name)).card ≤ fuel :=
            (Finset.card_le_card (unvisited_subset names visited name)).trans hfuel
          have hnext : table.catalog.Explored declares (visited.insert name) rest :=
            hexplored.visit (fun _ hother => hother) fun outline houtline => by
              rw [hanswer] at houtline
              cases houtline
          refine (ihnone hless hnext).congr ?_
          simp [Lookup.not_declared_of_none hanswer]
      | some outline =>
          have hhere : table.catalog.Declared declares name ↔ _ := Lookup.declared_iff hanswer
          by_cases hdeclares : declares outline = true
          · refine ⟨true, by simp [hdeclares, bind, Except.bind, pure, Except.pure], ?_⟩
            simp [hhere, hdeclares]
          · have hstep := card_unvisited_lt (covers name outline hanswer) hnew
            obtain ⟨fuel, rfl⟩ : ∃ less, fuel = less + 1 := ⟨fuel - 1, by omega⟩
            have hnext : table.catalog.Explored declares (visited.insert name)
                (outline.parents.reverse ++ rest) := by
              refine hexplored.visit (fun _ hother => List.mem_append_right _ hother) ?_
              intro found hfound
              obtain rfl : outline = found := by simpa [hanswer] using hfound
              refine ⟨by simpa using hdeclares, fun above habove => ?_⟩
              exact List.mem_append_left _ (List.mem_reverse.mpr habove)
            have hrest := (ihsome outline) (by omega) hnext
            show Tells (if declares outline = true then pure true else _) _
            rw [if_neg hdeclares]
            refine hrest.congr ?_
            simp [hhere, hdeclares, or_and_right, exists_or]

/-- **A search for a member finds it exactly if it is declared at or above the class it starts
at**, however the links between the classes run. -/
theorem isDeclared_spec (answers : table.catalog.Answers) (declares : ClassOutline → Bool)
    (owner : ClassName) :
    Tells (table.isDeclared declares table.catalog.size ∅ [owner])
      (table.catalog.Declared declares owner) := by
  obtain ⟨names, hcard, covers⟩ := table.catalog.resolve_within_size
  have hfuel : (names.filter (· ∉ (∅ : Std.HashSet ClassName))).card ≤ table.catalog.size :=
    (Finset.card_filter_le _ _).trans hcard
  have hstart : table.catalog.Explored declares ∅ [owner] := fun name hname => by simp at hname
  refine (isDeclared_explored answers covers declares _ _ _ hfuel hstart).congr ?_
  simp

/-- Asking for a member answers whether it is missing. -/
theorem isMissingMember_spec (answers : table.catalog.Answers) (owner : ClassName)
    (declares : ClassOutline → Bool) :
    Tells (table.isMissingMember owner declares) (table.MissingMember owner declares) := by
  unfold isMissingMember MissingMember
  by_cases hknown : owner ∈ table.inventory
  · have hcontains : table.inventory.contains owner = true := hknown
    simp only [hcontains, if_true]
    refine (isDeclared_spec answers declares owner).not.congr ?_
    simp [hknown]
  · have hcontains : table.inventory.contains owner = false := by simpa using hknown
    simp only [hcontains]
    exact .of_ok (by simp [hknown])

/-- Asking for a class that is no array answers whether it is missing. -/
theorem isMissingPlain_spec (answers : table.catalog.Answers) {name : ClassName}
    (notArray : name.isArray = false) :
    Tells (table.isMissingPlain name) (table.MissingClass name) := by
  obtain ⟨answer, hanswer⟩ := answers name
  have hiff : table.MissingClass name ↔ name ∈ table.inventory ∧ answer = none := by
    constructor
    · intro h
      cases h with
      | plain _ known lacking => exact ⟨known, by simpa [hanswer] using lacking⟩
      | array isArray _ _ => simp [isArray] at notArray
    · rintro ⟨known, rfl⟩
      exact .plain notArray known hanswer
  unfold isMissingPlain
  by_cases hknown : name ∈ table.inventory
  · have hcontains : table.inventory.contains name = true := hknown
    refine ⟨answer.isNone, by simp [hcontains, hanswer, bind, Except.bind, pure, Except.pure], ?_⟩
    simp [hiff, hknown]
  · have hcontains : table.inventory.contains name = false := by simpa using hknown
    refine ⟨false, by simp [hcontains, pure, Except.pure], ?_⟩
    simp [hiff, hknown]

/-- Asking for some classes answers whether one of them that is no array is missing. -/
theorem anyMissing_spec (answers : table.catalog.Answers) (names : List ClassName) :
    Tells (table.anyMissing names)
      (∃ name ∈ names, name.isArray = false ∧ table.MissingClass name) := by
  induction names with
  | nil => exact .of_ok (by simp)
  | cons name rest ih =>
      unfold anyMissing
      by_cases harray : name.isArray = true
      · simp only [harray, if_true]
        exact ih.congr (by simp [harray])
      · have hplain : name.isArray = false := by simpa using harray
        simp only [hplain]
        refine ((isMissingPlain_spec answers hplain).orElse ih).congr ?_
        simp [hplain]

/-- **Asking for a class answers whether it is missing.** -/
theorem isMissingClass_spec (answers : table.catalog.Answers) (name : ClassName) :
    Tells (table.isMissingClass name) (table.MissingClass name) := by
  unfold isMissingClass
  by_cases harray : name.isArray = true
  · simp only [harray, if_true]
    refine (anyMissing_spec answers _).congr ⟨?_, ?_⟩
    · rintro ⟨inner, hinner, _, hmissing⟩
      exact .array harray hinner hmissing
    · intro h
      cases h with
      | plain notArray _ _ => simp [harray] at notArray
      | @array _ inner _ named missing =>
          refine ⟨inner, named, ?_, missing⟩
          -- an array inside of an array's name has no name of a class in it
          cases missing with
          | plain notArray _ _ => exact notArray
          | array _ inside _ =>
              rw [classNamesIn_of_mem named] at inside
              cases inside
  · have hplain : name.isArray = false := by simpa using harray
    simp only [hplain]
    exact isMissingPlain_spec answers hplain

/-- Asking for the classes in a descriptor answers whether one is missing. -/
theorem anyMissingClass_spec (answers : table.catalog.Answers) (names : List ClassName) :
    Tells (table.anyMissingClass names) (∃ name ∈ names, table.MissingClass name) := by
  induction names with
  | nil => exact .of_ok (by simp)
  | cons name rest ih =>
      unfold anyMissingClass
      refine ((isMissingClass_spec answers name).orElse ih).congr ?_
      simp

/-- A missing type, by the characters of its descriptor. -/
theorem missing_type_iff {descriptor : FieldDescriptor} :
    table.Missing (.type descriptor) ↔
      (∃ name : ClassName, descriptor.toList = 'L' :: (name.toList ++ [';']) ∧
        table.MissingClass name) ∨
      ((∃ rest, descriptor.toList = '[' :: rest) ∧ table.MissingClass descriptor) := by
  have hobject : ∀ name : ClassName,
      descriptor = "L" ++ name ++ ";" ↔ descriptor.toList = 'L' :: (name.toList ++ [';']) := by
    intro name
    simp [← String.toList_inj]
  constructor
  · intro h
    cases h with
    | objectType written missing => exact .inl ⟨_, (hobject _).mp written, missing⟩
    | arrayType isArray missing => exact .inr ⟨Text.beginsWith_iff.mp isArray, missing⟩
  · rintro (⟨name, written, missing⟩ | ⟨isArray, missing⟩)
    · exact .objectType ((hobject name).mpr written) missing
    · exact .arrayType (Text.beginsWith_iff.mpr isArray) missing

/-- Asking for a type answers whether it is missing. -/
theorem isMissingType_spec (answers : table.catalog.Answers) (descriptor : FieldDescriptor) :
    Tells (table.isMissingType descriptor) (table.Missing (.type descriptor)) := by
  rw [missing_type_iff]
  unfold isMissingType
  split
  next rest hchars =>
    split
    next hlast =>
      have hrest : rest = (String.ofList rest.dropLast).toList ++ [';'] := by
        rw [String.toList_ofList, List.dropLast_append_getLast? ';' hlast]
      refine (isMissingClass_spec answers _).congr ⟨fun missing => .inl ⟨_, ?_, missing⟩, ?_⟩
      · rw [hchars, ← hrest]
      · rintro (⟨name, written, missing⟩ | ⟨⟨_, isArray⟩, _⟩)
        · rw [hchars] at written
          cases written
          simpa using missing
        · simp [hchars] at isArray
    next hlast =>
      refine .of_ok ⟨by simp, ?_⟩
      rintro (⟨name, written, _⟩ | ⟨⟨_, isArray⟩, _⟩)
      · rw [hchars] at written
        cases written
        simp at hlast
      · simp [hchars] at isArray
  next rest hchars =>
    refine (isMissingClass_spec answers descriptor).congr ?_
    simp [hchars]
  next hnoObject hnoArray =>
    refine .of_ok ⟨by simp, ?_⟩
    rintro (⟨name, written, _⟩ | ⟨⟨rest, isArray⟩, _⟩)
    · exact absurd written (hnoObject _)
    · exact absurd isArray (hnoArray _)

/-- **Asking for a symbol answers whether it is missing.** -/
theorem isMissing_spec (answers : table.catalog.Answers) (reference : Reference) :
    Tells (table.isMissing reference) (table.Missing reference) := by
  cases reference with
  | cls name =>
      refine (isMissingClass_spec answers name).congr ⟨.cls, fun h => ?_⟩
      cases h with | cls missing => exact missing
  | type descriptor => exact isMissingType_spec answers descriptor
  | classesIn descriptor =>
      refine (anyMissingClass_spec answers _).congr ⟨?_, fun h => ?_⟩
      · rintro ⟨name, named, missing⟩
        exact .classesIn named missing
      · cases h with | classesIn named missing => exact ⟨_, named, missing⟩
  | field target =>
      refine (isMissingMember_spec answers target.owner _).congr ⟨.field, fun h => ?_⟩
      cases h with | field missing => exact missing
  | method target =>
      unfold isMissing isMissingMethod
      by_cases harray : target.owner.isArray = true
      · simp only [harray, if_true]
        refine .of_ok ⟨by simp, fun h => ?_⟩
        cases h with | method notArray _ => simp [harray] at notArray
      · have hplain : target.owner.isArray = false := by simpa using harray
        simp only [hplain]
        refine (isMissingMember_spec answers target.owner _).congr ⟨.method hplain, fun h => ?_⟩
        cases h with | method _ missing => exact missing

end SymbolTable

end Downlevel
