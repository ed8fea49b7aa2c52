import Downlevel.Proofs.Symbols.Endings

/-!
# Calls that could go to several classes

If the ways from the parents of a class come to different targets, then the search reports that and
comes to nothing from this class on.  The report is made wherever that happens on the way up, and
not at the owner of the call only.  So two things have to be told apart: what is reported about the
owner itself, which leaves the call alone, and what is reported about a class further up.  From that
class nothing comes, as if the method was not declared above it, and the call still goes where the
other ways from the owner lead.

Whether anything is reported can be told from the links alone.  Let a class be met first if it
declares the method and a way up leads to it over classes that do not.  There is a report exactly if
two classes are met first.  The two may well be related: a class and what it inherits from are both
met first if a second way leads around the class.

* `SymbolTable.Torn` — the ways from the parents of a class come to different targets;
* `SymbolTable.Comes.of_mem_found`, `SymbolTable.Comes.mem_found` — these are the classes that are
  reported about;
* `SymbolTable.Comes.found_ne_nil_iff` — there is a report exactly if two classes are met first;
* `SymbolTable.widenCall_reports`, `SymbolTable.widenCall_ambiguous_iff` — what that says of a call.
-/

namespace Downlevel

namespace CallTarget

variable {targets : List CallTarget}

/-- A list of which all members are the same and none is there twice has at most one; so of more than
one some are different. -/
theorem exists_ne_of_length_gather (h : 1 < (gather [] targets).length) :
    ∃ first ∈ targets, ∃ second ∈ targets, first ≠ second := by
  cases targets with
  | nil => simp [gather] at h
  | cons first rest =>
      by_contra hsame
      push Not at hsame
      have hall : ∀ other ∈ first :: rest, other = first :=
        fun other hmem => hsame other hmem first List.mem_cons_self
      rw [gather_same hall (.inr ⟨rfl, List.cons_ne_nil _ _⟩)] at h
      simp at h

/-- Two different targets are gathered both. -/
theorem length_gather_of_ne {first second : CallTarget} (hfirst : first ∈ targets)
    (hsecond : second ∈ targets) (hne : first ≠ second) : 1 < (gather [] targets).length := by
  have hin : ∀ target ∈ targets, target ∈ gather [] targets :=
    fun target hmem => mem_gather.mpr (.inr hmem)
  have hfirst' := hin first hfirst
  have hsecond' := hin second hsecond
  generalize gather [] targets = gathered at hfirst' hsecond'
  rcases gathered with _ | ⟨target, _ | ⟨another, rest⟩⟩
  · cases hfirst'
  · rw [List.mem_singleton] at hfirst' hsecond'
    exact absurd (hfirst'.trans hsecond'.symm) hne
  · simp

/-- Of several targets none is the only one. -/
theorem only_eq_none (h : 1 < targets.length) : only targets = none := by
  rcases targets with _ | ⟨target, _ | ⟨another, rest⟩⟩
  · rfl
  · simp at h
  · rfl

/-- A target that others would be different from is the only one that is gathered. -/
theorem only_gather {target : CallTarget} (hmem : target ∈ targets)
    (h : ¬ 1 < (gather [] targets).length) : only (gather [] targets) = some target := by
  have hall : ∀ other ∈ targets, other = target := by
    intro other hother
    by_contra hne
    exact h (length_gather_of_ne hother hmem hne)
  rw [gather_same hall (.inr ⟨rfl, List.ne_nil_of_mem hmem⟩)]
  rfl

end CallTarget

namespace CallQuery

variable {query : CallQuery} {cls : ClassName} {targets : List CallTarget} {event : Event}

/-- Different targets are reported, and nothing else is. -/
theorem mem_conflict : event ∈ query.conflict cls targets ↔
    1 < targets.length ∧ event = query.ambiguity cls (targets.map CallTarget.owner) := by
  unfold conflict
  split
  next h => simp [h]
  next h => simp [h]

end CallQuery

namespace SymbolTable

open Downlevel.Task

variable {table : SymbolTable} {query : CallQuery} {owner cls : ClassName}
  {answer : Option CallTarget} {found : Journal}

/-- The search comes to a target. -/
def ComesTo (table : SymbolTable) (query : CallQuery) (name : ClassName) (target : CallTarget) :
    Prop :=
  ∃ found, table.Comes query name (some target) found

/-- From the parents of a class the search comes to different targets. -/
def Torn (table : SymbolTable) (query : CallQuery) (name : ClassName) : Prop :=
  ∃ left right first second,
    table.catalog.GoesOn query.declares name left ∧ table.ComesTo query left first ∧
      table.catalog.GoesOn query.declares name right ∧ table.ComesTo query right second ∧
        first ≠ second

section Parents

variable {outline : ClassOutline} {answerOf : ClassName → Option CallTarget}
  {foundOf : ClassName → Journal}

/-- What the search comes to from a parent is one of the targets. -/
theorem mem_targets_iff (hfound : table.catalog.resolve owner = .ok (some outline))
    (hnot : query.declares outline = false)
    (hparents : ∀ parent ∈ outline.parents,
      table.Comes query parent (answerOf parent) (foundOf parent)) {target : CallTarget} :
    target ∈ outline.parents.filterMap answerOf ↔
      ∃ parent, table.catalog.GoesOn query.declares owner parent ∧
        table.ComesTo query parent target := by
  rw [List.mem_filterMap]
  constructor
  · rintro ⟨parent, hmem, hanswer⟩
    exact ⟨parent, ⟨outline, hfound, hnot, hmem⟩, foundOf parent, hanswer ▸ hparents parent hmem⟩
  · rintro ⟨parent, hstep, later, hcomes⟩
    have hmem := ((Lookup.goesOn_iff hfound).mp hstep).2
    exact ⟨parent, hmem, ((hparents parent hmem).unique hcomes).1⟩

/-- A class is torn if more than one target is gathered. -/
theorem torn_iff (hfound : table.catalog.resolve owner = .ok (some outline))
    (hnot : query.declares outline = false)
    (hparents : ∀ parent ∈ outline.parents,
      table.Comes query parent (answerOf parent) (foundOf parent)) :
    table.Torn query owner ↔
      1 < (CallTarget.gather [] (outline.parents.filterMap answerOf)).length := by
  have hmem : ∀ target, target ∈ outline.parents.filterMap answerOf ↔ _ :=
    fun target => mem_targets_iff hfound hnot hparents
  constructor
  · rintro ⟨left, right, first, second, hleft, hfirst, hright, hsecond, hne⟩
    exact CallTarget.length_gather_of_ne ((hmem first).mpr ⟨left, hleft, hfirst⟩)
      ((hmem second).mpr ⟨right, hright, hsecond⟩) hne
  · intro hlength
    obtain ⟨first, hfirst, second, hsecond, hne⟩ := CallTarget.exists_ne_of_length_gather hlength
    obtain ⟨left, hleft, hfirst⟩ := (hmem first).mp hfirst
    obtain ⟨right, hright, hsecond⟩ := (hmem second).mp hsecond
    exact ⟨left, right, first, second, hleft, hfirst, hright, hsecond, hne⟩

end Parents

/-- A search that does not go on from a class comes to no torn class. -/
theorem not_torn_of_stays
    (hstays : ∀ above, ¬ table.catalog.GoesOn query.declares owner above)
    (hreaches : table.catalog.Reaches query.declares owner cls) : ¬ table.Torn query cls := by
  rintro ⟨left, -, -, -, hleft, -⟩
  rcases hreaches.cases_head with rfl | ⟨above, hstep, -⟩
  · exact hstays left hleft
  · exact hstays above hstep

/-- From a class that is torn nothing comes. -/
theorem Comes.eq_none_of_torn (h : table.Comes query owner answer found)
    (htorn : table.Torn query owner) : answer = none := by
  cases h with
  | unknown hunknown => rfl
  | here hfound hdeclares =>
      exact absurd htorn (not_torn_of_stays (Lookup.not_goesOn_of_declares hfound hdeclares) .refl)
  | up hfound hnot hparents =>
      exact CallTarget.only_eq_none ((torn_iff hfound hnot hparents).mp htorn)

/-- What comes with a report comes from a parent. -/
theorem Comes.from_parent {target : CallTarget} (h : table.Comes query owner (some target) found)
    (hreports : found ≠ []) :
    ∃ parent, table.catalog.GoesOn query.declares owner parent ∧
      table.ComesTo query parent target := by
  generalize hanswer : some target = answer at h
  cases h with
  | unknown => cases hanswer
  | here => exact absurd rfl hreports
  | up hfound hnot hparents =>
      have hgathered := CallTarget.mem_of_only hanswer.symm
      have hmem := (CallTarget.mem_gather.mp hgathered).resolve_left List.not_mem_nil
      exact (mem_targets_iff hfound hnot hparents).mp hmem

/-- What a report says: that a class is torn, and to which classes the search comes from its
parents. -/
structure Reported (table : SymbolTable) (query : CallQuery) (cls : ClassName)
    (owners : List ClassName) : Prop where
  torn : table.Torn query cls
  owners_iff : ∀ holder, holder ∈ owners ↔ ∃ parent target,
    table.catalog.GoesOn query.declares cls parent ∧ table.ComesTo query parent target ∧
      target.owner = holder

/-- **Everything that is reported** is that a class is torn to which the search comes. -/
theorem Comes.of_mem_found (h : table.Comes query owner answer found) {event : Event}
    (hevent : event ∈ found) :
    ∃ cls owners, event = query.ambiguity cls owners ∧
      table.catalog.Reaches query.declares owner cls ∧ table.Reported query cls owners := by
  induction h with
  | unknown => cases hevent
  | here => cases hevent
  | @up owner outline answerOf foundOf hfound hnot hparents ih =>
      rcases List.mem_append.mp hevent with habove | hhere
      · obtain ⟨parent, hmem, hin⟩ := List.mem_flatMap.mp habove
        obtain ⟨cls, owners, heq, hreaches, hreported⟩ := ih parent hmem hin
        exact ⟨cls, owners, heq, .head ⟨outline, hfound, hnot, hmem⟩ hreaches, hreported⟩
      · obtain ⟨hlength, heq⟩ := CallQuery.mem_conflict.mp hhere
        refine ⟨owner, _, heq, .refl, (torn_iff hfound hnot hparents).mpr hlength, fun holder => ?_⟩
        simp only [List.mem_map, CallTarget.mem_gather, List.not_mem_nil, false_or,
          mem_targets_iff hfound hnot hparents]
        constructor
        · rintro ⟨target, ⟨parent, hstep, hcomes⟩, howner⟩
          exact ⟨parent, target, hstep, hcomes, howner⟩
        · rintro ⟨parent, target, hstep, hcomes, howner⟩
          exact ⟨target, ⟨parent, hstep, hcomes⟩, howner⟩

/-- **Each torn class** that the search comes to is reported. -/
theorem Comes.mem_found (h : table.Comes query owner answer found)
    (hreaches : table.catalog.Reaches query.declares owner cls) (htorn : table.Torn query cls) :
    ∃ owners, query.ambiguity cls owners ∈ found := by
  induction h with
  | unknown hunknown =>
      exact absurd htorn (not_torn_of_stays (Lookup.not_goesOn_of_none hunknown) hreaches)
  | here hfound hdeclares =>
      have hstays := Lookup.not_goesOn_of_declares hfound hdeclares
      exact absurd htorn (not_torn_of_stays hstays hreaches)
  | @up owner outline answerOf foundOf hfound hnot hparents ih =>
      rcases hreaches.cases_head with rfl | ⟨parent, hstep, hrest⟩
      · have hlength := (torn_iff hfound hnot hparents).mp htorn
        exact ⟨_, List.mem_append_right _ (CallQuery.mem_conflict.mpr ⟨hlength, rfl⟩)⟩
      · have hmem := ((Lookup.goesOn_iff hfound).mp hstep).2
        obtain ⟨owners, hin⟩ := ih parent hmem hrest
        exact ⟨owners, List.mem_append_left _ (List.mem_flatMap.mpr ⟨parent, hmem, hin⟩)⟩

/-! ### Classes that are met first -/

/-- What is met first from a class to which the search comes is met first from where it began. -/
theorem firstDeclared_of_reaches {holder : ClassName}
    (hreaches : table.catalog.Reaches query.declares owner cls)
    (h : table.catalog.FirstDeclared query.declares cls holder) :
    table.catalog.FirstDeclared query.declares owner holder := by
  induction hreaches using Relation.ReflTransGen.head_induction_on with
  | refl => exact h
  | head hstep _ ih =>
      obtain ⟨outline, hfound, hnot, hparent⟩ := hstep
      exact .up hfound hnot hparent ih

/-- What the search comes to from a parent is met first. -/
theorem ComesTo.firstDeclared {parent : ClassName} {target : CallTarget}
    (h : table.ComesTo query parent target)
    (hstep : table.catalog.GoesOn query.declares cls parent) :
    table.catalog.FirstDeclared query.declares cls target.owner ∧ table.Marked target := by
  obtain ⟨found, hcomes⟩ := h
  obtain ⟨hfirst, hmarked⟩ := hcomes.search.first target rfl
  exact ⟨firstDeclared_of_reaches (.single hstep) hfirst, hmarked⟩

/-- What a report names are classes that are met first, and at least two. -/
theorem Reported.owners_met_first {owners : List ClassName}
    (h : table.Reported query cls owners) :
    (∀ holder ∈ owners, table.catalog.FirstDeclared query.declares cls holder) ∧
      ∃ first ∈ owners, ∃ second ∈ owners, first ≠ second := by
  constructor
  · intro holder hmem
    obtain ⟨parent, target, hstep, hcomes, rfl⟩ := (h.owners_iff holder).mp hmem
    exact (hcomes.firstDeclared hstep).1
  · obtain ⟨left, right, first, second, hleft, hfirst, hright, hsecond, hne⟩ := h.torn
    have hmarked := (hfirst.firstDeclared hleft).2
    have hmarked' := (hsecond.firstDeclared hright).2
    exact ⟨first.owner, (h.owners_iff _).mpr ⟨left, first, hleft, hfirst, rfl⟩, second.owner,
      (h.owners_iff _).mpr ⟨right, second, hright, hsecond, rfl⟩,
      fun howner => hne (hmarked.eq hmarked' howner)⟩

/-- If nothing is reported, then the search comes to whatever is met first. -/
theorem Comes.met_first (h : table.Comes query owner answer found) (hquiet : found = [])
    {holder : ClassName} (hfirst : table.catalog.FirstDeclared query.declares owner holder) :
    ∃ target, answer = some target ∧ target.owner = holder := by
  induction h with
  | unknown hunknown =>
      cases hfirst with
      | here hdeclared =>
          obtain ⟨outline, hfound, -⟩ := hdeclared
          cases hunknown.symm.trans hfound
      | up hfound _ _ _ => cases hunknown.symm.trans hfound
  | here hfound hdeclares =>
      exact ⟨_, rfl, (hfirst.eq_of_declaredAt ((Lookup.declaredAt_iff hfound).mpr hdeclares)).symm⟩
  | @up owner outline answerOf foundOf hfound hnot hparents ih =>
      obtain ⟨habove, hhere⟩ := List.append_eq_nil_iff.mp hquiet
      cases hfirst with
      | here hdeclared =>
          have hdeclares := (Lookup.declaredAt_iff hfound).mp hdeclared
          cases hdeclares.symm.trans hnot
      | @up _ parent _ _ hfound' _ hparent hway =>
          cases hfound.symm.trans hfound'
          have hsilent : foundOf parent = [] := List.flatMap_eq_nil_iff.mp habove parent hparent
          obtain ⟨target, hanswer, howner⟩ := ih parent hparent hsilent hway
          have hmem : target ∈ outline.parents.filterMap answerOf :=
            List.mem_filterMap.mpr ⟨parent, hparent, hanswer⟩
          refine ⟨target, CallTarget.only_gather hmem fun hlength => ?_, howner⟩
          have hevent := hhere ▸ CallQuery.mem_conflict.mpr ⟨hlength, rfl⟩
          cases hevent

/-- **There is a report** exactly if two different classes are met first. -/
theorem Comes.found_ne_nil_iff (h : table.Comes query owner answer found) :
    found ≠ [] ↔ ∃ first second, first ≠ second ∧
      table.catalog.FirstDeclared query.declares owner first ∧
        table.catalog.FirstDeclared query.declares owner second := by
  constructor
  · intro hreports
    obtain ⟨event, hevent⟩ := List.exists_mem_of_ne_nil found hreports
    obtain ⟨cls, owners, -, hreaches, hreported⟩ := h.of_mem_found hevent
    obtain ⟨hmet, first, hfirst, second, hsecond, hne⟩ := hreported.owners_met_first
    exact ⟨first, second, hne, firstDeclared_of_reaches hreaches (hmet first hfirst),
      firstDeclared_of_reaches hreaches (hmet second hsecond)⟩
  · rintro ⟨first, second, hne, hfirst, hsecond⟩ hquiet
    obtain ⟨target, hanswer, rfl⟩ := h.met_first hquiet hfirst
    obtain ⟨target', hanswer', rfl⟩ := h.met_first hquiet hsecond
    cases hanswer.symm.trans hanswer'
    exact hne rfl

/-! ### Calls -/

/-- **What a report says of a call.**  Widening a call reports of each torn class to which the search
comes from the owner, and of nothing else.  If the owner itself is torn, then the call is left alone.
A call that moves in spite of a report has an owner that is not torn, and moves to what the search
comes to from one of the owner's parents. -/
theorem widenCall_reports (answers : table.catalog.Answers) (hloopless : table.catalog.Loopless)
    (query : CallQuery) (owner : ClassName) :
    ∃ answer found, Writes (table.widenCall query owner) answer found ∧
      (∀ event ∈ found, ∃ cls owners, event = query.ambiguity cls owners ∧
        table.catalog.Reaches query.declares owner cls ∧ table.Torn query cls) ∧
      (owner ∈ table.inventory → ∀ cls, table.catalog.Reaches query.declares owner cls →
        table.Torn query cls → ∃ owners, query.ambiguity cls owners ∈ found) ∧
      (table.Torn query owner → answer = none) ∧
      (found ≠ [] → answer = none ∨
        ¬ table.Torn query owner ∧ ∃ parent target, answer = some target ∧
          table.catalog.GoesOn query.declares owner parent ∧
            table.ComesTo query parent target) := by
  obtain ⟨answer, found, hwrites, hcomes, hnothing⟩ :=
    widenCall_comes answers hloopless query owner
  by_cases known : owner ∈ table.inventory
  · have hcomes := hcomes known
    refine ⟨answer, found, hwrites, fun event hevent => ?_, fun _ cls => hcomes.mem_found,
      hcomes.eq_none_of_torn, fun hreports => ?_⟩
    · obtain ⟨cls, owners, heq, hreaches, hreported⟩ := hcomes.of_mem_found hevent
      exact ⟨cls, owners, heq, hreaches, hreported.torn⟩
    · cases answer with
      | none => exact .inl rfl
      | some target =>
          right
          have hwhole : ¬ table.Torn query owner := by
            intro htorn
            cases hcomes.eq_none_of_torn htorn
          obtain ⟨parent, hstep, hcomesTo⟩ := hcomes.from_parent hreports
          exact ⟨hwhole, parent, target, rfl, hstep, hcomesTo⟩
  · obtain ⟨rfl, rfl⟩ := hnothing known
    refine ⟨none, [], hwrites, ?_, fun h => absurd h known, fun _ => rfl, fun h => absurd rfl h⟩
    intro event hevent
    cases hevent

section Parted

/-- An interface with one method. -/
def runnable (name : ClassName) : ClassOutline :=
  { name := name, superClass := some ClassName.javaObject, isInterface := true,
    methods := [⟨"run", "()V", false⟩] }

/-- A class that has the method from two interfaces. -/
def tornOutline : ClassOutline :=
  { name := "a/Torn", superClass := some ClassName.javaObject,
    interfaces := ["a/Left", "a/Right"] }

/-- A class below it that has the method from a third interface too. -/
def taskOutline : ClassOutline :=
  { name := "a/Task", superClass := some "a/Torn", interfaces := ["a/Runner"] }

/-- The classes and their interfaces. -/
def partedOutlines : List ClassOutline :=
  [runnable "a/Left", runnable "a/Right", runnable "a/Runner", tornOutline, taskOutline]

/-- The symbols of a release with these classes. -/
def parted : SymbolTable where
  release := default
  inventory := Std.HashSet.ofList ["a/Torn", "a/Task"]
  catalog := .ofOutlines partedOutlines

/-- A call of the method, somewhere in a class. -/
def partedQuery : CallQuery :=
  ⟨"a/User", "a/User.f()V", "run", "()V"⟩

/-- How far a class is from the top. -/
def partedHeight (name : ClassName) : Nat :=
  if name = "a/Task" then 3
  else if name = "a/Torn" then 2
  else if name = ClassName.javaObject then 0
  else 1

/-- The catalog answers every name. -/
theorem answers_parted : parted.catalog.Answers :=
  Lookup.answers_ofOutlines _

/-- No class of the release stands above itself. -/
theorem loopless_parted : parted.catalog.Loopless :=
  Lookup.loopless_ofOutlines partedHeight (by decide)

/-- What the search comes to from each class. -/
def partedAnswer (name : ClassName) : Option CallTarget :=
  if name = ClassName.javaObject ∨ name = "a/Torn" then none
  else some ⟨name, true⟩

/-- The classes that the search goes on from report. -/
def partedFound (name : ClassName) : Journal :=
  if name = "a/Torn" then [partedQuery.ambiguity "a/Torn" ["a/Left", "a/Right"]] else []

/-- From an interface with the method the search comes to the interface. -/
theorem comes_runnable {name : ClassName}
    (hfound : parted.catalog.resolve name = .ok (some (runnable name))) :
    parted.Comes partedQuery name (some ⟨name, true⟩) [] :=
  .here hfound rfl

/-- From the first class the search comes to nothing, and reports so. -/
theorem comes_torn : parted.Comes partedQuery "a/Torn" none
    [partedQuery.ambiguity "a/Torn" ["a/Left", "a/Right"]] := by
  have hfound : parted.catalog.resolve "a/Torn" = .ok (some tornOutline) :=
    Lookup.resolve_ofOutlines _ _
  have hparents : ∀ parent ∈ tornOutline.parents,
      parted.Comes partedQuery parent (partedAnswer parent) (partedFound parent) := by
    intro parent hparent
    simp only [tornOutline, ClassOutline.parents, Option.toList_some, List.cons_append,
      List.nil_append, List.mem_cons, List.not_mem_nil, or_false] at hparent
    rcases hparent with rfl | rfl | rfl
    · exact .unknown (Lookup.resolve_ofOutlines _ _)
    · exact comes_runnable (Lookup.resolve_ofOutlines _ _)
    · exact comes_runnable (Lookup.resolve_ofOutlines _ _)
  exact Comes.up hfound rfl hparents

/-- The first class is torn. -/
theorem torn_parted : parted.Torn partedQuery "a/Torn" := by
  have hstep : ∀ parent ∈ tornOutline.parents,
      parted.catalog.GoesOn partedQuery.declares "a/Torn" parent := by
    intro parent hparent
    exact ⟨tornOutline, Lookup.resolve_ofOutlines _ _, rfl, hparent⟩
  have hleft : parted.ComesTo partedQuery "a/Left" ⟨"a/Left", true⟩ :=
    ⟨[], comes_runnable (Lookup.resolve_ofOutlines _ _)⟩
  have hright : parted.ComesTo partedQuery "a/Right" ⟨"a/Right", true⟩ :=
    ⟨[], comes_runnable (Lookup.resolve_ofOutlines _ _)⟩
  exact ⟨"a/Left", "a/Right", _, _, hstep _ (by decide), hleft, hstep _ (by decide), hright,
    by decide⟩

/-- A call on the torn class is left alone, and there is a report about the class. -/
theorem widenCall_reports_torn :
    parted.catalog.Answers ∧ parted.catalog.Loopless ∧
      ∃ found, Writes (parted.widenCall partedQuery "a/Torn") none found ∧
        ∃ owners, partedQuery.ambiguity "a/Torn" owners ∈ found := by
  obtain ⟨answer, found, hwrites, -, hreported, hnone, -⟩ :=
    widenCall_reports answers_parted loopless_parted partedQuery "a/Torn"
  obtain rfl := hnone torn_parted
  have hknown : "a/Torn" ∈ parted.inventory := by simp [parted]
  exact ⟨answers_parted, loopless_parted, found, hwrites,
    hreported hknown "a/Torn" .refl torn_parted⟩

/-- **A call can move in spite of a report.**  From the class below, the way over the torn class is
reported and comes to nothing, and the call goes to the third interface. -/
theorem widenCall_moves_parted :
    parted.catalog.Answers ∧ parted.catalog.Loopless ∧
      Writes (parted.widenCall partedQuery "a/Task") (some ⟨"a/Runner", true⟩)
        [partedQuery.ambiguity "a/Torn" ["a/Left", "a/Right"]] := by
  have hfound : parted.catalog.resolve "a/Task" = .ok (some taskOutline) :=
    Lookup.resolve_ofOutlines _ _
  have hparents : ∀ parent ∈ taskOutline.parents,
      parted.Comes partedQuery parent (partedAnswer parent) (partedFound parent) := by
    intro parent hparent
    simp only [taskOutline, ClassOutline.parents, Option.toList_some, List.cons_append,
      List.nil_append, List.mem_cons, List.not_mem_nil, or_false] at hparent
    rcases hparent with rfl | rfl
    · exact comes_torn
    · exact comes_runnable (Lookup.resolve_ofOutlines _ _)
  have hcomes : parted.Comes partedQuery "a/Task" (some ⟨"a/Runner", true⟩)
      [partedQuery.ambiguity "a/Torn" ["a/Left", "a/Right"]] := Comes.up hfound rfl hparents
  have hknown : "a/Task" ∈ parted.inventory := by simp [parted]
  exact ⟨answers_parted, loopless_parted, hcomes.widenCall answers_parted hknown⟩

end Parted

/-- **When a call is ambiguous.**  Widening a call reports something exactly if its owner is a class
that newer releases have and two different classes are met first from there.  Each report is about
a class to which the search comes, and names at least two classes that are met first from it.  If no
class that is met first inherits from another one, then two of the declaring classes are unrelated. -/
theorem widenCall_ambiguous_iff (answers : table.catalog.Answers)
    (hloopless : table.catalog.Loopless) (query : CallQuery) (owner : ClassName) :
    ∃ answer found, Writes (table.widenCall query owner) answer found ∧
      (found ≠ [] ↔ owner ∈ table.inventory ∧ ∃ first second, first ≠ second ∧
        table.catalog.FirstDeclared query.declares owner first ∧
          table.catalog.FirstDeclared query.declares owner second) ∧
      (∀ event ∈ found, ∃ cls owners, event = query.ambiguity cls owners ∧
        table.catalog.Reaches query.declares owner cls ∧
          (∀ holder ∈ owners, table.catalog.FirstDeclared query.declares cls holder) ∧
            ∃ first ∈ owners, ∃ second ∈ owners, first ≠ second) ∧
      ((∀ first second, table.catalog.FirstDeclared query.declares owner first →
          table.catalog.FirstDeclared query.declares owner second →
            table.catalog.AtOrAbove first second → first = second) →
        found ≠ [] → ∃ first second,
          table.catalog.AtOrAbove owner first ∧ table.catalog.DeclaredAt query.declares first ∧
          table.catalog.AtOrAbove owner second ∧ table.catalog.DeclaredAt query.declares second ∧
            ¬ table.catalog.AtOrAbove first second ∧ ¬ table.catalog.AtOrAbove second first) := by
  obtain ⟨answer, found, hwrites, hcomes, hnothing⟩ :=
    widenCall_comes answers hloopless query owner
  have hiff : found ≠ [] ↔ owner ∈ table.inventory ∧ ∃ first second, first ≠ second ∧
      table.catalog.FirstDeclared query.declares owner first ∧
        table.catalog.FirstDeclared query.declares owner second := by
    by_cases known : owner ∈ table.inventory
    · rw [(hcomes known).found_ne_nil_iff]
      exact (and_iff_right known).symm
    · exact ⟨fun hreports => absurd (hnothing known).2 hreports, fun h => absurd h.1 known⟩
  refine ⟨answer, found, hwrites, hiff, fun event hevent => ?_, fun hunrelated hreports => ?_⟩
  · have known : owner ∈ table.inventory := (hiff.mp (List.ne_nil_of_mem hevent)).1
    obtain ⟨cls, owners, heq, hreaches, hreported⟩ := (hcomes known).of_mem_found hevent
    exact ⟨cls, owners, heq, hreaches, hreported.owners_met_first⟩
  · obtain ⟨-, first, second, hne, hfirst, hsecond⟩ := hiff.mp hreports
    refine ⟨first, second, hfirst.atOrAbove, hfirst.declared, hsecond.atOrAbove,
      hsecond.declared, fun hup => ?_, fun hup => ?_⟩
    · exact hne (hunrelated first second hfirst hsecond hup)
    · exact hne (hunrelated second first hsecond hfirst hup).symm

section Maps

/-- The super class of hash maps, which declares the method that its interface declares. -/
def abstractMap : ClassOutline :=
  { name := "java/util/AbstractMap", superClass := some ClassName.javaObject,
    interfaces := ["java/util/Map"], methods := [⟨"size", "()I", false⟩] }

/-- The interface of maps. -/
def mapOutline : ClassOutline :=
  { name := "java/util/Map", superClass := some ClassName.javaObject, isInterface := true,
    methods := [⟨"size", "()I", false⟩] }

/-- A class that implements the interface by itself and through its super class. -/
def hashMap : ClassOutline :=
  { name := "java/util/HashMap", superClass := some "java/util/AbstractMap",
    interfaces := ["java/util/Map"] }

/-- The symbols of a release with these classes. -/
def maps : SymbolTable where
  release := default
  inventory := Std.HashSet.ofList ["java/util/HashMap"]
  catalog := .ofOutlines [mapOutline, abstractMap, hashMap]

/-- A call of the method, somewhere in a class. -/
def mapsQuery : CallQuery :=
  ⟨"a/User", "a/User.f()V", "size", "()I"⟩

/-- How far a class is from the top. -/
def mapsHeight (name : ClassName) : Nat :=
  if name = "java/util/HashMap" then 3
  else if name = "java/util/AbstractMap" then 2
  else if name = "java/util/Map" then 1
  else 0

/-- The catalog answers every name. -/
theorem answers_maps : maps.catalog.Answers :=
  Lookup.answers_ofOutlines _

/-- No class of the release stands above itself. -/
theorem loopless_maps : maps.catalog.Loopless :=
  Lookup.loopless_ofOutlines mapsHeight (by decide)

/-- The super class and the interface declare the method, and no other class does. -/
theorem declaredAt_maps_iff {name : ClassName} :
    maps.catalog.DeclaredAt mapsQuery.declares name ↔
      name = "java/util/AbstractMap" ∨ name = "java/util/Map" := by
  constructor
  · rintro ⟨outline, hfound, hdeclares⟩
    obtain ⟨hmem, rfl⟩ := Lookup.mem_of_resolve_ofOutlines hfound
    simp only [List.mem_cons, List.not_mem_nil, or_false] at hmem
    rcases hmem with rfl | rfl | rfl
    · exact .inr rfl
    · exact .inl rfl
    · cases hdeclares
  · rintro (rfl | rfl)
    · exact ⟨abstractMap, Lookup.resolve_ofOutlines _ _, rfl⟩
    · exact ⟨mapOutline, Lookup.resolve_ofOutlines _ _, rfl⟩

/-- From hash maps both classes are met first. -/
theorem firstDeclared_maps {name : ClassName} (hparent : name ∈ hashMap.parents) :
    maps.catalog.FirstDeclared mapsQuery.declares "java/util/HashMap" name := by
  have hfound : maps.catalog.resolve "java/util/HashMap" = .ok (some hashMap) :=
    Lookup.resolve_ofOutlines _ _
  refine .up hfound rfl hparent (.here (declaredAt_maps_iff.mpr ?_))
  simpa [hashMap, ClassOutline.parents] using hparent

/-- Calls of the size of a hash map are ambiguous. -/
theorem widenCall_ambiguous_iff_maps :
    maps.catalog.Answers ∧ maps.catalog.Loopless ∧ ∃ answer found,
      Writes (maps.widenCall mapsQuery "java/util/HashMap") answer found ∧ found ≠ [] := by
  obtain ⟨answer, found, hwrites, hiff, -⟩ :=
    widenCall_ambiguous_iff answers_maps loopless_maps mapsQuery "java/util/HashMap"
  have hknown : "java/util/HashMap" ∈ maps.inventory := by simp [maps]
  refine ⟨answers_maps, loopless_maps, answer, found, hwrites, hiff.mpr ⟨hknown, ?_⟩⟩
  exact ⟨"java/util/AbstractMap", "java/util/Map", by decide, firstDeclared_maps (by decide),
    firstDeclared_maps (by decide)⟩

/-- **Related classes can make a call ambiguous.**  Of the two classes that declare the method above
hash maps, the super class inherits from the interface.  Still the call is left alone, and reported. -/
theorem widenCall_related_maps :
    maps.catalog.Answers ∧ maps.catalog.Loopless ∧
      Writes (maps.widenCall mapsQuery "java/util/HashMap") none
        [mapsQuery.ambiguity "java/util/HashMap" ["java/util/AbstractMap", "java/util/Map"]] ∧
      ∀ first second, maps.catalog.DeclaredAt mapsQuery.declares first →
        maps.catalog.DeclaredAt mapsQuery.declares second →
          maps.catalog.AtOrAbove first second ∨ maps.catalog.AtOrAbove second first := by
  have hfound : maps.catalog.resolve "java/util/HashMap" = .ok (some hashMap) :=
    Lookup.resolve_ofOutlines _ _
  have hsuper : maps.Comes mapsQuery "java/util/AbstractMap"
      (some ⟨"java/util/AbstractMap", abstractMap.isInterface⟩) [] :=
    .here (Lookup.resolve_ofOutlines _ _) rfl
  have hinterface : maps.Comes mapsQuery "java/util/Map"
      (some ⟨"java/util/Map", mapOutline.isInterface⟩) [] :=
    .here (Lookup.resolve_ofOutlines _ _) rfl
  have hparents : ∀ parent ∈ hashMap.parents, maps.Comes mapsQuery parent
      (some ⟨parent, parent = "java/util/Map"⟩) [] := by
    intro parent hparent
    simp only [hashMap, ClassOutline.parents, Option.toList_some, List.cons_append,
      List.nil_append, List.mem_cons, List.not_mem_nil, or_false] at hparent
    rcases hparent with rfl | rfl
    · exact hsuper
    · exact hinterface
  have hcomes : maps.Comes mapsQuery "java/util/HashMap" none
      [mapsQuery.ambiguity "java/util/HashMap" ["java/util/AbstractMap", "java/util/Map"]] :=
    Comes.up hfound rfl hparents
  have hknown : "java/util/HashMap" ∈ maps.inventory := by simp [maps]
  have hup : maps.catalog.AtOrAbove "java/util/AbstractMap" "java/util/Map" :=
    .single ⟨abstractMap, Lookup.resolve_ofOutlines _ _, by decide⟩
  refine ⟨answers_maps, loopless_maps, hcomes.widenCall answers_maps hknown, ?_⟩
  intro first second hfirst hsecond
  rcases declaredAt_maps_iff.mp hfirst with rfl | rfl <;>
    rcases declaredAt_maps_iff.mp hsecond with rfl | rfl
  · exact .inl .refl
  · exact .inl hup
  · exact .inr hup
  · exact .inl .refl

end Maps

end SymbolTable

end Downlevel
