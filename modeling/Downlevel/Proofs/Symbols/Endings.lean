import Downlevel.Proofs.Symbols.Declarers

/-!
# When widening ends

The search for the class that declares a method goes on from a class to all its parents, unless
nothing is known about the class or the class declares the method.  It keeps no record of where it
was, so it ends only if the ways that it takes never lead back to a class on them.

What the search comes to, and what it reports on the way, is told by a derivation: one for each
parent, put together.  A derivation is as large as it has to be, and so it does not speak of any
number of steps.  The search of the library is given a number of steps, one more than the catalog
has entries, and the two agree: a search comes to what a derivation says, or it is out of steps; and
if there is a derivation, then the steps that the library gives are enough.

* `SymbolTable.Comes` — what a search comes to and what it reports, however long that takes;
* `SymbolTable.findDeclaring_cases` — a search comes to that, or it is out of steps;
* `SymbolTable.comes_iff` — it comes to something exactly if its ways never lead back;
* `SymbolTable.widenCall_ends_iff` — so widening ends exactly where that is so, and links that run
  in a circle can keep it from ending.
-/

namespace Downlevel

namespace Task

variable {α β : Type} {value : α} {result : β} {events later : Journal}

/-- A task gives a value, whatever session it works on, and all it does to the session is to put some
events into the journal. -/
def Writes (task : Task Session α) (value : α) (events : Journal) : Prop :=
  ∀ session, task session = (.ok value, { session with journal := session.journal ++ events })

/-- A value is given without an event. -/
theorem writes_pure (value : α) : Writes (pure value) value [] := by
  intro session
  rw [List.append_nil]
  rfl

/-- Tasks in sequence put their events behind each other. -/
theorem Writes.bind {task : Task Session α} {next : α → Task Session β}
    (h : Writes task value events) (hnext : Writes (next value) result later) :
    Writes (task >>= next) result (events ++ later) := by
  intro session
  refine task_bind_eq_ok.mpr ⟨value, _, h session, ?_⟩
  rw [hnext, List.append_assoc]

/-- A task without events in front of another one is not noticed. -/
theorem Writes.bind_quiet {task : Task Session α} {next : α → Task Session β}
    (h : Writes task value []) (hnext : Writes (next value) result later) :
    Writes (task >>= next) result later :=
  h.bind hnext

/-- An outcome that is a value is given without an event. -/
theorem writes_lift {outcome : Except Error α} (h : outcome = .ok value) :
    Writes (liftM outcome) value [] := by
  intro session
  rw [List.append_nil]
  exact task_lift_eq_ok.mpr ⟨h, rfl⟩

/-- A report is one event. -/
theorem writes_report (cls : ClassName) (finding : Finding) :
    Writes (Task.report cls finding) () [.found ⟨cls, finding⟩] :=
  fun _ => rfl

/-- A task is out of steps, whatever session it works on. -/
def Endless (task : Task Session α) : Prop :=
  ∀ session, (task session).1 = .error (Error.of (.lower .endlessSearch))

/-- A task that is out of steps does not get to what stands behind it. -/
theorem Endless.bind {task : Task Session α} (h : Endless task) (next : α → Task Session β) :
    Endless (task >>= next) := by
  intro session
  have herror : task session = (.error (Error.of (.lower .endlessSearch)), (task session).2) :=
    Prod.ext (h session) rfl
  rw [task_bind_of_error herror]

/-- A task behind one that gives a value can be out of steps. -/
theorem Writes.bind_endless {task : Task Session α} {next : α → Task Session β}
    (h : Writes task value events) (hnext : Endless (next value)) : Endless (task >>= next) := by
  intro session
  rw [task_bind_of_ok (h session)]
  exact hnext _

/-- A task that gives a value is not out of steps. -/
theorem Writes.not_endless {task : Task Session α} (h : Writes task value events) :
    ¬ Endless task := by
  intro hendless
  have herror := hendless {}
  rw [h] at herror
  cases herror

end Task

namespace Lookup

variable {lookup : Lookup} {declares : ClassOutline → Bool} {name above other : ClassName}

/-- A search for a member goes on from a class to its parents, if the class is known and does not
declare the member. -/
def GoesOn (lookup : Lookup) (declares : ClassOutline → Bool) (name above : ClassName) : Prop :=
  ∃ outline, lookup.resolve name = .ok (some outline) ∧ declares outline = false ∧
    above ∈ outline.parents

/-- A search for a member goes on from a class, over any number of classes, to another one. -/
def Reaches (lookup : Lookup) (declares : ClassOutline → Bool) : ClassName → ClassName → Prop :=
  Relation.ReflTransGen (lookup.GoesOn declares)

/-- No way that a search for a member takes from a class on leads back to a class on it. -/
def LooplessFrom (lookup : Lookup) (declares : ClassOutline → Bool) (name : ClassName) : Prop :=
  ∀ other, lookup.Reaches declares name other →
    ¬ Relation.TransGen (lookup.GoesOn declares) other other

/-- A search goes on along the links between classes. -/
theorem GoesOn.extends (h : lookup.GoesOn declares name above) : lookup.Extends name above := by
  obtain ⟨outline, hfound, -, hparent⟩ := h
  exact ⟨outline, hfound, hparent⟩

/-- From a known class a search goes on to its parents, and only if the class does not declare the
member. -/
theorem goesOn_iff {outline : ClassOutline} (hfound : lookup.resolve name = .ok (some outline)) :
    lookup.GoesOn declares name above ↔ declares outline = false ∧ above ∈ outline.parents := by
  constructor
  · rintro ⟨found, hother, hgoes⟩
    cases hfound.symm.trans hother
    exact hgoes
  · exact fun hgoes => ⟨outline, hfound, hgoes⟩

/-- From a class that nothing is known about a search does not go on. -/
theorem not_goesOn_of_none (h : lookup.resolve name = .ok none) (above : ClassName) :
    ¬ lookup.GoesOn declares name above := by
  rintro ⟨outline, hfound, -⟩
  cases h.symm.trans hfound

/-- From a class that declares the member a search does not go on. -/
theorem not_goesOn_of_declares {outline : ClassOutline}
    (hfound : lookup.resolve name = .ok (some outline)) (hdeclares : declares outline = true)
    (above : ClassName) : ¬ lookup.GoesOn declares name above := by
  intro hstep
  have hnot := ((goesOn_iff hfound).mp hstep).1
  cases hdeclares.symm.trans hnot

/-- Ways that never lead back do not do so further up. -/
theorem LooplessFrom.up (h : lookup.LooplessFrom declares name)
    (hstep : lookup.GoesOn declares name above) : lookup.LooplessFrom declares above :=
  fun other hother => h other (.head hstep hother)

/-- Where no way leads back from any parent, none leads back from the class. -/
theorem looplessFrom_of_parents
    (h : ∀ above, lookup.GoesOn declares name above → lookup.LooplessFrom declares above) :
    lookup.LooplessFrom declares name := by
  intro other hother hloop
  rcases hother.cases_head with rfl | ⟨above, hstep, hrest⟩
  · obtain ⟨above, hstep, hback⟩ := Relation.TransGen.head'_iff.mp hloop
    exact h above hstep name hback hloop
  · exact h above hstep other hrest hloop

/-- If no class stands above itself, then no way leads back from anywhere. -/
theorem Loopless.looplessFrom (h : lookup.Loopless) (declares : ClassOutline → Bool)
    (name : ClassName) : lookup.LooplessFrom declares name :=
  fun other _ hloop => h other (Relation.TransGen.mono (fun _ _ => GoesOn.extends) _ _ hloop)

end Lookup

namespace CallQuery

/-- Whether a class declares the method that is called. -/
abbrev declares (query : CallQuery) (outline : ClassOutline) : Bool :=
  outline.hasOpenMethod query.name query.descriptor

/-- The report that a call could go to any of several classes, found from the parents of a class. -/
def ambiguity (query : CallQuery) (cls : ClassName) (owners : List ClassName) : Event :=
  .found ⟨query.cls, .ambiguousCall query.context cls query.name query.descriptor owners⟩

/-- What is reported if the search comes to some targets from the parents of a class. -/
def conflict (query : CallQuery) (cls : ClassName) (targets : List CallTarget) : Journal :=
  if 1 < targets.length then [query.ambiguity cls (targets.map CallTarget.owner)] else []

end CallQuery

namespace SymbolTable

open Downlevel.Task

variable {table : SymbolTable} {query : CallQuery} {owner : ClassName}
  {answer other : Option CallTarget} {found later : Journal}

/-- What the search for the class that declares a method comes to from a class on, and what it
reports until then: nothing where nothing is known, the class itself if it declares the method, and
else what it comes to from the parents, if that is one target only. -/
inductive Comes (table : SymbolTable) (query : CallQuery) :
    ClassName → Option CallTarget → Journal → Prop where
  | unknown {owner : ClassName} (hunknown : table.catalog.resolve owner = .ok none) :
      Comes table query owner none []
  | here {owner : ClassName} {outline : ClassOutline}
      (hfound : table.catalog.resolve owner = .ok (some outline))
      (hdeclares : query.declares outline = true) :
      Comes table query owner (some ⟨owner, outline.isInterface⟩) []
  | up {owner : ClassName} {outline : ClassOutline} {answerOf : ClassName → Option CallTarget}
      {foundOf : ClassName → Journal}
      (hfound : table.catalog.resolve owner = .ok (some outline))
      (hnot : query.declares outline = false)
      (hparents : ∀ parent ∈ outline.parents,
        Comes table query parent (answerOf parent) (foundOf parent)) :
      Comes table query owner
        (CallTarget.only (CallTarget.gather [] (outline.parents.filterMap answerOf)))
        (outline.parents.flatMap foundOf ++
          query.conflict owner (CallTarget.gather [] (outline.parents.filterMap answerOf)))

/-- A search comes to one thing only. -/
theorem Comes.unique (h : table.Comes query owner answer found)
    (h' : table.Comes query owner other later) : answer = other ∧ found = later := by
  induction h generalizing other later with
  | unknown hunknown =>
      cases h' with
      | unknown => exact ⟨rfl, rfl⟩
      | here hfound _ => cases hunknown.symm.trans hfound
      | up hfound _ _ => cases hunknown.symm.trans hfound
  | here hfound hdeclares =>
      cases h' with
      | unknown hunknown => cases hfound.symm.trans hunknown
      | here hfound' _ =>
          cases hfound.symm.trans hfound'
          exact ⟨rfl, rfl⟩
      | up hfound' hnot _ =>
          cases hfound.symm.trans hfound'
          cases hdeclares.symm.trans hnot
  | @up owner outline answerOf foundOf hfound hnot hparents ih =>
      cases h' with
      | unknown hunknown => cases hfound.symm.trans hunknown
      | here hfound' hdeclares =>
          cases hfound.symm.trans hfound'
          cases hnot.symm.trans hdeclares
      | @up _ _ answerOf' foundOf' hfound' _ hparents' =>
          cases hfound.symm.trans hfound'
          have hanswers : outline.parents.filterMap answerOf = outline.parents.filterMap answerOf' :=
            List.filterMap_congr fun parent hmem => (ih parent hmem (hparents' parent hmem)).1
          have hfounds : outline.parents.flatMap foundOf = outline.parents.flatMap foundOf' :=
            List.flatMap_congr fun parent hmem => (ih parent hmem (hparents' parent hmem)).2
          rw [hanswers, hfounds]
          exact ⟨rfl, rfl⟩

/-- A search comes to a class that is met first, and it is said rightly whether that is an
interface. -/
theorem Comes.search (h : table.Comes query owner answer found) :
    table.Search query.name query.descriptor owner answer := by
  induction h with
  | unknown hunknown => exact search_unknown hunknown
  | here hfound hdeclares => exact search_here hfound hdeclares
  | up hfound hnot _ ih => exact search_parents hfound hnot ih

/-- A search that comes to something takes no way that leads back. -/
theorem Comes.looplessFrom (h : table.Comes query owner answer found) :
    table.catalog.LooplessFrom query.declares owner := by
  induction h with
  | unknown hunknown =>
      exact Lookup.looplessFrom_of_parents fun above hstep =>
        absurd hstep (Lookup.not_goesOn_of_none hunknown above)
  | here hfound hdeclares =>
      exact Lookup.looplessFrom_of_parents fun above hstep =>
        absurd hstep (Lookup.not_goesOn_of_declares hfound hdeclares above)
  | up hfound hnot hparents ih =>
      refine Lookup.looplessFrom_of_parents fun above hstep => ?_
      exact ih above ((Lookup.goesOn_iff hfound).mp hstep).2

/-! ### Searches of some number of steps -/

/-- Of a class that nothing is known about a search learns so at once. -/
theorem findDeclaring_unknown (hunknown : table.catalog.resolve owner = .ok none) (depth : Nat) :
    Writes (table.findDeclaring query (depth + 1) owner) none [] := by
  unfold findDeclaring
  exact (writes_lift hunknown).bind_quiet (writes_pure none)

/-- A class that declares the method is found at once. -/
theorem findDeclaring_here {outline : ClassOutline}
    (hfound : table.catalog.resolve owner = .ok (some outline))
    (hdeclares : query.declares outline = true) (depth : Nat) :
    Writes (table.findDeclaring query (depth + 1) owner) (some ⟨owner, outline.isInterface⟩) [] := by
  unfold findDeclaring
  refine (writes_lift hfound).bind_quiet ?_
  show Writes (if query.declares outline = true then _ else _) _ _
  rw [if_pos hdeclares]
  exact writes_pure _

section Parents

variable {depth : Nat} {parents : List ClassName} {answerOf : ClassName → Option CallTarget}
  {foundOf : ClassName → Journal}

/-- What searches from some classes come to, one after the other. -/
theorem findAllDeclaring_writes (targets : List CallTarget)
    (h : ∀ parent ∈ parents,
      Writes (table.findDeclaring query depth parent) (answerOf parent) (foundOf parent)) :
    Writes (table.findAllDeclaring query depth targets parents)
      (CallTarget.gather targets (parents.filterMap answerOf)) (parents.flatMap foundOf) := by
  induction parents generalizing targets with
  | nil =>
      unfold findAllDeclaring
      exact writes_pure targets
  | cons parent rest ih =>
      have hrest := fun other hmem => h other (List.mem_cons_of_mem parent hmem)
      rw [List.flatMap_cons]
      unfold findAllDeclaring
      refine (h parent List.mem_cons_self).bind ?_
      cases hanswer : answerOf parent with
      | none =>
          rw [List.filterMap_cons_none hanswer]
          exact ih targets hrest
      | some target =>
          rw [List.filterMap_cons_some hanswer]
          exact ih (target.insert targets) hrest

/-- Searches from some classes are out of steps if one of them is and those before it come to
something. -/
theorem findAllDeclaring_endless (targets : List CallTarget)
    (h : ∀ parent ∈ parents,
      (∃ answer found, Writes (table.findDeclaring query depth parent) answer found) ∨
        Endless (table.findDeclaring query depth parent))
    (hendless : ∃ parent ∈ parents, Endless (table.findDeclaring query depth parent)) :
    Endless (table.findAllDeclaring query depth targets parents) := by
  induction parents generalizing targets with
  | nil =>
      obtain ⟨_, hmem, -⟩ := hendless
      cases hmem
  | cons parent rest ih =>
      unfold findAllDeclaring
      rcases h parent List.mem_cons_self with ⟨answer, found, hparent⟩ | hparent
      · -- The search from the first class comes to something, so another one is out of steps.
        have hlater : ∃ parent ∈ rest, Endless (table.findDeclaring query depth parent) := by
          obtain ⟨out, hmem, hout⟩ := hendless
          rcases List.mem_cons.mp hmem with rfl | hrest
          · exact absurd hout hparent.not_endless
          · exact ⟨out, hrest, hout⟩
        have hrest := fun other hmem => h other (List.mem_cons_of_mem parent hmem)
        apply hparent.bind_endless
        cases answer with
        | none => exact ih targets hrest hlater
        | some target => exact ih (target.insert targets) hrest hlater
      · exact hparent.bind _

/-- What a search comes to from the parents of a class, put together. -/
theorem findDeclaring_up {outline : ClassOutline}
    (hfound : table.catalog.resolve owner = .ok (some outline))
    (hnot : query.declares outline = false)
    (h : ∀ parent ∈ outline.parents,
      Writes (table.findDeclaring query depth parent) (answerOf parent) (foundOf parent)) :
    Writes (table.findDeclaring query (depth + 1) owner)
      (CallTarget.only (CallTarget.gather [] (outline.parents.filterMap answerOf)))
      (outline.parents.flatMap foundOf ++
        query.conflict owner (CallTarget.gather [] (outline.parents.filterMap answerOf))) := by
  unfold findDeclaring
  refine (writes_lift hfound).bind_quiet ?_
  show Writes (if query.declares outline = true then _ else _) _ _
  rw [if_neg (Bool.eq_false_iff.mp hnot)]
  refine (findAllDeclaring_writes [] h).bind ?_
  generalize CallTarget.gather [] (outline.parents.filterMap answerOf) = targets
  rcases targets with _ | ⟨target, _ | ⟨second, rest⟩⟩
  · exact writes_pure none
  · exact writes_pure (some target)
  · exact (writes_report _ _).bind (writes_pure none)

/-- A search is out of steps if it goes on to a parent from which it is. -/
theorem findDeclaring_endless {outline : ClassOutline}
    (hfound : table.catalog.resolve owner = .ok (some outline))
    (hnot : query.declares outline = false)
    (h : ∀ parent ∈ outline.parents,
      (∃ answer found, Writes (table.findDeclaring query depth parent) answer found) ∨
        Endless (table.findDeclaring query depth parent))
    (hendless : ∃ parent ∈ outline.parents, Endless (table.findDeclaring query depth parent)) :
    Endless (table.findDeclaring query (depth + 1) owner) := by
  unfold findDeclaring
  apply (writes_lift hfound).bind_endless
  show Endless (if query.declares outline = true then _ else _)
  rw [if_neg (Bool.eq_false_iff.mp hnot)]
  exact (findAllDeclaring_endless [] h hendless).bind _

end Parents

/-- **A search of some number of steps** comes to what any search comes to, or it is out of steps. -/
theorem findDeclaring_cases (answers : table.catalog.Answers) (depth : Nat) (owner : ClassName) :
    (∃ answer found, table.Comes query owner answer found ∧
      Writes (table.findDeclaring query depth owner) answer found) ∨
    Endless (table.findDeclaring query depth owner) := by
  induction depth generalizing owner with
  | zero =>
      right
      intro session
      unfold findDeclaring
      rfl
  | succ depth ih =>
      obtain ⟨known, hfound⟩ := answers owner
      cases known with
      | none => exact .inl ⟨none, [], .unknown hfound, findDeclaring_unknown hfound depth⟩
      | some outline =>
          cases hdeclares : query.declares outline with
          | true =>
              exact .inl ⟨_, [], .here hfound hdeclares, findDeclaring_here hfound hdeclares depth⟩
          | false =>
              by_cases hall : ∀ parent ∈ outline.parents, ∃ answer found,
                  table.Comes query parent answer found ∧
                    Writes (table.findDeclaring query depth parent) answer found
              · choose! answerOf foundOf hparents using hall
                left
                refine ⟨_, _, .up hfound hdeclares fun parent hmem => (hparents parent hmem).1, ?_⟩
                exact findDeclaring_up hfound hdeclares fun parent hmem => (hparents parent hmem).2
              · push Not at hall
                obtain ⟨out, hmem, hout⟩ := hall
                have hendless : Endless (table.findDeclaring query depth out) := by
                  rcases ih out with ⟨answer, found, hcomes, hwrites⟩ | hendless
                  · exact absurd hwrites (hout answer found hcomes)
                  · exact hendless
                right
                refine findDeclaring_endless hfound hdeclares (fun parent _ => ?_)
                  ⟨out, hmem, hendless⟩
                rcases ih parent with ⟨answer, found, -, hwrites⟩ | hparent
                · exact .inl ⟨answer, found, hwrites⟩
                · exact .inr hparent

/-- **Where no way leads back, a search comes to something.**  The classes `below` are those that it
came through.  As they are all different, `room` steps are left for the rest, and more do not
matter. -/
theorem comes_of_looplessFrom (answers : table.catalog.Answers) (room : Nat)
    {below : List ClassName} (hnodup : below.Nodup)
    (hbelow : ∀ name ∈ below,
      Relation.TransGen (table.catalog.GoesOn query.declares) name owner)
    (hroom : below.length + room = table.catalog.size + 1)
    (hloopless : table.catalog.LooplessFrom query.declares owner) :
    ∃ answer found, table.Comes query owner answer found ∧
      ∀ depth, room ≤ depth → Writes (table.findDeclaring query depth owner) answer found := by
  induction room generalizing owner below with
  | zero =>
      have hlength := Lookup.length_below_le hnodup fun name hmem =>
        Relation.TransGen.mono (fun _ _ => Lookup.GoesOn.extends) _ _ (hbelow name hmem)
      omega
  | succ room ih =>
      have hdepth : ∀ depth, room + 1 ≤ depth → ∃ rest, depth = rest + 1 ∧ room ≤ rest :=
        fun depth hle => ⟨depth - 1, by omega, by omega⟩
      obtain ⟨known, hfound⟩ := answers owner
      cases known with
      | none =>
          refine ⟨none, [], .unknown hfound, fun depth hle => ?_⟩
          obtain ⟨rest, rfl, -⟩ := hdepth depth hle
          exact findDeclaring_unknown hfound rest
      | some outline =>
          cases hdeclares : query.declares outline with
          | true =>
              refine ⟨_, [], .here hfound hdeclares, fun depth hle => ?_⟩
              obtain ⟨rest, rfl, -⟩ := hdepth depth hle
              exact findDeclaring_here hfound hdeclares rest
          | false =>
              have hnew : owner ∉ below := fun hmem => hloopless owner .refl (hbelow owner hmem)
              have hparents : ∀ parent ∈ outline.parents, ∃ answer found,
                  table.Comes query parent answer found ∧ ∀ depth, room ≤ depth →
                    Writes (table.findDeclaring query depth parent) answer found := by
                intro parent hparent
                have hstep : table.catalog.GoesOn query.declares owner parent :=
                  ⟨outline, hfound, hdeclares, hparent⟩
                have hall : ∀ name ∈ owner :: below,
                    Relation.TransGen (table.catalog.GoesOn query.declares) name parent :=
                  List.forall_mem_cons.mpr
                    ⟨.single hstep, fun name hmem => (hbelow name hmem).tail hstep⟩
                refine ih (List.nodup_cons.mpr ⟨hnew, hnodup⟩) hall ?_ (hloopless.up hstep)
                rw [List.length_cons]
                omega
              choose! answerOf foundOf hcomes hwrites using hparents
              refine ⟨_, _, .up hfound hdeclares hcomes, fun depth hle => ?_⟩
              obtain ⟨rest, rfl, hrest⟩ := hdepth depth hle
              exact findDeclaring_up hfound hdeclares fun parent hmem =>
                hwrites parent hmem rest hrest

/-- **A search comes to something** exactly if none of its ways leads back. -/
theorem comes_iff (answers : table.catalog.Answers) :
    (∃ answer found, table.Comes query owner answer found) ↔
      table.catalog.LooplessFrom query.declares owner := by
  constructor
  · rintro ⟨answer, found, hcomes⟩
    exact hcomes.looplessFrom
  · intro hloopless
    obtain ⟨answer, found, hcomes, -⟩ := comes_of_looplessFrom answers (table.catalog.size + 1)
      List.nodup_nil (by simp) (by simp) hloopless
    exact ⟨answer, found, hcomes⟩

/-- What a search comes to it comes to within any number of steps that is larger than the catalog. -/
theorem Comes.writes (h : table.Comes query owner answer found) (answers : table.catalog.Answers)
    {depth : Nat} (hdepth : table.catalog.size < depth) :
    Writes (table.findDeclaring query depth owner) answer found := by
  obtain ⟨answer', found', hcomes, hwrites⟩ := comes_of_looplessFrom answers
    (table.catalog.size + 1) List.nodup_nil (by simp) (by simp) h.looplessFrom
  obtain ⟨rfl, rfl⟩ := h.unique hcomes
  exact hwrites depth hdepth

/-- A search that comes to nothing is out of steps, however many it is given. -/
theorem endless_of_not_looplessFrom (answers : table.catalog.Answers)
    (hloop : ¬ table.catalog.LooplessFrom query.declares owner) (depth : Nat) :
    Endless (table.findDeclaring query depth owner) := by
  rcases findDeclaring_cases answers depth owner with ⟨answer, found, hcomes, -⟩ | hendless
  · exact absurd hcomes.looplessFrom hloop
  · exact hendless

/-- Widening a call is searching from its owner, if that is a class that newer releases have. -/
theorem widenCall_of_mem (known : owner ∈ table.inventory) :
    table.widenCall query owner = table.findDeclaring query (table.catalog.size + 1) owner := by
  have hcontains : table.inventory.contains owner = true := known
  unfold widenCall
  rw [if_pos hcontains]

/-- A call is left alone if its owner is not a class that newer releases have. -/
theorem widenCall_of_not_mem (unknown : owner ∉ table.inventory) :
    Writes (table.widenCall query owner) none [] := by
  have hcontains : ¬ table.inventory.contains owner = true := unknown
  unfold widenCall
  rw [if_neg hcontains]
  exact writes_pure none

/-- A search that comes to something is what widening comes to. -/
theorem Comes.widenCall (h : table.Comes query owner answer found)
    (answers : table.catalog.Answers) (known : owner ∈ table.inventory) :
    Writes (table.widenCall query owner) answer found := by
  rw [widenCall_of_mem known]
  exact h.writes answers (Nat.lt_succ_self _)

/-- If no class stands above itself, then widening a call ends, with what the search comes to from the
owner if that is a class that newer releases have, and without a report otherwise. -/
theorem widenCall_comes (answers : table.catalog.Answers) (hloopless : table.catalog.Loopless)
    (query : CallQuery) (owner : ClassName) :
    ∃ answer found, Writes (table.widenCall query owner) answer found ∧
      (owner ∈ table.inventory → table.Comes query owner answer found) ∧
      (owner ∉ table.inventory → answer = none ∧ found = []) := by
  by_cases known : owner ∈ table.inventory
  · obtain ⟨answer, found, hcomes⟩ := (comes_iff answers).mpr (hloopless.looplessFrom _ owner)
    exact ⟨answer, found, hcomes.widenCall answers known, fun _ => hcomes, absurd known⟩
  · exact ⟨none, [], widenCall_of_not_mem known, fun h => absurd h known, fun _ => ⟨rfl, rfl⟩⟩

/-- **When widening ends.**  Let the catalog answer every name.  A search, of whatever length, comes to
something exactly if no way that it takes leads back to a class on it.  What it comes to, every
search with more steps than the catalog has entries comes to; otherwise no number of steps is
enough.  So widening a call ends exactly if its owner is no class that newer releases have, or no
way from the owner on leads back. -/
theorem widenCall_ends_iff (answers : table.catalog.Answers) (query : CallQuery)
    (owner : ClassName) :
    ((∃ answer found, table.Comes query owner answer found) ↔
        table.catalog.LooplessFrom query.declares owner) ∧
      (∀ answer found, table.Comes query owner answer found →
        ∀ depth, table.catalog.size < depth →
          Writes (table.findDeclaring query depth owner) answer found) ∧
      (¬ table.catalog.LooplessFrom query.declares owner →
        ∀ depth, Endless (table.findDeclaring query depth owner)) ∧
      ((∃ answer found, Writes (table.widenCall query owner) answer found) ↔
        (owner ∈ table.inventory → table.catalog.LooplessFrom query.declares owner)) := by
  refine ⟨comes_iff answers, fun answer found hcomes depth hdepth => hcomes.writes answers hdepth,
    endless_of_not_looplessFrom answers, ?_, ?_⟩
  · rintro ⟨answer, found, hwrites⟩ known
    by_contra hloop
    rw [widenCall_of_mem known] at hwrites
    exact hwrites.not_endless (endless_of_not_looplessFrom answers hloop _)
  · intro hloopless
    by_cases known : owner ∈ table.inventory
    · obtain ⟨answer, found, hcomes⟩ := (comes_iff answers).mpr (hloopless known)
      exact ⟨answer, found, hcomes.widenCall answers known⟩
    · exact ⟨none, [], widenCall_of_not_mem known⟩

section Circle

/-- Two interfaces of which each extends the other one.  Only the second one declares a method. -/
def circle : SymbolTable where
  release := default
  inventory := Std.HashSet.ofList ["java/util/Deque"]
  catalog := .ofOutlines [extending "java/util/Deque" "java/util/Queue",
    { extending "java/util/Queue" "java/util/Deque" with
      methods := [⟨"peek", "()Ljava/lang/Object;", false⟩] }]

/-- A call, somewhere in a class, of a method of these interfaces. -/
def circleQuery (name : MethodName) : CallQuery :=
  ⟨"a/User", "a/User.f()V", name, "()Ljava/lang/Object;"⟩

/-- The catalog answers every name. -/
theorem answers_circle : circle.catalog.Answers :=
  Lookup.answers_ofOutlines _

/-- A search for a method that neither interface declares goes around. -/
theorem not_looplessFrom_circle :
    ¬ circle.catalog.LooplessFrom (circleQuery "poll").declares "java/util/Deque" := by
  intro hloopless
  have hup : circle.catalog.GoesOn (circleQuery "poll").declares "java/util/Deque"
      "java/util/Queue" := ⟨_, Lookup.resolve_ofOutlines _ _, by decide, by decide⟩
  have hback : circle.catalog.GoesOn (circleQuery "poll").declares "java/util/Queue"
      "java/util/Deque" := ⟨_, Lookup.resolve_ofOutlines _ _, by decide, by decide⟩
  exact hloopless _ .refl (.tail (.single hup) hback)

/-- A search for the method that the second interface declares ends there, circle or not. -/
theorem looplessFrom_circle :
    circle.catalog.LooplessFrom (circleQuery "peek").declares "java/util/Deque" := by
  have hdeque : circle.catalog.resolve "java/util/Deque" =
      .ok (some (extending "java/util/Deque" "java/util/Queue")) := Lookup.resolve_ofOutlines _ _
  refine Lookup.looplessFrom_of_parents fun above hstep => ?_
  obtain rfl : above = "java/util/Queue" := by
    simpa [extending, ClassOutline.parents] using ((Lookup.goesOn_iff hdeque).mp hstep).2
  refine Lookup.looplessFrom_of_parents fun above hstep => ?_
  obtain ⟨outline, hfound, hnot, -⟩ := hstep
  cases hfound.symm.trans (Lookup.resolve_ofOutlines _ _)
  cases hnot

/-- **Widening need not end.**  The catalog answers every name, and the owner of the call is a class
that newer releases have; but the links run in a circle that the search goes around, and no number
of steps is enough.  The search for a missing member goes along the same links and does end. -/
theorem widenCall_endless_circle :
    circle.catalog.Answers ∧ "java/util/Deque" ∈ circle.inventory ∧
      (∀ answer found, ¬ circle.Comes (circleQuery "poll") "java/util/Deque" answer found) ∧
      (∀ depth, Endless (circle.findDeclaring (circleQuery "poll") depth "java/util/Deque")) ∧
      ∃ lacking, circle.isMissingMember "java/util/Deque" (circleQuery "poll").declares =
        .ok lacking := by
  refine ⟨answers_circle, by simp [circle], ?_,
    endless_of_not_looplessFrom answers_circle not_looplessFrom_circle, ?_⟩
  · intro answer found hcomes
    exact not_looplessFrom_circle hcomes.looplessFrom
  · obtain ⟨lacking, hlacking, -⟩ := isMissingMember_spec answers_circle "java/util/Deque"
      (circleQuery "poll").declares
    exact ⟨lacking, hlacking⟩

/-- On the same catalog widening ends for the method that is declared. -/
theorem widenCall_ends_iff_circle :
    circle.catalog.Answers ∧
      (∃ answer found, Writes (circle.widenCall (circleQuery "peek") "java/util/Deque")
        answer found) ∧
      ¬ ∃ answer found, Writes (circle.widenCall (circleQuery "poll") "java/util/Deque")
        answer found := by
  have hknown : "java/util/Deque" ∈ circle.inventory := by simp [circle]
  obtain ⟨-, -, -, hends⟩ :=
    widenCall_ends_iff answers_circle (circleQuery "peek") "java/util/Deque"
  obtain ⟨-, -, -, hloops⟩ :=
    widenCall_ends_iff answers_circle (circleQuery "poll") "java/util/Deque"
  refine ⟨answers_circle, hends.mpr fun _ => looplessFrom_circle, fun hwidens => ?_⟩
  exact not_looplessFrom_circle (hloops.mp hwidens hknown)

end Circle

end SymbolTable

end Downlevel
