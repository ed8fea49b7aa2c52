import Downlevel.Proofs.Symbols.Check
import Downlevel.Symbols.Widen

/-!
# Classes that declare a method, seen from below

The search for the class that declares a method goes up from the owner of a call, along all links to
super classes and interfaces at once, and turns back where it meets a declaration.  What the ways
from the parents of a class come to is put together, and dropped if it is more than one class.  So a
class that is found is the first on some way up that declares the method.  It need not be the only
one above the owner; but if there is only one, then every way up that comes to something comes to it.

* `Lookup.Loopless` — no class stands above itself;
* `Lookup.FirstDeclared`, `Lookup.SoleHolder` — a class that declares a method, seen from below;
* `CallTarget.gather`, `CallTarget.only` — what is found from several parents, put together;
* `SymbolTable.search_parents` — what that comes to from the class, if it is right from the parents.
-/

namespace Downlevel

namespace Lookup

variable {lookup : Lookup} {declares : ClassOutline → Bool} {name above holder : ClassName}
  {outline : ClassOutline}

/-- No class stands above itself. -/
def Loopless (lookup : Lookup) : Prop :=
  ∀ name, ¬ Relation.TransGen lookup.Extends name name

/-- If every outline names classes only that are nearer to the top, then no class stands above
itself. -/
theorem loopless_ofOutlines {outlines : List ClassOutline} (height : ClassName → Nat)
    (hheight : ∀ outline ∈ outlines, ∀ above ∈ outline.parents,
      height above < height outline.name) : (ofOutlines outlines).Loopless := by
  have hstep : ∀ name above, (ofOutlines outlines).Extends name above →
      height name > height above := by
    rintro name above ⟨outline, hfound, hparent⟩
    obtain ⟨hmem, rfl⟩ := mem_of_resolve_ofOutlines hfound
    exact hheight outline hmem above hparent
  intro name hloop
  have hlower : Relation.TransGen (· > ·) (height name) (height name) := hloop.lift height hstep
  rw [Relation.transGen_eq_self] at hlower
  exact Nat.lt_irrefl _ hlower

/-- A class is known and declares a member itself. -/
def DeclaredAt (lookup : Lookup) (declares : ClassOutline → Bool) (name : ClassName) : Prop :=
  ∃ outline, lookup.resolve name = .ok (some outline) ∧ declares outline = true

/-- Whether a known class declares a member can be read off its outline. -/
theorem declaredAt_iff (hfound : lookup.resolve name = .ok (some outline)) :
    lookup.DeclaredAt declares name ↔ declares outline = true := by
  constructor
  · rintro ⟨other, hother, hdeclares⟩
    cases hfound.symm.trans hother
    exact hdeclares
  · exact fun hdeclares => ⟨outline, hfound, hdeclares⟩

/-- A way up from a class, over classes that do not declare a member, ends at one that does. -/
inductive FirstDeclared (lookup : Lookup) (declares : ClassOutline → Bool) :
    ClassName → ClassName → Prop where
  | here {name : ClassName} (h : lookup.DeclaredAt declares name) :
      FirstDeclared lookup declares name name
  | up {name above holder : ClassName} {outline : ClassOutline}
      (hfound : lookup.resolve name = .ok (some outline)) (hnot : declares outline = false)
      (hparent : above ∈ outline.parents) (h : FirstDeclared lookup declares above holder) :
      FirstDeclared lookup declares name holder

/-- Of all classes at or above a class, one declares a member and no other does. -/
structure SoleHolder (lookup : Lookup) (declares : ClassOutline → Bool) (name holder : ClassName) :
    Prop where
  above : lookup.AtOrAbove name holder
  declared : lookup.DeclaredAt declares holder
  unique : ∀ other, lookup.AtOrAbove name other → lookup.DeclaredAt declares other → other = holder

/-- A way up ends at a class that declares the member. -/
theorem FirstDeclared.declared (h : lookup.FirstDeclared declares name holder) :
    lookup.DeclaredAt declares holder := by
  induction h with
  | here h => exact h
  | up _ _ _ _ ih => exact ih

/-- A way up ends above the class where it starts. -/
theorem FirstDeclared.atOrAbove (h : lookup.FirstDeclared declares name holder) :
    lookup.AtOrAbove name holder := by
  induction h with
  | here => exact .refl
  | up hfound _ hparent _ ih => exact .head ⟨_, hfound, hparent⟩ ih

/-- From a class that declares the member no way leads further up. -/
theorem FirstDeclared.eq_of_declaredAt (h : lookup.FirstDeclared declares name holder)
    (hhere : lookup.DeclaredAt declares name) : holder = name := by
  cases h with
  | here => rfl
  | up hfound hnot _ _ => simp [declaredAt_iff hfound, hnot] at hhere

/-- The only class that declares a member is also the only one above a parent that it stands
above. -/
theorem SoleHolder.parent (h : lookup.SoleHolder declares name holder)
    (hstep : lookup.Extends name above) (habove : lookup.AtOrAbove above holder) :
    lookup.SoleHolder declares above holder where
  above := habove
  declared := h.declared
  unique other hother := h.unique other (.head hstep hother)

/-- No class stands twice on a way up, and so a way up is no longer than the catalog. -/
theorem length_below_le {below : List ClassName} (hnodup : below.Nodup)
    (hbelow : ∀ other ∈ below, Relation.TransGen lookup.Extends other name) :
    below.length ≤ lookup.size := by
  obtain ⟨names, hcard, hcovers⟩ := lookup.resolve_within_size
  have hsubset : below.toFinset ⊆ names := by
    intro other hother
    obtain ⟨_, ⟨outline, hfound, _⟩, _⟩ :=
      Relation.TransGen.head'_iff.mp (hbelow other (List.mem_toFinset.mp hother))
    exact hcovers other outline hfound
  calc below.length = below.toFinset.card := (List.toFinset_card_of_nodup hnodup).symm
    _ ≤ names.card := Finset.card_le_card hsubset
    _ ≤ lookup.size := hcard

end Lookup

namespace CallTarget

variable {target other : CallTarget} {targets found : List CallTarget}

/-- A target put into a list is in it, with what was there. -/
theorem mem_insert : other ∈ target.insert targets ↔ other = target ∨ other ∈ targets := by
  induction targets with
  | nil => simp [insert]
  | cons first rest ih =>
      unfold insert
      split
      next heq => simp [heq]
      split
      next => simp
      next => simp [ih, or_left_comm]

/-- Targets put one by one into a list. -/
def gather (found targets : List CallTarget) : List CallTarget :=
  targets.foldl (fun found target => target.insert found) found

/-- What is gathered are the targets with what was there. -/
theorem mem_gather : other ∈ gather found targets ↔ other ∈ found ∨ other ∈ targets := by
  induction targets generalizing found with
  | nil => simp [gather]
  | cons target rest ih =>
      show other ∈ gather (target.insert found) rest ↔ _
      rw [ih, mem_insert, List.mem_cons]
      tauto

/-- Gathering one target again and again is gathering it once. -/
theorem gather_same (htargets : ∀ other ∈ targets, other = target)
    (hfound : found = [target] ∨ found = [] ∧ targets ≠ []) : gather found targets = [target] := by
  induction targets generalizing found with
  | nil => exact hfound.resolve_right fun h => h.2 rfl
  | cons first rest ih =>
      obtain ⟨rfl, hrest⟩ := List.forall_mem_cons.mp htargets
      have hinsert : first.insert found = [first] := by
        rcases hfound with rfl | ⟨rfl, _⟩
        · simp [insert]
        · rfl
      exact ih hrest (.inl hinsert)

/-- The target in a list that has only one. -/
def only : List CallTarget → Option CallTarget
  | [target] => some target
  | _ => none

/-- The only target in a list is in it. -/
theorem mem_of_only (h : only targets = some target) : target ∈ targets := by
  unfold only at h
  split at h
  · cases h
    exact List.mem_singleton_self _
  · cases h

end CallTarget

namespace SymbolTable

open Downlevel.Task

variable {table : SymbolTable} {name : MethodName} {descriptor : MethodDescriptor}
  {owner : ClassName} {answer : Option CallTarget}

/-- Of a target it is said rightly whether it is an interface. -/
def Marked (table : SymbolTable) (target : CallTarget) : Prop :=
  target.isInterface = true ↔ table.catalog.IsInterface target.owner

/-- Two targets with the same owner are the same. -/
theorem Marked.eq {target other : CallTarget} (h : table.Marked target) (hother : table.Marked other)
    (howner : target.owner = other.owner) : target = other := by
  obtain ⟨name, flag⟩ := target
  obtain ⟨name', flag'⟩ := other
  obtain rfl : name = name' := howner
  have hflag : flag = flag' := Bool.eq_iff_iff.mpr (Iff.trans h hother.symm)
  rw [hflag]

/-- A known class as a target. -/
theorem marked_of_resolve {outline : ClassOutline}
    (hfound : table.catalog.resolve owner = .ok (some outline)) :
    table.Marked ⟨owner, outline.isInterface⟩ := by
  constructor
  · exact fun h => ⟨outline, hfound, h⟩
  · rintro ⟨other, hother, hinterface⟩
    cases hfound.symm.trans hother
    exact hinterface

/-- What the search for a class that declares a method comes to, from a class on: a class that is the
first on a way up to declare the method, with whether it is an interface; the class itself if it
declares the method; and the only class above it that does, if there is only one. -/
structure Search (table : SymbolTable) (name : MethodName) (descriptor : MethodDescriptor)
    (owner : ClassName) (answer : Option CallTarget) : Prop where
  first : ∀ target, answer = some target →
    table.catalog.FirstDeclared (·.hasOpenMethod name descriptor) owner target.owner ∧
      table.Marked target
  here : table.catalog.DeclaredAt (·.hasOpenMethod name descriptor) owner →
    ∃ target, answer = some target
  sole : ∀ holder, table.catalog.SoleHolder (·.hasOpenMethod name descriptor) owner holder →
    ∃ target, answer = some target ∧ target.owner = holder

/-- Above a class that nothing is known about there is nothing to find. -/
theorem search_unknown (hunknown : table.catalog.resolve owner = .ok none) :
    table.Search name descriptor owner none where
  first _ h := by cases h
  here := by
    rintro ⟨outline, hfound, _⟩
    cases hunknown.symm.trans hfound
  sole holder h := by
    obtain ⟨outline, hfound, hdeclares⟩ := h.declared
    have hdeclared : table.catalog.Declared (·.hasOpenMethod name descriptor) owner :=
      ⟨holder, outline, h.above, hfound, hdeclares⟩
    exact absurd hdeclared (Lookup.not_declared_of_none hunknown)

/-- A class that declares the method is found at once. -/
theorem search_here {outline : ClassOutline}
    (hfound : table.catalog.resolve owner = .ok (some outline))
    (hdeclares : outline.hasOpenMethod name descriptor = true) :
    table.Search name descriptor owner (some ⟨owner, outline.isInterface⟩) where
  first _ h := by
    cases h
    exact ⟨.here ((Lookup.declaredAt_iff hfound).mpr hdeclares), marked_of_resolve hfound⟩
  here _ := ⟨_, rfl⟩
  sole holder h := ⟨_, rfl, h.unique owner .refl ((Lookup.declaredAt_iff hfound).mpr hdeclares)⟩

/-- **What the ways from the parents of a class come to, put together.** -/
theorem search_parents {outline : ClassOutline} {answerOf : ClassName → Option CallTarget}
    (hfound : table.catalog.resolve owner = .ok (some outline))
    (hnot : outline.hasOpenMethod name descriptor = false)
    (hparents : ∀ parent ∈ outline.parents, table.Search name descriptor parent (answerOf parent)) :
    table.Search name descriptor owner
      (CallTarget.only (CallTarget.gather [] (outline.parents.filterMap answerOf))) where
  first target h := by
    have hmem := (CallTarget.mem_gather.mp (CallTarget.mem_of_only h)).resolve_left
      List.not_mem_nil
    obtain ⟨parent, hparent, hanswer⟩ := List.mem_filterMap.mp hmem
    obtain ⟨hway, hmarked⟩ := (hparents parent hparent).first target hanswer
    exact ⟨.up hfound hnot hparent hway, hmarked⟩
  here h := by simp [Lookup.declaredAt_iff hfound, hnot] at h
  sole holder h := by
    have hne : owner ≠ holder := by
      rintro rfl
      simpa [Lookup.declaredAt_iff hfound, hnot] using h.declared
    -- The way to the only declaration leads through a parent, and what is found from there is it.
    obtain ⟨parent, ⟨other, hother, hparent⟩, hup⟩ := h.above.cases_head.resolve_left hne
    cases hfound.symm.trans hother
    have hparentSole := h.parent ⟨outline, hfound, hparent⟩ hup
    obtain ⟨target, htarget, rfl⟩ := (hparents parent hparent).sole holder hparentSole
    have hmarked := ((hparents parent hparent).first target htarget).2
    have hmem : target ∈ outline.parents.filterMap answerOf :=
      List.mem_filterMap.mpr ⟨parent, hparent, htarget⟩
    have hall : ∀ found ∈ outline.parents.filterMap answerOf, found = target := by
      intro found hin
      obtain ⟨from', hfrom, hanswer⟩ := List.mem_filterMap.mp hin
      obtain ⟨hway, hmarked'⟩ := (hparents from' hfrom).first found hanswer
      exact hmarked'.eq hmarked
        (h.unique _ (.head ⟨outline, hfound, hfrom⟩ hway.atOrAbove) hway.declared)
    refine ⟨target, ?_, rfl⟩
    rw [CallTarget.gather_same hall (.inr ⟨rfl, List.ne_nil_of_mem hmem⟩)]
    rfl

end SymbolTable

end Downlevel
