import Downlevel.Proofs.Lower.Constants
import Downlevel.Proofs.Lower.NameSupply

/-!
# The names of constants

Lowering constants hands out names while it goes through a class, and again while it writes the
accessors, which may load further constants.  All of this happens in one place, where a constant is
asked for that was not met before, so it is enough to look there.

* `callBootstrap_moves` — what asking for a constant does to what was found, calling a bootstrap
  method does;
* `Found.Yields` — the entries only get more, and the names of new ones are free and differ;
* `Visits.writesFrom` — in the end there is one accessor, with its three fields, for each entry
  that needs one.
-/

namespace Downlevel

open NameSupply

namespace Constants

/-! ## What calling a bootstrap method does to what was found -/

section Moves

variable {cls : ClassFile} (Moves : Found → Found → Prop) (refl : ∀ found, Moves found found)
  (trans : ∀ {a b c}, Moves a b → Moves b c → Moves a c)
  (asked : ∀ {constant access found found'},
    Constants.access cls constant found = .ok (access, found') → Moves found found')
  {found found' : Found}

include asked in
/-- Loading a constant asks for it. -/
theorem load_moves {constant : Dynamic} {instruction : Instruction}
    (h : load cls constant found = .ok (instruction, found')) : Moves found found' := by
  unfold load at h
  simp only [work_bind_eq_ok] at h
  obtain ⟨access, t, haccess, h⟩ := h
  have hmoves := asked haccess
  cases access with
  | null =>
      simp only [work_pure_eq_ok] at h
      exact h.2 ▸ hmoves
  | accessor name =>
      simp only [work_pure_eq_ok] at h
      exact h.2 ▸ hmoves

include refl asked

/-- Loading a static argument asks for it if it is a dynamic constant. -/
theorem loadArgument_moves {argument : Loadable} {parameter : JavaType}
    {instructions : List Instruction}
    (h : loadArgument cls argument parameter found = .ok (instructions, found')) :
    Moves found found' := by
  unfold loadArgument at h
  cases hargument : dynamic? argument with
  | some constant =>
      simp only [hargument, work_bind_eq_ok, work_lift_eq_ok, work_pure_eq_ok] at h
      obtain ⟨first, t, hfirst, type, _, ⟨_, rfl⟩, converted, _, ⟨_, rfl⟩, _, rfl⟩ := h
      exact load_moves Moves asked hfirst
  | none =>
      simp only [hargument, work_bind_eq_ok, work_lift_eq_ok, work_pure_eq_ok] at h
      obtain ⟨_, _, ⟨_, rfl⟩, type, _, ⟨_, rfl⟩, converted, _, ⟨_, rfl⟩, _, rfl⟩ := h
      exact refl found

include trans

/-- Loading static arguments asks for one after the other. -/
theorem loadArguments_moves {arguments : List Loadable} {parameters : List JavaType}
    {instructions : List Instruction}
    (h : loadArguments cls arguments parameters found = .ok (instructions, found')) :
    Moves found found' := by
  induction arguments generalizing parameters instructions found with
  | nil =>
      simp only [loadArguments, work_pure_eq_ok] at h
      exact h.2 ▸ refl found
  | cons argument rest ih =>
      cases parameters with
      | nil =>
          simp only [loadArguments, work_pure_eq_ok] at h
          exact h.2 ▸ refl found
      | cons parameter parameters =>
          simp only [loadArguments, work_bind_eq_ok, work_pure_eq_ok] at h
          obtain ⟨first, t, hfirst, others, t', hothers, _, rfl⟩ := h
          exact trans (loadArgument_moves Moves refl asked hfirst) (ih hothers)

/-- Storing static arguments in an array asks for one after the other. -/
theorem storeArguments_moves {element : JavaType} {index : Nat} {arguments : List Loadable}
    {instructions : List Instruction}
    (h : storeArguments cls element index arguments found = .ok (instructions, found')) :
    Moves found found' := by
  induction arguments generalizing index instructions found with
  | nil =>
      simp only [storeArguments, work_pure_eq_ok] at h
      exact h.2 ▸ refl found
  | cons argument rest ih =>
      simp only [storeArguments, work_bind_eq_ok, work_pure_eq_ok] at h
      obtain ⟨loaded, t, hloaded, others, t', hothers, _, rfl⟩ := h
      exact trans (loadArgument_moves Moves refl asked hloaded) (ih hothers)

/-- Loading all static arguments asks for one after the other. -/
theorem loadStatic_moves {arguments : List Loadable} {parameters : List JavaType}
    {instructions : List Instruction}
    (h : loadStatic cls arguments parameters found = .ok (instructions, found')) :
    Moves found found' := by
  rcases loadStatic_run h with ⟨-, -, rfl⟩ | ⟨-, -, -, hloaded⟩ |
    ⟨_, _, _, _, _, -, -, -, hloaded, hcollected, -⟩
  · exact refl found'
  · exact loadArguments_moves Moves refl trans asked hloaded
  · obtain ⟨_, _, _, -, -, hstored, -⟩ := collectArguments_run hcollected
    exact trans (loadArguments_moves Moves refl trans asked hloaded)
      (storeArguments_moves Moves refl trans asked hstored)

/-- **Calling a bootstrap method** does nothing to what was found but asking for its arguments. -/
theorem callBootstrap_moves {bootstrap : Handle} {leading : Leading} {arguments : List Loadable}
    {result : JavaType} {instructions : List Instruction}
    (h : callBootstrap cls bootstrap leading arguments result found = .ok (instructions, found')) :
    Moves found found' := by
  obtain ⟨_, _, _, _, _, _, -, -, -, hrest, -, -, -⟩ := callBootstrap_run h
  exact loadStatic_moves Moves refl trans asked hrest

/-- A bouncer has the name that was handed out for it, and writing it asks for the arguments. -/
theorem bouncerMethod_moves {bouncer : Bouncer} {method : Method}
    (h : bouncerMethod cls bouncer found = .ok (method, found')) :
    Moves found found' ∧ ∃ code,
      method = Method.ofCode cls.addedMethodAccess bouncer.name bouncerDescriptor code := by
  unfold bouncerMethod placed at h
  simp only [work_bind_eq_ok, work_pure_eq_ok, within_eq_ok] at h
  obtain ⟨code, t, hcode, rfl, rfl⟩ := h
  unfold bouncerCode at hcode
  simp only [work_bind_eq_ok, work_pure_eq_ok] at hcode
  obtain ⟨call, t, hcall, rfl, rfl⟩ := hcode
  exact ⟨callBootstrap_moves Moves refl trans asked hcall, _, rfl⟩

/-- An accessor has the name that was handed out for it, and writing it asks for the arguments. -/
theorem accessorMethod_moves {name : String} {constant : Dynamic} {method : Method}
    (h : accessorMethod cls name constant found = .ok (method, found')) :
    Moves found found' ∧ ∃ code,
      method = Method.ofCode cls.addedMethodAccess name (accessorDescriptor constant) code := by
  unfold accessorMethod placed at h
  simp only [work_bind_eq_ok, work_pure_eq_ok, within_eq_ok] at h
  obtain ⟨code, t, hcode, rfl, rfl⟩ := h
  unfold accessorCode at hcode
  simp only [work_bind_eq_ok, work_lift_eq_ok, work_pure_eq_ok] at hcode
  obtain ⟨type, _, ⟨_, rfl⟩, compute, t, hcompute, rfl, rfl⟩ := hcode
  exact ⟨callBootstrap_moves Moves refl trans asked hcompute, _, rfl⟩

end Moves

/-! ## The names that are handed out -/

/-- What stands in front of the name of an accessor in those of the two other fields. -/
def companions : List String := ["has$", "lock$"]

/-- The names of the fields of constants. -/
def fieldNames (entries : List (Dynamic × Access)) : List String :=
  (accessorNames entries).flatMap (family companions)

/-- Accessors of entries and of further ones behind them. -/
theorem accessorNames_append (first rest : List (Dynamic × Access)) :
    accessorNames (first ++ rest) = accessorNames first ++ accessorNames rest :=
  List.filterMap_append

/-- Fields of entries and of further ones behind them. -/
theorem fieldNames_append (first rest : List (Dynamic × Access)) :
    fieldNames (first ++ rest) = fieldNames first ++ fieldNames rest := by
  simp [fieldNames, accessorNames_append]

/-- From one state of the work to another, entries were added and bouncers were named: the names of
both are free and differ, and none of them is that of the method that initializes the class. -/
structure Found.Yields (found found' : Found) (bouncers : List Bouncer) : Prop where
  names : ∃ new, found'.entries = found.entries ++ new ∧
    NameSupply.Yields found.names found'.names (bouncers.map Bouncer.name ++ fieldNames new) ∧
    ∀ name ∈ bouncers.map Bouncer.name ++ accessorNames new, name ≠ MethodName.staticInitializer

namespace Found.Yields

variable {a b c : Found} {first second : List Bouncer}

/-- Where nothing is handed out, nothing changes. -/
theorem refl (found : Found) : found.Yields found [] :=
  ⟨[], by simp, NameSupply.Yields.nil found.names, List.forall_mem_nil _⟩

/-- What was handed out first and what was handed out then. -/
theorem append (h : a.Yields b first) (h' : b.Yields c second) : a.Yields c (first ++ second) := by
  obtain ⟨new, hnew, hyields, hnames⟩ := h.names
  obtain ⟨new', hnew', hyields', hnames'⟩ := h'.names
  refine ⟨new ++ new', by rw [hnew', hnew, List.append_assoc], ?_, ?_⟩
  · refine (hyields.append hyields').perm ?_
    rw [fieldNames_append, List.map_append, List.append_assoc, List.append_assoc]
    refine List.Perm.append_left _ ?_
    rw [← List.append_assoc, ← List.append_assoc]
    exact List.Perm.append_right _ List.perm_append_comm
  · intro name hmem
    simp only [List.map_append, accessorNames_append, List.mem_append] at hmem
    simp only [List.mem_append] at hnames hnames'
    rcases hmem with (hfirst | hsecond) | (hfirst | hsecond)
    · exact hnames name (.inl hfirst)
    · exact hnames' name (.inl hsecond)
    · exact hnames name (.inr hfirst)
    · exact hnames' name (.inr hsecond)

/-- What was handed out first and what was handed out then, without bouncers. -/
theorem trans (h : a.Yields b []) (h' : b.Yields c []) : a.Yields c [] :=
  h.append h'

end Found.Yields

section Yields

variable {cls : ClassFile} {found found' : Found}

/-- A name that starts with a letter is not that of the method that initializes the class. -/
theorem ne_staticInitializer {stem name : String} {companions : List String} {supply : NameSupply}
    {names : NameSupply} (h : supply.next stem companions = (name, names))
    (hstem : stem.toList.head? ≠ none ∧ stem.toList.head? ≠ some '<') :
    name ≠ MethodName.staticInitializer := by
  intro hsame
  obtain ⟨number, hname, -⟩ := next_smallest supply stem companions
  rw [h] at hname
  have hlist : (stem ++ toString number).toList.head? = some '<' := by
    rw [← hname, hsame]
    show MethodName.staticInitializer.toList.head? = some '<'
    decide
  rw [String.toList_append] at hlist
  cases hfirst : stem.toList with
  | nil => exact hstem.1 (by rw [hfirst]; rfl)
  | cons first rest =>
      rw [hfirst] at hlist hstem
      exact hstem.2 hlist

/-- **Asking for a constant** that was not met before hands out the names of its fields. -/
theorem access_yields {constant : Dynamic} {access : Access}
    (h : Constants.access cls constant found = .ok (access, found')) : found.Yields found' [] := by
  rcases access_cases h with ⟨_, rfl⟩ | ⟨_, _, _, _, rfl⟩ | ⟨_, _, name, names, hnext, _, rfl⟩
  · exact .refl found'
  · exact ⟨[(constant, .null)], rfl, NameSupply.Yields.nil found.names, List.forall_mem_nil _⟩
  · have hyields := yields_next found.names ("constant$" ++ constant.name ++ "$") companions
      (by decide)
    rw [companions, hnext] at hyields
    refine ⟨[(constant, .accessor name)], rfl, ?_, ?_⟩
    · simpa [fieldNames, accessorNames, companions] using hyields
    · intro other hmem
      simp only [accessorNames, List.map_nil, List.nil_append, List.filterMap_cons,
        List.filterMap_nil, List.mem_singleton] at hmem
      subst hmem
      exact ne_staticInitializer hnext (by simp)

/-- One instruction: the names of a constant that it loads, or of the bouncer that it needs. -/
theorem replaceInstruction_yields {instruction instruction' : Instruction}
    {bouncer : Option Bouncer}
    (h : replaceInstruction cls instruction found = .ok ((instruction', bouncer), found')) :
    found.Yields found' bouncer.toList := by
  rcases replaceInstruction_run h with ⟨_, _, rfl, rfl⟩ | ⟨_, _, _, _, hload, rfl⟩ |
    ⟨site, name, names, _, _, hnext, _, rfl, rfl⟩
  · exact .refl found'
  · exact load_moves (fun a b => a.Yields b []) access_yields hload
  · have hyields := yields_next found.names ("indyconstant$" ++ site.name ++ "$") [] (by decide)
    rw [hnext] at hyields
    refine ⟨[], by simp, ?_, ?_⟩
    · simpa [fieldNames, accessorNames, family] using hyields
    · intro other hmem
      simp only [accessorNames, Option.toList_some, List.map_cons, List.map_nil, List.filterMap_nil,
        List.append_nil, List.mem_singleton] at hmem
      subst hmem
      exact ne_staticInitializer hnext (by simp)

/-- One method keeps its name and descriptor; what it needs is handed out. -/
theorem replaceMethod_yields {method : Method} {replaced : Method × List Bouncer}
    (h : replaceMethod cls method found = .ok (replaced, found')) :
    found.Yields found' replaced.2 ∧ ∃ code, replaced.1 = { method with code := code } := by
  unfold replaceMethod at h
  cases hcode : method.code with
  | none =>
      simp only [hcode, work_pure_eq_ok] at h
      obtain ⟨rfl, rfl⟩ := h
      exact ⟨.refl found, none, by rw [← hcode]⟩
  | some code =>
      simp only [hcode, work_bind_eq_ok, work_pure_eq_ok, placed, within_eq_ok] at h
      obtain ⟨⟨code', bouncers⟩, t, hrun, rfl, rfl⟩ := h
      obtain ⟨entries, hmap, rfl, rfl⟩ := replaceCode_run hrun
      refine ⟨?_, _, rfl⟩
      refine work_mapM_collects
        (fun t results t' => Found.Yields t t' (results.filterMap Prod.snd))
        Found.Yields.refl (fun h h' => ?_) (fun entry _ t result t' hstep => ?_) hmap
      · rw [List.filterMap_append]
        exact h.append h'
      · have hyields := replaceInstruction_yields (replaceEntry_eq_ok hstep).2
        obtain ⟨_, _ | bouncer⟩ := result <;> exact hyields

/-- All methods keep their names and descriptors; what they need is handed out. -/
theorem replaceMethods_yields {methods : List Method} {replaced : List (Method × List Bouncer)}
    (h : methods.mapM (replaceMethod cls) found = .ok (replaced, found')) :
    found.Yields found' (replaced.flatMap Prod.snd) := by
  refine work_mapM_collects (fun t results t' => Found.Yields t t' (results.flatMap Prod.snd))
    Found.Yields.refl (fun h h' => ?_) (fun method _ t result t' hstep => ?_) h
  · rw [List.flatMap_append]
    exact h.append h'
  · simpa using (replaceMethod_yields hstep).1

/-- One bouncer: its name is there already; what else it needs is handed out. -/
theorem bouncerMethod_yields {bouncer : Bouncer} {method : Method}
    (h : bouncerMethod cls bouncer found = .ok (method, found')) :
    found.Yields found' [] ∧ ∃ code,
      method = Method.ofCode cls.addedMethodAccess bouncer.name bouncerDescriptor code :=
  bouncerMethod_moves (fun a b => a.Yields b []) Found.Yields.refl Found.Yields.trans
    access_yields h

/-- Bouncers have the names that were handed out for them; what else they need is handed out. -/
theorem bouncerMethods_yields {bouncers : List Bouncer} {methods : List Method}
    (h : bouncers.mapM (bouncerMethod cls) found = .ok (methods, found')) :
    found.Yields found' [] ∧ methods.map Method.name = bouncers.map Bouncer.name := by
  constructor
  · exact work_mapM_run (fun a b => a.Yields b []) Found.Yields.refl Found.Yields.trans
      (fun bouncer _ t method t' hstep =>
        (bouncerMethod_yields hstep).1) h
  · refine List.Forall₂.rec rfl (fun hstep _ ih => ?_) (work_mapM_forall₂ h)
    obtain ⟨t, t', hstep⟩ := hstep
    obtain ⟨-, code, rfl⟩ := bouncerMethod_yields hstep
    rw [List.map_cons, List.map_cons, ih]
    rfl

/-- What was found and what is written for the entries from an index on: one accessor with its
fields for each entry that needs one. -/
def WritesFrom (index : Nat) (found found' : Found) (accessors : List (Method × List Field)) :
    Prop :=
  found.Yields found' [] ∧
    accessors.map (fun accessor => accessor.1.name) = accessorNames (found'.entries.drop index) ∧
    (accessors.flatMap Prod.snd).map Field.name = fieldNames (found'.entries.drop index)

/-- Behind the last entry there is nothing to write. -/
theorem writesFrom_nil {index : Nat} (hnone : found.entries[index]? = none) :
    WritesFrom index found found [] := by
  unfold WritesFrom
  rw [List.drop_eq_nil_of_le (List.getElem?_eq_none_iff.mp hnone)]
  exact ⟨.refl found, rfl, rfl⟩

/-- What was found at an index is still there where only more comes behind. -/
theorem drop_of_grown {α : Type} {items items' : List α} {index : Nat} {item : α}
    (hitem : items[index]? = some item) (h : items <+: items') :
    items'.drop index = item :: items'.drop (index + 1) := by
  obtain ⟨new, rfl⟩ := h
  obtain ⟨hlt, hget⟩ := List.getElem?_eq_some_iff.mp hitem
  rw [List.drop_eq_getElem_cons (by simp; omega), List.getElem_append_left hlt, hget]

/-- Entries are only added behind the others. -/
theorem Found.Yields.grows {bouncers : List Bouncer} (h : found.Yields found' bouncers) :
    found.entries <+: found'.entries := by
  obtain ⟨new, hnew, -⟩ := h.names
  exact ⟨new, hnew.symm⟩

/-- **One accessor with its fields for each entry that needs one**, also for those entries that were
added while accessors were written.  As entries are only added behind the others, an entry that was
looked at stays where it is. -/
theorem Visits.writesFrom {index : Nat} {accessors : List (Method × List Field)}
    (h : Visits cls index found accessors found') : WritesFrom index found found' accessors := by
  induction h with
  | none hnone => exact writesFrom_nil hnone
  | null hentry _ ih =>
      obtain ⟨hyields, hnames, hfields⟩ := ih
      unfold WritesFrom
      rw [drop_of_grown hentry hyields.grows]
      exact ⟨hyields, hnames, hfields⟩
  | accessor hentry hmethod _ ih =>
      obtain ⟨hfirst, code, rfl⟩ :=
        accessorMethod_moves (fun a b => a.Yields b []) Found.Yields.refl Found.Yields.trans
          access_yields hmethod
      obtain ⟨hyields, hnames, hfields⟩ := ih
      unfold WritesFrom
      rw [drop_of_grown hentry (hfirst.trans hyields).grows]
      refine ⟨hfirst.trans hyields, ?_, ?_⟩
      · rw [List.map_cons, hnames]
        rfl
      · rw [List.flatMap_cons, List.map_append, hfields]
        rfl

end Yields

end Constants

end Downlevel
