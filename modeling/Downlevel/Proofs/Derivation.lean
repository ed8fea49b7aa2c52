import Downlevel.Hierarchy
import Downlevel.Proofs.FrameTypes

/-!
# Common super classes

The chain of a class is put together from what a lookup knows and from chains that are remembered, so
what it says depends on what was asked before: on a cycle of super classes a chain ends where the
cycle was first entered.  Yet every class on the chain of a class, but for the root, is one that the
class derives from as far as the lookup knows.  This is an invariant of the memory, and so the common
super class of two classes is the root, or a class that both derive from.

* `Lookup.Derives` — which classes a class derives from;
* `Hierarchy.Remembers` — the invariant of the memory;
* `Hierarchy.common_ensures` — what a common super class is;
* `Hierarchy.supers_closed` — if two different classes never derive from a third, then common super
  classes do not derive from it either.
-/

namespace Downlevel

/-- What a class derives from, as far as a lookup knows: itself, and what its super class derives
from.  An array class derives from what the class of its elements derives from.  The root has no
super class. -/
inductive Lookup.Derives (lookup : Lookup) : ClassName → ClassName → Prop where
  | self (name : ClassName) : Derives lookup name name
  | parent {name parent above : ClassName} {outline : ClassOutline}
      (hroot : name ≠ ClassName.javaObject) (hfound : lookup.resolve name = .ok (some outline))
      (hsuper : outline.superClass = some parent) (h : Derives lookup parent above) :
      Derives lookup name above
  | element {name base above : ClassName} (hbase : baseClass? name.toList = some base)
      (h : Derives lookup base above) : Derives lookup name above

namespace Lookup.Derives

variable {lookup : Lookup} {a b c : ClassName}

/-- A class derives from what those that it derives from derive from. -/
theorem trans (h : lookup.Derives a b) (hrest : lookup.Derives b c) : lookup.Derives a c := by
  induction h with
  | self => exact hrest
  | parent hroot hfound hsuper _ ih => exact .parent hroot hfound hsuper (ih hrest)
  | element hbase _ ih => exact .element hbase (ih hrest)

/-- The root is about itself. -/
theorem baseClass?_javaObject :
    baseClass? ClassName.javaObject.toList = some ClassName.javaObject :=
  baseClass?_plain (by simp [ClassName.javaObject])

/-- The root derives from nothing else. -/
theorem eq_of_javaObject {name : ClassName} (h : lookup.Derives name a)
    (hname : name = ClassName.javaObject) : a = ClassName.javaObject := by
  induction h with
  | self => exact hname
  | parent hroot => exact absurd hname hroot
  | element hbase _ ih =>
      rw [hname, baseClass?_javaObject] at hbase
      exact ih (Option.some.inj hbase).symm

end Lookup.Derives

namespace Lookup

variable {lookup : Lookup}

/-- Adding up the sizes of tables is counting their keys. -/
theorem foldl_size_eq (tables : List OutlineTable) (total : Nat) :
    tables.foldl (fun sum table => sum + table.size) total =
      total + (tables.flatMap Std.HashMap.keys).length := by
  induction tables generalizing total with
  | nil => rfl
  | cons table rest ih =>
      rw [List.foldl_cons, ih, List.flatMap_cons, List.length_append, Std.HashMap.length_keys]
      omega

/-- A known class is a key of a table. -/
theorem mem_keys_of_resolveIn {name : ClassName} {outline : ClassOutline}
    {tables : List OutlineTable} (h : resolveIn name tables = .ok (some outline)) :
    name ∈ tables.flatMap Std.HashMap.keys := by
  induction tables with
  | nil => cases h
  | cons table rest ih =>
      rw [List.flatMap_cons, List.mem_append]
      unfold resolveIn at h
      cases hentry : table[name]? with
      | none =>
          simp only [hentry] at h
          exact .inr (ih h)
      | some entry =>
          refine .inl (Std.HashMap.mem_keys.mpr ?_)
          rw [Std.HashMap.mem_iff_isSome_getElem?, hentry]
          rfl

/-- **There are no more known classes than the size of a lookup tells.** -/
theorem length_le_size {names : List ClassName} (hnodup : names.Nodup)
    (hknown : ∀ name ∈ names, ∃ outline, lookup.resolve name = .ok (some outline)) :
    names.length ≤ lookup.size := by
  have hsubset : names ⊆ lookup.tables.flatMap Std.HashMap.keys := by
    intro name hmem
    obtain ⟨outline, hfound⟩ := hknown name hmem
    exact mem_keys_of_resolveIn hfound
  have hlength := hnodup.length_le_of_subset hsubset
  have hsize := foldl_size_eq lookup.tables 0
  unfold size
  omega

/-- A lookup that knows a class knows at least one. -/
theorem size_pos {name : ClassName} {outline : ClassOutline}
    (h : lookup.resolve name = .ok (some outline)) : 0 < lookup.size := by
  have hone : ∀ other ∈ [name], ∃ outline, lookup.resolve other = .ok (some outline) := by
    intro other hmem
    cases List.mem_singleton.mp hmem
    exact ⟨outline, h⟩
  exact length_le_size (List.nodup_singleton name) hone

end Lookup

namespace Hierarchy

open Downlevel.Task

variable {lookup : Lookup}

/-- A class may stand on the chain of another one: it is the root, or that class derives from it. -/
def Above (lookup : Lookup) (name above : ClassName) : Prop :=
  above = ClassName.javaObject ∨ lookup.Derives name above

/-- Only classes that may stand there stand on the chains that are remembered. -/
def Remembers (lookup : Lookup) (session : Session) : Prop :=
  ∀ name chain, session.chains[name]? = some chain → ∀ above ∈ chain, Above lookup name above

/-- In the beginning nothing is remembered. -/
theorem remembers_start (journal : Journal) : Remembers lookup { journal } := by
  intro name chain h
  simp at h

/-- Reporting something leaves the memory alone. -/
theorem ensures_report (cls : ClassName) (finding : Finding) :
    Keeps (Remembers lookup) (Task.report cls finding) :=
  ensures_modify fun _ hsession => hsession

/-- The way up from a class leads over some classes, the highest first, to a class. -/
inductive Path (lookup : Lookup) (requested : ClassName) : List ClassName → ClassName → Prop where
  | start : Path lookup requested [] requested
  | up {walked : List ClassName} {current parent : ClassName} {outline : ClassOutline}
      (hroot : current ≠ ClassName.javaObject)
      (hfound : lookup.resolve current = .ok (some outline))
      (hsuper : outline.superClass = some parent) (h : Path lookup requested walked current) :
      Path lookup requested (current :: walked) parent

/-- The way up from a class, over some classes, ends with a chain that fits the highest of them. -/
def Ends (lookup : Lookup) (requested : ClassName) : List ClassName → List ClassName → Prop
  | [], tail => ∀ above ∈ tail, Above lookup requested above
  | name :: lower, tail =>
      Path lookup requested lower name ∧ ∀ above ∈ tail, Above lookup name above

/-- A way ends with a chain that fits where it leads to. -/
theorem Path.ends {requested current : ClassName} {walked tail : List ClassName}
    (h : Path lookup requested walked current) (htail : ∀ above ∈ tail, Above lookup current above) :
    Ends lookup requested walked tail := by
  cases h with
  | start => exact htail
  | up hroot hfound hsuper h =>
      refine ⟨h, fun above hmem => ?_⟩
      rcases htail above hmem with hobject | hderives
      · exact .inl hobject
      · exact .inr (.parent hroot hfound hsuper hderives)

/-- The chain of the root fits every class. -/
theorem above_of_mem_rootChain {name above : ClassName} (h : above ∈ rootChain) :
    Above lookup name above :=
  .inl (List.mem_singleton.mp h)

/-- **A climb ends with a chain that fits.** -/
theorem climb_ensures {requested : ClassName} (steps : Nat) {current : ClassName}
    {walked : List ClassName} (interfaces : List ClassName)
    (hpath : Path lookup requested walked current) :
    Ensures (Remembers lookup) (climb lookup requested steps current walked interfaces)
      fun way => Ends lookup requested way.walked way.tail := by
  induction steps generalizing current walked interfaces with
  | zero => exact ensures_fail
  | succ steps ih =>
      have hrootEnd : Ends lookup requested walked rootChain :=
        hpath.ends fun above hmem => above_of_mem_rootChain hmem
      have hhere : Ends lookup requested (current :: walked) rootChain :=
        ⟨hpath, fun above hmem => above_of_mem_rootChain hmem⟩
      unfold climb
      split
      next => exact ensures_pure hrootEnd
      next hroot =>
        refine ensures_get.bind fun session hsession => ?_
        split
        next chain hchain =>
          exact ensures_pure (hpath.ends fun above hmem => hsession current chain hchain above hmem)
        next =>
          split
          next => exact (ensures_report _ _).bind fun _ _ => ensures_pure hrootEnd
          next =>
            have hresolve : Ensures (Remembers lookup) (liftM (lookup.resolve current) :
                Task Session (Option ClassOutline)) fun found => lookup.resolve current = .ok found :=
              ensures_lift fun found hfound => hfound
            refine hresolve.bind fun found hfound => ?_
            split
            next => exact (ensures_report _ _).bind fun _ _ => ensures_pure hhere
            next outline =>
              cases hparent : outline.superClass with
              | none => exact ensures_pure hhere
              | some parent => exact ih _ (.up hroot hfound hparent hpath)

/-- **What is remembered fits**, and so does the chain that comes of it. -/
theorem remember_spec {requested : ClassName} {walked tail : List ClassName} {session : Session}
    (hends : Ends lookup requested walked tail) (hsession : Remembers lookup session) :
    (∀ above ∈ (remember walked tail session).1, Above lookup requested above) ∧
      Remembers lookup (remember walked tail session).2 := by
  induction walked generalizing tail session with
  | nil => exact ⟨hends, hsession⟩
  | cons name lower ih =>
      obtain ⟨hpath, htail⟩ := hends
      have hchain : ∀ above ∈ name :: tail, Above lookup name above :=
        List.forall_mem_cons.mpr ⟨.inr (.self name), htail⟩
      refine ih (hpath.ends hchain) ?_
      intro other chain hfound above hmem
      rw [Std.HashMap.getElem?_insertIfNew] at hfound
      split at hfound
      next hnew =>
        cases hfound
        rw [← beq_iff_eq.mp hnew.1]
        exact hchain above hmem
      next => exact hsession other chain hfound above hmem

/-- **Only classes that may stand there stand on the chain of a class.** -/
theorem chain_ensures (requested : ClassName) :
    Ensures (Remembers lookup) (chain lookup requested)
      fun found => ∀ above ∈ found, Above lookup requested above := by
  unfold chain
  split
  next => exact ensures_pure fun above hmem => above_of_mem_rootChain hmem
  next =>
    refine ensures_get.bind fun session hsession => ?_
    split
    next known hknown => exact ensures_pure (hsession requested known hknown)
    next =>
      refine (climb_ensures _ [] .start).bind fun way hway => ?_
      have hinterfaces : Keeps (Remembers lookup) (modify fun session : Session =>
          { session with interfaces := session.interfaces.insertMany way.interfaces } :
            Task Session PUnit) :=
        ensures_modify fun _ hkept => hkept
      refine hinterfaces.bind fun _ _ => ensures_get.bind fun current hcurrent => ?_
      obtain ⟨hresult, hafter⟩ := remember_spec hway hcurrent
      exact (ensures_set hafter).bind fun _ _ => ensures_pure hresult

/-- Whether a class is an interface is found out from its chain. -/
theorem isInterface_ensures (name : ClassName) :
    Keeps (Remembers lookup) (isInterface lookup name) :=
  (chain_ensures name).bind fun _ _ => ensures_get.bind fun _ _ => ensures_pure trivial

/-- **A common super class is the root, or both classes derive from it.** -/
theorem common_ensures (a b : ClassName) :
    Ensures (Remembers lookup) (common lookup a b) fun found =>
      found = ClassName.javaObject ∨ lookup.Derives a found ∧ lookup.Derives b found := by
  unfold common
  split
  next => exact ensures_pure (.inl rfl)
  next =>
    refine (chain_ensures a).bind fun chainA hA => (chain_ensures b).bind fun chainB hB => ?_
    refine (isInterface_ensures a).bind fun isInterfaceA _ => ?_
    split
    next => exact ensures_pure (.inl rfl)
    next =>
      refine (isInterface_ensures b).bind fun isInterfaceB _ => ?_
      split
      next => exact ensures_pure (.inl rfl)
      next =>
        refine ensures_pure ?_
        cases hfind : chainA.find? fun name => chainB.contains name with
        | none => exact .inl rfl
        | some found =>
            have hmemA := hA found (List.mem_of_find?_eq_some hfind)
            have hmemB := hB found (by simpa using List.find?_some hfind)
            rcases hmemA with hobject | hderivesA
            · exact .inl hobject
            · rcases hmemB with hobject | hderivesB
              · exact .inl hobject
              · exact .inr ⟨hderivesA, hderivesB⟩

/-- Finding common super classes keeps what is remembered right. -/
theorem supers_keep : (supers lookup).Closed (Remembers lookup) fun _ => True :=
  fun a b _ _ _ => (common_ensures a b).mono fun _ _ _ _ => trivial

section Closed

variable {goal : ClassName} {M : ClassName → Prop}

/-- The root does not derive from another class. -/
theorem within_javaObject (hgoal : goal ≠ ClassName.javaObject) :
    (VType.object ClassName.javaObject).Within fun base => lookup.Derives base goal → M base := by
  rw [VType.within_object]
  intro base hbase hderives
  rw [Lookup.Derives.baseClass?_javaObject] at hbase
  exact absurd (hderives.eq_of_javaObject (Option.some.inj hbase).symm) hgoal

/-- **Common super classes keep away from a class**: if of the classes in `M` at most one derives from
it, then the only classes that derive from it and come of finding common super classes are in `M`. -/
theorem supers_closed (hgoal : goal ≠ ClassName.javaObject)
    (hsole : ∀ a b, M a → M b → lookup.Derives a goal → lookup.Derives b goal → a = b) :
    (supers lookup).Closed (Remembers lookup) fun base => lookup.Derives base goal → M base := by
  intro a b hne ha hb
  refine (common_ensures a b).mono fun found hfound => ?_
  rcases hfound with rfl | ⟨hderivesA, hderivesB⟩
  · exact within_javaObject hgoal
  · rw [VType.within_object]
    intro base hbase hderives
    have hgoalA := hderivesA.trans (.element hbase hderives)
    have hgoalB := hderivesB.trans (.element hbase hderives)
    exact absurd (hsole a b (ha hgoalA) (hb hgoalB) hgoalA hgoalB) hne

end Closed

end Hierarchy

end Downlevel
