import Mathlib.Logic.Relation
import Downlevel.Proofs.Derivation
import Downlevel.Proofs.Symbols.Missing

/-!
# What is remembered does not show

A chain may be put together from chains that earlier questions left behind, and whether a class is an
interface is noted when the way up from some class first leads over it.  If no class is its own
ancestor, then none of this shows: every class has one chain, which depends on the lookup alone, and
the memory holds chains of this kind only, together with all that they lead over.  So an answer does
not depend on what was asked before.  The only traces of earlier questions are in the journal: a class
that nothing is known about is reported by the first question whose way up meets it, and never again.

* `Lookup.Chain`, `Lookup.Unreadable` — the chain of a class, and an entry on the way up that cannot
  be read, told by the lookup alone;
* `Hierarchy.Recalls` — the invariant of the memory;
* `Hierarchy.climb_spec` — what the way up from a class comes to;
* `Hierarchy.Finds` — the answer to a question, and what it adds to the memory and to the journal;
* `Query.runs_transparent` — answers to any questions, one after the other.
-/

namespace Downlevel

namespace Lookup

variable {lookup : Lookup} {name parent above : ClassName} {names others : List ClassName}
  {error : Error}

/-- The super class of a class, if it is known and has one. -/
def superClass? (lookup : Lookup) (name : ClassName) : Except Error (Option ClassName) :=
  (lookup.resolve name).map fun found => found.bind ClassOutline.superClass

/-- One class is the super class of another one. -/
def Super (lookup : Lookup) (name parent : ClassName) : Prop :=
  lookup.superClass? name = .ok (some parent)

/-- No class is its own ancestor. -/
def Acyclic (lookup : Lookup) : Prop :=
  ∀ name, ¬ Relation.TransGen lookup.Super name name

/-- Whether a class other than the root is known to be an interface. -/
def knowsInterface (lookup : Lookup) (name : ClassName) : Bool :=
  name ≠ ClassName.javaObject &&
    match lookup.resolve name with
    | .ok (some outline) => outline.isInterface
    | _ => false

/-- The chain of a class: the root alone, or the class in front of the chain of its super class.  A
class without one, or that nothing is known about, stands directly below the root. -/
inductive Chain (lookup : Lookup) : ClassName → List ClassName → Prop where
  | root : Chain lookup ClassName.javaObject Hierarchy.rootChain
  | top {name : ClassName} (hroot : name ≠ ClassName.javaObject)
      (htop : lookup.superClass? name = .ok none) : Chain lookup name (name :: Hierarchy.rootChain)
  | up {name parent : ClassName} {names : List ClassName} (hroot : name ≠ ClassName.javaObject)
      (hsuper : lookup.Super name parent) (h : Chain lookup parent names) :
      Chain lookup name (name :: names)

/-- The way up from a class meets an entry that cannot be read. -/
inductive Unreadable (lookup : Lookup) : ClassName → Error → Prop where
  | here {name : ClassName} {error : Error} (hroot : name ≠ ClassName.javaObject)
      (herror : lookup.superClass? name = .error error) : Unreadable lookup name error
  | up {name parent : ClassName} {error : Error} (hroot : name ≠ ClassName.javaObject)
      (hsuper : lookup.Super name parent) (h : Unreadable lookup parent error) :
      Unreadable lookup name error

/-- What is known about the chain of a class: the chain, or the error that the way up meets. -/
def Outcome (lookup : Lookup) (name : ClassName) : Except Error (List ClassName) → Prop
  | .ok names => lookup.Chain name names
  | .error error => lookup.Unreadable name error

/-- A class other than the root stands on the chain of a class. -/
def OnWay (lookup : Lookup) (name above : ClassName) : Prop :=
  above ≠ ClassName.javaObject ∧ ∃ names, lookup.Chain name names ∧ above ∈ names

/-- A class has one chain only. -/
theorem Chain.unique (h : lookup.Chain name names) (hother : lookup.Chain name others) :
    names = others := by
  induction h generalizing others with
  | root =>
      cases hother with
      | root => rfl
      | top hroot => exact absurd rfl hroot
      | up hroot => exact absurd rfl hroot
  | top hroot htop =>
      cases hother with
      | root => exact absurd rfl hroot
      | top => rfl
      | up _ hsuper _ => cases htop.symm.trans hsuper
  | up hroot hsuper _ ih =>
      cases hother with
      | root => exact absurd rfl hroot
      | top _ htop => cases htop.symm.trans hsuper
      | up _ hsuper' h =>
          cases hsuper.symm.trans hsuper'
          rw [ih h]

/-- A class with a chain has no unreadable entry above it. -/
theorem Chain.readable (h : lookup.Chain name names) : ¬ lookup.Unreadable name error := by
  intro hunreadable
  induction h with
  | root =>
      cases hunreadable with
      | here hroot => exact absurd rfl hroot
      | up hroot => exact absurd rfl hroot
  | top _ htop =>
      cases hunreadable with
      | here _ herror => cases htop.symm.trans herror
      | up _ hsuper _ => cases htop.symm.trans hsuper
  | up _ hsuper _ ih =>
      cases hunreadable with
      | here _ herror => cases hsuper.symm.trans herror
      | up _ hsuper' h =>
          cases hsuper.symm.trans hsuper'
          exact ih h

/-- The way up meets one unreadable entry only. -/
theorem Unreadable.unique {other : Error} (h : lookup.Unreadable name error)
    (hother : lookup.Unreadable name other) : error = other := by
  induction h with
  | here hroot herror =>
      cases hother with
      | here _ herror' =>
          cases herror.symm.trans herror'
          rfl
      | up _ hsuper _ => cases herror.symm.trans hsuper
  | up hroot hsuper _ ih =>
      cases hother with
      | here _ herror' => cases hsuper.symm.trans herror'
      | up _ hsuper' h =>
          cases hsuper.symm.trans hsuper'
          exact ih h

/-- What is known about the chain of a class depends on the lookup alone. -/
theorem Outcome.unique {outcome other : Except Error (List ClassName)}
    (h : lookup.Outcome name outcome) (hother : lookup.Outcome name other) : outcome = other := by
  cases outcome with
  | ok names =>
      cases other with
      | ok others => rw [Chain.unique h hother]
      | error error => exact absurd hother h.readable
  | error error =>
      cases other with
      | ok others => exact absurd h hother.readable
      | error other => rw [Unreadable.unique h hother]

/-- A chain starts with its class. -/
theorem Chain.head (h : lookup.Chain name names) : names.head? = some name := by
  cases h <;> rfl

/-- A class stands on its chain. -/
theorem Chain.self_mem (h : lookup.Chain name names) : name ∈ names :=
  List.mem_of_head? h.head

/-- A chain ends with the root. -/
theorem Chain.last (h : lookup.Chain name names) : names.getLast? = some ClassName.javaObject := by
  induction h with
  | root => rfl
  | top => rfl
  | up _ _ _ ih => rw [List.getLast?_cons, ih, Option.getD_some]

/-- The chain of a class on a chain is the rest of that chain. -/
theorem Chain.suffix (h : lookup.Chain name names) (hmem : above ∈ names) :
    ∃ rest, lookup.Chain above rest ∧ rest <:+ names := by
  induction h with
  | root =>
      cases List.mem_singleton.mp hmem
      exact ⟨_, .root, List.suffix_refl _⟩
  | top hroot htop =>
      rcases List.mem_cons.mp hmem with heq | hmem
      · cases heq
        exact ⟨_, .top hroot htop, List.suffix_refl _⟩
      · cases List.mem_singleton.mp hmem
        exact ⟨_, .root, List.suffix_cons _ _⟩
  | up hroot hsuper h ih =>
      rcases List.mem_cons.mp hmem with heq | hmem
      · cases heq
        exact ⟨_, .up hroot hsuper h, List.suffix_refl _⟩
      · obtain ⟨rest, hrest, hsuffix⟩ := ih hmem
        exact ⟨rest, hrest, hsuffix.trans (List.suffix_cons _ _)⟩

/-- Only ancestors of a class, and the root, stand on its chain. -/
theorem Chain.ancestor (h : lookup.Chain name names) (hmem : above ∈ names) :
    above = ClassName.javaObject ∨ Relation.ReflTransGen lookup.Super name above := by
  induction h with
  | root => exact .inl (List.mem_singleton.mp hmem)
  | top =>
      rcases List.mem_cons.mp hmem with heq | hmem
      · exact .inr (heq ▸ .refl)
      · exact .inl (List.mem_singleton.mp hmem)
  | up _ hsuper _ ih =>
      rcases List.mem_cons.mp hmem with heq | hmem
      · exact .inr (heq ▸ .refl)
      · rcases ih hmem with hobject | hancestor
        · exact .inl hobject
        · exact .inr (.head hsuper hancestor)

/-- **No class stands twice on a chain**, if no class is its own ancestor. -/
theorem Chain.nodup (hacyclic : lookup.Acyclic) (h : lookup.Chain name names) : names.Nodup := by
  induction h with
  | root => exact List.nodup_singleton _
  | top hroot => exact List.nodup_cons.mpr ⟨by simpa [Hierarchy.rootChain] using hroot,
      List.nodup_singleton _⟩
  | up hroot hsuper h ih =>
      refine List.nodup_cons.mpr ⟨fun hmem => ?_, ih⟩
      rcases h.ancestor hmem with hobject | hancestor
      · exact hroot hobject
      · exact hacyclic _ (.head' hsuper hancestor)

/-- The classes that lead up to the rest of a chain, with that rest. -/
theorem OnWay.of_chain (h : lookup.Chain name names) :
    lookup.OnWay name above ↔ above ≠ ClassName.javaObject ∧ above ∈ names := by
  constructor
  · rintro ⟨hroot, others, hothers, hmem⟩
    exact ⟨hroot, h.unique hothers ▸ hmem⟩
  · rintro ⟨hroot, hmem⟩
    exact ⟨hroot, names, h, hmem⟩

/-- Where an entry cannot be read there is no chain. -/
theorem Unreadable.not_onWay (h : lookup.Unreadable name error) : ¬ lookup.OnWay name above := by
  rintro ⟨_, names, hchain, _⟩
  exact hchain.readable h

end Lookup

namespace Hierarchy

open Downlevel.Task Lookup

variable {lookup : Lookup} {requested current : ClassName} {walked interfaces : List ClassName}
  {session : Session}

/-- The report that nothing is known about a class, met on the way up from another one. -/
def unknownReport (met : ClassName × ClassName) : Event :=
  .found ⟨met.1, .unknownClass met.1 met.2⟩

/-- The classes that lead up to the rest of a chain stand below it, each with what is above it. -/
def Leads (lookup : Lookup) (requested : ClassName) : List ClassName → List ClassName → Prop
  | [], tail => lookup.Chain requested tail
  | name :: lower, tail => Path lookup requested lower name ∧ name ≠ ClassName.javaObject ∧
      lookup.Chain name (name :: tail)

/-- The super class that a lookup tells. -/
theorem superClass?_of_resolve {found : Option ClassOutline}
    (hfound : lookup.resolve current = .ok found) :
    lookup.superClass? current = .ok (found.bind ClassOutline.superClass) := by
  unfold superClass?
  rw [hfound]
  rfl

/-- Where an entry cannot be read, no super class is told. -/
theorem superClass?_of_error {error : Error} (herror : lookup.resolve current = .error error) :
    lookup.superClass? current = .error error := by
  unfold superClass?
  rw [herror]
  rfl

/-- A step up leads to the super class. -/
theorem super_of_resolve {outline : ClassOutline} {parent : ClassName}
    (hfound : lookup.resolve current = .ok (some outline))
    (hsuper : outline.superClass = some parent) : lookup.Super current parent := by
  unfold Super
  rw [superClass?_of_resolve hfound]
  exact congrArg Except.ok hsuper

/-- A way up leads into the chain of the class that it ends at. -/
theorem Path.leads {tail : List ClassName} (h : Path lookup requested walked current)
    (htail : lookup.Chain current tail) : Leads lookup requested walked tail := by
  cases h with
  | start => exact htail
  | up hroot hfound hsuper h => exact ⟨h, hroot, .up hroot (super_of_resolve hfound hsuper) htail⟩

/-- An unreadable entry above the end of a way up is one above its start. -/
theorem Path.unreadable {error : Error} (h : Path lookup requested walked current)
    (hcurrent : lookup.Unreadable current error) : lookup.Unreadable requested error := by
  induction h with
  | start => exact hcurrent
  | up hroot hfound hsuper _ ih => exact ih (.up hroot (super_of_resolve hfound hsuper) hcurrent)

/-- The classes on a way up have its end among their ancestors. -/
theorem Path.ancestor {name : ClassName} (h : Path lookup requested walked current)
    (hmem : name ∈ walked) : Relation.TransGen lookup.Super name current := by
  induction h with
  | start => cases hmem
  | up _ hfound hsuper _ ih =>
      have hstep := super_of_resolve hfound hsuper
      rcases List.mem_cons.mp hmem with heq | hmem
      · exact heq ▸ .single hstep
      · exact (ih hmem).tail hstep

/-- Every class on a way up is known, and none is the root. -/
theorem Path.known {name : ClassName} (h : Path lookup requested walked current)
    (hmem : name ∈ walked) :
    name ≠ ClassName.javaObject ∧ ∃ outline, lookup.resolve name = .ok (some outline) := by
  induction h with
  | start => cases hmem
  | up hroot hfound _ _ ih =>
      rcases List.mem_cons.mp hmem with heq | hmem
      · exact heq ▸ ⟨hroot, _, hfound⟩
      · exact ih hmem

/-- If no class is its own ancestor, a way up never comes back to a class. -/
theorem Path.not_mem (hacyclic : lookup.Acyclic) (h : Path lookup requested walked current) :
    current ∉ walked := by
  intro hmem
  exact hacyclic current (h.ancestor hmem)

/-- If no class is its own ancestor, a way up leads over each class once. -/
theorem Path.nodup (hacyclic : lookup.Acyclic) (h : Path lookup requested walked current) :
    walked.Nodup := by
  induction h with
  | start => exact List.nodup_nil
  | up _ _ _ h ih => exact List.nodup_cons.mpr ⟨h.not_mem hacyclic, ih⟩

/-- **A way up is no longer than there are known classes.** -/
theorem Path.length_le (hacyclic : lookup.Acyclic) (h : Path lookup requested walked current) :
    walked.length ≤ lookup.size :=
  Lookup.length_le_size (h.nodup hacyclic) fun _ hmem => (h.known hmem).2

/-- What is remembered are chains, with the chain of every class on them, and which of the classes
with a chain are interfaces. -/
structure Recalls (lookup : Lookup) (session : Session) : Prop where
  chains : ∀ {name : ClassName} {names : List ClassName}, session.chains[name]? = some names →
    name ≠ ClassName.javaObject ∧ lookup.Chain name names
  closed : ∀ {name : ClassName} {names : List ClassName}, session.chains[name]? = some names →
    ∀ above ∈ names, above ≠ ClassName.javaObject → above ∈ session.chains
  interfaces : ∀ name, name ∈ session.interfaces ↔
    name ∈ session.chains ∧ lookup.knowsInterface name = true

/-- In the beginning nothing is remembered. -/
theorem recalls_start (journal : Journal) : Recalls lookup { journal } where
  chains h := by simp at h
  closed h := by simp at h
  interfaces name := by simp

/-- What is added between two sessions: the chains of the classes that were reached, and one report of
each class among them that nothing is known about, unless it was remembered already. -/
structure Adds (lookup : Lookup) (Reached : ClassName → Prop) (session session' : Session) :
    Prop where
  chains : ∀ name, name ∈ session'.chains ↔ name ∈ session.chains ∨ Reached name
  journal : ∃ reports : List (ClassName × ClassName),
    session'.journal = session.journal ++ reports.map unknownReport ∧
    (reports.map Prod.snd).Nodup ∧
    ∀ name, name ∈ reports.map Prod.snd ↔
      lookup.resolve name = .ok none ∧ Reached name ∧ name ∉ session.chains

namespace Adds

variable {Reached More : ClassName → Prop} {between session' : Session}

/-- Nothing is added if all that was reached is remembered. -/
theorem nothing (h : ∀ name, Reached name → name ∈ session.chains) :
    Adds lookup Reached session session where
  chains name := by
    constructor
    · exact .inl
    · rintro (hmem | hreached)
      · exact hmem
      · exact h name hreached
  journal := by
    refine ⟨[], by simp, List.nodup_nil, fun name => ?_⟩
    constructor
    · intro hmem
      cases hmem
    · rintro ⟨_, hreached, hnew⟩
      exact absurd (h name hreached) hnew

/-- What is added in two steps. -/
theorem trans (h : Adds lookup Reached session between) (hmore : Adds lookup More between session') :
    Adds lookup (fun name => Reached name ∨ More name) session session' where
  chains name := by rw [hmore.chains, h.chains, or_assoc]
  journal := by
    obtain ⟨first, hfirst, hnodup, hmem⟩ := h.journal
    obtain ⟨second, hsecond, hnodup', hmem'⟩ := hmore.journal
    refine ⟨first ++ second, ?_, ?_, fun name => ?_⟩
    · rw [hsecond, hfirst, List.map_append, List.append_assoc]
    · rw [List.map_append]
      refine hnodup.append hnodup' fun name hleft hright => ?_
      -- What the first step reported it also remembered.
      have hreached := ((hmem name).mp hleft).2.1
      exact ((hmem' name).mp hright).2.2 ((h.chains name).mpr (.inr hreached))
    · rw [List.map_append, List.mem_append, hmem, hmem', h.chains]
      by_cases hreached : Reached name
      · simp [hreached]
      · simp [hreached]

/-- What is reached may be told in another way. -/
theorem congr (h : Adds lookup Reached session session') (hiff : ∀ name, Reached name ↔ More name) :
    Adds lookup More session session' := by
  have heq : Reached = More := funext fun name => propext (hiff name)
  exact heq ▸ h

end Adds

/-- **What the way up from a class comes to**, in a session: classes without a chain that lead into
what is remembered, with the interfaces among them, and a report of a class that nothing is known
about. -/
structure Climbed (lookup : Lookup) (requested : ClassName) (session : Session) (way : Climb)
    (session' : Session) : Prop where
  leads : Leads lookup requested way.walked way.tail
  unseen : ∀ name ∈ way.walked, name ∉ session.chains
  tail : ∀ name ∈ way.tail, name ≠ ClassName.javaObject → name ∈ session.chains
  interfaces : ∀ name, name ∈ way.interfaces ↔
    name ∈ way.walked ∧ lookup.knowsInterface name = true
  chains : session'.chains = session.chains
  marked : session'.interfaces = session.interfaces
  journal : ∃ reports : List (ClassName × ClassName),
    session'.journal = session.journal ++ reports.map unknownReport ∧
    (reports.map Prod.snd).Nodup ∧
    ∀ name, name ∈ reports.map Prod.snd ↔ lookup.resolve name = .ok none ∧ name ∈ way.walked

/-- The root is not on the way up. -/
theorem Leads.notRoot {tail : List ClassName} {name : ClassName}
    (h : Leads lookup requested walked tail) (hmem : name ∈ walked) :
    name ≠ ClassName.javaObject := by
  cases walked with
  | nil => cases hmem
  | cons other lower =>
      obtain ⟨hpath, hroot, _⟩ := h
      rcases List.mem_cons.mp hmem with heq | hmem
      · exact heq ▸ hroot
      · exact (hpath.known hmem).1

/-- One step of the way up. -/
theorem climb_eq (lookup : Lookup) (requested current : ClassName) (steps : Nat)
    (walked interfaces : List ClassName) (session : Session) :
    climb lookup requested (steps + 1) current walked interfaces session =
      if current = ClassName.javaObject then (.ok ⟨walked, interfaces, rootChain⟩, session)
      else
        match session.chains[current]? with
        | some chain => (.ok ⟨walked, interfaces, chain⟩, session)
        | none =>
            if walked.contains current then
              (.ok ⟨walked, interfaces, rootChain⟩,
                session.record (.found ⟨requested, .cyclicSuperClasses requested current⟩))
            else
              match lookup.resolve current with
              | .error error => (.error error, session)
              | .ok none =>
                  (.ok ⟨current :: walked, interfaces, rootChain⟩,
                    session.record (unknownReport (requested, current)))
              | .ok (some outline) =>
                  let interfaces :=
                    if outline.isInterface then current :: interfaces else interfaces
                  match outline.superClass with
                  | none => (.ok ⟨current :: walked, interfaces, rootChain⟩, session)
                  | some parent =>
                      climb lookup requested steps parent (current :: walked) interfaces session := by
  rw [climb]
  split
  next => rfl
  next =>
    show (match session.chains[current]? with
      | some chain => _
      | none => _ : Task Session Climb) session = _
    cases session.chains[current]? with
    | some chain => rfl
    | none =>
        dsimp only
        split
        next => rfl
        next =>
          cases hresolve : lookup.resolve current with
          | error error => rfl
          | ok found =>
              cases found with
              | none => rfl
              | some outline =>
                  obtain ⟨name, superClass, others, isInterface, fields, methods⟩ := outline
                  cases superClass with
                  | none => rfl
                  | some parent => rfl

/-- Whether a known class is an interface. -/
theorem knowsInterface_of_resolve {outline : ClassOutline} (hroot : current ≠ ClassName.javaObject)
    (hfound : lookup.resolve current = .ok (some outline)) :
    lookup.knowsInterface current = outline.isInterface := by
  simp [knowsInterface, hroot, hfound]

/-- The interfaces among the classes of a longer way up. -/
theorem interfaces_cons {outline : ClassOutline} (hroot : current ≠ ClassName.javaObject)
    (hfound : lookup.resolve current = .ok (some outline))
    (hinterfaces : ∀ name, name ∈ interfaces ↔ name ∈ walked ∧ lookup.knowsInterface name = true)
    (name : ClassName) :
    name ∈ (if outline.isInterface then current :: interfaces else interfaces) ↔
      name ∈ current :: walked ∧ lookup.knowsInterface name = true := by
  have hcurrent := knowsInterface_of_resolve hroot hfound
  cases hflag : outline.isInterface with
  | true =>
      rw [if_pos rfl, List.mem_cons, List.mem_cons, hinterfaces]
      constructor
      · rintro (rfl | ⟨hmem, hknows⟩)
        · exact ⟨.inl rfl, hcurrent.trans hflag⟩
        · exact ⟨.inr hmem, hknows⟩
      · rintro ⟨rfl | hmem, hknows⟩
        · exact .inl rfl
        · exact .inr ⟨hmem, hknows⟩
  | false =>
      rw [if_neg Bool.false_ne_true, List.mem_cons, hinterfaces]
      constructor
      · rintro ⟨hmem, hknows⟩
        exact ⟨.inr hmem, hknows⟩
      · rintro ⟨rfl | hmem, hknows⟩
        · rw [hcurrent, hflag] at hknows
          cases hknows
        · exact ⟨hmem, hknows⟩

/-- The root needs no chain. -/
theorem rootChain_seen (session : Session) :
    ∀ name ∈ rootChain, name ≠ ClassName.javaObject → name ∈ session.chains :=
  fun _ hmem hroot => absurd (List.mem_singleton.mp hmem) hroot

/-- A way up over known classes ends without a report. -/
theorem climbed_known {way : Climb} (hleads : Leads lookup requested way.walked way.tail)
    (hknown : ∀ name ∈ way.walked, ∃ outline, lookup.resolve name = .ok (some outline))
    (hunseen : ∀ name ∈ way.walked, name ∉ session.chains)
    (htail : ∀ name ∈ way.tail, name ≠ ClassName.javaObject → name ∈ session.chains)
    (hinterfaces : ∀ name, name ∈ way.interfaces ↔
      name ∈ way.walked ∧ lookup.knowsInterface name = true) :
    Climbed lookup requested session way session where
  leads := hleads
  unseen := hunseen
  tail := htail
  interfaces := hinterfaces
  chains := rfl
  marked := rfl
  journal := by
    refine ⟨[], by simp, List.nodup_nil, fun name => ?_⟩
    constructor
    · intro hmem
      cases hmem
    · rintro ⟨hunknown, hmem⟩
      obtain ⟨outline, hfound⟩ := hknown name hmem
      cases hunknown.symm.trans hfound

/-- A way up that ends at a class that nothing is known about ends with a report of it. -/
theorem climbed_unknown (hpath : Path lookup requested walked current)
    (hroot : current ≠ ClassName.javaObject) (hunknown : lookup.resolve current = .ok none)
    (hunseen : ∀ name ∈ current :: walked, name ∉ session.chains)
    (hinterfaces : ∀ name, name ∈ interfaces ↔ name ∈ walked ∧ lookup.knowsInterface name = true) :
    Climbed lookup requested session ⟨current :: walked, interfaces, rootChain⟩
      (session.record (unknownReport (requested, current))) where
  leads := ⟨hpath, hroot, .top hroot (superClass?_of_resolve hunknown)⟩
  unseen := hunseen
  tail := rootChain_seen session
  interfaces name := by
    have hknows : lookup.knowsInterface current = false := by simp [knowsInterface, hunknown]
    rw [hinterfaces, List.mem_cons]
    constructor
    · rintro ⟨hmem, hknown⟩
      exact ⟨.inr hmem, hknown⟩
    · rintro ⟨rfl | hmem, hknown⟩
      · cases hknows.symm.trans hknown
      · exact ⟨hmem, hknown⟩
  chains := rfl
  marked := rfl
  journal := by
    refine ⟨[(requested, current)], rfl, List.nodup_singleton _, fun name => ?_⟩
    rw [List.map_singleton, List.mem_singleton, List.mem_cons]
    constructor
    · rintro rfl
      exact ⟨hunknown, .inl rfl⟩
    · rintro ⟨hnone, heq | hmem⟩
      · exact heq
      · obtain ⟨_, outline, hfound⟩ := hpath.known hmem
        cases hnone.symm.trans hfound

/-- **The way up from a class**, if no class is its own ancestor, meets an entry that cannot be read,
or comes to an end. -/
theorem climb_spec (hacyclic : lookup.Acyclic) (hsession : Recalls lookup session) (steps : Nat)
    (hpath : Path lookup requested walked current)
    (hunseen : ∀ name ∈ walked, name ∉ session.chains)
    (hinterfaces : ∀ name, name ∈ interfaces ↔ name ∈ walked ∧ lookup.knowsInterface name = true)
    (hsteps : walked.length + steps = lookup.size + 1) :
    (∃ error, lookup.Unreadable requested error ∧
      climb lookup requested steps current walked interfaces session = (.error error, session)) ∨
    ∃ way session', climb lookup requested steps current walked interfaces session =
      (.ok way, session') ∧ Climbed lookup requested session way session' := by
  induction steps generalizing current walked interfaces with
  | zero =>
      have hlength := hpath.length_le hacyclic
      omega
  | succ steps ih =>
      have hknown : ∀ name ∈ walked, ∃ outline, lookup.resolve name = .ok (some outline) :=
        fun name hmem => (hpath.known hmem).2
      rw [climb_eq]
      by_cases hroot : current = ClassName.javaObject
      · have hchain : lookup.Chain current rootChain := hroot ▸ .root
        have hleads := hpath.leads hchain
        rw [if_pos hroot]
        exact .inr ⟨_, _, rfl, climbed_known hleads hknown hunseen (rootChain_seen session)
          hinterfaces⟩
      rw [if_neg hroot]
      cases hchain : session.chains[current]? with
      | some chain =>
          have hleads := hpath.leads (hsession.chains hchain).2
          exact .inr ⟨_, _, rfl, climbed_known hleads hknown hunseen (hsession.closed hchain)
            hinterfaces⟩
      | none =>
          have hnew : current ∉ session.chains := by
            rw [Std.HashMap.mem_iff_isSome_getElem?, hchain]
            exact Bool.false_ne_true
          have hunseen' : ∀ name ∈ current :: walked, name ∉ session.chains :=
            List.forall_mem_cons.mpr ⟨hnew, hunseen⟩
          have hwalked : walked.contains current = false := by
            simpa using hpath.not_mem hacyclic
          simp only [hwalked, Bool.false_eq_true, if_false]
          cases hresolve : lookup.resolve current with
          | error error =>
              have hhere : lookup.Unreadable current error :=
                .here hroot (superClass?_of_error hresolve)
              exact .inl ⟨error, hpath.unreadable hhere, rfl⟩
          | ok found =>
              cases found with
              | none =>
                  exact .inr ⟨_, _, rfl, climbed_unknown hpath hroot hresolve hunseen' hinterfaces⟩
              | some outline =>
                  have hmarks := interfaces_cons hroot hresolve hinterfaces
                  cases hsuper : outline.superClass with
                  | none =>
                      have htop : lookup.superClass? current = .ok none := by
                        rw [superClass?_of_resolve hresolve]
                        exact congrArg Except.ok hsuper
                      have hknown' : ∀ name ∈ current :: walked,
                          ∃ outline, lookup.resolve name = .ok (some outline) :=
                        List.forall_mem_cons.mpr ⟨⟨outline, hresolve⟩, hknown⟩
                      simp only [hsuper]
                      exact .inr ⟨_, _, rfl, climbed_known ⟨hpath, hroot, .top hroot htop⟩ hknown'
                        hunseen' (rootChain_seen session) hmarks⟩
                  | some parent =>
                      simp only [hsuper]
                      apply ih (.up hroot hresolve hsuper hpath) hunseen' hmarks
                      rw [List.length_cons]
                      omega

section Remember

variable {tail : List ClassName}

/-- What is remembered last is the whole way up, seen from its start. -/
theorem remember_fst (walked tail : List ClassName) (session : Session) :
    (remember walked tail session).1 = walked.reverse ++ tail := by
  induction walked generalizing tail session with
  | nil => rfl
  | cons name lower ih =>
      unfold remember
      rw [ih, List.reverse_cons, List.append_assoc]
      rfl

/-- Remembering chains adds their classes, and nothing else. -/
theorem mem_remember (walked tail : List ClassName) (session : Session) (name : ClassName) :
    name ∈ (remember walked tail session).2.chains ↔ name ∈ session.chains ∨ name ∈ walked := by
  induction walked generalizing tail session with
  | nil => simp [remember]
  | cons other lower ih =>
      unfold remember
      rw [ih, Std.HashMap.mem_insertIfNew, List.mem_cons, beq_iff_eq, eq_comm (a := other)]
      tauto

/-- Remembering chains leaves the rest of a session alone. -/
theorem remember_rest (walked tail : List ClassName) (session : Session) :
    (remember walked tail session).2.journal = session.journal ∧
      (remember walked tail session).2.interfaces = session.interfaces := by
  induction walked generalizing tail session with
  | nil => exact ⟨rfl, rfl⟩
  | cons name lower ih => exact ih _ _

/-- The way up from a class is its chain. -/
theorem Leads.chain (h : Leads lookup requested walked tail) :
    lookup.Chain requested (walked.reverse ++ tail) := by
  induction walked generalizing tail with
  | nil => exact h
  | cons name lower ih =>
      obtain ⟨hpath, _, hchain⟩ := h
      rw [List.reverse_cons, List.append_assoc]
      exact ih (hpath.leads hchain)

/-- **Only chains are remembered.** -/
theorem chain_of_remember {name : ClassName} {names : List ClassName}
    (h : Leads lookup requested walked tail)
    (hfound : (remember walked tail session).2.chains[name]? = some names) :
    session.chains[name]? = some names ∨ name ∈ walked ∧ lookup.Chain name names := by
  induction walked generalizing tail session with
  | nil => exact .inl hfound
  | cons other lower ih =>
      obtain ⟨hpath, _, hchain⟩ := h
      rcases ih (hpath.leads hchain) hfound with hold | ⟨hmem, hlower⟩
      · rw [Std.HashMap.getElem?_insertIfNew] at hold
        split at hold
        next hnew =>
          cases hold
          cases beq_iff_eq.mp hnew.1
          exact .inr ⟨List.mem_cons_self, hchain⟩
        next => exact .inl hold
      · exact .inr ⟨List.mem_cons_of_mem other hmem, hlower⟩

end Remember

section Finds

variable {α β : Type} {task : Task Session α} {answer : Except Error α} {value : α}
  {next : α → Task Session β} {result : Except Error β} {Reached More : ClassName → Prop}

/-- From every memory a task finds the same answer, and it adds the classes that it reaches. -/
def Finds (lookup : Lookup) (task : Task Session α) (answer : Except Error α)
    (Reached : ClassName → Prop) : Prop :=
  ∀ session, Recalls lookup session → (task session).1 = answer ∧
    Recalls lookup (task session).2 ∧ Adds lookup Reached session (task session).2

/-- What is reached may be told in another way. -/
theorem Finds.congr (h : Finds lookup task answer Reached)
    (hiff : ∀ name, Reached name ↔ More name) : Finds lookup task answer More := by
  intro session hsession
  obtain ⟨hanswer, hrecalls, hadds⟩ := h session hsession
  exact ⟨hanswer, hrecalls, hadds.congr hiff⟩

/-- A run of tasks in sequence goes on where the first one succeeds. -/
theorem bind_of_ok {session' : Session} (h : task session = (.ok value, session')) :
    (task >>= next) session = next value session' := by
  show ExceptT.bindCont next (task session).1 (task session).2 = _
  rw [h]
  rfl

/-- A run of tasks in sequence ends where the first one fails. -/
theorem bind_of_error {error : Error} {session' : Session}
    (h : task session = (.error error, session')) :
    (task >>= next) session = (.error error, session') := by
  show ExceptT.bindCont next (task session).1 (task session).2 = _
  rw [h]
  rfl

/-- A value is found without reaching anything. -/
theorem finds_pure (value : α) :
    Finds lookup (pure value) (.ok value) fun _ => False := by
  intro session hsession
  exact ⟨rfl, hsession, .nothing fun _ => False.elim⟩

/-- Tasks in sequence find what the second one finds, if the first one succeeds. -/
theorem Finds.bind (h : Finds lookup task (.ok value) Reached)
    (hnext : Finds lookup (next value) result More) :
    Finds lookup (task >>= next) result fun name => Reached name ∨ More name := by
  intro session hsession
  obtain ⟨hanswer, hrecalls, hadds⟩ := h session hsession
  obtain ⟨hresult, hrecalls', hadds'⟩ := hnext _ hrecalls
  rw [bind_of_ok (Prod.ext hanswer rfl)]
  exact ⟨hresult, hrecalls', hadds.trans hadds'⟩

/-- Tasks in sequence fail if the first one does. -/
theorem Finds.bind_error {error : Error} (h : Finds lookup task (.error error) Reached) :
    Finds lookup (task >>= next) (.error error) Reached := by
  intro session hsession
  obtain ⟨hanswer, hrecalls, hadds⟩ := h session hsession
  rw [bind_of_error (Prod.ext hanswer rfl)]
  exact ⟨rfl, hrecalls, hadds⟩

/-- What comes of an answer. -/
theorem Finds.map (f : α → β) (h : Finds lookup task answer Reached) :
    Finds lookup (f <$> task) (answer.map f) Reached := by
  rw [← bind_pure_comp]
  cases answer with
  | error error => exact h.bind_error
  | ok value => exact (h.bind (finds_pure (f value))).congr fun _ => or_iff_left id

end Finds

/-- One run of looking for a chain. -/
theorem chain_eq (lookup : Lookup) (requested : ClassName) (session : Session) :
    chain lookup requested session =
      if requested = ClassName.javaObject then (.ok rootChain, session)
      else
        match session.chains[requested]? with
        | some known => (.ok known, session)
        | none =>
            match climb lookup requested (lookup.size + 1) requested [] [] session with
            | (.error error, session) => (.error error, session)
            | (.ok way, session) =>
                let marked : Session :=
                  { session with interfaces := session.interfaces.insertMany way.interfaces }
                let remembered := remember way.walked way.tail marked
                (.ok remembered.1, remembered.2) := by
  unfold chain
  split
  next => rfl
  next =>
    show (match session.chains[requested]? with
      | some known => _
      | none => _ : Task Session (List ClassName)) session = _
    cases session.chains[requested]? with
    | some known => rfl
    | none =>
        cases hrun : climb lookup requested (lookup.size + 1) requested [] [] session with
        | mk outcome session' =>
            cases outcome with
            | error error => exact bind_of_error hrun
            | ok way => exact bind_of_ok hrun

/-- Once the way up from a class is remembered, the memory is right again. -/
theorem recalls_of_climbed {way : Climb} {session' marked : Session}
    (hsession : Recalls lookup session) (h : Climbed lookup requested session way session')
    (hchains : marked.chains = session.chains)
    (hmarked : marked.interfaces = session.interfaces.insertMany way.interfaces) :
    Recalls lookup (remember way.walked way.tail marked).2 := by
  have hmem : ∀ name, name ∈ (remember way.walked way.tail marked).2.chains ↔
      name ∈ session.chains ∨ name ∈ way.walked := by
    intro name
    rw [mem_remember, hchains]
  have hcase : ∀ {name : ClassName} {names : List ClassName},
      (remember way.walked way.tail marked).2.chains[name]? = some names →
      session.chains[name]? = some names ∨ name ∈ way.walked ∧ lookup.Chain name names := by
    intro name names hfound
    rw [← hchains]
    exact chain_of_remember h.leads hfound
  refine ⟨fun {name names} hfound => ?_, fun {name names} hfound above hmemAbove hroot => ?_,
    fun name => ?_⟩
  · rcases hcase hfound with hold | ⟨hwalked, hchain⟩
    · exact hsession.chains hold
    · exact ⟨h.leads.notRoot hwalked, hchain⟩
  · rw [hmem]
    rcases hcase hfound with hold | ⟨hwalked, hchain⟩
    · exact .inl (hsession.closed hold above hmemAbove hroot)
    · -- The chain of a class on the way up is a part of the whole way.
      obtain ⟨rest, hrest, hsuffix⟩ :=
        h.leads.chain.suffix (List.mem_append_left _ (List.mem_reverse.mpr hwalked))
      cases hchain.unique hrest
      rcases List.mem_append.mp (hsuffix.subset hmemAbove) with hup | htail
      · exact .inr (List.mem_reverse.mp hup)
      · exact .inl (h.tail above htail hroot)
  · rw [hmem, (remember_rest _ _ _).2, hmarked, Std.HashSet.mem_insertMany_list,
      hsession.interfaces, List.contains_iff_mem, h.interfaces]
    tauto

/-- Once the way up from a class is remembered, the classes on it are added. -/
theorem adds_of_climbed {way : Climb} {session' marked : Session}
    (h : Climbed lookup requested session way session')
    (hchains : marked.chains = session.chains) (hjournal : marked.journal = session'.journal) :
    Adds lookup (lookup.OnWay requested) session (remember way.walked way.tail marked).2 where
  chains name := by
    rw [mem_remember, hchains, OnWay.of_chain h.leads.chain, List.mem_append, List.mem_reverse]
    constructor
    · rintro (hold | hwalked)
      · exact .inl hold
      · exact .inr ⟨h.leads.notRoot hwalked, .inl hwalked⟩
    · rintro (hold | ⟨hroot, hwalked | htail⟩)
      · exact .inl hold
      · exact .inr hwalked
      · exact .inl (h.tail name htail hroot)
  journal := by
    obtain ⟨reports, hreports, hnodup, hmem⟩ := h.journal
    refine ⟨reports, ?_, hnodup, fun name => ?_⟩
    · rw [(remember_rest _ _ _).1, hjournal, hreports]
    · rw [hmem, OnWay.of_chain h.leads.chain, List.mem_append, List.mem_reverse]
      constructor
      · rintro ⟨hunknown, hwalked⟩
        exact ⟨hunknown, ⟨h.leads.notRoot hwalked, .inl hwalked⟩, h.unseen name hwalked⟩
      · rintro ⟨hunknown, ⟨hroot, hwalked | htail⟩, hnew⟩
        · exact ⟨hunknown, hwalked⟩
        · exact absurd (h.tail name htail hroot) hnew

/-- **A chain is found**: the one that the lookup tells, and with it the chains of the classes on it. -/
theorem chain_run (hacyclic : lookup.Acyclic) (hsession : Recalls lookup session)
    (requested : ClassName) :
    lookup.Outcome requested (chain lookup requested session).1 ∧
      Recalls lookup (chain lookup requested session).2 ∧
      Adds lookup (lookup.OnWay requested) session (chain lookup requested session).2 := by
  rw [chain_eq]
  by_cases hroot : requested = ClassName.javaObject
  · have hchain : lookup.Chain requested rootChain := hroot ▸ .root
    rw [if_pos hroot]
    refine ⟨hchain, hsession, .nothing fun name hway => ?_⟩
    obtain ⟨hne, hmem⟩ := (OnWay.of_chain hchain).mp hway
    exact absurd (List.mem_singleton.mp hmem) hne
  rw [if_neg hroot]
  cases hknown : session.chains[requested]? with
  | some known =>
      have hchain := (hsession.chains hknown).2
      refine ⟨hchain, hsession, .nothing fun name hway => ?_⟩
      obtain ⟨hne, hmem⟩ := (OnWay.of_chain hchain).mp hway
      exact hsession.closed hknown name hmem hne
  | none =>
      have hstart : Path lookup requested [] requested := .start
      have hnone : ∀ name : ClassName,
          name ∈ [] ↔ name ∈ [] ∧ lookup.knowsInterface name = true := by simp
      have hclimb :=
        climb_spec hacyclic hsession (lookup.size + 1) hstart (by simp) hnone (by simp)
      rcases hclimb with ⟨error, hunreadable, hrun⟩ | ⟨way, session', hrun, hclimbed⟩
      · rw [hrun]
        exact ⟨hunreadable, hsession, .nothing fun name hway => absurd hway hunreadable.not_onWay⟩
      · simp only [hrun, remember_fst]
        refine ⟨hclimbed.leads.chain, ?_, ?_⟩
        · have hmarked : session'.interfaces.insertMany way.interfaces =
              session.interfaces.insertMany way.interfaces := by rw [hclimbed.marked]
          exact recalls_of_climbed hsession hclimbed hclimbed.chains hmarked
        · exact adds_of_climbed hclimbed hclimbed.chains rfl

/-- The chain of a class is found from every memory. -/
theorem chain_finds (hacyclic : lookup.Acyclic) (requested : ClassName) :
    ∃ outcome, lookup.Outcome requested outcome ∧
      Finds lookup (chain lookup requested) outcome (lookup.OnWay requested) := by
  obtain ⟨hfresh, _, _⟩ := chain_run hacyclic (recalls_start []) requested
  refine ⟨_, hfresh, fun session hsession => ?_⟩
  obtain ⟨houtcome, hrecalls, hadds⟩ := chain_run hacyclic hsession requested
  exact ⟨houtcome.unique hfresh, hrecalls, hadds⟩

/-- Once the chain of a class is found, it is known whether the class is an interface. -/
theorem isInterface_finds {names : List ClassName} {name : ClassName}
    (hnames : lookup.Chain name names)
    (h : Finds lookup (chain lookup name) (.ok names) (lookup.OnWay name)) :
    Finds lookup (isInterface lookup name) (.ok (lookup.knowsInterface name))
      (lookup.OnWay name) := by
  intro session hsession
  obtain ⟨hanswer, hrecalls, hadds⟩ := h session hsession
  have hrun : isInterface lookup name session =
      (.ok ((chain lookup name session).2.interfaces.contains name),
        (chain lookup name session).2) :=
    bind_of_ok (Prod.ext hanswer rfl)
  rw [hrun]
  refine ⟨congrArg Except.ok ?_, hrecalls, hadds⟩
  rw [Bool.eq_iff_iff, Std.HashSet.contains_iff_mem, hrecalls.interfaces]
  refine and_iff_right_of_imp fun hknows => ?_
  have hroot : name ≠ ClassName.javaObject := by
    intro heq
    simp [knowsInterface, heq] at hknows
  exact (hadds.chains name).mpr (.inr ((OnWay.of_chain hnames).mpr ⟨hroot, hnames.self_mem⟩))

/-- An error met on the way up from a class is met also if the class is asked about. -/
theorem isInterface_finds_error {name : ClassName} {error : Error}
    (h : Finds lookup (chain lookup name) (.error error) (lookup.OnWay name)) :
    Finds lookup (isInterface lookup name) (.error error) (lookup.OnWay name) :=
  h.bind_error

/-- The classes on the ways up that finding a common super class needs: the second way up is begun
only where the first one came to an end, and none is begun for the root. -/
def Meets (lookup : Lookup) (a b above : ClassName) : Prop :=
  a ≠ ClassName.javaObject ∧ b ≠ ClassName.javaObject ∧
    (lookup.OnWay a above ∨ (∃ names, lookup.Chain a names) ∧ lookup.OnWay b above)

/-- Where both chains are known, asking whether the classes are interfaces and comparing the chains
comes to the same from every memory, and adds nothing to what the chains added. -/
theorem compare_finds {a b : ClassName} {chainA chainB : List ClassName}
    (hmarkA : Finds lookup (isInterface lookup a) (.ok (lookup.knowsInterface a)) (lookup.OnWay a))
    (hmarkB : Finds lookup (isInterface lookup b) (.ok (lookup.knowsInterface b)) (lookup.OnWay b)) :
    ∃ answer reached, Finds lookup (do
        if ← isInterface lookup a then return ClassName.javaObject
        else if ← isInterface lookup b then return ClassName.javaObject
        else return (chainA.find? fun name => chainB.contains name).getD ClassName.javaObject)
        answer reached ∧ ∀ name, reached name → lookup.OnWay a name ∨ lookup.OnWay b name := by
  cases hknowsA : lookup.knowsInterface a with
  | true =>
      rw [hknowsA] at hmarkA
      refine ⟨_, _, hmarkA.bind (finds_pure _), ?_⟩
      tauto
  | false =>
      have hrest : ∃ answer, Finds lookup (do
          if ← isInterface lookup b then return ClassName.javaObject
          else return (chainA.find? fun name => chainB.contains name).getD ClassName.javaObject)
          answer fun name => lookup.OnWay b name ∨ False := by
        cases hknowsB : lookup.knowsInterface b with
        | true => exact ⟨_, Finds.bind (hknowsB ▸ hmarkB) (finds_pure _)⟩
        | false => exact ⟨_, Finds.bind (hknowsB ▸ hmarkB) (finds_pure _)⟩
      obtain ⟨answer, hrest⟩ := hrest
      rw [hknowsA] at hmarkA
      refine ⟨_, _, hmarkA.bind hrest, ?_⟩
      tauto

/-- **A common super class is found from every memory.** -/
theorem common_finds (hacyclic : lookup.Acyclic) (a b : ClassName) :
    ∃ answer, Finds lookup (common lookup a b) answer (Meets lookup a b) := by
  unfold common
  by_cases hroot : a = ClassName.javaObject ∨ b = ClassName.javaObject
  · rw [if_pos (by simpa using hroot)]
    refine ⟨_, (finds_pure _).congr fun name => ?_⟩
    constructor
    · exact False.elim
    · rintro ⟨hrootA, hrootB, _⟩
      exact hroot.elim hrootA hrootB
  rw [if_neg (by simpa using hroot)]
  obtain ⟨hrootA, hrootB⟩ := not_or.mp hroot
  obtain ⟨outcomeA, honeA, hfindsA⟩ := chain_finds hacyclic a
  cases outcomeA with
  | error error =>
      refine ⟨_, hfindsA.bind_error.congr fun name => ?_⟩
      have hno : ¬ lookup.OnWay a name := Unreadable.not_onWay honeA
      have hnone : ¬ ∃ names, lookup.Chain a names := fun ⟨_, hchain⟩ => hchain.readable honeA
      simp [Meets, hno, hnone]
  | ok chainA =>
      have hreached : ∀ name, Meets lookup a b name ↔
          lookup.OnWay a name ∨ lookup.OnWay b name := by
        intro name
        simp [Meets, hrootA, hrootB, show ∃ names, lookup.Chain a names from ⟨_, honeA⟩]
      have hmarkA := isInterface_finds honeA hfindsA
      obtain ⟨outcomeB, honeB, hfindsB⟩ := chain_finds hacyclic b
      cases outcomeB with
      | error error => exact ⟨_, (hfindsA.bind hfindsB.bind_error).congr fun name =>
          (hreached name).symm⟩
      | ok chainB =>
          have hmarkB := isInterface_finds honeB hfindsB
          obtain ⟨answer, reached, hrest, hwithin⟩ := compare_finds hmarkA hmarkB
          refine ⟨answer, Finds.congr (hfindsA.bind (hfindsB.bind hrest)) fun name => ?_⟩
          have hsub := hwithin name
          rw [hreached]
          tauto

end Hierarchy

/-- A question about super classes. -/
inductive Query where
  | chain (name : ClassName)
  | isInterface (name : ClassName)
  | common (a b : ClassName)

/-- What is answered to a question about super classes. -/
inductive Answer where
  | chain (names : List ClassName)
  | isInterface (flag : Bool)
  | common (name : ClassName)
  deriving DecidableEq

namespace Query

open Hierarchy Lookup

variable {lookup : Lookup} {session : Session}

/-- Asks a question. -/
def run (lookup : Lookup) : Query → Task Session Answer
  | chain name => .chain <$> Hierarchy.chain lookup name
  | isInterface name => .isInterface <$> Hierarchy.isInterface lookup name
  | common a b => .common <$> Hierarchy.common lookup a b

/-- Asks questions one after the other, also behind those that cannot be answered. -/
def runs (lookup : Lookup) : List Query → Session → List (Except Error Answer) × Session
  | [], session => ([], session)
  | query :: queries, session =>
      let asked := query.run lookup session
      let rest := runs lookup queries asked.2
      (asked.1 :: rest.1, rest.2)

/-- What is answered to a question about which nothing is remembered. -/
def fresh (lookup : Lookup) (query : Query) : Except Error Answer :=
  (query.run lookup {}).1

/-- The way up that a question needs leads over a class. -/
def Reaches (lookup : Lookup) : Query → ClassName → Prop
  | chain name, above => lookup.OnWay name above
  | isInterface name, above => lookup.OnWay name above
  | common a b, above => Meets lookup a b above

/-- **Every question is answered from every memory alike.** -/
theorem run_finds (hacyclic : lookup.Acyclic) (query : Query) :
    Finds lookup (query.run lookup) (query.fresh lookup) (query.Reaches lookup) := by
  have hfinds : ∃ answer, Finds lookup (query.run lookup) answer (query.Reaches lookup) := by
    cases query with
    | chain name =>
        obtain ⟨outcome, _, hchain⟩ := chain_finds hacyclic name
        exact ⟨_, hchain.map _⟩
    | isInterface name =>
        obtain ⟨outcome, hone, hchain⟩ := chain_finds hacyclic name
        cases outcome with
        | error error => exact ⟨_, (isInterface_finds_error hchain).map _⟩
        | ok names => exact ⟨_, (isInterface_finds hone hchain).map _⟩
    | common a b =>
        obtain ⟨answer, hcommon⟩ := common_finds hacyclic a b
        exact ⟨_, hcommon.map _⟩
  obtain ⟨answer, hanswer⟩ := hfinds
  have hfresh : query.fresh lookup = answer := (hanswer {} (recalls_start [])).1
  exact hfresh ▸ hanswer

/-- **The chain of a class** is what is answered, unless the way up meets an entry that cannot be
read. -/
theorem chain_of_fresh (hacyclic : lookup.Acyclic) (name : ClassName) :
    (∃ names, (chain name).fresh lookup = .ok (.chain names) ∧ lookup.Chain name names) ∨
      ∃ error, (chain name).fresh lookup = .error error ∧ lookup.Unreadable name error := by
  obtain ⟨outcome, hone, hfinds⟩ := chain_finds hacyclic name
  have hanswer : (chain name).fresh lookup = outcome.map Answer.chain :=
    (hfinds.map Answer.chain {} (recalls_start [])).1
  cases outcome with
  | ok names => exact .inl ⟨names, hanswer, hone⟩
  | error error => exact .inr ⟨error, hanswer, hone⟩

/-- **Whatever is asked**, the answers are those that would be given to each question alone, and the
memory grows by what the questions reach. -/
theorem runs_spec (hacyclic : lookup.Acyclic) (hsession : Recalls lookup session)
    (queries : List Query) :
    (runs lookup queries session).1 = queries.map (fresh lookup) ∧
      Recalls lookup (runs lookup queries session).2 ∧
      Adds lookup (fun name => ∃ query ∈ queries, query.Reaches lookup name) session
        (runs lookup queries session).2 := by
  induction queries generalizing session with
  | nil => exact ⟨rfl, hsession, .nothing fun name ⟨query, hmem, _⟩ => absurd hmem (by simp)⟩
  | cons query queries ih =>
      obtain ⟨hanswer, hrecalls, hadds⟩ := run_finds hacyclic query session hsession
      obtain ⟨hanswers, hrecalls', hadds'⟩ := ih hrecalls
      refine ⟨?_, hrecalls', (hadds.trans hadds').congr fun name => ?_⟩
      · show (query.run lookup session).1 :: (runs lookup queries (query.run lookup session).2).1 = _
        rw [hanswer, hanswers, List.map_cons]
      · simp

/-- **The memory does not show.**  If no class is its own ancestor, then whatever questions are asked,
one after the other, each gets the answer that it would get if nothing had been asked before.  A chain
leads from its class to the root and has no class twice.  Of a class that nothing is known about there
is one report if a question reaches it, by the first question that does, and none otherwise; nothing
else is reported. -/
theorem runs_transparent (hacyclic : lookup.Acyclic) (journal : Journal) (queries : List Query) :
    (runs lookup queries { journal }).1 = queries.map (fresh lookup) ∧
    (∀ name, (∃ names, (chain name).fresh lookup = .ok (.chain names) ∧
        names.head? = some name ∧ names.getLast? = some ClassName.javaObject ∧ names.Nodup) ∨
      ∃ error, (chain name).fresh lookup = .error error ∧ lookup.Unreadable name error) ∧
    (∃ reports : List (ClassName × ClassName),
      (runs lookup queries { journal }).2.journal = journal ++ reports.map unknownReport ∧
      (reports.map Prod.snd).Nodup ∧
      ∀ above, above ∈ reports.map Prod.snd ↔
        lookup.resolve above = .ok none ∧ ∃ query ∈ queries, query.Reaches lookup above) ∧
    ∀ before query after, queries = before ++ query :: after →
      let asked := (runs lookup before { journal }).2
      ∃ reports : List (ClassName × ClassName),
        (query.run lookup asked).2.journal = asked.journal ++ reports.map unknownReport ∧
        (reports.map Prod.snd).Nodup ∧
        ∀ above, above ∈ reports.map Prod.snd ↔ lookup.resolve above = .ok none ∧
          query.Reaches lookup above ∧ ∀ earlier ∈ before, ¬ earlier.Reaches lookup above := by
  have hstart : Recalls lookup { journal } := recalls_start journal
  have hnothing : ∀ name : ClassName, name ∉ ({ journal } : Session).chains :=
    fun _ => Std.HashMap.not_mem_empty
  obtain ⟨hanswers, _, hadds⟩ := runs_spec hacyclic hstart queries
  refine ⟨hanswers, fun name => ?_, ?_, fun before query after _ => ?_⟩
  · rcases chain_of_fresh hacyclic name with ⟨names, hanswer, hchain⟩ | hunreadable
    · exact .inl ⟨names, hanswer, hchain.head, hchain.last, hchain.nodup hacyclic⟩
    · exact .inr hunreadable
  · obtain ⟨reports, hjournal, hnodup, hmem⟩ := hadds.journal
    refine ⟨reports, hjournal, hnodup, fun above => ?_⟩
    rw [hmem]
    simp [hnothing]
  · obtain ⟨_, hbefore, haddsBefore⟩ := runs_spec hacyclic hstart before
    obtain ⟨_, _, haddsQuery⟩ := run_finds hacyclic query _ hbefore
    obtain ⟨reports, hjournal, hnodup, hmem⟩ := haddsQuery.journal
    refine ⟨reports, hjournal, hnodup, fun above => ?_⟩
    rw [hmem, haddsBefore.chains]
    simp [hnothing]

section Broken

/-- A lookup that knows a class but not its super class. -/
def broken : Lookup :=
  .ofOutlines [{ name := "a/Broken", superClass := some "a/Missing" }]

/-- The only super class that the lookup tells. -/
theorem super_broken {name parent : ClassName} (h : broken.Super name parent) :
    name = "a/Broken" ∧ parent = "a/Missing" := by
  unfold Super superClass? broken at h
  rw [resolve_ofOutlines] at h
  by_cases hname : "a/Broken" = name
  · subst hname
    cases h
    exact ⟨rfl, rfl⟩
  · simp [hname] at h
    cases h

/-- No class that the lookup knows is its own ancestor. -/
theorem acyclic_broken : broken.Acyclic := by
  intro name hcycle
  obtain ⟨first, hfirst, _⟩ := Relation.TransGen.head'_iff.mp hcycle
  obtain ⟨last, _, hlast⟩ := Relation.TransGen.tail'_iff.mp hcycle
  have hlow := (super_broken hfirst).1
  have hhigh := (super_broken hlast).2
  revert hhigh
  rw [hlow]
  decide

/-- Nothing is known of the super class. -/
theorem resolve_missing : broken.resolve "a/Missing" = .ok none := by
  unfold broken
  rw [resolve_ofOutlines]
  rfl

/-- The chain of a class that nothing is known about. -/
theorem chain_missing : broken.Chain "a/Missing" ("a/Missing" :: rootChain) :=
  .top (by decide) (superClass?_of_resolve resolve_missing)

/-- The chain of the class below it. -/
theorem chain_broken : broken.Chain "a/Broken" ("a/Broken" :: "a/Missing" :: rootChain) := by
  refine .up (by decide) ?_ chain_missing
  unfold Super superClass? broken
  rw [resolve_ofOutlines]
  rfl

/-- The only class that a way up leads over and nothing is known about. -/
theorem eq_missing {name above : ClassName} {names : List ClassName}
    (hchain : broken.Chain name names) (hnames : names ⊆ "a/Broken" :: "a/Missing" :: rootChain)
    (hunknown : broken.resolve above = .ok none) (hway : broken.OnWay name above) :
    above = "a/Missing" := by
  obtain ⟨hroot, hmem⟩ := (OnWay.of_chain hchain).mp hway
  have hcases := hnames hmem
  simp only [rootChain, List.mem_cons, List.not_mem_nil, or_false] at hcases
  rcases hcases with rfl | hmissing | hobject
  · unfold broken at hunknown
    rw [resolve_ofOutlines] at hunknown
    cases hunknown
  · exact hmissing
  · exact absurd hobject hroot

/-- A class whose super class is not known is reported once, though two questions meet it. -/
theorem runs_transparent_broken :
    broken.Acyclic ∧
      (runs broken [.chain "a/Broken", .common "a/Missing" "a/Broken"] {}).1 =
        [(Query.chain "a/Broken").fresh broken,
          (Query.common "a/Missing" "a/Broken").fresh broken] ∧
      ∃ requested, (runs broken [.chain "a/Broken", .common "a/Missing" "a/Broken"] {}).2.journal =
        [unknownReport (requested, "a/Missing")] := by
  obtain ⟨hanswers, _, ⟨reports, hjournal, hnodup, hmem⟩, _⟩ :=
    runs_transparent acyclic_broken [] [.chain "a/Broken", .common "a/Missing" "a/Broken"]
  refine ⟨acyclic_broken, hanswers, ?_⟩
  have hwhole : "a/Missing" :: rootChain ⊆ "a/Broken" :: "a/Missing" :: rootChain :=
    List.subset_cons_self _ _
  have hsole : ∀ above, above ∈ reports.map Prod.snd ↔ above ∈ ["a/Missing"] := by
    intro above
    rw [hmem, List.mem_singleton]
    constructor
    · rintro ⟨hunknown, query, hquery, hreaches⟩
      simp only [List.mem_cons, List.not_mem_nil, or_false] at hquery
      rcases hquery with rfl | rfl
      · exact eq_missing chain_broken (List.Subset.refl _) hunknown hreaches
      · rcases hreaches.2.2 with hway | ⟨_, hway⟩
        · exact eq_missing chain_missing hwhole hunknown hway
        · exact eq_missing chain_broken (List.Subset.refl _) hunknown hway
    · rintro rfl
      refine ⟨resolve_missing, .chain "a/Broken", List.mem_cons_self, ?_⟩
      exact (OnWay.of_chain chain_broken).mpr ⟨by decide, by simp⟩
  have hone : reports.map Prod.snd = ["a/Missing"] :=
    List.perm_singleton.mp
      ((List.perm_ext_iff_of_nodup hnodup (List.nodup_singleton _)).mpr hsole)
  obtain ⟨⟨requested, above⟩, hreports, hname⟩ := List.map_eq_singleton_iff.mp hone
  cases hname
  exact ⟨requested, hjournal.trans (by rw [hreports]; rfl)⟩

end Broken

end Query

end Downlevel
