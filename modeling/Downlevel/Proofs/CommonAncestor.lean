import Downlevel.Proofs.Ancestry

/-!
# Where two chains meet

The common super class of two classes is looked for on one chain only: it is the first class there
that stands on the other chain too.  Nothing in the search says that this is the nearest one, or that
it does not matter which of the two chains is gone along.  Both follow from the shape of chains: what
stands behind a class on a chain is the rest of the class's own chain, whatever class the chain
belongs to.  So two chains that share a class share all that stands behind it.

* `Lookup.Chain.of_append` — what stands behind a class on a chain;
* `Lookup.Chain.nearest` — the first class on a chain that stands on another one too;
* `Hierarchy.common_found` — what is found as the common super
  class of two classes;
* `Hierarchy.common_nearest` — it is the nearest common ancestor, in either order and from every
  memory.
-/

namespace Downlevel

namespace Lookup

variable {lookup : Lookup} {name above a b : ClassName} {names front back : List ClassName}
  {chainA chainB : List ClassName}

/-- Of a class other than the root it is known whether it is an interface. -/
theorem knowsInterface_iff (hroot : name ≠ ClassName.javaObject) :
    lookup.knowsInterface name = true ↔ lookup.IsInterface name := by
  unfold knowsInterface IsInterface
  cases hfound : lookup.resolve name with
  | error error => simp
  | ok found =>
      cases found with
      | none => simp
      | some outline => simp [hroot]

/-- Where every name is answered, no way up meets an entry that cannot be read. -/
theorem Answers.not_unreadable {error : Error} (answers : lookup.Answers)
    (h : lookup.Unreadable name error) : False := by
  induction h with
  | @here current _ _ herror =>
      obtain ⟨found, hfound⟩ := answers current
      unfold superClass? at herror
      rw [hfound] at herror
      cases herror
  | up _ _ _ ih => exact ih

/-- **Behind a class on a chain stands the rest of the class's own chain.** -/
theorem Chain.of_append (h : lookup.Chain name names) (hsplit : names = front ++ above :: back) :
    lookup.Chain above (above :: back) := by
  have hmem : above ∈ names := by simp [hsplit]
  induction h generalizing front with
  | root =>
      have hfront : front = [] := by
        cases front with
        | nil => rfl
        | cons first rest => simp [Hierarchy.rootChain] at hsplit
      subst hfront
      cases hsplit
      exact .root
  | top hroot htop =>
      cases front with
      | nil =>
          cases hsplit
          exact .top hroot htop
      | cons first rest =>
          obtain ⟨rfl, hrest⟩ := List.cons.inj hsplit
          cases rest with
          | nil =>
              cases hrest
              exact .root
          | cons _ _ => simp [Hierarchy.rootChain] at hrest
  | up hroot hsuper hup ih =>
      cases front with
      | nil =>
          cases hsplit
          exact .up hroot hsuper hup
      | cons first rest =>
          obtain ⟨rfl, hrest⟩ := List.cons.inj hsplit
          exact ih hrest (by simp [hrest])

/-- The root stands on every chain. -/
theorem Chain.root_mem (h : lookup.Chain name names) : ClassName.javaObject ∈ names :=
  List.mem_of_getLast? h.last

/-- Only the root stands on the chain of the root. -/
theorem Chain.eq_root (h : lookup.Chain ClassName.javaObject names) (hmem : above ∈ names) :
    above = ClassName.javaObject := by
  cases h with
  | root => exact List.mem_singleton.mp hmem
  | top hroot => exact absurd rfl hroot
  | up hroot => exact absurd rfl hroot

/-- If no class is its own ancestor, two classes do not stand on each other's chains. -/
theorem Chain.antisymm (hacyclic : lookup.Acyclic) (ha : lookup.Chain a chainA)
    (hb : lookup.Chain b chainB) (hmemA : b ∈ chainA) (hmemB : a ∈ chainB) : a = b := by
  rcases ha.ancestor hmemA with rfl | hup
  · exact hb.eq_root hmemB
  rcases hb.ancestor hmemB with rfl | hdown
  · exact (ha.eq_root hmemA).symm
  · rcases Relation.reflTransGen_iff_eq_or_transGen.mp hup with heq | hcycle
    · exact heq.symm
    · exact absurd (hcycle.trans_left hdown) (hacyclic a)

/-- A class stands on two chains, and whatever else stands on both stands on the chain of that
class. -/
structure Nearest (lookup : Lookup) (chainA chainB : List ClassName) (meeting : ClassName) :
    Prop where
  left : meeting ∈ chainA
  right : meeting ∈ chainB
  least : ∃ names, lookup.Chain meeting names ∧ ∀ above ∈ chainA, above ∈ chainB → above ∈ names

/-- There is only one nearest class, in whatever order two chains are taken. -/
theorem Nearest.unique {meeting other : ClassName} (hacyclic : lookup.Acyclic)
    (h : lookup.Nearest chainA chainB meeting) (hother : lookup.Nearest chainB chainA other) :
    meeting = other := by
  obtain ⟨names, hchain, hall⟩ := h.least
  obtain ⟨others, hchain', hall'⟩ := hother.least
  have hup : other ∈ names := hall other hother.right hother.left
  have hdown : meeting ∈ others := hall' meeting h.right h.left
  exact hchain.antisymm hacyclic hchain' hup hdown

/-- **The first class on a chain that stands on another one too is the nearest one.**  There is one,
as both chains end with the root. -/
theorem Chain.nearest (ha : lookup.Chain a chainA) (hb : lookup.Chain b chainB) :
    lookup.Nearest chainA chainB
      ((chainA.find? fun name => chainB.contains name).getD ClassName.javaObject) := by
  have hexists : (chainA.find? fun name => chainB.contains name).isSome := by
    rw [List.find?_isSome]
    exact ⟨ClassName.javaObject, ha.root_mem, by simpa using hb.root_mem⟩
  obtain ⟨meeting, hfound⟩ := Option.isSome_iff_exists.mp hexists
  rw [hfound, Option.getD_some]
  obtain ⟨hmeets, front, back, hsplit, hbefore⟩ := List.find?_eq_some_iff_append.mp hfound
  refine ⟨List.mem_of_find?_eq_some hfound, by simpa using hmeets, _, ha.of_append hsplit, ?_⟩
  intro above hmemA hmemB
  -- Nothing in front of the meeting stands on the other chain.
  rw [hsplit, List.mem_append] at hmemA
  refine hmemA.resolve_left fun hfront => ?_
  simpa [hmemB] using hbefore above hfront

end Lookup

namespace Hierarchy

open Lookup

variable {lookup : Lookup} {a b name : ClassName} {chainA chainB names : List ClassName}

/-- The root is all that two classes have in common if one of them is the root or an interface. -/
def OnlyRoot (lookup : Lookup) (a b : ClassName) : Prop :=
  (a = ClassName.javaObject ∨ lookup.IsInterface a) ∨
    b = ClassName.javaObject ∨ lookup.IsInterface b

/-- The order of two classes does not matter for whether they have but the root in common. -/
theorem OnlyRoot.symm (h : OnlyRoot lookup a b) : OnlyRoot lookup b a :=
  Or.symm h

/-- Where every name is answered, the chain that the lookup tells is found from every memory. -/
theorem chain_answered (answers : lookup.Answers) (hacyclic : lookup.Acyclic) (name : ClassName) :
    ∃ names, lookup.Chain name names ∧
      Finds lookup (chain lookup name) (.ok names) (lookup.OnWay name) := by
  obtain ⟨outcome, hone, hfinds⟩ := chain_finds hacyclic name
  cases outcome with
  | error error => exact (answers.not_unreadable hone).elim
  | ok names => exact ⟨names, hone, hfinds⟩

/-- A chain that is found is the one that the lookup tells. -/
theorem chain_of_run (answers : lookup.Answers) (hacyclic : lookup.Acyclic) {session : Session}
    (hsession : Recalls lookup session) (h : lookup.Chain name names) :
    (chain lookup name session).1 = .ok names := by
  obtain ⟨others, hothers, hfinds⟩ := chain_answered answers hacyclic name
  rw [(hfinds session hsession).1, h.unique hothers]

/-- Once two chains are known, it is asked of both classes whether they are interfaces. -/
theorem flags_find {flagA flagB : Bool} {result : ClassName} {ReachedA ReachedB : ClassName → Prop}
    (hmarkA : Finds lookup (isInterface lookup a) (.ok flagA) ReachedA)
    (hmarkB : Finds lookup (isInterface lookup b) (.ok flagB) ReachedB) :
    ∃ Reached, Finds lookup (do
        if ← isInterface lookup a then return ClassName.javaObject
        else if ← isInterface lookup b then return ClassName.javaObject
        else return result)
      (.ok (if flagA || flagB then ClassName.javaObject else result)) Reached := by
  cases flagA with
  | true => exact ⟨_, hmarkA.bind (finds_pure _)⟩
  | false =>
      have hrest : ∃ Reached, Finds lookup (do
          if ← isInterface lookup b then return ClassName.javaObject else return result)
          (.ok (if flagB then ClassName.javaObject else result)) Reached := by
        cases flagB with
        | true => exact ⟨_, hmarkB.bind (finds_pure _)⟩
        | false => exact ⟨_, hmarkB.bind (finds_pure _)⟩
      obtain ⟨_, hrest⟩ := hrest
      exact ⟨_, hmarkA.bind hrest⟩

/-- **What is found as the common super class of two classes** other than the root: the root if one
of them is an interface, and otherwise the first class on one chain that stands on the other one. -/
theorem common_found (answers : lookup.Answers) (hacyclic : lookup.Acyclic)
    (hrootA : a ≠ ClassName.javaObject) (hrootB : b ≠ ClassName.javaObject)
    (hchainA : lookup.Chain a chainA) (hchainB : lookup.Chain b chainB) :
    ∃ Reached, Finds lookup (common lookup a b)
      (.ok (if lookup.knowsInterface a || lookup.knowsInterface b then ClassName.javaObject
        else (chainA.find? fun name => chainB.contains name).getD ClassName.javaObject)) Reached := by
  obtain ⟨foundA, hfoundA, hfindsA⟩ := chain_answered answers hacyclic a
  obtain ⟨foundB, hfoundB, hfindsB⟩ := chain_answered answers hacyclic b
  cases hchainA.unique hfoundA
  cases hchainB.unique hfoundB
  have hmarkA := isInterface_finds hchainA hfindsA
  have hmarkB := isInterface_finds hchainB hfindsB
  obtain ⟨_, hflags⟩ := flags_find hmarkA hmarkB
  unfold common
  rw [if_neg (by simp [hrootA, hrootB])]
  exact ⟨_, hfindsA.bind (hfindsB.bind hflags)⟩

/-- **Only the root is found** for the root and for interfaces. -/
theorem common_finds_root (answers : lookup.Answers) (hacyclic : lookup.Acyclic)
    (h : OnlyRoot lookup a b) :
    ∃ Reached, Finds lookup (common lookup a b) (.ok ClassName.javaObject) Reached := by
  by_cases hroot : a = ClassName.javaObject ∨ b = ClassName.javaObject
  · unfold common
    rw [if_pos (by simpa using hroot)]
    exact ⟨_, finds_pure _⟩
  obtain ⟨hrootA, hrootB⟩ := not_or.mp hroot
  obtain ⟨chainA, hchainA, _⟩ := chain_answered answers hacyclic a
  obtain ⟨chainB, hchainB, _⟩ := chain_answered answers hacyclic b
  have hmarked : (lookup.knowsInterface a || lookup.knowsInterface b) = true := by
    rw [Bool.or_eq_true, knowsInterface_iff hrootA, knowsInterface_iff hrootB]
    exact h.imp (fun hone => hone.resolve_left hrootA) (fun hone => hone.resolve_left hrootB)
  have hfound := common_found answers hacyclic hrootA hrootB hchainA hchainB
  rwa [hmarked, if_pos rfl] at hfound

/-- **The nearest class on both chains is found** for other classes. -/
theorem common_finds_nearest (answers : lookup.Answers) (hacyclic : lookup.Acyclic)
    (h : ¬ OnlyRoot lookup a b) (hchainA : lookup.Chain a chainA) (hchainB : lookup.Chain b chainB) :
    ∃ meeting, lookup.Nearest chainA chainB meeting ∧
      ∃ Reached, Finds lookup (common lookup a b) (.ok meeting) Reached := by
  obtain ⟨honeA, honeB⟩ := not_or.mp h
  obtain ⟨hrootA, hplainA⟩ := not_or.mp honeA
  obtain ⟨hrootB, hplainB⟩ := not_or.mp honeB
  have hmarked : (lookup.knowsInterface a || lookup.knowsInterface b) = false := by
    rw [Bool.eq_false_iff, ne_eq, Bool.or_eq_true, knowsInterface_iff hrootA,
      knowsInterface_iff hrootB]
    exact not_or.mpr ⟨hplainA, hplainB⟩
  have hfound := common_found answers hacyclic hrootA hrootB hchainA hchainB
  rw [hmarked, if_neg Bool.false_ne_true] at hfound
  exact ⟨_, hchainA.nearest hchainB, hfound⟩

/-- **The common super class of two classes is their nearest common ancestor.**  If every name is
answered and no class is its own ancestor, then for any two classes there is one answer, whatever was
asked before and in whatever order the two are given.  It is the root if one of them is the root or
an interface.  Otherwise it stands on the chains of both, and whatever stands on both stands on its
own chain. -/
theorem common_nearest (answers : lookup.Answers) (hacyclic : lookup.Acyclic) (a b : ClassName) :
    ∃ meeting, ∀ (journal : Journal) (earlier : List Query),
      let asked := (Query.runs lookup earlier { journal }).2
      (common lookup a b asked).1 = .ok meeting ∧ (common lookup b a asked).1 = .ok meeting ∧
      (OnlyRoot lookup a b → meeting = ClassName.javaObject) ∧
      (¬ OnlyRoot lookup a b → ∃ chainA chainB chainMeeting,
        (chain lookup a asked).1 = .ok chainA ∧ (chain lookup b asked).1 = .ok chainB ∧
        (chain lookup meeting asked).1 = .ok chainMeeting ∧ meeting ∈ chainA ∧ meeting ∈ chainB ∧
        ∀ above ∈ chainA, above ∈ chainB → above ∈ chainMeeting) := by
  have recalled (journal : Journal) (earlier : List Query) :
      Recalls lookup (Query.runs lookup earlier { journal }).2 :=
    (Query.runs_spec hacyclic (recalls_start journal) earlier).2.1
  by_cases honly : OnlyRoot lookup a b
  · obtain ⟨_, hfinds⟩ := common_finds_root answers hacyclic honly
    obtain ⟨_, hback⟩ := common_finds_root answers hacyclic honly.symm
    refine ⟨_, fun journal earlier => ⟨?_, ?_, fun _ => rfl, absurd honly⟩⟩
    · exact (hfinds _ (recalled journal earlier)).1
    · exact (hback _ (recalled journal earlier)).1
  · obtain ⟨chainA, hchainA, _⟩ := chain_answered answers hacyclic a
    obtain ⟨chainB, hchainB, _⟩ := chain_answered answers hacyclic b
    obtain ⟨meeting, hnearest, _, hfinds⟩ :=
      common_finds_nearest answers hacyclic honly hchainA hchainB
    obtain ⟨other, hnearest', _, hback⟩ :=
      common_finds_nearest answers hacyclic (fun h => honly h.symm) hchainB hchainA
    cases hnearest.unique hacyclic hnearest'
    obtain ⟨names, hnames, hleast⟩ := hnearest.least
    refine ⟨meeting, fun journal earlier => ?_⟩
    have hsession := recalled journal earlier
    refine ⟨(hfinds _ hsession).1, (hback _ hsession).1, fun h => absurd h honly, fun _ => ?_⟩
    exact ⟨chainA, chainB, names, chain_of_run answers hacyclic hsession hchainA,
      chain_of_run answers hacyclic hsession hchainB,
      chain_of_run answers hacyclic hsession hnames, hnearest.left, hnearest.right, hleast⟩

section Shapes

/-- The outlines of two classes below a third one, one of them by way of another class. -/
def shapeOutlines : List ClassOutline :=
  [{ name := "a/Shape", superClass := some ClassName.javaObject },
    { name := "a/Circle", superClass := some "a/Shape" },
    { name := "a/Square", superClass := some "a/Shape" },
    { name := "a/BigSquare", superClass := some "a/Square" }]

/-- The lookup in these outlines. -/
def shapes : Lookup :=
  .ofOutlines shapeOutlines

/-- How far a class is from the root. -/
def shapeHeight (name : ClassName) : Nat :=
  if name = "a/BigSquare" then 3
  else if name = "a/Square" ∨ name = "a/Circle" then 2
  else if name = "a/Shape" then 1
  else 0

/-- A class of the lookup has the super class that its outline tells. -/
theorem super_shapes {name parent : ClassName}
    (h : ((shapeOutlines.reverse.find? fun cls => cls.name = name).bind ClassOutline.superClass) =
      some parent) : shapes.Super name parent := by
  unfold Super superClass? shapes
  rw [resolve_ofOutlines]
  exact congrArg Except.ok h

/-- Every step up leads nearer to the root. -/
theorem height_of_super {name parent : ClassName} (h : shapes.Super name parent) :
    shapeHeight parent < shapeHeight name := by
  unfold Super superClass? at h
  cases hfound : shapes.resolve name with
  | error error =>
      rw [hfound] at h
      cases h
  | ok found =>
      rw [hfound] at h
      obtain ⟨outline, rfl, hsuper⟩ := Option.bind_eq_some_iff.mp (Except.ok.inj h)
      obtain ⟨hmem, rfl⟩ := mem_of_resolve_ofOutlines hfound
      simp only [shapeOutlines, List.mem_cons, List.not_mem_nil, or_false] at hmem
      rcases hmem with rfl | rfl | rfl | rfl <;> (cases hsuper; decide)

/-- No class of the lookup is its own ancestor. -/
theorem acyclic_shapes : shapes.Acyclic := by
  intro name hcycle
  have hstep : ∀ below above, shapes.Super below above → shapeHeight below > shapeHeight above :=
    fun _ _ => height_of_super
  have hlower : Relation.TransGen (· > ·) (shapeHeight name) (shapeHeight name) :=
    hcycle.lift shapeHeight hstep
  rw [Relation.transGen_eq_self] at hlower
  exact Nat.lt_irrefl _ hlower

/-- No class of the lookup is an interface. -/
theorem not_isInterface_shapes (name : ClassName) : ¬ shapes.IsInterface name := by
  rintro ⟨outline, hfound, hinterface⟩
  have hmem := (mem_of_resolve_ofOutlines hfound).1
  simp only [shapeOutlines, List.mem_cons, List.not_mem_nil, or_false] at hmem
  rcases hmem with rfl | rfl | rfl | rfl <;> cases hinterface

/-- **Two classes meet in the class above them**, whatever was asked before. -/
theorem common_nearest_shapes :
    shapes.Answers ∧ shapes.Acyclic ∧ ∀ (journal : Journal) (earlier : List Query),
      (common shapes "a/BigSquare" "a/Circle" (Query.runs shapes earlier { journal }).2).1 =
        .ok "a/Shape" := by
  have answers : shapes.Answers := answers_ofOutlines shapeOutlines
  have hshape : shapes.Chain "a/Shape" ["a/Shape", ClassName.javaObject] :=
    .up (by decide) (super_shapes rfl) .root
  have hcircle : shapes.Chain "a/Circle" ["a/Circle", "a/Shape", ClassName.javaObject] :=
    .up (by decide) (super_shapes rfl) hshape
  have hsquare : shapes.Chain "a/Square" ["a/Square", "a/Shape", ClassName.javaObject] :=
    .up (by decide) (super_shapes rfl) hshape
  have hbig : shapes.Chain "a/BigSquare"
      ["a/BigSquare", "a/Square", "a/Shape", ClassName.javaObject] :=
    .up (by decide) (super_shapes rfl) hsquare
  have honly : ¬ OnlyRoot shapes "a/BigSquare" "a/Circle" := by
    rintro ((heq | hone) | heq | hone)
    · exact absurd heq (by decide)
    · exact not_isInterface_shapes _ hone
    · exact absurd heq (by decide)
    · exact not_isInterface_shapes _ hone
  obtain ⟨meeting, hmeets⟩ :=
    common_nearest answers acyclic_shapes "a/BigSquare" "a/Circle"
  refine ⟨answers, acyclic_shapes, fun journal earlier => ?_⟩
  obtain ⟨hfound, _, _, hnearest⟩ := hmeets journal earlier
  obtain ⟨chainA, chainB, names, hchainA, hchainB, hnames, hmemA, hmemB, hleast⟩ := hnearest honly
  have hsession := (Query.runs_spec acyclic_shapes (recalls_start journal) earlier).2.1
  cases hchainA.symm.trans (chain_of_run answers acyclic_shapes hsession hbig)
  cases hchainB.symm.trans (chain_of_run answers acyclic_shapes hsession hcircle)
  have hcases : meeting = "a/Shape" ∨ meeting = ClassName.javaObject := by
    simp only [List.mem_cons, List.not_mem_nil, or_false] at hmemA hmemB
    rcases hmemA with rfl | rfl | hcase
    · exact absurd hmemB (by decide)
    · exact absurd hmemB (by decide)
    · exact hcase
  rcases hcases with rfl | rfl
  · exact hfound
  · cases hnames.symm.trans (chain_of_run answers acyclic_shapes hsession .root)
    exact absurd (hleast "a/Shape" (by decide) (by decide)) (by decide)

end Shapes

end Hierarchy

end Downlevel
