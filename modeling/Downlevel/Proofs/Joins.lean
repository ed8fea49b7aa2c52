import Downlevel.Proofs.Covering

/-!
# Merging types is a join

Merging two types finds a type that covers both.  It is the least one: whatever covers both types
covers what they are merged into.  Since types that cover each other are the same, it does not
matter in which order types are merged, or how they are grouped, so the frames of an instruction do
not depend on the order in which ways of execution reach it.

For names of array classes this needs a look at what can cover an array: itself, the root of all
classes, or an array in its usual spelling of what covers the elements.  So above two different
classes of which one is an array there is only the root, or an array of what covers the elements of
both; arrays of primitive values have no elements that a class could cover.

* `Frame.NameCovers.of_apart` — what covers an array and another class;
* `Frame.NameCovers.least`, `Frame.TypeCovers.least` — what covers both covers the merged one;
* `Frame.NameCovers.antisymm`, `Frame.TypeCovers.antisymm` — covering is an order;
* `Frame.mergeType_join` — **merging types is a join**.
-/

namespace Downlevel.Frame

variable {σ : Type} {supers : SuperClasses σ} {join : ClassName → ClassName → ClassName}

/-! ## Names -/

section Names

variable {above a b element : List Char}

/-- The name of an array tells the class of its elements. -/
theorem arrayOf_inj {first second : ClassName}
    (h : (ClassName.arrayOf first).toList = (ClassName.arrayOf second).toList) : first = second := by
  obtain ⟨element, hchars, hname⟩ := elementClass?_arrayOf first
  obtain ⟨element', hchars', hname'⟩ := elementClass?_arrayOf second
  have helement : element = element' := (List.cons.inj (hchars.symm.trans (h.trans hchars'))).2
  rw [helement, hname'] at hname
  exact String.toList_inj.mp (Option.some.inj hname).symm

/-- What covers a class that is no array. -/
theorem nameCovers_iff_of_plain (hjoins : supers.Joins join) (hb : Plain b) :
    NameCovers join a b ↔
      Plain a ∧ (join (String.ofList a) (String.ofList b)).toList = a := by
  constructor
  · intro h
    cases h with
    | self =>
        rw [hjoins.self (isArray_of_plain hb), String.toList_ofList]
        exact ⟨hb, rfl⟩
    | plain ha _ h => exact ⟨ha, h⟩
    | root element => exact absurd rfl (hb element)
    | array => exact absurd rfl (hb _)
  · rintro ⟨ha, h⟩
    exact .plain ha hb h

/-- An array of a class covers only arrays, and those of what the class covers. -/
theorem NameCovers.of_arrayOf {top : ClassName}
    (h : NameCovers join (ClassName.arrayOf top).toList a) :
    ∃ element name, a = '[' :: element ∧ elementClass? element = some name ∧
      NameCovers join top.toList name := by
  generalize habove : (ClassName.arrayOf top).toList = above at h
  cases h with
  | self =>
      obtain ⟨element, hchars, hname⟩ := elementClass?_arrayOf top
      exact ⟨element, _, habove.symm.trans hchars, hname, .self _⟩
  | plain hplain => exact absurd (habove ▸ hplain) not_plain_arrayOf
  | root => exact absurd (habove ▸ plain_javaObject) not_plain_arrayOf
  | array hname h =>
      cases arrayOf_inj habove
      exact ⟨_, _, rfl, hname, h⟩

/-- A class that covers an array and is none is the root. -/
theorem NameCovers.eq_root_of_plain (habove : Plain above)
    (h : NameCovers join above ('[' :: element)) : above = ClassName.javaObject.toList := by
  cases h with
  | self => exact absurd rfl (habove element)
  | plain _ hplain => exact absurd rfl (hplain element)
  | root => rfl
  | array => exact absurd habove not_plain_arrayOf

/-- A class that covers a different one is no array, or spelled in the usual way. -/
theorem NameCovers.plain_or_arrayOf (h : NameCovers join above a) (hne : above ≠ a) :
    Plain above ∨ ∃ top, above = (ClassName.arrayOf top).toList := by
  cases h with
  | self => exact absurd rfl hne
  | plain habove => exact .inl habove
  | root => exact .inl plain_javaObject
  | @array top => exact .inr ⟨top, rfl⟩

/-- **What covers an array and another class** is the root, or an array of what covers the elements
of both. -/
theorem NameCovers.of_apart (hne : '[' :: element ≠ b) (ha : NameCovers join above ('[' :: element))
    (hb : NameCovers join above b) :
    above = ClassName.javaObject.toList ∨
      ∃ top elementB nameA nameB, above = (ClassName.arrayOf top).toList ∧ b = '[' :: elementB ∧
        elementClass? element = some nameA ∧ elementClass? elementB = some nameB ∧
        NameCovers join top.toList nameA ∧ NameCovers join top.toList nameB := by
  have husual : Plain above ∨ ∃ top, above = (ClassName.arrayOf top).toList := by
    by_cases hsame : above = '[' :: element
    · exact hb.plain_or_arrayOf (hsame ▸ hne)
    · exact ha.plain_or_arrayOf hsame
  rcases husual with hplain | ⟨top, rfl⟩
  · exact .inl (ha.eq_root_of_plain hplain)
  · obtain ⟨_, nameA, hchars, hnameA, hcoversA⟩ := ha.of_arrayOf
    cases hchars
    obtain ⟨elementB, nameB, rfl, hnameB, hcoversB⟩ := hb.of_arrayOf
    exact .inr ⟨top, elementB, nameA, nameB, rfl, rfl, hnameA, hnameB, hcoversA, hcoversB⟩

/-- An array covers another one as its elements cover those of the other. -/
theorem NameCovers.arrayOf {top name : ClassName} (h : NameCovers join top.toList name.toList) :
    NameCovers join (ClassName.arrayOf top).toList (ClassName.arrayOf name).toList := by
  obtain ⟨element, hchars, hname⟩ := elementClass?_arrayOf name
  exact hchars ▸ .array hname h

/-- **What covers two classes covers what they are merged into.** -/
theorem NameCovers.least (hjoins : supers.Joins join) (ha : NameCovers join above a)
    (hb : NameCovers join above b) : NameCovers join above (joinNames join a b) := by
  fun_induction joinNames join a b generalizing above with
  | case1 => exact ha
  | case2 elementA elementB nameA nameB hA hB hne ih =>
      rcases NameCovers.of_apart hne ha hb with rfl | ⟨top, _, _, _, rfl, hchars, hA', hB', h⟩
      · exact .top hjoins _
      · cases hchars
        cases hA.symm.trans hA'
        cases hB.symm.trans hB'
        have hleast := ih h.1 h.2
        rw [← String.toList_ofList (l := joinNames join nameA nameB)] at hleast
        exact hleast.arrayOf
  | case3 elementA elementB hnone hne =>
      rcases NameCovers.of_apart hne ha hb with rfl | ⟨_, _, nameA, nameB, _, hchars, hA, hB, _⟩
      · exact .self _
      · cases hchars
        exact absurd hB (hnone nameA nameB hA)
  | case4 b elementA hplain hne =>
      rcases NameCovers.of_apart hne ha hb with rfl | ⟨_, elementB, _, _, _, hchars, _⟩
      · exact .self _
      · exact absurd hchars (hplain elementB)
  | case5 a elementB hplain hne =>
      rcases NameCovers.of_apart (Ne.symm hne) hb ha with rfl | ⟨_, elementA, _, _, _, hchars, _⟩
      · exact .self _
      · exact absurd hchars (hplain elementA)
  | case6 a b _ hplainA hplainB =>
      obtain ⟨habove, hjoinA⟩ := (nameCovers_iff_of_plain hjoins hplainA).mp ha
      obtain ⟨-, hjoinB⟩ := (nameCovers_iff_of_plain hjoins hplainB).mp hb
      have hA := isArray_of_plain hplainA
      have hB := isArray_of_plain hplainB
      refine .plain habove (plain_join hjoins hplainA hplainB) ?_
      have hupper := congrArg String.ofList hjoinA
      rw [String.ofList_toList] at hupper
      rw [String.ofList_toList, ← hjoins.assoc (isArray_of_plain habove) hA hB, hupper, hjoinB]

/-- Of two classes any may come first. -/
theorem joinNames_comm (hjoins : supers.Joins join) (a b : List Char) :
    joinNames join a b = joinNames join b a := by
  fun_induction joinNames join a b with
  | case1 => rw [joinNames_self]
  | case2 elementA elementB nameA nameB hA hB hne ih =>
      rw [joinNames_array hB hA (Ne.symm hne), ih]
  | case3 elementA elementB hnone hne =>
      refine (joinNames_apart (Ne.symm hne) (fun hplain => hplain.1 _ rfl) ?_).symm
      intro _ _ nameB nameA hB hA hnameB hnameA
      cases hA
      cases hB
      exact hnone nameA nameB hnameA hnameB
  | case4 b element hplain hne =>
      exact (joinNames_apart (Ne.symm hne) (fun h => h.2 _ rfl)
        fun _ _ _ _ hb _ _ _ => hplain _ hb).symm
  | case5 a element hplain hne =>
      exact (joinNames_apart (Ne.symm hne) (fun h => h.1 _ rfl)
        fun _ _ _ _ _ ha _ _ => hplain _ ha).symm
  | case6 a b hne hplainA hplainB =>
      rw [joinNames_plain hplainB hplainA (Ne.symm hne),
        hjoins.comm (isArray_of_plain hplainA) (isArray_of_plain hplainB)]

/-- **Classes that cover each other are the same.** -/
theorem NameCovers.antisymm (hjoins : supers.Joins join) (h : NameCovers join a b)
    (h' : NameCovers join b a) : a = b :=
  calc
    a = joinNames join a b := h.joinNames_eq.symm
    _ = joinNames join b a := joinNames_comm hjoins a b
    _ = b := h'.joinNames_eq

/-- An array of primitive values has no elements of a class. -/
theorem elementClass?_primitive {base : BaseType} (h : ∀ name, base ≠ .object name) :
    elementClass? base.write.toList = none := by
  cases base with
  | object name => exact absurd rfl (h name)
  | _ => rfl

end Names

/-! ## Types -/

section Types

variable {above a b c : VType}

/-- **What covers two types covers what they are merged into.** -/
theorem TypeCovers.least (hjoins : supers.Joins join) (ha : TypeCovers join above a)
    (hb : TypeCovers join above b) : TypeCovers join above (joinType join a b) := by
  unfold joinType
  split
  next => exact ha
  next hne =>
    split
    next => exact hb
    next => exact ha
    next nameA nameB =>
      cases ha with
      | top => exact .top _
      | self =>
          cases hb with
          | self => exact absurd rfl hne
          | object hnames =>
              refine .object ?_
              rw [String.toList_ofList]
              exact (NameCovers.self _).least hjoins hnames
      | @object top _ hnames =>
          have hnames' : NameCovers join top.toList nameB.toList := by
            cases hb with
            | self => exact .self _
            | object hnames' => exact hnames'
          refine .object ?_
          rw [String.toList_ofList]
          exact hnames.least hjoins hnames'
    next hnull hnull' hobjects =>
      cases ha with
      | top => exact .top _
      | self =>
          cases hb with
          | self => exact absurd rfl hne
          | top => exact .top _
          | null name => exact (hnull' name rfl rfl).elim
          | object => exact (hobjects _ _ rfl rfl).elim
      | null name =>
          cases hb with
          | self => exact (hnull name rfl rfl).elim
          | null => exact absurd rfl hne
          | object => exact (hnull _ rfl rfl).elim
      | object =>
          cases hb with
          | self => exact (hobjects _ _ rfl rfl).elim
          | null => exact (hnull' _ rfl rfl).elim
          | object => exact (hobjects _ _ rfl rfl).elim

/-- **Types that cover each other are the same.** -/
theorem TypeCovers.antisymm (hjoins : supers.Joins join) (h : TypeCovers join a b)
    (h' : TypeCovers join b a) : a = b := by
  cases h with
  | self => rfl
  | top => cases h' <;> rfl
  | null => cases h'
  | object hnames =>
      cases h' with
      | self => rfl
      | object hnames' =>
          exact congrArg VType.object (String.toList_inj.mp (hnames.antisymm hjoins hnames'))

/-- Of two types any may come first. -/
theorem joinType_comm (hjoins : supers.Joins join) (a b : VType) :
    joinType join a b = joinType join b a := by
  obtain ⟨ha, hb⟩ := joinType_covers hjoins a b
  obtain ⟨hb', ha'⟩ := joinType_covers hjoins b a
  exact (hb.least hjoins ha).antisymm hjoins (ha'.least hjoins hb')

/-- Of three types any two may be merged first. -/
theorem joinType_assoc (hjoins : supers.Joins join) (a b c : VType) :
    joinType join (joinType join a b) c = joinType join a (joinType join b c) := by
  obtain ⟨hleft, hc⟩ := joinType_covers hjoins (joinType join a b) c
  obtain ⟨ha', hright⟩ := joinType_covers hjoins a (joinType join b c)
  obtain ⟨ha, hb⟩ := joinType_covers hjoins a b
  obtain ⟨hb', hc'⟩ := joinType_covers hjoins b c
  refine TypeCovers.antisymm hjoins ?_ ?_
  · exact (hleft.trans hjoins ha).least hjoins ((hleft.trans hjoins hb).least hjoins hc)
  · exact (ha'.least hjoins (hright.trans hjoins hb')).least hjoins (hright.trans hjoins hc')

/-- An array of primitive values has only the root in common with other classes. -/
theorem joinType_primitive {base : BaseType} (hbase : ∀ name, base ≠ .object name)
    {other : ClassName} (hne : (JavaType.mk 1 base).write ≠ other) :
    joinType join (.object (JavaType.mk 1 base).write) (.object other) =
      .object ClassName.javaObject := by
  have hchars : (JavaType.mk 1 base).write.toList = '[' :: base.write.toList := by
    simp [JavaType.write]
  have hroot : joinNames join (JavaType.mk 1 base).write.toList other.toList =
      ClassName.javaObject.toList := by
    refine joinNames_apart (fun h => hne (String.toList_inj.mp h)) (fun h => ?_) ?_
    · exact h.1 _ hchars
    · intro elementA _ _ _ hA _ hname _
      cases hchars.symm.trans hA
      rw [elementClass?_primitive hbase] at hname
      cases hname
  unfold joinType
  rw [if_neg fun h => hne (VType.object.inj h)]
  show VType.object _ = _
  rw [hroot, String.ofList_toList]

/-- **Merging types is a join**, if any two classes that are no arrays have one: for every two types
it finds a type, which only depends on the two and not on what was asked for before.  Any of the two
may come first; of three any two may be merged first; a type merged with itself stays as it is, and
what cannot be used stays unusable.  An array of primitive values has only the root of all classes
in common with other arrays, and with other classes. -/
theorem mergeType_join (hjoins : supers.Joins join) :
    ∃ merged : VType → VType → VType,
      (∀ a b state, ∃ state', mergeType supers a b state = (.ok (merged a b), state')) ∧
      (∀ a b, merged a b = merged b a) ∧
      (∀ a b c, merged (merged a b) c = merged a (merged b c)) ∧
      (∀ a, merged a a = a) ∧ (∀ a, merged .top a = .top ∧ merged a .top = .top) ∧
      ∀ (base : BaseType) (other : ClassName), (∀ name, base ≠ .object name) →
        (JavaType.mk 1 base).write ≠ other →
        merged (.object (JavaType.mk 1 base).write) (.object other) =
            .object ClassName.javaObject ∧
          merged (.object other) (.object (JavaType.mk 1 base).write) =
            .object ClassName.javaObject := by
  have htop : ∀ a, joinType join .top a = .top := fun a => (TypeCovers.top a).joinType_eq
  refine ⟨joinType join, mergeType_run hjoins, joinType_comm hjoins, joinType_assoc hjoins,
    fun a => (TypeCovers.self a).joinType_eq, fun a => ⟨htop a, ?_⟩, ?_⟩
  · rw [joinType_comm hjoins, htop]
  · intro base other hbase hne
    have hroot : joinType join (.object (JavaType.mk 1 base).write) (.object other) =
        .object ClassName.javaObject := joinType_primitive hbase hne
    exact ⟨hroot, by rw [joinType_comm hjoins, hroot]⟩

/-- If nothing is known of classes but their root, arrays of numbers and arrays of such arrays have
only the root in common, whichever comes first, and before or after null is merged in. -/
theorem mergeType_join_objectOnly :
    (SuperClasses.objectOnly Unit).Joins (fun a b => if a = b then a else ClassName.javaObject) ∧
      ∃ merged : VType → VType → VType,
        (∀ a b state, ∃ state',
          mergeType (SuperClasses.objectOnly Unit) a b state = (.ok (merged a b), state')) ∧
        merged (.object "[I") (.object "[[I") = .object ClassName.javaObject ∧
        merged (.object "[[I") (.object "[I") = .object ClassName.javaObject ∧
        merged (merged (.object "[[I") .null) (.object "[La/A;") =
          merged (.object "[[I") (merged .null (.object "[La/A;")) := by
  have hjoins := SuperClasses.objectOnly_joins Unit
  obtain ⟨merged, hruns, -, hassoc, -, -, hroot⟩ := mergeType_join hjoins
  obtain ⟨hfirst, hsecond⟩ := hroot .int "[[I" (fun _ => BaseType.noConfusion) (by decide)
  exact ⟨hjoins, merged, hruns, hfirst, hsecond, hassoc _ _ _⟩

end Types

end Downlevel.Frame
