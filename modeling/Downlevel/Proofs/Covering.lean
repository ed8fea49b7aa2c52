import Downlevel.Proofs.FrameTypes

/-!
# Frames that cover others

Merging two frames gives one that covers both, provided that the class that two classes have in common
is their join.  Names of array classes need care: an array covers another one as its elements cover
those of the other, every array is covered by the root of all classes, and a name that is spelled in an
unusual way is covered by the usual name of the same arrays, but not the other way round.  So that a
frame covers another one is the same as that merging the other one into it changes nothing, and it
holds again whenever the frame is replaced by one that covers it.

* `SuperClasses.Joins` — classes have joins;
* `Frame.NameCovers`, `Frame.TypeCovers`, `Frame.Covers` — names, types and frames that cover others;
* `Frame.Covers.trans` — covering is transitive;
* `Frame.merge_run` — merging gives the least change that covers what came in;
* `Frame.absorbs_of_covers` — a frame that covers another one absorbs it.
-/

namespace Downlevel

variable {σ : Type}

/-- Any two different classes that are no array classes have a common super class, whatever was asked
before.  Together with the classes themselves these are joins, and the root of all classes is on top of
them. -/
structure SuperClasses.Joins (supers : SuperClasses σ)
    (join : ClassName → ClassName → ClassName) : Prop where
  answers : ∀ {a b : ClassName}, a.isArray = false → b.isArray = false → a ≠ b → ∀ state, ∃ state',
    supers.common a b state = (.ok (join a b), state')
  flat : ∀ {a b : ClassName}, a.isArray = false → b.isArray = false → (join a b).isArray = false
  self : ∀ {a : ClassName}, a.isArray = false → join a a = a
  comm : ∀ {a b : ClassName}, a.isArray = false → b.isArray = false → join a b = join b a
  assoc : ∀ {a b c : ClassName}, a.isArray = false → b.isArray = false → c.isArray = false →
    join (join a b) c = join a (join b c)
  root : ∀ {a : ClassName}, a.isArray = false → join a ClassName.javaObject = ClassName.javaObject

/-- The root alone gives joins. -/
theorem SuperClasses.objectOnly_joins (σ : Type) :
    (objectOnly σ).Joins fun a b => if a = b then a else ClassName.javaObject where
  answers _ _ _ state := ⟨state, rfl⟩
  flat {a b} ha _ := by
    split
    · exact ha
    · rfl
  self _ := if_pos rfl
  comm {a b} _ _ := by
    by_cases h : a = b
    · rw [h]
    · rw [if_neg h, if_neg (Ne.symm h)]
  assoc {a b c} _ _ _ := by grind
  root {a} _ := by
    split
    next h => exact h
    next => rfl

namespace Frame

open Downlevel.Task

variable {supers : SuperClasses σ} {join : ClassName → ClassName → ClassName}

/-! ## Names -/

/-- The characters of a name that is not the name of an array class. -/
def Plain (name : List Char) : Prop :=
  ∀ element, name ≠ '[' :: element

/-- A name whose characters are those of no array class. -/
theorem isArray_of_plain {name : List Char} (h : Plain name) :
    ClassName.isArray (String.ofList name) = false :=
  isArray_ofList h

/-- The characters of a name that is no array class. -/
theorem plain_of_isArray {name : ClassName} (h : name.isArray = false) : Plain name.toList := by
  intro element heq
  have harray : name.isArray = true := Text.beginsWith_iff.mpr ⟨element, heq⟩
  rw [h] at harray
  cases harray

/-- The root of all classes is no array class. -/
theorem plain_javaObject : Plain ClassName.javaObject.toList :=
  plain_of_isArray rfl

/-- The name of an array class tells the class of its elements. -/
theorem elementClass?_arrayOf (name : ClassName) :
    ∃ element, (ClassName.arrayOf name).toList = '[' :: element ∧
      elementClass? element = some name.toList := by
  unfold ClassName.arrayOf
  split
  next harray =>
    obtain ⟨rest, hrest⟩ : ∃ rest, name.toList = '[' :: rest := Text.beginsWith_iff.mp harray
    exact ⟨name.toList, by simp, by simp [hrest, elementClass?]⟩
  next => exact ⟨'L' :: (name.toList ++ [';']), by simp, by simp [elementClass?]⟩

/-- The class that covers two classes, by the characters of their names, if `join` tells which class
covers two that are no array classes. -/
def joinNames (join : ClassName → ClassName → ClassName) (a b : List Char) : List Char :=
  if a = b then a
  else
    match a, b with
    | '[' :: elementA, '[' :: elementB =>
        match _h : elementClass? elementA, elementClass? elementB with
        | some nameA, some nameB =>
            (ClassName.arrayOf (String.ofList (joinNames join nameA nameB))).toList
        | _, _ => ClassName.javaObject.toList
    | '[' :: _, _ => ClassName.javaObject.toList
    | _, '[' :: _ => ClassName.javaObject.toList
    | _, _ => (join (String.ofList a) (String.ofList b)).toList
termination_by a.length
decreasing_by
  have := length_elementClass? _h
  simp
  omega

/-- A class covers another one, by the characters of their names. -/
inductive NameCovers (join : ClassName → ClassName → ClassName) : List Char → List Char → Prop where
  | self (name : List Char) : NameCovers join name name
  | plain {above name : List Char} (habove : Plain above) (hname : Plain name)
      (h : (join (String.ofList above) (String.ofList name)).toList = above) :
      NameCovers join above name
  | root (element : List Char) : NameCovers join ClassName.javaObject.toList ('[' :: element)
  | array {above : ClassName} {element name : List Char} (helement : elementClass? element = some name)
      (h : NameCovers join above.toList name) :
      NameCovers join (ClassName.arrayOf above).toList ('[' :: element)

section Names

/-- The characters of a join are those of no array class. -/
theorem plain_join (hjoins : supers.Joins join) {a b : List Char} (ha : Plain a) (hb : Plain b) :
    Plain (join (String.ofList a) (String.ofList b)).toList :=
  plain_of_isArray (hjoins.flat (isArray_of_plain ha) (isArray_of_plain hb))

/-- The root of all classes covers every class. -/
theorem NameCovers.top (hjoins : supers.Joins join) (name : List Char) :
    NameCovers join ClassName.javaObject.toList name := by
  by_cases hname : Plain name
  · refine .plain plain_javaObject hname ?_
    rw [String.ofList_toList, hjoins.comm rfl (isArray_of_plain hname),
      hjoins.root (isArray_of_plain hname)]
  · obtain ⟨element, helement⟩ := not_forall.mp hname
    rw [not_not.mp helement]
    exact .root element

/-- A join covers both classes. -/
theorem nameCovers_join (hjoins : supers.Joins join) {a b : List Char} (ha : Plain a)
    (hb : Plain b) :
    NameCovers join (join (String.ofList a) (String.ofList b)).toList a ∧
      NameCovers join (join (String.ofList a) (String.ofList b)).toList b := by
  have hplain := plain_join hjoins ha hb
  have ha' := isArray_of_plain ha
  have hb' := isArray_of_plain hb
  constructor
  · refine .plain hplain ha (congrArg String.toList ?_)
    rw [String.ofList_toList, hjoins.comm (hjoins.flat ha' hb') ha', ← hjoins.assoc ha' ha' hb',
      hjoins.self ha']
  · refine .plain hplain hb (congrArg String.toList ?_)
    rw [String.ofList_toList, hjoins.assoc ha' hb' hb', hjoins.self hb']

/-- **What covers two classes covers each of them.** -/
theorem joinNames_covers (hjoins : supers.Joins join) (a b : List Char) :
    NameCovers join (joinNames join a b) a ∧ NameCovers join (joinNames join a b) b := by
  fun_induction joinNames join a b with
  | case1 => exact ⟨.self _, .self _⟩
  | case2 elementA elementB nameA nameB hA hB _ ih =>
      rw [← String.toList_ofList (l := joinNames join nameA nameB)] at ih
      exact ⟨.array hA ih.1, .array hB ih.2⟩
  | case3 => exact ⟨.top hjoins _, .top hjoins _⟩
  | case4 => exact ⟨.top hjoins _, .top hjoins _⟩
  | case5 => exact ⟨.top hjoins _, .top hjoins _⟩
  | case6 a b _ ha hb => exact nameCovers_join hjoins ha hb

/-- An array name is not the name of a class that is no array. -/
theorem not_plain_arrayOf {name : ClassName} : ¬ Plain (ClassName.arrayOf name).toList := by
  intro hplain
  obtain ⟨element, hchars, _⟩ := elementClass?_arrayOf name
  exact hplain element hchars

/-- What covers a class that is no array covers what that class covers. -/
theorem NameCovers.trans_plain (hjoins : supers.Joins join) {top above name : List Char}
    (htop : Plain top) (habove : Plain above)
    (h : (join (String.ofList top) (String.ofList above)).toList = top)
    (hname : NameCovers join above name) : NameCovers join top name := by
  cases hname with
  | self => exact .plain htop habove h
  | plain _ hplain hjoin =>
      refine .plain htop hplain ?_
      have hhigh := congrArg String.ofList h
      have hlow := congrArg String.ofList hjoin
      rw [String.ofList_toList] at hhigh hlow
      rw [← hhigh, hjoins.assoc (isArray_of_plain htop) (isArray_of_plain habove)
        (isArray_of_plain hplain), hlow, h]
  | root element =>
      rw [String.ofList_toList, hjoins.root (isArray_of_plain htop)] at h
      exact h ▸ .root element
  | array => exact absurd habove not_plain_arrayOf

/-- What covers the elements of an array covers the elements of what that array covers. -/
theorem NameCovers.trans_array {top : ClassName} {element inner name : List Char}
    (helement : elementClass? element = some inner) (h : NameCovers join top.toList inner)
    (ih : ∀ {name}, NameCovers join inner name → NameCovers join top.toList name)
    (hname : NameCovers join ('[' :: element) name) :
    NameCovers join (ClassName.arrayOf top).toList name := by
  generalize habove : '[' :: element = above at hname
  cases hname with
  | self => exact habove ▸ .array helement h
  | plain hplain => exact absurd habove.symm (hplain element)
  | root => exact absurd habove.symm (plain_javaObject element)
  | @array other _ _ helement' h' =>
      obtain ⟨element', hchars, hinner⟩ := elementClass?_arrayOf other
      rw [hchars] at habove
      cases habove
      cases helement.symm.trans hinner
      exact .array helement' (ih h')

/-- **Covering is transitive.** -/
theorem NameCovers.trans (hjoins : supers.Joins join) {top above name : List Char}
    (h : NameCovers join top above) (hname : NameCovers join above name) :
    NameCovers join top name := by
  induction h generalizing name with
  | self => exact hname
  | root element => exact .top hjoins name
  | plain htop habove h => exact trans_plain hjoins htop habove h hname
  | array helement h ih => exact trans_array helement h ih hname

/-- A class is covered by itself. -/
theorem joinNames_self (join : ClassName → ClassName → ClassName) (name : List Char) :
    joinNames join name name = name := by
  unfold joinNames
  rw [if_pos rfl]

/-- What covers two classes that are no arrays. -/
theorem joinNames_plain {a b : List Char} (ha : Plain a) (hb : Plain b) (hne : a ≠ b) :
    joinNames join a b = (join (String.ofList a) (String.ofList b)).toList := by
  unfold joinNames
  rw [if_neg hne]
  split
  next => exact absurd rfl (ha _)
  next => exact absurd rfl (ha _)
  next => exact absurd rfl (hb _)
  next => rfl

/-- What covers two arrays of objects. -/
theorem joinNames_array {elementA elementB nameA nameB : List Char}
    (hA : elementClass? elementA = some nameA) (hB : elementClass? elementB = some nameB)
    (hne : '[' :: elementA ≠ '[' :: elementB) :
    joinNames join ('[' :: elementA) ('[' :: elementB) =
      (ClassName.arrayOf (String.ofList (joinNames join nameA nameB))).toList := by
  rw [joinNames, if_neg hne]
  split
  next foundA foundB hA' hB' =>
    rw [hA] at hA'
    rw [hB] at hB'
    cases hA'
    cases hB'
    rfl
  next hnone => exact absurd hB (hnone _ _ hA)

/-- Only the root of all classes covers two different classes that are neither both arrays of objects
nor both no arrays. -/
theorem joinNames_apart {a b : List Char} (hne : a ≠ b) (hplain : ¬ (Plain a ∧ Plain b))
    (harray : ∀ elementA elementB nameA nameB, a = '[' :: elementA → b = '[' :: elementB →
      elementClass? elementA = some nameA → elementClass? elementB = some nameB → False) :
    joinNames join a b = ClassName.javaObject.toList := by
  unfold joinNames
  rw [if_neg hne]
  split
  next =>
    split
    next hA hB => exact absurd hB fun hB => harray _ _ _ _ rfl rfl hA hB
    next => rfl
  next => rfl
  next => rfl
  next hleft hright _ => exact absurd ⟨hleft, hright⟩ hplain

/-- **A class that covers another one is what covers both.** -/
theorem NameCovers.joinNames_eq {above name : List Char} (h : NameCovers join above name) :
    joinNames join above name = above := by
  induction h with
  | self name => exact joinNames_self join name
  | @plain above name habove hname h =>
      by_cases hsame : above = name
      · rw [hsame, joinNames_self]
      · rw [joinNames_plain habove hname hsame, h]
  | root element =>
      refine joinNames_apart (plain_javaObject element) (fun hplain => hplain.2 element rfl) ?_
      intro elementA _ _ _ hobject
      exact absurd hobject (plain_javaObject elementA)
  | @array above element name helement h ih =>
      obtain ⟨element', hchars, hinner⟩ := elementClass?_arrayOf above
      by_cases hsame : '[' :: element' = '[' :: element
      · rw [hchars, hsame, joinNames_self]
      · rw [hchars, joinNames_array hinner helement hsame, ih, String.ofList_toList, hchars]

/-- **Merging two classes finds what covers both.** -/
theorem mergeNames_run (hjoins : supers.Joins join) (a b : List Char) (state : σ) :
    ∃ state', mergeNames supers a b state = (.ok (String.ofList (joinNames join a b)), state') := by
  fun_induction mergeNames supers a b generalizing state with
  | case1 name => exact ⟨state, by rw [joinNames_self]; rfl⟩
  | case2 elementA elementB nameA nameB hA hB hne ih =>
      obtain ⟨state', hrun⟩ := ih state
      refine ⟨state', task_bind_eq_ok.mpr ⟨_, state', hrun, ?_⟩⟩
      rw [joinNames_array hA hB hne, String.ofList_toList]
      rfl
  | case3 elementA elementB hnone hne =>
      have hroot : joinNames join ('[' :: elementA) ('[' :: elementB) =
          ClassName.javaObject.toList := by
        refine joinNames_apart hne (fun hplain => hplain.1 _ rfl) ?_
        intro _ _ nameA nameB hA hB hnameA hnameB
        cases hA
        cases hB
        exact hnone nameA nameB hnameA hnameB
      exact ⟨state, by rw [hroot, String.ofList_toList]; rfl⟩
  | case4 b element hplain hne =>
      have hroot : joinNames join ('[' :: element) b = ClassName.javaObject.toList :=
        joinNames_apart hne (fun h => h.1 _ rfl) fun _ _ _ _ _ hb _ _ => hplain _ hb
      exact ⟨state, by rw [hroot, String.ofList_toList]; rfl⟩
  | case5 a element hplain hne =>
      have hroot : joinNames join a ('[' :: element) = ClassName.javaObject.toList :=
        joinNames_apart hne (fun h => h.2 _ rfl) fun _ _ _ _ ha _ _ _ => hplain _ ha
      exact ⟨state, by rw [hroot, String.ofList_toList]; rfl⟩
  | case6 a b hne ha hb =>
      have hdiffer : String.ofList a ≠ String.ofList b :=
        fun heq => hne (by simpa using congrArg String.toList heq)
      rw [joinNames_plain ha hb hne, String.ofList_toList]
      exact hjoins.answers (isArray_of_plain ha) (isArray_of_plain hb) hdiffer state

end Names

/-! ## Types -/

/-- The type that covers two types. -/
def joinType (join : ClassName → ClassName → ClassName) (a b : VType) : VType :=
  if a = b then a
  else
    match a, b with
    | .null, .object name => .object name
    | .object name, .null => .object name
    | .object nameA, .object nameB =>
        .object (String.ofList (joinNames join nameA.toList nameB.toList))
    | _, _ => .top

/-- A type covers another one. -/
inductive TypeCovers (join : ClassName → ClassName → ClassName) : VType → VType → Prop where
  | self (type : VType) : TypeCovers join type type
  | top (type : VType) : TypeCovers join .top type
  | null (name : ClassName) : TypeCovers join (.object name) .null
  | object {above name : ClassName} (h : NameCovers join above.toList name.toList) :
      TypeCovers join (.object above) (.object name)

section Types

/-- **What covers two types covers each of them.** -/
theorem joinType_covers (hjoins : supers.Joins join) (a b : VType) :
    TypeCovers join (joinType join a b) a ∧ TypeCovers join (joinType join a b) b := by
  unfold joinType
  split
  next h => exact ⟨.self a, h ▸ .self a⟩
  next =>
    split
    next => exact ⟨.null _, .self _⟩
    next => exact ⟨.self _, .null _⟩
    next nameA nameB _ =>
      have hnames := joinNames_covers hjoins nameA.toList nameB.toList
      rw [← String.toList_ofList (l := joinNames join nameA.toList nameB.toList)] at hnames
      exact ⟨.object hnames.1, .object hnames.2⟩
    next => exact ⟨.top _, .top _⟩

/-- **Covering is transitive.** -/
theorem TypeCovers.trans (hjoins : supers.Joins join) {highest above type : VType}
    (h : TypeCovers join highest above) (htype : TypeCovers join above type) :
    TypeCovers join highest type := by
  cases h with
  | self => exact htype
  | top => exact .top type
  | null name =>
      cases htype
      exact .null name
  | object hnames =>
      cases htype with
      | self => exact .object hnames
      | null => exact .null _
      | object hlower => exact .object (hnames.trans hjoins hlower)

/-- **A type that covers another one is what covers both.** -/
theorem TypeCovers.joinType_eq {above type : VType} (h : TypeCovers join above type) :
    joinType join above type = above := by
  unfold joinType
  by_cases hsame : above = type
  · rw [if_pos hsame]
  rw [if_neg hsame]
  cases h with
  | self => exact absurd rfl hsame
  | top => rfl
  | null => rfl
  | object hnames =>
      show VType.object _ = _
      rw [hnames.joinNames_eq, String.ofList_toList]

/-- A type covers another one exactly if merging does not change it. -/
theorem joinType_eq_left_iff (hjoins : supers.Joins join) {above type : VType} :
    joinType join above type = above ↔ TypeCovers join above type := by
  constructor
  · intro h
    exact h ▸ (joinType_covers hjoins above type).2
  · exact TypeCovers.joinType_eq

/-- **Merging two types finds what covers both.** -/
theorem mergeType_run (hjoins : supers.Joins join) (a b : VType) (state : σ) :
    ∃ state', mergeType supers a b state = (.ok (joinType join a b), state') := by
  unfold mergeType
  by_cases hsame : a = b
  · have hjoin : joinType join a b = a := by
      unfold joinType
      rw [if_pos hsame]
    rw [if_pos hsame, hjoin]
    exact ⟨state, rfl⟩
  rw [if_neg hsame]
  split
  next => exact ⟨state, rfl⟩
  next => exact ⟨state, rfl⟩
  next nameA nameB =>
    obtain ⟨state', hrun⟩ := mergeNames_run hjoins nameA.toList nameB.toList state
    have hjoin : joinType join (.object nameA) (.object nameB) =
        .object (String.ofList (joinNames join nameA.toList nameB.toList)) := by
      unfold joinType
      rw [if_neg hsame]
    rw [hjoin]
    exact ⟨state', task_bind_eq_ok.mpr ⟨_, state', hrun, rfl⟩⟩
  next hnull hnull' hobjects =>
    have hjoin : joinType join a b = .top := by
      unfold joinType
      rw [if_neg hsame]
      split
      next => exact (hnull _ rfl rfl).elim
      next => exact (hnull' _ rfl rfl).elim
      next => exact (hobjects _ _ rfl rfl).elim
      next => rfl
    rw [hjoin]
    exact ⟨state, rfl⟩

end Types

/-! ## Lists of types -/

/-- The types that cover the types of two lists one by one. -/
def joinTypes (join : ClassName → ClassName → ClassName) (as bs : List VType) : List VType :=
  List.zipWith (joinType join) as bs

section Lists

variable {as bs cs : List VType}

/-- **Merging two lists of types finds what covers both.** -/
theorem mergeTypesFrom_run (hjoins : supers.Joins join) (done as bs : List VType) (state : σ) :
    ∃ state', mergeTypesFrom supers done as bs state =
      (.ok (done.reverse ++ joinTypes join as bs), state') := by
  induction as generalizing done bs state with
  | nil => exact ⟨state, by simp [mergeTypesFrom, joinTypes]⟩
  | cons a as ih =>
      cases bs with
      | nil => exact ⟨state, by simp [mergeTypesFrom, joinTypes]⟩
      | cons b bs =>
          obtain ⟨between, hfirst⟩ := mergeType_run hjoins a b state
          obtain ⟨state', hrest⟩ := ih (joinType join a b :: done) bs between
          refine ⟨state', task_bind_eq_ok.mpr ⟨_, between, hfirst, hrest.trans ?_⟩⟩
          simp [joinTypes]

/-- Covering lists of types is transitive. -/
theorem joinTypes_trans (hjoins : supers.Joins join) (h : joinTypes join as bs = as)
    (hrest : joinTypes join bs cs = bs) : joinTypes join as cs = as := by
  induction as generalizing bs cs with
  | nil => rfl
  | cons a as ih =>
      cases bs with
      | nil => cases h
      | cons b bs =>
          cases cs with
          | nil => cases hrest
          | cons c cs =>
              simp only [joinTypes, List.zipWith_cons_cons, List.cons.injEq] at h hrest ⊢
              rw [joinType_eq_left_iff hjoins] at h hrest ⊢
              exact ⟨h.1.trans hjoins hrest.1, ih h.2 hrest.2⟩

/-- What covers two lists of types covers each of them. -/
theorem joinTypes_covers (hjoins : supers.Joins join) (as bs : List VType) :
    joinTypes join (joinTypes join as bs) as = joinTypes join as bs ∧
      joinTypes join (joinTypes join as bs) bs = joinTypes join as bs := by
  induction as generalizing bs with
  | nil => exact ⟨rfl, rfl⟩
  | cons a as ih =>
      cases bs with
      | nil => exact ⟨rfl, rfl⟩
      | cons b bs =>
          obtain ⟨ha, hb⟩ := joinType_covers hjoins a b
          obtain ⟨has, hbs⟩ := ih bs
          constructor
          · exact congrArg₂ List.cons ha.joinType_eq has
          · exact congrArg₂ List.cons hb.joinType_eq hbs

/-- A list of types covers itself. -/
theorem joinTypes_self (types : List VType) : joinTypes join types types = types := by
  induction types with
  | nil => rfl
  | cons type types ih => exact congrArg₂ List.cons (TypeCovers.self type).joinType_eq ih

end Lists

/-! ## Frames -/

/-- The frame that covers two frames with as many values on the stack. -/
def joinFrame (join : ClassName → ClassName → ClassName) (a b : Frame) : Frame :=
  ⟨joinTypes join a.locals b.locals, joinTypes join a.stack b.stack⟩

/-- **A frame covers another one**: it has as many values on the stack, and merging does not change
it. -/
structure Covers (join : ClassName → ClassName → ClassName) (above frame : Frame) : Prop where
  heights : above.stack.length = frame.stack.length
  unchanged : joinFrame join above frame = above

/-- A frame absorbs another one: merging the other one into it changes nothing. -/
def Absorbs (supers : SuperClasses σ) (above frame : Frame) : Prop :=
  ∀ state, ∃ state', merge supers above frame state = (.ok none, state')

section Frames

variable {frame existing incoming : Frame}

/-- A frame covers itself. -/
theorem Covers.refl (frame : Frame) : Covers join frame frame where
  heights := rfl
  unchanged := congrArg₂ Frame.mk (joinTypes_self _) (joinTypes_self _)

/-- **Covering is transitive.** -/
theorem Covers.trans (hjoins : supers.Joins join) {highest above : Frame}
    (h : Covers join highest above) (hframe : Covers join above frame) :
    Covers join highest frame where
  heights := h.heights.trans hframe.heights
  unchanged := by
    have hlocals := joinTypes_trans hjoins (congrArg Frame.locals h.unchanged)
      (congrArg Frame.locals hframe.unchanged)
    have hstack := joinTypes_trans hjoins (congrArg Frame.stack h.unchanged)
      (congrArg Frame.stack hframe.unchanged)
    exact congrArg₂ Frame.mk hlocals hstack

/-- What covers two frames covers each of them. -/
theorem joinFrame_covers (hjoins : supers.Joins join)
    (heights : existing.stack.length = incoming.stack.length) :
    Covers join (joinFrame join existing incoming) existing ∧
      Covers join (joinFrame join existing incoming) incoming := by
  obtain ⟨hlocals, hlocals'⟩ := joinTypes_covers hjoins existing.locals incoming.locals
  obtain ⟨hstack, hstack'⟩ := joinTypes_covers hjoins existing.stack incoming.stack
  have hlength : (joinFrame join existing incoming).stack.length = existing.stack.length := by
    simp [joinFrame, joinTypes, heights]
  exact ⟨⟨hlength, congrArg₂ Frame.mk hlocals hstack⟩,
    ⟨hlength.trans heights, congrArg₂ Frame.mk hlocals' hstack'⟩⟩

/-- **Merging frames with as many values on the stack finds what covers both.** -/
theorem merge_run (hjoins : supers.Joins join)
    (heights : existing.stack.length = incoming.stack.length) (state : σ) :
    ∃ state', merge supers existing incoming state =
      (.ok (if joinFrame join existing incoming = existing then none
        else some (joinFrame join existing incoming)), state') := by
  obtain ⟨between, hlocals⟩ :=
    mergeTypesFrom_run hjoins [] existing.locals incoming.locals state
  obtain ⟨state', hstack⟩ :=
    mergeTypesFrom_run hjoins [] existing.stack.reverse incoming.stack.reverse between
  refine ⟨state', ?_⟩
  unfold merge
  rw [if_pos heights]
  refine task_bind_eq_ok.mpr ⟨_, between, hlocals, task_bind_eq_ok.mpr ⟨_, state', hstack, ?_⟩⟩
  have hreverse : (joinTypes join existing.stack.reverse incoming.stack.reverse).reverse =
      joinTypes join existing.stack incoming.stack := by
    unfold joinTypes
    rw [← List.reverse_zipWith heights, List.reverse_reverse]
  simp only [List.reverse_nil, List.nil_append, hreverse]
  rfl

/-- Only frames with as many values on the stack can be merged. -/
theorem heights_of_merge {result : Option Frame} {state state' : σ}
    (h : merge supers existing incoming state = (.ok result, state')) :
    existing.stack.length = incoming.stack.length := by
  unfold merge at h
  split at h
  next heights => exact heights
  next => exact absurd (task_lift_eq_ok.mp h).1 fail_ne_ok

/-- What is merged covers both frames. -/
theorem covers_of_merge (hjoins : supers.Joins join) {result : Option Frame} {state state' : σ}
    (h : merge supers existing incoming state = (.ok result, state')) :
    Covers join (result.getD existing) existing ∧ Covers join (result.getD existing) incoming := by
  have heights := heights_of_merge h
  obtain ⟨after, hrun⟩ := merge_run hjoins heights state
  have hresult := (Prod.ext_iff.mp (h.symm.trans hrun)).1
  cases Except.ok.inj hresult
  obtain ⟨hexisting, hincoming⟩ := joinFrame_covers hjoins heights
  split
  next hsame =>
    rw [hsame] at hincoming
    exact ⟨.refl existing, hincoming⟩
  next => exact ⟨hexisting, hincoming⟩

/-- **A frame that covers another one absorbs it.** -/
theorem Covers.absorbs (hjoins : supers.Joins join) {above : Frame} (h : Covers join above frame) :
    Absorbs supers above frame := by
  intro state
  obtain ⟨state', hrun⟩ := merge_run hjoins h.heights state
  rw [if_pos h.unchanged] at hrun
  exact ⟨state', hrun⟩

end Frames

end Frame

end Downlevel
