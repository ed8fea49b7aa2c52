import Mathlib.Order.Bounds.Defs
import Downlevel.Lower.Switch
import Downlevel.Proofs.Lower.Instructions
import Downlevel.Proofs.Running.Blocks
import Downlevel.Proofs.Running.Machine

/-!
# What a lowered switch returns

The method for a switch is a chain of blocks, one for each case.  A block either returns the number
of its case or goes to the next block.  So by induction over the cases the chain returns the number
of the first case that is not before the one to start from and matches, and the number of cases if
there is none.

* `body_eq` — the chain as a list of blocks;
* `performAll_caseInstructions` — what one block does;
* `reaches_firstMatch` — what the chain does from a block on;
* `typeCase_eq_ok`, `enumCase_eq_ok` — the cases that the arguments of a site stand for;
* `picks_least_hit` — what is returned, and for which cases.
-/

namespace Downlevel

open Running

namespace Switch

section Listing

/-- The block for a case. -/
def caseInstructions (index : Nat) (item : Case) : List Instruction :=
  [Fragment.int (Int32.ofNat index), .load .int 1, .branch .icmplt (label (index + 1))] ++
    test (label (index + 1)) item ++ [Fragment.int (Int32.ofNat index), .op .ireturn]

/-- The block behind all cases. -/
def lastInstructions (count : Nat) : List Instruction :=
  [Fragment.int (Int32.ofNat count), .op .ireturn]

/-- The blocks for cases, the first of which has the number `index`. -/
def blocks : Nat → List Case → List (List Instruction)
  | count, [] => [lastInstructions count]
  | index, item :: rest => caseInstructions index item :: blocks (index + 1) rest

/-- What stands in front of the cases: nothing has the number -1. -/
def nullInstructions : List Instruction :=
  [Fragment.aload 0, .branch .nonnull (label 0), Fragment.int (-1), .op .ireturn]

/-- Every block has instructions. -/
theorem ne_nil_of_mem_blocks {index : Nat} {cases : List Case} :
    ∀ block ∈ blocks index cases, block ≠ [] := by
  induction cases generalizing index with
  | nil => simp [blocks, lastInstructions]
  | cons item rest ih => exact List.forall_mem_cons.mpr ⟨by simp [caseInstructions], ih⟩

/-- There is one block more than there are cases. -/
theorem length_blocks (index : Nat) (cases : List Case) :
    (blocks index cases).length = cases.length + 1 := by
  induction cases generalizing index with
  | nil => rfl
  | cons item rest ih => rw [blocks, List.length_cons, ih, List.length_cons]

/-- The pieces for cases are those for their blocks. -/
theorem place_casesFrom (index : Nat) (cases : List Case) :
    .place (label index) ::
        (casesFrom index cases ++ Piece.sequence (lastInstructions (index + cases.length))) =
      Piece.blocks index (blocks index cases) := by
  induction cases generalizing index with
  | nil => simp [casesFrom, blocks, Piece.blocks, label, Label.numbered]
  | cons item rest ih =>
      have hcount : index + (item :: rest).length = index + 1 + rest.length := by
        rw [List.length_cons]
        omega
      rw [hcount, casesFrom, blocks, Piece.blocks, ← ih (index + 1)]
      simp [casePieces, caseInstructions, label, Label.numbered]

/-- **The code of a switch** as a list of blocks. -/
theorem body_eq (cases : List Case) :
    body cases =
      { instructions :=
          nullInstructions.map Instruction.plain ++ Labelled.numbered 0 (blocks 0 cases) } := by
  have hpieces := place_casesFrom 0 cases
  rw [Nat.zero_add] at hpieces
  have hbody : body cases = Code.ofPieces (Piece.sequence nullInstructions ++
      [.place (label 0)] ++ casesFrom 0 cases ++
      Piece.sequence (lastInstructions cases.length)) := rfl
  rw [hbody, List.append_assoc, List.append_assoc, List.singleton_append, hpieces,
    Code.ofPieces_blocks nullInstructions ne_nil_of_mem_blocks]

/-- The block for the first of some cases is found by its label. -/
theorem labelIndices_blocks {code : Code} {before : List Labelled} {index : Nat} {cases : List Case}
    (hcode : code.instructions = before ++ Labelled.numbered index (blocks index cases))
    (hlast : code.lastLabel = none) (hsmall : index + cases.length < 65536) :
    code.labelIndices[label index]? = some before.length := by
  cases cases with
  | nil => exact Code.labelIndices_numbered hcode (by simp [lastInstructions]) hlast hsmall
  | cons item rest =>
      refine Code.labelIndices_numbered hcode (by simp [caseInstructions]) hlast ?_
      rwa [length_blocks]

end Listing

section Blocks

variable {V : Type} (around : Surroundings V)

/-- Whether an object is what a case asks for: an `Integer` of the value, an equal `String`, an
instance of the class, or an instance of the enum with the name. -/
def meets (object : Object V) : Case → Bool
  | .int value => around.instanceOf object "java/lang/Integer" && around.intValue object = value
  | .text value =>
      around.instanceOf object ClassName.javaString && around.equals value (some object)
  | .instanceOf cls => around.instanceOf object cls
  | .enumConstant owner name =>
      around.instanceOf object owner && around.equals name ((around.name object).map .text)

/-- The first case that is not before the one to start from and matches, or the number behind all
cases.  The first of the cases has the number `index`. -/
def firstMatch (object : Object V) (restart : Int32) : Nat → List Case → Nat
  | count, [] => count
  | index, item :: rest =>
      if restart ≤ Int32.ofNat index ∧ meets around object item then index
      else firstMatch object restart (index + 1) rest

variable {around} {object : Object V} {restart : Int32} {locals : UInt16 → Option (Value V)}
  {builders : List (Option JavaString)}

/-- **A test** goes on if the case matches, and to the next block otherwise. -/
theorem performAll_test (miss : Label) (item : Case)
    (hobject : locals 0 = some (.reference (some object))) :
    performAll around ⟨[], locals, builders⟩ (test miss item) =
      if meets around object item then .next ⟨[], locals, builders⟩
      else .jump miss ⟨[], locals, builders⟩ := by
  have hload (stack : List (Value V)) :
      perform around ⟨stack, locals, builders⟩ (Fragment.aload 0) =
        .next ⟨.reference (some object) :: stack, locals, builders⟩ :=
    perform_aload around stack locals builders hobject
  have hmissed {cls : ClassName} (rest : List Instruction)
      (h : around.instanceOf object cls = false) :
      performAll around ⟨[], locals, builders⟩
          (Fragment.aload 0 :: .instanceof cls :: .branch .eq miss :: rest) =
        .jump miss ⟨[], locals, builders⟩ := by
    rw [performAll_cons _ _ (hload _), performAll_cons _ _ (perform_instanceof ..), h,
      performAll_jump _ _ (perform_ifeq_false ..)]
  have hpassed {cls : ClassName} (rest : List Instruction)
      (h : around.instanceOf object cls = true) :
      performAll around ⟨[], locals, builders⟩
          (Fragment.aload 0 :: .instanceof cls :: .branch .eq miss :: rest) =
        performAll around ⟨[], locals, builders⟩ rest := by
    rw [performAll_cons _ _ (hload _), performAll_cons _ _ (perform_instanceof ..), h,
      performAll_cons _ _ (perform_ifeq_true ..)]
  cases item with
  | int value =>
      by_cases hinstance : around.instanceOf object "java/lang/Integer" = true
      · by_cases hvalue : around.intValue object = value <;>
          simp [test, hpassed _ hinstance, performAll, hload, perform_checkcast, perform_intValue,
            perform_int, perform_icmpne, meets, hinstance, hvalue]
      · rw [Bool.not_eq_true] at hinstance
        simp [test, hmissed _ hinstance, meets, hinstance]
  | text value =>
      by_cases hinstance : around.instanceOf object ClassName.javaString = true
      · by_cases hequals : around.equals value (some object) = true <;>
          simp [test, hpassed _ hinstance, performAll, hload, perform_ldc, Surroundings.load,
            perform_checkcast, perform_equals, perform_ifeq_true, perform_ifeq_false, meets,
            hinstance, hequals]
      · rw [Bool.not_eq_true] at hinstance
        simp [test, hmissed _ hinstance, meets, hinstance]
  | instanceOf cls =>
      by_cases hinstance : around.instanceOf object cls = true
      · simp [test, hpassed _ hinstance, performAll, meets, hinstance]
      · rw [Bool.not_eq_true] at hinstance
        simp [test, hmissed _ hinstance, meets, hinstance]
  | enumConstant owner name =>
      by_cases hinstance : around.instanceOf object owner = true
      · by_cases hequals : around.equals name ((around.name object).map .text) = true <;>
          simp [test, hpassed _ hinstance, performAll, hload, perform_ldc, Surroundings.load,
            perform_checkcast, perform_name, perform_equals, perform_ifeq_true, perform_ifeq_false,
            meets, hinstance, hequals]
      · rw [Bool.not_eq_true] at hinstance
        simp [test, hmissed _ hinstance, meets, hinstance]

/-- **A block** returns the number of its case, or goes to the next block. -/
theorem performAll_caseInstructions (index : Nat) (item : Case)
    (hobject : locals 0 = some (.reference (some object)))
    (hrestart : locals 1 = some (.int restart)) :
    performAll around ⟨[], locals, builders⟩ (caseInstructions index item) =
      if restart ≤ Int32.ofNat index ∧ meets around object item then
        .finish (.int (Int32.ofNat index))
      else .jump (label (index + 1)) ⟨[], locals, builders⟩ := by
  have hfirst : performAll around ⟨[], locals, builders⟩ [Fragment.int (Int32.ofNat index),
      .load .int 1, .branch .icmplt (label (index + 1))] =
      if Int32.ofNat index < restart then .jump (label (index + 1)) ⟨[], locals, builders⟩
      else .next ⟨[], locals, builders⟩ := by
    have hload : perform around ⟨[.int (Int32.ofNat index)], locals, builders⟩ (.load .int 1) =
        .next ⟨[.int restart, .int (Int32.ofNat index)], locals, builders⟩ :=
      perform_load around _ locals builders hrestart rfl
    rw [performAll_cons _ _ (perform_int ..), performAll_cons _ _ hload]
    by_cases hbefore : Int32.ofNat index < restart <;>
      simp [performAll, perform_icmplt, hbefore]
  have hlast : performAll around ⟨[], locals, builders⟩
      [Fragment.int (Int32.ofNat index), .op .ireturn] = .finish (.int (Int32.ofNat index)) := by
    rw [performAll_cons _ _ (perform_int ..), performAll, perform_ireturn]
  rw [caseInstructions, List.append_assoc, performAll_append, hfirst]
  by_cases hbefore : Int32.ofNat index < restart
  · have hnot : ¬ restart ≤ Int32.ofNat index := Int32.not_le.mpr hbefore
    rw [if_pos hbefore, if_neg (fun h => hnot h.1)]
  · have hle : restart ≤ Int32.ofNat index := Int32.not_lt.mp hbefore
    rw [if_neg hbefore]
    simp only [performAll_append, performAll_test _ _ hobject]
    by_cases hmeets : meets around object item = true
    · rw [if_pos hmeets, if_pos ⟨hle, hmeets⟩]
      exact hlast
    · rw [if_neg hmeets, if_neg (fun h => hmeets h.2)]

/-- **From a block on** the first case is found that is not before the one to start from and
matches. -/
theorem reaches_firstMatch {code : Code} {before : List Labelled} {index : Nat} {cases : List Case}
    (hcode : code.instructions = before ++ Labelled.numbered index (blocks index cases))
    (hlast : code.lastLabel = none) (hsmall : index + cases.length < 65536)
    (hobject : locals 0 = some (.reference (some object)))
    (hrestart : locals 1 = some (.int restart)) :
    Reaches around code (.running before.length ⟨[], locals, builders⟩)
      (.returned (.int (Int32.ofNat (firstMatch around object restart index cases)))) := by
  induction cases generalizing index before with
  | nil =>
      have hreturns : performAll around ⟨[], locals, builders⟩ (lastInstructions index) =
          .finish (.int (Int32.ofNat index)) := by
        rw [lastInstructions, performAll_cons _ _ (perform_int ..), performAll, perform_ireturn]
      have hreaches := reaches_block around ⟨[], locals, builders⟩ hcode
      rwa [hreturns] at hreaches
  | cons item rest ih =>
      rw [List.length_cons] at hsmall
      have hperform : performAll around ⟨[], locals, builders⟩ (caseInstructions index item) =
          if restart ≤ Int32.ofNat index ∧ meets around object item then
            .finish (.int (Int32.ofNat index))
          else .jump (label (index + 1)) ⟨[], locals, builders⟩ :=
        performAll_caseInstructions index item hobject hrestart
      rw [firstMatch]
      by_cases hmatch : restart ≤ Int32.ofNat index ∧ meets around object item
      · rw [if_pos hmatch] at hperform ⊢
        have hreaches := reaches_block around ⟨[], locals, builders⟩ hcode
        rwa [hperform] at hreaches
      · rw [if_neg hmatch] at hperform ⊢
        -- the block goes to the next one, from which the rest of the cases is tested
        have hbehind := blocks_behind hcode
        have hreaches := reaches_block around ⟨[], locals, builders⟩ hcode
        rw [hperform, Effect.after, labelIndices_blocks hbehind hlast (by omega)] at hreaches
        exact hreaches.trans (ih hbehind (by omega))

/-- **A switch over an object** returns the number of the first case that is not before the one to
start from and matches. -/
theorem returns_firstMatch {cases : List Case} (hsmall : cases.length ≤ 65534)
    (hobject : locals 0 = some (.reference (some object)))
    (hrestart : locals 1 = some (.int restart)) :
    Returns around (body cases) locals
      (.int (Int32.ofNat (firstMatch around object restart 0 cases))) := by
  have hcode : (body cases).instructions =
      nullInstructions.map Instruction.plain ++ Labelled.numbered 0 (blocks 0 cases) := by
    rw [body_eq]
  have hlast : (body cases).lastLabel = none := by
    rw [body_eq]
  have hstands : Stands (body cases) 0 [Fragment.aload 0, .branch .nonnull (label 0)] := by
    rw [Stands, hcode]
    exact ⟨_, rfl⟩
  have hjump : performAll around ⟨[], locals, []⟩
      [Fragment.aload 0, .branch .nonnull (label 0)] = .jump (label 0) ⟨[], locals, []⟩ := by
    rw [performAll_cons _ _ (perform_aload around [] locals [] hobject)]
    rfl
  have hreaches := reaches_performAll around ⟨[], locals, []⟩ hstands
  rw [hjump, Effect.after, labelIndices_blocks hcode hlast (by omega)] at hreaches
  exact hreaches.trans (reaches_firstMatch hcode hlast (by omega) hobject hrestart)

/-- **A switch over nothing** returns -1. -/
theorem returns_null {cases : List Case} (hnull : locals 0 = some (.reference none)) :
    Returns around (body cases) locals (.int (-1)) := by
  have hstands : Stands (body cases) 0 nullInstructions := by
    rw [Stands, body_eq]
    exact ⟨(Labelled.numbered 0 (blocks 0 cases)).map Labelled.instruction, rfl⟩
  have hreturns : performAll around ⟨[], locals, []⟩ nullInstructions = .finish (.int (-1)) := by
    rw [nullInstructions, performAll_cons _ _ (perform_aload around [] locals [] hnull)]
    rfl
  have hreaches := reaches_performAll around ⟨[], locals, []⟩ hstands
  rwa [hreturns] at hreaches

end Blocks

section Matches

variable {V : Type} (around : Surroundings V) (object : Object V) (cases : List Case)
  (restart : Int32)

/-- The numbers of the cases that match and are not before the one to start from. -/
def hits : Set Nat :=
  {index | restart.toInt ≤ index ∧ ∃ item, cases[index]? = some item ∧ meets around object item}

variable {around object cases restart}

/-- Case numbers are compared as they are. -/
theorem le_ofNat_iff {index : Nat} (hsmall : index < 65536) :
    restart ≤ Int32.ofNat index ↔ restart.toInt ≤ index := by
  have hbound : index < 2 ^ 31 := by omega
  rw [Int32.le_iff_toInt_le, Int32.toInt_ofNat_of_lt hbound]

/-- What is found is the first match, or behind all cases if there is none. -/
theorem firstMatch_spec (around : Surroundings V) (object : Object V) (restart : Int32)
    (start : Nat) (cases : List Case) (hsmall : start + cases.length < 65536) :
    ∃ offset, firstMatch around object restart start cases = start + offset ∧
      (∀ earlier item, earlier < offset → cases[earlier]? = some item →
        ¬ (restart.toInt ≤ (start + earlier : Nat) ∧ meets around object item)) ∧
      (offset = cases.length ∨ ∃ item, cases[offset]? = some item ∧
        restart.toInt ≤ (start + offset : Nat) ∧ meets around object item) := by
  induction cases generalizing start with
  | nil => exact ⟨0, rfl, fun earlier item hearlier => absurd hearlier (Nat.not_lt_zero _), .inl rfl⟩
  | cons item rest ih =>
      rw [List.length_cons] at hsmall
      have hcompare : restart ≤ Int32.ofNat start ↔ restart.toInt ≤ start :=
        le_ofNat_iff (by omega)
      simp only [firstMatch, hcompare]
      by_cases hhere : restart.toInt ≤ start ∧ meets around object item
      · rw [if_pos hhere]
        refine ⟨0, rfl, ?_, .inr ⟨item, rfl, hhere⟩⟩
        intro earlier other hearlier
        omega
      · rw [if_neg hhere]
        obtain ⟨offset, hfound, hbefore, hend⟩ := ih (start + 1) (by omega)
        refine ⟨offset + 1, by omega, ?_, ?_⟩
        · intro earlier other hearlier hother
          cases earlier with
          | zero =>
              injection hother with hother
              rw [← hother]
              exact hhere
          | succ earlier =>
              have hmissed := hbefore earlier other (by omega) hother
              rwa [Nat.add_assoc, Nat.add_comm 1] at hmissed
        · rcases hend with hlength | ⟨other, hother, hmatch⟩
          · exact .inl (congrArg (· + 1) hlength)
          · rw [Nat.add_assoc, Nat.add_comm 1] at hmatch
            exact .inr ⟨other, hother, hmatch⟩

/-- The least hit is found. -/
theorem firstMatch_of_isLeast {index : Nat} (hsmall : cases.length < 65536)
    (h : IsLeast (hits around object cases restart) index) :
    firstMatch around object restart 0 cases = index := by
  obtain ⟨offset, hfound, hbefore, hend⟩ :=
    firstMatch_spec around object restart 0 cases (by omega)
  simp only [Nat.zero_add] at hfound hbefore hend
  obtain ⟨⟨hfrom, item, hitem, hmeets⟩, hleast⟩ := h
  have hinside : index < cases.length := (List.getElem?_eq_some_iff.mp hitem).1
  have hlow : ¬ index < offset := fun hlt => hbefore index item hlt hitem ⟨hfrom, hmeets⟩
  have hhigh : offset ≤ index := by omega
  rcases hend with hlength | ⟨other, hother, hrestart, hmatch⟩
  · omega
  · have hle : index ≤ offset := hleast ⟨hrestart, other, hother, hmatch⟩
    omega

/-- Without a hit the number of cases is found. -/
theorem firstMatch_of_empty (hsmall : cases.length < 65536)
    (h : hits around object cases restart = ∅) :
    firstMatch around object restart 0 cases = cases.length := by
  obtain ⟨offset, hfound, -, hend⟩ :=
    firstMatch_spec around object restart 0 cases (by omega)
  simp only [Nat.zero_add] at hfound hend
  rcases hend with hlength | ⟨item, hitem, hrestart, hmatch⟩
  · omega
  · have hhit : offset ∈ hits around object cases restart := ⟨hrestart, item, hitem, hmatch⟩
    rw [h] at hhit
    cases hhit

/-- What is found in front of the end is the least hit. -/
theorem isLeast_of_firstMatch {index : Nat} (hsmall : cases.length < 65536)
    (hfound : firstMatch around object restart 0 cases = index) (hinside : index < cases.length) :
    IsLeast (hits around object cases restart) index := by
  obtain ⟨offset, hoffset, hbefore, hend⟩ :=
    firstMatch_spec around object restart 0 cases (by omega)
  simp only [Nat.zero_add] at hoffset hbefore hend
  have hsame : offset = index := by omega
  rw [hsame] at hbefore hend
  constructor
  · rcases hend with hlength | ⟨item, hitem, hrestart, hmatch⟩
    · omega
    · exact ⟨hrestart, item, hitem, hmatch⟩
  · rintro other ⟨hrestart, item, hitem, hmatch⟩
    by_contra hnot
    exact hbefore other item (by omega) hitem ⟨hrestart, hmatch⟩

/-- If the end is found, there is no hit. -/
theorem hits_eq_empty (hsmall : cases.length < 65536)
    (hfound : firstMatch around object restart 0 cases = cases.length) :
    hits around object cases restart = ∅ := by
  obtain ⟨offset, hoffset, hbefore, -⟩ :=
    firstMatch_spec around object restart 0 cases (by omega)
  simp only [Nat.zero_add] at hoffset hbefore
  rw [Set.eq_empty_iff_forall_notMem]
  rintro index ⟨hrestart, item, hitem, hmatch⟩
  have hinside : index < cases.length := (List.getElem?_eq_some_iff.mp hitem).1
  exact hbefore index item (by omega) hitem ⟨hrestart, hmatch⟩

end Matches

section Sites

/-- A constant is made by calling a method with arguments when it is first needed. -/
inductive MadeBy (target : MethodRef) : Loadable → List Loadable → Prop where
  | intro {name : FieldName} {descriptor : FieldDescriptor} {bootstrap handle : Handle}
      {arguments : List Loadable} (hbootstrap : bootstrap.isStatic invokeBootstrap = true)
      (hhandle : handle.isMethod target = true) :
      MadeBy target (.dynamic name descriptor bootstrap (.handle handle :: arguments)) arguments

/-- The case that an argument of a switch over types stands for.  A constant of an enum is described
by its class, whose name is given with dots, and by its own name. -/
inductive IsTypeCase : Loadable → Case → Prop where
  | int (value : Int32) : IsTypeCase (.int value) (.int value)
  | text (value : JavaString) : IsTypeCase (.string value) (.text value)
  | instanceOf (cls : ClassName) : IsTypeCase (.cls cls) (.instanceOf cls)
  | enumConstant {argument cls : Loadable} {binary name : JavaString} {owner : String}
      {more others : List Loadable} (hdescribed : MadeBy describeEnum argument
        (cls :: .string name :: more))
      (hclass : MadeBy describeClass cls (.string binary :: others))
      (howner : binary.toString? = some owner) :
      IsTypeCase argument (.enumConstant (owner.map fun c => if c = '.' then '/' else c) name)

/-- The case that an argument of a switch over an enum stands for: a text is the name of a
constant. -/
inductive IsEnumCase (owner : ClassName) : Loadable → Case → Prop where
  | int (value : Int32) : IsEnumCase owner (.int value) (.int value)
  | instanceOf (cls : ClassName) : IsEnumCase owner (.cls cls) (.instanceOf cls)
  | enumConstant (name : JavaString) : IsEnumCase owner (.string name) (.enumConstant owner name)

/-- A site switches on values of a class: that is the type of its first argument. -/
def SwitchesOn (descriptor : MethodDescriptor) (owner : ClassName) : Prop :=
  ∃ (type : MethodType) (first : JavaType) (rest : List JavaType),
    MethodType.parse descriptor = .ok type ∧ type.parameters = first :: rest ∧
      first.internalName? = some owner

/-- A dynamic constant is accepted exactly if it is made by calling the method. -/
theorem checkInvoke_eq_ok {path : String} {wanted : MethodRef} {bootstrap : Handle}
    {arguments : List Loadable} :
    checkInvoke path wanted bootstrap arguments = .ok () ↔
      bootstrap.isStatic invokeBootstrap = true ∧
        ∃ handle rest, arguments = .handle handle :: rest ∧ handle.isMethod wanted = true := by
  unfold checkInvoke
  by_cases hbootstrap : bootstrap.isStatic invokeBootstrap = true
  · rw [if_pos hbootstrap]
    split
    next handle rest =>
      by_cases hhandle : handle.isMethod wanted = true <;> simp [hbootstrap, hhandle]
    next hother =>
      constructor
      · intro h
        exact absurd h fail_ne_ok
      · rintro ⟨-, handle, rest, rfl, -⟩
        exact absurd rfl (hother handle rest)
  · rw [if_neg hbootstrap]
    simp [hbootstrap]

/-- **The class that a dynamic constant describes.** -/
theorem describedClass_eq_ok {bootstrap : Handle} {arguments : List Loadable} {cls : ClassName} :
    describedClass bootstrap arguments = .ok cls ↔
      bootstrap.isStatic invokeBootstrap = true ∧ ∃ handle binary others owner,
        arguments = .handle handle :: .string binary :: others ∧
        handle.isMethod describeClass = true ∧ binary.toString? = some owner ∧
        cls = owner.map fun c => if c = '.' then '/' else c := by
  rw [describedClass, bind_eq_ok]
  constructor
  · rintro ⟨⟨⟩, hcheck, h⟩
    obtain ⟨hbootstrap, handle, rest, rfl, hhandle⟩ := checkInvoke_eq_ok.mp hcheck
    cases rest with
    | nil => exact absurd h fail_ne_ok
    | cons second others =>
        cases second with
        | string binary =>
            obtain ⟨owner, howner, hcls⟩ := bind_eq_ok.mp h
            exact ⟨hbootstrap, handle, binary, others, owner, rfl, hhandle,
              orFail_eq_ok.mp howner, (pure_eq_ok.mp hcls).symm⟩
        | _ => exact absurd h fail_ne_ok
  · rintro ⟨hbootstrap, handle, binary, others, owner, rfl, hhandle, howner, rfl⟩
    refine ⟨(), checkInvoke_eq_ok.mpr ⟨hbootstrap, handle, _, rfl, hhandle⟩, ?_⟩
    exact bind_eq_ok.mpr ⟨owner, orFail_eq_ok.mpr howner, rfl⟩

/-- **The cases of a switch over types.** -/
theorem typeCase_eq_ok {argument : Loadable} {item : Case} :
    typeCase argument = .ok item ↔ IsTypeCase argument item := by
  constructor
  · intro h
    cases argument with
    | int value => cases h; exact .int value
    | string value => cases h; exact .text value
    | cls name => cases h; exact .instanceOf name
    | dynamic name descriptor bootstrap arguments =>
        rw [typeCase, describedCase, bind_eq_ok] at h
        obtain ⟨⟨⟩, hcheck, h⟩ := h
        obtain ⟨hbootstrap, handle, rest, rfl, hhandle⟩ := checkInvoke_eq_ok.mp hcheck
        have hrest : ∃ name' descriptor' inner innerArguments constant more,
            rest = .dynamic name' descriptor' inner innerArguments :: .string constant :: more := by
          cases rest with
          | nil => exact absurd h fail_ne_ok
          | cons second others =>
              cases second with
              | dynamic name' descriptor' inner innerArguments =>
                  cases others with
                  | nil => exact absurd h fail_ne_ok
                  | cons third more =>
                      cases third with
                      | string constant =>
                          exact ⟨name', descriptor', inner, innerArguments, constant, more, rfl⟩
                      | _ => exact absurd h fail_ne_ok
              | _ => exact absurd h fail_ne_ok
        obtain ⟨name', descriptor', inner, innerArguments, constant, more, rfl⟩ := hrest
        obtain ⟨cls, hcls, hitem⟩ := bind_eq_ok.mp h
        obtain ⟨hinner, handle', binary, others, owner, rfl, hhandle', howner, rfl⟩ :=
          describedClass_eq_ok.mp hcls
        cases pure_eq_ok.mp hitem
        exact .enumConstant (.intro hbootstrap hhandle) (.intro hinner hhandle') howner
    | float bits | long value | double bits | handle target | methodType descriptor =>
        exact absurd h fail_ne_ok
  · intro h
    cases h with
    | int value | text value | instanceOf cls => rfl
    | enumConstant hdescribed hclass howner =>
        obtain ⟨hbootstrap, hhandle⟩ := hdescribed
        obtain ⟨hinner, hhandle'⟩ := hclass
        rw [typeCase, describedCase]
        refine bind_eq_ok.mpr ⟨(), checkInvoke_eq_ok.mpr ⟨hbootstrap, _, _, rfl, hhandle⟩, ?_⟩
        refine bind_eq_ok.mpr ⟨_, describedClass_eq_ok.mpr ?_, rfl⟩
        exact ⟨hinner, _, _, _, _, rfl, hhandle', howner, rfl⟩

/-- **The cases of a switch over an enum.** -/
theorem enumCase_eq_ok {owner : ClassName} {argument : Loadable} {item : Case} :
    enumCase owner argument = .ok item ↔ IsEnumCase owner argument item := by
  constructor
  · intro h
    cases argument with
    | int value => cases h; exact .int value
    | string value => cases h; exact .enumConstant value
    | cls name => cases h; exact .instanceOf name
    | float bits | long value | double bits | handle target | methodType descriptor
    | dynamic name descriptor bootstrap arguments => exact absurd h fail_ne_ok
  · intro h
    cases h <;> rfl

/-- **The class that a switch over an enum is about.** -/
theorem enumOwner_eq_ok {descriptor : MethodDescriptor} {owner : ClassName} :
    enumOwner descriptor = .ok owner ↔ SwitchesOn descriptor owner := by
  rw [enumOwner, bind_eq_ok, SwitchesOn]
  simp only [orFail_eq_ok, Option.bind_eq_some_iff, List.head?_eq_some_iff]
  constructor
  · rintro ⟨type, htype, first, ⟨rest, hparameters⟩, howner⟩
    exact ⟨type, first, rest, htype, hparameters, howner⟩
  · rintro ⟨type, first, rest, htype, hparameters, howner⟩
    exact ⟨type, htype, first, ⟨rest, hparameters⟩, howner⟩

/-- The sites of switches over enums are told by their bootstrap method. -/
theorem generate_enumSwitch {site : CallSite} {code : Code}
    (h : site.bootstrap.isStatic (bootstrap "enumSwitch") = true) :
    generate site = .ok (some code) ↔ ∃ owner cases, SwitchesOn site.descriptor owner ∧
      List.Forall₂ (IsEnumCase owner) site.arguments cases ∧ code = body cases := by
  rw [generate, if_pos h]
  simp only [bind_eq_ok, enumOwner_eq_ok, mapM_eq_ok_iff, enumCase_eq_ok, pure_eq_ok,
    Option.some.injEq]
  constructor
  · rintro ⟨owner, howner, cases, hcases, rfl⟩
    exact ⟨owner, cases, howner, hcases, rfl⟩
  · rintro ⟨owner, cases, howner, hcases, rfl⟩
    exact ⟨owner, howner, cases, hcases, rfl⟩

/-- The sites of switches over types are told by their bootstrap method. -/
theorem generate_typeSwitch {site : CallSite} {code : Code}
    (h : site.bootstrap.isStatic (bootstrap "typeSwitch") = true) :
    generate site = .ok (some code) ↔ ∃ cases,
      List.Forall₂ IsTypeCase site.arguments cases ∧ code = body cases := by
  have hother : ¬ site.bootstrap.isStatic (bootstrap "enumSwitch") = true := fun henum =>
    absurd (congrArg MethodRef.name (Handle.isStatic_inj h henum)) (by decide)
  rw [generate, if_neg hother, if_pos h]
  simp only [bind_eq_ok, mapM_eq_ok_iff, typeCase_eq_ok, pure_eq_ok, Option.some.injEq]
  constructor
  · rintro ⟨cases, hcases, rfl⟩
    exact ⟨cases, hcases, rfl⟩
  · rintro ⟨cases, hcases, rfl⟩
    exact ⟨cases, hcases, rfl⟩

end Sites

/-- **A lowered switch picks the right case.**  Run with a value and the case to start from, the code
for any cases returns -1 for nothing, and for an object the least number from there on of a case
that matches, or the number of cases if there is none.  The cases of a site are those that its
arguments stand for, in order. -/
theorem picks_least_hit :
    (∀ {V : Type} (around : Surroundings V) (cases : List Case) (subject : Option (Object V))
        (restart : Int32) (locals : UInt16 → Option (Value V)),
        cases.length ≤ 65534 → locals 0 = some (.reference subject) →
        locals 1 = some (.int restart) →
        (subject = none → Returns around (body cases) locals (.int (-1))) ∧
        ∀ object, subject = some object →
          (∀ index, IsLeast (hits around object cases restart) index →
            Returns around (body cases) locals (.int (Int32.ofNat index))) ∧
          (hits around object cases restart = ∅ →
            Returns around (body cases) locals (.int (Int32.ofNat cases.length)))) ∧
    (∀ (site : CallSite) (code : Code),
        site.bootstrap.isStatic (bootstrap "enumSwitch") = true →
        (generate site = .ok (some code) ↔ ∃ owner cases, SwitchesOn site.descriptor owner ∧
          List.Forall₂ (IsEnumCase owner) site.arguments cases ∧ code = body cases)) ∧
    (∀ (site : CallSite) (code : Code),
        site.bootstrap.isStatic (bootstrap "typeSwitch") = true →
        (generate site = .ok (some code) ↔ ∃ cases,
          List.Forall₂ IsTypeCase site.arguments cases ∧ code = body cases)) := by
  refine ⟨?_, fun _ _ => generate_enumSwitch, fun _ _ => generate_typeSwitch⟩
  intro V around cases subject restart locals hsmall hsubject hrestart
  constructor
  · intro hnull
    rw [hnull] at hsubject
    exact returns_null hsubject
  · intro object hobject
    rw [hobject] at hsubject
    have hreturns : Returns around (body cases) locals
        (.int (Int32.ofNat (firstMatch around object restart 0 cases))) :=
      returns_firstMatch hsmall hsubject hrestart
    constructor
    · intro index hleast
      rwa [firstMatch_of_isLeast (by omega) hleast] at hreturns
    · intro hempty
      rwa [firstMatch_of_empty (by omega) hempty] at hreturns

section Example

/-- A program with texts and the constants of an enum, which are known by their names. -/
def colors : Surroundings JavaString where
  instanceOf
    | .text _, cls => cls = ClassName.javaString || cls = "java/lang/CharSequence"
    | .cls _, cls => cls = ClassName.javaClass
    | .other _, cls => cls = "a/Color"
  intValue _ := 0
  equals text argument := argument = some (.text text)
  name
    | .other name => some name
    | _ => none
  toText _ := none
  floatText _ := ⟨[]⟩
  doubleText _ := ⟨[]⟩
  constant _ := .reference none
  field _ _ := .reference none
  box _ _ := .text ⟨[]⟩
  areEqual first second := first = second
  hash _ := 0
  simpleName _ := ⟨[]⟩

/-- A case of each kind. -/
def mixedCases : List Case :=
  [.int 42, .text (.ofString "hello"), .instanceOf "java/lang/CharSequence",
    .enumConstant "a/Color" (.ofString "GREEN")]

/-- The variables of a switch over a value, from a case on. -/
def switchLocals (subject : Option (Object JavaString)) (restart : Int32) :
    UInt16 → Option (Value JavaString)
  | 0 => some (.reference subject)
  | 1 => some (.int restart)
  | _ => none

/-- A site that switches over the constants of an enum. -/
def colorSite : CallSite :=
  ⟨"enumSwitch", "(La/Color;I)I", .method (.static false) (bootstrap "enumSwitch"),
    [.string (.ofString "RED"), .string (.ofString "GREEN")]⟩

/-- A text is an instance of a class and equals another text, a constant has its name, nothing is
told from all of them, and the case to start from may be behind the last one. -/
theorem picks_least_hit_mixed :
    Returns colors (body mixedCases) (switchLocals (some (.text (.ofString "hello"))) (-7))
      (.int 1) ∧
    Returns colors (body mixedCases) (switchLocals (some (.text (.ofString "hello"))) 2)
      (.int 2) ∧
    Returns colors (body mixedCases) (switchLocals (some (.other (.ofString "GREEN"))) 0)
      (.int 3) ∧
    Returns colors (body mixedCases) (switchLocals (some (.other (.ofString "GREEN"))) 9)
      (.int 4) ∧
    Returns colors (body mixedCases) (switchLocals none 2) (.int (-1)) ∧
    generate colorSite = .ok (some (body
      [.enumConstant "a/Color" (.ofString "RED"), .enumConstant "a/Color" (.ofString "GREEN")])) := by
  have hrun (subject : Option (Object JavaString)) (restart : Int32) :=
    picks_least_hit.1 colors mixedCases subject restart (switchLocals subject restart) (by decide)
      rfl rfl
  have hsite := picks_least_hit.2.1 colorSite (body
    [.enumConstant "a/Color" (.ofString "RED"), .enumConstant "a/Color" (.ofString "GREEN")]) rfl
  refine ⟨?_, ?_, ?_, ?_, ?_, ?_⟩
  · exact ((hrun _ _).2 _ rfl).1 1 (isLeast_of_firstMatch (by decide) rfl (by decide))
  · exact ((hrun _ _).2 _ rfl).1 2 (isLeast_of_firstMatch (by decide) rfl (by decide))
  · exact ((hrun _ _).2 _ rfl).1 3 (isLeast_of_firstMatch (by decide) rfl (by decide))
  · exact ((hrun _ _).2 _ rfl).2 (hits_eq_empty (by decide) rfl)
  · exact (hrun none 2).1 rfl
  · refine hsite.mpr ⟨"a/Color", _, ?_, .cons (.enumConstant _) (.cons (.enumConstant _) .nil), rfl⟩
    have hparse : MethodType.parse colorSite.descriptor =
        .ok ⟨[.object "a/Color", .int], some .int⟩ := by cbv
    exact ⟨_, _, _, hparse, rfl, rfl⟩

end Example

end Switch

end Downlevel
