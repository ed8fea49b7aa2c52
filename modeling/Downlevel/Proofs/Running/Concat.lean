import Mathlib.Algebra.GroupWithZero.Nat
import Downlevel.Lower.Concat
import Downlevel.Proofs.Lower.Instructions
import Downlevel.Proofs.Running.Building

/-!
# What a lowered concatenation returns

A recipe describes a text: its marks stand for the texts of the arguments and of the constants, in
order, and everything else in it for itself.  The code that takes the place of a concatenation
returns that text.  It walks over the recipe, the arguments and the constants at once, and the slot
it loads from moves on by the size of each argument; `Carries` says that this slot is the right one.

* `described?` — the text that a recipe describes;
* `Running.callLocals` — where a method that is called finds its arguments;
* `returns_described` — the code returns the text, and there is code unless the recipe asks for more
  than is given.
-/

namespace Downlevel

namespace Running

variable {V : Type}

/-- How many slots the values of some types take. -/
def slots (types : List JavaType) : Nat :=
  (types.map fun type => type.size.toNat).sum

/-- The argument that starts in a slot, if the first one starts in slot zero. -/
def argument? : List JavaType → List (Value V) → Nat → Option (Value V)
  | type :: types, value :: values, slot =>
      if slot = 0 then some value
      else if slot < type.size.toNat then none
      else argument? types values (slot - type.size.toNat)
  | _, _, _ => none

/-- The local variables of a static method that is called with arguments. -/
def callLocals (types : List JavaType) (arguments : List (Value V)) : UInt16 → Option (Value V) :=
  fun slot => argument? types arguments slot.toNat

/-- Values are in local variables, the first of them in `slot`, and each behind the one before. -/
def Carries (locals : UInt16 → Option (Value V)) : UInt16 → List JavaType → List (Value V) → Prop
  | slot, type :: types, value :: values =>
      locals slot = some value ∧ Carries locals (slot + type.size) types values
  | _, _, _ => True

/-- A value takes one slot or two. -/
theorem size_pos (type : JavaType) : 0 < type.size.toNat := by
  unfold JavaType.size
  split <;> decide

/-- What is found behind a slot is carried from that slot on. -/
theorem carries_of_argument {locals : UInt16 → Option (Value V)} {types : List JavaType}
    {values : List (Value V)} {slot : UInt16}
    (hlocals : ∀ index : UInt16, slot.toNat ≤ index.toNat →
      locals index = argument? types values (index.toNat - slot.toNat))
    (hsmall : slot.toNat + slots types ≤ 65535) : Carries locals slot types values := by
  induction types generalizing slot values with
  | nil => trivial
  | cons type types ih =>
      cases values with
      | nil => trivial
      | cons value values =>
          have hslots : slots (type :: types) = type.size.toNat + slots types := by
            simp [slots]
          have hsize := size_pos type
          have hnext : (slot + type.size).toNat = slot.toNat + type.size.toNat := by
            rw [UInt16.toNat_add]
            omega
          refine ⟨?_, ih ?_ ?_⟩
          · rw [hlocals slot (Nat.le_refl _), Nat.sub_self]
            rfl
          · intro index hindex
            rw [hlocals index (by omega), argument?, if_neg (by omega), if_neg (by omega), hnext,
              Nat.sub_sub]
          · omega

/-- **A called method carries its arguments** from slot zero on. -/
theorem carries_callLocals {types : List JavaType} (arguments : List (Value V))
    (hsmall : slots types ≤ 65535) : Carries (callLocals types arguments) 0 types arguments := by
  refine carries_of_argument (fun index _ => rfl) ?_
  have hzero : (0 : UInt16).toNat = 0 := rfl
  omega

end Running

namespace Concat

open Running

variable {V : Type}

/-- The text that a recipe describes with the texts of arguments and constants, or nothing if it
asks for more of them than there are. -/
def described? : List UInt16 → List JavaString → List JavaString → Option (List UInt16)
  | [], _, _ => some []
  | unit :: recipe, arguments, constants =>
      if unit = argumentMark then
        match arguments with
        | [] => none
        | text :: arguments => (described? recipe arguments constants).map (text.units ++ ·)
      else if unit = constantMark then
        match constants with
        | [] => none
        | text :: constants => (described? recipe arguments constants).map (text.units ++ ·)
      else (described? recipe arguments constants).map (unit :: ·)

/-- The text of a constant, as concatenation shows it. -/
def constantText (around : Surroundings V) (constant : Loadable) : JavaString :=
  match constant.type with
  | .ok type => around.textOf type (around.load constant)
  | .error _ => nullText

/-- The text that the parts of a recipe describe. -/
def describedParts? : List Part → List JavaString → List JavaString → Option (List UInt16)
  | [], _, _ => some []
  | .literal text :: parts, arguments, constants =>
      (describedParts? parts arguments constants).map (text.units ++ ·)
  | .argument :: parts, text :: arguments, constants =>
      (describedParts? parts arguments constants).map (text.units ++ ·)
  | .constant :: parts, arguments, text :: constants =>
      (describedParts? parts arguments constants).map (text.units ++ ·)
  | _ :: _, _, _ => none

section Parts

variable (arguments constants : List JavaString)

/-- A text that has begun is described before what follows it. -/
theorem describedParts_literalPart (text : List UInt16) (parts : List Part) :
    describedParts? (literalPart text ++ parts) arguments constants =
      (describedParts? parts arguments constants).map (text.reverse ++ ·) := by
  cases text with
  | nil =>
      rw [literalPart]
      simp
  | cons unit text =>
      rw [literalPart]
      simp [describedParts?]

/-- **The parts of a recipe describe what the recipe describes.** -/
theorem describedParts_partsFrom (text recipe : List UInt16) :
    describedParts? (partsFrom text recipe) arguments constants =
      (described? recipe arguments constants).map (text.reverse ++ ·) := by
  induction recipe generalizing text arguments constants with
  | nil =>
      have hliteral := describedParts_literalPart arguments constants text []
      rw [List.append_nil] at hliteral
      rw [partsFrom, hliteral]
      rfl
  | cons unit recipe ih =>
      unfold described?
      rw [partsFrom]
      by_cases hargument : unit = argumentMark
      · rw [if_pos hargument, if_pos hargument, describedParts_literalPart]
        cases arguments with
        | nil => rfl
        | cons first arguments => simp [describedParts?, ih]
      rw [if_neg hargument, if_neg hargument]
      by_cases hconstant : unit = constantMark
      · rw [if_pos hconstant, if_pos hconstant, describedParts_literalPart]
        cases constants with
        | nil => rfl
        | cons first constants => simp [describedParts?, ih]
      rw [if_neg hconstant, if_neg hconstant, ih, Option.map_map]
      simp [Function.comp_def]

end Parts

/-- Every mark for an argument is a part of its own. -/
theorem count_argument_partsFrom (text recipe : List UInt16) :
    (partsFrom text recipe).count .argument = recipe.count argumentMark := by
  have hliteral (text : List UInt16) : (literalPart text).count .argument = 0 := by
    cases text <;> simp [literalPart]
  fun_induction partsFrom text recipe with
  | case1 text => exact hliteral text
  | case2 text rest ih => simp [hliteral, ih]
  | case3 text rest hother ih => simp [hliteral, ih, constantMark, argumentMark]
  | case4 text unit rest hargument hconstant ih => rw [ih, List.count_cons_of_ne hargument]

/-- Every mark for a constant is a part of its own. -/
theorem count_constant_partsFrom (text recipe : List UInt16) :
    (partsFrom text recipe).count .constant = recipe.count constantMark := by
  have hliteral (text : List UInt16) : (literalPart text).count .constant = 0 := by
    cases text <;> simp [literalPart]
  fun_induction partsFrom text recipe with
  | case1 text => exact hliteral text
  | case2 text rest ih => simp [hliteral, ih, constantMark, argumentMark]
  | case3 text rest hother ih => simp [hliteral, ih]
  | case4 text unit rest hargument hconstant ih => rw [ih, List.count_cons_of_ne hconstant]

/-- **Appending fails only for want of arguments or constants**, if the constants have types. -/
theorem appendParts_succeeds {subject : Subject} {parts : List Part} {parameters : List JavaType}
    {slot : UInt16} {constants : List Loadable}
    (htypes : ∀ constant ∈ constants, ∃ type, constant.type = .ok type) :
    (∃ instructions, appendParts subject parts parameters slot constants = .ok instructions) ↔
      parts.count .argument ≤ parameters.length ∧ parts.count .constant ≤ constants.length := by
  fun_induction appendParts subject parts parameters slot constants with
  | case1 => simp
  | case2 text rest parameters slot constants ih =>
      have hargument : Part.literal text ≠ .argument := by simp
      have hconstant : Part.literal text ≠ .constant := by simp
      rw [exists_return_eq_ok, ih htypes, List.count_cons_of_ne hargument,
        List.count_cons_of_ne hconstant]
  | case3 rest slot constants => simp
  | case4 rest slot constants parameter parameters ih =>
      rw [exists_return_eq_ok, ih htypes]
      simp
  | case5 rest parameters slot => simp
  | case6 rest parameters slot constant constants ih =>
      obtain ⟨⟨type, htype⟩, hrest⟩ := List.forall_mem_cons.mp htypes
      rw [htype]
      have hbind : (do
          let type ← Except.ok type
          return .ldc constant :: Fragment.append type ::
            (← appendParts subject rest parameters slot constants)) =
          (do return Instruction.ldc constant :: Fragment.append type ::
            (← appendParts subject rest parameters slot constants) : Except Error _) := rfl
      rw [hbind, exists_return_eq_ok, ih hrest]
      simp

section Running

variable (around : Surroundings V) {locals : UInt16 → Option (Value V)}

/-- **Parts are appended** one after the other. -/
theorem performAll_appendParts {subject : Subject} {parts : List Part} {types : List JavaType}
    {slot : UInt16} {constants : List Loadable} {instructions : List Instruction}
    (h : appendParts subject parts types slot constants = .ok instructions)
    {values : List (Value V)} (hvalues : List.Forall₂ Value.IsOf types values)
    (hcarries : Carries locals slot types values)
    (hconstants : ∀ constant ∈ constants, ∀ type, constant.type = .ok type →
      (around.load constant).IsOf type)
    (text : JavaString) (rest : List Instruction) :
    ∃ more, describedParts? parts (List.zipWith around.textOf types values)
        (constants.map (constantText around)) = some more ∧
      performAll around (building locals text) (instructions ++ rest) =
        performAll around (building locals (text.append ⟨more⟩)) rest := by
  fun_induction appendParts subject parts types slot constants
    generalizing instructions values text with
  | case1 =>
      cases h
      exact ⟨[], rfl, by simp [JavaString.append]⟩
  | case2 literal parts types slot constants ih =>
      simp only [bind_eq_ok, pure_eq_ok] at h
      obtain ⟨others, hothers, rfl⟩ := h
      obtain ⟨more, hmore, hrun⟩ := ih hothers hvalues hcarries hconstants (text.append literal)
      refine ⟨literal.units ++ more, by rw [describedParts?, hmore]; rfl, ?_⟩
      rw [List.append_assoc, performAll_appendString, hrun]
      simp [JavaString.append]
  | case3 => cases h
  | case4 parts slot constants type types ih =>
      simp only [bind_eq_ok, pure_eq_ok] at h
      obtain ⟨others, hothers, rfl⟩ := h
      cases hvalues with
      | @cons _ value _ values hvalue hvalues =>
          obtain ⟨hlocal, hcarries⟩ := hcarries
          obtain ⟨more, hmore, hrun⟩ :=
            ih hothers hvalues hcarries hconstants (text.append (around.textOf type value))
          refine ⟨(around.textOf type value).units ++ more, ?_, ?_⟩
          · rw [List.zipWith_cons_cons, describedParts?, hmore]
            rfl
          · have hload : perform around (building locals text) (Fragment.load type slot) =
                .next ⟨[value, .builder 0], locals, [some text]⟩ :=
              perform_load around [.builder 0] locals [some text] hlocal hvalue.kind_eq
            rw [List.cons_append, performAll_cons around _ hload, List.cons_append,
              performAll_appendValue around locals text _ hvalue, hrun]
            simp [JavaString.append]
  | case5 => cases h
  | case6 parts types slot constant constants ih =>
      simp only [bind_eq_ok, pure_eq_ok] at h
      obtain ⟨type, htype, others, hothers, rfl⟩ := h
      obtain ⟨hconstant, hconstants⟩ := List.forall_mem_cons.mp hconstants
      have htext : constantText around constant = around.textOf type (around.load constant) := by
        rw [constantText, htype]
      obtain ⟨more, hmore, hrun⟩ :=
        ih hothers hvalues hcarries hconstants (text.append (constantText around constant))
      refine ⟨(constantText around constant).units ++ more, ?_, ?_⟩
      · rw [List.map_cons, describedParts?, hmore]
        rfl
      · have hload : perform around (building locals text) (.ldc constant) =
            .next ⟨[around.load constant, .builder 0], locals, [some text]⟩ :=
          perform_ldc around [.builder 0] locals [some text] constant
        rw [List.cons_append, performAll_cons around _ hload, List.cons_append,
          performAll_appendValue around locals text _ (hconstant type htype), ← htext, hrun]
        simp [JavaString.append]

/-- **The code for a recipe returns the text that it describes.** -/
theorem returns_of_body {descriptor : MethodDescriptor} {type : MethodType} {recipe : JavaString}
    {constants : List Loadable} {code : Code} (h : body descriptor recipe constants = .ok code)
    (hparse : MethodType.parse descriptor = .ok type) (hsmall : slots type.parameters ≤ 65535)
    {arguments : List (Value V)} (harguments : List.Forall₂ Value.IsOf type.parameters arguments)
    (hconstants : ∀ constant ∈ constants, ∀ type, constant.type = .ok type →
      (around.load constant).IsOf type) :
    ∃ text, described? recipe.units (List.zipWith around.textOf type.parameters arguments)
        (constants.map (constantText around)) = some text ∧
      Returns around code (callLocals type.parameters arguments) (.ofText ⟨text⟩) := by
  obtain ⟨found, hfound, h⟩ := bind_eq_ok.mp h
  obtain rfl : found = type := Except.ok.inj (hfound.symm.trans hparse)
  obtain ⟨appended, happended, hcode⟩ := bind_eq_ok.mp h
  obtain ⟨text, htext, hrun⟩ := performAll_appendParts around happended harguments
    (carries_callLocals arguments hsmall) hconstants ⟨[]⟩ Fragment.returnBuilt
  rw [parts.eq_1, describedParts_partsFrom] at htext
  refine ⟨text, by simpa using htext, ?_⟩
  rw [← pure_eq_ok.mp hcode]
  refine Returns.of_sequence around ?_
  rw [List.append_assoc, performAll_construct, hrun, performAll_returnBuilt]
  rfl

end Running

/-- **There is code for a recipe** unless it asks for more arguments or constants than there are. -/
theorem body_succeeds {descriptor : MethodDescriptor} {type : MethodType} {recipe : JavaString}
    {constants : List Loadable} (hparse : MethodType.parse descriptor = .ok type)
    (htypes : ∀ constant ∈ constants, ∃ type, constant.type = .ok type) :
    (∃ code, body descriptor recipe constants = .ok code) ↔
      recipe.units.count argumentMark ≤ type.parameters.length ∧
        recipe.units.count constantMark ≤ constants.length := by
  have hbody : body descriptor recipe constants = (do
      return Code.ofPieces <| Piece.sequence <| Fragment.construct ClassName.stringBuilder ++
        (← appendParts ⟨recipe, descriptor⟩ (parts recipe) type.parameters 0 constants) ++
        Fragment.returnBuilt) := by
    rw [body, hparse]
    rfl
  rw [hbody, exists_return_eq_ok, appendParts_succeeds htypes, parts, count_argument_partsFrom,
    count_constant_partsFrom]

/-- A recipe of nothing but marks for arguments describes the arguments. -/
theorem described_marks (arguments : List JavaString) {types : List JavaType}
    (h : types.length = arguments.length) :
    described? (types.map fun _ => argumentMark) arguments [] =
      some (arguments.flatMap JavaString.units) := by
  induction arguments generalizing types with
  | nil =>
      rw [List.length_eq_zero_iff.mp h]
      rfl
  | cons text arguments ih =>
      cases types with
      | nil => cases h
      | cons type types =>
          have hfirst (marks : List UInt16) :
              described? (argumentMark :: marks) (text :: arguments) [] =
                (described? marks arguments []).map (text.units ++ ·) := rfl
          rw [List.map_cons, hfirst, ih (Nat.succ.inj h)]
          rfl

/-- There is code for every site that concatenates all its arguments. -/
theorem generate_plain {site : CallSite} {type : MethodType}
    (hsite : site.bootstrap.isStatic plainBootstrap = true)
    (hparse : MethodType.parse site.descriptor = .ok type) :
    ∃ code, generate site = .ok (some code) ∧
      body site.descriptor ⟨type.parameters.map fun _ => argumentMark⟩ [] = .ok code := by
  have hcounts : (type.parameters.map fun _ => argumentMark).count argumentMark ≤
        type.parameters.length ∧
      (type.parameters.map fun _ => argumentMark).count constantMark ≤ 0 := by
    have hother : constantMark ∉ type.parameters.map fun _ => argumentMark := by
      simp [argumentMark, constantMark]
    exact ⟨by simp, (List.count_eq_zero_of_not_mem hother).le⟩
  obtain ⟨code, hcode⟩ := (body_succeeds hparse (List.forall_mem_nil _)).mpr hcounts
  refine ⟨code, ?_, hcode⟩
  rw [generate, if_pos hsite]
  exact bind_eq_ok.mpr ⟨type, hparse, bind_eq_ok.mpr ⟨code, hcode, rfl⟩⟩

/-- The code for a site that follows a recipe is the code for the recipe. -/
theorem generate_recipe {site : CallSite} {recipe : JavaString} {constants : List Loadable}
    (hsite : site.bootstrap.isStatic recipeBootstrap = true)
    (harguments : site.arguments = .string recipe :: constants) :
    generate site = (do return some (← body site.descriptor recipe constants)) := by
  have hother : ¬ site.bootstrap.isStatic plainBootstrap = true := fun hplain =>
    absurd (congrArg MethodRef.name (Handle.isStatic_inj hsite hplain)) (by decide)
  rw [generate, if_neg hother, if_pos hsite, harguments]

/-- **A lowered concatenation returns the text that its recipe describes.**  If there is code for a
recipe, then, called with arguments of the types of the site, it returns the text that the recipe
describes with the texts of the arguments and of the constants.  There is none just if the recipe
asks for more arguments or constants than there are.  A site that follows a recipe gets the code for
it, and a site that concatenates its arguments gets code that returns their texts in order. -/
theorem returns_described :
    (∀ {V : Type} (around : Surroundings V) (descriptor : MethodDescriptor) (type : MethodType)
        (recipe : JavaString) (constants : List Loadable) (code : Code) (arguments : List (Value V)),
        MethodType.parse descriptor = .ok type → slots type.parameters ≤ 65535 →
        List.Forall₂ Value.IsOf type.parameters arguments →
        (∀ constant ∈ constants, ∀ type, constant.type = .ok type →
          (around.load constant).IsOf type) →
        body descriptor recipe constants = .ok code →
        ∃ text, described? recipe.units (List.zipWith around.textOf type.parameters arguments)
            (constants.map (constantText around)) = some text ∧
          Returns around code (callLocals type.parameters arguments) (.ofText ⟨text⟩)) ∧
    (∀ (descriptor : MethodDescriptor) (type : MethodType) (recipe : JavaString)
        (constants : List Loadable),
        MethodType.parse descriptor = .ok type →
        (∀ constant ∈ constants, ∃ type, constant.type = .ok type) →
        ((∃ error, body descriptor recipe constants = .error error) ↔
          type.parameters.length < recipe.units.count argumentMark ∨
            constants.length < recipe.units.count constantMark)) ∧
    (∀ (site : CallSite) (recipe : JavaString) (constants : List Loadable),
        site.bootstrap.isStatic recipeBootstrap = true →
        site.arguments = .string recipe :: constants →
        generate site = (do return some (← body site.descriptor recipe constants))) ∧
    (∀ {V : Type} (around : Surroundings V) (site : CallSite) (type : MethodType)
        (arguments : List (Value V)),
        site.bootstrap.isStatic plainBootstrap = true →
        MethodType.parse site.descriptor = .ok type → slots type.parameters ≤ 65535 →
        List.Forall₂ Value.IsOf type.parameters arguments →
        ∃ code, generate site = .ok (some code) ∧
          Returns around code (callLocals type.parameters arguments)
            (.ofText ⟨(List.zipWith around.textOf type.parameters arguments).flatMap
              JavaString.units⟩)) := by
  refine ⟨?_, ?_, fun _ _ _ => generate_recipe, ?_⟩
  · intro V around descriptor type recipe constants code arguments hparse hsmall harguments
      hconstants hbody
    exact returns_of_body around hbody hparse hsmall harguments hconstants
  · intro descriptor type recipe constants hparse htypes
    have hsucceeds : (∃ code, body descriptor recipe constants = .ok code) ↔ _ :=
      body_succeeds hparse htypes
    cases hbody : body descriptor recipe constants with
    | ok code =>
        have hcounts := hsucceeds.mp ⟨code, hbody⟩
        have hnone : ¬ ∃ error, (Except.ok code : Except Error Code) = .error error := by
          rintro ⟨error, herror⟩
          cases herror
        exact iff_of_false hnone (by omega)
    | error error =>
        have hnot : ¬ ∃ code, body descriptor recipe constants = .ok code := by
          rintro ⟨code, hcode⟩
          rw [hbody] at hcode
          cases hcode
        have hcounts := mt hsucceeds.mpr hnot
        exact iff_of_true ⟨error, rfl⟩ (by omega)
  · intro V around site type arguments hsite hparse hsmall harguments
    obtain ⟨code, hgenerate, hbody⟩ := generate_plain hsite hparse
    obtain ⟨text, htext, hreturns⟩ :=
      returns_of_body around hbody hparse hsmall harguments (by simp)
    have hlength : type.parameters.length =
        (List.zipWith around.textOf type.parameters arguments).length := by
      rw [List.length_zipWith, ← harguments.length_eq, Nat.min_self]
    rw [List.map_nil, described_marks _ hlength, Option.some.injEq] at htext
    rw [← htext] at hreturns
    exact ⟨code, hgenerate, hreturns⟩

section Example

/-- A program without objects of its own. -/
def bare : Surroundings Empty where
  instanceOf _ _ := false
  intValue _ := 0
  equals text argument := argument = some (.text text)
  name _ := none
  toText _ := none
  floatText _ := ⟨[]⟩
  doubleText _ := ⟨[]⟩
  constant _ := .reference none
  field _ _ := .reference none
  box _ _ := .text ⟨[]⟩
  areEqual first second := first = second
  hash _ := 0
  simpleName _ := ⟨[]⟩

/-- A number of two slots, a truth value and a reference. -/
def mixedTypes : List JavaType :=
  [.long, .boolean, .object "java/lang/Object"]

/-- Values of those types. -/
def mixedArguments : List (Value Empty) :=
  [.long (-5), .int 1, .reference none]

/-- A site for them, with half a character in front and a constant behind the first one. -/
def mixedSite : CallSite :=
  ⟨"mixed", "(JZLjava/lang/Object;)Ljava/lang/String;", .method (.static false) recipeBootstrap,
    [.string ⟨[0xd800, 1, 2, 1, 1]⟩, .int 7]⟩

/-- Arguments are shown by their types and nothing as `null`, a number of two slots in front of them;
one argument is too few for two marks; and a site without a recipe shows them one by one. -/
theorem returns_described_mixed :
    (∃ code, generate mixedSite = .ok (some code) ∧
      Returns bare code (callLocals mixedTypes mixedArguments)
        (.ofText ⟨0xd800 :: (JavaString.ofString "-57truenull").units⟩)) ∧
    (∃ error, body "(J)Ljava/lang/String;" ⟨[1, 1]⟩ [] = .error error) ∧
    ∃ code, generate { mixedSite with
        bootstrap := .method (.static false) plainBootstrap } = .ok (some code) ∧
      Returns bare code (callLocals mixedTypes mixedArguments)
        (.ofText (JavaString.ofString "-5truenull")) := by
  have hparse : MethodType.parse mixedSite.descriptor =
      .ok ⟨mixedTypes, some (.object ClassName.javaString)⟩ := by cbv
  have htyped : List.Forall₂ Value.IsOf mixedTypes mixedArguments :=
    .cons ⟨rfl, by simp, fun h => absurd h (by decide)⟩
      (.cons ⟨rfl, by simp, fun h => absurd h (by decide)⟩
        (.cons ⟨rfl, by simp, fun h => absurd h (by decide)⟩ .nil))
  have hconstants : ∀ constant ∈ [Loadable.int 7], ∀ type, constant.type = .ok type →
      (bare.load constant).IsOf type := by
    rintro constant hconstant type htype
    obtain rfl := List.mem_singleton.mp hconstant
    cases htype
    exact ⟨rfl, by simp [Surroundings.load], fun h => absurd h (by decide)⟩
  refine ⟨?_, ?_, ?_⟩
  · obtain ⟨code, hcode⟩ :
        ∃ code, body mixedSite.descriptor ⟨[0xd800, 1, 2, 1, 1]⟩ [.int 7] = .ok code :=
      (body_succeeds hparse (by simp [Loadable.type])).mpr (by decide)
    obtain ⟨text, htext, hreturns⟩ := returns_described.1 bare _ _ _ _ code mixedArguments hparse
      (by decide) htyped hconstants hcode
    have hsame : some text = some (0xd800 :: (JavaString.ofString "-57truenull").units) :=
      htext.symm.trans (by decide +kernel)
    obtain rfl := Option.some.inj hsame
    refine ⟨code, ?_, hreturns⟩
    rw [returns_described.2.2.1 mixedSite _ _ (by simp [mixedSite, Handle.isStatic]) rfl, hcode]
    rfl
  · have hshort : MethodType.parse "(J)Ljava/lang/String;" =
        .ok ⟨[.long], some (.object ClassName.javaString)⟩ := by cbv
    exact (returns_described.2.1 _ _ _ _ hshort (by simp)).mpr (.inl (by decide))
  · obtain ⟨code, hgenerate, hreturns⟩ := returns_described.2.2.2 bare
      { mixedSite with bootstrap := .method (.static false) plainBootstrap } _ mixedArguments
      (by simp [Handle.isStatic]) hparse (by decide) htyped
    exact ⟨code, hgenerate, hreturns⟩

end Example

end Concat

end Downlevel
