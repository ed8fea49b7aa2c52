import Downlevel.Proofs.Descriptor

/-!
# Descriptors are read by their grammar

The grammar of descriptors has three rules for types, and one each for the descriptors of fields and
of methods.  It says nothing about values: whether a text is a descriptor is told by a derivation.
The readers go over a text once and never look back, so it has to be seen that they take up just the
part of the text that belongs to a type, whatever stands behind it.

Both sides meet in how types are written.  A text is derived from the grammar exactly if some type in
order is written as that text; and a type in order is read from what it is written as, with any rest
behind it.  So a text has one type at most, and a list of parameters falls apart in one way only.

* `DescriptorGrammar.fieldDescriptor_iff`, `DescriptorGrammar.methodDescriptor_iff` — texts of the
  grammar are what types in order are written as;
* `JavaType.read_of_eq_append`, `MethodType.readParameters_write` — a type is read from what it is
  written as, in front of any rest;
* `DescriptorGrammar.parsed_exactly` — **descriptors are accepted exactly by the grammar**, and
  reading and writing undo each other.
-/

namespace Downlevel

/-! ## The grammar -/

namespace DescriptorGrammar

/-- The letters of the primitive types. -/
def letters : List Char :=
  ['B', 'C', 'D', 'F', 'I', 'J', 'S', 'Z']

/-- A text is derived from the rules for types: a letter, a class name between `L` and a semicolon, or
a bracket and a type. -/
inductive FieldType : List Char → Prop where
  | primitive {letter : Char} (h : letter ∈ letters) : FieldType [letter]
  | object {name : List Char} (hne : name ≠ []) (hname : ';' ∉ name) :
      FieldType ('L' :: (name ++ [';']))
  | array {text : List Char} (h : FieldType text) : FieldType ('[' :: text)

/-- How many brackets a text begins with. -/
def brackets (text : List Char) : Nat :=
  (text.takeWhile (· = '[')).length

/-- A text is the descriptor of a field: a type with at most 255 brackets in front. -/
def FieldDescriptor (text : List Char) : Prop :=
  FieldType text ∧ brackets text ≤ 255

/-- A text is what stands for the result in the descriptor of a method. -/
def ReturnDescriptor (text : List Char) : Prop :=
  FieldDescriptor text ∨ text = ['V']

/-- A text is the descriptor of a method: types between parentheses, and a result. -/
def MethodDescriptor (text : List Char) : Prop :=
  ∃ (parameters : List (List Char)) (result : List Char),
    (∀ parameter ∈ parameters, FieldDescriptor parameter) ∧ ReturnDescriptor result ∧
      text = '(' :: (parameters.flatten ++ ')' :: result)

end DescriptorGrammar

/-! ## Types in order -/

/-- A class name in a type is not empty and holds no semicolon. -/
def BaseType.Valid (type : BaseType) : Prop :=
  ∀ name, type = .object name → name ≠ "" ∧ ';' ∉ name.toList

/-- A type is in order: it has at most 255 dimensions, and its class name is in order. -/
structure JavaType.Valid (type : JavaType) : Prop where
  dimensions : type.dimensions ≤ 255
  base : type.base.Valid

/-- The type of a method is in order: all types in it are. -/
structure MethodType.Valid (type : MethodType) : Prop where
  parameters : ∀ parameter ∈ type.parameters, parameter.Valid
  result : ∀ result, type.result = some result → result.Valid

namespace BaseType

/-- A type is written with a character in front that is no bracket, no parenthesis and no `V`. -/
theorem exists_write_eq_cons (type : BaseType) :
    ∃ c rest, type.write.toList = c :: rest ∧ c ≠ '[' ∧ c ≠ ')' ∧ c ≠ 'V' := by
  cases type with
  | object name => exact ⟨'L', name.toList ++ [';'], by simp [write], by decide⟩
  | _ => exact ⟨_, _, rfl, by decide⟩

/-- The letters that stand for types are those of the grammar. -/
theorem mem_letters_iff {letter : Char} :
    letter ∈ DescriptorGrammar.letters ↔ ∃ type, ofLetter? letter = some type := by
  constructor
  · intro h
    simp only [DescriptorGrammar.letters, List.mem_cons, List.not_mem_nil, or_false] at h
    rcases h with rfl | rfl | rfl | rfl | rfl | rfl | rfl | rfl <;> exact ⟨_, rfl⟩
  · rintro ⟨type, h⟩
    unfold ofLetter? at h
    split at h <;> cases h <;> decide

/-- A type that a letter stands for is no class. -/
theorem valid_of_ofLetter {letter : Char} {type : BaseType} (h : ofLetter? letter = some type) :
    type.Valid := by
  rintro name rfl
  unfold ofLetter? at h
  split at h <;> cases h

/-- A name that is split off holds no semicolon. -/
theorem not_mem_of_splitName {done chars name : List Char} {after : Shorter chars}
    (hdone : ';' ∉ done) (h : splitName done chars = some (name, after)) : ';' ∉ name := by
  induction chars generalizing done with
  | nil => cases h
  | cons c rest ih =>
      unfold splitName at h
      split at h
      next =>
        cases h
        simpa using hdone
      next hc =>
        split at h
        next name' after' _ hsplit =>
          cases h
          refine ih ?_ hsplit
          simpa [hdone] using Ne.symm hc
        next => cases h

/-- A name without a semicolon is split off at the semicolon behind it. -/
theorem splitName_append {name : List Char} (hname : ';' ∉ name) (done rest : List Char) :
    ∃ h, splitName done (name ++ ';' :: rest) = some (done.reverse ++ name, ⟨rest, h⟩) := by
  induction name generalizing done with
  | nil => exact ⟨by simp, by simp [splitName]⟩
  | cons c name ih =>
      have hc : c ≠ ';' := fun heq => hname (heq ▸ List.mem_cons_self)
      obtain ⟨h, hsplit⟩ := ih (fun hmem => hname (List.mem_cons_of_mem c hmem)) (c :: done)
      refine ⟨Nat.lt_succ_of_lt h, ?_⟩
      simp [splitName, hc, hsplit]

/-- A type that is read is in order. -/
theorem valid_of_read {chars : List Char} {type : BaseType} {after : Shorter chars}
    (h : read chars = .ok (type, after)) : type.Valid := by
  cases chars with
  | nil => cases h
  | cons c rest =>
      rw [read] at h
      split at h
      next =>
        split at h
        next => cases h
        next name after' _ hsplit =>
          split at h
          next => cases h
          next hsome =>
            cases h
            rintro _ ⟨⟩
            have hname := not_mem_of_splitName List.not_mem_nil hsplit
            refine ⟨fun hempty => hsome ?_, by simpa using hname⟩
            simpa using hempty
      next =>
        split at h
        next type' htype =>
          cases h
          exact valid_of_ofLetter htype
        next => cases h

/-- A type in order is read from the front of a text that begins with what it is written as. -/
theorem read_of_eq_append {type : BaseType} (htype : type.Valid) {chars rest : List Char}
    (h : chars = type.write.toList ++ rest) : ∃ hlt, read chars = .ok (type, ⟨rest, hlt⟩) := by
  cases type with
  | object name =>
      obtain ⟨hne, hname⟩ := htype name rfl
      obtain ⟨hlt, hsplit⟩ := splitName_append hname [] rest
      have hsome : name.toList.isEmpty = false := by
        rw [List.isEmpty_eq_false_iff]
        exact fun hnil => hne (String.toList_eq_nil_iff.mp hnil)
      have htext : chars = 'L' :: (name.toList ++ ';' :: rest) := by simp [h, write]
      subst htext
      refine ⟨Nat.lt_succ_of_lt hlt, ?_⟩
      rw [read, if_pos rfl, hsplit]
      simp [hsome]
  | _ =>
      subst h
      exact ⟨Nat.lt_succ_self _, rfl⟩

end BaseType

/-- Brackets are counted up to the first character that is none. -/
theorem countBrackets_replicate {rest : List Char} (hrest : rest.head? ≠ some '[') (count n : Nat) :
    (countBrackets count (List.replicate n '[' ++ rest)).1 = count + n ∧
      (countBrackets count (List.replicate n '[' ++ rest)).2.val = rest := by
  induction n generalizing count with
  | zero =>
      rw [List.replicate_zero, List.nil_append, countBrackets]
      · exact ⟨rfl, rfl⟩
      · rintro after rfl
        exact hrest rfl
  | succ n ih =>
      obtain ⟨hcount, hafter⟩ := ih (count + 1)
      rw [List.replicate_succ, List.cons_append, countBrackets]
      exact ⟨by rw [hcount]; omega, hafter⟩

namespace JavaType

/-- What a type is written as. -/
theorem toList_write (type : JavaType) :
    type.write.toList = List.replicate type.dimensions '[' ++ type.base.write.toList := by
  simp [write]

/-- A type is written with a character in front that is no parenthesis and no `V`. -/
theorem exists_write_eq_cons (type : JavaType) :
    ∃ c rest, type.write.toList = c :: rest ∧ c ≠ ')' ∧ c ≠ 'V' := by
  rw [toList_write]
  cases type.dimensions with
  | zero =>
      obtain ⟨c, rest, hwrite, -, hc⟩ := type.base.exists_write_eq_cons
      exact ⟨c, rest, hwrite, hc⟩
  | succ n => exact ⟨'[', _, rfl, by decide⟩

/-- A type has as many brackets in front as dimensions. -/
theorem brackets_write (type : JavaType) :
    DescriptorGrammar.brackets type.write.toList = type.dimensions := by
  obtain ⟨c, rest, hwrite, hc, -⟩ := type.base.exists_write_eq_cons
  simp [DescriptorGrammar.brackets, toList_write, hwrite, hc]

/-- A type that is read is in order. -/
theorem valid_of_read {chars : List Char} {type : JavaType} {after : Shorter chars}
    (h : read chars = .ok (type, after)) : type.Valid := by
  unfold read at h
  split at h
  next dimensions rest hlength hbrackets =>
    split at h
    next => cases h
    next hdimensions =>
      split at h
      next => cases h
      next base after' _ hbase =>
        cases h
        exact ⟨Nat.not_lt.mp hdimensions, BaseType.valid_of_read hbase⟩

/-- **A type in order is read** from the front of a text that begins with what it is written as. -/
theorem read_of_eq_append {type : JavaType} (htype : type.Valid) {chars rest : List Char}
    (h : chars = type.write.toList ++ rest) : ∃ hlt, read chars = .ok (type, ⟨rest, hlt⟩) := by
  obtain ⟨c, text, hwrite, hc, -⟩ := type.base.exists_write_eq_cons
  have hfront : (type.base.write.toList ++ rest).head? ≠ some '[' := by
    rw [hwrite]
    simpa using hc
  obtain ⟨hcount, hbehind⟩ := countBrackets_replicate hfront 0 type.dimensions
  rw [← List.append_assoc, ← toList_write, ← h] at hcount hbehind
  unfold read
  rcases hbrackets : countBrackets 0 chars with ⟨dimensions, behind, hle⟩
  rw [hbrackets] at hcount hbehind
  obtain ⟨hlt, hbase⟩ := BaseType.read_of_eq_append htype.base hbehind
  have hdimensions : dimensions = type.dimensions := by simpa using hcount
  subst hdimensions
  refine ⟨Nat.lt_of_lt_of_le hlt hle, ?_⟩
  dsimp only at hbase ⊢
  rw [if_neg (Nat.not_lt.mpr htype.dimensions), hbase]

/-- A type is read from a text exactly if it is in order and the text is what it is written as. -/
theorem parse_eq_ok_iff {text : String} {type : JavaType} :
    parse text = .ok type ↔ type.Valid ∧ type.write = text := by
  constructor
  · intro h
    refine ⟨?_, write_of_parse h⟩
    unfold parse at h
    split at h
    next => cases h
    next type' _ hread =>
      cases h
      exact valid_of_read hread
    next => cases h
  · rintro ⟨htype, rfl⟩
    obtain ⟨hlt, hread⟩ := read_of_eq_append htype (List.append_nil _).symm
    rw [parse, hread]

end JavaType

namespace MethodType

/-- What the result of a method is written as. -/
def writeResult (result : Option JavaType) : List Char :=
  match result with
  | some type => type.write.toList
  | none => ['V']

/-- What the type of a method is written as. -/
theorem toList_write (type : MethodType) :
    type.write.toList =
      '(' :: (type.parameters.flatMap (·.write.toList) ++ ')' :: writeResult type.result) := by
  unfold write
  cases type.result <;> simp [List.flatMap_def, Function.comp_def, writeResult]

/-- Parameters in order are read from what they are written as, up to the parenthesis. -/
theorem readParameters_write {types : List JavaType} (htypes : ∀ type ∈ types, type.Valid)
    (done : List JavaType) (rest : List Char) :
    readParameters done (types.flatMap (·.write.toList) ++ ')' :: rest) =
      .ok (done.reverse ++ types, rest) := by
  induction types generalizing done with
  | nil => simp [readParameters]
  | cons type types ih =>
      obtain ⟨htype, hothers⟩ := List.forall_mem_cons.mp htypes
      obtain ⟨c, text, hwrite, hc, -⟩ := type.exists_write_eq_cons
      have htext : (type :: types).flatMap (·.write.toList) ++ ')' :: rest =
          type.write.toList ++ (types.flatMap (·.write.toList) ++ ')' :: rest) := by simp
      obtain ⟨hlt, hread⟩ := JavaType.read_of_eq_append htype htext
      rw [readParameters, hread]
      · simp [ih hothers]
      · intro behind heq
        simp [hwrite, hc] at heq

/-- **Parameters that are read** are in order, and take up what they are written as, up to the
parenthesis. -/
theorem append_of_readParameters {done types : List JavaType} {chars rest : List Char}
    (h : readParameters done chars = .ok (types, rest)) :
    ∃ found, types = done.reverse ++ found ∧ (∀ type ∈ found, type.Valid) ∧
      chars = found.flatMap (·.write.toList) ++ ')' :: rest := by
  fun_induction readParameters done chars generalizing types with
  | case1 done after =>
      cases h
      exact ⟨[], by simp, by simp, by simp⟩
  | case2 => cases h
  | case3 done chars hne type after hafter hread ih =>
      obtain ⟨found, rfl, hfound, htext⟩ := ih h
      have hvalid := JavaType.valid_of_read hread
      refine ⟨type :: found, by simp, List.forall_mem_cons.mpr ⟨hvalid, hfound⟩, ?_⟩
      simpa [htext] using JavaType.append_of_read hread

/-- The type of a method in order is read from what it is written as. -/
theorem read_write {type : MethodType} (htype : type.Valid) : read type.write.toList = .ok type := by
  obtain ⟨parameters, result⟩ := type
  rw [toList_write, read, readParameters_write htype.parameters]
  cases result with
  | none => rfl
  | some result =>
      obtain ⟨c, text, hwrite, -, hc⟩ := result.exists_write_eq_cons
      obtain ⟨hlt, hread⟩ :=
        JavaType.read_of_eq_append (htype.result result rfl) (List.append_nil _).symm
      simp only [writeResult]
      split
      next heq => cases heq
      next heq => simp_all
      next heq => simp_all
      next parameters' rest hnot hnot' heq =>
        cases heq
        rw [hread]
        rfl

/-- The type of a method that is read is in order, and takes up what it is written as. -/
theorem write_of_read {chars : List Char} {type : MethodType} (h : read chars = .ok type) :
    type.Valid ∧ type.write.toList = chars := by
  unfold read at h
  split at h
  next chars =>
    split at h
    next => cases h
    next parameters hparameters =>
      cases h
      obtain ⟨found, rfl, hfound, rfl⟩ := append_of_readParameters hparameters
      exact ⟨⟨by simpa using hfound, by simp⟩, by simp [toList_write, writeResult]⟩
    next => cases h
    next parameters rest _ _ hparameters =>
      split at h
      next => cases h
      next result _ hresult =>
        cases h
        obtain ⟨found, rfl, hfound, rfl⟩ := append_of_readParameters hparameters
        have hrest := JavaType.append_of_read hresult
        refine ⟨⟨by simpa using hfound, ?_⟩, by simp [toList_write, writeResult, hrest]⟩
        rintro _ ⟨⟩
        exact JavaType.valid_of_read hresult
      next => cases h
  next => cases h

/-- The type of a method is read from a text exactly if it is in order and the text is what it is
written as. -/
theorem parse_eq_ok_iff {text : String} {type : MethodType} :
    parse text = .ok type ↔ type.Valid ∧ type.write = text := by
  have hparse : parse text = .ok type ↔ read text.toList = .ok type := by
    unfold parse
    cases read text.toList <;> simp
  rw [hparse]
  constructor
  · intro h
    obtain ⟨htype, hwrite⟩ := write_of_read h
    exact ⟨htype, String.toList_inj.mp hwrite⟩
  · rintro ⟨htype, rfl⟩
    exact read_write htype

end MethodType

/-! ## Texts of the grammar -/

namespace DescriptorGrammar

/-- What a type in order is written as is derived from the rules for types. -/
theorem fieldType_write {type : JavaType} (htype : type.base.Valid) : FieldType type.write.toList := by
  obtain ⟨dimensions, base⟩ := type
  induction dimensions with
  | zero =>
      cases base with
      | object name =>
          obtain ⟨hne, hname⟩ := htype name rfl
          have htext : (JavaType.mk 0 (.object name)).write.toList =
              'L' :: (name.toList ++ [';']) := by simp [JavaType.write, BaseType.write]
          rw [htext]
          exact .object (fun hnil => hne (String.toList_eq_nil_iff.mp hnil)) hname
      | _ => exact .primitive (by decide)
  | succ n ih =>
      have htext : (JavaType.mk (n + 1) base).write.toList =
          '[' :: (JavaType.mk n base).write.toList := by
        simp [JavaType.toList_write, List.replicate_succ]
      rw [htext]
      exact .array (ih htype)

/-- A text that is derived from the rules for types is what some type is written as. -/
theorem exists_of_fieldType {text : List Char} (h : FieldType text) :
    ∃ type : JavaType, type.base.Valid ∧ type.write.toList = text := by
  induction h with
  | primitive hletter =>
      obtain ⟨base, hbase⟩ := BaseType.mem_letters_iff.mp hletter
      refine ⟨⟨0, base⟩, BaseType.valid_of_ofLetter hbase, ?_⟩
      simpa [JavaType.toList_write] using BaseType.write_of_ofLetter hbase
  | @object name hne hname =>
      refine ⟨.object (String.ofList name), ?_, by simp [JavaType.object, JavaType.write, BaseType.write]⟩
      rintro _ ⟨⟩
      exact ⟨by simpa using hne, by simpa using hname⟩
  | array _ ih =>
      obtain ⟨type, htype, rfl⟩ := ih
      exact ⟨⟨type.dimensions + 1, type.base⟩, htype, by simp [JavaType.toList_write, List.replicate_succ]⟩

/-- **The descriptors of fields** are what types in order are written as. -/
theorem fieldDescriptor_iff {text : List Char} :
    FieldDescriptor text ↔ ∃ type : JavaType, type.Valid ∧ type.write.toList = text := by
  constructor
  · rintro ⟨htext, hbrackets⟩
    obtain ⟨type, htype, rfl⟩ := exists_of_fieldType htext
    rw [type.brackets_write] at hbrackets
    exact ⟨type, ⟨hbrackets, htype⟩, rfl⟩
  · rintro ⟨type, htype, rfl⟩
    exact ⟨fieldType_write htype.base, type.brackets_write ▸ htype.dimensions⟩

/-- What stands for a result is what a type in order is written as, or a `V` for none. -/
theorem returnDescriptor_iff {text : List Char} :
    ReturnDescriptor text ↔ ∃ result : Option JavaType, (∀ type, result = some type → type.Valid) ∧
      MethodType.writeResult result = text := by
  constructor
  · rintro (htext | rfl)
    · obtain ⟨type, htype, rfl⟩ := fieldDescriptor_iff.mp htext
      exact ⟨some type, by rintro _ ⟨⟩; exact htype, rfl⟩
    · exact ⟨none, by simp, rfl⟩
  · rintro ⟨result, hresult, rfl⟩
    cases result with
    | none => exact .inr rfl
    | some type => exact .inl (fieldDescriptor_iff.mpr ⟨type, hresult type rfl, rfl⟩)

/-- Some texts are descriptors of fields exactly if they are what types in order are written as. -/
theorem fieldDescriptors_iff {texts : List (List Char)} :
    (∀ text ∈ texts, FieldDescriptor text) ↔ ∃ types : List JavaType,
      (∀ type ∈ types, type.Valid) ∧ types.map (·.write.toList) = texts := by
  constructor
  · intro h
    induction texts with
    | nil => exact ⟨[], by simp, rfl⟩
    | cons text texts ih =>
        obtain ⟨hfirst, hothers⟩ := List.forall_mem_cons.mp h
        obtain ⟨type, htype, rfl⟩ := fieldDescriptor_iff.mp hfirst
        obtain ⟨types, htypes, rfl⟩ := ih hothers
        exact ⟨type :: types, List.forall_mem_cons.mpr ⟨htype, htypes⟩, rfl⟩
  · rintro ⟨types, htypes, rfl⟩
    refine List.forall_mem_map.mpr fun type htype => ?_
    exact fieldDescriptor_iff.mpr ⟨type, htypes type htype, rfl⟩

/-- **The descriptors of methods** are what types of methods in order are written as. -/
theorem methodDescriptor_iff {text : List Char} :
    MethodDescriptor text ↔ ∃ type : MethodType, type.Valid ∧ type.write.toList = text := by
  constructor
  · rintro ⟨parameters, result, hparameters, hresult, rfl⟩
    obtain ⟨types, htypes, rfl⟩ := fieldDescriptors_iff.mp hparameters
    obtain ⟨result, hvalid, rfl⟩ := returnDescriptor_iff.mp hresult
    exact ⟨⟨types, result⟩, ⟨htypes, hvalid⟩, by simp [MethodType.toList_write, List.flatMap_def]⟩
  · rintro ⟨type, htype, rfl⟩
    refine ⟨type.parameters.map (·.write.toList), _, fieldDescriptors_iff.mpr ⟨_, htype.parameters, rfl⟩,
      returnDescriptor_iff.mpr ⟨type.result, htype.result, rfl⟩, ?_⟩
    rw [MethodType.toList_write, List.flatMap_def]

/-- **Descriptors are read exactly by their grammar.**  A text is accepted as the descriptor of a
field or of a method exactly if it is derived from the grammar; what is read from it is in order and
is written as that text; and a type in order, of a field or of a method, is read from what it is
written as. -/
theorem parsed_exactly :
    (∀ text : String, (∃ type, JavaType.parse text = .ok type) ↔ FieldDescriptor text.toList) ∧
    (∀ text : String, (∃ type, MethodType.parse text = .ok type) ↔ MethodDescriptor text.toList) ∧
    (∀ (text : String) (type : JavaType), JavaType.parse text = .ok type →
      type.Valid ∧ type.write = text) ∧
    (∀ (text : String) (type : MethodType), MethodType.parse text = .ok type →
      type.Valid ∧ type.write = text) ∧
    (∀ type : JavaType, type.Valid → JavaType.parse type.write = .ok type) ∧
    (∀ type : MethodType, type.Valid → MethodType.parse type.write = .ok type) := by
  refine ⟨fun text => ?_, fun text => ?_, fun text type => JavaType.parse_eq_ok_iff.mp,
    fun text type => MethodType.parse_eq_ok_iff.mp, fun type htype => ?_, fun type htype => ?_⟩
  · simp only [JavaType.parse_eq_ok_iff, fieldDescriptor_iff, String.toList_inj]
  · simp only [MethodType.parse_eq_ok_iff, methodDescriptor_iff, String.toList_inj]
  · exact JavaType.parse_eq_ok_iff.mpr ⟨htype, rfl⟩
  · exact MethodType.parse_eq_ok_iff.mpr ⟨htype, rfl⟩

/-- The type of a method that picks a row of a table by a long number. -/
def rowType : MethodType :=
  ⟨[⟨2, .object "a/Cell"⟩, .long], some ⟨1, .object "a/Cell"⟩⟩

/-- That type is in order, is written as a descriptor of the grammar, and is read from it. -/
theorem parsed_exactly_rowType :
    rowType.Valid ∧ rowType.write = "([[La/Cell;J)[La/Cell;" ∧
      MethodType.parse rowType.write = .ok rowType ∧ MethodDescriptor rowType.write.toList := by
  have hcell : (BaseType.object "a/Cell").Valid := by
    rintro _ ⟨⟩
    decide
  have hvalid : rowType.Valid := by
    refine ⟨?_, ?_⟩
    · simp only [rowType, List.forall_mem_cons, List.not_mem_nil, false_implies, implies_true, and_true]
      exact ⟨⟨by decide, hcell⟩, by decide, by rintro _ ⟨⟩⟩
    · rintro _ ⟨⟩
      exact ⟨by decide, hcell⟩
  obtain ⟨-, haccepted, -, -, -, hparsed⟩ := parsed_exactly
  have hparse := hparsed rowType hvalid
  exact ⟨hvalid, by decide, hparse, (haccepted _).mp ⟨_, hparse⟩⟩

end DescriptorGrammar

end Downlevel
