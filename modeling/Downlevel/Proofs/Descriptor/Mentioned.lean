import Downlevel.Proofs.Descriptor.Grammar

/-!
# The classes that a descriptor mentions

The classes in a descriptor are looked for by a scan of its own: it goes on to the next `L`, takes
what stands up to the next semicolon for a class name, and goes on behind that.  It does not follow
the grammar, and class names may hold any of the letters and brackets that descriptors are made of.

In a descriptor this finds the right names.  Outside of class names there are only brackets,
parentheses and the letters of primitive types, none of which is an `L`; so the first `L` that the
scan meets opens a class name, and the semicolon that it looks for closes it.  Then the scan stands
outside of class names again.

* `JavaType.classNames`, `MethodType.classNames` — the classes in a type that was read;
* `JavaType.classNamesFrom_write` — the scan goes over one type;
* `classNamesIn_of_parse` — **the scan of a descriptor finds the classes of the type that is read**.
-/

namespace Downlevel

/-- The class of a type that is no array, in a list. -/
def BaseType.classNames : BaseType → List ClassName
  | object name => [name]
  | _ => []

/-- The class of a type, or of the elements of an array in the end, in a list. -/
def JavaType.classNames (type : JavaType) : List ClassName :=
  type.base.classNames

/-- The classes of the parameters of a method and of its result, in order. -/
def MethodType.classNames (type : MethodType) : List ClassName :=
  type.parameters.flatMap JavaType.classNames ++ type.result.toList.flatMap JavaType.classNames

variable {done : List ClassName}

/-- A character that opens no class name is passed over. -/
theorem classNamesFrom_cons {c : Char} (hc : c ≠ 'L') (rest : List Char) :
    classNamesFrom done (c :: rest) = classNamesFrom done rest := by
  rw [classNamesFrom]
  exact fun heq => hc heq

/-- Characters that open no class name are passed over. -/
theorem classNamesFrom_append {chars : List Char} (hchars : 'L' ∉ chars) (rest : List Char) :
    classNamesFrom done (chars ++ rest) = classNamesFrom done rest := by
  induction chars with
  | nil => rfl
  | cons c chars ih =>
      have hc : c ≠ 'L' := fun heq => hchars (heq ▸ List.mem_cons_self)
      rw [List.cons_append, classNamesFrom_cons hc]
      exact ih fun hmem => hchars (List.mem_cons_of_mem c hmem)

/-- A class name between an `L` and a semicolon is found. -/
theorem classNamesFrom_object {name : ClassName} (hname : ';' ∉ name.toList) (rest : List Char) :
    classNamesFrom done ('L' :: (name.toList ++ ';' :: rest)) =
      classNamesFrom (name :: done) rest := by
  obtain ⟨hlt, hsplit⟩ := BaseType.splitName_append hname [] rest
  rw [classNamesFrom, hsplit]
  simp

/-- At the end the names that were found are turned around. -/
theorem classNamesFrom_nil (done : List ClassName) : classNamesFrom done [] = done.reverse := by
  rw [classNamesFrom]

/-- **The scan goes over a type that is no array** and finds its class, if it has one. -/
theorem BaseType.classNamesFrom_write {type : BaseType} (htype : type.Valid) (rest : List Char) :
    classNamesFrom done (type.write.toList ++ rest) =
      classNamesFrom (type.classNames.reverse ++ done) rest := by
  cases type with
  | object name =>
      have htext : (object name).write.toList ++ rest =
          'L' :: (name.toList ++ ';' :: rest) := by simp [write]
      rw [htext, classNamesFrom_object (htype name rfl).2]
      rfl
  | _ => exact classNamesFrom_append (by decide) rest

namespace JavaType

/-- **The scan goes over a type** and finds its class, if it has one. -/
theorem classNamesFrom_write {type : JavaType} (htype : type.Valid) (rest : List Char) :
    classNamesFrom done (type.write.toList ++ rest) =
      classNamesFrom (type.classNames.reverse ++ done) rest := by
  have hbrackets : 'L' ∉ List.replicate type.dimensions '[' := fun hmem =>
    absurd (List.eq_of_mem_replicate hmem) (by decide)
  rw [toList_write, List.append_assoc, classNamesFrom_append hbrackets,
    BaseType.classNamesFrom_write htype.base]
  rfl

/-- The scan goes over types one after the other and finds their classes. -/
theorem classNamesFrom_flatMap {types : List JavaType} (htypes : ∀ type ∈ types, type.Valid)
    (rest : List Char) :
    classNamesFrom done (types.flatMap (·.write.toList) ++ rest) =
      classNamesFrom ((types.flatMap classNames).reverse ++ done) rest := by
  induction types generalizing done with
  | nil => rfl
  | cons type types ih =>
      obtain ⟨htype, hothers⟩ := List.forall_mem_cons.mp htypes
      rw [List.flatMap_cons, List.append_assoc, classNamesFrom_write htype, ih hothers]
      simp

end JavaType

/-- The scan goes over the result of a method and finds its class, if it has one. -/
theorem MethodType.classNamesFrom_writeResult {result : Option JavaType}
    (hresult : ∀ type, result = some type → type.Valid) :
    classNamesFrom done (writeResult result) =
      done.reverse ++ result.toList.flatMap JavaType.classNames := by
  cases result with
  | none =>
      rw [writeResult, classNamesFrom_cons (by decide), classNamesFrom_nil]
      simp
  | some type =>
      have hscan : classNamesFrom done (type.write.toList ++ []) = _ :=
        JavaType.classNamesFrom_write (hresult type rfl) []
      rw [List.append_nil] at hscan
      rw [writeResult, hscan, classNamesFrom_nil]
      simp

/-- **The scan of a descriptor finds the classes of the type that is read from it**: of a field or
of a method, all of them in order, each as often as it appears. -/
theorem classNamesIn_of_parse :
    (∀ (descriptor : String) (type : JavaType), JavaType.parse descriptor = .ok type →
      classNamesIn descriptor = type.classNames) ∧
    ∀ (descriptor : String) (type : MethodType), MethodType.parse descriptor = .ok type →
      classNamesIn descriptor = type.classNames := by
  constructor
  · intro descriptor type hparse
    obtain ⟨htype, rfl⟩ := JavaType.parse_eq_ok_iff.mp hparse
    have hscan : classNamesFrom [] (type.write.toList ++ []) = _ :=
      JavaType.classNamesFrom_write htype []
    rw [List.append_nil] at hscan
    rw [classNamesIn, hscan, classNamesFrom_nil]
    simp
  · intro descriptor type hparse
    obtain ⟨htype, rfl⟩ := MethodType.parse_eq_ok_iff.mp hparse
    have hparen : ∀ done, classNamesFrom done (')' :: MethodType.writeResult type.result) =
        classNamesFrom done (MethodType.writeResult type.result) := fun done =>
      classNamesFrom_cons (by decide) _
    rw [classNamesIn, MethodType.toList_write, classNamesFrom_cons (by decide),
      JavaType.classNamesFrom_flatMap htype.parameters, hparen,
      MethodType.classNamesFrom_writeResult htype.result]
    simp [MethodType.classNames]

/-- The type of a method that has class names of the letters and brackets that descriptors are made
of. -/
def crowdedType : MethodType :=
  ⟨[⟨0, .object "L(I"⟩, ⟨2, .int⟩, ⟨3, .object "[L)V"⟩, ⟨0, .object "L(I"⟩], some ⟨1, .object "LL"⟩⟩

/-- In the descriptor of that type the scan finds four names, the first of them twice. -/
theorem classNamesIn_crowdedType :
    JavaType.parse "[[LLa;" = .ok ⟨2, .object "La"⟩ ∧ classNamesIn "[[LLa;" = ["La"] ∧
      MethodType.parse "(LL(I;[[I[[[L[L)V;LL(I;)[LLL;" = .ok crowdedType ∧
      classNamesIn "(LL(I;[[I[[[L[L)V;LL(I;)[LLL;" = ["L(I", "[L)V", "L(I", "LL"] := by
  have hobject : ∀ name : ClassName, name ≠ "" → ';' ∉ name.toList →
      (BaseType.object name).Valid := by
    rintro name hne hname _ ⟨⟩
    exact ⟨hne, hname⟩
  have hfield : JavaType.parse "[[LLa;" = .ok ⟨2, .object "La"⟩ :=
    JavaType.parse_eq_ok_iff.mpr ⟨⟨by decide, hobject _ (by decide) (by decide)⟩, by decide⟩
  have hvalid : crowdedType.Valid := by
    refine ⟨?_, ?_⟩
    · simp only [crowdedType, List.forall_mem_cons, List.not_mem_nil, false_implies, implies_true,
        and_true]
      exact ⟨⟨by decide, hobject _ (by decide) (by decide)⟩, ⟨by decide, by rintro _ ⟨⟩⟩,
        ⟨by decide, hobject _ (by decide) (by decide)⟩,
        ⟨by decide, hobject _ (by decide) (by decide)⟩⟩
    · rintro _ ⟨⟩
      exact ⟨by decide, hobject _ (by decide) (by decide)⟩
  have hmethod : MethodType.parse "(LL(I;[[I[[[L[L)V;LL(I;)[LLL;" = .ok crowdedType :=
    MethodType.parse_eq_ok_iff.mpr ⟨hvalid, by decide⟩
  exact ⟨hfield, classNamesIn_of_parse.1 _ _ hfield, hmethod, classNamesIn_of_parse.2 _ _ hmethod⟩

end Downlevel
