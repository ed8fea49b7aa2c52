import Downlevel.Proofs.Lower.Needed

/-!
# Constants of interfaces

All fields of an interface are public and final, so there is no place in it for a value that is
computed when it is first needed.  Lowering refuses an interface whose code loads a constant that is
not null.  But it looks for such constants before it writes the bouncers, and these ask for those
that are only passed on for call sites.  So an interface gets fields exactly if a call site passes
on a constant that is not null.

* `loaded_null` — where an interface is lowered, all constants that its code loads are null;
* `needed_null_iff` — all constants that it needs are null if those passed on for call sites are;
* `interface_fields` — an interface is refused, or keeps its fields, or passes on such a constant.
-/

namespace Downlevel

namespace Constants

/-- Whether the bootstrap method of a constant says that it is null. -/
def Dynamic.isNull (constant : Dynamic) : Bool :=
  constant.bootstrap.isMethod nullBootstrap

section Interface

variable {cls : ClassFile} {lowered : Lowered}

/-- An interface in which nothing was refused has met no constants but null. -/
theorem null_of_checkInterface {entries : List (Dynamic × Access)}
    (hinterface : cls.access.isInterface = true) (h : checkInterface cls entries = .ok ()) :
    ∀ entry ∈ entries, entry.2 = .null := by
  unfold checkInterface at h
  split at h
  · simp [hinterface] at h
  next hnone =>
    intro entry hentry
    simpa using List.find?_eq_none.mp hnone entry hentry

/-- **Where an interface is lowered, all constants that its code loads are null.** -/
theorem loaded_null (hinterface : cls.access.isInterface = true)
    (h : Lower.dynamicConstants cls = .ok lowered) :
    ∀ constant ∈ loadedConstants cls, constant.isNull = true := by
  obtain ⟨replaced, found, hrun, hcase⟩ := dynamicConstants_run h
  have hasks := (replaceMethods_asks hrun).1
  have hnull : ∀ entry ∈ found.entries, entry.2 = .null := by
    rcases hcase with ⟨hnone, -⟩ | ⟨_, _, _, _, _, -, -, -, hcheck, -⟩
    · rw [hnone]
      exact List.forall_mem_nil _
    · exact null_of_checkInterface hinterface hcheck
  intro constant hmem
  obtain ⟨access, hentry⟩ := Found.mem_known.mp (hasks.known constant hmem)
  rcases hasks.only _ hentry with hnone | ⟨-, hiff⟩
  · cases hnone
  · exact hiff.mp (hnull _ hentry)

/-- All constants that a class needs are null exactly if those are that its code loads and those that
are passed on for its call sites, as nothing is passed to the bootstrap method of null. -/
theorem needed_null_iff :
    (∀ constant, Needed cls constant → constant.isNull = true) ↔
      (∀ constant ∈ loadedConstants cls, constant.isNull = true) ∧
        ∀ site ∈ dynamicSites cls, ∀ constant ∈ passedConstants site.bootstrap site.arguments,
          constant.isNull = true := by
  constructor
  · intro h
    exact ⟨fun constant hmem => h constant (.loaded hmem),
      fun site hsite constant hmem => h constant (.passedOn hsite hmem)⟩
  · rintro ⟨hloaded, hpassed⟩ constant hneeded
    induction hneeded with
    | loaded hmem => exact hloaded _ hmem
    | passedOn hsite hmem => exact hpassed _ hsite _ hmem
    | inner _ hnot _ ih =>
        rw [Dynamic.isNull, hnot] at ih
        cases ih

/-- A class keeps its fields exactly if all constants that it needs are null. -/
theorem Accessed.fields_eq_iff {cls' : ClassFile} {entries : List (Dynamic × Access)}
    {replaced : List (Method × List Bouncer)} (h : Accessed cls cls' entries replaced) :
    cls'.fields = cls.fields ↔ ∀ constant, Needed cls constant → constant.isNull = true := by
  have hnone : cls'.fields = cls.fields ↔ bootstrapped entries = [] := by
    constructor
    · intro hsame
      have hlength := h.fields_length
      rw [hsame] at hlength
      exact List.length_eq_zero_iff.mp (by omega)
    · intro hnil
      rw [h.fields, hnil, List.flatMap_nil, List.append_nil]
  rw [hnone, List.eq_nil_iff_forall_not_mem]
  constructor
  · intro hbootstrapped constant hneeded
    obtain ⟨entry, hentry, rfl⟩ := List.mem_map.mp ((h.needed constant).mpr hneeded)
    obtain ⟨constant, _ | name⟩ := entry
    · exact (h.null _ hentry).mp rfl
    · exact absurd (mem_bootstrapped.mpr hentry) (hbootstrapped _)
  · rintro hnull ⟨constant, name⟩ hmem
    have hentry := mem_bootstrapped.mp hmem
    have hneeded := (h.needed constant).mp (List.mem_map_of_mem hentry)
    cases (h.null _ hentry).mpr (hnull constant hneeded)

/-- A class that is not changed has no call sites with dynamic constants among their arguments. -/
theorem dynamicSites_of_unchanged (h : Lower.dynamicConstants cls = .ok lowered)
    (hunchanged : lowered.changed = false) : lowered.cls = cls ∧ dynamicSites cls = [] := by
  obtain ⟨replaced, found, hrun, ⟨-, hbouncers, rfl⟩ | ⟨_, _, _, _, _, _, _, _, _, _, rfl⟩⟩ :=
    dynamicConstants_run h
  · have hsites := bouncers_of_replacesIn (replaceMethods_asks hrun).2
    rw [hbouncers] at hsites
    exact ⟨rfl, List.map_eq_nil_iff.mp hsites.symm⟩
  · cases hunchanged

/-- **When an interface gets fields.**  An interface whose code loads a constant that is not null is
refused.  One that is not refused keeps its fields exactly if all constants that are passed on for
its call sites are null. -/
theorem interface_fields (hinterface : cls.access.isInterface = true) :
    ((∃ constant ∈ loadedConstants cls, constant.isNull = false) →
        ∃ error, Lower.dynamicConstants cls = .error error) ∧
      ∀ lowered, Lower.dynamicConstants cls = .ok lowered →
        (lowered.cls.fields = cls.fields ↔ ∀ site ∈ dynamicSites cls,
          ∀ constant ∈ passedConstants site.bootstrap site.arguments,
            constant.isNull = true) := by
  constructor
  · rintro ⟨constant, hmem, hnot⟩
    cases h : Lower.dynamicConstants cls with
    | error error => exact ⟨error, rfl⟩
    | ok lowered =>
        have hnull := loaded_null hinterface h constant hmem
        rw [hnot] at hnull
        cases hnull
  · intro lowered h
    cases hchanged : lowered.changed with
    | false =>
        obtain ⟨hsame, hsites⟩ := dynamicSites_of_unchanged h hchanged
        simp [hsame, hsites]
    | true =>
        obtain ⟨entries, replaced, haccessed⟩ := accessed_of_changed h hchanged
        rw [haccessed.fields_eq_iff, needed_null_iff, and_iff_right (loaded_null hinterface h)]

end Interface

/-- An interface of release 11 with a default method that has a constant among the arguments of a
call site, and loads none. -/
def passingInterface : ClassFile where
  version := ⟨55, 0⟩
  access := { isInterface := true, isAbstract := true }
  name := "a/Api"
  superClass := some ClassName.javaObject
  interfaces := []
  methods := [
    Method.ofCode { isStatic := true, isPublic := true } "f" "()V"
      { instructions := [
        ⟨none, .invokedynamic ⟨"h", "()V",
          .method (.static false) ⟨"a/B", "site",
            "(Ljava/lang/invoke/MethodHandles$Lookup;Ljava/lang/String;" ++
              "Ljava/lang/invoke/MethodType;Ljava/lang/Object;)Ljava/lang/invoke/CallSite;"⟩,
          [innerConstant]⟩⟩,
        ⟨none, .op .returnVoid⟩] }]

/-- The interface is lowered and has three fields then. -/
theorem fields_passingInterface :
    ∃ lowered, Lower.dynamicConstants passingInterface = .ok lowered ∧
      lowered.cls.fields.length = 3 := by
  have hrun : ((Lower.dynamicConstants passingInterface).toOption.any fun lowered =>
      lowered.cls.fields.length == 3) = true := by decide +kernel
  obtain ⟨lowered, h, hlength⟩ := exists_of_any hrun
  exact ⟨lowered, h, beq_iff_eq.mp hlength⟩

/-- As the interface is lowered, its fields are as its call sites say. -/
theorem interface_fields_passing :
    passingInterface.access.isInterface = true ∧
      ∃ lowered, Lower.dynamicConstants passingInterface = .ok lowered ∧
        (lowered.cls.fields = passingInterface.fields ↔ ∀ site ∈ dynamicSites passingInterface,
          ∀ constant ∈ passedConstants site.bootstrap site.arguments, constant.isNull = true) := by
  obtain ⟨lowered, h, -⟩ := fields_passingInterface
  exact ⟨rfl, lowered, h, (interface_fields rfl).2 lowered h⟩

/-- So an interface that had no fields gets some. -/
theorem passingInterface_gets_fields :
    ∃ lowered, Lower.dynamicConstants passingInterface = .ok lowered ∧
      passingInterface.access.isInterface = true ∧ lowered.cls.fields ≠ passingInterface.fields := by
  obtain ⟨lowered, h, hlength⟩ := fields_passingInterface
  refine ⟨lowered, h, rfl, fun hsame => ?_⟩
  rw [hsame] at hlength
  cases hlength

end Constants

end Downlevel
