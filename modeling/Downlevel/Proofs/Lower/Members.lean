import Downlevel.Proofs.Lower.ConstantNames
import Downlevel.Proofs.Lower.Conversion
import Downlevel.Proofs.Lower.Record

/-!
# Members that differ

In a class file no two methods have the same name and descriptor, and no two fields.  Lowering adds
members of its own, and the class may already use any of the names that it would like to give them.
This file shows that it never adds one that is there already.

* `ClassFile.replaceCallSites_distinct`, `Constants.dynamicConstants_distinct` — the passes that add
  members;
* `Pass.run_members` — what a pass does to members, `Pass.run_distinct` — it keeps them distinct;
* `Converter.convert_distinct` — the members of a converted class differ, and every name that was
  handed out on the way has the smallest number that was free.
-/

namespace Downlevel

open NameSupply

/-- The name and the descriptor of a method. -/
def Method.id (method : Method) : MethodId :=
  ⟨method.name, method.descriptor⟩

/-- The name and the descriptor of a field. -/
def Field.id (field : Field) : FieldName × FieldDescriptor :=
  (field.name, field.descriptor)

/-- No two methods of a class have the same name and descriptor, and no two fields have. -/
structure ClassFile.DistinctMembers (cls : ClassFile) : Prop where
  methods : (cls.methods.map Method.id).Nodup
  fields : (cls.fields.map Field.id).Nodup

/-- A class in which the names and descriptors of the members stay has distinct members as before. -/
theorem ClassFile.DistinctMembers.of_same_ids {cls cls' : ClassFile} (h : cls.DistinctMembers)
    (hmethods : cls'.methods.map Method.id = cls.methods.map Method.id)
    (hfields : cls'.fields.map Field.id = cls.fields.map Field.id) : cls'.DistinctMembers :=
  ⟨hmethods ▸ h.methods, hfields ▸ h.fields⟩

/-- Members of which only something else is changed keep their names and descriptors. -/
theorem map_id_of_forall₂ {α β : Type} {id : α → β} {items items' : List α}
    (h : List.Forall₂ (fun item item' => id item' = id item) items items') :
    items'.map id = items.map id := by
  induction h with
  | nil => rfl
  | cons hfirst _ ih => rw [List.map_cons, List.map_cons, hfirst, ih]

/-- Members whose names are new and differ can be added. -/
theorem nodup_map_append {α β : Type} {id : α → β} {name : α → String}
    (hname : ∀ a b, id a = id b → name a = name b) {old new : List α} (hold : (old.map id).Nodup)
    (hdistinct : (new.map name).Nodup)
    (hnew : ∀ a ∈ old, ∀ b ∈ new, name a ≠ name b) : ((old ++ new).map id).Nodup := by
  rw [List.map_append, List.nodup_append]
  refine ⟨hold, ?_, ?_⟩
  · have hpairwise : List.Pairwise (fun a b => name a ≠ name b) new := List.pairwise_map.mp hdistinct
    exact List.pairwise_map.mpr (hpairwise.imp fun hne hsame => hne (hname _ _ hsame))
  · intro first hfirst second hsecond hsame
    obtain ⟨a, ha, rfl⟩ := List.mem_map.mp hfirst
    obtain ⟨b, hb, rfl⟩ := List.mem_map.mp hsecond
    exact hnew a ha b hb (hname a b hsame)

/-- Methods with the same name and descriptor have the same name. -/
theorem Method.name_of_id {a b : Method} (h : a.id = b.id) : a.name = b.name :=
  congrArg MethodId.name h

/-- Fields with the same name and descriptor have the same name. -/
theorem Field.name_of_id {a b : Field} (h : a.id = b.id) : a.name = b.name :=
  congrArg Prod.fst h

/-- The name of a method whose name and descriptor occur occurs. -/
theorem Method.name_mem_of_id_mem {method : Method} {methods : List Method}
    (h : method.id ∈ methods.map Method.id) : method.name ∈ methods.map Method.name := by
  obtain ⟨other, hother, hid⟩ := List.mem_map.mp h
  exact List.mem_map.mpr ⟨other, hother, Method.name_of_id hid⟩

/-- The names of all members of a class are in use. -/
theorem NameSupply.mem_ofClass {cls : ClassFile} {name : String} :
    name ∈ (NameSupply.ofClass cls).used ↔
      name ∈ cls.methods.map Method.name ∨ name ∈ cls.fields.map Field.name := by
  simp only [NameSupply.ofClass, Std.HashSet.mem_ofList, List.contains_iff_mem, List.mem_append]

/-! ## Methods for call sites -/

namespace CallSites

variable {plan : Plan} {progress progress' : Progress}

/-- From one state of the work to another, methods were added whose names are free and differ. -/
def Adds (progress progress' : Progress) : Prop :=
  ∃ new, progress'.added = new ++ progress.added ∧
    Yields progress.names progress'.names (new.map Method.name)

/-- Nothing is added by doing nothing. -/
theorem Adds.refl (progress : Progress) : Adds progress progress :=
  ⟨[], rfl, .nil _⟩

/-- What is added first and then. -/
theorem Adds.trans {a b c : Progress} (h : Adds a b) (h' : Adds b c) : Adds a c := by
  obtain ⟨new, hnew, hyields⟩ := h
  obtain ⟨new', hnew', hyields'⟩ := h'
  refine ⟨new' ++ new, by rw [hnew', hnew, List.append_assoc], ?_⟩
  rw [List.map_append]
  exact (hyields.append hyields').perm List.perm_append_comm

/-- One instruction adds a method under the next free name, or nothing. -/
theorem replaceInstruction_adds {method : Method} {entry entry' : Labelled}
    (h : replaceInstruction plan method entry progress = .ok (entry', progress')) :
    Adds progress progress' := by
  rcases replaceInstruction_cases h with
    ⟨site, body, name, names, _, _, hnext, _, rfl⟩ | ⟨_, _, rfl⟩
  · have hyields := yields_next progress.names (stem plan site) [] (by decide)
    rw [hnext] at hyields
    exact ⟨[_], rfl, hyields⟩
  · exact .refl progress'

/-- One method keeps its name and descriptor, and what is added is new. -/
theorem replaceMethod_adds {method method' : Method}
    (h : replaceMethod plan method progress = .ok (method', progress')) :
    Adds progress progress' ∧ method'.id = method.id := by
  unfold replaceMethod at h
  cases hcode : method.code with
  | none =>
      simp only [hcode, work_pure_eq_ok] at h
      obtain ⟨rfl, rfl⟩ := h
      exact ⟨.refl progress, rfl⟩
  | some code =>
      simp only [hcode, work_bind_eq_ok, work_pure_eq_ok] at h
      obtain ⟨instructions, t, hmap, rfl, rfl⟩ := h
      refine ⟨?_, rfl⟩
      exact work_mapM_run Adds Adds.refl Adds.trans
        (fun entry _ t entry' t' hstep => replaceInstruction_adds hstep) hmap

end CallSites

/-- **Replacing call sites adds methods that differ** from all others. -/
theorem ClassFile.replaceCallSites_distinct {cls : ClassFile} {basename : String}
    {generate : CallSite → Except Error (Option Code)} {lowered : Lowered}
    (h : cls.replaceCallSites basename generate = .ok lowered) (hold : cls.DistinctMembers) :
    lowered.cls.DistinctMembers := by
  obtain ⟨methods, progress, hrun, rfl⟩ := replaceCallSites_run h
  have hids : methods.map Method.id = cls.methods.map Method.id := by
    refine map_id_of_forall₂ ((work_mapM_forall₂ hrun).imp fun method method' hstep => ?_)
    obtain ⟨_, _, hstep⟩ := hstep
    exact (CallSites.replaceMethod_adds hstep).2
  obtain ⟨new, hadded, hyields⟩ := work_mapM_run CallSites.Adds CallSites.Adds.refl
    CallSites.Adds.trans
    (fun method _ t method' t' hstep => (CallSites.replaceMethod_adds hstep).1) hrun
  rw [List.append_nil] at hadded
  subst hadded
  have hreverse := hyields.perm ((List.reverse_perm progress.added).map Method.name).symm
  refine ⟨nodup_map_append (fun _ _ => Method.name_of_id) (hids ▸ hold.methods) hreverse.distinct ?_,
    hold.fields⟩
  intro a ha b hb hsame
  have hname : a.name ∈ cls.methods.map Method.name :=
    Method.name_mem_of_id_mem (hids ▸ List.mem_map_of_mem ha)
  refine hreverse.new b.name (List.mem_map_of_mem hb) ?_
  rw [← hsame]
  exact NameSupply.mem_ofClass.mpr (.inl hname)

/-! ## Members for constants -/

namespace Constants

/-- A method that starts with more instructions keeps its name and descriptor. -/
theorem startWith_id {instructions : List Instruction} {method method' : Method}
    (h : startWith instructions method = .ok method') : method'.id = method.id := by
  unfold startWith at h
  simp only [bind_eq_ok, pure_eq_ok] at h
  obtain ⟨code, _, rfl⟩ := h
  rfl

/-- The first method that initializes the class starts with more instructions; one that does nothing
else is added only if there is none. -/
theorem startFirst_ids {instructions : List Instruction} {methods methods' : List Method}
    (h : startFirst instructions methods = .ok methods') :
    methods'.map Method.id = methods.map Method.id ∨
      (emptyInitializer.id ∉ methods.map Method.id ∧
        methods'.map Method.id = methods.map Method.id ++ [emptyInitializer.id]) := by
  induction methods generalizing methods' with
  | nil =>
      simp only [startFirst, bind_eq_ok, pure_eq_ok] at h
      obtain ⟨initializer, hstart, rfl⟩ := h
      exact .inr ⟨List.not_mem_nil, by simp [startWith_id hstart]⟩
  | cons first rest ih =>
      unfold startFirst at h
      split at h
      · simp only [bind_eq_ok, pure_eq_ok] at h
        obtain ⟨started, hstart, rfl⟩ := h
        exact .inl (by simp [startWith_id hstart])
      · next hother =>
          simp only [bind_eq_ok, pure_eq_ok] at h
          obtain ⟨others, hothers, rfl⟩ := h
          have hne : emptyInitializer.id ≠ first.id := by
            intro hsame
            obtain ⟨hname, hdescriptor⟩ := MethodId.mk.inj hsame
            simp [isInitializer, ← hname, ← hdescriptor, emptyInitializer, Method.ofCode] at hother
          rcases ih hothers with hids | ⟨hnew, hids⟩
          · exact .inl (by simp [hids])
          · refine .inr ⟨?_, by simp [hids]⟩
            simp only [List.map_cons, List.mem_cons, not_or]
            exact ⟨hne, hnew⟩

/-- With locks to create, the methods keep their names and descriptors, and one that initializes the
class comes behind them if there was none. -/
theorem addLocks_cases {owner : ClassName} {names : List String} {methods methods' : List Method}
    (h : addLocks owner names methods = .ok methods') :
    methods'.map Method.id = methods.map Method.id ∨
      (emptyInitializer.id ∉ methods.map Method.id ∧
        methods'.map Method.id = methods.map Method.id ++ [emptyInitializer.id]) := by
  unfold addLocks at h
  split at h
  · cases h
    exact .inl rfl
  · exact startFirst_ids h

/-- With locks to create, no two methods become the same, and at most the method that initializes
the class is new. -/
theorem addLocks_ids {owner : ClassName} {names : List String} {methods methods' : List Method}
    (h : addLocks owner names methods = .ok methods') (hold : (methods.map Method.id).Nodup) :
    (methods'.map Method.id).Nodup ∧
      ∀ method ∈ methods', method.name ∈ methods.map Method.name ∨
        method.name = MethodName.staticInitializer := by
  have hmem : ∀ {ids : List MethodId}, methods'.map Method.id = ids → ∀ method ∈ methods',
      method.id ∈ ids := fun hids method hmethod => hids ▸ List.mem_map_of_mem hmethod
  rcases addLocks_cases h with hids | ⟨hnew, hids⟩
  · exact ⟨hids ▸ hold, fun method hmethod =>
      .inl (Method.name_mem_of_id_mem (hmem hids method hmethod))⟩
  · constructor
    · rw [hids, List.nodup_append]
      refine ⟨hold, List.nodup_singleton _, ?_⟩
      rintro id hid _ hlast rfl
      exact hnew (List.mem_singleton.mp hlast ▸ hid)
    · intro method hmethod
      rcases List.mem_append.mp (hmem hids method hmethod) with hid | hlast
      · exact .inl (Method.name_mem_of_id_mem hid)
      · exact .inr (Method.name_of_id (List.mem_singleton.mp hlast))

/-- The methods in which constants are replaced keep their names and descriptors. -/
theorem replaceMethods_ids {cls : ClassFile} {methods : List Method}
    {replaced : List (Method × List Bouncer)} {found found' : Found}
    (h : methods.mapM (replaceMethod cls) found = .ok (replaced, found')) :
    (replaced.map Prod.fst).map Method.id = methods.map Method.id := by
  refine map_id_of_forall₂ (List.forall₂_map_right_iff.mpr ?_)
  refine (work_mapM_forall₂ h).imp fun method result hstep => ?_
  obtain ⟨_, _, hstep⟩ := hstep
  obtain ⟨-, code, hsame⟩ := replaceMethod_yields hstep
  rw [hsame]
  rfl

/-- Accessors have the names of their first fields. -/
theorem accessorNames_sublist (entries : List (Dynamic × Access)) :
    (accessorNames entries).Sublist (fieldNames entries) := by
  unfold fieldNames
  induction accessorNames entries with
  | nil => exact .refl _
  | cons name rest ih =>
      rw [List.flatMap_cons]
      exact .cons_cons name (ih.trans (List.sublist_append_right _ _))

/-- **Lowering constants adds members that differ** from all others. -/
theorem dynamicConstants_distinct {cls : ClassFile} {lowered : Lowered}
    (h : Lower.dynamicConstants cls = .ok lowered) (hold : cls.DistinctMembers) :
    lowered.cls.DistinctMembers := by
  obtain ⟨replaced, found, hrun, ⟨_, _, rfl⟩ |
    ⟨bouncers, found₁, accessors, found₂, methods, hbouncers, haccessors, hlocks, _, _, rfl⟩⟩ :=
    dynamicConstants_run h
  · exact hold
  -- All names come from one supply: those of the bouncers, and the families of the accessors.
  obtain ⟨hfirst, hbouncerNames⟩ := bouncerMethods_yields hbouncers
  obtain ⟨hthen, haccessorNames, hfieldNames⟩ := haccessors.writesFrom
  obtain ⟨new, hnew, hyields, hinitializer⟩ :=
    ((replaceMethods_yields hrun).append (hfirst.append hthen)).names
  obtain rfl : found₂.entries = new := by simpa using hnew
  simp only [List.append_nil, ← hbouncerNames] at hyields hinitializer
  rw [List.drop_zero] at haccessorNames hfieldNames
  have hids := replaceMethods_ids hrun
  obtain ⟨hlocked, hnames⟩ := addLocks_ids hlocks (hids ▸ hold.methods)
  constructor
  · have hadded : (bouncers ++ accessors.map Prod.fst).map Method.name =
        bouncers.map Method.name ++ accessorNames found₂.entries := by
      rw [List.map_append, List.map_map, ← haccessorNames]
      rfl
    have hsublist : (bouncers.map Method.name ++ accessorNames found₂.entries).Sublist
        (bouncers.map Method.name ++ fieldNames found₂.entries) :=
      (accessorNames_sublist _).append_left _
    rw [List.append_assoc]
    refine nodup_map_append (fun _ _ => Method.name_of_id) hlocked
      (hadded ▸ hyields.distinct.sublist hsublist) ?_
    intro a ha b hb hsame
    have hb' : b.name ∈ bouncers.map Method.name ++ accessorNames found₂.entries :=
      hadded ▸ List.mem_map_of_mem hb
    rcases hnames a ha with hin | hclinit
    · refine hyields.new b.name (hsublist.subset hb') (NameSupply.mem_ofClass.mpr (.inl ?_))
      obtain ⟨method, hmethod, hname⟩ := List.mem_map.mp hin
      rw [← hsame, ← hname]
      exact Method.name_mem_of_id_mem (hids ▸ List.mem_map_of_mem hmethod)
    · exact hinitializer b.name hb' (hsame ▸ hclinit)
  · refine nodup_map_append (fun _ _ => Field.name_of_id) hold.fields ?_ ?_
    · rw [hfieldNames]
      exact (List.nodup_append.mp hyields.distinct).2.1
    · intro a ha b hb hsame
      have hb' : b.name ∈ fieldNames found₂.entries := hfieldNames ▸ List.mem_map_of_mem hb
      refine hyields.new b.name (List.mem_append_right _ hb') (NameSupply.mem_ofClass.mpr (.inr ?_))
      rw [← hsame]
      exact List.mem_map_of_mem ha

end Constants

/-! ## All passes -/

/-- A method of a record keeps its name and descriptor. -/
theorem Record.lowerMethod_id {cls : ClassName} {components : List Component}
    {method method' : Method} (h : lowerMethod cls components method = .ok method') :
    method'.id = method.id := by
  unfold lowerMethod at h
  split at h
  · simp only [pure_eq_ok] at h
    exact h ▸ rfl
  · split at h
    · simp only [pure_eq_ok] at h
      exact h ▸ rfl
    · dsimp only at h
      split at h
      · simp only [bind_eq_ok, pure_eq_ok] at h
        obtain ⟨body, _, rfl⟩ := h
        rfl
      · simp only [pure_eq_ok] at h
        exact h ▸ rfl

/-- The members of a class keep their names and descriptors, and none are added. -/
structure ClassFile.SameIds (cls cls' : ClassFile) : Prop where
  methods : cls'.methods.map Method.id = cls.methods.map Method.id
  fields : cls'.fields.map Field.id = cls.fields.map Field.id

/-- **What a pass does to members**: it adds methods for call sites, or members for constants, or it
leaves the names and descriptors of all members as they are. -/
theorem Pass.run_members {pass : Pass} {cls : ClassFile} {lowered : Lowered}
    (h : pass.run cls = .ok lowered) :
    Lower.stringConcat cls = .ok lowered ∨ Lower.switchPatterns cls = .ok lowered ∨
      Lower.dynamicConstants cls = .ok lowered ∨ cls.SameIds lowered.cls := by
  cases pass with
  | dynamicStringConcat => exact .inl h
  | dynamicSwitchPatterns => exact .inr (.inl h)
  | explicitConstants => exact .inr (.inr (.inl h))
  | moduleRemover | unsealClasses =>
      cases h
      exact .inr (.inr (.inr ⟨rfl, rfl⟩))
  | nestHostToPackage =>
      cases h
      refine .inr (.inr (.inr ?_))
      unfold Lower.openNest
      split
      · exact ⟨rfl, rfl⟩
      · constructor <;> rw [List.map_map] <;> rfl
  | recordToClass =>
      refine .inr (.inr (.inr ?_))
      simp only [run, Lower.recordToClass] at h
      split at h
      · simp only [bind_eq_ok, pure_eq_ok] at h
        obtain ⟨methods, hmethods, rfl⟩ := h
        refine ⟨map_id_of_forall₂ ?_, rfl⟩
        exact (mapM_eq_ok_forall₂ hmethods).imp fun _ _ hstep => Record.lowerMethod_id hstep
      · simp only [pure_eq_ok] at h
        exact h ▸ ⟨rfl, rfl⟩
  | alwaysStrict =>
      cases h
      refine .inr (.inr (.inr ⟨?_, rfl⟩))
      rw [Lower.markStrict, List.map_map]
      refine List.map_congr_left fun method _ => ?_
      simp only [Function.comp_apply]
      split <;> rfl
  | matchExceptionFixer =>
      cases h
      refine .inr (.inr (.inr ⟨?_, rfl⟩))
      rw [Lower.matchFailure, List.map_map]
      rfl
  | removeAttributes =>
      cases h
      refine .inr (.inr (.inr ?_))
      constructor <;> rw [Lower.dropRawAttributes, List.map_map] <;> rfl

/-- Widening calls leaves the names and descriptors of members as they are. -/
theorem SymbolTable.widenCalls_sameIds {table : SymbolTable} {cls cls' : ClassFile}
    {session session' : Session} (h : table.widenCalls cls session = (.ok cls', session')) :
    cls.SameIds cls' := by
  obtain ⟨methods, hmap, rfl⟩ := widenCalls_run h
  refine ⟨map_id_of_forall₂ ?_, rfl⟩
  refine (task_mapM_forall₂ hmap).imp fun method method' hstep => ?_
  obtain ⟨_, _, hstep⟩ := hstep
  rcases widenMethod_run hstep with ⟨_, rfl⟩ | ⟨_, _, _, _, rfl⟩ <;> rfl

/-- **A pass keeps members distinct.** -/
theorem Pass.run_distinct (pass : Pass) (cls : ClassFile) (lowered : Lowered)
    (h : pass.run cls = .ok lowered) (hold : cls.DistinctMembers) :
    lowered.cls.DistinctMembers := by
  rcases run_members h with hconcat | hswitch | hconstants | hsame
  · exact ClassFile.replaceCallSites_distinct hconcat hold
  · exact ClassFile.replaceCallSites_distinct hswitch hold
  · exact Constants.dynamicConstants_distinct hconstants hold
  · exact hold.of_same_ids hsame.methods hsame.fields

/-- Widening calls keeps members distinct. -/
theorem SymbolTable.widenCalls_distinct {table : SymbolTable} {cls cls' : ClassFile}
    {session session' : Session} (h : table.widenCalls cls session = (.ok cls', session'))
    (hold : cls.DistinctMembers) : cls'.DistinctMembers :=
  have hsame := widenCalls_sameIds h
  hold.of_same_ids hsame.methods hsame.fields

namespace Converter

/-- **Lowering never makes two members the same**, whatever names the class uses already: a class
with distinct members has distinct members when it is brought down to a release.  And whatever names
are in use, the next name with a stem is found: it has the smallest number that is free for it and
all its companions. -/
theorem convert_distinct :
    (∀ (converter : Converter) (cls cls' : ClassFile) (session session' : Session),
      converter.convert cls session = (.ok (some cls'), session') →
        cls.DistinctMembers → cls'.DistinctMembers) ∧
      ∀ (supply : NameSupply) (stem : String) (companions : List String), ∃ number : Nat,
        (supply.next stem companions).1 = stem ++ toString number ∧
        (∀ front ∈ "" :: companions, front ++ (stem ++ toString number) ∉ supply.used) ∧
        ∀ other < number, ∃ front ∈ "" :: companions,
          front ++ (stem ++ toString other) ∈ supply.used := by
  constructor
  · intro converter cls cls' session session' h hold
    refine convert_keeps (fun pass _ => Pass.run_distinct pass) ?_ ?_ h hold
    · intro table cls cls' before after hwiden hold
      exact SymbolTable.widenCalls_distinct hwiden hold
    · exact fun cls version hold => hold.of_same_ids rfl rfl
  · intro supply stem companions
    obtain ⟨number, hname, hfree, hsmallest, -⟩ := next_smallest supply stem companions
    refine ⟨number, hname, fun front hfront => ?_, fun other hother => ?_⟩
    · exact isFree_iff.mp hfree _ (mem_family.mpr ⟨front, hfront, rfl⟩)
    · have hblocked : ¬ supply.isFree companions (stem ++ toString other) = true := by
        rw [hsmallest other hother]
        exact Bool.false_ne_true
      rw [isFree_iff] at hblocked
      push Not at hblocked
      obtain ⟨member, hmember, hused⟩ := hblocked
      obtain ⟨front, hfront, rfl⟩ := mem_family.mp hmember
      exact ⟨front, hfront, hused⟩

/-- A concatenation of nothing. -/
def emptyConcat : CallSite :=
  ⟨"x", "()Ljava/lang/String;", .method (.static false) Concat.recipeBootstrap, []⟩

/-- A class of release 9 with a concatenation, and with a native method under the name that a method
for it would have if nothing were in the way. -/
def takenName : ClassFile where
  version := ⟨53, 0⟩
  access := {}
  name := "a/A"
  superClass := some ClassName.javaObject
  interfaces := []
  methods := [
    Method.ofCode { isStatic := true } "f" "()Ljava/lang/String;"
      { instructions := [⟨none, .invokedynamic emptyConcat⟩, ⟨none, .op .areturn⟩] },
    { access := { isStatic := true, isNative := true }
      name := "strconcat$makeConcatWithConstants$x$0"
      descriptor := "()Ljava/lang/String;" }]

/-- The next name for the concatenation is the one with the number one. -/
theorem next_takenName :
    ((NameSupply.ofClass takenName).next "strconcat$makeConcatWithConstants$x$" []).1 =
      "strconcat$makeConcatWithConstants$x$1" := by
  obtain ⟨number, hname, hfree, hsmallest, -⟩ := next_smallest (NameSupply.ofClass takenName)
    "strconcat$makeConcatWithConstants$x$" []
  have hne : number ≠ 0 := by
    rintro rfl
    refine isFree_iff.mp hfree _ List.mem_cons_self (NameSupply.mem_ofClass.mpr (.inl ?_))
    decide
  have hle : number ≤ 1 := by
    by_contra hgt
    have hone := hsmallest 1 (by omega)
    rw [← Bool.not_eq_true, isFree_iff] at hone
    refine hone fun member hmember hused => ?_
    obtain rfl := List.mem_singleton.mp hmember
    rcases NameSupply.mem_ofClass.mp hused with hmethod | hfield
    · revert hmethod
      decide
    · cases hfield
  rw [hname, show number = 1 by omega]
  rfl

set_option maxRecDepth 4096 in
/-- In release 8 the class has a third method, under the next name that is free. -/
theorem convert_distinct_takenName :
    ∃ cls' session', convert ⟨⟨8, by decide, by decide⟩, none⟩ takenName {} =
        (.ok (some cls'), session') ∧ takenName.DistinctMembers ∧ cls'.DistinctMembers ∧
      cls'.methods.map Method.name = ["f", "strconcat$makeConcatWithConstants$x$0",
        "strconcat$makeConcatWithConstants$x$1"] := by
  have hold : takenName.DistinctMembers := ⟨by decide, by decide⟩
  have hconvert : ∃ cls' session', convert ⟨⟨8, by decide, by decide⟩, none⟩ takenName {} =
      (.ok (some cls'), session') ∧ cls'.methods.map Method.name =
        ["f", "strconcat$makeConcatWithConstants$x$0",
          ((NameSupply.ofClass takenName).next "strconcat$makeConcatWithConstants$x$" []).1] :=
    ⟨_, _, rfl, rfl⟩
  obtain ⟨cls', session', h, hnames⟩ := hconvert
  rw [next_takenName] at hnames
  exact ⟨cls', session', h, hold, convert_distinct.1 _ _ _ _ _ h hold, hnames⟩

end Converter

end Downlevel
