import Mathlib.Logic.Relation
import Downlevel.Proofs.Failing
import Downlevel.Proofs.Pool.Loadable

/-!
# Dynamic constants are unfolded exactly

A dynamic constant in a pool leads to a bootstrap method, the arguments of which are indices of the
pool again.  Followed to its end, that gives a value in which dynamic constants stand inside of each
other.  In a file that nobody has checked it need not end: a constant can be among its own arguments.

A look-up goes down a limited number of levels, so it always gives a value or an error.  What it gives
is said here without levels: a value that the entries unfold to, in which dynamic constants are not
nested deeper than the limit, and every such value.  So no unfolding within the limit is refused.
An unfolding is as deep as the longest chain of dynamic constants that begins where it does, and on a
circle chains are of any length; so whatever leads to a circle, or into a longer chain, is refused.
That something is nested too deep is said of longer chains only.

* `Table.Unfolds` — the value that an index stands for, however deep;
* `Table.loadableWithin_eq_ok_iff` — a look-up of some levels gives that value, if it is not deeper;
* `Table.Chain.le_nesting`, `Table.Circular.chain` — chains bound the depth from below;
* `Table.shallow_loadableWithin` — without a long chain nothing is too deep;
* `Table.unfolds_exactly` — all of that for values and for dynamic call sites.
-/

namespace Downlevel

/-- A fault is not about dynamic constants that are nested too deep. -/
def Fault.Shallow (fault : Fault) : Prop :=
  ∀ limit index, fault ≠ .read (.nestedTooDeep limit index)

namespace Loadable

mutual

/-- How deep dynamic constants are nested in a value. -/
def nesting : Loadable → Nat
  | .dynamic _ _ _ arguments => nestingAll arguments + 1
  | _ => 0

/-- How deep dynamic constants are nested in some values. -/
def nestingAll : List Loadable → Nat
  | [] => 0
  | value :: rest => max value.nesting (nestingAll rest)

end

/-- In some values dynamic constants are nested as deep as in one of them. -/
theorem nestingAll_le_iff {values : List Loadable} {depth : Nat} :
    nestingAll values ≤ depth ↔ ∀ value ∈ values, value.nesting ≤ depth := by
  induction values with
  | nil => simp [nestingAll]
  | cons value rest ih => rw [nestingAll, Nat.max_le, ih, List.forall_mem_cons]

/-- In an argument of a dynamic constant they are nested less deep. -/
theorem nesting_lt_of_mem {name : FieldName} {descriptor : FieldDescriptor} {bootstrap : Handle}
    {arguments : List Loadable} {value : Loadable} (hmem : value ∈ arguments) :
    value.nesting < (dynamic name descriptor bootstrap arguments).nesting := by
  rw [nesting, Nat.lt_succ_iff]
  exact nestingAll_le_iff.mp (Nat.le_refl _) value hmem

end Loadable

namespace Pool.Table

variable {table : Table} {bootstraps : Array Bootstrap} {index argument : UInt16}
  {value : Loadable}

/-- The value that an entry stands for which is not a dynamic constant. -/
inductive Plain (table : Table) (index : UInt16) : Loadable → Prop where
  | int {value : Int32} (hget : table.get index = .ok (.int value)) : Plain table index (.int value)
  | float {bits : UInt32} (hget : table.get index = .ok (.float bits)) :
      Plain table index (.float bits)
  | long {value : Int64} (hget : table.get index = .ok (.long value)) :
      Plain table index (.long value)
  | double {bits : UInt64} (hget : table.get index = .ok (.double bits)) :
      Plain table index (.double bits)
  | cls {text : UInt16} {name : ClassName} (hget : table.get index = .ok (.cls text))
      (hname : table.cls index = .ok name) : Plain table index (.cls name)
  | string {text : UInt16} {value : JavaString} (hget : table.get index = .ok (.string text))
      (htext : table.javaString text = .ok value) : Plain table index (.string value)
  | handle {kind : UInt8} {target : UInt16} {value : Handle}
      (hget : table.get index = .ok (.handle kind target))
      (hhandle : table.handle index = .ok value) : Plain table index (.handle value)
  | methodType {text : UInt16} {descriptor : MethodDescriptor}
      (hget : table.get index = .ok (.methodType text))
      (hdescriptor : table.named .methodDescriptor text = .ok descriptor) :
      Plain table index (.methodType descriptor)

/-- **The value that an index stands for.**  A dynamic constant has its name and its descriptor, which
are spelled right, the handle of its bootstrap method, and the values of the arguments in order. -/
inductive Unfolds (table : Table) (bootstraps : Array Bootstrap) : UInt16 → Loadable → Prop where
  | plain {index : UInt16} {value : Loadable} (h : table.Plain index value) :
      Unfolds table bootstraps index value
  | dynamic {index bootstrap member : UInt16} {name : FieldName} {descriptor : FieldDescriptor}
      {method : Bootstrap} {arguments : List Loadable}
      (hget : table.get index = .ok (.dynamic bootstrap member))
      (hmember : table.nameAndType member = .ok (name, descriptor))
      (hname : Name.isValid .fieldName name) (hdescriptor : Name.isValid .fieldDescriptor descriptor)
      (hmethod : bootstraps[bootstrap.toNat]? = some method)
      (harguments : List.Forall₂ (Unfolds table bootstraps) method.arguments arguments) :
      Unfolds table bootstraps index (.dynamic name descriptor method.handle arguments)

/-- The dynamic call site that an index stands for. -/
def UnfoldsSite (table : Table) (bootstraps : Array Bootstrap) (index : UInt16) (site : CallSite) :
    Prop :=
  ∃ bootstrap member method, table.get index = .ok (.invokeDynamic bootstrap member) ∧
    table.methodId member = .ok ⟨site.name, site.descriptor⟩ ∧
      bootstraps[bootstrap.toNat]? = some method ∧ site.bootstrap = method.handle ∧
        List.Forall₂ (table.Unfolds bootstraps) method.arguments site.arguments

/-! ### Look-ups that succeed -/

/-- A value that is not a dynamic constant has none in it. -/
theorem Plain.nesting_eq_zero (h : table.Plain index value) : value.nesting = 0 := by
  cases h <;> rfl

/-- What is made of an entry is the value that it stands for, or what is made of a dynamic
constant. -/
theorem loadableWith_eq_ok_iff {dynamic : UInt16 → UInt16 → Except Error Loadable} :
    table.loadableWith dynamic index = .ok value ↔ table.Plain index value ∨
      ∃ bootstrap member, table.get index = .ok (.dynamic bootstrap member) ∧
        dynamic bootstrap member = .ok value := by
  constructor
  · intro h
    obtain ⟨item, hget, hitem⟩ := bind_eq_ok.mp h
    cases item with
    | dynamic bootstrap member => exact .inr ⟨bootstrap, member, hget, hitem⟩
    | cls text =>
        obtain ⟨name, hname, hvalue⟩ := bind_eq_ok.mp hitem
        cases pure_eq_ok.mp hvalue
        exact .inl (.cls hget hname)
    | string text =>
        obtain ⟨string, htext, hvalue⟩ := bind_eq_ok.mp hitem
        cases pure_eq_ok.mp hvalue
        exact .inl (.string hget htext)
    | handle kind target =>
        obtain ⟨handle, hhandle, hvalue⟩ := bind_eq_ok.mp hitem
        cases pure_eq_ok.mp hvalue
        exact .inl (.handle hget hhandle)
    | methodType text =>
        obtain ⟨descriptor, hdescriptor, hvalue⟩ := bind_eq_ok.mp hitem
        cases pure_eq_ok.mp hvalue
        exact .inl (.methodType hget hdescriptor)
    | int number =>
        cases pure_eq_ok.mp hitem
        exact .inl (.int hget)
    | float bits =>
        cases pure_eq_ok.mp hitem
        exact .inl (.float hget)
    | long number =>
        cases pure_eq_ok.mp hitem
        exact .inl (.long hget)
    | double bits =>
        cases pure_eq_ok.mp hitem
        exact .inl (.double hget)
    | _ => cases hitem
  · rintro (h | ⟨bootstrap, member, hget, hdynamic⟩)
    · cases h with
      | int hget | float hget | long hget | double hget => exact bind_eq_ok.mpr ⟨_, hget, rfl⟩
      | cls hget hname => exact bind_eq_ok.mpr ⟨_, hget, bind_eq_ok.mpr ⟨_, hname, rfl⟩⟩
      | string hget htext => exact bind_eq_ok.mpr ⟨_, hget, bind_eq_ok.mpr ⟨_, htext, rfl⟩⟩
      | handle hget hhandle => exact bind_eq_ok.mpr ⟨_, hget, bind_eq_ok.mpr ⟨_, hhandle, rfl⟩⟩
      | methodType hget hdescriptor =>
          exact bind_eq_ok.mpr ⟨_, hget, bind_eq_ok.mpr ⟨_, hdescriptor, rfl⟩⟩
    · exact bind_eq_ok.mpr ⟨_, hget, hdynamic⟩

/-- A bootstrap method is read off the list, with what is found for each argument. -/
theorem bootstrapWith_eq_ok_iff {look : UInt16 → Except Error Loadable} {bootstrap : UInt16}
    {handle : Handle} {arguments : List Loadable} :
    bootstrapWith bootstraps look bootstrap = .ok (handle, arguments) ↔
      ∃ method, bootstraps[bootstrap.toNat]? = some method ∧ handle = method.handle ∧
        List.Forall₂ (fun argument value => look argument = .ok value) method.arguments
          arguments := by
  unfold bootstrapWith
  cases hmethod : bootstraps[bootstrap.toNat]? with
  | none => simp
  | some method =>
      simp only [bind_eq_ok, pure_eq_ok, mapM_eq_ok_iff, Prod.mk.injEq, Option.some.injEq]
      constructor
      · rintro ⟨values, hvalues, rfl, rfl⟩
        exact ⟨method, rfl, rfl, hvalues⟩
      · rintro ⟨_, rfl, rfl, hvalues⟩
        exact ⟨arguments, hvalues, rfl, rfl⟩

/-- Arguments that are found within a depth are the ones that their indices stand for, none of them
deeper. -/
theorem forall₂_within_iff {depth : Nat}
    (h : ∀ index value, table.loadableWithin bootstraps depth index = .ok value ↔
      table.Unfolds bootstraps index value ∧ value.nesting ≤ depth)
    {indices : List UInt16} {values : List Loadable} :
    List.Forall₂ (fun index value => table.loadableWithin bootstraps depth index = .ok value)
        indices values ↔
      List.Forall₂ (table.Unfolds bootstraps) indices values ∧
        ∀ value ∈ values, value.nesting ≤ depth := by
  induction indices generalizing values with
  | nil => simp +contextual
  | cons index rest ih =>
      cases values with
      | nil => simp
      | cons value others =>
          rw [List.forall₂_cons, List.forall₂_cons, List.forall_mem_cons, h, ih]
          tauto

/-- **A look-up of some levels** gives the value that an index stands for, if that is not deeper. -/
theorem loadableWithin_eq_ok_iff (depth : Nat) (index : UInt16) (value : Loadable) :
    table.loadableWithin bootstraps depth index = .ok value ↔
      table.Unfolds bootstraps index value ∧ value.nesting ≤ depth := by
  induction depth generalizing index value with
  | zero =>
      unfold loadableWithin
      rw [loadableWith_eq_ok_iff]
      constructor
      · rintro (hplain | ⟨_, _, -, hdynamic⟩)
        · exact ⟨.plain hplain, Nat.le_of_eq hplain.nesting_eq_zero⟩
        · cases hdynamic
      · rintro ⟨hunfolds, hnesting⟩
        cases hunfolds with
        | plain hplain => exact .inl hplain
        | dynamic => exact absurd hnesting (Nat.not_succ_le_zero _)
  | succ depth ih =>
      unfold loadableWithin
      rw [loadableWith_eq_ok_iff]
      constructor
      · rintro (hplain | ⟨bootstrap, member, hget, hdynamic⟩)
        · refine ⟨.plain hplain, ?_⟩
          rw [hplain.nesting_eq_zero]
          exact Nat.zero_le _
        · obtain ⟨⟨name, descriptor⟩, hmember, hrest⟩ := bind_eq_ok.mp hdynamic
          obtain ⟨⟨handle, arguments⟩, hbootstrap, hnames⟩ := bind_eq_ok.mp hrest
          simp only [bind_eq_ok, Name.checked_eq_ok, pure_eq_ok] at hnames
          obtain ⟨_, ⟨hname, rfl⟩, _, ⟨hdescriptor, rfl⟩, rfl⟩ := hnames
          obtain ⟨method, hmethod, rfl, hlooks⟩ := bootstrapWith_eq_ok_iff.mp hbootstrap
          obtain ⟨harguments, hnesting⟩ := (forall₂_within_iff ih).mp hlooks
          refine ⟨.dynamic hget hmember hname hdescriptor hmethod harguments, ?_⟩
          exact Nat.succ_le_succ (Loadable.nestingAll_le_iff.mpr hnesting)
      · rintro ⟨hunfolds, hnesting⟩
        cases hunfolds with
        | plain hplain => exact .inl hplain
        | @dynamic _ bootstrap member name descriptor method arguments hget hmember hname
            hdescriptor hmethod harguments =>
            have hshallow := Loadable.nestingAll_le_iff.mp (Nat.le_of_succ_le_succ hnesting)
            have hlooks := (forall₂_within_iff ih).mpr ⟨harguments, hshallow⟩
            have hbootstrap := bootstrapWith_eq_ok_iff.mpr ⟨method, hmethod, rfl, hlooks⟩
            refine .inr ⟨bootstrap, member, hget, ?_⟩
            refine bind_eq_ok.mpr ⟨_, hmember, bind_eq_ok.mpr ⟨_, hbootstrap, ?_⟩⟩
            simp only [bind_eq_ok, Name.checked_eq_ok, pure_eq_ok]
            exact ⟨name, ⟨hname, rfl⟩, descriptor, ⟨hdescriptor, rfl⟩, rfl⟩

/-! ### Chains of dynamic constants -/

/-- A dynamic constant has an index among the arguments of its bootstrap method. -/
def LeadsTo (table : Table) (bootstraps : Array Bootstrap) (index argument : UInt16) : Prop :=
  ∃ bootstrap member method, table.get index = .ok (.dynamic bootstrap member) ∧
    bootstraps[bootstrap.toNat]? = some method ∧ argument ∈ method.arguments

/-- A chain of so many dynamic constants begins at an index, each of which has the next one among the
arguments of its bootstrap method. -/
inductive Chain (table : Table) (bootstraps : Array Bootstrap) : UInt16 → Nat → Prop where
  | last {index bootstrap member : UInt16}
      (hget : table.get index = .ok (.dynamic bootstrap member)) : Chain table bootstraps index 1
  | next {index argument : UInt16} {length : Nat} (hleads : table.LeadsTo bootstraps index argument)
      (hrest : Chain table bootstraps argument length) :
      Chain table bootstraps index (length + 1)

/-- Following dynamic constants to their arguments from an index can reach a circle. -/
def Circular (table : Table) (bootstraps : Array Bootstrap) (index : UInt16) : Prop :=
  ∃ place, Relation.ReflTransGen (table.LeadsTo bootstraps) index place ∧
    Relation.TransGen (table.LeadsTo bootstraps) place place

/-- Dynamic constants are nested in a value at least as deep as a chain is long that begins where the
value is unfolded. -/
theorem Chain.le_nesting {length : Nat} (h : table.Chain bootstraps index length)
    (hunfolds : table.Unfolds bootstraps index value) : length ≤ value.nesting := by
  induction h generalizing value with
  | last hget =>
      cases hunfolds with
      | plain hplain => cases hplain <;> simp_all
      | dynamic => exact Nat.succ_le_succ (Nat.zero_le _)
  | next hleads _ ih =>
      obtain ⟨bootstrap, member, method, hget, hmethod, hmem⟩ := hleads
      cases hunfolds with
      | plain hplain => cases hplain <;> simp_all
      | dynamic hget' _ _ _ hmethod' harguments =>
          cases hget.symm.trans hget'
          cases hmethod.symm.trans hmethod'
          obtain ⟨inner, hinner, hargument⟩ := exists_right_of_forall₂ harguments hmem
          calc _ ≤ inner.nesting + 1 := Nat.succ_le_succ (ih hargument)
            _ ≤ _ := Loadable.nesting_lt_of_mem hinner

/-- From an index that leads to a circle there is a next one. -/
theorem Circular.step (h : table.Circular bootstraps index) :
    ∃ argument, table.LeadsTo bootstraps index argument ∧ table.Circular bootstraps argument := by
  obtain ⟨place, hreaches, hround⟩ := h
  rcases hreaches.cases_head with rfl | ⟨argument, hleads, hrest⟩
  · obtain ⟨argument, hleads, hback⟩ := Relation.TransGen.head'_iff.mp hround
    exact ⟨argument, hleads, index, hback, hround⟩
  · exact ⟨argument, hleads, place, hrest, hround⟩

/-- **From an index that leads to a circle chains of every length begin.** -/
theorem Circular.chain (h : table.Circular bootstraps index) (length : Nat) :
    table.Chain bootstraps index (length + 1) := by
  induction length generalizing index with
  | zero =>
      obtain ⟨argument, ⟨bootstrap, member, method, hget, -⟩, -⟩ := h.step
      exact .last hget
  | succ length ih =>
      obtain ⟨argument, hleads, hcircular⟩ := h.step
      exact .next hleads (ih hcircular)

/-! ### Look-ups that go too deep -/

/-- No entry is too deep by itself. -/
@[grind ←] theorem shallow_get (index : UInt16) :
    FailsOnly Fault.Shallow (table.get index) := by
  unfold get
  grind [Fault.Shallow]

@[grind ←] theorem shallow_javaString (index : UInt16) :
    FailsOnly Fault.Shallow (table.javaString index) := by
  unfold javaString
  grind [Fault.Shallow]

@[grind ←] theorem shallow_utf8 (index : UInt16) :
    FailsOnly Fault.Shallow (table.utf8 index) := by
  unfold utf8
  grind [Fault.Shallow]

/-- A name that is not spelled right has nothing to do with depth. -/
@[grind ←] theorem shallow_checked (kind : NameKind) (name : String) :
    FailsOnly Fault.Shallow (Name.checked kind name) := by
  unfold Name.checked
  grind [Fault.Shallow]

@[grind ←] theorem shallow_named (kind : NameKind) (index : UInt16) :
    FailsOnly Fault.Shallow (table.named kind index) := by
  unfold named
  grind

@[grind ←] theorem shallow_cls (index : UInt16) : FailsOnly Fault.Shallow (table.cls index) := by
  unfold cls
  grind [Fault.Shallow]

@[grind ←] theorem shallow_nameAndType (index : UInt16) :
    FailsOnly Fault.Shallow (table.nameAndType index) := by
  unfold nameAndType
  grind [Fault.Shallow]

@[grind ←] theorem shallow_methodId (index : UInt16) :
    FailsOnly Fault.Shallow (table.methodId index) := by
  unfold methodId
  grind

@[grind ←] theorem shallow_fieldRef (index : UInt16) :
    FailsOnly Fault.Shallow (table.fieldRef index) := by
  unfold fieldRef
  grind [Fault.Shallow]

@[grind ←] theorem shallow_memberMethod (owner member : UInt16) :
    FailsOnly Fault.Shallow (table.memberMethod owner member) := by
  unfold memberMethod
  grind

@[grind ←] theorem shallow_methodRef (index : UInt16) :
    FailsOnly Fault.Shallow (table.methodRef index) := by
  unfold methodRef
  grind [Fault.Shallow]

@[grind ←] theorem shallow_interfaceMethodRef (index : UInt16) :
    FailsOnly Fault.Shallow (table.interfaceMethodRef index) := by
  unfold interfaceMethodRef
  grind [Fault.Shallow]

@[grind ←] theorem shallow_anyMethodRef (index : UInt16) :
    FailsOnly Fault.Shallow (table.anyMethodRef index) := by
  unfold anyMethodRef
  grind [Fault.Shallow]

@[grind ←] theorem shallow_handle (index : UInt16) :
    FailsOnly Fault.Shallow (table.handle index) := by
  unfold handle
  grind [Fault.Shallow]

/-- What is made of an entry is too deep only if what is made of a dynamic constant is. -/
theorem shallow_loadableWith {dynamic : UInt16 → UInt16 → Except Error Loadable}
    (h : ∀ bootstrap member, table.get index = .ok (.dynamic bootstrap member) →
      FailsOnly Fault.Shallow (dynamic bootstrap member)) :
    FailsOnly Fault.Shallow (table.loadableWith dynamic index) := by
  unfold loadableWith
  refine failsOnly_bind_of_yields (shallow_get index) fun item hget => ?_
  cases item with
  | dynamic bootstrap member => exact h bootstrap member hget
  | _ => grind [Fault.Shallow]

/-- A bootstrap method is too deep only if one of its arguments is. -/
theorem shallow_bootstrapWith {look : UInt16 → Except Error Loadable} {bootstrap : UInt16}
    (h : ∀ method, bootstraps[bootstrap.toNat]? = some method →
      ∀ argument ∈ method.arguments, FailsOnly Fault.Shallow (look argument)) :
    FailsOnly Fault.Shallow (bootstrapWith bootstraps look bootstrap) := by
  unfold bootstrapWith
  cases hmethod : bootstraps[bootstrap.toNat]? with
  | none => grind [Fault.Shallow]
  | some method => exact failsOnly_bind (failsOnly_mapM (h method hmethod)) fun _ => failsOnly_pure _

/-- **Without a chain that is longer than the levels of a look-up, nothing is too deep.** -/
theorem shallow_loadableWithin (depth : Nat) {index : UInt16}
    (h : ¬ table.Chain bootstraps index (depth + 1)) :
    FailsOnly Fault.Shallow (table.loadableWithin bootstraps depth index) := by
  induction depth generalizing index with
  | zero =>
      unfold loadableWithin
      exact shallow_loadableWith fun bootstrap member hget => absurd (.last hget) h
  | succ depth ih =>
      unfold loadableWithin
      refine shallow_loadableWith fun bootstrap member hget => ?_
      have hbootstrap : FailsOnly Fault.Shallow
          (bootstrapWith bootstraps (table.loadableWithin bootstraps depth) bootstrap) := by
        refine shallow_bootstrapWith fun method hmethod argument hmem => ih fun hrest => ?_
        exact h (.next ⟨bootstrap, member, method, hget, hmethod, hmem⟩ hrest)
      grind

/-! ### Values and dynamic call sites -/

/-- What a look-up gives is exactly what is unfolded, to the limit: the `values` in it that are
unfolded begin where the indices `starts` are. -/
structure UnfoldsExactly (table : Table) (bootstraps : Array Bootstrap) {α : Type}
    (outcome : Except Error α) (IsUnfolding : α → Prop) (values : α → List Loadable)
    (starts : UInt16 → Prop) : Prop where
  /-- It gives the unfolding if dynamic constants are nested at most 64 deep in it. -/
  ok_iff : ∀ result, outcome = .ok result ↔
    IsUnfolding result ∧ ∀ value ∈ values result, value.nesting ≤ 64
  /-- It fails if a circle can be reached, or there is a chain of more than 64 dynamic constants. -/
  fails : ∀ start, starts start →
    (table.Circular bootstraps start ∨ ∃ length, 64 < length ∧ table.Chain bootstraps start length) →
      ∃ error, outcome = .error error
  /-- It says that something is nested too deep only if there is such a chain. -/
  too_deep : ∀ error limit place, outcome = .error error →
    Fault.read (.nestedTooDeep limit place) ∈ error.parts →
      ∃ start length, starts start ∧ 64 < length ∧ table.Chain bootstraps start length

/-- A look-up is exact if it gives the unfoldings of limited depth, each start is unfolded in them, and
nothing is too deep without a long chain. -/
theorem UnfoldsExactly.of_ok_iff {α : Type} {outcome : Except Error α} {IsUnfolding : α → Prop}
    {values : α → List Loadable} {starts : UInt16 → Prop}
    (hok : ∀ result, outcome = .ok result ↔
      IsUnfolding result ∧ ∀ value ∈ values result, value.nesting ≤ 64)
    (hstarts : ∀ result, IsUnfolding result → ∀ start, starts start →
      ∃ value ∈ values result, table.Unfolds bootstraps start value)
    (hshallow : (∀ start, starts start → ¬ table.Chain bootstraps start 65) →
      FailsOnly Fault.Shallow outcome) :
    table.UnfoldsExactly bootstraps outcome IsUnfolding values starts where
  ok_iff := hok
  fails start hstart hdeep := by
    have hlong : ∃ length, 64 < length ∧ table.Chain bootstraps start length := by
      rcases hdeep with hcircular | hlong
      · exact ⟨65, by decide, hcircular.chain 64⟩
      · exact hlong
    cases houtcome : outcome with
    | error error => exact ⟨error, rfl⟩
    | ok result =>
        obtain ⟨hunfolding, hnesting⟩ := (hok result).mp houtcome
        obtain ⟨value, hmem, hunfolds⟩ := hstarts result hunfolding start hstart
        obtain ⟨length, hlength, hchain⟩ := hlong
        have hle := hchain.le_nesting hunfolds
        have hle' := hnesting value hmem
        omega
  too_deep error limit place houtcome hfault := by
    by_contra hnone
    push Not at hnone
    have hno : ∀ start, starts start → ¬ table.Chain bootstraps start 65 :=
      fun start hstart => hnone start 65 hstart (by decide)
    exact hshallow hno error houtcome _ hfault limit place rfl

/-- An index is an argument of the bootstrap method of a dynamic call site. -/
def IsSiteArgument (table : Table) (bootstraps : Array Bootstrap) (index argument : UInt16) : Prop :=
  ∃ bootstrap member method, table.get index = .ok (.invokeDynamic bootstrap member) ∧
    bootstraps[bootstrap.toNat]? = some method ∧ argument ∈ method.arguments

/-- A look-up gives a dynamic call site if it unfolds to that and no argument is too deep. -/
theorem callSite_eq_ok_iff {site : CallSite} :
    table.callSite bootstraps index = .ok site ↔ table.UnfoldsSite bootstraps index site ∧
      ∀ value ∈ site.arguments, value.nesting ≤ nestingLimit := by
  have hwithin : ∀ index value, table.loadableWithin bootstraps nestingLimit index = .ok value ↔
      table.Unfolds bootstraps index value ∧ value.nesting ≤ nestingLimit :=
    loadableWithin_eq_ok_iff nestingLimit
  constructor
  · intro h
    obtain ⟨item, hget, hitem⟩ := bind_eq_ok.mp h
    cases item with
    | invokeDynamic bootstrap member =>
        obtain ⟨id, hid, hrest⟩ := bind_eq_ok.mp hitem
        obtain ⟨⟨handle, arguments⟩, hbootstrap, hsite⟩ := bind_eq_ok.mp hrest
        obtain rfl := pure_eq_ok.mp hsite
        obtain ⟨method, hmethod, hhandle, hlooks⟩ := bootstrapWith_eq_ok_iff.mp hbootstrap
        obtain ⟨harguments, hnesting⟩ := (forall₂_within_iff hwithin).mp hlooks
        exact ⟨⟨bootstrap, member, method, hget, hid, hmethod, hhandle, harguments⟩, hnesting⟩
    | _ => cases hitem
  · rintro ⟨⟨bootstrap, member, method, hget, hid, hmethod, hhandle, harguments⟩, hnesting⟩
    have hlooks := (forall₂_within_iff hwithin).mpr ⟨harguments, hnesting⟩
    have hbootstrap := bootstrapWith_eq_ok_iff.mpr ⟨method, hmethod, hhandle, hlooks⟩
    exact bind_eq_ok.mpr
      ⟨_, hget, bind_eq_ok.mpr ⟨_, hid, bind_eq_ok.mpr ⟨_, hbootstrap, rfl⟩⟩⟩

/-- A dynamic call site is too deep only if one of its arguments is. -/
theorem shallow_callSite
    (h : ∀ argument, table.IsSiteArgument bootstraps index argument →
      ¬ table.Chain bootstraps argument (nestingLimit + 1)) :
    FailsOnly Fault.Shallow (table.callSite bootstraps index) := by
  unfold callSite
  refine failsOnly_bind_of_yields (shallow_get index) fun item hget => ?_
  cases item with
  | invokeDynamic bootstrap member =>
      have hbootstrap : FailsOnly Fault.Shallow
          (bootstrapWith bootstraps (table.loadable bootstraps) bootstrap) := by
        refine shallow_bootstrapWith fun method hmethod argument hmem => ?_
        exact shallow_loadableWithin nestingLimit
          (h argument ⟨bootstrap, member, method, hget, hmethod, hmem⟩)
      grind
  | _ => grind [Fault.Shallow]

/-- **Dynamic constants are unfolded exactly, and circles are errors.**  Looking up an index gives the
value that it stands for, name, descriptor, handle and arguments in order, all the way down, if
dynamic constants are nested at most 64 deep in it; it fails if following dynamic constants from the
index reaches a circle or a chain of more than 64 of them; and it says that they are nested too deep
only if there is such a chain.  The same holds of a dynamic call site, from its arguments on. -/
theorem unfolds_exactly (table : Table) (bootstraps : Array Bootstrap) (index : UInt16) :
    table.UnfoldsExactly bootstraps (table.loadable bootstraps index)
        (table.Unfolds bootstraps index) (fun value => [value]) (· = index) ∧
      table.UnfoldsExactly bootstraps (table.callSite bootstraps index)
        (table.UnfoldsSite bootstraps index) CallSite.arguments
        (table.IsSiteArgument bootstraps index) := by
  constructor
  · refine .of_ok_iff (fun value => ?_) ?_ fun hno => ?_
    · rw [List.forall_mem_singleton]
      exact loadableWithin_eq_ok_iff nestingLimit index value
    · rintro value hunfolds start rfl
      exact ⟨value, List.mem_singleton_self value, hunfolds⟩
    · exact shallow_loadableWithin nestingLimit (hno index rfl)
  · refine .of_ok_iff (fun site => callSite_eq_ok_iff) ?_ shallow_callSite
    rintro site ⟨bootstrap, member, method, hget, -, hmethod, -, harguments⟩ start hstart
    obtain ⟨bootstrap', member', method', hget', hmethod', hmem⟩ := hstart
    cases hget.symm.trans hget'
    cases hmethod.symm.trans hmethod'
    exact exists_right_of_forall₂ harguments hmem

end Pool.Table

end Downlevel
