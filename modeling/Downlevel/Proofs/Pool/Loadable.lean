import Downlevel.Proofs.Pool.Lookup

/-!
# Values that can be loaded

A dynamic constant refers to a bootstrap method, whose arguments can be dynamic constants again, so
values are looked up to a limited depth.  A look-up gives exactly the values in which names are spelled
right and dynamic constants are not nested deeper than that.  Both directions are by induction on the
depth: what is found is such a value, and such a value can be put into any pool and is then found.

* `Loadable.Readable` — a value that can be looked up within a depth;
* `readable_of_loadableWithin` — a value that is found is one of these;
* `found_of_readable` — these are found where they were put.
-/

namespace Downlevel

/-- The names in a value are spelled right, and dynamic constants are nested in it at most as deep as
given. -/
def Loadable.Readable : Nat → Loadable → Prop
  | _, .cls name => Name.isValid .className name
  | _, .handle value => value.Valid
  | _, .methodType descriptor => Name.isValid .methodDescriptor descriptor
  | 0, .dynamic _ _ _ _ => False
  | depth + 1, .dynamic name descriptor bootstrap arguments =>
      Name.isValid .fieldName name ∧ Name.isValid .fieldDescriptor descriptor ∧ bootstrap.Valid ∧
        ∀ value ∈ arguments, Readable depth value
  | _, _ => True

/-- The names in a dynamic call site are spelled right, and its arguments can be looked up. -/
structure CallSite.Readable (site : CallSite) : Prop where
  name : Name.isValid .methodName site.name
  descriptor : Name.isValid .methodDescriptor site.descriptor
  bootstrap : site.bootstrap.Valid
  arguments : ∀ value ∈ site.arguments, value.Readable Pool.Table.nestingLimit

namespace PoolM

open Pool

variable {table : Table} {bootstraps : Array Bootstrap} {index : UInt16}

/-- Put into any pool, the value is found again within the depth. -/
def Found (depth : Nat) (value : Loadable) : Prop :=
  Puts (loadable value) fun constants index =>
    constants.table.loadableWithin constants.bootstraps depth index = .ok value

/-- A value that is not a dynamic constant is found again whatever is done about dynamic constants. -/
theorem puts_loadableWith {depth : Nat} {value : Loadable} (h : value.Readable depth)
    (hplain : ∀ name descriptor bootstrap arguments,
      value ≠ .dynamic name descriptor bootstrap arguments)
    (dynamic : Constants → UInt16 → UInt16 → UInt16 → Except Error Loadable) :
    Puts (loadable value) fun constants index =>
      constants.table.loadableWith (dynamic constants index) index = .ok value := by
  cases value with
  | dynamic name descriptor bootstrap arguments => exact absurd rfl (hplain _ _ _ _)
  | cls name =>
      have hvalid : Name.isValid .className name := by cases depth <;> exact h
      unfold loadable cls
      refine (puts_named .className hvalid).bind fun text => ?_
      refine (puts_put _).mono fun constants index h htext => ?_
      simp [Table.loadableWith, Table.cls, h.2, bind, Except.bind, htext, pure, Except.pure]
  | string value =>
      unfold loadable
      refine (puts_string value).mono fun constants index h => ?_
      obtain ⟨text, hget, htext⟩ := h
      simp [Table.loadableWith, hget, bind, Except.bind, htext, pure, Except.pure]
  | handle value =>
      have hvalid : value.Valid := by cases depth <;> exact h
      unfold loadable
      refine (puts_handle hvalid).mono fun constants index h => ?_
      obtain ⟨hfound, target, hget⟩ := h
      simp [Table.loadableWith, hget, bind, Except.bind, hfound, pure, Except.pure]
  | methodType descriptor =>
      have hvalid : Name.isValid .methodDescriptor descriptor := by cases depth <;> exact h
      unfold loadable
      refine (puts_named .methodDescriptor hvalid).bind fun text => ?_
      refine (puts_put _).mono fun constants index h htext => ?_
      simp [Table.loadableWith, h.2, bind, Except.bind, htext, pure, Except.pure]
  | int _ | float _ | long _ | double _ =>
      unfold loadable
      refine (puts_put _).mono fun constants index h => ?_
      simp [Table.loadableWith, h.2, bind, Except.bind, pure, Except.pure]

/-- A value that is looked up is a dynamic constant, or one whose names are spelled right. -/
theorem readable_of_loadableWith {dynamic : UInt16 → UInt16 → Except Error Loadable}
    {value : Loadable} (h : table.loadableWith dynamic index = .ok value) :
    (∃ bootstrap member, dynamic bootstrap member = .ok value) ∨ ∀ depth, value.Readable depth := by
  obtain ⟨item, -, hitem⟩ := bind_eq_ok.mp h
  cases item with
  | dynamic bootstrap member => exact .inl ⟨bootstrap, member, hitem⟩
  | cls name =>
      obtain ⟨name, hname, hvalue⟩ := bind_eq_ok.mp hitem
      obtain rfl := pure_eq_ok.mp hvalue
      have hvalid := Table.cls_valid hname
      exact .inr fun depth => by cases depth <;> exact hvalid
  | string text =>
      obtain ⟨string, -, hvalue⟩ := bind_eq_ok.mp hitem
      obtain rfl := pure_eq_ok.mp hvalue
      exact .inr fun depth => by cases depth <;> trivial
  | handle kind target =>
      obtain ⟨handle, hhandle, hvalue⟩ := bind_eq_ok.mp hitem
      obtain rfl := pure_eq_ok.mp hvalue
      have hvalid := Table.handle_valid hhandle
      exact .inr fun depth => by cases depth <;> exact hvalid
  | methodType descriptor =>
      obtain ⟨descriptor, hdescriptor, hvalue⟩ := bind_eq_ok.mp hitem
      obtain rfl := pure_eq_ok.mp hvalue
      have hvalid := Table.named_valid hdescriptor
      exact .inr fun depth => by cases depth <;> exact hvalid
  | int _ | float _ | long _ | double _ =>
      obtain rfl := pure_eq_ok.mp hitem
      exact .inr fun depth => by cases depth <;> trivial
  | _ => cases hitem

/-- Values that are found again one by one are found again as the arguments of a bootstrap
method. -/
theorem puts_loadables {depth : Nat} {values : List Loadable}
    (h : ∀ value ∈ values, Found depth value) :
    Puts (loadables values) fun constants indices =>
      indices.mapM (constants.table.loadableWithin constants.bootstraps depth) = .ok values := by
  induction values with
  | nil =>
      unfold loadables
      exact puts_pure fun constants => by simp
  | cons value rest ih =>
      unfold loadables
      refine (h value List.mem_cons_self).bind fun first => ?_
      refine (ih fun other hmem => h other (List.mem_cons_of_mem _ hmem)).map ?_
      intro constants others hothers hfirst
      simp [List.mapM_cons, hfirst, hothers, bind, Except.bind, pure, Except.pure]

/-- A bootstrap method with arguments that are found again is found again. -/
theorem puts_bootstrapMethod {depth : Nat} {method : Handle} {arguments : List Loadable}
    (hmethod : method.Valid) (harguments : ∀ value ∈ arguments, Found depth value) :
    Puts (do
      let method ← handle method
      let arguments ← loadables arguments
      bootstrap ⟨method, arguments⟩) fun constants index =>
        Table.bootstrapWith constants.bootstraps
          (constants.table.loadableWithin constants.bootstraps depth) index =
            .ok (method, arguments) := by
  intro pool index pool' hrun hsound
  simp only [work_bind_eq_ok] at hrun
  obtain ⟨placed, pool₁, hhandle, indices, pool₂, hindices, hbootstrap⟩ := hrun
  obtain ⟨hsound₁, hcovers₁⟩ := puts_handle hmethod _ _ _ hhandle hsound
  obtain ⟨hsound₂, hcovers₂⟩ := puts_loadables harguments _ _ _ hindices hsound₁
  have hknown : ∀ constants : Constants, constants.Covers pool₂ →
      constants.table.handle placed = .ok method := fun constants hc =>
    (hcovers₁ constants (hcovers₂ constants hc).1).2.1
  obtain ⟨hsound', hcovers'⟩ := puts_bootstrap hbootstrap hsound₂ hknown
  refine ⟨hsound', fun constants hc => ?_⟩
  obtain ⟨hc₂, hget⟩ := hcovers' constants hc
  obtain ⟨hc₁, hvalues⟩ := hcovers₂ constants hc₂
  refine ⟨(hcovers₁ constants hc₁).1, ?_⟩
  simp [Table.bootstrapWith, hget, hvalues, bind, Except.bind, pure, Except.pure]

/-- What is read of a bootstrap method: a handle that is spelled right, and arguments that were
looked up. -/
theorem bootstrapWith_eq_ok {bootstraps : Array Bootstrap}
    (hbootstraps : ∀ bootstrap ∈ bootstraps, bootstrap.handle.Valid)
    {look : UInt16 → Except Error Loadable} {handle : Handle} {arguments : List Loadable}
    (h : Table.bootstrapWith bootstraps look index = .ok (handle, arguments)) :
    handle.Valid ∧ ∀ value ∈ arguments, ∃ place, look place = .ok value := by
  unfold Table.bootstrapWith at h
  split at h
  case h_2 => cases h
  case h_1 bootstrap hget =>
    simp only [bind_eq_ok, pure_eq_ok, Prod.mk.injEq] at h
    obtain ⟨values, hvalues, rfl, rfl⟩ := h
    refine ⟨hbootstraps bootstrap (Array.mem_of_getElem? hget), fun value hmem => ?_⟩
    obtain ⟨place, -, hplace⟩ := exists_left_of_forall₂ (mapM_eq_ok_forall₂ hvalues) hmem
    exact ⟨place, hplace⟩

/-- **A value that is found within a depth is readable within it.** -/
theorem readable_of_loadableWithin
    (hbootstraps : ∀ bootstrap ∈ bootstraps, bootstrap.handle.Valid) {depth : Nat}
    {value : Loadable} (h : table.loadableWithin bootstraps depth index = .ok value) :
    value.Readable depth := by
  induction depth generalizing index value with
  | zero =>
      unfold Table.loadableWithin at h
      rcases readable_of_loadableWith h with ⟨_, _, hdynamic⟩ | hplain
      · cases hdynamic
      · exact hplain 0
  | succ depth ih =>
      unfold Table.loadableWithin at h
      rcases readable_of_loadableWith h with ⟨bootstrap, member, hdynamic⟩ | hplain
      · obtain ⟨⟨name, descriptor⟩, -, hrest⟩ := bind_eq_ok.mp hdynamic
        obtain ⟨⟨handle, arguments⟩, hmethod, hnames⟩ := bind_eq_ok.mp hrest
        simp only [bind_eq_ok, Name.checked_eq_ok, pure_eq_ok] at hnames
        obtain ⟨_, ⟨hname, rfl⟩, _, ⟨hdescriptor, rfl⟩, rfl⟩ := hnames
        obtain ⟨hhandle, harguments⟩ := bootstrapWith_eq_ok hbootstraps hmethod
        refine ⟨hname, hdescriptor, hhandle, fun value hmem => ?_⟩
        obtain ⟨_, hplace⟩ := harguments value hmem
        exact ih hplace
      · exact hplain (depth + 1)

/-- **A value that is readable within a depth is found where it was put**, whatever the pool. -/
theorem found_of_readable {depth : Nat} {value : Loadable} (h : value.Readable depth) :
    Found depth value := by
  induction depth generalizing value with
  | zero =>
      unfold Found Table.loadableWithin
      refine puts_loadableWith h (fun _ _ _ _ heq => ?_)
        fun _ index _ _ => fail (.read (.nestedTooDeep Table.nestingLimit index))
      rw [heq] at h
      exact h
  | succ depth ih =>
      by_cases hdynamic : ∃ name descriptor bootstrap arguments,
          value = .dynamic name descriptor bootstrap arguments
      · obtain ⟨name, descriptor, handle, arguments, rfl⟩ := hdynamic
        obtain ⟨hname, hdescriptor, hhandle, harguments⟩ := h
        unfold Found loadable
        refine (puts_nameAndType name descriptor).bind fun member => ?_
        have hput := (puts_bootstrapMethod hhandle fun value hmem => ih (harguments value hmem)).bind
          fun index => (puts_put (.dynamic index member)).mono fun constants place h hbootstrap =>
            show constants.table.nameAndType member = .ok (name, descriptor) →
                constants.table.loadableWithin constants.bootstraps (depth + 1) place =
                  .ok (.dynamic name descriptor handle arguments) by
              intro hmember
              simp [Table.loadableWithin, Table.loadableWith, h.2, bind, Except.bind, hmember,
                hbootstrap, Name.checked, hname, hdescriptor, pure, Except.pure]
        simp only [bind_assoc] at hput
        exact hput.mono fun constants place h hmember => h hmember.2
      · unfold Found Table.loadableWithin
        exact puts_loadableWith h (fun name descriptor bootstrap arguments heq =>
          hdynamic ⟨name, descriptor, bootstrap, arguments, heq⟩) _

/-- A readable value is looked up as it was put. -/
theorem puts_loadable {value : Loadable} (h : value.Readable Table.nestingLimit) :
    Puts (loadable value) fun constants place =>
      constants.table.loadable constants.bootstraps place = .ok value :=
  found_of_readable h

/-- A value that is looked up is readable. -/
theorem readable_of_loadable (hbootstraps : ∀ bootstrap ∈ bootstraps, bootstrap.handle.Valid)
    {value : Loadable} (h : table.loadable bootstraps index = .ok value) :
    value.Readable Table.nestingLimit :=
  readable_of_loadableWithin hbootstraps h

/-- A dynamic call site that is looked up is readable. -/
theorem readable_of_callSite (hbootstraps : ∀ bootstrap ∈ bootstraps, bootstrap.handle.Valid)
    {site : CallSite} (h : table.callSite bootstraps index = .ok site) : site.Readable := by
  obtain ⟨item, -, hitem⟩ := bind_eq_ok.mp h
  cases item with
  | invokeDynamic bootstrap member =>
      obtain ⟨id, hid, hrest⟩ := bind_eq_ok.mp hitem
      obtain ⟨⟨handle, arguments⟩, hmethod, hsite⟩ := bind_eq_ok.mp hrest
      obtain rfl := pure_eq_ok.mp hsite
      obtain ⟨hhandle, harguments⟩ := bootstrapWith_eq_ok hbootstraps hmethod
      obtain ⟨hname, hdescriptor⟩ := Table.methodId_valid hid
      refine ⟨hname, hdescriptor, hhandle, fun value hmem => ?_⟩
      obtain ⟨_, hplace⟩ := harguments value hmem
      exact readable_of_loadable hbootstraps hplace
  | _ => cases hitem

/-- What a dynamic call site refers to is found at the indices of its bootstrap method and of its
name, its arguments within a depth. -/
structure RefersWithin (constants : Constants) (site : CallSite) (depth : Nat)
    (bootstrap member : UInt16) : Prop where
  member : constants.table.methodId member = .ok ⟨site.name, site.descriptor⟩
  bootstrap : Table.bootstrapWith constants.bootstraps
    (constants.table.loadableWithin constants.bootstraps depth) bootstrap =
      .ok (site.bootstrap, site.arguments)

/-- A dynamic call site whose arguments are readable within a depth has what it refers to found within
that depth. -/
theorem puts_callSiteWithin {site : CallSite} {depth : Nat} (hname : Name.isValid .methodName site.name)
    (hdescriptor : Name.isValid .methodDescriptor site.descriptor) (hbootstrap : site.bootstrap.Valid)
    (harguments : ∀ value ∈ site.arguments, value.Readable depth) :
    Puts (callSite site) fun constants place => ∃ bootstrap member,
      constants.table.get place = .ok (.invokeDynamic bootstrap member) ∧
        RefersWithin constants site depth bootstrap member := by
  have hput (member : UInt16) := (puts_bootstrapMethod hbootstrap fun value hmem =>
      found_of_readable (harguments value hmem)).bind fun index =>
    (puts_put (.invokeDynamic index member)).mono fun constants place h hfound =>
      show constants.table.methodId member = .ok ⟨site.name, site.descriptor⟩ →
          ∃ bootstrap member, constants.table.get place = .ok (.invokeDynamic bootstrap member) ∧
            RefersWithin constants site depth bootstrap member from
        fun hmember => ⟨index, member, h.2, hmember, hfound⟩
  simp only [bind_assoc] at hput
  unfold callSite
  exact (puts_methodId hname hdescriptor).bind fun member =>
    (hput member).mono fun constants place h hmember => h hmember.2

/-- A readable dynamic call site is looked up as it was put. -/
theorem puts_callSite {site : CallSite} (h : site.Readable) :
    Puts (callSite site) fun constants place =>
      constants.table.callSite constants.bootstraps place = .ok site := by
  refine (puts_callSiteWithin h.name h.descriptor h.bootstrap h.arguments).mono
    fun constants place hfound => ?_
  obtain ⟨bootstrap, member, hget, hmember, hmethod⟩ := hfound
  unfold Table.callSite Table.loadable
  simp [hget, bind, Except.bind, hmember, hmethod, pure, Except.pure]

end PoolM

end Downlevel
