import Downlevel.Proofs.Pool.Order
import Downlevel.Proofs.Text

/-!
# Different contents have different indices

What an entry says is told by the entry together with those that it refers to.  In a pool in order no
two entries have one index, so what is put and has one index has the same entry, refers to the same
indices, and is the same.  For dynamic constants this goes through the arguments of bootstrap methods,
by induction on one of the two.

* `Pool.Content` — what can be put into a pool;
* `PoolM.Says` — what the entry of a content is;
* `PoolM.distinct` — contents with one index are the same.
-/

namespace Downlevel

namespace Pool

/-- What can be put into a pool: what an entry says, together with those that it refers to. -/
inductive Content where
  | text (value : JavaString)
  | package (name : PackageName)
  | module (name : ModuleName)
  | nameAndType (name descriptor : String)
  | field (value : FieldRef)
  | method (value : MethodRef) (onInterface : Bool)
  | loadable (value : Loadable)
  | callSite (site : CallSite)

end Pool

namespace PoolM

open Pool Builder

/-- Puts a content. -/
def content : Content → PoolM UInt16
  | .text value => javaUtf8 value
  | .package name => package name
  | .module name => module name
  | .nameAndType name descriptor => nameAndType name descriptor
  | .field value => fieldRef value
  | .method value onInterface => methodRef value onInterface
  | .loadable value => loadable value
  | .callSite site => callSite site

instance (value : Content) : Interns (content value) := by
  cases value <;> unfold content <;> infer_instance

/-- A content has a place. -/
theorem extends_content (value : Content) : Extends (content value) := by
  cases value with
  | text value => exact extends_javaUtf8 value
  | package name => exact extends_package name
  | module name => exact extends_module name
  | nameAndType name descriptor => exact extends_nameAndType name descriptor
  | field value => exact extends_fieldRef value
  | method value onInterface => exact extends_methodRef value onInterface
  | loadable value => exact extends_loadable value
  | callSite site => exact extends_callSite site

section Distinct

variable (pool : Builder)

/-- What is put has an index in a pool already. -/
def Has {α : Type} (work : PoolM α) (value : α) : Prop :=
  work pool = .ok (value, pool)

/-- An entry says a content, where it refers to what the content is put together from. -/
inductive Says : Entry → Content → Prop
  | text (value : JavaString) : Says (.utf8 value) (.text value)
  | package {name : PackageName} {place : UInt16} : Has pool (utf8 name) place →
      Says (.package place) (.package name)
  | module {name : ModuleName} {place : UInt16} : Has pool (utf8 name) place →
      Says (.module place) (.module name)
  | nameAndType {name descriptor : String} {first second : UInt16} : Has pool (utf8 name) first →
      Has pool (utf8 descriptor) second →
      Says (.nameAndType first second) (.nameAndType name descriptor)
  | field {value : FieldRef} {owner member : UInt16} : Has pool (cls value.owner) owner →
      Has pool (PoolM.nameAndType value.name value.descriptor) member →
      Says (.field owner member) (.field value)
  | method {value : MethodRef} {owner member : UInt16} : Has pool (cls value.owner) owner →
      Has pool (PoolM.nameAndType value.name value.descriptor) member →
      Says (.method owner member) (.method value false)
  | interfaceMethod {value : MethodRef} {owner member : UInt16} : Has pool (cls value.owner) owner →
      Has pool (PoolM.nameAndType value.name value.descriptor) member →
      Says (.interfaceMethod owner member) (.method value true)
  | int (value : Int32) : Says (.int value) (.loadable (.int value))
  | float (bits : UInt32) : Says (.float bits) (.loadable (.float bits))
  | long (value : Int64) : Says (.long value) (.loadable (.long value))
  | double (bits : UInt64) : Says (.double bits) (.loadable (.double bits))
  | cls {name : ClassName} {place : UInt16} : Has pool (utf8 name) place →
      Says (.cls place) (.loadable (.cls name))
  | string {value : JavaString} {place : UInt16} : Has pool (javaUtf8 value) place →
      Says (.string place) (.loadable (.string value))
  | handle {value : Handle} {kind : UInt8} {target place : UInt16} :
      pool.index[Entry.handle kind target]? = some place → Has pool (handle value) place →
      Says (.handle kind target) (.loadable (.handle value))
  | methodType {descriptor : MethodDescriptor} {place : UInt16} : Has pool (utf8 descriptor) place →
      Says (.methodType place) (.loadable (.methodType descriptor))
  | dynamic {name : FieldName} {descriptor : FieldDescriptor} {method : Handle}
      {arguments : List Loadable} {member target index : UInt16} {indices : List UInt16} :
      Has pool (PoolM.nameAndType name descriptor) member → Has pool (handle method) target →
      Has pool (loadables arguments) indices → Has pool (bootstrap ⟨target, indices⟩) index →
      Says (.dynamic index member) (.loadable (.dynamic name descriptor method arguments))
  | callSite {site : CallSite} {member target index : UInt16} {indices : List UInt16} :
      Has pool (PoolM.nameAndType site.name site.descriptor) member →
      Has pool (handle site.bootstrap) target → Has pool (loadables site.arguments) indices →
      Has pool (bootstrap ⟨target, indices⟩) index →
      Says (.invokeDynamic index member) (.callSite site)

variable {pool} {index : UInt16}

/-- A handle with an index has an entry there that refers to its member. -/
theorem put_of_handle {value : Handle} (h : Has pool (handle value) index) :
    ∃ target, Has pool (put (.handle value.kind target)) index := by
  cases value with
  | field use value =>
      obtain ⟨target, -, hput⟩ := settled_bind (w := fieldRef value) h
      exact ⟨target, hput⟩
  | method use value =>
      obtain ⟨target, -, hput⟩ := settled_bind (w := methodRef value _) h
      exact ⟨target, hput⟩

/-- A constant that can be loaded has an entry at its index that says it. -/
theorem says_of_loadable {value : Loadable} (h : Has pool (loadable value) index) :
    ∃ item : Entry, pool.index[item]? = some index ∧ Says pool item (.loadable value) := by
  cases value with
  | int value =>
      unfold loadable at h
      exact ⟨_, index_put h, .int value⟩
  | float bits =>
      unfold loadable at h
      exact ⟨_, index_put h, .float bits⟩
  | long value =>
      unfold loadable at h
      exact ⟨_, index_put h, .long value⟩
  | double bits =>
      unfold loadable at h
      exact ⟨_, index_put h, .double bits⟩
  | cls name =>
      unfold loadable at h
      obtain ⟨place, hname, hput⟩ := settled_bind h
      exact ⟨_, index_put hput, .cls hname⟩
  | string value =>
      unfold loadable at h
      obtain ⟨place, htext, hput⟩ := settled_bind h
      exact ⟨_, index_put hput, .string htext⟩
  | handle value =>
      unfold loadable at h
      obtain ⟨target, hput⟩ := put_of_handle h
      exact ⟨_, index_put hput, .handle (index_put hput) h⟩
  | methodType descriptor =>
      unfold loadable at h
      obtain ⟨place, hname, hput⟩ := settled_bind h
      exact ⟨_, index_put hput, .methodType hname⟩
  | dynamic name descriptor method arguments =>
      unfold loadable at h
      obtain ⟨member, hmember, h⟩ := settled_bind h
      obtain ⟨target, htarget, h⟩ := settled_bind h
      obtain ⟨indices, hindices, h⟩ := settled_bind h
      obtain ⟨found, hfound, hput⟩ := settled_bind h
      exact ⟨_, index_put hput, .dynamic hmember htarget hindices hfound⟩

/-- **A content with an index has an entry there that says it.** -/
theorem says_of_has {value : Content} (h : Has pool (content value) index) :
    ∃ item : Entry, pool.index[item]? = some index ∧ Says pool item value := by
  cases value with
  | text value => exact ⟨_, index_put h, .text value⟩
  | package name =>
      obtain ⟨place, hname, hput⟩ := settled_bind h
      exact ⟨_, index_put hput, .package hname⟩
  | module name =>
      obtain ⟨place, hname, hput⟩ := settled_bind h
      exact ⟨_, index_put hput, .module hname⟩
  | nameAndType name descriptor =>
      obtain ⟨first, hname, h⟩ := settled_bind h
      obtain ⟨second, hdescriptor, hput⟩ := settled_bind h
      exact ⟨_, index_put hput, .nameAndType hname hdescriptor⟩
  | field value =>
      obtain ⟨owner, howner, h⟩ := settled_bind h
      obtain ⟨member, hmember, hput⟩ := settled_bind h
      exact ⟨_, index_put hput, .field howner hmember⟩
  | method value onInterface =>
      obtain ⟨owner, howner, h⟩ := settled_bind h
      obtain ⟨member, hmember, hput⟩ := settled_bind h
      cases onInterface with
      | false => exact ⟨_, index_put hput, .method howner hmember⟩
      | true => exact ⟨_, index_put hput, .interfaceMethod howner hmember⟩
  | callSite site =>
      obtain ⟨member, hmember, h⟩ := settled_bind h
      obtain ⟨target, htarget, h⟩ := settled_bind h
      obtain ⟨indices, hindices, h⟩ := settled_bind h
      obtain ⟨found, hfound, hput⟩ := settled_bind h
      exact ⟨_, index_put hput, .callSite hmember htarget hindices hfound⟩
  | loadable value => exact says_of_loadable h

/-- Contents with one index have one entry that says them both. -/
theorem says_both (hpool : pool.Ordered) {a b : Content} (ha : Has pool (content a) index)
    (hb : Has pool (content b) index) : ∃ item, Says pool item a ∧ Says pool item b := by
  obtain ⟨item, hitem, hsays⟩ := says_of_has ha
  obtain ⟨other, hother, hsays'⟩ := says_of_has hb
  cases hpool.eq_of_index hitem hother
  exact ⟨item, hsays, hsays'⟩

/-- Strings with one index are the same. -/
theorem distinct_javaUtf8 (hpool : pool.Ordered) {a b : JavaString}
    (ha : Has pool (javaUtf8 a) index) (hb : Has pool (javaUtf8 b) index) : a = b := by
  cases hpool.eq_of_index (index_put ha) (index_put hb)
  rfl

/-- Texts with one index are the same. -/
theorem distinct_utf8 (hpool : pool.Ordered) {a b : String} (ha : Has pool (utf8 a) index)
    (hb : Has pool (utf8 b) index) : a = b := by
  have hsame := congrArg JavaString.toString? (distinct_javaUtf8 hpool ha hb)
  rw [JavaString.toString?_ofString, JavaString.toString?_ofString] at hsame
  exact Option.some.inj hsame

/-- Classes with one index are the same. -/
theorem distinct_cls (hpool : pool.Ordered) {a b : ClassName} (ha : Has pool (cls a) index)
    (hb : Has pool (cls b) index) : a = b := by
  obtain ⟨place, ha, hput⟩ := settled_bind ha
  obtain ⟨place', hb, hput'⟩ := settled_bind hb
  cases hpool.eq_of_index (index_put hput) (index_put hput')
  exact distinct_utf8 hpool ha hb

/-- Names and descriptors with one index are the same. -/
theorem distinct_nameAndType (hpool : pool.Ordered) {name name' descriptor descriptor' : String}
    (ha : Has pool (nameAndType name descriptor) index)
    (hb : Has pool (nameAndType name' descriptor') index) :
    name = name' ∧ descriptor = descriptor' := by
  obtain ⟨item, hsays, hsays'⟩ :=
    says_both hpool (a := .nameAndType name descriptor) (b := .nameAndType name' descriptor') ha hb
  cases hsays with
  | nameAndType hname hdescriptor =>
      cases hsays' with
      | nameAndType hname' hdescriptor' =>
          exact ⟨distinct_utf8 hpool hname hname', distinct_utf8 hpool hdescriptor hdescriptor'⟩

/-- Fields with one index are the same. -/
theorem distinct_fieldRef (hpool : pool.Ordered) {a b : FieldRef} (ha : Has pool (fieldRef a) index)
    (hb : Has pool (fieldRef b) index) : a = b := by
  obtain ⟨item, hsays, hsays'⟩ := says_both hpool (a := .field a) (b := .field b) ha hb
  cases hsays with
  | field howner hmember =>
      cases hsays' with
      | field howner' hmember' =>
          obtain ⟨hname, hdescriptor⟩ := distinct_nameAndType hpool hmember hmember'
          show FieldRef.mk a.owner a.name a.descriptor = ⟨b.owner, b.name, b.descriptor⟩
          rw [distinct_cls hpool howner howner', hname, hdescriptor]

/-- Methods with one index are the same, and both are on interfaces, or both are not. -/
theorem distinct_methodRef (hpool : pool.Ordered) {a b : MethodRef} {onInterface onInterface' : Bool}
    (ha : Has pool (methodRef a onInterface) index) (hb : Has pool (methodRef b onInterface') index) :
    a = b ∧ onInterface = onInterface' := by
  obtain ⟨item, hsays, hsays'⟩ :=
    says_both hpool (a := .method a onInterface) (b := .method b onInterface') ha hb
  have hsame {owner member : UInt16} (howner : Has pool (cls a.owner) owner)
      (hmember : Has pool (nameAndType a.name a.descriptor) member)
      (howner' : Has pool (cls b.owner) owner)
      (hmember' : Has pool (nameAndType b.name b.descriptor) member) : a = b := by
    obtain ⟨hname, hdescriptor⟩ := distinct_nameAndType hpool hmember hmember'
    show MethodRef.mk a.owner a.name a.descriptor = ⟨b.owner, b.name, b.descriptor⟩
    rw [distinct_cls hpool howner howner', hname, hdescriptor]
  cases hsays with
  | method howner hmember =>
      cases hsays' with
      | method howner' hmember' => exact ⟨hsame howner hmember howner' hmember', rfl⟩
  | interfaceMethod howner hmember =>
      cases hsays' with
      | interfaceMethod howner' hmember' => exact ⟨hsame howner hmember howner' hmember', rfl⟩

/-- Handles with one index are the same.  Their kinds tell how they are used, but for whether a method is
on an interface. -/
theorem distinct_handle (hpool : pool.Ordered) {a b : Handle} (ha : Has pool (handle a) index)
    (hb : Has pool (handle b) index) : a = b := by
  have hfield {use use' : FieldUse} {f f' : FieldRef}
      (hkind : (Handle.field use f).kind = (Handle.field use' f').kind) : use = use' := by
    cases use <;> cases use' <;> first | rfl | cases hkind
  have hmethod {use use' : MethodUse} {m m' : MethodRef}
      (hkind : (Handle.method use m).kind = (Handle.method use' m').kind)
      (hsame : (Handle.method use m).onInterface = (Handle.method use' m').onInterface) :
      use = use' := by
    cases use <;> cases use' <;> first | rfl | exact congrArg _ hsame | cases hkind
  have hmixed {use : FieldUse} {use' : MethodUse} {f : FieldRef} {m : MethodRef}
      (hkind : (Handle.field use f).kind = (Handle.method use' m).kind) : False := by
    cases use <;> cases use' <;> cases hkind
  cases a with
  | field use f =>
      obtain ⟨target, hf, hput⟩ := settled_bind (w := fieldRef f) ha
      cases b with
      | field use' f' =>
          obtain ⟨target', hf', hput'⟩ := settled_bind (w := fieldRef f') hb
          obtain ⟨hkind, rfl⟩ := Entry.handle.inj (hpool.eq_of_index (index_put hput) (index_put hput'))
          rw [hfield hkind, distinct_fieldRef hpool hf hf']
      | method use' m =>
          obtain ⟨target', hm, hput'⟩ := settled_bind (w := methodRef m _) hb
          obtain ⟨hkind, -⟩ := Entry.handle.inj (hpool.eq_of_index (index_put hput) (index_put hput'))
          exact (hmixed hkind).elim
  | method use m =>
      obtain ⟨target, hm, hput⟩ := settled_bind (w := methodRef m _) ha
      cases b with
      | field use' f =>
          obtain ⟨target', hf, hput'⟩ := settled_bind (w := fieldRef f) hb
          obtain ⟨hkind, -⟩ := Entry.handle.inj (hpool.eq_of_index (index_put hput) (index_put hput'))
          exact (hmixed hkind.symm).elim
      | method use' m' =>
          obtain ⟨target', hm', hput'⟩ := settled_bind (w := methodRef m' _) hb
          obtain ⟨hkind, rfl⟩ := Entry.handle.inj (hpool.eq_of_index (index_put hput) (index_put hput'))
          obtain ⟨rfl, hsame⟩ := distinct_methodRef hpool hm hm'
          rw [hmethod hkind hsame]

/-- Bootstrap methods with one index are the same. -/
theorem distinct_bootstrap (hpool : pool.Ordered) {a b : PlacedBootstrap}
    (ha : Has pool (bootstrap a) index) (hb : Has pool (bootstrap b) index) : a = b := by
  have hplaced := (hpool.bootstrap ha).2
  rw [(hpool.bootstrap hb).2] at hplaced
  exact (Option.some.inj hplaced).symm

/-- No values have no indices. -/
theorem has_loadables_nil {indices : List UInt16} (h : Has pool (loadables []) indices) :
    indices = [] := by
  unfold Has loadables at h
  exact (work_pure_eq_ok.mp h).1.symm

/-- Each of several values has its index. -/
theorem has_loadables_cons {value : Loadable} {rest : List Loadable} {indices : List UInt16}
    (h : Has pool (loadables (value :: rest)) indices) : ∃ first others,
      indices = first :: others ∧ Has pool (loadable value) first ∧
        Has pool (loadables rest) others := by
  unfold Has loadables at h
  obtain ⟨first, hfirst, h⟩ := settled_bind h
  obtain ⟨others, hothers, h⟩ := settled_bind h
  exact ⟨first, others, (work_pure_eq_ok.mp h).1.symm, hfirst, hothers⟩

/-- Loaded values with one index have entries that say them. -/
theorem says_loadable (hpool : pool.Ordered) {a b : Loadable} (ha : Has pool (loadable a) index)
    (hb : Has pool (loadable b) index) :
    ∃ item, Says pool item (.loadable a) ∧ Says pool item (.loadable b) :=
  says_both hpool (a := .loadable a) (b := .loadable b) ha hb

mutual

/-- **Loaded values with one index are the same.** -/
theorem distinct_loadable (hpool : pool.Ordered) : ∀ (a : Loadable) {b : Loadable} {index : UInt16},
    Has pool (loadable a) index → Has pool (loadable b) index → a = b
  | .int _, _, _, ha, hb | .float _, _, _, ha, hb | .long _, _, _, ha, hb
  | .double _, _, _, ha, hb => by
      obtain ⟨item, hsays, hsays'⟩ := says_loadable hpool ha hb
      cases hsays
      cases hsays'
      rfl
  | .cls _, _, _, ha, hb | .methodType _, _, _, ha, hb => by
      obtain ⟨item, hsays, hsays'⟩ := says_loadable hpool ha hb
      cases hsays with
      | _ hname =>
          cases hsays' with
          | _ hname' => rw [distinct_utf8 hpool hname hname']
  | .string _, _, _, ha, hb => by
      obtain ⟨item, hsays, hsays'⟩ := says_loadable hpool ha hb
      cases hsays with
      | string htext =>
          cases hsays' with
          | string htext' => rw [distinct_javaUtf8 hpool htext htext']
  | .handle _, _, _, ha, hb => by
      obtain ⟨item, hsays, hsays'⟩ := says_loadable hpool ha hb
      cases hsays with
      | handle hplace hvalue =>
          cases hsays' with
          | handle hplace' hvalue' =>
              cases hplace.symm.trans hplace'
              rw [distinct_handle hpool hvalue hvalue']
  | .dynamic _ _ _ arguments, _, _, ha, hb => by
      obtain ⟨item, hsays, hsays'⟩ := says_loadable hpool ha hb
      cases hsays with
      | dynamic hmember htarget hindices hplaced =>
          cases hsays' with
          | dynamic hmember' htarget' hindices' hplaced' =>
              obtain ⟨rfl, rfl⟩ := distinct_nameAndType hpool hmember hmember'
              cases distinct_bootstrap hpool hplaced hplaced'
              rw [distinct_handle hpool htarget htarget',
                distinct_loadables hpool arguments hindices hindices']

/-- Lists of loaded values with the same indices are the same. -/
theorem distinct_loadables (hpool : pool.Ordered) : ∀ (a : List Loadable) {b : List Loadable}
    {indices : List UInt16}, Has pool (loadables a) indices → Has pool (loadables b) indices → a = b
  | [], b, _, ha, hb => by
      obtain rfl := has_loadables_nil ha
      cases b with
      | nil => rfl
      | cons value rest =>
          obtain ⟨_, _, hcons, -⟩ := has_loadables_cons hb
          cases hcons
  | value :: rest, b, _, ha, hb => by
      obtain ⟨first, others, rfl, hfirst, hothers⟩ := has_loadables_cons ha
      cases b with
      | nil => cases has_loadables_nil hb
      | cons value' rest' =>
          obtain ⟨_, _, hcons, hfirst', hothers'⟩ := has_loadables_cons hb
          cases hcons
          rw [distinct_loadable hpool value hfirst hfirst', distinct_loadables hpool rest hothers hothers']

end

/-- **Contents with one index are the same.** -/
theorem distinct (hpool : pool.Ordered) {a b : Content} (ha : Has pool (content a) index)
    (hb : Has pool (content b) index) : a = b := by
  obtain ⟨item, hsays, hsays'⟩ := says_both hpool ha hb
  cases a with
  | loadable value =>
      cases hsays <;> cases hsays' <;> exact congrArg _ (distinct_loadable hpool _ ha hb)
  | text value =>
      cases hsays
      cases hsays'
      rfl
  | package name =>
      cases hsays with
      | package hname =>
          cases hsays' with
          | package hname' => rw [distinct_utf8 hpool hname hname']
  | module name =>
      cases hsays with
      | module hname =>
          cases hsays' with
          | module hname' => rw [distinct_utf8 hpool hname hname']
  | nameAndType name descriptor =>
      cases hsays
      cases hsays'
      obtain ⟨rfl, rfl⟩ := distinct_nameAndType hpool ha hb
      rfl
  | field value =>
      cases hsays
      cases hsays'
      rw [distinct_fieldRef hpool ha hb]
  | method value onInterface =>
      cases hsays <;> cases hsays' <;> rw [(distinct_methodRef hpool ha hb).1]
  | callSite site =>
      cases hsays with
      | callSite hmember htarget hindices hplaced =>
          cases hsays' with
          | @callSite site' _ _ _ _ hmember' htarget' hindices' hplaced' =>
              obtain ⟨hname, hdescriptor⟩ := distinct_nameAndType hpool hmember hmember'
              cases distinct_bootstrap hpool hplaced hplaced'
              have hmethod := distinct_handle hpool htarget htarget'
              have harguments := distinct_loadables hpool site.arguments hindices hindices'
              show Content.callSite ⟨site.name, site.descriptor, site.bootstrap, site.arguments⟩ =
                .callSite ⟨site'.name, site'.descriptor, site'.bootstrap, site'.arguments⟩
              rw [hname, hdescriptor, hmethod, harguments]

end Distinct

end PoolM

end Downlevel
