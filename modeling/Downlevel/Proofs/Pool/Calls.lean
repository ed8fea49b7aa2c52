import Mathlib
import Downlevel.Proofs.Pool.Distinct
import Downlevel.Proofs.Pool.Loadable
import Downlevel.Proofs.Pool.Table

/-!
# A pool that is filled and read

A pool is filled by any sequence of calls, each of which puts one thing and gives its index.  Things
that are the same have one index, and different ones have different indices, whatever the order.  The
bytes of the pool are read as a table in which every index leads to what was put there, if names are
spelled right and dynamic constants are not nested too deep.

* `Pool.Call` — what can be asked of a pool, and what is looked up for it;
* `PoolM.puts_call` — what was put is found;
* `PoolM.calls_spec` — the indices and the bytes that a sequence of calls gives.
-/

namespace Downlevel

namespace Pool

/-- Something that is put into a pool by itself. -/
inductive Call where
  | utf8 (text : String)
  | javaUtf8 (text : JavaString)
  | cls (name : ClassName)
  | package (name : PackageName)
  | module (name : ModuleName)
  | nameAndType (name descriptor : String)
  | fieldRef (field : FieldRef)
  | methodRef (method : MethodRef) (onInterface : Bool)
  | int (value : Int32)
  | float (bits : UInt32)
  | long (value : Int64)
  | double (bits : UInt64)
  | string (value : JavaString)
  | handle (value : Handle)
  | loadable (value : Loadable)
  | callSite (site : CallSite)
  | constantValue (value : ConstantValue)

namespace Call

/-- Puts it. -/
def put : Call → PoolM UInt16
  | utf8 text => PoolM.utf8 text
  | javaUtf8 text => PoolM.javaUtf8 text
  | cls name => PoolM.cls name
  | package name => PoolM.package name
  | module name => PoolM.module name
  | nameAndType name descriptor => PoolM.nameAndType name descriptor
  | fieldRef field => PoolM.fieldRef field
  | methodRef method onInterface => PoolM.methodRef method onInterface
  | int value => PoolM.put (.int value)
  | float bits => PoolM.put (.float bits)
  | long value => PoolM.put (.long value)
  | double bits => PoolM.put (.double bits)
  | string value => PoolM.string value
  | handle value => PoolM.handle value
  | loadable value => PoolM.loadable value
  | callSite site => PoolM.callSite site
  | constantValue value => PoolM.constantValue value

/-- What its entry says. -/
def content : Call → Content
  | utf8 text => .text (.ofString text)
  | javaUtf8 text => .text text
  | cls name => .loadable (.cls name)
  | package name => .package name
  | module name => .module name
  | nameAndType name descriptor => .nameAndType name descriptor
  | fieldRef field => .field field
  | methodRef method onInterface => .method method onInterface
  | int value => .loadable (.int value)
  | float bits => .loadable (.float bits)
  | long value => .loadable (.long value)
  | double bits => .loadable (.double bits)
  | string value => .loadable (.string value)
  | handle value => .loadable (.handle value)
  | loadable value => .loadable value
  | callSite site => .callSite site
  | constantValue (.int value) => .loadable (.int value)
  | constantValue (.float bits) => .loadable (.float bits)
  | constantValue (.long value) => .loadable (.long value)
  | constantValue (.double bits) => .loadable (.double bits)
  | constantValue (.string value) => .loadable (.string value)

/-- The names in it are spelled right, and dynamic constants are nested in it at most as deep as
given. -/
def Readable (depth : Nat) : Call → Prop
  | cls name => Name.isValid .className name
  | fieldRef field => field.Valid
  | methodRef method _ => method.Valid
  | handle value => value.Valid
  | loadable value => value.Readable depth
  | callSite site => Name.isValid .methodName site.name ∧
      Name.isValid .methodDescriptor site.descriptor ∧ site.bootstrap.Valid ∧
        ∀ value ∈ site.arguments, value.Readable depth
  | _ => True

/-- It is what the index leads to. -/
def FoundAt (constants : Constants) (index : UInt16) : Call → Prop
  | utf8 text => constants.table.utf8 index = .ok text
  | javaUtf8 text => constants.table.javaString index = .ok text
  | cls name => constants.table.cls index = .ok name
  | package name => constants.table.package index = .ok name
  | module name => constants.table.module index = .ok name
  | nameAndType name descriptor => constants.table.nameAndType index = .ok (name, descriptor)
  | fieldRef field => constants.table.fieldRef index = .ok field
  | methodRef method onInterface =>
      (if onInterface then constants.table.interfaceMethodRef index
        else constants.table.methodRef index) = .ok method ∧
      constants.table.anyMethodRef index = .ok (method, onInterface)
  | int value => constants.table.int index = .ok value
  | float bits => constants.table.float index = .ok bits
  | long value => constants.table.long index = .ok value
  | double bits => constants.table.double index = .ok bits
  | string value => constants.table.loadable constants.bootstraps index = .ok (.string value)
  | handle value => constants.table.handle index = .ok value
  | loadable value => constants.table.loadable constants.bootstraps index = .ok value
  | callSite site => constants.table.callSite constants.bootstraps index = .ok site
  | constantValue value => constants.table.constantValue index = .ok value

/-- What is put is what the entry says. -/
theorem put_eq (call : Call) : call.put = PoolM.content call.content := by
  cases call with
  | constantValue value => cases value <;> simp only [content, PoolM.content, PoolM.loadable] <;> rfl
  | _ =>
      simp only [content, PoolM.content, PoolM.loadable]
      rfl

instance (call : Call) : PoolM.Interns call.put := by
  rw [put_eq]
  infer_instance

end Call

end Pool

namespace PoolM

open Parse Pool Builder

/-- **What was put is found**, if names are spelled right and dynamic constants are not nested deeper
than the reader goes.  However deep they are nested, the pool stays sound. -/
theorem puts_call {call : Call} {depth : Nat} (h : call.Readable depth) :
    Puts call.put fun constants index =>
      call.Readable Table.nestingLimit → call.FoundAt constants index := by
  cases call with
  | utf8 text => exact (puts_utf8 text).mono fun _ _ h _ => h.2
  | javaUtf8 text => exact (puts_javaUtf8 text).mono fun _ _ h _ => h.2
  | cls name => exact (puts_cls h).mono fun _ _ h _ => h.2
  | package name => exact (puts_package name).mono fun _ _ h _ => h
  | module name => exact (puts_module name).mono fun _ _ h _ => h
  | nameAndType name descriptor => exact (puts_nameAndType name descriptor).mono fun _ _ h _ => h.2
  | fieldRef field => exact (puts_fieldRef h).mono fun _ _ h _ => h
  | methodRef method onInterface =>
      refine (puts_anyMethodRef h onInterface).mono fun constants index h _ => ?_
      obtain ⟨owner, member, hmember, hget⟩ := h
      cases onInterface <;>
        simp [Call.FoundAt, Table.methodRef, Table.interfaceMethodRef, Table.anyMethodRef, hget, bind,
          Except.bind, hmember, pure, Except.pure]
  | int value =>
      refine (puts_put _).mono fun constants index h _ => ?_
      simp [Call.FoundAt, Table.int, h.2, bind, Except.bind, pure, Except.pure]
  | float bits =>
      refine (puts_put _).mono fun constants index h _ => ?_
      simp [Call.FoundAt, Table.float, h.2, bind, Except.bind, pure, Except.pure]
  | long value =>
      refine (puts_put _).mono fun constants index h _ => ?_
      simp [Call.FoundAt, Table.long, h.2, bind, Except.bind, pure, Except.pure]
  | double bits =>
      refine (puts_put _).mono fun constants index h _ => ?_
      simp [Call.FoundAt, Table.double, h.2, bind, Except.bind, pure, Except.pure]
  | string value =>
      have hreadable : Loadable.Readable Table.nestingLimit (.string value) := trivial
      have hfound := puts_loadable hreadable
      unfold loadable at hfound
      exact hfound.mono fun _ _ h _ => h
  | handle value => exact (puts_handle h).mono fun _ _ h _ => h.1
  | loadable value =>
      by_cases hshallow : value.Readable Table.nestingLimit
      · exact (puts_loadable hshallow).mono fun _ _ h _ => h
      · exact (found_of_readable h).mono fun _ _ _ hreadable => absurd hreadable hshallow
  | callSite site =>
      obtain ⟨hname, hdescriptor, hbootstrap, harguments⟩ := h
      by_cases hshallow : ∀ value ∈ site.arguments, value.Readable Table.nestingLimit
      · exact (puts_callSite ⟨hname, hdescriptor, hbootstrap, hshallow⟩).mono fun _ _ h _ => h
      · exact (puts_callSiteWithin hname hdescriptor hbootstrap harguments).mono
          fun _ _ _ hreadable => absurd hreadable.2.2.2 hshallow
  | constantValue value => exact (puts_constantValue value).mono fun _ _ h _ => h

/-- Calls one after the other keep a pool in order. -/
theorem ordered_calls {calls : List Call} {indices : List UInt16} {pool pool' : Builder}
    (h : calls.mapM Call.put pool = .ok (indices, pool')) (hpool : pool.Ordered) :
    pool'.Ordered := by
  induction calls generalizing pool indices with
  | nil =>
      rw [List.mapM_nil] at h
      obtain ⟨-, rfl⟩ := work_pure_eq_ok.mp h
      exact hpool
  | cons call calls ih =>
      rw [List.mapM_cons] at h
      obtain ⟨first, between, hfirst, h⟩ := work_bind_eq_ok.mp h
      obtain ⟨rest, _, hrest, h⟩ := work_bind_eq_ok.mp h
      obtain ⟨-, rfl⟩ := work_pure_eq_ok.mp h
      rw [call.put_eq] at hfirst
      exact ih hrest ((extends_content call.content).run hfirst hpool).1

/-- **A pool that is filled and read.**  After any sequence of calls, each of them gives its index again
and leaves the pool alone; two of them have one index exactly if their entries say the same; and every
index is that of an entry.  Entries stand behind those that they refer to, and up to the next free
index, which is what a new entry gets.  If the pool is written, its bytes and nothing else are read as
a table of these entries.  There every index leads to what was put, if all names are spelled right, and
dynamic constants in it are not nested too deep. -/
theorem calls_spec {calls : List Call} {indices : List UInt16} {pool : Builder}
    (h : calls.mapM Call.put {} = .ok (indices, pool)) :
    List.Forall₂ (fun call index => call.put pool = .ok (index, pool)) calls indices ∧
    (∀ a first b second, (a, first) ∈ calls.zip indices → (b, second) ∈ calls.zip indices →
      (first = second ↔ a.content = b.content)) ∧
    (∀ index ∈ indices, index ≠ 0 ∧ ∃ item, pool.slots[index.toNat]? = some (some item)) ∧
    (∀ (item : Entry) (place : UInt16), pool.slots[place.toNat]? = some (some item) →
      pool.Refers item fun other =>
        other < place ∧ ∃ below, pool.slots[other.toNat]? = some (some below)) ∧
    (pool.count = pool.slots.length ∧ pool.count < 65536 ∧
      ∀ item index pool', some item ∉ pool.slots → put item pool = .ok (index, pool') →
        index.toNat = pool.count) ∧
    (∀ bytes, pool.write = .ok bytes → Reads Table.read bytes ⟨pool.slots.toArray⟩) ∧
    ((∀ call ∈ calls, ∃ depth, call.Readable depth) → ∃ bootstraps : List Bootstrap,
      List.Forall₂ (Table.Reaches ⟨pool.slots.toArray⟩) pool.bootstraps.toList bootstraps ∧
      List.Forall₂ (fun call index => call.Readable Table.nestingLimit →
        call.FoundAt ⟨⟨pool.slots.toArray⟩, bootstraps.toArray⟩ index) calls indices) := by
  have hordered := ordered_calls h ordered_empty
  have hsettled := settled_mapM h
  have hhas : ∀ {call index}, (call, index) ∈ calls.zip indices →
      Has pool (content call.content) index :=
    fun {call _} hmem => call.put_eq ▸ (List.forall₂_iff_zip.mp hsettled).2 hmem
  refine ⟨hsettled, fun a first b second ha hb => ?_, fun index hmem => ?_,
    fun item place hplace => ?_, ⟨hordered.count, hordered.small, fun item index pool' hnew hput => ?_⟩,
    fun bytes hbytes => Table.reads_read hordered.count hordered.small hbytes, fun hreadable => ?_⟩
  · constructor
    · intro hsame
      exact distinct hordered (hhas ha) (hsame ▸ hhas hb)
    · intro hsame
      cases (hhas ha).symm.trans (hsame ▸ hhas hb)
      rfl
  · obtain ⟨call, -, hcall⟩ := exists_left_of_forall₂ hsettled hmem
    rw [call.put_eq] at hcall
    have hplace := ((extends_content call.content).run hcall hordered).2
    obtain ⟨item, hitem⟩ := id hplace
    exact ⟨hordered.ne_zero hplace, item, (hordered.index item index).mp hitem⟩
  · refine (hordered.refers item place ((hordered.index item place).mpr hplace)).mono
      (fun _ _ hplaced => hplaced) fun other hother => ⟨hother.1, ?_⟩
    obtain ⟨below, hbelow⟩ := hother.2
    exact ⟨below, (hordered.index below other).mp hbelow⟩
  · exact hordered.index_new hnew hput
  · have hputs := puts_mapM (Q := fun call constants index =>
      call.Readable Table.nestingLimit → call.FoundAt constants index)
      fun call hmem => puts_call (hreadable call hmem).choose_spec
    obtain ⟨hsound, hcovers⟩ := hputs _ _ _ h sound_empty
    obtain ⟨bootstraps, hreaches, hall⟩ := hsound.exists_covers hsound.covers
    exact ⟨bootstraps, hreaches, (hcovers _ hall).2⟩

section Example

/-- A long, a dynamic constant with it as argument, the long as the initial value of a field, and the
class of the bootstrap method. -/
def exampleCalls : List Call :=
  [.long 7, .loadable (.dynamic "c" "I" (.method (.static false) ⟨"a/A", "b", "()I"⟩) [.long 7]),
    .constantValue (.long 7), .cls "a/A"]

/-- The long is put once, and so is the class. -/
theorem put_exampleCalls : ∃ pool, exampleCalls.mapM Call.put {} = .ok ([1, 13, 1, 7], pool) := by
  have houtcome : (exampleCalls.mapM Call.put {}).map Prod.fst = .ok [1, 13, 1, 7] := by
    cbv
  cases hrun : exampleCalls.mapM Call.put {} with
  | error error =>
      rw [hrun] at houtcome
      cases houtcome
  | ok result =>
      obtain ⟨indices, pool⟩ := result
      rw [hrun] at houtcome
      cases houtcome
      exact ⟨pool, rfl⟩

/-- The dynamic constant and the class are found where they were put. -/
theorem calls_spec_dynamic : ∃ pool, exampleCalls.mapM Call.put {} = .ok ([1, 13, 1, 7], pool) ∧
    ∃ bootstraps : List Bootstrap,
      Table.loadable ⟨pool.slots.toArray⟩ bootstraps.toArray 13 =
        .ok (.dynamic "c" "I" (.method (.static false) ⟨"a/A", "b", "()I"⟩) [.long 7]) ∧
      Table.cls ⟨pool.slots.toArray⟩ 7 = .ok "a/A" := by
  obtain ⟨pool, hput⟩ := put_exampleCalls
  have hmethod : (⟨"a/A", "b", "()I"⟩ : MethodRef).Valid := ⟨by decide, by decide, by cbv⟩
  have hreadable : ∀ call ∈ exampleCalls, call.Readable Table.nestingLimit := by
    have hdynamic : Loadable.Readable Table.nestingLimit
        (.dynamic "c" "I" (.method (.static false) ⟨"a/A", "b", "()I"⟩) [.long 7]) :=
      ⟨by decide, by decide, hmethod, by simp [Loadable.Readable]⟩
    simpa [exampleCalls, Call.Readable, hdynamic] using hmethod.owner
  obtain ⟨-, -, -, -, -, -, hread⟩ := calls_spec hput
  obtain ⟨bootstraps, -, hfound⟩ := hread fun call hmem => ⟨_, hreadable call hmem⟩
  simp only [exampleCalls, List.forall₂_cons] at hfound
  obtain ⟨-, hdynamic, -, hclass, -⟩ := hfound
  exact ⟨pool, hput, bootstraps, hdynamic (hreadable _ (by simp [exampleCalls])),
    hclass (hreadable _ (by simp [exampleCalls]))⟩

end Example

end PoolM

end Downlevel
