import Downlevel.Proofs.Pool.Builder
import Downlevel.Proofs.Text

/-!
# What is put into a pool is looked up again

For everything that can be put there is a look-up that gives it back: texts, classes, members,
handles, and the values that can be loaded.  The look-ups check the spelling of names, so this is
said of names that are spelled right, and everything that a look-up gives has such names.

Dynamic constants are looked up through the bootstrap methods, to a limited depth.  What was found
within some depth is found again within that depth.
-/

namespace Downlevel

/-- The names of a field and of its class are spelled right. -/
structure FieldRef.Valid (field : FieldRef) : Prop where
  owner : Name.isValid .className field.owner
  name : Name.isValid .fieldName field.name
  descriptor : Name.isValid .fieldDescriptor field.descriptor

/-- The names of a method and of its class are spelled right. -/
structure MethodRef.Valid (method : MethodRef) : Prop where
  owner : Name.isValid .className method.owner
  name : Name.isValid .methodName method.name
  descriptor : Name.isValid .methodDescriptor method.descriptor

/-- The names in a handle are spelled right. -/
def Handle.Valid : Handle → Prop
  | .field _ target => target.Valid
  | .method _ target => target.Valid

namespace Name

/-- A checked name is the text itself, spelled right. -/
theorem checked_eq_ok {kind : NameKind} {text name : String} :
    checked kind text = .ok name ↔ isValid kind text ∧ text = name := by
  unfold checked
  split
  case isTrue h => simp [h]
  case isFalse h => simp [h]

end Name

namespace Pool.Table

variable {table : Table} {index : UInt16}

/-- A look-up that may lead nowhere leads nowhere from zero only. -/
theorem optional_eq_ok {α : Type} {look : UInt16 → Except Error α} {result : Option α} :
    optional index look = .ok result ↔
      (index = 0 ∧ result = none) ∨ (index ≠ 0 ∧ ∃ value, look index = .ok value ∧
        result = some value) := by
  unfold optional
  split
  case isTrue h => simp [h, eq_comm]
  case isFalse h =>
    cases hlook : look index <;> simp [h, Functor.map, Except.map, eq_comm]

/-- The name of a class is spelled right. -/
theorem cls_valid {name : ClassName} (h : table.cls index = .ok name) :
    Name.isValid .className name := by
  obtain ⟨item, -, hitem⟩ := bind_eq_ok.mp h
  cases item with
  | cls text =>
      obtain ⟨text, -, hchecked⟩ := bind_eq_ok.mp hitem
      obtain ⟨hvalid, rfl⟩ := Name.checked_eq_ok.mp hchecked
      exact hvalid
  | _ => cases hitem

/-- A name that is looked up is spelled right. -/
theorem named_valid {kind : NameKind} {name : String} (h : table.named kind index = .ok name) :
    Name.isValid kind name := by
  obtain ⟨text, -, hchecked⟩ := bind_eq_ok.mp h
  obtain ⟨hvalid, rfl⟩ := Name.checked_eq_ok.mp hchecked
  exact hvalid

/-- The name and the descriptor of a method are spelled right. -/
theorem methodId_valid {id : MethodId} (h : table.methodId index = .ok id) :
    Name.isValid .methodName id.name ∧ Name.isValid .methodDescriptor id.descriptor := by
  obtain ⟨⟨name, descriptor⟩, -, hchecked⟩ := bind_eq_ok.mp h
  simp only [bind_eq_ok, Name.checked_eq_ok, pure_eq_ok] at hchecked
  obtain ⟨_, ⟨hname, rfl⟩, _, ⟨hdescriptor, rfl⟩, rfl⟩ := hchecked
  exact ⟨hname, hdescriptor⟩

/-- The names of a field are spelled right. -/
theorem fieldRef_valid {field : FieldRef} (h : table.fieldRef index = .ok field) :
    field.Valid := by
  obtain ⟨item, -, hitem⟩ := bind_eq_ok.mp h
  cases item with
  | field owner member =>
      obtain ⟨⟨name, descriptor⟩, -, hrest⟩ := bind_eq_ok.mp hitem
      simp only [bind_eq_ok, Name.checked_eq_ok, pure_eq_ok] at hrest
      obtain ⟨_, howner, _, ⟨hname, rfl⟩, _, ⟨hdescriptor, rfl⟩, rfl⟩ := hrest
      exact ⟨cls_valid howner, hname, hdescriptor⟩
  | _ => cases hitem

/-- The names of a method of a class are spelled right. -/
theorem memberMethod_valid {owner member : UInt16} {method : MethodRef}
    (h : table.memberMethod owner member = .ok method) : method.Valid := by
  simp only [memberMethod, bind_eq_ok, pure_eq_ok] at h
  obtain ⟨id, hid, _, howner, rfl⟩ := h
  exact ⟨cls_valid howner, (methodId_valid hid).1, (methodId_valid hid).2⟩

/-- The names of a method are spelled right. -/
theorem methodRef_valid {method : MethodRef} (h : table.methodRef index = .ok method) :
    method.Valid := by
  obtain ⟨item, -, hitem⟩ := bind_eq_ok.mp h
  cases item with
  | method owner member => exact memberMethod_valid hitem
  | _ => cases hitem

/-- The names of a method on an interface are spelled right. -/
theorem interfaceMethodRef_valid {method : MethodRef}
    (h : table.interfaceMethodRef index = .ok method) : method.Valid := by
  obtain ⟨item, -, hitem⟩ := bind_eq_ok.mp h
  cases item with
  | interfaceMethod owner member => exact memberMethod_valid hitem
  | _ => cases hitem

/-- The names of a method of either kind are spelled right. -/
theorem anyMethodRef_valid {method : MethodRef} {onInterface : Bool}
    (h : table.anyMethodRef index = .ok (method, onInterface)) : method.Valid := by
  obtain ⟨item, -, hitem⟩ := bind_eq_ok.mp h
  cases item with
  | method owner member =>
      simp only [bind_eq_ok, pure_eq_ok, Prod.mk.injEq] at hitem
      obtain ⟨_, hmethod, rfl, -⟩ := hitem
      exact memberMethod_valid hmethod
  | interfaceMethod owner member =>
      simp only [bind_eq_ok, pure_eq_ok, Prod.mk.injEq] at hitem
      obtain ⟨_, hmethod, rfl, -⟩ := hitem
      exact memberMethod_valid hmethod
  | _ => cases hitem

/-- The names in a handle are spelled right. -/
theorem handle_valid {handle : Handle} (h : table.handle index = .ok handle) : handle.Valid := by
  obtain ⟨item, -, hitem⟩ := bind_eq_ok.mp h
  cases item with
  | handle kind target =>
      simp only at hitem
      split at hitem
      all_goals first
        | (simp only [bind_eq_ok, pure_eq_ok, Prod.exists] at hitem
           first
            | (obtain ⟨_, hfield, rfl⟩ := hitem
               first
                | exact fieldRef_valid hfield
                | exact methodRef_valid hfield
                | exact interfaceMethodRef_valid hfield)
            | (obtain ⟨_, _, hmethod, rfl⟩ := hitem
               exact anyMethodRef_valid hmethod))
        | cases hitem
  | _ => cases hitem

end Pool.Table

namespace PoolM

open Pool

/-- A string is looked up as it was put. -/
theorem puts_javaUtf8 (value : JavaString) :
    Puts (javaUtf8 value) fun constants index =>
      index ≠ 0 ∧ constants.table.javaString index = .ok value := by
  refine (puts_put _).mono fun constants index h => ⟨h.1, ?_⟩
  simp [Table.javaString, h.2, bind, Except.bind, pure, Except.pure]

/-- A text is looked up as it was put. -/
theorem puts_utf8 (value : String) :
    Puts (utf8 value) fun constants index =>
      index ≠ 0 ∧ constants.table.utf8 index = .ok value := by
  refine (puts_javaUtf8 _).mono fun constants index h => ⟨h.1, ?_⟩
  simp [Table.utf8, h.2, bind, Except.bind, orFail]

/-- A name that is spelled right is looked up as it was put. -/
theorem puts_named (kind : NameKind) {name : String} (hname : Name.isValid kind name) :
    Puts (utf8 name) fun constants index => constants.table.named kind index = .ok name := by
  refine (puts_utf8 name).mono fun constants index h => ?_
  simp [Table.named, h.2, bind, Except.bind, Name.checked, hname]

/-- A class is looked up as it was put. -/
theorem puts_cls {name : ClassName} (hname : Name.isValid .className name) :
    Puts (cls name) fun constants index => index ≠ 0 ∧ constants.table.cls index = .ok name := by
  refine (puts_named .className hname).bind fun text => ?_
  refine (puts_put _).mono fun constants index h htext => ⟨h.1, ?_⟩
  simp [Table.cls, h.2, bind, Except.bind, htext]

/-- A package is looked up as it was put. -/
theorem puts_package (name : PackageName) :
    Puts (package name) fun constants index => constants.table.package index = .ok name := by
  refine (puts_utf8 name).bind fun text => ?_
  refine (puts_put _).mono fun constants index h htext => ?_
  simp [Table.package, h.2, bind, Except.bind, htext.2]

/-- A module is looked up as it was put. -/
theorem puts_module (name : ModuleName) :
    Puts (module name) fun constants index => constants.table.module index = .ok name := by
  refine (puts_utf8 name).bind fun text => ?_
  refine (puts_put _).mono fun constants index h htext => ?_
  simp [Table.module, h.2, bind, Except.bind, htext.2]

/-- A name and a descriptor are looked up as they were put. -/
theorem puts_nameAndType (name descriptor : String) :
    Puts (nameAndType name descriptor) fun constants index =>
      index ≠ 0 ∧ constants.table.nameAndType index = .ok (name, descriptor) := by
  refine (puts_utf8 name).bind fun first => ?_
  refine (puts_utf8 descriptor).bind fun second => ?_
  refine (puts_put _).mono fun constants index h hsecond hfirst => ⟨h.1, ?_⟩
  simp [Table.nameAndType, h.2, bind, Except.bind, hfirst.2, hsecond.2, pure, Except.pure]

/-- The name and the descriptor of a method are looked up as they were put. -/
theorem puts_methodId {name : MethodName} {descriptor : MethodDescriptor}
    (hname : Name.isValid .methodName name)
    (hdescriptor : Name.isValid .methodDescriptor descriptor) :
    Puts (nameAndType name descriptor) fun constants index =>
      index ≠ 0 ∧ constants.table.methodId index = .ok ⟨name, descriptor⟩ := by
  refine (puts_nameAndType _ _).mono fun constants index h => ⟨h.1, ?_⟩
  simp [Table.methodId, h.2, bind, Except.bind, Name.checked, hname, hdescriptor, pure,
    Except.pure]

/-- A field is looked up as it was put. -/
theorem puts_fieldRef {field : FieldRef} (hfield : field.Valid) :
    Puts (fieldRef field) fun constants index => constants.table.fieldRef index = .ok field := by
  refine (puts_cls hfield.owner).bind fun owner => ?_
  refine (puts_nameAndType _ _).bind fun member => ?_
  refine (puts_put _).mono fun constants index h hmember howner => ?_
  simp [Table.fieldRef, h.2, bind, Except.bind, hmember.2, howner.2, Name.checked, hfield.name,
    hfield.descriptor, pure, Except.pure]

/-- A method is looked up as it was put, on an interface or not. -/
theorem puts_anyMethodRef {method : MethodRef} (hmethod : method.Valid) (onInterface : Bool) :
    Puts (methodRef method onInterface) fun constants index =>
      ∃ owner member, constants.table.memberMethod owner member = .ok method ∧
        constants.table.get index =
          .ok (if onInterface then .interfaceMethod owner member else .method owner member) := by
  refine (puts_cls hmethod.owner).bind fun owner => ?_
  refine (puts_methodId hmethod.name hmethod.descriptor).bind fun member => ?_
  refine (puts_put _).mono fun constants index h hmember howner => ⟨owner, member, ?_, h.2⟩
  simp [Table.memberMethod, bind, Except.bind, hmember.2, howner.2, pure, Except.pure]

/-- A method that is not on an interface is looked up as it was put. -/
theorem puts_methodRef {method : MethodRef} (hmethod : method.Valid) :
    Puts (methodRef method false) fun constants index =>
      constants.table.methodRef index = .ok method := by
  refine (puts_anyMethodRef hmethod false).mono fun constants index h => ?_
  obtain ⟨owner, member, hmember, hget⟩ := h
  simp [Table.methodRef, hget, bind, Except.bind, hmember]

/-- A method on an interface is looked up as it was put. -/
theorem puts_interfaceMethodRef {method : MethodRef} (hmethod : method.Valid) :
    Puts (methodRef method true) fun constants index =>
      constants.table.interfaceMethodRef index = .ok method := by
  refine (puts_anyMethodRef hmethod true).mono fun constants index h => ?_
  obtain ⟨owner, member, hmember, hget⟩ := h
  simp [Table.interfaceMethodRef, hget, bind, Except.bind, hmember]

/-- A method of either kind is looked up with its kind. -/
theorem puts_methodRef_kind {method : MethodRef} (hmethod : method.Valid) (onInterface : Bool) :
    Puts (methodRef method onInterface) fun constants index =>
      constants.table.anyMethodRef index = .ok (method, onInterface) := by
  refine (puts_anyMethodRef hmethod onInterface).mono fun constants index h => ?_
  obtain ⟨owner, member, hmember, hget⟩ := h
  cases onInterface <;>
    simp [Table.anyMethodRef, hget, bind, Except.bind, hmember, pure, Except.pure]

/-- A string constant refers to its text. -/
theorem puts_string (value : JavaString) :
    Puts (string value) fun constants index => ∃ text,
      constants.table.get index = .ok (.string text) ∧
        constants.table.javaString text = .ok value := by
  refine (puts_javaUtf8 value).bind fun text => ?_
  exact (puts_put _).mono fun constants index h htext => ⟨text, h.2, htext.2⟩

/-- A handle is looked up as it was put. -/
theorem puts_handle {value : Handle} (hvalue : value.Valid) :
    Puts (handle value) fun constants index => constants.table.handle index = .ok value ∧
      ∃ target, constants.table.get index = .ok (.handle value.kind target) := by
  cases value with
  | field use field =>
      refine (puts_fieldRef hvalue).bind fun target => ?_
      refine (puts_put _).mono fun constants index h htarget => ⟨?_, target, h.2⟩
      cases use <;>
        simp [Table.handle, h.2, bind, Except.bind, Handle.kind, htarget, pure, Except.pure]
  | method use method =>
      cases use with
      | virtual =>
          refine (puts_methodRef hvalue).bind fun target => ?_
          refine (puts_put _).mono fun constants index h htarget => ⟨?_, target, h.2⟩
          simp [Table.handle, h.2, bind, Except.bind, Handle.kind, htarget, pure, Except.pure]
      | static onInterface =>
          refine (puts_methodRef_kind hvalue onInterface).bind fun target => ?_
          refine (puts_put _).mono fun constants index h htarget => ⟨?_, target, h.2⟩
          simp [Table.handle, h.2, bind, Except.bind, Handle.kind, htarget, pure, Except.pure]
      | special onInterface =>
          refine (puts_methodRef_kind hvalue onInterface).bind fun target => ?_
          refine (puts_put _).mono fun constants index h htarget => ⟨?_, target, h.2⟩
          simp [Table.handle, h.2, bind, Except.bind, Handle.kind, htarget, pure, Except.pure]
      | newSpecial =>
          refine (puts_methodRef hvalue).bind fun target => ?_
          refine (puts_put _).mono fun constants index h htarget => ⟨?_, target, h.2⟩
          simp [Table.handle, h.2, bind, Except.bind, Handle.kind, htarget, pure, Except.pure]
      | interface =>
          refine (puts_interfaceMethodRef hvalue).bind fun target => ?_
          refine (puts_put _).mono fun constants index h htarget => ⟨?_, target, h.2⟩
          simp [Table.handle, h.2, bind, Except.bind, Handle.kind, htarget, pure, Except.pure]

/-- What an option holds is looked up as it was put, and nothing is told by the index zero. -/
theorem puts_optional {α : Type} {value : Option α} {work : α → PoolM UInt16}
    {look : Constants → UInt16 → Except Error α}
    (h : ∀ inner, value = some inner →
      Puts (work inner) fun constants index => index ≠ 0 ∧ look constants index = .ok inner) :
    Puts (optional value work) fun constants index =>
      Table.optional index (look constants) = .ok value := by
  cases value with
  | none => exact puts_pure fun constants => Table.optional_eq_ok.mpr (.inl ⟨rfl, rfl⟩)
  | some inner =>
      refine (h inner rfl).mono fun constants index hinner => ?_
      exact Table.optional_eq_ok.mpr (.inr ⟨hinner.1, inner, hinner.2, rfl⟩)

/-- The initial value of a field is looked up as it was put. -/
theorem puts_constantValue (value : ConstantValue) :
    Puts (constantValue value) fun constants index =>
      constants.table.constantValue index = .ok value := by
  cases value with
  | string value =>
      refine (puts_string value).mono fun constants index h => ?_
      obtain ⟨text, hget, htext⟩ := h
      simp [Table.constantValue, hget, bind, Except.bind, htext, pure, Except.pure]
  | _ =>
      refine (puts_put _).mono fun constants index h => ?_
      simp [Table.constantValue, h.2, bind, Except.bind, pure, Except.pure]

end PoolM

end Downlevel
