import Downlevel.Lower.Lowered

/-!
# Dropping what older releases do not know

Older releases have no modules, no sealed classes and no nests, and may stumble over attributes that
nobody here understands.  What describes them is dropped.  Members that were private to a nest
become visible to the package, in which the whole nest lies.  And since the newest releases compute
all floating-point numbers strictly, methods that move to an older release are marked to do the
same.
-/

namespace Downlevel

namespace Lower

/-- Drops what a class says about modules. -/
def removeModule (cls : ClassFile) : Lowered :=
  ⟨{ cls with moduleInfo := none, modulePackages := none, moduleMainClass := none },
    cls.moduleInfo.isSome || cls.modulePackages.isSome || cls.moduleMainClass.isSome⟩

/-- Drops the list of permitted subclasses. -/
def unsealClass (cls : ClassFile) : Lowered :=
  ⟨{ cls with permittedSubclasses := none }, cls.permittedSubclasses.isSome⟩

/-- Opens private members to the package and drops what a class says about its nest. -/
def openNest (cls : ClassFile) : Lowered :=
  if cls.nestHost.isNone && cls.nestMembers.isNone then Lowered.unchanged cls
  else
    ⟨{ cls with
        nestHost := none
        nestMembers := none
        fields := cls.fields.map fun field =>
          { field with access := { field.access with isPrivate := false } }
        methods := cls.methods.map fun method =>
          { method with access := { method.access with isPrivate := false } } },
      true⟩

/-- Whether a method is still to be marked as strict. -/
def needsStrict (method : Method) : Bool :=
  !method.access.isAbstract && !method.access.isStrict

/-- Marks all methods but the abstract ones as strict. -/
def markStrict (cls : ClassFile) : Lowered :=
  ⟨{ cls with
      methods := cls.methods.map fun method =>
        if needsStrict method then { method with access := { method.access with isStrict := true } }
        else method },
    cls.methods.any needsStrict⟩

/-- Whether a method or its code has attributes that nobody understands. -/
def hasRawAttributes (method : Method) : Bool :=
  !method.attributes.isEmpty ||
    match method.code with
    | some code => !code.attributes.isEmpty
    | none => false

/-- Drops all attributes that nobody understands. -/
def dropRawAttributes (cls : ClassFile) : Lowered :=
  ⟨{ cls with
      attributes := []
      fields := cls.fields.map fun field => { field with attributes := [] }
      methods := cls.methods.map fun method =>
        { method with
          attributes := []
          code := method.code.map fun code => { code with attributes := [] } }
      recordComponents := cls.recordComponents.map fun components =>
        components.map fun component => { component with attributes := [] } },
    !cls.attributes.isEmpty || cls.fields.any (fun field => !field.attributes.isEmpty) ||
      cls.methods.any hasRawAttributes ||
      (cls.recordComponents.getD []).any fun component => !component.attributes.isEmpty⟩

end Lower

end Downlevel
