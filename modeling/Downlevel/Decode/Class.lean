import Downlevel.Decode.Attribute
import Downlevel.Decode.Code

/-!
# Reading classes

The bytes of a class hold, in this order: a magic number and the version, the constant pool, the
names of the class and its super types, the fields, the methods, and the attributes of the class.
One of those attributes lists the bootstrap methods, which the code of the methods refers to, so the
attributes of the class are read first: fields and methods are passed over by the lengths of their
attributes, and read afterwards.
-/

namespace Downlevel

namespace Decode

open Parse

/-- The number that every class file starts with. -/
def magic : UInt32 := 0xcafebabe

/-- Reads the magic number and the version. -/
def version : Parse Version := do
  let found ← u32
  if found = magic then
    let minor ← u16
    let major ← u16
    return ⟨major, minor⟩
  else refuse (.wrongMagic found)

/-- Reads the version, which must be known, and the pool. -/
def header : Parse (Version × Pool.Table) := do
  let found ← version
  if Version.newestMajor < found.major then
    refuse (.unsupportedVersion found.major found.minor)
  else return (found, ← Pool.Table.read)

variable (pool : Pool.Table)

/-- Reads a list of classes. -/
def classes : Parse (List ClassName) :=
  listOf do pool.cls (← u16)

/-- Reads an inner class. -/
def innerClass : Parse InnerClass := do
  let inner ← pool.cls (← u16)
  let outer ← Pool.Table.optional (← u16) pool.cls
  let name ← Pool.Table.optional (← u16) pool.utf8
  return ⟨inner, outer, name, InnerClassFlags.ofBits (← u16)⟩

/-- Reads the description of a module. -/
def moduleInfo : Parse ModuleInfo := do
  let name ← pool.module (← u16)
  let flags := ModuleFlags.ofBits (← u16)
  let version ← Pool.Table.optional (← u16) pool.utf8
  let requirements ← listOf do
    let name ← pool.module (← u16)
    let flags := ModuleRequiresFlags.ofBits (← u16)
    return ⟨name, flags, ← Pool.Table.optional (← u16) pool.utf8⟩
  let exported ← listOf do
    let name ← pool.package (← u16)
    let flags := ModuleExportsFlags.ofBits (← u16)
    return ⟨name, flags, ← listOf do pool.module (← u16)⟩
  let opened ← listOf do
    let name ← pool.package (← u16)
    let flags := ModuleOpensFlags.ofBits (← u16)
    return ⟨name, flags, ← listOf do pool.module (← u16)⟩
  let used ← classes pool
  let provided ← listOf do
    let service ← pool.cls (← u16)
    return ⟨service, ← classes pool⟩
  return ⟨name, flags, version, requirements, exported, opened, used, provided⟩

/-- Reads an attribute of a record component. -/
def componentAttribute (name : String) (size : Nat) (component : RecordComponent) :
    Parse RecordComponent := do
  match annotAttribute? pool name component.annots with
  | some read => return { component with annots := ← read }
  | none =>
  match name with
  | "Signature" =>
      let signature ← pool.utf8 (← u16)
      return { component with signature := ← once name component.signature signature }
  | _ =>
      let other ← raw name size
      return { component with attributes := component.attributes ++ [other] }

/-- Reads a record component. -/
def recordComponent : Parse RecordComponent := do
  let name ← pool.named .fieldName (← u16)
  let descriptor ← pool.named .fieldDescriptor (← u16)
  attributes pool (componentAttribute pool) { name, descriptor }

/-- Reads an attribute of a field. -/
def fieldAttribute (name : String) (size : Nat) (field : Field) : Parse Field := do
  match annotAttribute? pool name field.annots with
  | some read => return { field with annots := ← read }
  | none =>
  match name with
  | "Deprecated" => return { field with isDeprecated := true }
  | "Synthetic" => return { field with isSynthetic := true }
  | "ConstantValue" =>
      let value ← pool.constantValue (← u16)
      return { field with constantValue := ← once name field.constantValue value }
  | "Signature" =>
      let signature ← pool.utf8 (← u16)
      return { field with signature := ← once name field.signature signature }
  | _ =>
      let other ← raw name size
      return { field with attributes := field.attributes ++ [other] }

/-- Reads a field. -/
def field : Parse Field := do
  let access := FieldAccess.ofBits (← u16)
  let name ← pool.named .fieldName (← u16)
  let descriptor ← pool.named .fieldDescriptor (← u16)
  attributes pool (fieldAttribute pool) { access, name, descriptor }

/-- Reads a parameter of a method. -/
def parameter : Parse Parameter := do
  let name ← Pool.Table.optional (← u16) pool.utf8
  return ⟨name, ParameterFlags.ofBits (← u16)⟩

/-- Reads an attribute of a method. -/
def methodAttribute (bootstraps : Array Pool.Bootstrap) (name : String) (size : Nat)
    (method : Method) : Parse Method := do
  match annotAttribute? pool name method.annots with
  | some read => return { method with annots := ← read }
  | none =>
  match name with
  | "Deprecated" => return { method with isDeprecated := true }
  | "Synthetic" => return { method with isSynthetic := true }
  | "Code" =>
      let body ← (code pool bootstraps).within (.codeOfMethod method.name method.descriptor)
      return { method with code := ← once name method.code body }
  | "Exceptions" =>
      let exceptions ← classes pool
      return { method with exceptions := ← once name method.exceptions exceptions }
  | "Signature" =>
      let signature ← pool.utf8 (← u16)
      return { method with signature := ← once name method.signature signature }
  | "RuntimeVisibleParameterAnnotations" =>
      let found ← parameterAnnots pool
      return { method with
        visibleParameterAnnots := ← once name method.visibleParameterAnnots found }
  | "RuntimeInvisibleParameterAnnotations" =>
      let found ← parameterAnnots pool
      return { method with
        invisibleParameterAnnots := ← once name method.invisibleParameterAnnots found }
  | "AnnotationDefault" =>
      let value ← elementValue pool
      return { method with defaultValue := ← once name method.defaultValue value }
  | "MethodParameters" =>
      let parameters ← shortListOf (parameter pool)
      return { method with parameters := ← once name method.parameters parameters }
  | _ =>
      let other ← raw name size
      return { method with attributes := method.attributes ++ [other] }

/-- Reads a method. -/
def method (bootstraps : Array Pool.Bootstrap) : Parse Method := do
  let access := MethodAccess.ofBits (← u16)
  let name ← pool.named .methodName (← u16)
  let descriptor ← pool.named .methodDescriptor (← u16)
  attributes pool (methodAttribute pool bootstraps) { access, name, descriptor }

/-- Reads a bootstrap method. -/
def bootstrap : Parse Pool.Bootstrap := do
  let handle ← pool.handle (← u16)
  return ⟨handle, ← listOf u16⟩

/-- Reads an attribute of a class that belongs to the class itself.  The bootstrap methods are
collected beside it. -/
def classAttribute (name : String) (size : Nat)
    (state : ClassFile × Option (List Pool.Bootstrap)) :
    Parse (ClassFile × Option (List Pool.Bootstrap)) := do
  let (cls, bootstraps) := state
  match annotAttribute? pool name cls.annots with
  | some read => return ({ cls with annots := ← read }, bootstraps)
  | none =>
  match name with
  | "Deprecated" => return ({ cls with isDeprecated := true }, bootstraps)
  | "Synthetic" => return ({ cls with isSynthetic := true }, bootstraps)
  | "InnerClasses" =>
      let found ← listOf (innerClass pool)
      return ({ cls with innerClasses := ← once name cls.innerClasses found }, bootstraps)
  | "EnclosingMethod" =>
      let owner ← pool.cls (← u16)
      let method ← Pool.Table.optional (← u16) pool.methodId
      return ({ cls with enclosing := ← once name cls.enclosing ⟨owner, method⟩ }, bootstraps)
  | "Signature" =>
      let found ← pool.utf8 (← u16)
      return ({ cls with signature := ← once name cls.signature found }, bootstraps)
  | "SourceFile" =>
      let found ← pool.utf8 (← u16)
      return ({ cls with sourceFile := ← once name cls.sourceFile found }, bootstraps)
  | "SourceDebugExtension" =>
      let found ← take size
      return ({ cls with sourceDebugExtension := ← once name cls.sourceDebugExtension found },
        bootstraps)
  | "Module" =>
      let found ← moduleInfo pool
      return ({ cls with moduleInfo := ← once name cls.moduleInfo found }, bootstraps)
  | "ModulePackages" =>
      let found ← listOf do pool.package (← u16)
      return ({ cls with modulePackages := ← once name cls.modulePackages found }, bootstraps)
  | "ModuleMainClass" =>
      let found ← pool.cls (← u16)
      return ({ cls with moduleMainClass := ← once name cls.moduleMainClass found }, bootstraps)
  | "NestHost" =>
      let found ← pool.cls (← u16)
      return ({ cls with nestHost := ← once name cls.nestHost found }, bootstraps)
  | "NestMembers" =>
      let found ← classes pool
      return ({ cls with nestMembers := ← once name cls.nestMembers found }, bootstraps)
  | "PermittedSubclasses" =>
      let found ← classes pool
      return ({ cls with permittedSubclasses := ← once name cls.permittedSubclasses found },
        bootstraps)
  | "Record" =>
      let found ← listOf (recordComponent pool)
      return ({ cls with recordComponents := ← once name cls.recordComponents found }, bootstraps)
  | "BootstrapMethods" =>
      let found ← listOf (bootstrap pool)
      return (cls, ← once name bootstraps found)
  | _ =>
      let other ← raw name size
      return ({ cls with attributes := cls.attributes ++ [other] }, bootstraps)

/-- Passes over the fields, or over the methods. -/
def skipMembers : Parse Unit := do
  let count ← u16
  iterate
    (fun _ => do
      skip 6
      skipAttributes)
    count.toNat ()

/-- Reads a class. -/
def cls : Parse ClassFile := do
  let (version, pool) ← header
  let access := ClassAccess.ofBits (← u16)
  let name ← pool.cls (← u16)
  let superClass ← Pool.Table.optional (← u16) pool.cls
  let interfaces ← classes pool
  let members ← get
  skipMembers
  skipMembers
  let (cls, bootstraps) ←
    (attributes pool (classAttribute pool)
      (({ version, access, name, superClass, interfaces } : ClassFile), none)).within
      (.attributesOfClass name)
  let bootstraps := (bootstraps.getD []).toArray
  set members
  let fields ← listOf ((field pool).within (.fieldOfClass name))
  let methods ← listOf ((method pool bootstraps).within (.methodOfClass name))
  return { cls with fields, methods }

end Decode

namespace ClassFile

/-- The class that bytes describe. -/
def ofBytes (bytes : Bytes) : Except Error ClassFile :=
  (Decode.cls (Cursor.start bytes)).map Prod.fst

end ClassFile

namespace Version

/-- The version of the class file that bytes start like.  Nothing behind it is looked at, and any
version is taken. -/
def ofBytes (bytes : Bytes) : Except Error Version :=
  (Decode.version (Cursor.start bytes)).map Prod.fst

end Version

end Downlevel
