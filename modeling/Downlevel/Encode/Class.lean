import Downlevel.Encode.Attribute
import Downlevel.Encode.Code

/-!
# Writing classes

Everything behind the pool is written first, as that fills the pool; the bootstrap methods come last
of all attributes, since only then all of them are known.  In the class file the pool stands in
front.
-/

namespace Downlevel

namespace Pool

namespace Entry

/-- The bytes of an entry. -/
def write (item : Entry) : Except Error Bytes :=
  match item with
  | utf8 text => do
      let bytes := text.encode
      let length ← Encode.count16 .lengthOfString bytes.length
      return item.tag :: length ++ bytes
  | int value => .ok (item.tag :: Bytes.ofI32 value)
  | float bits => .ok (item.tag :: Bytes.ofU32 bits)
  | long value => .ok (item.tag :: Bytes.ofI64 value)
  | double bits => .ok (item.tag :: Bytes.ofU64 bits)
  | cls name => .ok (item.tag :: Bytes.ofU16 name)
  | string text => .ok (item.tag :: Bytes.ofU16 text)
  | field owner member => .ok (item.tag :: Bytes.ofU16 owner ++ Bytes.ofU16 member)
  | method owner member => .ok (item.tag :: Bytes.ofU16 owner ++ Bytes.ofU16 member)
  | interfaceMethod owner member => .ok (item.tag :: Bytes.ofU16 owner ++ Bytes.ofU16 member)
  | nameAndType name descriptor => .ok (item.tag :: Bytes.ofU16 name ++ Bytes.ofU16 descriptor)
  | handle kind target => .ok (item.tag :: kind :: Bytes.ofU16 target)
  | methodType descriptor => .ok (item.tag :: Bytes.ofU16 descriptor)
  | dynamic bootstrap member => .ok (item.tag :: Bytes.ofU16 bootstrap ++ Bytes.ofU16 member)
  | invokeDynamic bootstrap member => .ok (item.tag :: Bytes.ofU16 bootstrap ++ Bytes.ofU16 member)
  | module name => .ok (item.tag :: Bytes.ofU16 name)
  | package name => .ok (item.tag :: Bytes.ofU16 name)

end Entry

namespace Builder

/-- The bytes of a pool. -/
def write (pool : Builder) : Except Error Bytes := do
  let entries ← pool.entries.toList.mapM Entry.write
  return Bytes.ofU16 pool.count.toUInt16 ++ entries.flatten

end Builder

end Pool

namespace Encode

/-- The attributes that mark a declaration as deprecated or as not from the source. -/
def markers (isDeprecated isSynthetic : Bool) : Attributes :=
  [given isDeprecated (marker "Deprecated"), given isSynthetic (marker "Synthetic")]

/-- The attribute with a generic type. -/
def signature (text : Option Signature) : Option (PoolM Bytes) :=
  text.map fun text => single "Signature" (PoolM.utf8 text)

/-- Writes a field. -/
def field (field : Field) : PoolM Bytes := do
  let name ← indexed (PoolM.utf8 field.name)
  let descriptor ← indexed (PoolM.utf8 field.descriptor)
  let attributes ← present <|
    markers field.isDeprecated field.isSynthetic ++
      [field.constantValue.map fun value => single "ConstantValue" (PoolM.constantValue value),
        signature field.signature] ++
      annotAttributes field.annots ++ field.attributes.map fun kept => some (raw kept)
  return Bytes.ofU16 field.access.toBits ++ name ++ descriptor ++ (← counted "field" attributes)

/-- Writes a record component. -/
def recordComponent (component : RecordComponent) : PoolM Bytes := do
  let name ← indexed (PoolM.utf8 component.name)
  let descriptor ← indexed (PoolM.utf8 component.descriptor)
  let attributes ← present <|
    signature component.signature :: annotAttributes component.annots ++
      component.attributes.map fun kept => some (raw kept)
  return name ++ descriptor ++ (← counted "record component" attributes)

/-- The attributes of a method that stand behind its code. -/
def methodAttributes (method : Method) : Attributes :=
  [method.exceptions.map (classList "Exceptions"), signature method.signature] ++
    annotAttributes method.annots ++
    [method.visibleParameterAnnots.map fun items =>
        sized "RuntimeVisibleParameterAnnotations" (parameterAnnots items),
      method.invisibleParameterAnnots.map fun items =>
        sized "RuntimeInvisibleParameterAnnotations" (parameterAnnots items),
      method.defaultValue.map fun value => sized "AnnotationDefault" (elementValue value),
      method.parameters.map fun parameters => sized "MethodParameters" do
        let count ← count8 (.tooMany "method parameters") parameters.length
        return count ++ (← each parameters fun parameter => do
          let name ← PoolM.optional parameter.name PoolM.utf8
          return Bytes.ofU16 name ++ Bytes.ofU16 parameter.flags.toBits)] ++
    method.attributes.map fun kept => some (raw kept)

/-- Writes the attribute with a method's code, if it has any. -/
def codeAttribute {σ : Type} (supers : SuperClasses σ) (computeFrames : Bool) (cls : ClassName)
    (method : Method) : Emit σ (List Bytes) := do
  match method.code with
  | none => return []
  | some body =>
      let bytes ← (code supers computeFrames cls method body).within .inCode
      return [← (sized "Code" (pure bytes) : PoolM Bytes)]

/-- Writes a method. -/
def method {σ : Type} (supers : SuperClasses σ) (computeFrames : Bool) (cls : ClassName)
    (method : Method) : Emit σ Bytes := do
  let name ← (indexed (PoolM.utf8 method.name) : PoolM Bytes)
  let descriptor ← (indexed (PoolM.utf8 method.descriptor) : PoolM Bytes)
  let first ← (present (markers method.isDeprecated method.isSynthetic) : PoolM (List Bytes))
  let code ← codeAttribute supers computeFrames cls method
  let rest ← (present (methodAttributes method) : PoolM (List Bytes))
  let attributes ← (counted "method" (first ++ code ++ rest) : Except Error Bytes)
  return Bytes.ofU16 method.access.toBits ++ name ++ descriptor ++ attributes

/-- Writes the description of a module. -/
def moduleInfo (info : ModuleInfo) : PoolM Bytes := do
  let name ← indexed (PoolM.module info.name)
  let version ← indexed (PoolM.optional info.version PoolM.utf8)
  let requirements ← listOf "requires" info.requirements fun r => do
    let name ← indexed (PoolM.module r.name)
    let version ← indexed (PoolM.optional r.version PoolM.utf8)
    return name ++ Bytes.ofU16 r.flags.toBits ++ version
  let exported ← listOf "exports" info.exported fun e => do
    let name ← indexed (PoolM.package e.name)
    let receivers ← listOf "modules to export to" e.receivers fun m => indexed (PoolM.module m)
    return name ++ Bytes.ofU16 e.flags.toBits ++ receivers
  let opened ← listOf "opens" info.opened fun e => do
    let name ← indexed (PoolM.package e.name)
    let receivers ← listOf "modules to open to" e.receivers fun m => indexed (PoolM.module m)
    return name ++ Bytes.ofU16 e.flags.toBits ++ receivers
  let used ← listOf "uses" info.used fun c => indexed (PoolM.cls c)
  let provided ← listOf "provides" info.provided fun p => do
    let service ← indexed (PoolM.cls p.service)
    let providers ←
      listOf "implementations provided" p.providers fun c => indexed (PoolM.cls c)
    return service ++ providers
  return name ++ Bytes.ofU16 info.flags.toBits ++ version ++ requirements ++ exported ++ opened ++
    used ++ provided

/-- Writes an inner class. -/
def innerClass (item : InnerClass) : PoolM Bytes := do
  let inner ← indexed (PoolM.cls item.inner)
  let outer ← indexed (PoolM.optional item.outer PoolM.cls)
  let name ← indexed (PoolM.optional item.name PoolM.utf8)
  return inner ++ outer ++ name ++ Bytes.ofU16 item.flags.toBits

/-- The attributes of a class, but for the bootstrap methods. -/
def classAttributes (cls : ClassFile) : Attributes :=
  markers cls.isDeprecated cls.isSynthetic ++
    [cls.innerClasses.map fun items =>
        sized "InnerClasses" (listOf "inner classes" items innerClass),
      cls.enclosing.map fun enclosing => fixed "EnclosingMethod" 4 do
        let owner ← indexed (PoolM.cls enclosing.owner)
        let method ← indexed (PoolM.optional enclosing.method fun id =>
          PoolM.nameAndType id.name id.descriptor)
        return owner ++ method,
      signature cls.signature,
      cls.sourceFile.map fun file => single "SourceFile" (PoolM.utf8 file),
      cls.sourceDebugExtension.map fun bytes =>
        fixed "SourceDebugExtension" bytes.length (pure bytes)] ++
    annotAttributes cls.annots ++
    [cls.moduleInfo.map fun info => sized "Module" (moduleInfo info),
      cls.modulePackages.map fun packages =>
        sized "ModulePackages" (listOf "module packages" packages fun p =>
          indexed (PoolM.package p)),
      cls.moduleMainClass.map fun name => single "ModuleMainClass" (PoolM.cls name),
      cls.nestHost.map fun name => single "NestHost" (PoolM.cls name),
      cls.nestMembers.map (classList "NestMembers"),
      cls.permittedSubclasses.map (classList "PermittedSubclasses"),
      cls.recordComponents.map fun components =>
        sized "Record" (listOf "record components" components fun component =>
          (recordComponent component).within (.inComponent component.name))] ++
    cls.attributes.map fun kept => some (raw kept)

/-- Writes a bootstrap method. -/
def bootstrapMethod (bootstrap : Pool.PlacedBootstrap) : PoolM Bytes := do
  let arguments ← listOf "bootstrap method arguments" bootstrap.arguments fun index =>
    pure (Bytes.ofU16 index)
  return Bytes.ofU16 bootstrap.handle ++ arguments

/-- Writes the attribute with the bootstrap methods that were collected, if there are any. -/
def bootstrapAttribute : PoolM (List Bytes) := do
  let bootstraps := (← get).bootstraps.toList
  if bootstraps.isEmpty then return []
  else return [← sized "BootstrapMethods" (listOf "bootstrap methods" bootstraps bootstrapMethod)]

/-- Writes members with their number in front.  Messages call them `what`. -/
def members {σ α : Type} (cls : ClassName) (what : String) (items : List α)
    (member : α → Emit σ Bytes) : Emit σ Bytes := do
  let count ← (count16 (.countOf what cls) items.length : Except Error Bytes)
  return count ++ (← items.mapM member).flatten

/-- Writes everything behind the pool. -/
def behindPool {σ : Type} (supers : SuperClasses σ) (computeFrames : Bool) (cls : ClassFile) :
    Emit σ Bytes := do
  let name ← (indexed (PoolM.cls cls.name) : PoolM Bytes)
  let superClass ← (indexed (PoolM.optional cls.superClass PoolM.cls) : PoolM Bytes)
  let interfaces ← members cls.name "interfaces" cls.interfaces fun name =>
    (indexed (PoolM.cls name) : PoolM Bytes)
  let fields ← members cls.name "fields" cls.fields fun f =>
    ((field f).within (.inField f.name cls.name) : PoolM Bytes)
  let methods ← members cls.name "methods" cls.methods fun m =>
    (method supers computeFrames cls.name m).within (.inMethod m.name m.descriptor cls.name)
  let attributes ← (present (classAttributes cls) : PoolM (List Bytes))
  let bootstraps ← (bootstrapAttribute : PoolM (List Bytes))
  let attributes ← (counted "class" (attributes ++ bootstraps) : Except Error Bytes)
  return Bytes.ofU16 cls.access.toBits ++ name ++ superClass ++ interfaces ++ fields ++ methods ++
    attributes

end Encode

namespace ClassFile

/-- The class file of a class.  Frames are computed if `computeFrames` says so and the version of
the class has them; `supers` is asked for common super classes then. -/
def toBytes {σ : Type} (supers : SuperClasses σ) (computeFrames : Bool) (cls : ClassFile) :
    Task σ Bytes :=
  Task.within (.write (.inClass cls.name)) do
    let (rest, pool) ←
      Encode.behindPool supers (computeFrames && cls.version.hasFrames) cls {}
    let pool ← pool.write
    return Bytes.ofU32 0xcafebabe ++ Bytes.ofU16 cls.version.minor ++
      Bytes.ofU16 cls.version.major ++ pool ++ rest

end ClassFile

end Downlevel
