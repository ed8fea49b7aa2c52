import Downlevel.Annot
import Downlevel.Code.Basic
import Downlevel.Flags
import Downlevel.Name
import Downlevel.Version

/-!
# Classes

A class with its fields, its methods and everything that its class file says about them.  Nothing in
it refers to the tables of a class file: every name and constant stands where it is used.
-/

namespace Downlevel

/-!
## Descriptions of modules

A module requires other modules, exports and opens packages, and uses and provides services.
-/

/-- A module that another one requires. -/
structure Requirement where
  name : ModuleName
  flags : ModuleRequiresFlags
  version : Option String
  deriving DecidableEq

/-- A package that is exported, to some modules or to all. -/
structure ExportedPackage where
  name : PackageName
  flags : ModuleExportsFlags
  receivers : List ModuleName
  deriving DecidableEq

/-- A package that is opened, to some modules or to all. -/
structure OpenedPackage where
  name : PackageName
  flags : ModuleOpensFlags
  receivers : List ModuleName
  deriving DecidableEq

/-- A service and the classes that provide it. -/
structure ProvidedService where
  service : ClassName
  providers : List ClassName
  deriving DecidableEq

/-- The description of a module. -/
structure ModuleInfo where
  name : ModuleName
  flags : ModuleFlags
  version : Option String
  requirements : List Requirement
  exported : List ExportedPackage
  opened : List OpenedPackage
  used : List ClassName
  provided : List ProvidedService
  deriving DecidableEq

/-! ## Members and classes -/

/-- The initial value of a static field. -/
inductive ConstantValue where
  | int (value : Int32)
  | float (bits : UInt32)
  | long (value : Int64)
  | double (bits : UInt64)
  | string (value : JavaString)
  deriving DecidableEq

/-- A field of a class. -/
structure Field where
  access : FieldAccess
  name : FieldName
  descriptor : FieldDescriptor
  isDeprecated : Bool := false
  isSynthetic : Bool := false
  constantValue : Option ConstantValue := none
  signature : Option Signature := none
  annots : Annots := {}
  attributes : List RawAttribute := []
  deriving DecidableEq

/-- A parameter of a method, which may have a name. -/
structure Parameter where
  name : Option String
  flags : ParameterFlags
  deriving DecidableEq

/-- A method of a class. -/
structure Method where
  access : MethodAccess
  name : MethodName
  descriptor : MethodDescriptor
  isDeprecated : Bool := false
  isSynthetic : Bool := false
  code : Option Code := none
  exceptions : Option (List ClassName) := none
  signature : Option Signature := none
  annots : Annots := {}
  visibleParameterAnnots : Option (List (List Annot)) := none
  invisibleParameterAnnots : Option (List (List Annot)) := none
  /-- The value that an element of an annotation has if none is given. -/
  defaultValue : Option ElementValue := none
  parameters : Option (List Parameter) := none
  attributes : List RawAttribute := []
  deriving DecidableEq

/-- A component of a record. -/
structure RecordComponent where
  name : FieldName
  descriptor : FieldDescriptor
  signature : Option Signature := none
  annots : Annots := {}
  attributes : List RawAttribute := []
  deriving DecidableEq

/-- A class that is a member of another one, or is used by this one. -/
structure InnerClass where
  inner : ClassName
  outer : Option ClassName
  name : Option String
  flags : InnerClassFlags
  deriving DecidableEq

/-- The class, and possibly the method, in which a local class is declared. -/
structure Enclosing where
  owner : ClassName
  method : Option MethodId
  deriving DecidableEq

/-- A class. -/
structure ClassFile where
  version : Version
  access : ClassAccess
  name : ClassName
  /-- The super class, which only the root of all classes and descriptions of modules lack. -/
  superClass : Option ClassName
  interfaces : List ClassName
  fields : List Field := []
  methods : List Method := []
  isDeprecated : Bool := false
  isSynthetic : Bool := false
  innerClasses : Option (List InnerClass) := none
  enclosing : Option Enclosing := none
  signature : Option Signature := none
  sourceFile : Option String := none
  sourceDebugExtension : Option Bytes := none
  annots : Annots := {}
  moduleInfo : Option ModuleInfo := none
  modulePackages : Option (List PackageName) := none
  moduleMainClass : Option ClassName := none
  nestHost : Option ClassName := none
  nestMembers : Option (List ClassName) := none
  permittedSubclasses : Option (List ClassName) := none
  recordComponents : Option (List RecordComponent) := none
  attributes : List RawAttribute := []
  deriving DecidableEq

namespace ClassFile

/-- A class is a record if it extends the class of records. -/
def isRecord (cls : ClassFile) : Bool :=
  cls.superClass = some ClassName.javaRecord

/-- The first method with the given name and descriptor. -/
def method? (cls : ClassFile) (id : MethodId) : Option Method :=
  cls.methods.find? fun method => method.name = id.name && method.descriptor = id.descriptor

end ClassFile

end Downlevel
