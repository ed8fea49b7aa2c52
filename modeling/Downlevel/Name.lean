import Downlevel.Descriptor.Grammar

/-!
# Names

The names of classes, fields, methods, variables, modules and packages are texts.  What they may be
spelled like differs: only class names have slashes, and only two method names have angle brackets.
-/

namespace Downlevel

/-- The name of a field. -/
abbrev FieldName := String

/-- The name of a method. -/
abbrev MethodName := String

/-- The type of a field as it is written in class files. -/
abbrev FieldDescriptor := String

/-- The parameters and the result of a method as they are written in class files. -/
abbrev MethodDescriptor := String

/-- A generic type as it is written in class files; it is kept and never looked into. -/
abbrev Signature := String

/-- The name of a module. -/
abbrev ModuleName := String

/-- The name of a package, with slashes. -/
abbrev PackageName := String

namespace Name

/-- Whether a text is a name without a package: it is not empty and has none of the characters that
separate names. -/
def isUnqualified (name : List Char) : Bool :=
  !name.isEmpty && name.all fun c => c != '.' && c != ';' && c != '[' && c != '/'

/-- Whether a text is a method name: the two special ones, or an unqualified name without angle
brackets. -/
def isMethodName (name : String) : Bool :=
  name = "<init>" || name = "<clinit>" ||
    (isUnqualified name.toList && name.toList.all fun c => c != '<' && c != '>')

/-- Whether a text is a class name: unqualified names with slashes between them, or the descriptor
of an array. -/
def isClassName (name : String) : Bool :=
  if Text.beginsWith '[' name then (JavaType.parse name).toBool
  else (Text.splitSlashes name.toList).all isUnqualified

/-- Whether a text is spelled as a name of the given kind. -/
def isValid (kind : NameKind) (name : String) : Bool :=
  match kind with
  | .className => isClassName name
  | .fieldName => isUnqualified name.toList
  | .methodName => isMethodName name
  | .fieldDescriptor => (JavaType.parse name).toBool
  | .methodDescriptor => (MethodType.parse name).toBool
  | .localVariableName => isUnqualified name.toList
  | .parameterName => isUnqualified name.toList

/-- A text as a name of the given kind, refused if it is not spelled like one. -/
def checked (kind : NameKind) (name : String) : Except Error String :=
  if isValid kind name then .ok name else fail (.text (.invalidName kind name))

end Name

namespace ClassName

/-- The root of all classes. -/
def javaObject : ClassName := "java/lang/Object"

/-- The class of strings. -/
def javaString : ClassName := "java/lang/String"

/-- The class of classes. -/
def javaClass : ClassName := "java/lang/Class"

/-- The root of everything that can be thrown. -/
def javaThrowable : ClassName := "java/lang/Throwable"

/-- The super class of all records. -/
def javaRecord : ClassName := "java/lang/Record"

/-- The class of method handles. -/
def methodHandle : ClassName := "java/lang/invoke/MethodHandle"

/-- The class of method types. -/
def methodType : ClassName := "java/lang/invoke/MethodType"

/-- Whether a name is that of an array class. -/
def isArray (name : ClassName) : Bool :=
  Text.beginsWith '[' name

/-- The package of a class, or nothing for a class outside of all packages. -/
def package? (name : ClassName) : Option PackageName :=
  if name.toList.contains '/' then
    some (String.ofList ((name.toList.reverse.dropWhile (· != '/')).drop 1).reverse)
  else none

/-- The part of a class name behind its package. -/
def simple (name : ClassName) : String :=
  String.ofList (name.toList.reverse.takeWhile (· != '/')).reverse

/-- The name with dots in place of slashes. -/
def binary (name : ClassName) : String :=
  name.map fun c => if c = '/' then '.' else c

end ClassName

namespace MethodName

/-- The name of constructors. -/
def constructor : MethodName := "<init>"

/-- The name of static initializers. -/
def staticInitializer : MethodName := "<clinit>"

end MethodName

end Downlevel
