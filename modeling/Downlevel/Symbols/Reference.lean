import Downlevel.ClassFile

/-!
# What a class refers to

The symbols that a class refers to, as a list of checks.  Some symbols are looked at only if others
are there: if the type of a field is missing, for instance, nobody asks about the field's
annotations.  So a check can depend on another one.
-/

namespace Downlevel

/-- A symbol that a class refers to. -/
inductive Reference where
  /-- A class. -/
  | cls (name : ClassName)
  /-- The type of a value. -/
  | type (descriptor : FieldDescriptor)
  /-- The classes in the descriptor of a method, or in any other one. -/
  | classesIn (descriptor : String)
  | field (target : FieldRef)
  | method (target : MethodRef)
  deriving DecidableEq

/-- What to check. -/
inductive Check where
  /-- Whether a symbol is there. -/
  | single (reference : Reference)
  /-- Whether a symbol is there and, if it is, the rest. -/
  | guarded (first : Reference) (rest : List Check)
  /-- One check after the other, up to the first that finds something missing. -/
  | upToFirst (checks : List Check)
  /-- A check that messages place in a method. -/
  | inMethod (name : MethodName) (descriptor : MethodDescriptor) (check : Check)

namespace Check

mutual

/-- The symbols that a check may look at. -/
def references : Check → List Reference
  | single reference => [reference]
  | guarded first rest => first :: referencesIn rest
  | upToFirst checks => referencesIn checks
  | inMethod _ _ check => check.references

/-- The symbols that checks may look at. -/
def referencesIn : List Check → List Reference
  | [] => []
  | check :: rest => check.references ++ referencesIn rest

end

/-- The check of a handle. -/
def ofHandle : Handle → Reference
  | .field _ target => .field target
  | .method _ target => .method target

mutual

/-- The check of a value that can be loaded, if there is something to check. -/
def ofLoadable : Loadable → Option Check
  | .cls name => some (single (.cls name))
  | .handle handle => some (single (ofHandle handle))
  | .methodType descriptor => some (single (.classesIn descriptor))
  | .dynamic _ descriptor bootstrap arguments =>
      some (upToFirst
        (single (.classesIn descriptor) :: single (ofHandle bootstrap) :: ofLoadables arguments))
  | _ => none

/-- The checks of values that can be loaded. -/
def ofLoadables : List Loadable → List Check
  | [] => []
  | value :: rest =>
      match ofLoadable value with
      | some check => check :: ofLoadables rest
      | none => ofLoadables rest

end

/-- The check of an instruction, if there is something to check. -/
def ofInstruction : Instruction → Option Check
  | .new name => some (single (.cls name))
  | .anewarray name => some (single (.cls name))
  | .checkcast name => some (single (.cls name))
  | .instanceof name => some (single (.cls name))
  | .multianewarray name _ => some (single (.type name))
  | .field _ target => some (single (.field target))
  | .invokevirtual target => some (single (.method target))
  | .invokespecial target _ => some (single (.method target))
  | .invokestatic target _ => some (single (.method target))
  | .invokeinterface target => some (single (.method target))
  | .invokedynamic site => some (guarded (ofHandle site.bootstrap) (ofLoadables site.arguments))
  | .ldc value => ofLoadable value
  | _ => none

mutual

/-- The checks of a value in an annotation. -/
def ofElement : ElementValue → List Check
  | .constant type _ => [single (.type type)]
  | .nested type values => [guarded (.type type) (ofNamedElements values)]
  | .array values => ofElements values
  | _ => []

/-- The checks of values in an annotation. -/
def ofElements : List ElementValue → List Check
  | [] => []
  | value :: rest => ofElement value ++ ofElements rest

/-- The checks of the named values of an annotation. -/
def ofNamedElements : List (String × ElementValue) → List Check
  | [] => []
  | (_, value) :: rest => ofElement value ++ ofNamedElements rest

end

/-- The check of an annotation. -/
def ofAnnot (annot : Annot) : Check :=
  guarded (.type annot.type) (ofNamedElements annot.values)

/-- The checks of the annotations of a declaration. -/
def ofAnnots (annots : Annots) : List Check :=
  (annots.visible ++ annots.invisible).map ofAnnot ++
    (annots.visibleTypes ++ annots.invisibleTypes).map fun annot => ofAnnot annot.body

/-- The check of a field. -/
def ofField (field : Field) : Check :=
  guarded (.type field.descriptor) (ofAnnots field.annots)

/-- The checks of the code of a method. -/
def ofCode (method : Method) (code : Code) : List Check :=
  (code.instructions.filterMap fun entry =>
      (ofInstruction entry.instruction).map (inMethod method.name method.descriptor)) ++
    (code.exceptions.filterMap fun range => range.caught.map fun name => single (.cls name)) ++
    (code.localVariables.getD []).filterMap fun variable' =>
      variable'.descriptor.map fun descriptor => single (.type descriptor)

/-- The check of a method. -/
def ofMethod (method : Method) : Check :=
  guarded (.classesIn method.descriptor)
    ((method.exceptions.getD []).map (fun name => single (.cls name)) ++ ofAnnots method.annots ++
      ((method.visibleParameterAnnots.getD [] ++
        method.invisibleParameterAnnots.getD []).flatten.map ofAnnot) ++
      (match method.defaultValue with
        | some value => ofElement value
        | none => []) ++
      (match method.code with
        | some code => ofCode method code
        | none => []))

end Check

namespace ClassFile

/-- The checks of a class: of what it extends, of its annotations, and of its members. -/
def checks (cls : ClassFile) : List Check :=
  (cls.superClass.toList ++ cls.interfaces ++ cls.permittedSubclasses.getD []).map
      (fun name => Check.single (.cls name)) ++
    Check.ofAnnots cls.annots ++ cls.fields.map Check.ofField ++ cls.methods.map Check.ofMethod

end ClassFile

end Downlevel
