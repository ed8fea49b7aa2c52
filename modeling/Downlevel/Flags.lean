/-!
# Flags

Classes, their members and the parts of a module have flags: a 16-bit word of which each bit has a
meaning of its own, depending on whose flags they are.  Each kind of flags is a structure with one
truth value per meaning, and a table that pairs each meaning with its bit and its word.  Bits
without a meaning are dropped when flags are read.
-/

namespace Downlevel

/-- One meaning of a kind of flags: the bit, the word for it, and where its truth value is. -/
structure Flag (α : Type) where
  mask : UInt16
  word : String
  get : α → Bool

namespace Flag

/-- Whether the bit of `mask` is set. -/
def isSet (mask bits : UInt16) : Bool :=
  bits &&& mask != 0

/-- The word with the bits of all meanings that hold. -/
def toBits {α : Type} (table : List (Flag α)) (flags : α) : UInt16 :=
  table.foldl (fun bits flag => bits ||| (if flag.get flags then flag.mask else 0)) 0

/-- The words of all meanings that hold, in the order of the table, behind the name of the kind. -/
def text {α : Type} (kind : String) (table : List (Flag α)) (flags : α) : String :=
  kind ++ " \x7b " ++
    String.join ((table.filter fun flag => flag.get flags).map fun flag => flag.word ++ " ") ++
    "\x7d"

end Flag

/-- The access and property flags of a class. -/
structure ClassAccess where
  isPublic : Bool := false
  isFinal : Bool := false
  isSuper : Bool := false
  isInterface : Bool := false
  isAbstract : Bool := false
  isSynthetic : Bool := false
  isAnnotType : Bool := false
  isEnum : Bool := false
  isModule : Bool := false
  deriving DecidableEq, Inhabited

namespace ClassAccess

/-- The meanings of the bits. -/
def table : List (Flag ClassAccess) :=
  [⟨0x0001, "public", isPublic⟩,
    ⟨0x0010, "final", isFinal⟩,
    ⟨0x0020, "super", isSuper⟩,
    ⟨0x0200, "interface", isInterface⟩,
    ⟨0x0400, "abstract", isAbstract⟩,
    ⟨0x1000, "synthetic", isSynthetic⟩,
    ⟨0x2000, "annotation", isAnnotType⟩,
    ⟨0x4000, "enum", isEnum⟩,
    ⟨0x8000, "module", isModule⟩]

/-- The flags of a word. -/
def ofBits (bits : UInt16) : ClassAccess where
  isPublic := Flag.isSet 0x0001 bits
  isFinal := Flag.isSet 0x0010 bits
  isSuper := Flag.isSet 0x0020 bits
  isInterface := Flag.isSet 0x0200 bits
  isAbstract := Flag.isSet 0x0400 bits
  isSynthetic := Flag.isSet 0x1000 bits
  isAnnotType := Flag.isSet 0x2000 bits
  isEnum := Flag.isSet 0x4000 bits
  isModule := Flag.isSet 0x8000 bits

/-- The word of the flags. -/
def toBits (flags : ClassAccess) : UInt16 :=
  Flag.toBits table flags

/-- The flags as messages show them. -/
def text (flags : ClassAccess) : String :=
  Flag.text "ClassAccess" table flags

end ClassAccess

/-- The flags of a class as a member of another one. -/
structure InnerClassFlags where
  isPublic : Bool := false
  isPrivate : Bool := false
  isProtected : Bool := false
  isStatic : Bool := false
  isFinal : Bool := false
  isInterface : Bool := false
  isAbstract : Bool := false
  isSynthetic : Bool := false
  isAnnotType : Bool := false
  isEnum : Bool := false
  deriving DecidableEq, Inhabited

namespace InnerClassFlags

/-- The meanings of the bits. -/
def table : List (Flag InnerClassFlags) :=
  [⟨0x0001, "public", isPublic⟩,
    ⟨0x0002, "private", isPrivate⟩,
    ⟨0x0004, "protected", isProtected⟩,
    ⟨0x0008, "static", isStatic⟩,
    ⟨0x0010, "final", isFinal⟩,
    ⟨0x0200, "interface", isInterface⟩,
    ⟨0x0400, "abstract", isAbstract⟩,
    ⟨0x1000, "synthetic", isSynthetic⟩,
    ⟨0x2000, "annotation", isAnnotType⟩,
    ⟨0x4000, "enum", isEnum⟩]

/-- The flags of a word. -/
def ofBits (bits : UInt16) : InnerClassFlags where
  isPublic := Flag.isSet 0x0001 bits
  isPrivate := Flag.isSet 0x0002 bits
  isProtected := Flag.isSet 0x0004 bits
  isStatic := Flag.isSet 0x0008 bits
  isFinal := Flag.isSet 0x0010 bits
  isInterface := Flag.isSet 0x0200 bits
  isAbstract := Flag.isSet 0x0400 bits
  isSynthetic := Flag.isSet 0x1000 bits
  isAnnotType := Flag.isSet 0x2000 bits
  isEnum := Flag.isSet 0x4000 bits

/-- The word of the flags. -/
def toBits (flags : InnerClassFlags) : UInt16 :=
  Flag.toBits table flags

/-- The flags as messages show them. -/
def text (flags : InnerClassFlags) : String :=
  Flag.text "InnerClassFlags" table flags

end InnerClassFlags

/-- The access and property flags of a field. -/
structure FieldAccess where
  isPublic : Bool := false
  isPrivate : Bool := false
  isProtected : Bool := false
  isStatic : Bool := false
  isFinal : Bool := false
  isVolatile : Bool := false
  isTransient : Bool := false
  isSynthetic : Bool := false
  isEnum : Bool := false
  deriving DecidableEq, Inhabited

namespace FieldAccess

/-- The meanings of the bits. -/
def table : List (Flag FieldAccess) :=
  [⟨0x0001, "public", isPublic⟩,
    ⟨0x0002, "private", isPrivate⟩,
    ⟨0x0004, "protected", isProtected⟩,
    ⟨0x0008, "static", isStatic⟩,
    ⟨0x0010, "final", isFinal⟩,
    ⟨0x0040, "volatile", isVolatile⟩,
    ⟨0x0080, "transient", isTransient⟩,
    ⟨0x1000, "synthetic", isSynthetic⟩,
    ⟨0x4000, "enum", isEnum⟩]

/-- The flags of a word. -/
def ofBits (bits : UInt16) : FieldAccess where
  isPublic := Flag.isSet 0x0001 bits
  isPrivate := Flag.isSet 0x0002 bits
  isProtected := Flag.isSet 0x0004 bits
  isStatic := Flag.isSet 0x0008 bits
  isFinal := Flag.isSet 0x0010 bits
  isVolatile := Flag.isSet 0x0040 bits
  isTransient := Flag.isSet 0x0080 bits
  isSynthetic := Flag.isSet 0x1000 bits
  isEnum := Flag.isSet 0x4000 bits

/-- The word of the flags. -/
def toBits (flags : FieldAccess) : UInt16 :=
  Flag.toBits table flags

/-- The flags as messages show them. -/
def text (flags : FieldAccess) : String :=
  Flag.text "FieldAccess" table flags

end FieldAccess

/-- The access and property flags of a method. -/
structure MethodAccess where
  isPublic : Bool := false
  isPrivate : Bool := false
  isProtected : Bool := false
  isStatic : Bool := false
  isFinal : Bool := false
  isSynchronized : Bool := false
  isBridge : Bool := false
  isVarargs : Bool := false
  isNative : Bool := false
  isAbstract : Bool := false
  isStrict : Bool := false
  isSynthetic : Bool := false
  deriving DecidableEq, Inhabited

namespace MethodAccess

/-- The meanings of the bits. -/
def table : List (Flag MethodAccess) :=
  [⟨0x0001, "public", isPublic⟩,
    ⟨0x0002, "private", isPrivate⟩,
    ⟨0x0004, "protected", isProtected⟩,
    ⟨0x0008, "static", isStatic⟩,
    ⟨0x0010, "final", isFinal⟩,
    ⟨0x0020, "synchronized", isSynchronized⟩,
    ⟨0x0040, "bridge", isBridge⟩,
    ⟨0x0080, "varargs", isVarargs⟩,
    ⟨0x0100, "native", isNative⟩,
    ⟨0x0400, "abstract", isAbstract⟩,
    ⟨0x0800, "strict", isStrict⟩,
    ⟨0x1000, "synthetic", isSynthetic⟩]

/-- The flags of a word. -/
def ofBits (bits : UInt16) : MethodAccess where
  isPublic := Flag.isSet 0x0001 bits
  isPrivate := Flag.isSet 0x0002 bits
  isProtected := Flag.isSet 0x0004 bits
  isStatic := Flag.isSet 0x0008 bits
  isFinal := Flag.isSet 0x0010 bits
  isSynchronized := Flag.isSet 0x0020 bits
  isBridge := Flag.isSet 0x0040 bits
  isVarargs := Flag.isSet 0x0080 bits
  isNative := Flag.isSet 0x0100 bits
  isAbstract := Flag.isSet 0x0400 bits
  isStrict := Flag.isSet 0x0800 bits
  isSynthetic := Flag.isSet 0x1000 bits

/-- The word of the flags. -/
def toBits (flags : MethodAccess) : UInt16 :=
  Flag.toBits table flags

/-- The flags as messages show them. -/
def text (flags : MethodAccess) : String :=
  Flag.text "MethodAccess" table flags

end MethodAccess

/-- The flags of a parameter. -/
structure ParameterFlags where
  isFinal : Bool := false
  isSynthetic : Bool := false
  isMandated : Bool := false
  deriving DecidableEq, Inhabited

namespace ParameterFlags

/-- The meanings of the bits. -/
def table : List (Flag ParameterFlags) :=
  [⟨0x0010, "final", isFinal⟩,
    ⟨0x1000, "synthetic", isSynthetic⟩,
    ⟨0x8000, "mandated", isMandated⟩]

/-- The flags of a word. -/
def ofBits (bits : UInt16) : ParameterFlags where
  isFinal := Flag.isSet 0x0010 bits
  isSynthetic := Flag.isSet 0x1000 bits
  isMandated := Flag.isSet 0x8000 bits

/-- The word of the flags. -/
def toBits (flags : ParameterFlags) : UInt16 :=
  Flag.toBits table flags

/-- The flags as messages show them. -/
def text (flags : ParameterFlags) : String :=
  Flag.text "ParameterFlags" table flags

end ParameterFlags

/-- The flags of a module. -/
structure ModuleFlags where
  isOpen : Bool := false
  isSynthetic : Bool := false
  isMandated : Bool := false
  deriving DecidableEq, Inhabited

namespace ModuleFlags

/-- The meanings of the bits. -/
def table : List (Flag ModuleFlags) :=
  [⟨0x0010, "open", isOpen⟩,
    ⟨0x1000, "synthetic", isSynthetic⟩,
    ⟨0x8000, "mandated", isMandated⟩]

/-- The flags of a word. -/
def ofBits (bits : UInt16) : ModuleFlags where
  isOpen := Flag.isSet 0x0010 bits
  isSynthetic := Flag.isSet 0x1000 bits
  isMandated := Flag.isSet 0x8000 bits

/-- The word of the flags. -/
def toBits (flags : ModuleFlags) : UInt16 :=
  Flag.toBits table flags

/-- The flags as messages show them. -/
def text (flags : ModuleFlags) : String :=
  Flag.text "ModuleFlags" table flags

end ModuleFlags

/-- The flags of a module that another one requires. -/
structure ModuleRequiresFlags where
  isTransitive : Bool := false
  isStaticPhase : Bool := false
  isSynthetic : Bool := false
  isMandated : Bool := false
  deriving DecidableEq, Inhabited

namespace ModuleRequiresFlags

/-- The meanings of the bits. -/
def table : List (Flag ModuleRequiresFlags) :=
  [⟨0x0020, "transitive", isTransitive⟩,
    ⟨0x0040, "static-phase", isStaticPhase⟩,
    ⟨0x1000, "synthetic", isSynthetic⟩,
    ⟨0x8000, "mandated", isMandated⟩]

/-- The flags of a word. -/
def ofBits (bits : UInt16) : ModuleRequiresFlags where
  isTransitive := Flag.isSet 0x0020 bits
  isStaticPhase := Flag.isSet 0x0040 bits
  isSynthetic := Flag.isSet 0x1000 bits
  isMandated := Flag.isSet 0x8000 bits

/-- The word of the flags. -/
def toBits (flags : ModuleRequiresFlags) : UInt16 :=
  Flag.toBits table flags

/-- The flags as messages show them. -/
def text (flags : ModuleRequiresFlags) : String :=
  Flag.text "ModuleRequiresFlags" table flags

end ModuleRequiresFlags

/-- The flags of an exported package. -/
structure ModuleExportsFlags where
  isSynthetic : Bool := false
  isMandated : Bool := false
  deriving DecidableEq, Inhabited

namespace ModuleExportsFlags

/-- The meanings of the bits. -/
def table : List (Flag ModuleExportsFlags) :=
  [⟨0x1000, "synthetic", isSynthetic⟩,
    ⟨0x8000, "mandated", isMandated⟩]

/-- The flags of a word. -/
def ofBits (bits : UInt16) : ModuleExportsFlags where
  isSynthetic := Flag.isSet 0x1000 bits
  isMandated := Flag.isSet 0x8000 bits

/-- The word of the flags. -/
def toBits (flags : ModuleExportsFlags) : UInt16 :=
  Flag.toBits table flags

/-- The flags as messages show them. -/
def text (flags : ModuleExportsFlags) : String :=
  Flag.text "ModuleExportsFlags" table flags

end ModuleExportsFlags

/-- The flags of an opened package. -/
structure ModuleOpensFlags where
  isSynthetic : Bool := false
  isMandated : Bool := false
  deriving DecidableEq, Inhabited

namespace ModuleOpensFlags

/-- The meanings of the bits. -/
def table : List (Flag ModuleOpensFlags) :=
  [⟨0x1000, "synthetic", isSynthetic⟩,
    ⟨0x8000, "mandated", isMandated⟩]

/-- The flags of a word. -/
def ofBits (bits : UInt16) : ModuleOpensFlags where
  isSynthetic := Flag.isSet 0x1000 bits
  isMandated := Flag.isSet 0x8000 bits

/-- The word of the flags. -/
def toBits (flags : ModuleOpensFlags) : UInt16 :=
  Flag.toBits table flags

/-- The flags as messages show them. -/
def text (flags : ModuleOpensFlags) : String :=
  Flag.text "ModuleOpensFlags" table flags

end ModuleOpensFlags

end Downlevel
