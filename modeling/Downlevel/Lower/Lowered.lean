import Downlevel.ClassFile
import Downlevel.Error

/-!
# What a pass makes of a class

Every pass gives a class back and says whether it changed anything.
-/

namespace Downlevel

/-- A class behind a pass. -/
structure Lowered where
  cls : ClassFile
  /-- Whether the pass changed the class. -/
  changed : Bool
  deriving DecidableEq

namespace Lowered

/-- The class as it was. -/
def unchanged (cls : ClassFile) : Lowered :=
  ⟨cls, false⟩

end Lowered

namespace ClassFile

/-- The access of methods that are added to a class.  The methods of old interfaces are all
public. -/
def addedMethodAccess (cls : ClassFile) : MethodAccess :=
  { isStatic := true
    isSynthetic := true
    isPublic := cls.access.isInterface
    isPrivate := !cls.access.isInterface }

end ClassFile

namespace Method

/-- A method that has nothing but its code. -/
def ofCode (access : MethodAccess) (name : MethodName) (descriptor : MethodDescriptor)
    (code : Code) : Method :=
  { access := access, name := name, descriptor := descriptor, code := some code }

end Method

namespace Code

/-- Changes each instruction and leaves the labels where they are. -/
def mapInstructions (f : Instruction → Instruction) (code : Code) : Code :=
  { code with
    instructions := code.instructions.map fun entry =>
      { entry with instruction := f entry.instruction } }

end Code

end Downlevel
