import Downlevel.Code.Fragment
import Downlevel.Lower.Lowered

/-!
# The exception for failed matches

Older releases lack the exception that says that no case of a switch matched.  A general one takes
its place, and its message says which one it stands for.
-/

namespace Downlevel

namespace MatchFailure

/-- The exception to replace. -/
def exception : ClassName := "java/lang/MatchException"

/-- The exception that takes its place. -/
def replacement : ClassName := "java/lang/RuntimeException"

/-- What the message says in place of nothing. -/
def bareTag : String := "(java/lang/MatchException)"

/-- What stands in front of a message. -/
def tag : String := "(java/lang/MatchException) "

/-- Whether an instruction creates the exception or calls one of its constructors. -/
def isAbout : Instruction → Bool
  | .new cls => cls = exception
  | .invokespecial target _ => target.owner = exception && target.name = MethodName.constructor
  | _ => false

/-- Puts the tag in front of the message on top of the stack, which may be missing. -/
def tagMessage : List Instruction :=
  [.invokestatic
      ⟨ClassName.javaString, "valueOf", "(Ljava/lang/Object;)Ljava/lang/String;"⟩ false,
    Fragment.text tag, .op .swap,
    .invokevirtual ⟨ClassName.javaString, "concat", "(Ljava/lang/String;)Ljava/lang/String;"⟩]

/-- What takes the place of a constructor call. -/
def constructorCall (descriptor : MethodDescriptor) (onInterface : Bool) : List Instruction :=
  let call (descriptor : MethodDescriptor) : Instruction :=
    .invokespecial ⟨replacement, MethodName.constructor, descriptor⟩ onInterface
  if descriptor = "()V" then [Fragment.text bareTag, call "(Ljava/lang/String;)V"]
  else if descriptor = "(Ljava/lang/String;)V" then tagMessage ++ [call "(Ljava/lang/String;)V"]
  else if descriptor = "(Ljava/lang/String;Ljava/lang/Throwable;)V" then
    .op .swap :: tagMessage ++ [.op .swap, call "(Ljava/lang/String;Ljava/lang/Throwable;)V"]
  else [call descriptor]

/-- What takes the place of an instruction that is about the exception. -/
def replace : Instruction → List Instruction
  | .invokespecial target onInterface => constructorCall target.descriptor onInterface
  | _ => [.new replacement]

/-- What takes the place of an instruction.  The first new instruction gets the label. -/
def replaceEntry (entry : Labelled) : List Labelled :=
  if isAbout entry.instruction then
    match replace entry.instruction with
    | [] => []
    | first :: rest => ⟨entry.label, first⟩ :: rest.map Instruction.plain
  else [entry]

/-- Whether code is about the exception. -/
def occursIn (code : Code) : Bool :=
  code.instructions.any fun entry => isAbout entry.instruction

/-- Replaces the exception in the code of a method. -/
def replaceIn (method : Method) : Method :=
  { method with
    code := method.code.map fun code =>
      { code with instructions := code.instructions.flatMap replaceEntry } }

end MatchFailure

namespace Lower

/-- Puts an exception that older releases have in place of the one for failed matches. -/
def matchFailure (cls : ClassFile) : Lowered :=
  ⟨{ cls with methods := cls.methods.map MatchFailure.replaceIn },
    cls.methods.any fun method => method.code.any MatchFailure.occursIn⟩

end Lower

end Downlevel
