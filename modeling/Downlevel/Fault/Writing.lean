import Downlevel.Quoted

/-!
# What can stop a class from being written

Reasons why a class has no class file (it does not fit the format, its code refers to places that
are not there, or its stack does not add up), and the places that an explanation passes on its way
out, each with its wording.
-/

namespace Downlevel

/-- How messages show a label. -/
def labelText (id : UInt16) : String :=
  "Label \x7b id: " ++ toString id ++ " \x7d"

/-- Why a class cannot be laid out as bytes. -/
inductive WriteFault where
  | inClass (name : String)
  | inField (name owner : String)
  | inMethod (name descriptor owner : String)
  | inComponent (name : String)
  | inCode
  | countOf (what owner : String)
  | tooMany (what : String)
  | typePathTooLong
  /-- A number does not fit a word of the given name. -/
  | tooLarge (value : Nat) (word : String)
  | attributeTooLarge (name : String)
  | unknownAttributeTooLarge (name : String)
  | lengthOfString
  | poolOverflow
  | bootstrapOverflow
  | maxLocals (found : Nat)
  | frames
  | codeTooLong (size : Nat)
  | codeLength (size : Nat)
  | atInstruction
  | tableBounds
  | tableSize (found wanted : Nat)
  | unsortedCases
  | tooManyArguments (count : UInt16)
  | unplacedTarget
  | noOffset (label : UInt16)
  | noInstruction (label : UInt16)
  | backwardRange (start stop : UInt16)
  deriving DecidableEq

namespace WriteFault

/-- The wording of a fault. -/
def text : WriteFault → String
  | inClass name => s!"failed to write class {name}"
  | inField name owner => s!"failed to write field {name} of class {owner}"
  | inMethod name descriptor owner =>
      s!"failed to write method {name}{descriptor} of class {owner}"
  | inComponent name => s!"failed to write record component {name}"
  | inCode => "failed to write `Code` attribute"
  | countOf what owner => s!"failed to write the number of {what} of class {owner}"
  | tooMany what => s!"too many {what}"
  | typePathTooLong => "type path too long"
  | tooLarge value word => s!"failed to convert {value} to {word} for writing: value too large"
  | attributeTooLarge name => "attribute " ++ Quoted.text name ++ " is too large"
  | unknownAttributeTooLarge name => "unknown attribute " ++ Quoted.text name ++ " is too large"
  | lengthOfString => "failed to write length of string"
  | poolOverflow => "pool count overflowed while adding pool entry ..."
  | bootstrapOverflow =>
      "bootstrap methods attribute count overflowed while adding bootstrap method"
  | maxLocals found => s!"`max_locals` of {found} is too large"
  | frames => "failed to compute frames"
  | codeTooLong size => s!"cannot write code: code size exceeded u16::MAX: {size}"
  | codeLength size =>
      s!"`code_length` must be greater than zero and less than 65536, got {size}"
  | atInstruction => "while writing the instruction ..."
  | tableBounds => "`low` must be lower or equal to `high`"
  | tableSize found wanted =>
      "`low` and `high` bounds don't span a range of the size of the table: " ++
        s!"table has {found}, high and low define {wanted}"
  | unsortedCases => "`pairs` must be sorted by key, without duplicates"
  | tooManyArguments count => s!"too many arguments for invokeinterface: {count}"
  | unplacedTarget => "no instruction has the label"
  | noOffset label => "no bytecode offset for label " ++ labelText label
  | noInstruction label => "label " ++ labelText label ++ " is not on any instruction"
  | backwardRange start stop =>
      "range LabelRange \x7b start: " ++ labelText start ++ ", end: " ++ labelText stop ++
        " \x7d ends before it starts"

end WriteFault

/-- Why the frames of a method cannot be computed. -/
inductive FrameFault where
  | noInstructions
  | iterationLimit (limit : Nat)
  | noFrame (index : Nat)
  | afterInstruction (index : Nat)
  | mergeAt (index : Nat)
  | stackHeights
  | stackUnderflow
  | splitValue (slots : Nat)
  | localOutOfBounds (slot : Nat)
  | stackTooLarge (size : Nat)
  | parametersTooLarge (slots : Nat) (maxLocals : UInt16)
  | fallsOffEnd (index : Nat)
  | jumpsToEnd (index target : Nat)
  | notCreation (index : Nat)
  | elementOfClass (name : String)
  | elementOf (type : String)
  deriving DecidableEq

namespace FrameFault

/-- The wording of a fault. -/
def text : FrameFault → String
  | noInstructions => "code has no instructions"
  | iterationLimit limit => s!"frame analysis exceeded iteration limit of {limit}"
  | noFrame index => s!"no frame for instruction {index}"
  | afterInstruction index => s!"failed to compute frame after instruction {index}: ..."
  | mergeAt index => s!"failed to merge frames at instruction {index}"
  | stackHeights => "inconsistent stack heights: ..."
  | stackUnderflow => "stack underflow"
  | splitValue slots =>
      s!"can't split a long or double on the stack, while popping {slots} slots: ..."
  | localOutOfBounds slot => s!"local variable {slot} is out of bounds"
  | stackTooLarge size => s!"maximum stack size {size} is too large"
  | parametersTooLarge slots maxLocals =>
      s!"parameters take {slots} local variable slots, but `max_locals` is {maxLocals}"
  | fallsOffEnd index => s!"execution falls off the end of the code after instruction {index}"
  | jumpsToEnd index target =>
      s!"instruction {index} jumps to the end of the code at {target}"
  | notCreation index => s!"expected a `new` instruction at index {index}, got ..."
  | elementOfClass name => s!"`aaload` on non-array type {name}"
  | elementOf type => s!"`aaload` on {type}"

end FrameFault

end Downlevel
