import Downlevel.Quoted

/-!
# What can be wrong with what is read

Reasons to refuse bytes as text, a text as a name or as a descriptor, and bytes as a class file, and
the places in a class file that an explanation passes on its way out, each with its wording.
-/

namespace Downlevel

/-! ## Texts -/

/-- The kinds of names whose spelling is checked. -/
inductive NameKind where
  | className
  | fieldName
  | methodName
  | fieldDescriptor
  | methodDescriptor
  | localVariableName
  | parameterName
  deriving DecidableEq

namespace NameKind

/-- The kind as messages call it. -/
def text : NameKind → String
  | className => "ClassName"
  | fieldName => "FieldName"
  | methodName => "MethodName"
  | fieldDescriptor => "FieldDescriptor"
  | methodDescriptor => "MethodDescriptor"
  | localVariableName => "LocalVariableName"
  | parameterName => "ParameterName"

end NameKind

/-- Why a sequence of bytes or characters is not the text it should be. -/
inductive TextFault where
  /-- `length` bytes from `index` on are no character. -/
  | invalidSequence (length index : Nat)
  /-- The bytes end inside the character that starts at `index`. -/
  | incompleteSequence (index : Nat)
  | invalidName (kind : NameKind) (text : String)
  | fieldDescriptor (text : String)
  | fieldDescriptorSurplus (text : String)
  | methodDescriptor (text : String)
  | noOpeningParenthesis
  | methodDescriptorSurplus
  | tooManyDimensions
  | abruptEnd
  | emptyClassName
  | unexpectedChar (c : Char)
  deriving DecidableEq

namespace TextFault

/-- The wording of a fault. -/
def text : TextFault → String
  | invalidSequence length index =>
      s!"invalid utf-8 sequence of {length} bytes from index {index}"
  | incompleteSequence index => s!"incomplete utf-8 byte sequence from index {index}"
  | invalidName kind name => "invalid " ++ kind.text ++ ": " ++ Quoted.text name
  | fieldDescriptor descriptor => "invalid field descriptor " ++ Quoted.text descriptor
  | fieldDescriptorSurplus descriptor =>
      "expected end of field descriptor " ++ Quoted.text descriptor ++ ", got more characters"
  | methodDescriptor descriptor => "invalid method descriptor " ++ Quoted.text descriptor
  | noOpeningParenthesis => "must start with `(`"
  | methodDescriptorSurplus => "expected end of method descriptor, got more characters"
  | tooManyDimensions => "array dimension of descriptor is larger than 255"
  | abruptEnd => "unexpected abrupt ending of descriptor"
  | emptyClassName => "empty class name in descriptor"
  | unexpectedChar c => "unexpected char " ++ Quoted.char c ++ " in descriptor"

end TextFault

/-! ## Class files -/

/-- Why bytes are not a class file. -/
inductive ReadFault where
  | endOfData
  | unreadable (word : String)
  | wrongMagic (found : UInt32)
  | unsupportedVersion (major minor : UInt16)
  | emptyPool
  | poolEntry (index : Nat)
  | unknownTag (tag : UInt8)
  | poolOverrun (count : UInt16)
  | invalidText
  | unpairedSurrogates (index : UInt16)
  | unusableIndex (index : UInt16)
  /-- The entry at `index` is not of the `wanted` kind. -/
  | unexpectedEntry (wanted : String) (index : UInt16)
  | unknownHandleKind (kind : UInt8)
  | nestedTooDeep (limit : Nat) (index : UInt16)
  | noBootstrapMethod (index : UInt16) (count : Nat)
  | integerTooWide (value : Int32) (index : UInt16) (wanted : String)
  | notBoolean (value : Int32) (index : UInt16)
  | attributesOfClass (name : String)
  | fieldOfClass (name : String)
  | methodOfClass (name : String)
  | codeOfMethod (name descriptor : String)
  | repeatedAttribute (name : String)
  | twoValues
  | codeLength (found : Nat)
  | atOffset (offset : Nat)
  | branchOffset (branch : Int) (offset : Nat)
  | branchTarget (target offset : Nat)
  | tableBounds (low high : Int32)
  | negativeCases (count : Int32)
  | unknownArrayType (code : UInt8)
  | unknownOpcode (opcode : UInt8)
  | unknownWideOpcode (opcode : UInt8)
  | reservedOpcode (mnemonic : String)
  | offsetOutOfBounds (offset length : UInt16)
  | endOutOfBounds (offset length : UInt16)
  | rangeOverflow (start length : UInt16)
  | looseOffset
  | unknownElementTag (tag : UInt8)
  | unknownTarget (tag : UInt8)
  | unknownPathKind (kind : UInt8)
  | pathArgument (kind : String) (argument : UInt8)
  deriving DecidableEq

namespace ReadFault

/-- The wording of a fault. -/
def text : ReadFault → String
  | endOfData => "failed to fill whole buffer"
  | unreadable word => s!"couldn't read {word}, perhaps the data's end is reached?"
  | wrongMagic found =>
      "wrong magic: got " ++ Quoted.hex found.toNat ++ ", expected 0xCAFEBABE"
  | unsupportedVersion major minor => s!"unsupported class file version: {major}.{minor}"
  | emptyPool => "`constant_pool_count` must be at least one"
  | poolEntry index => s!"failed to read constant pool entry {index}"
  | unknownTag tag => s!"unknown constant pool tag {tag}"
  | poolOverrun count =>
      "last constant pool entry is a long or double taking up two slots, " ++
        s!"going past `constant_pool_count` of {count}"
  | invalidText => "invalid java utf8 contents"
  | unpairedSurrogates index => s!"utf8 at index {index} contains unpaired surrogates: ..."
  | unusableIndex index => s!"constant pool index {index} is out of bounds or unusable"
  | unexpectedEntry wanted index => s!"expected {wanted} at index {index}, got ..."
  | unknownHandleKind kind => s!"unknown method handle reference kind {kind}"
  | nestedTooDeep limit index =>
      s!"dynamic constants nested deeper than {limit} levels at index {index}"
  | noBootstrapMethod index count =>
      s!"bootstrap method index {index} out of bounds for {count} bootstrap methods"
  | integerTooWide value index wanted =>
      s!"integer {value} at index {index} doesn't fit a {wanted}"
  | notBoolean value index => s!"integer {value} at index {index} is not a boolean"
  | attributesOfClass name => s!"failed to read attributes of class {name}"
  | fieldOfClass name => s!"failed to read field of class {name}"
  | methodOfClass name => s!"failed to read method of class {name}"
  | codeOfMethod name descriptor => s!"failed to read code of method {name} {descriptor}"
  | repeatedAttribute name => s!"only one {name} attribute is allowed"
  | twoValues => "got ..."
  | codeLength found =>
      s!"`code_length` must be greater than zero and less than 65536, got {found}"
  | atOffset offset => s!"at bytecode offset {offset}"
  | branchOffset branch offset =>
      s!"branch offset {branch} from bytecode offset {offset} is out of range"
  | branchTarget target offset =>
      s!"branch target {target} from bytecode offset {offset} is out of range"
  | tableBounds low high =>
      s!"in tableswitch `low` must be lower or equal to `high`, got low={low} and high={high}"
  | negativeCases count => s!"in lookupswitch `npairs` must not be negative, got {count}"
  | unknownArrayType code => "unknown array type " ++ Quoted.hexDigits code.toNat
  | unknownOpcode opcode => "unknown opcode " ++ Quoted.hex opcode.toNat
  | unknownWideOpcode opcode => "unknown wide opcode " ++ Quoted.hex opcode.toNat
  | reservedOpcode mnemonic => s!"unknown opcode {mnemonic}"
  | offsetOutOfBounds offset length =>
      s!"bytecode offset {offset} out of bounds for code length {length}"
  | endOutOfBounds offset length =>
      s!"end bytecode offset {offset} out of bounds for code length {length}"
  | rangeOverflow start length => s!"range starting at {start} with length {length} overflows"
  | looseOffset =>
      "some bytecode offsets referenced in the code don't point to the start of an instruction"
  | unknownElementTag tag => s!"unknown `element_value` tag {tag}"
  | unknownTarget tag =>
      "unknown type annotation target " ++ Quoted.hex tag.toNat ++ " outside of code"
  | unknownPathKind kind => s!"`type_path_kind` must be in range 0 to 3, got {kind}"
  | pathArgument kind argument =>
      s!"for {kind}, `type_argument_index` must be zero, got {argument}"

end ReadFault

end Downlevel
