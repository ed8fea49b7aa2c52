/-!
# Instructions without operands

Most instructions have nothing but their opcode.  This file lists them with their opcodes and the
words for them.
-/

namespace Downlevel

/-- The instructions that have no operands. -/
inductive Op where
  | nop
  | aconstNull
  | iconstM1
  | iconst0
  | iconst1
  | iconst2
  | iconst3
  | iconst4
  | iconst5
  | lconst0
  | lconst1
  | fconst0
  | fconst1
  | fconst2
  | dconst0
  | dconst1
  | iaload
  | laload
  | faload
  | daload
  | aaload
  | baload
  | caload
  | saload
  | iastore
  | lastore
  | fastore
  | dastore
  | aastore
  | bastore
  | castore
  | sastore
  | pop
  | pop2
  | dup
  | dupX1
  | dupX2
  | dup2
  | dup2X1
  | dup2X2
  | swap
  | iadd
  | ladd
  | fadd
  | dadd
  | isub
  | lsub
  | fsub
  | dsub
  | imul
  | lmul
  | fmul
  | dmul
  | idiv
  | ldiv
  | fdiv
  | ddiv
  | irem
  | lrem
  | frem
  | drem
  | ineg
  | lneg
  | fneg
  | dneg
  | ishl
  | lshl
  | ishr
  | lshr
  | iushr
  | lushr
  | iand
  | land
  | ior
  | lor
  | ixor
  | lxor
  | i2l
  | i2f
  | i2d
  | l2i
  | l2f
  | l2d
  | f2i
  | f2l
  | f2d
  | d2i
  | d2l
  | d2f
  | i2b
  | i2c
  | i2s
  | lcmp
  | fcmpl
  | fcmpg
  | dcmpl
  | dcmpg
  | ireturn
  | lreturn
  | freturn
  | dreturn
  | areturn
  | returnVoid
  | arraylength
  | athrow
  | monitorenter
  | monitorexit
  deriving DecidableEq, Inhabited

namespace Op

/-- The opcode of an instruction. -/
def opcode : Op → UInt8
  | nop => 0x00
  | aconstNull => 0x01
  | iconstM1 => 0x02
  | iconst0 => 0x03
  | iconst1 => 0x04
  | iconst2 => 0x05
  | iconst3 => 0x06
  | iconst4 => 0x07
  | iconst5 => 0x08
  | lconst0 => 0x09
  | lconst1 => 0x0a
  | fconst0 => 0x0b
  | fconst1 => 0x0c
  | fconst2 => 0x0d
  | dconst0 => 0x0e
  | dconst1 => 0x0f
  | iaload => 0x2e
  | laload => 0x2f
  | faload => 0x30
  | daload => 0x31
  | aaload => 0x32
  | baload => 0x33
  | caload => 0x34
  | saload => 0x35
  | iastore => 0x4f
  | lastore => 0x50
  | fastore => 0x51
  | dastore => 0x52
  | aastore => 0x53
  | bastore => 0x54
  | castore => 0x55
  | sastore => 0x56
  | pop => 0x57
  | pop2 => 0x58
  | dup => 0x59
  | dupX1 => 0x5a
  | dupX2 => 0x5b
  | dup2 => 0x5c
  | dup2X1 => 0x5d
  | dup2X2 => 0x5e
  | swap => 0x5f
  | iadd => 0x60
  | ladd => 0x61
  | fadd => 0x62
  | dadd => 0x63
  | isub => 0x64
  | lsub => 0x65
  | fsub => 0x66
  | dsub => 0x67
  | imul => 0x68
  | lmul => 0x69
  | fmul => 0x6a
  | dmul => 0x6b
  | idiv => 0x6c
  | ldiv => 0x6d
  | fdiv => 0x6e
  | ddiv => 0x6f
  | irem => 0x70
  | lrem => 0x71
  | frem => 0x72
  | drem => 0x73
  | ineg => 0x74
  | lneg => 0x75
  | fneg => 0x76
  | dneg => 0x77
  | ishl => 0x78
  | lshl => 0x79
  | ishr => 0x7a
  | lshr => 0x7b
  | iushr => 0x7c
  | lushr => 0x7d
  | iand => 0x7e
  | land => 0x7f
  | ior => 0x80
  | lor => 0x81
  | ixor => 0x82
  | lxor => 0x83
  | i2l => 0x85
  | i2f => 0x86
  | i2d => 0x87
  | l2i => 0x88
  | l2f => 0x89
  | l2d => 0x8a
  | f2i => 0x8b
  | f2l => 0x8c
  | f2d => 0x8d
  | d2i => 0x8e
  | d2l => 0x8f
  | d2f => 0x90
  | i2b => 0x91
  | i2c => 0x92
  | i2s => 0x93
  | lcmp => 0x94
  | fcmpl => 0x95
  | fcmpg => 0x96
  | dcmpl => 0x97
  | dcmpg => 0x98
  | ireturn => 0xac
  | lreturn => 0xad
  | freturn => 0xae
  | dreturn => 0xaf
  | areturn => 0xb0
  | returnVoid => 0xb1
  | arraylength => 0xbe
  | athrow => 0xbf
  | monitorenter => 0xc2
  | monitorexit => 0xc3

/-- The word for an instruction. -/
def mnemonic : Op → String
  | nop => "nop"
  | aconstNull => "aconst_null"
  | iconstM1 => "iconst_m1"
  | iconst0 => "iconst_0"
  | iconst1 => "iconst_1"
  | iconst2 => "iconst_2"
  | iconst3 => "iconst_3"
  | iconst4 => "iconst_4"
  | iconst5 => "iconst_5"
  | lconst0 => "lconst_0"
  | lconst1 => "lconst_1"
  | fconst0 => "fconst_0"
  | fconst1 => "fconst_1"
  | fconst2 => "fconst_2"
  | dconst0 => "dconst_0"
  | dconst1 => "dconst_1"
  | iaload => "iaload"
  | laload => "laload"
  | faload => "faload"
  | daload => "daload"
  | aaload => "aaload"
  | baload => "baload"
  | caload => "caload"
  | saload => "saload"
  | iastore => "iastore"
  | lastore => "lastore"
  | fastore => "fastore"
  | dastore => "dastore"
  | aastore => "aastore"
  | bastore => "bastore"
  | castore => "castore"
  | sastore => "sastore"
  | pop => "pop"
  | pop2 => "pop2"
  | dup => "dup"
  | dupX1 => "dup_x1"
  | dupX2 => "dup_x2"
  | dup2 => "dup2"
  | dup2X1 => "dup2_x1"
  | dup2X2 => "dup2_x2"
  | swap => "swap"
  | iadd => "iadd"
  | ladd => "ladd"
  | fadd => "fadd"
  | dadd => "dadd"
  | isub => "isub"
  | lsub => "lsub"
  | fsub => "fsub"
  | dsub => "dsub"
  | imul => "imul"
  | lmul => "lmul"
  | fmul => "fmul"
  | dmul => "dmul"
  | idiv => "idiv"
  | ldiv => "ldiv"
  | fdiv => "fdiv"
  | ddiv => "ddiv"
  | irem => "irem"
  | lrem => "lrem"
  | frem => "frem"
  | drem => "drem"
  | ineg => "ineg"
  | lneg => "lneg"
  | fneg => "fneg"
  | dneg => "dneg"
  | ishl => "ishl"
  | lshl => "lshl"
  | ishr => "ishr"
  | lshr => "lshr"
  | iushr => "iushr"
  | lushr => "lushr"
  | iand => "iand"
  | land => "land"
  | ior => "ior"
  | lor => "lor"
  | ixor => "ixor"
  | lxor => "lxor"
  | i2l => "i2l"
  | i2f => "i2f"
  | i2d => "i2d"
  | l2i => "l2i"
  | l2f => "l2f"
  | l2d => "l2d"
  | f2i => "f2i"
  | f2l => "f2l"
  | f2d => "f2d"
  | d2i => "d2i"
  | d2l => "d2l"
  | d2f => "d2f"
  | i2b => "i2b"
  | i2c => "i2c"
  | i2s => "i2s"
  | lcmp => "lcmp"
  | fcmpl => "fcmpl"
  | fcmpg => "fcmpg"
  | dcmpl => "dcmpl"
  | dcmpg => "dcmpg"
  | ireturn => "ireturn"
  | lreturn => "lreturn"
  | freturn => "freturn"
  | dreturn => "dreturn"
  | areturn => "areturn"
  | returnVoid => "return"
  | arraylength => "arraylength"
  | athrow => "athrow"
  | monitorenter => "monitorenter"
  | monitorexit => "monitorexit"

/-- The instruction of an opcode, if it is one of those without operands. -/
def ofOpcode? : UInt8 → Option Op
  | 0x00 => some nop
  | 0x01 => some aconstNull
  | 0x02 => some iconstM1
  | 0x03 => some iconst0
  | 0x04 => some iconst1
  | 0x05 => some iconst2
  | 0x06 => some iconst3
  | 0x07 => some iconst4
  | 0x08 => some iconst5
  | 0x09 => some lconst0
  | 0x0a => some lconst1
  | 0x0b => some fconst0
  | 0x0c => some fconst1
  | 0x0d => some fconst2
  | 0x0e => some dconst0
  | 0x0f => some dconst1
  | 0x2e => some iaload
  | 0x2f => some laload
  | 0x30 => some faload
  | 0x31 => some daload
  | 0x32 => some aaload
  | 0x33 => some baload
  | 0x34 => some caload
  | 0x35 => some saload
  | 0x4f => some iastore
  | 0x50 => some lastore
  | 0x51 => some fastore
  | 0x52 => some dastore
  | 0x53 => some aastore
  | 0x54 => some bastore
  | 0x55 => some castore
  | 0x56 => some sastore
  | 0x57 => some pop
  | 0x58 => some pop2
  | 0x59 => some dup
  | 0x5a => some dupX1
  | 0x5b => some dupX2
  | 0x5c => some dup2
  | 0x5d => some dup2X1
  | 0x5e => some dup2X2
  | 0x5f => some swap
  | 0x60 => some iadd
  | 0x61 => some ladd
  | 0x62 => some fadd
  | 0x63 => some dadd
  | 0x64 => some isub
  | 0x65 => some lsub
  | 0x66 => some fsub
  | 0x67 => some dsub
  | 0x68 => some imul
  | 0x69 => some lmul
  | 0x6a => some fmul
  | 0x6b => some dmul
  | 0x6c => some idiv
  | 0x6d => some ldiv
  | 0x6e => some fdiv
  | 0x6f => some ddiv
  | 0x70 => some irem
  | 0x71 => some lrem
  | 0x72 => some frem
  | 0x73 => some drem
  | 0x74 => some ineg
  | 0x75 => some lneg
  | 0x76 => some fneg
  | 0x77 => some dneg
  | 0x78 => some ishl
  | 0x79 => some lshl
  | 0x7a => some ishr
  | 0x7b => some lshr
  | 0x7c => some iushr
  | 0x7d => some lushr
  | 0x7e => some iand
  | 0x7f => some land
  | 0x80 => some ior
  | 0x81 => some lor
  | 0x82 => some ixor
  | 0x83 => some lxor
  | 0x85 => some i2l
  | 0x86 => some i2f
  | 0x87 => some i2d
  | 0x88 => some l2i
  | 0x89 => some l2f
  | 0x8a => some l2d
  | 0x8b => some f2i
  | 0x8c => some f2l
  | 0x8d => some f2d
  | 0x8e => some d2i
  | 0x8f => some d2l
  | 0x90 => some d2f
  | 0x91 => some i2b
  | 0x92 => some i2c
  | 0x93 => some i2s
  | 0x94 => some lcmp
  | 0x95 => some fcmpl
  | 0x96 => some fcmpg
  | 0x97 => some dcmpl
  | 0x98 => some dcmpg
  | 0xac => some ireturn
  | 0xad => some lreturn
  | 0xae => some freturn
  | 0xaf => some dreturn
  | 0xb0 => some areturn
  | 0xb1 => some returnVoid
  | 0xbe => some arraylength
  | 0xbf => some athrow
  | 0xc2 => some monitorenter
  | 0xc3 => some monitorexit
  | _ => none

/-- Every opcode leads back to its instruction. -/
@[simp] theorem ofOpcode?_opcode (op : Op) : ofOpcode? op.opcode = some op := by
  cases op <;> rfl

/-- All instructions without operands, in the order of their opcodes. -/
def all : List Op :=
  [.nop, .aconstNull, .iconstM1, .iconst0, .iconst1, .iconst2, .iconst3, .iconst4,
    .iconst5, .lconst0, .lconst1, .fconst0, .fconst1, .fconst2, .dconst0, .dconst1, .iaload,
    .laload, .faload, .daload, .aaload, .baload, .caload, .saload, .iastore, .lastore,
    .fastore, .dastore, .aastore, .bastore, .castore, .sastore, .pop, .pop2, .dup, .dupX1,
    .dupX2, .dup2, .dup2X1, .dup2X2, .swap, .iadd, .ladd, .fadd, .dadd, .isub, .lsub, .fsub,
    .dsub, .imul, .lmul, .fmul, .dmul, .idiv, .ldiv, .fdiv, .ddiv, .irem, .lrem, .frem,
    .drem, .ineg, .lneg, .fneg, .dneg, .ishl, .lshl, .ishr, .lshr, .iushr, .lushr, .iand,
    .land, .ior, .lor, .ixor, .lxor, .i2l, .i2f, .i2d, .l2i, .l2f, .l2d, .f2i, .f2l, .f2d,
    .d2i, .d2l, .d2f, .i2b, .i2c, .i2s, .lcmp, .fcmpl, .fcmpg, .dcmpl, .dcmpg, .ireturn,
    .lreturn, .freturn, .dreturn, .areturn, .returnVoid, .arraylength, .athrow,
    .monitorenter, .monitorexit]

/-- The instruction with the given word, if it is one of those without operands. -/
def ofMnemonic? (word : String) : Option Op :=
  all.find? fun op => op.mnemonic == word

end Op

end Downlevel
