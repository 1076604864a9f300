/-!
# Opcodes

The instruction codes of the virtual machine that the compiler and the machine know, with their
mnemonics. The numbers and names are those of the Java Virtual Machine Specification.

## Main definitions

* `Opcode`: a code, one byte
* `Opcode.mnemonic`: its name
* `Opcode.isBranch`, `Opcode.isTerminal`, `Opcode.negate?`: control transfers
-/

namespace ClassFoundry

/-- An instruction code. -/
abbrev Opcode := UInt8

namespace Opcode

@[match_pattern] abbrev nop : Opcode := 0x00
@[match_pattern] abbrev aconst_null : Opcode := 0x01
@[match_pattern] abbrev iconst_m1 : Opcode := 0x02
@[match_pattern] abbrev iconst_0 : Opcode := 0x03
@[match_pattern] abbrev iconst_1 : Opcode := 0x04
@[match_pattern] abbrev iconst_2 : Opcode := 0x05
@[match_pattern] abbrev iconst_3 : Opcode := 0x06
@[match_pattern] abbrev iconst_4 : Opcode := 0x07
@[match_pattern] abbrev iconst_5 : Opcode := 0x08
@[match_pattern] abbrev lconst_0 : Opcode := 0x09
@[match_pattern] abbrev lconst_1 : Opcode := 0x0a
@[match_pattern] abbrev bipush : Opcode := 0x10
@[match_pattern] abbrev sipush : Opcode := 0x11
@[match_pattern] abbrev ldc : Opcode := 0x12
@[match_pattern] abbrev ldc_w : Opcode := 0x13
@[match_pattern] abbrev ldc2_w : Opcode := 0x14
@[match_pattern] abbrev iload : Opcode := 0x15
@[match_pattern] abbrev lload : Opcode := 0x16
@[match_pattern] abbrev aload : Opcode := 0x19
@[match_pattern] abbrev iload_0 : Opcode := 0x1a
@[match_pattern] abbrev iload_1 : Opcode := 0x1b
@[match_pattern] abbrev iload_2 : Opcode := 0x1c
@[match_pattern] abbrev iload_3 : Opcode := 0x1d
@[match_pattern] abbrev lload_0 : Opcode := 0x1e
@[match_pattern] abbrev lload_1 : Opcode := 0x1f
@[match_pattern] abbrev lload_2 : Opcode := 0x20
@[match_pattern] abbrev lload_3 : Opcode := 0x21
@[match_pattern] abbrev aload_0 : Opcode := 0x2a
@[match_pattern] abbrev aload_1 : Opcode := 0x2b
@[match_pattern] abbrev aload_2 : Opcode := 0x2c
@[match_pattern] abbrev aload_3 : Opcode := 0x2d
@[match_pattern] abbrev istore : Opcode := 0x36
@[match_pattern] abbrev lstore : Opcode := 0x37
@[match_pattern] abbrev astore : Opcode := 0x3a
@[match_pattern] abbrev istore_0 : Opcode := 0x3b
@[match_pattern] abbrev istore_1 : Opcode := 0x3c
@[match_pattern] abbrev istore_2 : Opcode := 0x3d
@[match_pattern] abbrev istore_3 : Opcode := 0x3e
@[match_pattern] abbrev lstore_0 : Opcode := 0x3f
@[match_pattern] abbrev lstore_1 : Opcode := 0x40
@[match_pattern] abbrev lstore_2 : Opcode := 0x41
@[match_pattern] abbrev lstore_3 : Opcode := 0x42
@[match_pattern] abbrev astore_0 : Opcode := 0x4b
@[match_pattern] abbrev astore_1 : Opcode := 0x4c
@[match_pattern] abbrev astore_2 : Opcode := 0x4d
@[match_pattern] abbrev astore_3 : Opcode := 0x4e
@[match_pattern] abbrev pop : Opcode := 0x57
@[match_pattern] abbrev pop2 : Opcode := 0x58
@[match_pattern] abbrev dup : Opcode := 0x59
@[match_pattern] abbrev iadd : Opcode := 0x60
@[match_pattern] abbrev ladd : Opcode := 0x61
@[match_pattern] abbrev isub : Opcode := 0x64
@[match_pattern] abbrev lsub : Opcode := 0x65
@[match_pattern] abbrev imul : Opcode := 0x68
@[match_pattern] abbrev lmul : Opcode := 0x69
@[match_pattern] abbrev idiv : Opcode := 0x6c
@[match_pattern] abbrev ldiv : Opcode := 0x6d
@[match_pattern] abbrev irem : Opcode := 0x70
@[match_pattern] abbrev lrem : Opcode := 0x71
@[match_pattern] abbrev ineg : Opcode := 0x74
@[match_pattern] abbrev lneg : Opcode := 0x75
@[match_pattern] abbrev ishl : Opcode := 0x78
@[match_pattern] abbrev lshl : Opcode := 0x79
@[match_pattern] abbrev ishr : Opcode := 0x7a
@[match_pattern] abbrev lshr : Opcode := 0x7b
@[match_pattern] abbrev iushr : Opcode := 0x7c
@[match_pattern] abbrev lushr : Opcode := 0x7d
@[match_pattern] abbrev iand : Opcode := 0x7e
@[match_pattern] abbrev land : Opcode := 0x7f
@[match_pattern] abbrev ior : Opcode := 0x80
@[match_pattern] abbrev lor : Opcode := 0x81
@[match_pattern] abbrev ixor : Opcode := 0x82
@[match_pattern] abbrev lxor : Opcode := 0x83
@[match_pattern] abbrev i2l : Opcode := 0x85
@[match_pattern] abbrev l2i : Opcode := 0x88
@[match_pattern] abbrev i2b : Opcode := 0x91
@[match_pattern] abbrev i2c : Opcode := 0x92
@[match_pattern] abbrev i2s : Opcode := 0x93
@[match_pattern] abbrev lcmp : Opcode := 0x94
@[match_pattern] abbrev ifeq : Opcode := 0x99
@[match_pattern] abbrev ifne : Opcode := 0x9a
@[match_pattern] abbrev iflt : Opcode := 0x9b
@[match_pattern] abbrev ifge : Opcode := 0x9c
@[match_pattern] abbrev ifgt : Opcode := 0x9d
@[match_pattern] abbrev ifle : Opcode := 0x9e
@[match_pattern] abbrev if_icmpeq : Opcode := 0x9f
@[match_pattern] abbrev if_icmpne : Opcode := 0xa0
@[match_pattern] abbrev if_icmplt : Opcode := 0xa1
@[match_pattern] abbrev if_icmpge : Opcode := 0xa2
@[match_pattern] abbrev if_icmpgt : Opcode := 0xa3
@[match_pattern] abbrev if_icmple : Opcode := 0xa4
@[match_pattern] abbrev if_acmpeq : Opcode := 0xa5
@[match_pattern] abbrev if_acmpne : Opcode := 0xa6
@[match_pattern] abbrev goto : Opcode := 0xa7
@[match_pattern] abbrev ireturn : Opcode := 0xac
@[match_pattern] abbrev lreturn : Opcode := 0xad
@[match_pattern] abbrev areturn : Opcode := 0xb0
@[match_pattern] abbrev vreturn : Opcode := 0xb1
@[match_pattern] abbrev getstatic : Opcode := 0xb2
@[match_pattern] abbrev invokevirtual : Opcode := 0xb6
@[match_pattern] abbrev invokespecial : Opcode := 0xb7
@[match_pattern] abbrev invokestatic : Opcode := 0xb8
@[match_pattern] abbrev new : Opcode := 0xbb
@[match_pattern] abbrev wide : Opcode := 0xc4

/-- The name of an opcode in listings. -/
def mnemonic : Opcode → String
  | nop => "nop"
  | aconst_null => "aconst_null"
  | iconst_m1 => "iconst_m1"
  | iconst_0 => "iconst_0"
  | iconst_1 => "iconst_1"
  | iconst_2 => "iconst_2"
  | iconst_3 => "iconst_3"
  | iconst_4 => "iconst_4"
  | iconst_5 => "iconst_5"
  | lconst_0 => "lconst_0"
  | lconst_1 => "lconst_1"
  | bipush => "bipush"
  | sipush => "sipush"
  | ldc => "ldc"
  | ldc_w => "ldc_w"
  | ldc2_w => "ldc2_w"
  | iload => "iload"
  | lload => "lload"
  | aload => "aload"
  | iload_0 => "iload_0"
  | iload_1 => "iload_1"
  | iload_2 => "iload_2"
  | iload_3 => "iload_3"
  | lload_0 => "lload_0"
  | lload_1 => "lload_1"
  | lload_2 => "lload_2"
  | lload_3 => "lload_3"
  | aload_0 => "aload_0"
  | aload_1 => "aload_1"
  | aload_2 => "aload_2"
  | aload_3 => "aload_3"
  | istore => "istore"
  | lstore => "lstore"
  | astore => "astore"
  | istore_0 => "istore_0"
  | istore_1 => "istore_1"
  | istore_2 => "istore_2"
  | istore_3 => "istore_3"
  | lstore_0 => "lstore_0"
  | lstore_1 => "lstore_1"
  | lstore_2 => "lstore_2"
  | lstore_3 => "lstore_3"
  | astore_0 => "astore_0"
  | astore_1 => "astore_1"
  | astore_2 => "astore_2"
  | astore_3 => "astore_3"
  | pop => "pop"
  | pop2 => "pop2"
  | dup => "dup"
  | iadd => "iadd"
  | ladd => "ladd"
  | isub => "isub"
  | lsub => "lsub"
  | imul => "imul"
  | lmul => "lmul"
  | idiv => "idiv"
  | ldiv => "ldiv"
  | irem => "irem"
  | lrem => "lrem"
  | ineg => "ineg"
  | lneg => "lneg"
  | ishl => "ishl"
  | lshl => "lshl"
  | ishr => "ishr"
  | lshr => "lshr"
  | iushr => "iushr"
  | lushr => "lushr"
  | iand => "iand"
  | land => "land"
  | ior => "ior"
  | lor => "lor"
  | ixor => "ixor"
  | lxor => "lxor"
  | i2l => "i2l"
  | l2i => "l2i"
  | i2b => "i2b"
  | i2c => "i2c"
  | i2s => "i2s"
  | lcmp => "lcmp"
  | ifeq => "ifeq"
  | ifne => "ifne"
  | iflt => "iflt"
  | ifge => "ifge"
  | ifgt => "ifgt"
  | ifle => "ifle"
  | if_icmpeq => "if_icmpeq"
  | if_icmpne => "if_icmpne"
  | if_icmplt => "if_icmplt"
  | if_icmpge => "if_icmpge"
  | if_icmpgt => "if_icmpgt"
  | if_icmple => "if_icmple"
  | if_acmpeq => "if_acmpeq"
  | if_acmpne => "if_acmpne"
  | goto => "goto"
  | ireturn => "ireturn"
  | lreturn => "lreturn"
  | areturn => "areturn"
  | vreturn => "return"
  | getstatic => "getstatic"
  | invokevirtual => "invokevirtual"
  | invokespecial => "invokespecial"
  | invokestatic => "invokestatic"
  | new => "new"
  | wide => "wide"
  | _ => "<unknown>"

/-- The conditional branch taken exactly when `op` is not. -/
def negate? : Opcode → Option Opcode
  | ifeq => some ifne
  | ifne => some ifeq
  | iflt => some ifge
  | ifge => some iflt
  | ifgt => some ifle
  | ifle => some ifgt
  | if_icmpeq => some if_icmpne
  | if_icmpne => some if_icmpeq
  | if_icmplt => some if_icmpge
  | if_icmpge => some if_icmplt
  | if_icmpgt => some if_icmple
  | if_icmple => some if_icmpgt
  | if_acmpeq => some if_acmpne
  | if_acmpne => some if_acmpeq
  | _ => none

/-- A branch with a 16-bit relative offset. -/
def isBranch (op : Opcode) : Bool := ifeq ≤ op && op ≤ goto

/-- An instruction after which the next one is not executed. -/
def isTerminal : Opcode → Bool
  | ireturn | lreturn | areturn | vreturn | goto => true
  | _ => false

/-- A load or store with the slot as its operand; these take a wide form. -/
def isIndexedLocal : Opcode → Bool
  | iload | lload | aload | istore | lstore | astore => true
  | _ => false

end Opcode

end ClassFoundry
