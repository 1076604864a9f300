import ClassFoundry.Instruction.Format
import ClassFoundry.Kind
import ClassFoundry.Syntax.Program

/-!
# The meaning of instructions

Many opcodes differ only in how they are written. An action says what an instruction does, with
its operands resolved, and is what the machine executes. Most actions concern only the frame of
the call they occur in.

## Main definitions

* `FrameOp`, `Action`: what an instruction does
* `Instruction.action?`: the meaning of an instruction, if the machine implements it
* `Opcode.effect?`: the words popped and pushed by an instruction without operands
-/

namespace ClassFoundry

/-- Binary operations of one kind. -/
inductive BinOp where
  | add
  | sub
  | mul
  | div
  | rem
  | and
  | or
  | xor
deriving DecidableEq

/-- Shifts. -/
inductive ShiftOp where
  | left
  | right
  | unsignedRight
deriving DecidableEq

/-- Conversions of an int to a narrower range. -/
inductive IntCast where
  | byte
  | char
  | short
deriving DecidableEq

/-- Ways to call a method. -/
inductive CallMode where
  | virtual
  | special
  | static
deriving DecidableEq

/-- What an instruction does to its frame. Offsets of branches are relative to the branch. -/
inductive FrameOp where
  | nop
  | pushNull
  | pushInt (value : Int32)
  | pushLong (value : Int64)
  | pushConstant (index : UInt16)
  | load (kind : Kind) (slot : Nat)
  | store (kind : Kind) (slot : Nat)
  | pop
  | pop2
  | dup
  | intOp (op : BinOp)
  | longOp (op : BinOp)
  | intShift (op : ShiftOp)
  | longShift (op : ShiftOp)
  | intNeg
  | longNeg
  | intToLong
  | longToInt
  | intCast (cast : IntCast)
  | longCompare
  | branchZero (test : Comparison) (offset : UInt16)
  | branchInts (test : Comparison) (offset : UInt16)
  | branchRefs (same : Bool) (offset : UInt16)
  | jump (offset : UInt16)
  | getStatic (index : UInt16)
deriving DecidableEq

/-- **Actions**: what an instruction does. -/
inductive Action where
  | frame (op : FrameOp)
  | ret (kind : Option Kind)
  | invoke (mode : CallMode) (index : UInt16)
  | new (index : UInt16)
deriving DecidableEq

namespace Opcode

/-- What an instruction without operands does to its frame. -/
def plainOp? : Opcode → Option FrameOp
  | nop => some .nop
  | aconst_null => some .pushNull
  | iconst_m1 => some (.pushInt (-1))
  | iconst_0 => some (.pushInt 0)
  | iconst_1 => some (.pushInt 1)
  | iconst_2 => some (.pushInt 2)
  | iconst_3 => some (.pushInt 3)
  | iconst_4 => some (.pushInt 4)
  | iconst_5 => some (.pushInt 5)
  | lconst_0 => some (.pushLong 0)
  | lconst_1 => some (.pushLong 1)
  | iload_0 => some (.load .int 0)
  | iload_1 => some (.load .int 1)
  | iload_2 => some (.load .int 2)
  | iload_3 => some (.load .int 3)
  | lload_0 => some (.load .long 0)
  | lload_1 => some (.load .long 1)
  | lload_2 => some (.load .long 2)
  | lload_3 => some (.load .long 3)
  | aload_0 => some (.load .reference 0)
  | aload_1 => some (.load .reference 1)
  | aload_2 => some (.load .reference 2)
  | aload_3 => some (.load .reference 3)
  | istore_0 => some (.store .int 0)
  | istore_1 => some (.store .int 1)
  | istore_2 => some (.store .int 2)
  | istore_3 => some (.store .int 3)
  | lstore_0 => some (.store .long 0)
  | lstore_1 => some (.store .long 1)
  | lstore_2 => some (.store .long 2)
  | lstore_3 => some (.store .long 3)
  | astore_0 => some (.store .reference 0)
  | astore_1 => some (.store .reference 1)
  | astore_2 => some (.store .reference 2)
  | astore_3 => some (.store .reference 3)
  | pop => some .pop
  | pop2 => some .pop2
  | dup => some .dup
  | iadd => some (.intOp .add)
  | ladd => some (.longOp .add)
  | isub => some (.intOp .sub)
  | lsub => some (.longOp .sub)
  | imul => some (.intOp .mul)
  | lmul => some (.longOp .mul)
  | idiv => some (.intOp .div)
  | ldiv => some (.longOp .div)
  | irem => some (.intOp .rem)
  | lrem => some (.longOp .rem)
  | ineg => some .intNeg
  | lneg => some .longNeg
  | ishl => some (.intShift .left)
  | lshl => some (.longShift .left)
  | ishr => some (.intShift .right)
  | lshr => some (.longShift .right)
  | iushr => some (.intShift .unsignedRight)
  | lushr => some (.longShift .unsignedRight)
  | iand => some (.intOp .and)
  | land => some (.longOp .and)
  | ior => some (.intOp .or)
  | lor => some (.longOp .or)
  | ixor => some (.intOp .xor)
  | lxor => some (.longOp .xor)
  | i2l => some .intToLong
  | l2i => some .longToInt
  | i2b => some (.intCast .byte)
  | i2c => some (.intCast .char)
  | i2s => some (.intCast .short)
  | lcmp => some .longCompare
  | _ => none

/-- The meaning of an instruction without operands. -/
def plainAction? (op : Opcode) : Option Action :=
  match op with
  | ireturn => some (.ret (some .int))
  | lreturn => some (.ret (some .long))
  | areturn => some (.ret (some .reference))
  | vreturn => some (.ret none)
  | _ => (plainOp? op).map .frame

/-- The meaning of a load or store of the given slot. -/
def localOp? (op : Opcode) (slot : Nat) : Option FrameOp :=
  match op with
  | iload => some (.load .int slot)
  | lload => some (.load .long slot)
  | aload => some (.load .reference slot)
  | istore => some (.store .int slot)
  | lstore => some (.store .long slot)
  | astore => some (.store .reference slot)
  | _ => none

/-- What an instruction with a one-byte operand does to its frame. -/
def byteOp? (op : Opcode) (operand : UInt8) : Option FrameOp :=
  match op with
  | bipush => some (.pushInt operand.toInt8.toInt32)
  | ldc => some (.pushConstant operand.toUInt16)
  | _ => localOp? op operand.toNat

/-- What an instruction with a two-byte operand does to its frame. -/
def shortOp? (op : Opcode) (operand : UInt16) : Option FrameOp :=
  match op with
  | sipush => some (.pushInt operand.toInt16.toInt32)
  | ldc_w | ldc2_w => some (.pushConstant operand)
  | ifeq => some (.branchZero .eq operand)
  | ifne => some (.branchZero .ne operand)
  | iflt => some (.branchZero .lt operand)
  | ifge => some (.branchZero .ge operand)
  | ifgt => some (.branchZero .gt operand)
  | ifle => some (.branchZero .le operand)
  | if_icmpeq => some (.branchInts .eq operand)
  | if_icmpne => some (.branchInts .ne operand)
  | if_icmplt => some (.branchInts .lt operand)
  | if_icmpge => some (.branchInts .ge operand)
  | if_icmpgt => some (.branchInts .gt operand)
  | if_icmple => some (.branchInts .le operand)
  | if_acmpeq => some (.branchRefs true operand)
  | if_acmpne => some (.branchRefs false operand)
  | goto => some (.jump operand)
  | getstatic => some (.getStatic operand)
  | _ => none

/-- The meaning of an instruction with a two-byte operand. -/
def shortAction? (op : Opcode) (operand : UInt16) : Option Action :=
  match op with
  | invokevirtual => some (.invoke .virtual operand)
  | invokespecial => some (.invoke .special operand)
  | invokestatic => some (.invoke .static operand)
  | new => some (.new operand)
  | _ => (shortOp? op operand).map .frame

end Opcode

/-- The meaning of an instruction, if the machine implements it. -/
def Instruction.action? : Instruction → Option Action
  | .plain op => op.plainAction?
  | .byte op operand => (op.byteOp? operand).map .frame
  | .short op operand => op.shortAction? operand
  | .wide op slot => (op.localOp? slot.toNat).map .frame

/-- The opcode that a fault is blamed on. -/
def Instruction.opcode : Instruction → Opcode
  | .plain op => op
  | .byte op _ => op
  | .short op _ => op
  | .wide op _ => op

/-- The words an operation pops and pushes, where they do not depend on an operand. -/
def FrameOp.effect? : FrameOp → Option (Nat × Nat)
  | .nop => some (0, 0)
  | .pushNull | .pushInt _ => some (0, 1)
  | .pushLong _ => some (0, 2)
  | .pop => some (1, 0)
  | .pop2 => some (2, 0)
  | .dup => some (1, 2)
  | .intOp _ | .intShift _ => some (2, 1)
  | .longOp _ => some (4, 2)
  | .longShift _ => some (3, 2)
  | .intNeg | .intCast _ => some (1, 1)
  | .longNeg => some (2, 2)
  | .intToLong => some (1, 2)
  | .longToInt => some (2, 1)
  | .longCompare => some (4, 1)
  | _ => none

/-- The words an action pops and pushes, where they do not depend on an operand. -/
def Action.effect? : Action → Option (Nat × Nat)
  | .frame op => op.effect?
  | .ret none => some (0, 0)
  | .ret (some k) => some (k.words, 0)
  | _ => none

/-- The words popped and pushed by an instruction without operands. -/
def Opcode.effect? (op : Opcode) : Option (Nat × Nat) :=
  op.plainAction?.bind Action.effect?

/-- The words popped by a branch. -/
def Opcode.branchPops (op : Opcode) : Nat :=
  if Opcode.ifeq ≤ op && op ≤ Opcode.ifle then 1
  else if Opcode.if_icmpeq ≤ op && op ≤ Opcode.if_acmpne then 2
  else 0

end ClassFoundry
