import ClassFoundry.Bytes
import ClassFoundry.Instruction.Opcode

/-!
# Instruction formats

An instruction is an opcode and its operands. There are four formats: no operand, one byte, two
bytes, and the wide form, in which a load or store stands after a leading byte and its slot takes
two bytes.

## Main definitions

* `Instruction`: an instruction by its format
* `Instruction.encode`, `Instruction.length`: its bytes
* `decodeAt`: the instruction at an offset of a code array
* `sweep`: the instructions of a code array from offset 0 on, one after the other
-/

namespace ClassFoundry

/-- **Instructions** by their format. -/
inductive Instruction where
  | plain (op : Opcode)
  | byte (op : Opcode) (operand : UInt8)
  | short (op : Opcode) (operand : UInt16)
  | wide (op : Opcode) (slot : UInt16)
deriving DecidableEq

/-- The formats. -/
inductive Format where
  | plain
  | byte
  | short
  | wide
deriving DecidableEq

/-- The length of an instruction, operands included. -/
def Format.length : Format → Nat
  | .plain => 1
  | .byte => 2
  | .short => 3
  | .wide => 4

namespace Instruction

/-- The format of an instruction. -/
def format : Instruction → Format
  | .plain _ => .plain
  | .byte _ _ => .byte
  | .short _ _ => .short
  | .wide _ _ => .wide

/-- The length of an instruction, operands included. -/
def length (i : Instruction) : Nat := i.format.length

/-- The bytes of an instruction. -/
def encode : Instruction → Bytes
  | .plain op => [op]
  | .byte op operand => [op, operand]
  | .short op operand => op :: be16 operand
  | .wide op slot => Opcode.wide :: op :: be16 slot

theorem length_encode (i : Instruction) : i.encode.length = i.length := by
  cases i <;> rfl

end Instruction

/-- The format that goes with an opcode other than the wide one. Between the first and the last
of a family also the codes are known that nothing else here handles. -/
def Opcode.format? (op : Opcode) : Option Format :=
  if op ≤ Opcode.lconst_1
      || (Opcode.iload_0 ≤ op && op ≤ Opcode.aload_3)
      || (Opcode.istore_0 ≤ op && op ≤ Opcode.astore_3)
      || (Opcode.pop ≤ op && op ≤ Opcode.dup)
      || (Opcode.iadd ≤ op && op ≤ Opcode.lxor)
      || op == Opcode.i2l || op == Opcode.l2i || (Opcode.i2b ≤ op && op ≤ Opcode.lcmp)
      || op == Opcode.ireturn || op == Opcode.lreturn || op == Opcode.areturn
      || op == Opcode.vreturn then some .plain
  else if op == Opcode.bipush || op == Opcode.ldc || op.isIndexedLocal then some .byte
  else if op == Opcode.sipush || op == Opcode.ldc_w || op == Opcode.ldc2_w || op.isBranch
      || op == Opcode.getstatic || (Opcode.invokevirtual ≤ op && op ≤ Opcode.invokestatic)
      || op == Opcode.new then some .short
  else none

/-- Method code: an array of bytes. -/
abbrev CodeArray := Array UInt8

/-- The big-endian word at an offset. -/
def wordAt? (code : CodeArray) (at_ : Nat) : Option UInt16 :=
  match code[at_]?, code[at_ + 1]? with
  | some hi, some lo => some (ofBe16 hi lo)
  | _, _ => none

/-- The format of the instruction at an offset. -/
def formatAt? (code : CodeArray) (pc : Nat) : Option Format :=
  match code[pc]? with
  | none => none
  | some op =>
    if op = Opcode.wide then
      match code[pc + 1]? with
      | some inner => if Opcode.isIndexedLocal inner then some .wide else none
      | none => none
    else Opcode.format? op

/-- The length of the instruction at an offset, whether or not its operands are all there. -/
def lengthAt? (code : CodeArray) (pc : Nat) : Option Nat :=
  (formatAt? code pc).map Format.length

/-- Why there is no instruction at an offset. -/
inductive Malformed where
  /-- The offset is not inside the code. -/
  | outside
  /-- The opcode is not known, or not known to have a wide form. -/
  | unknown (op : Opcode)
  /-- The code ends before the last operand. -/
  | truncated
deriving DecidableEq

/-- The instruction at an offset. -/
def decodeAt (code : CodeArray) (pc : Nat) : Except Malformed Instruction :=
  match code[pc]? with
  | none => .error .outside
  | some op =>
    match formatAt? code pc with
    | none => .error (.unknown op)
    | some .plain => .ok (.plain op)
    | some .byte =>
      match code[pc + 1]? with
      | some operand => .ok (.byte op operand)
      | none => .error .truncated
    | some .short =>
      match wordAt? code (pc + 1) with
      | some operand => .ok (.short op operand)
      | none => .error .truncated
    | some .wide =>
      match code[pc + 1]?, wordAt? code (pc + 2) with
      | some inner, some slot => .ok (.wide inner slot)
      | _, _ => .error .truncated

/-- The outcome of a sweep: the instructions with their offsets, and where and why it stopped
before the end of the code. -/
structure Sweep where
  instructions : Array (Nat × Instruction)
  fault : Option (Nat × Malformed)

/-- The sweep from `pc` on; `fuel` bounds the number of instructions. -/
def sweepFrom (code : CodeArray) : (fuel pc : Nat) → Array (Nat × Instruction) → Sweep
  | 0, _, acc => ⟨acc, none⟩
  | fuel + 1, pc, acc =>
    if pc < code.size then
      match decodeAt code pc with
      | .ok i => sweepFrom code fuel (pc + i.length) (acc.push (pc, i))
      | .error e => ⟨acc, some (pc, e)⟩
    else ⟨acc, none⟩

/-- **The linear sweep**: each instruction starts where the one before it ends. No instruction
is empty, so there are at most as many as bytes. -/
def sweep (code : CodeArray) : Sweep := sweepFrom code code.size 0 #[]

/-- The target of a branch at `pc` with the given operand. -/
def branchTarget (pc : Nat) (operand : UInt16) : Int := pc + operand.toInt16.toInt

end ClassFoundry
