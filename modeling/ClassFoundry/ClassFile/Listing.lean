import ClassFoundry.ClassFile.Basic
import ClassFoundry.Text.Quoted

/-!
# Listings

A class as text: the constant pool, then every method with one instruction per line.

## Main definitions

* `Constant.describe`: a constant, with what it refers to
* `listCode`: the instructions of a method body
* `ClassFile.listing`: a whole class
-/

namespace ClassFoundry

/-- The index of a constant in a listing. -/
def indexText (index : UInt16) : String := "#" ++ toString index.toNat

/-- The text at an index, or a question mark. -/
def ConstantPool.textOr (pool : ConstantPool) (index : UInt16) : String :=
  (pool.text? index).getD "?"

/-- The member that a reference names, or a question mark. -/
def ConstantPool.memberText (pool : ConstantPool) (cls nameAndType : UInt16) : String :=
  match pool.memberOf? cls nameAndType with
  | some m => m.owner ++ "." ++ m.name ++ ":" ++ m.descriptor
  | none => "?"

/-- A constant, and after two slashes what its indices stand for. -/
def Constant.describe (pool : ConstantPool) (c : Constant) : String :=
  match c with
  | .utf8 text => "Utf8 " ++ text
  | .integer value => "Integer " ++ toString value.toInt
  | .long value => "Long " ++ toString value.toInt ++ "l"
  | .class name => "Class " ++ indexText name ++ " // " ++ pool.textOr name
  | .string text =>
    "String " ++ indexText text ++ " // " ++ Text.quoteString (pool.textOr text)
  | .fieldRef cls sig | .methodRef cls sig =>
    c.tagName ++ " " ++ indexText cls ++ "." ++ indexText sig ++ " // " ++
      pool.memberText cls sig
  | .nameAndType name descriptor =>
    "NameAndType " ++ indexText name ++ ":" ++ indexText descriptor ++ " // " ++
      pool.textOr name ++ ":" ++ pool.textOr descriptor
  | .unusable => ""

/-- What follows the last pair of slashes and blank in a text; `found` is what follows the last
one so far. -/
def afterSlashesFrom : List Char → List Char → List Char
  | found, [] => found
  | found, c :: cs =>
    match c, cs with
    | '/', '/' :: ' ' :: rest => afterSlashesFrom rest cs
    | _, _ => afterSlashesFrom found cs

/-- What follows the last pair of slashes and blank in a text, or all of it. -/
def afterSlashes (text : String) : String :=
  let cs := text.toList
  String.ofList (afterSlashesFrom cs cs)

/-- The operand of an instruction that refers to a constant. -/
def constantOperand (pool : ConstantPool) (index : UInt16) : String :=
  " " ++ indexText index ++ " // " ++
    match pool.get? index with
    | some c => afterSlashes (c.describe pool)
    | none => "<invalid>"

/-- Whether the two-byte operand of an opcode is an index of the constant pool. -/
def Opcode.takesConstant : Opcode → Bool
  | ldc_w | ldc2_w | getstatic | invokevirtual | invokespecial | invokestatic | new => true
  | _ => false

/-- The operands of an instruction at an offset. -/
def Instruction.operandText (pool : ConstantPool) (pc : Nat) : Instruction → String
  | .plain _ => ""
  | .byte op operand =>
    if op = .bipush then " " ++ toString operand.toInt8.toInt
    else if op = .ldc then constantOperand pool operand.toUInt16
    else " " ++ toString operand.toNat
  | .short op operand =>
    if op = .sipush then " " ++ toString operand.toInt16.toInt
    else if op.takesConstant then constantOperand pool operand
    else " " ++ toString (branchTarget pc operand)
  | .wide op slot => " " ++ op.mnemonic ++ " " ++ toString slot.toNat

/-- The mnemonic in front of an instruction. -/
def Instruction.mnemonic : Instruction → String
  | .plain op => op.mnemonic
  | .byte op _ => op.mnemonic
  | .short op _ => op.mnemonic
  | .wide _ _ => Opcode.wide.mnemonic

/-- The start of a line: the offset, to the right in six columns. -/
def lineHead (pc : Nat) : String := Text.padLeft 6 (toString pc) ++ ": "

/-- **The instructions of a method body**, one per line. The first that cannot be decoded ends
the listing. -/
def listCode (pool : ConstantPool) (code : CodeArray) : String :=
  let s := sweep code
  let lines := s.instructions.foldl (fun out (pc, i) =>
    out ++ lineHead pc ++ i.mnemonic ++ i.operandText pool pc ++ "\n") ""
  match s.fault with
  | none => lines
  | some (pc, _) =>
    lines ++ lineHead pc ++ "<bad opcode 0x" ++ Text.hex 2 (code.getD pc 0).toNat ++ ">\n"

/-- The listing of a method. -/
def Method.listing (pool : ConstantPool) (m : Method) : String :=
  "\n" ++ pool.textOr m.name ++ pool.textOr m.descriptor ++ " flags 0x" ++
    Text.hex 4 m.flags.toNat ++ "\n  stack=" ++ toString m.maxStack.toNat ++ ", locals=" ++
    toString m.maxLocals.toNat ++ "\n" ++ listCode pool m.code

/-- **The listing of a class**. -/
def ClassFile.listing (c : ClassFile) : String :=
  let head := "class " ++ c.name?.getD "?" ++ " extends " ++ c.superName?.getD "?" ++
    "\n  version: " ++ toString c.major.toNat ++ "." ++ toString c.minor.toNat ++
    "\n  flags: 0x" ++ Text.hex 4 c.flags.toNat ++ "\nConstant pool:\n"
  let constants := c.pool.entries.foldl (fun out (i, k) =>
    out ++ "  " ++ Text.padLeft 5 (indexText i) ++ " = " ++ k.describe c.pool ++ "\n") head
  c.methods.foldl (fun out m => out ++ m.listing c.pool) constants

end ClassFoundry
