import ClassFoundry.Assembler.Labels
import ClassFoundry.Instruction.Action
import ClassFoundry.Text.Numeral

/-!
# The assembler

Appends the instructions of one method body and keeps account of the stack depth, its maximum,
and the highest local slot in use. Branches name labels: backward ones are encoded at once,
forward ones are filled in when their label is placed. A finished body has no branch left open.

An operation that fails may have had part of its effect; the state shows it.

## Main definitions

* `Assembler`, `Asm`: the state, and operations on it
* `Asm.plain`, `Asm.load`, `Asm.branch` and their like: the instructions
* `Asm.place`: fixes a label at the current offset
* `Assembler.finish`: the finished body
-/

namespace ClassFoundry

/-- The longest method body. -/
def maxCodeLength : Nat := 65535

/-- The most words that a frame has on its stack, and the most local slots. -/
def maxFrameWords : Nat := 65535

/-- Why an instruction cannot be assembled. -/
inductive AsmError where
  | unresolvedBranch (label : Label)
  | labelAlreadyPlaced (label : Label)
  | branchTooFar (branch target : Nat)
  | codeTooLarge (size : Nat)
  | stackUnderflow (offset : Nat)
  | noStackEffect (op : Opcode)
  /-- The label was not made by this assembler. -/
  | unknownLabel (label : Label)
  /-- The frame would not fit the 16-bit fields that describe it. -/
  | frameTooLarge (words : Nat)
deriving DecidableEq

/-- The wording of an error. -/
def AsmError.message : AsmError → String
  | .unresolvedBranch label =>
    "Label " ++ label.text ++ " was branched to but never placed"
  | .labelAlreadyPlaced label => "Label " ++ label.text ++ " placed twice"
  | .branchTooFar branch target =>
    "Branch at " ++ toString branch ++ " to " ++ toString target ++
      " does not fit a 16-bit offset"
  | .codeTooLarge size => "Method code exceeds 65535 bytes (" ++ toString size ++ " bytes)"
  | .stackUnderflow offset => "Operand stack underflow at offset " ++ toString offset
  | .noStackEffect op => "Opcode 0x" ++ Text.hex 2 op.toNat ++ " has no fixed stack effect"
  | .unknownLabel label => "Label " ++ label.text ++ " does not exist"
  | .frameTooLarge words => "Frame of " ++ toString words ++ " words exceeds 65535 words"

/-- A label error as an assembler error. -/
def AsmError.ofLabelError : LabelError → AsmError
  | .alreadyPlaced label => .labelAlreadyPlaced label
  | .unknown label => .unknownLabel label

/-- A record of an instruction about to be emitted: the offset, the depth before it, the
opcode. -/
structure TraceEntry where
  offset : Nat
  depth : Nat
  op : Opcode
deriving DecidableEq

/-- A line of a trace. -/
def TraceEntry.text (e : TraceEntry) : String :=
  "emit@" ++ toString e.offset ++ " stack=" ++ toString e.depth ++ ": " ++ e.op.mnemonic

/-- **The assembler's state**. -/
structure Assembler where
  code : CodeArray := #[]
  depth : Nat := 0
  maxDepth : Nat := 0
  maxLocals : Nat
  labels : LabelTable := {}
  branches : Array (Nat × Label) := #[]
  /-- False after an unconditional transfer, until a label is placed. -/
  alive : Bool := true
  trace : Array TraceEntry := #[]

/-- The offset of the next instruction. -/
def Assembler.pc (a : Assembler) : Nat := a.code.size

/-- An empty body whose first slots hold the receiver and the parameters. -/
def Assembler.start (initialLocals : Nat) : Assembler where
  maxLocals := initialLocals

/-- Work on a method body; its effects remain when it fails. -/
abbrev Asm := EStateM AsmError Assembler

namespace Asm

/-- The current offset. -/
def pc : Asm Nat := return (← get).pc

/-- Appends bytes. -/
def emit (bytes : Bytes) : Asm Unit :=
  modify fun a => { a with code := bytes.foldl Array.push a.code }

/-- Records an instruction about to be emitted. -/
def record (op : Opcode) : Asm Unit :=
  modify fun a => { a with trace := a.trace.push ⟨a.code.size, a.depth, op⟩ }

/-- Takes words off the stack; `offset` is blamed when there are not enough. -/
def popWords (n offset : Nat) : Asm Unit := fun a =>
  if n ≤ a.depth then .ok () { a with depth := a.depth - n }
  else .error (.stackUnderflow offset) a

/-- Puts words on the stack. -/
def pushWords (n : Nat) : Asm Unit := fun a =>
  if a.depth + n ≤ maxFrameWords then
    .ok () { a with depth := a.depth + n, maxDepth := max a.maxDepth (a.depth + n) }
  else .error (.frameTooLarge (a.depth + n)) a

/-- Marks the code after an unconditional transfer as dead. -/
def endIfTerminal (op : Opcode) : Asm Unit :=
  modify fun a => { a with alive := a.alive && !op.isTerminal }

/-- An instruction with a known stack effect. -/
def instruction (i : Instruction) (pops pushes : Nat) : Asm Unit := do
  record i.opcode
  let offset ← pc
  emit i.encode
  popWords pops offset
  pushWords pushes

/-- An instruction without operands, by the effect its opcode has. -/
def plain (op : Opcode) : Asm Unit := do
  match op.effect? with
  | none => throw (.noStackEffect op)
  | some (pops, pushes) =>
    instruction (.plain op) pops pushes
    endIfTerminal op

/-- An int that needs no constant; false, and no effect, if the value is not small enough. -/
def smallInt (value : Int32) : Asm Bool := do
  let v := value.toInt
  if -1 ≤ v ∧ v ≤ 5 then
    plain (UInt8.ofNat (v + 3).toNat)
    return true
  else if -128 ≤ v ∧ v ≤ 127 then
    instruction (.byte .bipush value.toInt8.toUInt8) 0 1
    return true
  else if -32768 ≤ v ∧ v ≤ 32767 then
    instruction (.short .sipush value.toInt16.toUInt16) 0 1
    return true
  else return false

/-- The constant with an index, of one word. -/
def constant (index : UInt16) : Asm Unit :=
  if index.toNat ≤ 0xff then instruction (.byte .ldc index.toUInt8) 0 1
  else instruction (.short .ldc_w index) 0 1

/-- The long with an index. -/
def longConstant (index : UInt16) : Asm Unit := instruction (.short .ldc2_w index) 0 2

/-- The shortest load or store of a slot: one of the four opcodes from `short` on, or `op` with
the slot as its operand. The record names the opcode of slot 0, or the leading byte of the wide
form. -/
def localAccess (op short : Opcode) (slot : Nat) : Asm Unit := do
  if slot ≤ 3 then
    record short
    emit (Instruction.plain (short + UInt8.ofNat slot)).encode
  else if slot ≤ 0xff then
    record op
    emit (Instruction.byte op (UInt8.ofNat slot)).encode
  else
    record .wide
    emit (Instruction.wide op (UInt16.ofNat slot)).encode

/-- Counts a slot among those in use. -/
def touchLocal (kind : Kind) (slot : Nat) : Asm Unit := fun a =>
  if slot + kind.words ≤ maxFrameWords then
    .ok () { a with maxLocals := max a.maxLocals (slot + kind.words) }
  else .error (.frameTooLarge (slot + kind.words)) a

/-- The load of a slot. -/
def load (kind : Kind) (slot : Nat) : Asm Unit := do
  localAccess kind.loadOp kind.loadShort slot
  touchLocal kind slot
  pushWords kind.words

/-- The store to a slot. -/
def store (kind : Kind) (slot : Nat) : Asm Unit := do
  let offset ← pc
  localAccess kind.storeOp kind.storeShort slot
  touchLocal kind slot
  popWords kind.words offset

/-- The return of a value of a kind, or of none. -/
def ret (kind : Option Kind) : Asm Unit :=
  plain (match kind with
    | some k => k.returnOp
    | none => .vreturn)

/-- A call that takes and gives back the given numbers of words. All but static calls also take
the receiver. -/
def invoke (op : Opcode) (index : UInt16) (argWords returnWords : Nat) : Asm Unit :=
  instruction (.short op index) (argWords + if op = .invokestatic then 0 else 1) returnWords

/-- The static field with an index. -/
def getStatic (index : UInt16) (words : Nat) : Asm Unit :=
  instruction (.short .getstatic index) 0 words

/-- A new object of the class with an index. -/
def newObject (index : UInt16) : Asm Unit := instruction (.short .new index) 0 1

/-- A new label. -/
def newLabel : Asm Label :=
  modifyGet fun a => let (l, labels) := a.labels.fresh; (l, { a with labels })

/-- The operand of a branch, if it fits 16 bits with a sign. -/
def relative (branch target : Nat) : Except AsmError UInt16 :=
  let offset : Int := (target : Int) - branch
  if -32768 ≤ offset ∧ offset ≤ 32767 then .ok (Int16.ofInt offset).toUInt16
  else .error (.branchTooFar branch target)

/-- Records the current depth as the one at a label. -/
def noteDepth (l : Label) : Asm Unit := fun a =>
  match a.labels.noteDepth l a.depth with
  | .ok labels => .ok () { a with labels }
  | .error e => .error (.ofLabelError e) a

/-- **A branch to a label**. A forward branch is left open until the label is placed. -/
def branch (op : Opcode) (l : Label) : Asm Unit := do
  record op
  let offset ← pc
  popWords op.branchPops offset
  noteDepth l
  emit [op]
  modify fun a => { a with branches := a.branches.push (offset, l) }
  match (← get).labels.offset? l with
  | some target =>
    match relative offset target with
    | .ok operand => emit (be16 operand)
    | .error e => throw e
  | none =>
    let operand ← pc
    emit (be16 0)
    modify fun a => { a with labels := a.labels.addPending ⟨offset, operand, l⟩ }
  endIfTerminal op

/-- Overwrites the operand of a branch. -/
def patch (code : CodeArray) (operand : Nat) (value : UInt16) : CodeArray :=
  (code.setIfInBounds operand (hiByte value)).setIfInBounds (operand + 1) (loByte value)

/-- Fills in the operands of branches to `target`, up to the first that does not reach. -/
def patchAll (target : Nat) : List PendingBranch → Asm Unit
  | [] => pure ()
  | b :: rest => do
    match relative b.branch target with
    | .ok value =>
      modify fun a => { a with code := patch a.code b.operand value }
      patchAll target rest
    | .error e => throw e

/-- Fixes a label in the table and takes the branches that wait for it. -/
def takePending (l : Label) : Asm (List PendingBranch) := fun a =>
  match a.labels.place l a.code.size with
  | .ok (waiting, labels) => .ok waiting { a with labels }
  | .error e => .error (.ofLabelError e) a

/-- The depth at a label that has just been placed: in dead code that of the branches to it,
otherwise the current one. -/
def enterLabel (l : Label) : Asm Unit := fun a =>
  match a.labels.entryDepth? l with
  | .ok (some depth) => .ok () { a with depth := if a.alive then a.depth else depth, alive := true }
  | .ok none =>
    match a.labels.noteDepth l a.depth with
    | .ok labels => .ok () { a with labels, alive := true }
    | .error e => .error (.ofLabelError e) a
  | .error e => .error (.ofLabelError e) a

/-- **Places a label** at the current offset and completes the branches to it. -/
def place (l : Label) : Asm Unit := do
  let target ← pc
  let waiting ← takePending l
  patchAll target waiting
  enterLabel l

end Asm

/-- A finished method body. -/
structure Finished where
  code : CodeArray
  maxStack : Nat
  maxLocals : Nat
  /-- The offsets of all branches with those of their targets. -/
  branches : List (Nat × Nat)

/-- The branches with the places of their labels. -/
def resolveBranches (labels : LabelTable) (branches : List (Nat × Label)) :
    Except AsmError (List (Nat × Nat)) :=
  branches.mapM fun (offset, l) =>
    match labels.offset? l with
    | some target => .ok (offset, target)
    | none => .error (.unresolvedBranch l)

/-- **The finished body**, once every branch has its target and the code is short enough. -/
def Assembler.finish (a : Assembler) : Except AsmError Finished :=
  match a.labels.firstUnresolved? with
  | some l => .error (.unresolvedBranch l)
  | none =>
    if a.code.size > maxCodeLength then .error (.codeTooLarge a.code.size)
    else do
      let branches ← resolveBranches a.labels a.branches.toList
      return ⟨a.code, a.maxDepth, a.maxLocals, branches⟩

end ClassFoundry
