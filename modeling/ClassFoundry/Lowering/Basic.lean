import ClassFoundry.CallTable
import ClassFoundry.Locals

/-!
# Lowering

The state in which a function body is turned into instructions, and the steps that all parts
share: constants, conversions and branches.

## Main definitions

* `Lower`: work on a function body
* `pushInt`, `pushLong`: numbers
* `widen`, `narrow`, `convert`: from one type to another
* `Lowering`: the two ways to use an expression
-/

namespace ClassFoundry

/-- What the lowering of a function works on. -/
structure LowerState where
  pool : PoolBuilder
  locals : Locals
  asm : Assembler

/-- Work on a function body; its effects remain when it fails. -/
abbrev Lower := EStateM CompileError LowerState

/-- The labels that `break` and `continue` lead to. -/
structure LoopLabels where
  exit : Label
  test : Label

/-- What a function body is lowered under: the callable methods and the function itself. -/
structure Scope where
  table : CallTable
  function : FunDef

namespace Lower

/-- Works on the constant pool. -/
def pool (x : PoolM α) : Lower α := fun ⟨pool, locals, asm⟩ =>
  match x pool with
  | .ok a pool => .ok a ⟨pool, locals, asm⟩
  | .error e pool => .error (.pool e) ⟨pool, locals, asm⟩

/-- Works on the code. The function is attached to an error later. -/
def code (x : Asm α) : Lower α := fun ⟨pool, locals, asm⟩ =>
  match x asm with
  | .ok a asm => .ok a ⟨pool, locals, asm⟩
  | .error e asm => .error (.assembly "" e) ⟨pool, locals, asm⟩

/-- Takes a result or fails with its error. -/
def check (x : Except CompileError α) : Lower α :=
  match x with
  | .ok a => pure a
  | .error e => throw e

/-- Reports a contradiction in the tree. -/
def refuse (v : Violation) : Lower α := throw (.violation v)

/-- The variable of a name. -/
def resolve (name : String) : Lower Slot := fun s =>
  match s.locals.resolve name with
  | .ok slot => .ok slot s
  | .error e => .error e s

/-- Declares a variable and gives its slot. -/
def declare (name : String) (ty : DataType) : Lower Nat := fun ⟨pool, locals, asm⟩ =>
  match locals.declare name ty with
  | .ok (slot, locals) => .ok slot ⟨pool, locals, asm⟩
  | .error e => .error e ⟨pool, locals, asm⟩

/-- The kind of a value that has to exist. -/
def valueKind (ty : DataType) : Lower Kind := check ty.valueKind

/-- An instruction without operands. -/
def plain (op : Opcode) : Lower Unit := code (Asm.plain op)

/-- Calls a static method of another class. -/
def invokeStatic (m : Member) (argWords returnWords : Nat) : Lower Unit := do
  let index ← pool (PoolBuilder.internMethod m)
  code (Asm.invoke .invokestatic index argWords returnWords)

end Lower

open Lower

/-- Pushes an int. -/
def pushInt (value : Int32) : Lower Unit := do
  if ← code (Asm.smallInt value) then pure ()
  else
    let index ← pool (PoolBuilder.internInteger value)
    code (Asm.constant index)

/-- Pushes a long. -/
def pushLong (value : Int64) : Lower Unit := do
  if value = 0 then plain .lconst_0
  else if value = 1 then plain .lconst_1
  else
    let index ← pool (PoolBuilder.internLong value)
    code (Asm.longConstant index)

/-- Turns the number on the stack into one of another kind. Unsigned 32-bit numbers are extended
with zeros, all others with their sign. -/
def widen (source : DataType) (target : Kind) : Lower Unit := do
  match ← valueKind source, target with
  | .int, .long =>
    plain .i2l
    if source.needsUnsignedOps then
      let mask ← pool (PoolBuilder.internLong 0xffffffff)
      code (Asm.longConstant mask)
      plain .land
  | .long, .int => plain .l2i
  | _, _ => pure ()

/-- Cuts the int on the stack to the range of a narrower type. -/
def narrow (ty : DataType) : Lower Unit :=
  match ty.narrowing? with
  | some (.convert op) => plain op
  | some (.mask bits) => do
    pushInt bits
    plain .iand
  | none => pure ()

/-- Turns the value on the stack into one of another type. -/
def convert (source target : DataType) : Lower Unit := do
  if source = target then pure ()
  else
    let kind ← valueKind target
    if kind = .reference then pure ()
    else
      widen source kind
      narrow target

/-- Stores the value on the stack in a local. -/
def storeLocal (ty : DataType) (slot : Nat) : Lower Unit := do
  let kind ← valueKind ty
  code (Asm.store kind slot)

/-- Pushes the value that a variable without initial value starts with: zero, null, or a new
object. -/
def pushDefault (ty : DataType) : Lower Unit := do
  match ← valueKind ty with
  | .int => plain .iconst_0
  | .long => plain .lconst_0
  | .reference =>
    match ty.className? with
    | some name =>
      let cls ← pool (PoolBuilder.internClass name)
      let init ← pool (PoolBuilder.internMethod ⟨name, "<init>", "()V"⟩)
      code (Asm.newObject cls)
      plain .dup
      code (Asm.invoke .invokespecial init 0 0)
    | none => plain .aconst_null

/-- **The lowering of an expression**: to a value on the stack, and to a branch taken when its
truth is as wanted. -/
structure Lowering where
  value : Lower Unit
  branch : (jumpIf : Bool) → Label → Lower Unit

namespace Lowering

/-- Pushes 1 or 0 for the truth of a condition. -/
def truthValue (branch : Bool → Label → Lower Unit) : Lower Unit := do
  let otherwise ← code Asm.newLabel
  let done ← code Asm.newLabel
  branch false otherwise
  plain .iconst_1
  code (Asm.branch .goto done)
  code (Asm.place otherwise)
  plain .iconst_0
  code (Asm.place done)

/-- An expression that is a condition. -/
def ofBranch (branch : Bool → Label → Lower Unit) : Lowering := ⟨truthValue branch, branch⟩

/-- Branches on whether a number is not zero. -/
def testValue (e : Expr) (value : Lower Unit) (jumpIf : Bool) (target : Label) : Lower Unit := do
  match ← valueKind e.ty with
  | .int => value
  | .long =>
    value
    plain .lconst_0
    plain .lcmp
  | .reference => refuse (.referenceCondition e)
  code (Asm.branch (if jumpIf then .ifne else .ifeq) target)

/-- An expression that is a value. -/
def ofValue (e : Expr) (value : Lower Unit) : Lowering := ⟨value, testValue e value⟩

end Lowering

/-- Pushes the value of `e`, whose code is `value`, as one of another type. Numbers and references
cannot stand for each other. -/
def valueAs (e : Expr) (value : Lower Unit) (ty : DataType) : Lower Unit := do
  let target ← valueKind ty
  let source ← valueKind e.ty
  if (source == .reference) != (target == .reference) then refuse (.kindMismatch e ty)
  value
  convert e.ty ty

/-- Pushes the value of `e`, whose code is `value`, as a number of a kind. -/
def numberAs (e : Expr) (value : Lower Unit) (kind : Kind) : Lower Unit := do
  value
  widen e.ty kind

end ClassFoundry
