import ClassFoundry.ClassFile.Basic
import ClassFoundry.ConstantPool.Builder
import ClassFoundry.Descriptor
import ClassFoundry.Text.Numeral
import Std.Data.HashSet

/-!
# Verification

Structural checks of a class: every index in the constant pool names a constant of the right
sort, methods have sound flags and descriptors and enough locals for their arguments, and their
code can be walked from instruction to instruction, with every branch to the start of one.

## Main definitions

* `PoolFault`, `MethodFault`, `VerifyError`: what can be wrong
* `verifyPool`, `verifyMethods`: the parts
* `ClassFile.verify`: the whole class
-/

namespace ClassFoundry

/-- What can be wrong with an index or a constant. -/
inductive PoolFault where
  | invalidIndex (index : UInt16)
  | wrongSort (index : UInt16) (expected found : String)
  | missingContinuation (index : UInt16)
  | textTooLong (index : UInt16) (length : Nat)
deriving DecidableEq

/-- The wording of a fault. -/
def PoolFault.message : PoolFault → String
  | .invalidIndex index => "Invalid constant pool index " ++ toString index.toNat
  | .wrongSort index expected found =>
    "Invalid constant pool index type " ++ toString index.toNat ++ ": expected " ++ expected ++
      ", found " ++ found
  | .missingContinuation index =>
    "Long constant at " ++ toString index.toNat ++ " is not followed by its continuation slot"
  | .textTooLong index length =>
    "Utf8 constant " ++ toString index.toNat ++ " encodes to " ++ toString length ++
      " bytes, above the 65535-byte limit"

/-- What can be wrong with a method. -/
inductive MethodFault where
  | pool (cause : PoolFault)
  | badFlags (flags : UInt16)
  | badDescriptor (descriptor : String)
  | duplicate (name descriptor : String)
  | emptyCode (method : String)
  | maxLocalsTooSmall (method : String) (maxLocals needed : Nat)
  | unknownOpcode (method : String) (op : Opcode) (offset : Nat)
  | truncatedInstruction (method : String) (offset : Nat)
  | badBranchTarget (method : String) (offset : Nat) (target : Int)
deriving DecidableEq

/-- The wording of a fault. -/
def MethodFault.message : MethodFault → String
  | .pool cause => cause.message
  | .badFlags flags => "Invalid method access flags: 0x" ++ Text.hex 4 flags.toNat
  | .badDescriptor descriptor => "Malformed method descriptor " ++ descriptor
  | .duplicate name descriptor => "Duplicate method " ++ name ++ descriptor
  | .emptyCode method => "Method " ++ method ++ " has an empty Code attribute"
  | .maxLocalsTooSmall method maxLocals needed =>
    "Method " ++ method ++ ": max_locals " ++ toString maxLocals ++ " is below the " ++
      toString needed ++ " argument slots"
  | .unknownOpcode method op offset =>
    "Method " ++ method ++ ": unknown opcode 0x" ++ Text.hex 2 op.toNat ++ " at " ++
      toString offset
  | .truncatedInstruction method offset =>
    "Method " ++ method ++ ": instruction at " ++ toString offset ++
      " runs past the end of the code"
  | .badBranchTarget method offset target =>
    "Method " ++ method ++ ": branch at " ++ toString offset ++ " targets " ++ toString target ++
      ", which is not an instruction boundary"

/-- Why a class is refused. -/
inductive VerifyError where
  | badMagic (magic : UInt32)
  | unsupportedVersion (major : UInt16)
  | thisClass (cause : PoolFault)
  | superClass (cause : PoolFault)
  | pool (cause : PoolFault)
  | method (cause : MethodFault)
deriving DecidableEq

/-- The wording of an error. -/
def VerifyError.message : VerifyError → String
  | .badMagic magic => "Bad magic 0x" ++ Text.hex 8 magic.toNat
  | .unsupportedVersion major => "Unsupported class file version " ++ toString major.toNat
  | .thisClass cause => "this_class: " ++ cause.message
  | .superClass cause => "super_class: " ++ cause.message
  | .pool cause => cause.message
  | .method cause => cause.message

/-- Checks that an index names a constant of one of the expected sorts; the first of them is the
one reported. -/
def ConstantPool.expectAny (pool : ConstantPool) (index : UInt16) (expected : String)
    (others : List String) : Except PoolFault Unit :=
  match pool.get? index with
  | none => .error (.invalidIndex index)
  | some c =>
    if c.tagName = expected ∨ c.tagName ∈ others then .ok ()
    else .error (.wrongSort index expected c.tagName)

/-- Checks that an index names a constant of the expected sort. -/
def ConstantPool.expect (pool : ConstantPool) (index : UInt16) (expected : String) :
    Except PoolFault Unit :=
  pool.expectAny index expected []

/-- Checks a constant at an index. -/
def verifyConstant (pool : ConstantPool) (index : UInt16) : Constant → Except PoolFault Unit
  | .class name => pool.expect name "Utf8"
  | .string text => pool.expect text "Utf8"
  | .fieldRef cls sig | .methodRef cls sig => do
    pool.expect cls "Class"
    pool.expect sig "NameAndType"
  | .nameAndType name descriptor => do
    pool.expect name "Utf8"
    pool.expect descriptor "Utf8"
  | .long _ =>
    if pool.constants[index.toNat]? = some .unusable then .ok ()
    else .error (.missingContinuation index)
  | .utf8 text =>
    let length := ModifiedUtf8.encodedLength text
    if length > maxTextLength then .error (.textTooLong index length) else .ok ()
  | .integer _ | .unusable => .ok ()

/-- Checks every constant of a pool. -/
def verifyPool (pool : ConstantPool) : Except PoolFault Unit :=
  pool.entries.forM fun (index, c) => verifyConstant pool index c

/-- A pool fault as a method fault. -/
def inMethod (r : Except PoolFault α) : Except MethodFault α := r.mapError .pool

/-- Checks that at most one of the visibilities is set. -/
def verifyFlags (flags : UInt16) : Except MethodFault Unit :=
  let set := [AccessFlags.pub, AccessFlags.prot, AccessFlags.priv].filter (AccessFlags.has flags)
  if set.length > 1 then .error (.badFlags flags) else .ok ()

/-- Checks the constant that an instruction refers to. -/
def verifyOperand (pool : ConstantPool) : Instruction → Except PoolFault Unit
  | .byte .ldc index => pool.expectAny index.toUInt16 "Integer" ["String"]
  | .short .ldc_w index => pool.expectAny index "Integer" ["String"]
  | .short .ldc2_w index => pool.expect index "Long"
  | .short .getstatic index => pool.expect index "Fieldref"
  | .short .invokevirtual index => pool.expect index "Methodref"
  | .short .invokespecial index => pool.expect index "Methodref"
  | .short .invokestatic index => pool.expect index "Methodref"
  | .short .new index => pool.expect index "Class"
  | _ => .ok ()

/-- The target of a branch at an offset; other instructions have none. -/
def Instruction.target? (pc : Nat) : Instruction → Option Int
  | .short op operand => if op.isBranch then some (branchTarget pc operand) else none
  | _ => none

/-- The starts of instructions in a sweep. -/
def Sweep.boundaries (s : Sweep) : Std.HashSet Nat :=
  s.instructions.foldl (fun found (pc, _) => found.insert pc) {}

/-- Checks that a branch leads to one of the given offsets. -/
def verifyBranch (method : String) (boundaries : Std.HashSet Nat) (pc : Nat) (i : Instruction) :
    Except MethodFault Unit :=
  match i.target? pc with
  | some target =>
    if 0 ≤ target ∧ target.toNat ∈ boundaries then .ok ()
    else .error (.badBranchTarget method pc target)
  | none => .ok ()

/-- The fault of a sweep that did not reach the end. -/
def sweepFault (method : String) (pc : Nat) : Malformed → MethodFault
  | .unknown op => .unknownOpcode method op pc
  | .truncated | .outside => .truncatedInstruction method pc

/-- Checks a method body: the operands of each instruction in order, up to one that cannot be
decoded, then the branches. -/
def verifyCode (pool : ConstantPool) (method : String) (code : CodeArray) :
    Except MethodFault Unit := do
  if code.isEmpty then throw (.emptyCode method)
  let s := sweep code
  let instructions := s.instructions.toList
  instructions.forM fun (_, i) => inMethod (verifyOperand pool i)
  match s.fault with
  | some (pc, cause) => throw (sweepFault method pc cause)
  | none => pure ()
  let boundaries := s.boundaries
  instructions.forM fun (pc, i) => verifyBranch method boundaries pc i

/-- Checks a method. `seen` holds the names and descriptors of the methods before it. -/
def verifyMethod (pool : ConstantPool) (seen : List (String × String)) (m : Method) :
    Except MethodFault (List (String × String)) := do
  inMethod (pool.expect m.name "Utf8")
  inMethod (pool.expect m.descriptor "Utf8")
  inMethod (pool.expect m.attrName "Utf8")
  let name := (pool.text? m.name).getD ""
  let descriptor := (pool.text? m.descriptor).getD ""
  if seen.contains (name, descriptor) then throw (.duplicate name descriptor)
  verifyFlags m.flags
  match Descriptor.argumentWords? descriptor, Descriptor.returnWords? descriptor with
  | some args, some _ =>
    let needed := args + if AccessFlags.has m.flags AccessFlags.static then 0 else 1
    if m.maxLocals.toNat < needed then
      throw (.maxLocalsTooSmall name m.maxLocals.toNat needed)
    verifyCode pool name m.code
    return (name, descriptor) :: seen
  | _, _ => throw (.badDescriptor descriptor)

/-- Checks methods in order. -/
def verifyMethods (pool : ConstantPool) :
    List (String × String) → List Method → Except MethodFault Unit
  | _, [] => .ok ()
  | seen, m :: rest => do
    let seen ← verifyMethod pool seen m
    verifyMethods pool seen rest

/-- **Verifies a class**. Versions 45 to 74 are known. -/
def ClassFile.verify (c : ClassFile) : Except VerifyError Unit := do
  if c.magic ≠ magicNumber then throw (.badMagic c.magic)
  if c.major < 45 ∨ 74 < c.major then throw (.unsupportedVersion c.major)
  (verifyPool c.pool).mapError .pool
  (c.pool.expect c.thisClass "Class").mapError .thisClass
  (c.pool.expect c.superClass "Class").mapError .superClass
  (verifyMethods c.pool [] c.methods).mapError .method

end ClassFoundry
