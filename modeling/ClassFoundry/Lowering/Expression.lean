import ClassFoundry.Lowering.Basic

/-!
# Lowering of expressions

Operands are evaluated from left to right. Comparisons, connectives and negation are branches at
heart, and become 0 or 1 only where a value is wanted; all other expressions are values.

## Main definitions

* `compareBranch`, `logicBranch`: conditions
* `arithValue`, `unaryValue`: numbers
* `callValue`: calls, with the type of what is left on the stack
* `lower`: an expression
-/

namespace ClassFoundry

open Lower

/-- The branch that compares an int with zero. -/
def Comparison.zeroBranch : Comparison → Opcode
  | .eq => .ifeq
  | .ne => .ifne
  | .lt => .iflt
  | .ge => .ifge
  | .gt => .ifgt
  | .le => .ifle

/-- The branch that compares two ints. -/
def Comparison.intBranch : Comparison → Opcode
  | .eq => .if_icmpeq
  | .ne => .if_icmpne
  | .lt => .if_icmplt
  | .ge => .if_icmpge
  | .gt => .if_icmpgt
  | .le => .if_icmple

/-- The branch that compares two references. -/
def referenceBranch (same : Bool) : Opcode := if same then .if_acmpeq else .if_acmpne

/-- A library method on unsigned ints. -/
def unsignedInt (name descriptor : String) : Member := ⟨"java/lang/Integer", name, descriptor⟩

/-- A library method on unsigned longs. -/
def unsignedLong (name descriptor : String) : Member := ⟨"java/lang/Long", name, descriptor⟩

/-- Branches on a comparison of numbers, in longs if one of them is long. -/
def compareNumbers (op : Comparison) (lhs rhs : Expr) (left right : Lower Unit) (long : Bool)
    (jumpIf : Bool) (target : Label) : Lower Unit := do
  let unsigned := lhs.ty.needsUnsignedOps || rhs.ty.needsUnsignedOps
  let kind := if long then Kind.long else Kind.int
  let test := if jumpIf then op else op.negate
  numberAs lhs left kind
  numberAs rhs right kind
  match long, unsigned && op.isOrdered with
  | false, false => code (Asm.branch test.intBranch target)
  | false, true =>
    invokeStatic (unsignedInt "compareUnsigned" "(II)I") 2 1
    code (Asm.branch test.zeroBranch target)
  | true, false =>
    plain .lcmp
    code (Asm.branch test.zeroBranch target)
  | true, true =>
    invokeStatic (unsignedLong "compareUnsigned" "(JJ)I") 4 1
    code (Asm.branch test.zeroBranch target)

/-- Branches on a comparison. References can only be tested for identity. -/
def compareBranch (op : Comparison) (whole lhs rhs : Expr) (left right : Lower Unit)
    (jumpIf : Bool) (target : Label) : Lower Unit := do
  let leftKind ← valueKind lhs.ty
  let rightKind ← valueKind rhs.ty
  match leftKind, rightKind with
  | .reference, .reference =>
    if op.isOrdered then refuse (.orderedReferences whole)
    left
    right
    code (Asm.branch (referenceBranch ((op == .eq) == jumpIf)) target)
  | .reference, _ | _, .reference => refuse (.mixedComparison whole)
  | _, _ =>
    compareNumbers op lhs rhs left right (leftKind == .long || rightKind == .long) jumpIf target

/-- Branches on a connective; the right side is reached only if the left one does not decide. -/
def logicBranch (op : Connective) (left right : Bool → Label → Lower Unit) (jumpIf : Bool)
    (target : Label) : Lower Unit := do
  let decides := op == .or
  if jumpIf == decides then
    left jumpIf target
    right jumpIf target
  else
    let skip ← code Asm.newLabel
    left decides skip
    right jumpIf target
    code (Asm.place skip)

/-- The kind of a number. -/
def numberKind (ty : DataType) (whole : Expr) : Lower Kind := do
  match ← valueKind ty with
  | .reference => refuse (.arithmeticOn ty whole)
  | kind => return kind

/-- The instruction of an operation on ints or longs. -/
def Arith.opcode (op : Arith) (long unsigned : Bool) : Opcode :=
  match op with
  | .add => if long then .ladd else .iadd
  | .sub => if long then .lsub else .isub
  | .mul => if long then .lmul else .imul
  | .div => if long then .ldiv else .idiv
  | .mod => if long then .lrem else .irem
  | .and => if long then .land else .iand
  | .or => if long then .lor else .ior
  | .xor => if long then .lxor else .ixor
  | .shl => if long then .lshl else .ishl
  | .shr =>
    if unsigned then (if long then .lushr else .iushr) else (if long then .lshr else .ishr)

/-- The library method for an operation on unsigned numbers that has no instruction. -/
def Arith.unsignedMethod? : Arith → Option String
  | .div => some "divideUnsigned"
  | .mod => some "remainderUnsigned"
  | _ => none

/-- Applies an operation to the two numbers on the stack. -/
def applyArith (op : Arith) (ty : DataType) (long : Bool) : Lower Unit :=
  match op.unsignedMethod? with
  | some name =>
    if ty.needsUnsignedOps then
      if long then invokeStatic (unsignedLong name "(JJ)J") 4 2
      else invokeStatic (unsignedInt name "(II)I") 2 1
    else plain (op.opcode long ty.isUnsigned)
  | none => plain (op.opcode long ty.isUnsigned)

/-- Whether the right operand is a distance, which is always an int. -/
def Arith.isShift : Arith → Bool
  | .shl | .shr => true
  | _ => false

/-- Pushes the result of a binary operation on numbers. -/
def arithValue (op : Arith) (whole lhs rhs : Expr) (ty : DataType) (left right : Lower Unit) :
    Lower Unit := do
  let kind ← numberKind ty whole
  let _ ← numberKind lhs.ty whole
  let _ ← numberKind rhs.ty whole
  numberAs lhs left kind
  numberAs rhs right (if op.isShift then .int else kind)
  applyArith op ty (kind == .long)
  narrow ty

/-- Pushes the result of a unary operation on a number. -/
def unaryValue (op : UnaryArith) (whole operand : Expr) (ty : DataType) (value : Lower Unit) :
    Lower Unit := do
  let kind ← numberKind ty whole
  numberAs operand value kind
  match op, kind with
  | .neg, .long => plain .lneg
  | .neg, _ => plain .ineg
  | .complement, .long =>
    pushLong (-1)
    plain .lxor
  | .complement, _ =>
    plain .iconst_m1
    plain .ixor
  narrow ty

/-- Pushes a variable, which has to be used as a value of the kind it was declared with. -/
def identValue (name : String) (ty : DataType) : Lower Unit := do
  let slot ← resolve name
  let kind ← valueKind slot.ty
  if ty.kind? ≠ some kind then refuse (.declaredOtherwise name slot.ty ty)
  code (Asm.load kind slot.slot)

/-- Pushes an integer literal. Of the 32-bit types the unsigned ones take their full range. -/
def literalValue (value : Int64) (ty : DataType) : Lower Unit := do
  match ← valueKind ty with
  | .int =>
    let v := value.toInt
    if (-2147483648 ≤ v ∧ v ≤ 2147483647) ∨ (ty.isUnsigned ∧ 0 ≤ v ∧ v ≤ 4294967295) then
      pushInt value.toInt32
    else refuse (.literalTooLarge value ty)
  | .long => pushLong value
  | .reference => refuse (.literalType value ty)

/-- Pushes a character, which has to be one 16-bit unit. -/
def charValue (c : Char) : Lower Unit :=
  if c.toNat ≤ 0xffff then pushInt (Int32.ofNat c.toNat) else refuse (.charTooLarge c)

/-- Pushes a string literal. -/
def stringValue (text : String) : Lower Unit := do
  let index ← pool (PoolBuilder.internString text)
  code (Asm.constant index)

/-- An argument with the code of its value. -/
structure Argument where
  expr : Expr
  value : Lower Unit

/-- Pushes arguments as values of the parameter types. -/
def pushArguments : List (Argument × DataType) → Lower Unit
  | [] => pure ()
  | (a, ty) :: rest => do
    valueAs a.expr a.value ty
    pushArguments rest

/-- Pushes the receiver of a call. Gives the instruction of the call, and the arguments that are
still to be pushed. -/
def pushReceiver (scope : Scope) (callee : Callable) (args : List (Argument × DataType)) :
    Lower (Opcode × List (Argument × DataType)) := do
  match callee.receiver with
  | .none => return (.invokestatic, args)
  | .this =>
    if scope.function.isStatic then
      refuse (.instanceFromStatic callee.name scope.function.name)
    code (Asm.load .reference 0)
    return (if AccessFlags.has callee.flags AccessFlags.priv then .invokespecial
      else .invokevirtual, args)
  | .firstArg =>
    match args with
    | [] => refuse (.noReceiver callee.name)
    | (a, ty) :: rest =>
      valueAs a.expr a.value ty
      return (.invokevirtual, rest)
  | .staticField field =>
    let index ← pool (PoolBuilder.internField field)
    code (Asm.getStatic index 1)
    return (.invokevirtual, args)

/-- A call of a callable method. -/
def callFunction (scope : Scope) (name : String) (args : List Argument) : Lower DataType := do
  let (_, callee) ← check (scope.table.resolve name (args.map (·.expr.ty)))
  let (op, rest) ← pushReceiver scope callee (args.zip callee.params)
  if callee.entryPoint then plain .aconst_null
  pushArguments rest
  let index ← match callee.methodRef with
    | some index => pure index
    | none => pool (PoolBuilder.internMethod callee.member)
  code (Asm.invoke op index callee.argWords callee.returnWords)
  return callee.returnType

/-- Pushes arguments as they are, and gives the words they take. -/
def pushPlainArguments : List Argument → Nat → Lower Nat
  | [], words => return words
  | a :: rest, words => do
    let _ ← valueKind a.expr.ty
    a.value
    pushPlainArguments rest (words + a.expr.ty.width)

/-- A call of a method of an object in a local, by a descriptor made of the argument types. -/
def callObject (object name : String) (args : List Argument) (ty : DataType) :
    Lower DataType := do
  let slot ← resolve object
  match slot.ty.className? with
  | none => refuse (.noMethods object slot.ty)
  | some cls =>
    code (Asm.load .reference slot.slot)
    let words ← pushPlainArguments args 0
    let descriptor := Descriptor.ofMethod (args.map (·.expr.ty)) ty
    let index ← pool (PoolBuilder.internMethod ⟨cls, name, descriptor⟩)
    code (Asm.invoke .invokevirtual index words ty.width)
    return ty

/-- **A call**, with the type of what it leaves on the stack. -/
def callAny (scope : Scope) (object : Option String) (name : String) (args : List Argument)
    (ty : DataType) : Lower DataType :=
  match object with
  | some object => callObject object name args ty
  | none => callFunction scope name args

/-- Pushes the result of a call, which has to be of the annotated kind. -/
def callValue (scope : Scope) (whole : Expr) (object : Option String) (name : String)
    (args : List Argument) (ty : DataType) : Lower Unit := do
  let returned ← callAny scope object name args ty
  match returned.kind? with
  | none => refuse (.voidCall whole)
  | some kind => if ty.kind? ≠ some kind then refuse (.callType whole returned)

mutual

/-- **Lowers an expression**. -/
def lower (scope : Scope) : Expr → Lowering
  | .ident name ty => .ofValue (.ident name ty) (identValue name ty)
  | .int value ty => .ofValue (.int value ty) (literalValue value ty)
  | .char c => .ofValue (.char c) (charValue c)
  | .str text => .ofValue (.str text) (stringValue text)
  | .arith op lhs rhs ty =>
    let whole := .arith op lhs rhs ty
    .ofValue whole
      (arithValue op whole lhs rhs ty (lower scope lhs).value (lower scope rhs).value)
  | .compare op lhs rhs ty =>
    .ofBranch (compareBranch op (.compare op lhs rhs ty) lhs rhs (lower scope lhs).value
      (lower scope rhs).value)
  | .logic op lhs rhs _ =>
    .ofBranch (logicBranch op (lower scope lhs).branch (lower scope rhs).branch)
  | .unary op operand ty =>
    let whole := .unary op operand ty
    .ofValue whole (unaryValue op whole operand ty (lower scope operand).value)
  | .not operand _ =>
    let inner := lower scope operand
    .ofBranch fun jumpIf => inner.branch (!jumpIf)
  | .call object name args ty =>
    let whole := .call object name args ty
    .ofValue whole (callValue scope whole object name (lowerArgs scope args) ty)

/-- Lowers the arguments of a call. -/
def lowerArgs (scope : Scope) : List Expr → List Argument
  | [] => []
  | e :: rest => ⟨e, (lower scope e).value⟩ :: lowerArgs scope rest

end

end ClassFoundry
