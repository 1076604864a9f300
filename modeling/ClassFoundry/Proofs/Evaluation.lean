import ClassFoundry.Machine.Library
import ClassFoundry.Syntax.Program

/-!
# Evaluation of programs

What programs on numbers mean, by recursion on the tree. An evaluation prints as it goes, and ends with
a value or a fault. Loops and calls may go on for ever, so it is given a number: if a loop takes more
rounds than that or calls are nested more deeply, nothing is said of how it ends.

## Main definitions

* `Number`: ints and longs, and how types turn them into each other
* `Eval`: an evaluation
* `evalValue`: the value of an expression
* `evalStmt`, `evalBlock`: what statements do to the variables
* `evalFunction`: the result of a function
-/

namespace ClassFoundry

/-! ## Numbers -/

/-- **Numbers**: 32-bit ints and 64-bit longs in two's complement. -/
inductive Number where
  | int (value : Int32)
  | long (value : Int64)
deriving DecidableEq

namespace Number

/-- A number as a value of the machine. -/
def toValue : Number → Value
  | .int v => .int v
  | .long v => .long v

/-- Whether a number is a long. -/
def isLong : Number → Bool
  | .int _ => false
  | .long _ => true

/-- The number as an int; a long loses its upper half. -/
def toInt : Number → Int32
  | .int v => v
  | .long v => v.toInt32

/-- The number as a long; an int is extended by its sign, or by zeros if it has none. -/
def toLong (unsigned : Bool) : Number → Int64
  | .int v => if unsigned then v.toUInt32.toUInt64.toInt64 else v.toInt64
  | .long v => v

/-- The number of a truth value. -/
def ofBool (b : Bool) : Number := .int (if b then 1 else 0)

/-- Whether a number stands for truth. -/
def isTrue : Number → Bool
  | .int v => v != 0
  | .long v => v != 0

end Number

/-- Whether ints of a type have no sign bit. -/
def DataType.isUnsignedInt (ty : DataType) : Bool := ty == .int .w32 true

/-- An int cut to the range of a type. -/
def DataType.cut : DataType → Int32 → Int32
  | .int .w8 false, v => v.toInt8.toInt32
  | .int .w16 false, v => v.toInt16.toInt32
  | .int .w8 true, v => v.toUInt32.toUInt8.toUInt32.toInt32
  | .int .w16 true, v | .char, v => v.toUInt32.toUInt16.toUInt32.toInt32
  | _, v => v

namespace Number

/-- A number of one type as a number of another. -/
def convert (source target : DataType) (v : Number) : Number :=
  if source = target then v
  else if target.isLong then .long (v.toLong source.isUnsignedInt)
  else .int (target.cut v.toInt)

/-- The number that variables of a type start with. -/
def zero (ty : DataType) : Number := if ty.isLong then .long 0 else .int 0

/-- The text of a number of a type. -/
def text (ty : DataType) (v : Number) : String :=
  match ty, v with
  | .bool, v => if v.toInt = 0 then "false" else "true"
  | .char, v => (unitChar v.toInt.toUInt32.toUInt16.toNat).toString
  | .int .w32 true, v => toString v.toInt.toUInt32.toNat
  | _, .int v => toString v.toInt
  | _, .long v => toString v.toInt

end Number

/-- An operation on ints; none on division by zero. -/
def Arith.onInts (op : Arith) (ty : DataType) (a b : Int32) : Option Int32 :=
  match op with
  | .add => some (a + b)
  | .sub => some (a - b)
  | .mul => some (a * b)
  | .div =>
    if b = 0 then none
    else some (if ty.isUnsignedInt then (a.toUInt32 / b.toUInt32).toInt32 else a / b)
  | .mod =>
    if b = 0 then none
    else some (if ty.isUnsignedInt then (a.toUInt32 % b.toUInt32).toInt32 else a % b)
  | .and => some (a &&& b)
  | .or => some (a ||| b)
  | .xor => some (a ^^^ b)
  | .shl => some (a <<< b)
  | .shr => some (if ty.isUnsigned then (a.toUInt32 >>> b.toUInt32).toInt32 else a >>> b)

/-- An operation on longs; none on division by zero. The distance of a shift is an int. -/
def Arith.onLongs (op : Arith) (ty : DataType) (a b : Int64) (distance : Int32) : Option Int64 :=
  match op with
  | .add => some (a + b)
  | .sub => some (a - b)
  | .mul => some (a * b)
  | .div =>
    if b = 0 then none
    else some (if ty.isUnsigned then (a.toUInt64 / b.toUInt64).toInt64 else a / b)
  | .mod =>
    if b = 0 then none
    else some (if ty.isUnsigned then (a.toUInt64 % b.toUInt64).toInt64 else a % b)
  | .and => some (a &&& b)
  | .or => some (a ||| b)
  | .xor => some (a ^^^ b)
  | .shl => some (a <<< distance.toInt64)
  | .shr =>
    some (if ty.isUnsigned then (a.toUInt64 >>> distance.toInt64.toUInt64).toInt64
      else a >>> distance.toInt64)

/-- **A binary operation** of a type on numbers of other types. -/
def Arith.onNumbers (op : Arith) (lhs rhs ty : DataType) (a b : Number) : Option Number :=
  if ty.isLong then
    (op.onLongs ty (a.toLong lhs.isUnsignedInt) (b.toLong rhs.isUnsignedInt) b.toInt).map .long
  else (op.onInts ty a.toInt b.toInt).map fun v => .int (ty.cut v)

/-- A unary operation of a type on a number of another. -/
def UnaryArith.onNumber (op : UnaryArith) (operand ty : DataType) (v : Number) : Number :=
  if ty.isLong then
    let l := v.toLong operand.isUnsignedInt
    .long (match op with | .neg => -l | .complement => ~~~l)
  else
    let i := v.toInt
    .int (ty.cut (match op with | .neg => -i | .complement => ~~~i))

/-- The order of two numbers of a kind: without signs if one of their types has none and all bits of
the kind. -/
def orderNumbers (lhs rhs : DataType) (a b : Number) : Ordering :=
  let unsigned := lhs.needsUnsignedOps || rhs.needsUnsignedOps
  if lhs.isLong || rhs.isLong then
    let x := a.toLong lhs.isUnsignedInt
    let y := b.toLong rhs.isUnsignedInt
    if unsigned then compare x.toUInt64.toNat y.toUInt64.toNat else compare x.toInt y.toInt
  else if unsigned then compare a.toInt.toUInt32.toNat b.toInt.toUInt32.toNat
  else compare a.toInt.toInt b.toInt.toInt

/-! ## Evaluations -/

/-- **Evaluations**: from what was printed before to a value or a fault and what is printed in the end,
or to nothing that is known. -/
abbrev Eval := ExceptT Fault (StateT String Option)

namespace Eval

/-- Nothing is known of the end. -/
def unknown {α : Type} : Eval α := ExceptT.mk fun _ => none

/-- Prints a text. -/
def print (text : String) : Eval Unit := modify (· ++ text)

end Eval

/-- A variable: its type and its value. -/
structure Variable where
  ty : DataType
  value : Number

/-- **The variables** of a call by their names. -/
abbrev Store := String → Variable

/-- A variable gets a type and a value. -/
def Store.set (s : Store) (name : String) (ty : DataType) (v : Number) : Store :=
  fun n => if n = name then ⟨ty, v⟩ else s n

/-- The variables of a function that has just been called. -/
def Store.enter : List Param → List Number → Store
  | q :: params, v :: args => (Store.enter params args).set q.name q.ty v
  | _, _ => fun _ => ⟨.void, .int 0⟩

section Expressions

variable (p : Program) (call : FunDef → List Number → Eval (Option Number)) (store : Store)

/-- Arguments as numbers of the parameter types. -/
def passNumbers : List DataType → List Number → List DataType → List Number
  | source :: sources, v :: args, target :: targets =>
    v.convert source target :: passNumbers sources args targets
  | _, _, _ => []

/-- The text that is printed for arguments of some types. -/
def printedNumbers : List DataType → List Number → String
  | ty :: _, v :: _ => v.text ty
  | _, _ => ""

/-- A call by name, of a function of the program or else of a method that prints. -/
def evalCallee (name : String) (types : List DataType) (args : List Number) :
    Eval (Option Number) :=
  match p.function? name with
  | some f => call f (passNumbers types args (f.params.map (·.ty)))
  | none => do
    let text := printedNumbers types args
    Eval.print (if name = "println" then text.push '\n' else text)
    return none

mutual

/-- **The value of an expression**. -/
def evalValue : Expr → Eval Number
  | .ident name _ => pure (store name).value
  | .int value ty => pure (if ty.isLong then .long value else .int value.toInt32)
  | .char c => pure (.int (Int32.ofNat c.toNat))
  | .str _ => Eval.unknown
  | .arith op lhs rhs ty => do
    let a ← evalValue lhs
    let b ← evalValue rhs
    match op.onNumbers lhs.ty rhs.ty ty a b with
    | some v => return v
    | none => throw .divisionByZero
  | .compare op lhs rhs _ => do
    let a ← evalValue lhs
    let b ← evalValue rhs
    return .ofBool (op.holds (orderNumbers lhs.ty rhs.ty a b))
  | .logic op lhs rhs _ => do
    let a ← evalValue lhs
    if a.isTrue = (op == .or) then return .ofBool a.isTrue
    else
      let b ← evalValue rhs
      return .ofBool b.isTrue
  | .unary op operand ty => do
    let v ← evalValue operand
    return op.onNumber operand.ty ty v
  | .not operand _ => do
    let v ← evalValue operand
    return .ofBool (!v.isTrue)
  | .call _ name args _ => do
    let vs ← evalArgs args
    match ← evalCallee p call name (args.map Expr.ty) vs with
    | some v => return v
    | none => Eval.unknown

/-- The values of arguments, from left to right. -/
def evalArgs : List Expr → Eval (List Number)
  | [] => pure []
  | e :: rest => do
    let v ← evalValue e
    let vs ← evalArgs rest
    return v :: vs

end

/-- The value of an expression as a number of a type. -/
def evalAs (e : Expr) (ty : DataType) : Eval Number := do
  let v ← evalValue p call store e
  return v.convert e.ty ty

/-- Whether an expression holds. -/
def evalTest (e : Expr) : Eval Bool := do
  let v ← evalValue p call store e
  return v.isTrue

/-- The first value of a variable. -/
def evalInitial (ty : DataType) : Option Expr → Eval Number
  | some e => evalAs p call store e ty
  | none => pure (.zero ty)

end Expressions

/-- How a statement ends: control passes on, leaves or repeats the innermost loop, or leaves the
function. -/
inductive Completion where
  | normal
  | break
  | continue
  | return (result : Option Number)

/-- The rounds of a loop, at most a number of them. -/
def evalRounds (test : Store → Eval Bool) (body : Store → Eval (Completion × Store)) :
    Nat → Store → Eval (Completion × Store)
  | 0, _ => Eval.unknown
  | n + 1, store => do
    if ← test store then
      match ← body store with
      | (.normal, store) | (.continue, store) => evalRounds test body n store
      | (.break, store) => return (.normal, store)
      | (.return r, store) => return (.return r, store)
    else return (.normal, store)

section Statements

variable (p : Program) (call : FunDef → List Number → Eval (Option Number)) (returnType : DataType)
  (rounds : Nat)

mutual

/-- **What a statement does** to the variables, and how it ends. -/
def evalStmt : Stmt → Store → Eval (Completion × Store)
  | .declare name ty init, store => do
    let v ← evalInitial p call store ty init
    return (.normal, store.set name ty v)
  | .assign name value, store => do
    let ty := (store name).ty
    let v ← evalAs p call store value ty
    return (.normal, store.set name ty v)
  | .ret (some e), store => do
    let v ← evalAs p call store e returnType
    return (.return (some v), store)
  | .ret none, store => return (.return none, store)
  | .ifThen cond body, store => do
    if ← evalTest p call store cond then evalBlock body store else return (.normal, store)
  | .ifElse cond body orElse, store => do
    if ← evalTest p call store cond then evalBlock body store else evalBlock orElse store
  | .loop cond body, store =>
    evalRounds (fun store => evalTest p call store cond) (evalBlock body) rounds store
  | .break, store => return (.break, store)
  | .continue, store => return (.continue, store)
  | .call _ name args _, store => do
    let vs ← evalArgs p call store args
    let _ ← evalCallee p call name (args.map Expr.ty) vs
    return (.normal, store)

/-- What the statements of a block do, one after the other. -/
def evalBlock : List Stmt → Store → Eval (Completion × Store)
  | [], store => return (.normal, store)
  | s :: rest, store => do
    match ← evalStmt s store with
    | (.normal, store) => evalBlock rest store
    | (done, store) => return (done, store)

end

end Statements

end ClassFoundry
