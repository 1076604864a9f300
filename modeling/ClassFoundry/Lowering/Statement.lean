import ClassFoundry.Lowering.Expression

/-!
# Lowering of statements

A loop tests its condition at the bottom. What follows a statement that control cannot leave is
not lowered at all.

## Main definitions

* `lowerStmt`, `lowerBlock`: statements
* `lowerFunction`: the finished body of a function
-/

namespace ClassFoundry

open Lower

/-- Declares a variable with its first value, which cannot refer to the variable. -/
def lowerDeclare (scope : Scope) (name : String) (ty : DataType) (init : Option Expr) :
    Lower Unit := do
  match init with
  | some e => valueAs e (lower scope e).value ty
  | none => pushDefault ty
  let slot ← declare name ty
  storeLocal ty slot

/-- Assigns to a variable. -/
def lowerAssign (scope : Scope) (name : String) (value : Expr) : Lower Unit := do
  let slot ← resolve name
  valueAs value (lower scope value).value slot.ty
  storeLocal slot.ty slot.slot

/-- Returns from the function, with a value exactly if it has a result. -/
def lowerReturn (scope : Scope) (value : Option Expr) : Lower Unit := do
  match value, scope.function.returnType.kind? with
  | some e, some kind =>
    valueAs e (lower scope e).value scope.function.returnType
    code (Asm.ret (some kind))
  | none, none => code (Asm.ret none)
  | some _, none => refuse (.valueFromVoid scope.function.name)
  | none, some _ => refuse (.noValueReturned scope.function.name)

/-- Leaves or repeats the innermost loop. -/
def lowerJump (loop : Option LoopLabels) (keyword : String) (target : LoopLabels → Label) :
    Lower Unit :=
  match loop with
  | some labels => code (Asm.branch .goto (target labels))
  | none => refuse (.outsideLoop keyword)

/-- Calls a function and drops its result. -/
def lowerCall (scope : Scope) (object : Option String) (name : String) (args : List Expr)
    (ty : DataType) : Lower Unit := do
  let returned ← callAny scope object name (lowerArgs scope args) ty
  match returned.kind? with
  | some kind => plain kind.popOp
  | none => pure ()

/-- Jumps to a label unless control cannot get there. -/
def jumpUnless (unreachable : Bool) (target : Label) : Lower Unit :=
  if unreachable then pure () else code (Asm.branch .goto target)

mutual

/-- **Lowers a statement** inside the given innermost loop. -/
def lowerStmt (scope : Scope) (loop : Option LoopLabels) : Stmt → Lower Unit
  | .declare name ty init => lowerDeclare scope name ty init
  | .assign name value => lowerAssign scope name value
  | .ret value => lowerReturn scope value
  | .ifThen cond body => do
    let otherwise ← code Asm.newLabel
    (lower scope cond).branch false otherwise
    lowerBlock scope loop body
    code (Asm.place otherwise)
  | .ifElse cond body orElse => do
    let otherwise ← code Asm.newLabel
    (lower scope cond).branch false otherwise
    lowerBlock scope loop body
    let done ← code Asm.newLabel
    jumpUnless (blockTerminates body) done
    code (Asm.place otherwise)
    lowerBlock scope loop orElse
    jumpUnless (blockTerminates orElse) done
    code (Asm.place done)
  | .loop cond body => do
    let test ← code Asm.newLabel
    let start ← code Asm.newLabel
    let exit ← code Asm.newLabel
    code (Asm.branch .goto test)
    code (Asm.place start)
    lowerBlock scope (some ⟨exit, test⟩) body
    code (Asm.place test)
    (lower scope cond).branch true start
    code (Asm.place exit)
  | .break => lowerJump loop "break" LoopLabels.exit
  | .continue => lowerJump loop "continue" LoopLabels.test
  | .call object name args ty => lowerCall scope object name args ty

/-- Lowers a block, up to the first statement that control cannot leave. -/
def lowerBlock (scope : Scope) (loop : Option LoopLabels) : List Stmt → Lower Unit
  | [] => pure ()
  | s :: rest => do
    lowerStmt scope loop s
    if s.terminates then pure () else lowerBlock scope loop rest

end

/-- Lowers a function body. A function without result may end without a return statement. -/
def lowerBody (scope : Scope) : Lower Unit := do
  let f := scope.function
  lowerBlock scope none f.body
  if !blockTerminates f.body then
    if f.returnType = .void then code (Asm.ret none)
    else throw (.missingReturn f.name)

/-- The finished body, with room for all declared locals. -/
def finishBody : Lower Finished := do
  let s ← get
  let finished ← check (s.asm.finish.mapError (.assembly ""))
  return { finished with maxLocals := max finished.maxLocals s.locals.maxLocals }

/-- **Lowers a function**. -/
def lowerFunction (scope : Scope) : Lower Finished := do
  lowerBody scope
  finishBody

/-- The slots before the parameters: one for a receiver, or for the argument array of the entry
point. -/
def FunDef.reservedSlots (f : FunDef) : Nat := if !f.isStatic || f.isEntryPoint then 1 else 0

end ClassFoundry
