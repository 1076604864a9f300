import ClassFoundry.Proofs.CallTable
import ClassFoundry.Proofs.Structured.Code

/-!
# Selection of instructions

The structured code of expressions and statements as a function of the tree. What a name refers to
is given from outside, so that labels, indices and the order of declarations play no part.

## Main definitions

* `Names`: what the names of a function body refer to
* `select`: the structured code of an expression, as a value and as a condition
* `selectStmt`, `selectBlock`, `selectBody`: the structured code of statements
* `Expr.Checked`, `Stmt.Checked`: the checks that a tree passes when it is lowered
-/

namespace ClassFoundry

/-- **What the names of a function body refer to**. -/
structure Names where
  scope : Scope
  look : String → Option Slot

namespace Fragment

/-- An operation on the frame. -/
def ofOp (op : FrameOp) : Fragment := .op (.frame op)

/-- An instruction without operands. -/
def plain (op : Opcode) : Fragment :=
  match op.plainOp? with
  | some op => ofOp op
  | none => .nil

end Fragment

open Fragment (ofOp plain)

/-- Turns a number into one of another kind. -/
def widening (source : DataType) (target : Kind) : Fragment :=
  match source.kind?, target with
  | some .int, .long =>
    if source.needsUnsignedOps then
      .seq (ofOp .intToLong) (.seq (ofOp (.pushLong 0xffffffff)) (ofOp (.longOp .and)))
    else ofOp .intToLong
  | some .long, .int => ofOp .longToInt
  | _, _ => .nil

/-- Cuts an int to the range of a narrower type. -/
def narrowing (ty : DataType) : Fragment :=
  match ty.narrowing? with
  | some (.convert op) => plain op
  | some (.mask bits) => .seq (ofOp (.pushInt bits)) (ofOp (.intOp .and))
  | none => .nil

/-- Turns a value into one of another type. -/
def conversion (source target : DataType) : Fragment :=
  if source = target then .nil
  else
    match target.kind? with
    | some .reference | none => .nil
    | some kind => .seq (widening source kind) (narrowing target)

/-- The value that a variable without initial value starts with. -/
def defaultValue (ty : DataType) : Fragment :=
  match ty.kind? with
  | some .int => ofOp (.pushInt 0)
  | some .long => ofOp (.pushLong 0)
  | some .reference =>
    match ty.className? with
    | some name =>
      .seq (.op (.create name))
        (.seq (ofOp .dup) (.op (.invoke .special ⟨name, "<init>", "()V"⟩ [] none)))
    | none => ofOp .pushNull
  | none => .nil

/-- A comparison of numbers, in longs if one of them is long. -/
def compareCondition (op : Comparison) (lhs rhs : DataType) (left right : Fragment)
    (long : Bool) : Condition :=
  let kind := if long then Kind.long else Kind.int
  let operands :=
    (Fragment.seq left (widening lhs kind)).seq (.seq right (widening rhs kind))
  match long, (lhs.needsUnsignedOps || rhs.needsUnsignedOps) && op.isOrdered with
  | false, false => .test operands (.ints op)
  | false, true =>
    .test (operands.seq (.op (.invoke .static (unsignedInt "compareUnsigned" "(II)I")
      [.int, .int] (some .int)))) (.zero op)
  | true, false => .test (operands.seq (ofOp .longCompare)) (.zero op)
  | true, true =>
    .test (operands.seq (.op (.invoke .static (unsignedLong "compareUnsigned" "(JJ)I")
      [.long, .long] (some .int)))) (.zero op)

/-- A comparison. -/
def comparison (op : Comparison) (lhs rhs : DataType) (left right : Fragment) : Condition :=
  if lhs.kind? = some .reference ∧ rhs.kind? = some .reference then
    .test (.seq left right) (.refs (op == .eq))
  else compareCondition op lhs rhs left right (lhs.isLong || rhs.isLong)

/-- A test whether a number is not zero. -/
def nonzero (ty : DataType) (value : Fragment) : Condition :=
  if ty.isLong then
    .test (value.seq (.seq (ofOp (.pushLong 0)) (ofOp .longCompare))) (.zero .ne)
  else .test value (.zero .ne)

/-- An operation on two numbers. -/
def Arith.fragment (op : Arith) (ty : DataType) : Fragment :=
  match op.unsignedMethod? with
  | some name =>
    if ty.needsUnsignedOps then
      if ty.isLong then
        .op (.invoke .static (unsignedLong name "(JJ)J") [.long, .long] (some .long))
      else .op (.invoke .static (unsignedInt name "(II)I") [.int, .int] (some .int))
    else plain (op.opcode ty.isLong ty.isUnsigned)
  | none => plain (op.opcode ty.isLong ty.isUnsigned)

/-- The kind of the numbers of a type. -/
def DataType.numberKind (ty : DataType) : Kind := if ty.isLong then .long else .int

/-- A binary operation on numbers. -/
def arithmetic (op : Arith) (lhs rhs ty : DataType) (left right : Fragment) : Fragment :=
  .seq (.seq left (widening lhs ty.numberKind))
    (.seq (.seq right (widening rhs (if op.isShift then .int else ty.numberKind)))
      (.seq (op.fragment ty) (narrowing ty)))

/-- An operation on one number. -/
def UnaryArith.fragment (op : UnaryArith) (ty : DataType) : Fragment :=
  match op with
  | .neg => ofOp (if ty.isLong then .longNeg else .intNeg)
  | .complement =>
    if ty.isLong then .seq (ofOp (.pushLong (-1))) (ofOp (.longOp .xor))
    else .seq (ofOp (.pushInt (-1))) (ofOp (.intOp .xor))

/-- A unary operation on a number. -/
def unary (op : UnaryArith) (operand ty : DataType) (value : Fragment) : Fragment :=
  .seq (.seq value (widening operand ty.numberKind)) (.seq (op.fragment ty) (narrowing ty))

/-! ## Calls -/

namespace Callable

/-- The parameters that are passed after the receiver. -/
def passed (c : Callable) : List DataType :=
  if c.receiver = .firstArg then c.params.drop 1 else c.params

/-- The kinds of what is passed after the receiver. -/
def argKinds (c : Callable) : List Kind :=
  (if c.entryPoint then [.reference] else []) ++ c.passed.filterMap DataType.kind?

/-- The way in which a method is called. -/
def mode (c : Callable) : CallMode :=
  match c.receiver with
  | .none => .static
  | .this => if AccessFlags.has c.flags AccessFlags.priv then .special else .virtual
  | .firstArg | .staticField _ => .virtual

/-- The call itself. -/
def operation (c : Callable) : Operation :=
  .invoke c.mode c.member c.argKinds c.returnType.kind?

/-- The argument array that callers of the entry point pass. -/
def hidden (c : Callable) : Fragment := if c.entryPoint then ofOp .pushNull else .nil

end Callable

/-- An argument with its code. -/
structure Passed where
  expr : Expr
  code : Fragment

/-- Arguments as values of the parameter types. -/
def passArguments : List (Passed × DataType) → Fragment
  | [] => .nil
  | (a, ty) :: rest => .seq (.seq a.code (conversion a.expr.ty ty)) (passArguments rest)

/-- The arguments and the call, once the receiver is on the stack. -/
def finishCall (callee : Callable) (args : List (Passed × DataType)) : Fragment :=
  .seq callee.hidden (.seq (passArguments args) (.op callee.operation))

/-- A call of a callable method. -/
def callFragment (callee : Callable) (args : List (Passed × DataType)) : Fragment :=
  match callee.receiver with
  | .none => finishCall callee args
  | .this => .seq (ofOp (.load .reference 0)) (finishCall callee args)
  | .firstArg =>
    match args with
    | [] => .nil
    | (a, ty) :: rest => .seq (.seq a.code (conversion a.expr.ty ty)) (finishCall callee rest)
  | .staticField field => .seq (.op (.field field)) (finishCall callee args)

/-- Arguments as they are. -/
def plainArguments : List Passed → Fragment
  | [] => .nil
  | a :: rest => .seq a.code (plainArguments rest)

/-- A call of a method of an object in a local. -/
def objectFragment (slot : Slot) (cls name : String) (args : List Passed) (ty : DataType) :
    Fragment :=
  .seq (ofOp (.load .reference slot.slot))
    (.seq (plainArguments args)
      (.op (.invoke .virtual
        ⟨cls, name, Descriptor.ofMethod (args.map (·.expr.ty)) ty⟩
        (args.filterMap (·.expr.ty.kind?)) ty.kind?)))

namespace Names

variable (σ : Names)

/-- The callee of a call by name. -/
def callee? (name : String) (args : List DataType) : Option Callable :=
  match σ.scope.table.resolve name args with
  | .ok (_, callee) => some callee
  | .error _ => none

theorem resolve_of_callee? {name : String} {args : List DataType} {callee : Callable}
    (h : σ.callee? name args = some callee) :
    ∃ i, σ.scope.table.resolve name args = .ok (i, callee) := by
  unfold callee? at h
  split at h
  · rename_i i _ hresolve
    cases h
    exact ⟨i, hresolve⟩
  · cases h

/-- **A call**. -/
def call (object : Option String) (name : String) (args : List Passed) (ty : DataType) :
    Fragment :=
  match object with
  | some object =>
    match σ.look object with
    | some slot =>
      match slot.ty.className? with
      | some cls => objectFragment slot cls name args ty
      | none => .nil
    | none => .nil
  | none =>
    match σ.callee? name (args.map (·.expr.ty)) with
    | some callee => callFragment callee (args.zip callee.params)
    | none => .nil

/-- The type of what a call leaves on the stack. -/
def returned (object : Option String) (name : String) (args : List DataType) (ty : DataType) :
    DataType :=
  match object with
  | some _ => ty
  | none =>
    match σ.callee? name args with
    | some callee => callee.returnType
    | none => .void

/-- The variable of a name, loaded. -/
def load (name : String) : Fragment :=
  match σ.look name with
  | some slot =>
    match slot.ty.kind? with
    | some kind => ofOp (.load kind slot.slot)
    | none => .nil
  | none => .nil

end Names

/-! ## Expressions -/

/-- The structured code of an expression. -/
structure Selection where
  value : Fragment
  cond : Condition

namespace Selection

/-- An expression that is a value. -/
def ofValue (ty : DataType) (value : Fragment) : Selection := ⟨value, nonzero ty value⟩

/-- An expression that is a condition. -/
def ofCondition (cond : Condition) : Selection := ⟨.truth cond, cond⟩

end Selection

/-- An integer literal. -/
def literal (value : Int64) (ty : DataType) : Fragment :=
  if ty.isLong then ofOp (.pushLong value) else ofOp (.pushInt value.toInt32)

mutual

/-- **The structured code of an expression**. -/
def select (σ : Names) : Expr → Selection
  | .ident name ty => .ofValue ty (σ.load name)
  | .int value ty => .ofValue ty (literal value ty)
  | .char c => .ofValue .char (ofOp (.pushInt (Int32.ofNat c.toNat)))
  | .str text => .ofValue .string (.op (.text text))
  | .arith op lhs rhs ty =>
    .ofValue ty (arithmetic op lhs.ty rhs.ty ty (select σ lhs).value (select σ rhs).value)
  | .compare op lhs rhs _ =>
    .ofCondition (comparison op lhs.ty rhs.ty (select σ lhs).value (select σ rhs).value)
  | .logic op lhs rhs _ => .ofCondition (.logic op (select σ lhs).cond (select σ rhs).cond)
  | .unary op operand ty => .ofValue ty (unary op operand.ty ty (select σ operand).value)
  | .not operand _ => .ofCondition (.not (select σ operand).cond)
  | .call object name args ty => .ofValue ty (σ.call object name (selectArgs σ args) ty)

/-- The structured code of the arguments of a call. -/
def selectArgs (σ : Names) : List Expr → List Passed
  | [] => []
  | e :: rest => ⟨e, (select σ e).value⟩ :: selectArgs σ rest

end

@[simp] theorem map_expr_selectArgs (σ : Names) (args : List Expr) :
    (selectArgs σ args).map (·.expr) = args := by
  induction args with
  | nil => rfl
  | cons e rest ih => simp [selectArgs, ih]

@[simp] theorem map_ty_selectArgs (σ : Names) (args : List Expr) :
    (selectArgs σ args).map (·.expr.ty) = args.map Expr.ty := by
  induction args with
  | nil => rfl
  | cons e rest ih => simp [selectArgs, ih]

@[simp] theorem length_selectArgs (σ : Names) (args : List Expr) :
    (selectArgs σ args).length = args.length := by
  rw [← List.length_map, map_expr_selectArgs]

/-- An expression as a value of a type. -/
def selectAs (σ : Names) (e : Expr) (ty : DataType) : Fragment :=
  .seq (select σ e).value (conversion e.ty ty)

/-! ## Statements -/

/-- The first value of a variable. -/
def initialValue (σ : Names) (ty : DataType) : Option Expr → Fragment
  | some e => selectAs σ e ty
  | none => defaultValue ty

/-- The result of a call that stands as a statement is dropped. -/
def discard : Option Kind → Fragment
  | some kind => .op (.drop kind)
  | none => .nil

mutual

/-- **The structured code of a statement**. -/
def selectStmt (σ : Names) : Stmt → Flow
  | .declare name ty init =>
    match σ.look name, ty.kind? with
    | some slot, some kind =>
      .store (initialValue σ ty init) kind slot.slot
    | _, _ => .nil
  | .assign name value =>
    match σ.look name with
    | some slot =>
      match slot.ty.kind? with
      | some kind => .store (selectAs σ value slot.ty) kind slot.slot
      | none => .nil
    | none => .nil
  | .ret (some e) =>
    .ret (selectAs σ e σ.scope.function.returnType) σ.scope.function.returnType.kind?
  | .ret none => .ret .nil none
  | .ifThen cond body => .ifThen (select σ cond).cond (selectBlock σ body)
  | .ifElse cond body orElse =>
    .ifElse (select σ cond).cond (selectBlock σ body) (selectBlock σ orElse)
  | .loop cond body => .loop (select σ cond).cond (selectBlock σ body)
  | .break => .break
  | .continue => .continue
  | .call object name args ty =>
    .run (.seq (σ.call object name (selectArgs σ args) ty)
      (discard (σ.returned object name (args.map Expr.ty) ty).kind?))

/-- The structured code of a block, up to the first statement that control cannot leave. -/
def selectBlock (σ : Names) : List Stmt → Flow
  | [] => .nil
  | s :: rest =>
    if s.terminates then selectStmt σ s else .seq (selectStmt σ s) (selectBlock σ rest)

end

/-- The structured code of a function body. -/
def selectBody (σ : Names) : Flow :=
  if blockTerminates σ.scope.function.body then selectBlock σ σ.scope.function.body
  else .seq (selectBlock σ σ.scope.function.body) (.ret .nil none)

/-! ## What the lowering checks -/

/-- Whether values of a type are numbers. -/
def DataType.IsNumber (ty : DataType) : Prop := ty.kind? = some .int ∨ ty.kind? = some .long

/-- Whether a value of a type can stand for one of another: both are numbers or both are
references. -/
def DataType.Passes (source target : DataType) : Prop :=
  ∃ k k', source.kind? = some k ∧ target.kind? = some k' ∧ (k = .reference ↔ k' = .reference)

/-- Whether an expression is a condition at heart. -/
def Expr.isCondition : Expr → Bool
  | .compare _ _ _ _ | .logic _ _ _ _ | .not _ _ => true
  | _ => false

/-- Whether an expression can be branched on. -/
def Expr.Testable (e : Expr) : Prop := e.isCondition = true ∨ e.ty.IsNumber

/-- The checks on a call by name. -/
structure Names.CallsFunction (σ : Names) (name : String) (args : List Expr)
    (callee : Callable) : Prop where
  resolved : ∃ i, σ.scope.table.resolve name (args.map Expr.ty) = .ok (i, callee)
  passes : ∀ p ∈ args.zip callee.params, p.1.ty.Passes p.2
  this : callee.receiver = .this → σ.scope.function.isStatic = false
  first : callee.receiver = .firstArg → args.zip callee.params ≠ []

namespace Names.CallsFunction

variable {σ : Names} {name : String} {args : List Expr} {callee : Callable}

theorem callee? (h : σ.CallsFunction name args callee) :
    σ.callee? name (args.map Expr.ty) = some callee := by
  obtain ⟨i, hresolve⟩ := h.resolved
  rw [Names.callee?, hresolve]

/-- What a call leaves on the stack is what its callee returns, whatever its annotation. -/
theorem returned (h : σ.CallsFunction name args callee) (ty : DataType) :
    σ.returned none name (args.map Expr.ty) ty = callee.returnType := by
  simp only [Names.returned, h.callee?]

theorem length_params (h : σ.CallsFunction name args callee) :
    callee.params.length = args.length := by
  obtain ⟨i, hresolve⟩ := h.resolved
  simpa using CallTable.length_params_of_resolve hresolve

/-- A call on its first argument has one. -/
theorem first_selectArgs (h : σ.CallsFunction name args callee)
    (hreceiver : callee.receiver = .firstArg) : (selectArgs σ args).zip callee.params ≠ [] := by
  intro hnil
  refine h.first hreceiver ?_
  rw [← map_expr_selectArgs σ args, List.zip_map_left, hnil, List.map_nil]

end Names.CallsFunction

/-- The checks on a call of a method of an object. -/
structure Names.CallsObject (σ : Names) (object : String) (args : List Expr) : Prop where
  object : ∃ slot cls, σ.look object = some slot ∧ slot.ty.className? = some cls
  kinds : ∀ a ∈ args, a.ty.kind?.isSome

/-- The checks on a call. -/
def Names.Calls (σ : Names) (object : Option String) (name : String) (args : List Expr) : Prop :=
  match object with
  | some object => σ.CallsObject object args
  | none => ∃ callee, σ.CallsFunction name args callee

mutual

/-- **The checks on an expression**. -/
def Expr.Checked (σ : Names) : Expr → Prop
  | .ident name ty => ∃ slot kind, σ.look name = some slot ∧ slot.ty.kind? = some kind ∧
      ty.kind? = some kind
  | .int _ ty => ty.IsNumber
  | .char c => c.toNat ≤ 0xffff
  | .str _ => True
  | .arith _ lhs rhs ty => ty.IsNumber ∧ lhs.ty.IsNumber ∧ rhs.ty.IsNumber ∧
      lhs.Checked σ ∧ rhs.Checked σ
  | .compare op lhs rhs _ =>
    ((lhs.ty.kind? = some .reference ∧ rhs.ty.kind? = some .reference ∧ op.isOrdered = false) ∨
      (lhs.ty.IsNumber ∧ rhs.ty.IsNumber)) ∧ lhs.Checked σ ∧ rhs.Checked σ
  | .logic _ lhs rhs _ => lhs.Testable ∧ rhs.Testable ∧ lhs.Checked σ ∧ rhs.Checked σ
  | .unary _ operand ty => ty.IsNumber ∧ operand.ty.kind?.isSome ∧ operand.Checked σ
  | .not operand _ => operand.Testable ∧ operand.Checked σ
  | .call object name args ty => σ.Calls object name args ∧ Expr.AllChecked σ args ∧
      ∃ kind, (σ.returned object name (args.map Expr.ty) ty).kind? = some kind ∧
        ty.kind? = some kind

/-- The checks on arguments. -/
def Expr.AllChecked (σ : Names) : List Expr → Prop
  | [] => True
  | e :: rest => e.Checked σ ∧ Expr.AllChecked σ rest

end

mutual

/-- **The checks on a statement**. -/
def Stmt.Checked (σ : Names) : Stmt → Prop
  | .declare name ty init => (∃ slot kind, σ.look name = some slot ∧ slot.ty = ty ∧
        ty.kind? = some kind) ∧
      ∀ e ∈ init, e.Checked σ ∧ e.ty.Passes ty
  | .assign name value => ∃ slot, σ.look name = some slot ∧ value.Checked σ ∧
      value.ty.Passes slot.ty
  | .ret value => match value with
    | some e => e.Checked σ ∧ e.ty.Passes σ.scope.function.returnType
    | none => σ.scope.function.returnType.kind? = none
  | .ifThen cond body => cond.Checked σ ∧ cond.Testable ∧ Stmt.AllChecked σ body
  | .ifElse cond body orElse => cond.Checked σ ∧ cond.Testable ∧ Stmt.AllChecked σ body ∧
      Stmt.AllChecked σ orElse
  | .loop cond body => cond.Checked σ ∧ cond.Testable ∧ Stmt.AllChecked σ body
  | .break | .continue => True
  | .call object name args _ => σ.Calls object name args ∧ Expr.AllChecked σ args

/-- The checks on a block, up to the first statement that control cannot leave. -/
def Stmt.AllChecked (σ : Names) : List Stmt → Prop
  | [] => True
  | s :: rest => s.Checked σ ∧ (s.terminates = false → Stmt.AllChecked σ rest)

end

end ClassFoundry
