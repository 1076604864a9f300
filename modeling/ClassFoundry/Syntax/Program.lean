import ClassFoundry.Syntax.DataType

/-!
# Programs

The typed syntax tree of one compilation unit. Every expression carries the type that the front
end resolved for it, and the compiler takes that annotation at its word.

## Main definitions

* `Expr`, `Stmt`, `FunDef`, `Program`: the tree
* `Expr.ty`: the annotated type of an expression
* `Stmt.terminates`, `blockTerminates`: control cannot leave at the end
-/

namespace ClassFoundry

/-- Binary operations on integers. -/
inductive Arith where
  | add
  | sub
  | mul
  | div
  | mod
  | and
  | or
  | xor
  | shl
  | shr
deriving DecidableEq

/-- Comparisons. -/
inductive Comparison where
  | eq
  | ne
  | lt
  | ge
  | gt
  | le
deriving DecidableEq

/-- The comparison that holds exactly when this one does not. -/
def Comparison.negate : Comparison → Comparison
  | .eq => .ne
  | .ne => .eq
  | .lt => .ge
  | .ge => .lt
  | .gt => .le
  | .le => .gt

/-- Whether a comparison is about order, not only about equality. -/
def Comparison.isOrdered : Comparison → Bool
  | .eq | .ne => false
  | _ => true

@[simp] theorem Comparison.negate_negate (c : Comparison) : c.negate.negate = c := by
  cases c <;> rfl

@[simp] theorem Comparison.isOrdered_negate (c : Comparison) :
    c.negate.isOrdered = c.isOrdered := by
  cases c <;> rfl

/-- Connectives that evaluate their right side only when the left one does not decide. -/
inductive Connective where
  | and
  | or
deriving DecidableEq

/-- Unary operations on integers. -/
inductive UnaryArith where
  | neg
  | complement
deriving DecidableEq

/-- **Expressions**. A call with an `object` is a virtual call on the local of that name, any
other a call of a function by name. -/
inductive Expr where
  | ident (name : String) (ty : DataType)
  | int (value : Int64) (ty : DataType)
  | char (value : Char)
  | str (value : String)
  | arith (op : Arith) (lhs rhs : Expr) (ty : DataType)
  | compare (op : Comparison) (lhs rhs : Expr) (ty : DataType)
  | logic (op : Connective) (lhs rhs : Expr) (ty : DataType)
  | unary (op : UnaryArith) (operand : Expr) (ty : DataType)
  | not (operand : Expr) (ty : DataType)
  | call (object : Option String) (name : String) (args : List Expr) (ty : DataType)
deriving BEq

/-- The annotated type of an expression. -/
def Expr.ty : Expr → DataType
  | .ident _ ty => ty
  | .int _ ty => ty
  | .char _ => .char
  | .str _ => .string
  | .arith _ _ _ ty => ty
  | .compare _ _ _ ty => ty
  | .logic _ _ _ ty => ty
  | .unary _ _ ty => ty
  | .not _ ty => ty
  | .call _ _ _ ty => ty

/-- **Statements**. -/
inductive Stmt where
  | declare (name : String) (ty : DataType) (init : Option Expr)
  | assign (name : String) (value : Expr)
  | ret (value : Option Expr)
  | ifThen (cond : Expr) (body : List Stmt)
  | ifElse (cond : Expr) (body orElse : List Stmt)
  | loop (cond : Expr) (body : List Stmt)
  | break
  | continue
  | call (object : Option String) (name : String) (args : List Expr) (ty : DataType)
deriving BEq

mutual

/-- Whether control cannot reach the end of a statement: it returns, breaks, continues, or is a
conditional both of whose arms do. -/
def Stmt.terminates : Stmt → Bool
  | .ret _ | .break | .continue => true
  | .ifElse _ body orElse => blockTerminates body && blockTerminates orElse
  | _ => false

/-- Whether some statement of a block terminates. -/
def blockTerminates : List Stmt → Bool
  | [] => false
  | s :: rest => s.terminates || blockTerminates rest

end

/-- Visibility of a function. -/
inductive Visibility where
  | pub
  | prot
  | priv
deriving DecidableEq

/-- A parameter and its type. -/
structure Param where
  name : String
  ty : DataType
deriving DecidableEq

/-- **Functions**. One that is not static has a receiver. -/
structure FunDef where
  name : String
  params : List Param
  returnType : DataType
  body : List Stmt
  visibility : Visibility := .pub
  isStatic : Bool := true
deriving BEq

/-- Whether a function is the entry point of the class: static, `main`, without parameters or
result. -/
def FunDef.isEntryPoint (f : FunDef) : Bool :=
  f.name == "main" && f.isStatic && f.params.isEmpty && f.returnType == .void

/-- **Programs**: a class name such as `demo/Hello` and the functions of the class. -/
structure Program where
  name : String
  functions : List FunDef

/-- The first function of the given name. -/
def Program.function? (p : Program) (name : String) : Option FunDef :=
  p.functions.find? (·.name == name)

end ClassFoundry
