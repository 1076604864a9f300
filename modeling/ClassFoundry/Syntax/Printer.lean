import ClassFoundry.Syntax.Program
import ClassFoundry.Text.Quoted

/-!
# Printing programs

The text of expressions and programs: binary expressions in parentheses, two blanks for every
level of nesting, an empty line between functions.

## Main definitions

* `Expr.text`, `callText`: expressions on one line
* `Stmt.lines`, `FunDef.lines`: indented lines
* `Program.text`: a whole program
-/

namespace ClassFoundry

/-- The symbol of an operation. -/
def Arith.symbol : Arith → String
  | .add => "+"
  | .sub => "-"
  | .mul => "*"
  | .div => "/"
  | .mod => "%"
  | .and => "&"
  | .or => "|"
  | .xor => "^"
  | .shl => "<<"
  | .shr => ">>"

/-- The symbol of a comparison. -/
def Comparison.symbol : Comparison → String
  | .eq => "=="
  | .ne => "!="
  | .lt => "<"
  | .ge => ">="
  | .gt => ">"
  | .le => "<="

/-- The symbol of a connective. -/
def Connective.symbol : Connective → String
  | .and => "&&"
  | .or => "||"

/-- The symbol of a unary operation. -/
def UnaryArith.symbol : UnaryArith → String
  | .neg => "-"
  | .complement => "~"

/-- An infix expression in parentheses. -/
def infixText (lhs op rhs : String) : String :=
  "(" ++ lhs ++ " " ++ op ++ " " ++ rhs ++ ")"

/-- A call with its arguments already written. -/
def callText (object : Option String) (name : String) (args : List String) : String :=
  (match object with
    | some object => object ++ "."
    | none => "") ++ name ++ "(" ++ ", ".intercalate args ++ ")"

mutual

/-- The text of an expression. -/
def Expr.text : Expr → String
  | .ident name _ => name
  | .int value ty =>
    if ty = .bool then (if value = 0 then "false" else "true") else toString value.toInt
  | .char value => Text.quoteChar value
  | .str value => Text.quoteString value
  | .arith op lhs rhs _ => infixText lhs.text op.symbol rhs.text
  | .compare op lhs rhs _ => infixText lhs.text op.symbol rhs.text
  | .logic op lhs rhs _ => infixText lhs.text op.symbol rhs.text
  | .unary op operand _ => op.symbol ++ operand.text
  | .not operand _ => "!" ++ operand.text
  | .call object name args _ => callText object name (exprTexts args)

/-- The texts of a list of expressions. -/
def exprTexts : List Expr → List String
  | [] => []
  | e :: rest => e.text :: exprTexts rest

end

/-- A line at the given depth of nesting. -/
def indented (depth : Nat) (line : String) : String :=
  String.ofList (List.replicate (2 * depth) ' ') ++ line

mutual

/-- The lines of a statement at the given depth. -/
def Stmt.lines (depth : Nat) : Stmt → List String
  | .declare name ty none => [indented depth ("var " ++ name ++ ": " ++ ty.text ++ ";")]
  | .declare name ty (some init) =>
    [indented depth ("var " ++ name ++ ": " ++ ty.text ++ " = " ++ init.text ++ ";")]
  | .assign name value => [indented depth (name ++ " = " ++ value.text ++ ";")]
  | .ret none => [indented depth "return;"]
  | .ret (some value) => [indented depth ("return " ++ value.text ++ ";")]
  | .ifThen cond body =>
    indented depth ("if " ++ cond.text ++ " \x7b") :: blockLines (depth + 1) body ++
      [indented depth "\x7d"]
  | .ifElse cond body orElse =>
    indented depth ("if " ++ cond.text ++ " \x7b") :: blockLines (depth + 1) body ++
      indented depth "\x7d else \x7b" :: blockLines (depth + 1) orElse ++
      [indented depth "\x7d"]
  | .loop cond body =>
    indented depth ("while " ++ cond.text ++ " \x7b") :: blockLines (depth + 1) body ++
      [indented depth "\x7d"]
  | .break => [indented depth "break;"]
  | .continue => [indented depth "continue;"]
  | .call object name args _ => [indented depth (callText object name (exprTexts args) ++ ";")]

/-- The lines of a block at the given depth. -/
def blockLines (depth : Nat) : List Stmt → List String
  | [] => []
  | s :: rest => s.lines depth ++ blockLines depth rest

end

/-- The keyword of a visibility. -/
def Visibility.text : Visibility → String
  | .pub => "public"
  | .prot => "protected"
  | .priv => "private"

/-- The first line of a function. -/
def FunDef.header (f : FunDef) : String :=
  f.visibility.text ++ (if f.isStatic then " static fn " else " fn ") ++ f.name ++ "(" ++
    ", ".intercalate (f.params.map fun p => p.name ++ ": " ++ p.ty.text) ++ ") -> " ++
    f.returnType.text ++ " \x7b"

/-- The lines of a function inside its class. -/
def FunDef.lines (f : FunDef) : List String :=
  indented 1 f.header :: blockLines 2 f.body ++ [indented 1 "\x7d"]

/-- The text of a program. -/
def Program.text (p : Program) : String :=
  let lines := ("class " ++ p.name ++ " \x7b") ::
    [""].intercalate (p.functions.map FunDef.lines) ++ ["\x7d"]
  lines.foldl (fun out line => out ++ line ++ "\n") ""

end ClassFoundry
