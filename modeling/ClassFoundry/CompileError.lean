import ClassFoundry.Assembler.Basic
import ClassFoundry.ConstantPool.Builder
import ClassFoundry.Syntax.Printer

/-!
# Compile errors

Everything that can be wrong with a program. The compiler trusts the types that the tree is
annotated with, and reports a violation where they contradict each other.

## Main definitions

* `Violation`: a contradiction in the annotated tree
* `CompileError`: why a program has no class file
-/

namespace ClassFoundry

/-- A contradiction in the annotated tree. -/
inductive Violation where
  | voidValue
  | voidVariable (name : String)
  | outsideLoop (keyword : String)
  | valueFromVoid (function : String)
  | noValueReturned (function : String)
  | referenceCondition (cond : Expr)
  | orderedReferences (comparison : Expr)
  | mixedComparison (comparison : Expr)
  | kindMismatch (value : Expr) (wanted : DataType)
  | declaredOtherwise (name : String) (declared used : DataType)
  | literalTooLarge (value : Int64) (ty : DataType)
  | literalType (value : Int64) (ty : DataType)
  | charTooLarge (value : Char)
  | voidCall (call : Expr)
  | callType (call : Expr) (returned : DataType)
  | arithmeticOn (ty : DataType) (whole : Expr)
  | argumentMismatch (name : String) (count : Nat)
  | noOverload (name : String)
  | instanceFromStatic (callee caller : String)
  | noReceiver (name : String)
  | noMethods (object : String) (ty : DataType)

/-- The wording of a violation. -/
def Violation.message : Violation → String
  | .voidValue => "void expression used as a value"
  | .voidVariable name => "variable '" ++ name ++ "' declared void"
  | .outsideLoop keyword => "'" ++ keyword ++ "' outside of a loop"
  | .valueFromVoid function => "void function '" ++ function ++ "' returns a value"
  | .noValueReturned function => "function '" ++ function ++ "' returns without a value"
  | .referenceCondition cond => "reference value used as condition: " ++ cond.text
  | .orderedReferences comparison => "ordered comparison of references: " ++ comparison.text
  | .mixedComparison comparison =>
    "comparison of a reference with an integer: " ++ comparison.text
  | .kindMismatch value wanted =>
    "cannot use " ++ value.ty.text ++ " value '" ++ value.text ++ "' as " ++ wanted.text
  | .declaredOtherwise name declared used =>
    "'" ++ name ++ "' is declared " ++ declared.text ++ " but used as " ++ used.text
  | .literalTooLarge value ty =>
    "literal " ++ toString value.toInt ++ " does not fit " ++ ty.text
  | .literalType value ty => "integer literal " ++ toString value.toInt ++ " typed " ++ ty.text
  | .charTooLarge value =>
    "character " ++ Text.quoteChar value ++ " is outside the 16-bit range"
  | .voidCall call => "void call " ++ call.text ++ " used as a value"
  | .callType call returned =>
    "call " ++ call.text ++ " typed " ++ call.ty.text ++ " but returns " ++ returned.text
  | .arithmeticOn ty whole => "arithmetic on " ++ ty.text ++ " value: " ++ whole.text
  | .argumentMismatch name count =>
    "call to '" ++ name ++ "' with " ++ toString count ++
      " argument(s) does not match its parameters"
  | .noOverload name => "no overload of '" ++ name ++ "' accepts these arguments"
  | .instanceFromStatic callee caller =>
    "instance function '" ++ callee ++ "' called from static function '" ++ caller ++ "'"
  | .noReceiver name => "'" ++ name ++ "' needs a receiver argument"
  | .noMethods object ty => "'" ++ object ++ "' of type " ++ ty.text ++ " has no methods"

/-- **Compile errors**. -/
inductive CompileError where
  | unresolved (name : String)
  | duplicate (name owner : String)
  | pool (cause : PoolError)
  /-- An error of the assembler, with the function it happened in once that is known. -/
  | assembly (function : String) (cause : AsmError)
  | violation (cause : Violation)
  | missingReturn (function : String)
  /-- The locals would not fit the 16-bit field that counts them. -/
  | tooManyLocals (function : String) (words : Nat)

namespace CompileError

/-- The wording of an error. -/
def message : CompileError → String
  | .unresolved name => "Unresolved symbol: " ++ name
  | .duplicate name owner =>
    "Duplicate declaration of '" ++ name ++ "' in function '" ++ owner ++ "'"
  | .pool cause => "Constant pool error: " ++ cause.message
  | .assembly function cause => "Bytecode error in '" ++ function ++ "': " ++ cause.message
  | .violation cause => "Input contract violation: " ++ cause.message
  | .missingReturn function =>
    "Function '" ++ function ++ "' can complete without returning a value"
  | .tooManyLocals function words =>
    "Locals of '" ++ function ++ "' take " ++ toString words ++ " slots, more than 65535"

/-- Attaches the function to an assembler error that has none yet. -/
def inFunction (name : String) : CompileError → CompileError
  | .assembly function cause => .assembly (if function = "" then name else function) cause
  | e => e

/-- Whether the error is a label that was branched to but never placed. -/
def isUnresolvedBranch : CompileError → Bool
  | .assembly _ (.unresolvedBranch _) => true
  | _ => false

end CompileError

/-- The kind of a value that has to exist. -/
def DataType.valueKind (ty : DataType) : Except CompileError Kind :=
  match ty.kind? with
  | some k => .ok k
  | none => .error (.violation .voidValue)

end ClassFoundry
