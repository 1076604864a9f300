import ClassFoundry.Kind
import ClassFoundry.Text.Quoted

/-!
# Values of the machine

Ints, longs and references. References have an identity: a string literal is one reference for
each index of the constant pool, and every other string or object is told apart by a serial
number.

## Main definitions

* `Ref`, `Value`: identities and values
* `Value.hasKind`: whether a value is of a kind
* `Value.same`: reference identity
* `Value.text?`: how a value is shown
-/

namespace ClassFoundry

/-- The identity of a reference. -/
inductive Ref where
  /-- The string literal with an index of the constant pool. -/
  | literal (index : UInt16)
  /-- The object that prints. -/
  | standardOutput
  /-- A string or object made during a run. -/
  | made (serial : Nat)
deriving DecidableEq

/-- **Values**. -/
inductive Value where
  | int (value : Int32)
  | long (value : Int64)
  | null
  | str (ref : Ref) (text : String)
  | object (ref : Ref) (className : String)
  /-- The upper half of a long among the locals, or a local never written. -/
  | top
deriving DecidableEq, Inhabited

namespace Value

/-- Whether a value is a reference. -/
def isReference : Value → Bool
  | .null | .str _ _ | .object _ _ => true
  | _ => false

/-- Whether a value is of a kind. -/
def hasKind : Kind → Value → Bool
  | .int, .int _ => true
  | .long, .long _ => true
  | .reference, v => v.isReference
  | _, _ => false

/-- The number in an int. -/
def int? : Value → Option Int32
  | .int v => some v
  | _ => none

/-- The number in a long. -/
def long? : Value → Option Int64
  | .long v => some v
  | _ => none

/-- The text of a string. -/
def str? : Value → Option String
  | .str _ text => some text
  | _ => none

/-- Whether two values are the same reference. -/
def same : Value → Value → Bool
  | .null, .null => true
  | .str a _, .str b _ => a == b
  | .object a _, .object b _ => a == b
  | _, _ => false

/-- How a value is shown. Of an object nothing lasting can be shown. -/
def text? : Value → Option String
  | .int v => some (toString v.toInt)
  | .long v => some (toString v.toInt ++ "L")
  | .null => some "null"
  | .str _ text => some (Text.quoteString text)
  | .object _ _ => none
  | .top => some "<top>"

end Value

end ClassFoundry
