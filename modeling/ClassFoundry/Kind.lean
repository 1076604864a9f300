import ClassFoundry.Instruction.Opcode
import ClassFoundry.Syntax.DataType

/-!
# Kinds of values

How source types are carried at run time. Booleans, characters and integers of up to 32 bits are
machine ints, 64-bit integers are longs of two words, all else are references. Unsigned integers
narrower than an int are carried zero-extended, so only 32 and 64 bits need operations of their
own.

## Main definitions

* `Kind`, `Storage`: what a value is on the stack and among the locals
* `DataType.kind?`, `DataType.width`: the kind and the number of words of a type
* `DataType.narrowing?`: how an int becomes a value of a narrower type
-/

namespace ClassFoundry

/-- What a value is on the operand stack. -/
inductive Kind where
  | int
  | long
  | reference
deriving DecidableEq

/-- Among the locals, numbers and references are kept apart. -/
inductive Storage where
  | integer
  | reference
deriving DecidableEq

namespace Kind

/-- Words taken by one value. -/
def words : Kind → Nat
  | .long => 2
  | _ => 1

/-- Where a value is kept among the locals. -/
def storage : Kind → Storage
  | .reference => .reference
  | _ => .integer

/-- The name of the kind in messages. -/
def text : Kind → String
  | .int => "int"
  | .long => "long"
  | .reference => "reference"

/-- The load with an explicit slot. -/
def loadOp : Kind → Opcode
  | .int => .iload
  | .long => .lload
  | .reference => .aload

/-- The store with an explicit slot. -/
def storeOp : Kind → Opcode
  | .int => .istore
  | .long => .lstore
  | .reference => .astore

/-- The load of slot 0; those of slots 1 to 3 follow it. -/
def loadShort : Kind → Opcode
  | .int => .iload_0
  | .long => .lload_0
  | .reference => .aload_0

/-- The store to slot 0; those to slots 1 to 3 follow it. -/
def storeShort : Kind → Opcode
  | .int => .istore_0
  | .long => .lstore_0
  | .reference => .astore_0

/-- The return of a value. -/
def returnOp : Kind → Opcode
  | .int => .ireturn
  | .long => .lreturn
  | .reference => .areturn

/-- The instruction that drops a value. -/
def popOp : Kind → Opcode
  | .long => .pop2
  | _ => .pop

end Kind

/-- How an int becomes a value of a narrower type. -/
inductive Narrowing where
  /-- One conversion instruction. -/
  | convert (op : Opcode)
  /-- Bitwise and with a mask. -/
  | mask (bits : Int32)
deriving DecidableEq

namespace DataType

/-- The kind of the values of a type; `void` has none. -/
def kind? : DataType → Option Kind
  | .void => none
  | .bool | .char => some .int
  | .int .w64 _ => some .long
  | .int _ _ => some .int
  | .string | .ptr _ | .struct _ | .object _ => some .reference

/-- Words taken by a value of the type. -/
def width (ty : DataType) : Nat :=
  match ty.kind? with
  | some k => k.words
  | none => 0

/-- Where values of the type are kept among the locals. -/
def storage? (ty : DataType) : Option Storage := ty.kind?.map Kind.storage

/-- Whether division, remainder and order need the unsigned library functions. -/
def needsUnsignedOps : DataType → Bool
  | .int .w32 true | .int .w64 true => true
  | _ => false

/-- Whether values are longs. -/
def isLong (ty : DataType) : Bool := ty.kind? == some .long

/-- How an int becomes a value of the type, if the type is narrower. -/
def narrowing? : DataType → Option Narrowing
  | .int .w8 false => some (.convert .i2b)
  | .int .w16 false => some (.convert .i2s)
  | .int .w16 true | .char => some (.convert .i2c)
  | .int .w8 true => some (.mask 0xff)
  | _ => none

/-- The class of an object or structure type. -/
def className? : DataType → Option String
  | .object name | .struct name => some name
  | _ => none

end DataType

end ClassFoundry
