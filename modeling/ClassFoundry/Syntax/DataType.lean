/-!
# Source data types

The closed set of types a program is written in, and their text.

## Main definitions

* `Width`, `DataType`: the types
* `DataType.text`: how a type is written
-/

namespace ClassFoundry

/-- Width of a source integer type. -/
inductive Width where
  | w8
  | w16
  | w32
  | w64
deriving DecidableEq

/-- The number of bits. -/
def Width.bits : Width → Nat
  | .w8 => 8
  | .w16 => 16
  | .w32 => 32
  | .w64 => 64

/-- **Source types**: integers come in four widths, signed and unsigned; structures and objects
are known by the name of their class. -/
inductive DataType where
  | void
  | bool
  | char
  | int (width : Width) (unsigned : Bool)
  | string
  | ptr (base : DataType)
  | struct (name : String)
  | object (name : String)
deriving DecidableEq

namespace DataType

/-- The signed 32-bit integers. -/
abbrev i32 : DataType := .int .w32 false

/-- The signed 64-bit integers. -/
abbrev i64 : DataType := .int .w64 false

/-- Whether values are integers without a sign. -/
def isUnsigned : DataType → Bool
  | .int _ unsigned => unsigned
  | _ => false

/-- How a type is written. -/
def text : DataType → String
  | .void => "void"
  | .bool => "bool"
  | .char => "char"
  | .int width unsigned => (if unsigned then "u" else "i") ++ toString width.bits
  | .string => "string"
  | .ptr base => base.text ++ "*"
  | .struct name => "struct " ++ name
  | .object name => name

end DataType

end ClassFoundry
