import ClassFoundry.ConstantPool.Basic
import Std.Data.HashMap

/-!
# Building constant pools

Constants are interned: one that is equal to an entry of the pool gets the index of that entry,
any other is appended. A limit bounds the highest index, and texts have to fit their 16-bit
length field. What was appended before a failure stays.

## Main definitions

* `PoolBuilder`: a pool under construction
* `PoolBuilder.intern`: the index of a constant
* `PoolBuilder.internMethod` and its like: a constant together with those it refers to
-/

namespace ClassFoundry

/-- The highest index of a pool: the class file holds the number of constants plus one in 16
bits. -/
def maxPoolIndex : Nat := 65534

/-- The longest encoded text. -/
def maxTextLength : Nat := 65535

/-- Why a constant cannot be interned, or an index has no constant. -/
inductive PoolError where
  | overflow (current adding max : Nat)
  | invalidIndex (index : UInt16)
  | textTooLong (length : Nat)
deriving DecidableEq

/-- The wording of an error. -/
def PoolError.message : PoolError → String
  | .overflow current adding max =>
    "Constant pool size limit exceeded: current=" ++ toString current ++ ", adding=" ++
      toString adding ++ ", max=" ++ toString max
  | .invalidIndex index => "Invalid constant pool index: " ++ toString index.toNat
  | .textTooLong length =>
    "Utf8 constant of " ++ toString length ++ " bytes exceeds the 65535-byte limit"

/-- The constant with an index, as an error where there is none. -/
def ConstantPool.lookup (pool : ConstantPool) (index : UInt16) : Except PoolError Constant :=
  match pool.get? index with
  | some c => .ok c
  | none => .error (.invalidIndex index)

/-- **A pool under construction**: the table, the index of every constant in it, and the highest
index that may be given out. -/
structure PoolBuilder where
  pool : ConstantPool := {}
  index : Std.HashMap Constant UInt16 := {}
  limit : Nat := maxPoolIndex

/-- Work on a pool; its effects remain when it fails. -/
abbrev PoolM := EStateM PoolError PoolBuilder

namespace PoolBuilder

/-- An empty pool with a limit, which the format bounds. -/
def withLimit (limit : Nat) : PoolBuilder where
  limit := min limit maxPoolIndex

/-- A pool that holds the given constants; of equal ones the first is found. -/
def ofConstants (constants : Array Constant) : PoolBuilder where
  pool := ⟨constants⟩
  index := constants.toList.zipIdx.foldl
    (fun m (c, i) => if c = .unusable then m else m.insertIfNew c (UInt16.ofNat (i + 1))) {}

/-- The table with a constant appended, and the empty slot after a long. -/
def append (constants : Array Constant) (c : Constant) : Array Constant :=
  if c.slots = 2 then (constants.push c).push .unusable else constants.push c

/-- **The index of a constant**, which is appended if it is new. -/
def intern (c : Constant) : PoolM UInt16 := fun ⟨⟨constants⟩, index, limit⟩ =>
  match index[c]? with
  | some i => .ok i ⟨⟨constants⟩, index, limit⟩
  | none =>
    let current := constants.size
    if current + c.slots > limit then
      .error (.overflow current c.slots limit) ⟨⟨constants⟩, index, limit⟩
    else
      let i := UInt16.ofNat (current + 1)
      .ok i ⟨⟨append constants c⟩, index.insert c i, limit⟩

/-- The index of a text. -/
def internText (text : String) : PoolM UInt16 := do
  let length := ModifiedUtf8.encodedLength text
  if length > maxTextLength then throw (.textTooLong length)
  intern (.utf8 text)

/-- The index of a class. -/
def internClass (name : String) : PoolM UInt16 := do
  let name ← internText name
  intern (.class name)

/-- The index of a name with its descriptor. -/
def internNameAndType (name descriptor : String) : PoolM UInt16 := do
  let name ← internText name
  let descriptor ← internText descriptor
  intern (.nameAndType name descriptor)

/-- The index of a field. -/
def internField (m : Member) : PoolM UInt16 := do
  let cls ← internClass m.owner
  let nameAndType ← internNameAndType m.name m.descriptor
  intern (.fieldRef cls nameAndType)

/-- The index of a method. -/
def internMethod (m : Member) : PoolM UInt16 := do
  let cls ← internClass m.owner
  let nameAndType ← internNameAndType m.name m.descriptor
  intern (.methodRef cls nameAndType)

/-- The index of a string literal. -/
def internString (text : String) : PoolM UInt16 := do
  let text ← internText text
  intern (.string text)

/-- The index of an int. -/
def internInteger (value : Int32) : PoolM UInt16 := intern (.integer value)

/-- The index of a long. -/
def internLong (value : Int64) : PoolM UInt16 := intern (.long value)

end PoolBuilder

end ClassFoundry
