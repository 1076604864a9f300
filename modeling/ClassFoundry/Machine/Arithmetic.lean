import ClassFoundry.Instruction.Action

/-!
# Arithmetic of the machine

Ints are 32-bit and longs 64-bit words in two's complement. Sums, differences and products wrap,
division truncates toward zero, and shifts use the low five or six bits of their distance.

## Main definitions

* `BinOp.onInt`, `BinOp.onLong`: binary operations; none on division by zero
* `ShiftOp.onInt`, `ShiftOp.onLong`: shifts
* `Comparison.holds`: whether a comparison holds of an order

## Main results

* `Comparison.holds_negate`: a comparison and its negation never agree
-/

namespace ClassFoundry

/-- A binary operation on ints; none on division by zero. -/
def BinOp.onInt (op : BinOp) (a b : Int32) : Option Int32 :=
  match op with
  | .add => some (a + b)
  | .sub => some (a - b)
  | .mul => some (a * b)
  | .div => if b = 0 then none else some (a / b)
  | .rem => if b = 0 then none else some (a % b)
  | .and => some (a &&& b)
  | .or => some (a ||| b)
  | .xor => some (a ^^^ b)

/-- A binary operation on longs; none on division by zero. -/
def BinOp.onLong (op : BinOp) (a b : Int64) : Option Int64 :=
  match op with
  | .add => some (a + b)
  | .sub => some (a - b)
  | .mul => some (a * b)
  | .div => if b = 0 then none else some (a / b)
  | .rem => if b = 0 then none else some (a % b)
  | .and => some (a &&& b)
  | .or => some (a ||| b)
  | .xor => some (a ^^^ b)

/-- A shift of an int by the low five bits of the distance. -/
def ShiftOp.onInt (op : ShiftOp) (a distance : Int32) : Int32 :=
  match op with
  | .left => a <<< distance
  | .right => a >>> distance
  | .unsignedRight => (a.toUInt32 >>> distance.toUInt32).toInt32

/-- A shift of a long by the low six bits of the distance. -/
def ShiftOp.onLong (op : ShiftOp) (a : Int64) (distance : Int32) : Int64 :=
  match op with
  | .left => a <<< distance.toInt64
  | .right => a >>> distance.toInt64
  | .unsignedRight => (a.toUInt64 >>> distance.toInt64.toUInt64).toInt64

/-- An int cut to fewer bits: signed ones for bytes and shorts, unsigned ones for characters. -/
def IntCast.apply (cast : IntCast) (v : Int32) : Int32 :=
  match cast with
  | .byte => v.toInt8.toInt32
  | .char => v.toUInt32.toUInt16.toUInt32.toInt32
  | .short => v.toInt16.toInt32

/-- The number that stands for an order: -1, 0 or 1. -/
def Ordering.toInt32 : Ordering → Int32
  | .lt => -1
  | .eq => 0
  | .gt => 1

/-- Whether a comparison holds of two values in the given order. -/
def Comparison.holds : Comparison → Ordering → Bool
  | .eq, o => o == .eq
  | .ne, o => o != .eq
  | .lt, o => o == .lt
  | .ge, o => o != .lt
  | .gt, o => o == .gt
  | .le, o => o != .gt

theorem Comparison.holds_negate (c : Comparison) (o : Ordering) :
    c.negate.holds o = !c.holds o := by
  cases c <;> cases o <;> rfl

/-- The order of two ints. -/
def orderInts (a b : Int32) : Ordering := compare a.toInt b.toInt

/-- The order of two longs. -/
def orderLongs (a b : Int64) : Ordering := compare a.toInt b.toInt

end ClassFoundry
