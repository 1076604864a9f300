import ClassFoundry.CallTable
import ClassFoundry.Machine.Arithmetic
import ClassFoundry.Machine.Frame

/-!
# Library methods

What the machine knows of other classes: printing, texts, and unsigned arithmetic.

## Main definitions

* `Effect`: what a library call does
* `libraryCall`: the effect of a call
-/

namespace ClassFoundry

/-- What a library call does: it prints, gives back a value, makes a new string, or nothing. -/
inductive Effect where
  | print (text : String)
  | value (v : Value)
  | newString (text : String)
  | nothing

/-- The int among the arguments at a position. -/
def argInt (callee : Member) (args : List Value) (i : Nat) : Except Fault Int32 :=
  match args[i]?.bind Value.int? with
  | some v => .ok v
  | none => .error (.unsupportedCall callee)

/-- The long among the arguments at a position. -/
def argLong (callee : Member) (args : List Value) (i : Nat) : Except Fault Int64 :=
  match args[i]?.bind Value.long? with
  | some v => .ok v
  | none => .error (.unsupportedCall callee)

/-- The character of a 16-bit unit; halves of surrogate pairs are replaced. -/
def unitChar (n : Nat) : Char :=
  if 0xd800 ≤ n ∧ n < 0xe000 then '\ufffd' else Char.ofNat n

/-- The text printed for an argument, by the descriptor of the method. -/
def printedText (callee : Member) (args : List Value) : Except Fault String :=
  match callee.descriptor with
  | "()V" => .ok ""
  | "(I)V" | "(B)V" | "(S)V" => do
    let v ← argInt callee args 0
    return toString v.toInt
  | "(J)V" => do
    let v ← argLong callee args 0
    return toString v.toInt
  | "(C)V" => do
    let v ← argInt callee args 0
    return (unitChar v.toUInt32.toUInt16.toNat).toString
  | "(Z)V" => do
    let v ← argInt callee args 0
    return if v = 0 then "false" else "true"
  | "(Ljava/lang/String;)V" =>
    match args.head? with
    | some (.str _ text) => .ok text
    | some .null => .ok "null"
    | _ => .error (.unsupportedCall callee)
  | _ => .error (.unsupportedCall callee)

/-- The methods that print. -/
def printCall (callee : Member) (args : List Value) : Except Fault Effect := do
  let text ← printedText callee args
  return .print (if callee.name = "println" then text.push '\n' else text)

/-- The number of UTF-16 units of a text, as an int. -/
def textLength (text : String) : Int32 := Int32.ofNat (ModifiedUtf8.units text).length

/-- The methods of texts. -/
def textCall (callee : Member) (receiver : Option Value) (args : List Value) :
    Except Fault Effect :=
  match receiver.bind Value.str? with
  | none => .error (.unsupportedCall callee)
  | some this =>
    match callee.name with
    | "concat" =>
      match args.head?.bind Value.str? with
      | some other => .ok (.newString (this ++ other))
      | none => .error .nullPointer
    | "length" => .ok (.value (.int (textLength this)))
    | "equals" =>
      .ok (.value (.int (if args.head?.bind Value.str? = some this then 1 else 0)))
    | _ => .error (.unsupportedCall callee)

/-- Unsigned arithmetic on ints. -/
def intCall (callee : Member) (args : List Value) : Except Fault Effect := do
  let a := (← argInt callee args 0).toUInt32
  let b := (← argInt callee args 1).toUInt32
  match callee.name with
  | "compareUnsigned" => return .value (.int (Ordering.toInt32 (compare a.toNat b.toNat)))
  | "divideUnsigned" =>
    if b = 0 then throw .divisionByZero else return .value (.int (a / b).toInt32)
  | "remainderUnsigned" =>
    if b = 0 then throw .divisionByZero else return .value (.int (a % b).toInt32)
  | _ => throw (.unsupportedCall callee)

/-- Unsigned arithmetic on longs. -/
def longCall (callee : Member) (args : List Value) : Except Fault Effect := do
  let a := (← argLong callee args 0).toUInt64
  let b := (← argLong callee args 1).toUInt64
  match callee.name with
  | "compareUnsigned" => return .value (.int (Ordering.toInt32 (compare a.toNat b.toNat)))
  | "divideUnsigned" =>
    if b = 0 then throw .divisionByZero else return .value (.long (a / b).toInt64)
  | "remainderUnsigned" =>
    if b = 0 then throw .divisionByZero else return .value (.long (a % b).toInt64)
  | _ => throw (.unsupportedCall callee)

/-- **A call of a library method**. A constructor without parameters has nothing to do, whatever
its class. -/
def libraryCall (callee : Member) (receiver : Option Value) (args : List Value) :
    Except Fault Effect :=
  if callee.owner = printStreamClass ∧ (callee.name = "print" ∨ callee.name = "println") then
    printCall callee args
  else if callee.owner = Descriptor.stringClass then textCall callee receiver args
  else if callee.owner = "java/lang/Integer" then intCall callee args
  else if callee.owner = "java/lang/Long" then longCall callee args
  else if callee.name = constructorName ∧ callee.descriptor = constructorDescriptor then
    .ok .nothing
  else .error (.unsupportedCall callee)

end ClassFoundry
