import ClassFoundry.ClassFile.Basic
import ClassFoundry.Machine.Value
import ClassFoundry.Text.Numeral

/-!
# Frames

One call in progress: the code, the offset of the current instruction, the locals and the
operand stack.

## Main definitions

* `Fault`: why a run ends without a result
* `Frame`: a call in progress
* `Frame.enter`: the frame of a call
* `Frame.pop`, `Frame.load`, `Frame.store`: operands and locals
-/

namespace ClassFoundry

/-- The most calls in progress at a time. -/
def maxCallDepth : Nat := 512

/-- **Why a run ends** without a result. -/
inductive Fault where
  | noSuchMethod (name descriptor : String)
  | badConstant (index : UInt16)
  | unsupportedOpcode (method : String) (pc : Nat) (op : Opcode)
  | stackUnderflow (method : String) (pc : Nat)
  | typeMismatch (method : String) (pc : Nat) (expected : Kind)
  | badLocal (method : String) (pc slot : Nat)
  | fellOffCode (method : String) (pc : Nat)
  | unsupportedCall (callee : Member)
  | unsupportedField (owner name : String)
  | divisionByZero
  | nullPointer
  | callDepth
  | stepLimit (limit : Nat)
deriving DecidableEq

/-- A place in a method. -/
def placeText (method : String) (pc : Nat) : String := method ++ "@" ++ toString pc ++ ": "

/-- The wording of a fault. -/
def Fault.message : Fault → String
  | .noSuchMethod name descriptor => "no method " ++ name ++ descriptor
  | .badConstant index => "bad constant pool reference #" ++ toString index.toNat
  | .unsupportedOpcode method pc op =>
    placeText method pc ++ "unsupported opcode 0x" ++ Text.hex 2 op.toNat
  | .stackUnderflow method pc => placeText method pc ++ "operand stack underflow"
  | .typeMismatch method pc expected =>
    placeText method pc ++ "expected " ++ expected.text ++ " value"
  | .badLocal method pc slot =>
    placeText method pc ++ "local " ++ toString slot ++ " out of range"
  | .fellOffCode method pc => placeText method pc ++ "fell off the end of the code"
  | .unsupportedCall callee =>
    "call to unsupported method " ++ callee.owner ++ "." ++ callee.name ++ callee.descriptor
  | .unsupportedField owner name => "access to unsupported field " ++ owner ++ "." ++ name
  | .divisionByZero => "division by zero"
  | .nullPointer => "null pointer dereference"
  | .callDepth => "call depth exceeds " ++ toString maxCallDepth
  | .stepLimit limit => "step limit of " ++ toString limit ++ " instructions exceeded"

/-- **A call in progress**. The head of `stack` is its top. -/
structure Frame where
  method : String
  code : CodeArray
  pc : Nat := 0
  locals : Array Value
  stack : List Value := []

namespace Frame

/-- The locals of a call: the receiver, then the arguments, each long followed by its upper half,
then unwritten slots up to the number that the method declares. -/
def initialLocals (maxLocals : Nat) (this : Option Value) (args : List Value) : Array Value :=
  let filled := args.foldl (fun locals v =>
    match v with
    | .long _ => (locals.push v).push .top
    | _ => locals.push v) this.toList.toArray
  filled ++ Array.replicate (maxLocals - filled.size) Value.top

/-- The frame of a call. -/
def enter (name : String) (m : Method) (this : Option Value) (args : List Value) : Frame where
  method := name
  code := m.code
  locals := initialLocals m.maxLocals.toNat this args

variable (f : Frame)

/-- The fault of a stack that is too short. -/
def underflow : Fault := .stackUnderflow f.method f.pc

/-- The fault of a value of another kind. -/
def mismatch (expected : Kind) : Fault := .typeMismatch f.method f.pc expected

/-- The frame with a value on top of the stack. -/
def push (v : Value) : Frame := { f with stack := v :: f.stack }

/-- The top of the stack, and the frame without it. -/
def pop : Except Fault (Value × Frame) :=
  match f.stack with
  | v :: rest => .ok (v, { f with stack := rest })
  | [] => .error f.underflow

@[simp] theorem pop_push (v : Value) : (f.push v).pop = .ok (v, f) := rfl

/-- The int on top of the stack. -/
def popInt : Except Fault (Int32 × Frame) :=
  match f.stack with
  | .int v :: rest => .ok (v, { f with stack := rest })
  | _ :: _ => .error (f.mismatch .int)
  | [] => .error f.underflow

/-- The long on top of the stack. -/
def popLong : Except Fault (Int64 × Frame) :=
  match f.stack with
  | .long v :: rest => .ok (v, { f with stack := rest })
  | _ :: _ => .error (f.mismatch .long)
  | [] => .error f.underflow

/-- The value of a kind on top of the stack. -/
def popKind (kind : Kind) : Except Fault (Value × Frame) :=
  match f.stack with
  | v :: rest =>
    if v.hasKind kind then .ok (v, { f with stack := rest }) else .error (f.mismatch kind)
  | [] => .error f.underflow

/-- The top `n` values, the last popped first, put before `acc`. -/
def popArgs : Frame → Nat → List Value → Except Fault (List Value × Frame)
  | f, 0, acc => .ok (acc, f)
  | f, n + 1, acc => do
    let (v, f) ← f.pop
    popArgs f n (v :: acc)

/-- Pushes a local of a kind. -/
def load (kind : Kind) (slot : Nat) : Except Fault Frame :=
  match f.locals[slot]? with
  | some v => if v.hasKind kind then .ok (f.push v) else .error (f.mismatch kind)
  | none => .error (.badLocal f.method f.pc slot)

/-- Pops a value of a kind into a local; a long also takes the next one. -/
def store (kind : Kind) (slot : Nat) : Except Fault Frame := do
  let (v, f) ← f.popKind kind
  if slot + kind.words ≤ f.locals.size then
    let locals := f.locals.setIfInBounds slot v
    return { f with
      locals := if kind = .long then locals.setIfInBounds (slot + 1) .top else locals }
  else throw (.badLocal f.method f.pc slot)

end Frame

end ClassFoundry
