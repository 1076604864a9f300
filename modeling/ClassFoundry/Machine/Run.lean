import ClassFoundry.Machine.Library

/-!
# The machine

Runs the methods of one class. A run executes one instruction after the other; a call of a method
of the same class suspends the caller, and what is printed is collected. Every instruction counts
as a step, and the number of steps over all calls is limited.

## Main definitions

* `Machine`: what lasts from one call to the next
* `step`: the execution of one instruction
* `run`: the execution of a call, with the steps left as fuel
* `Machine.invoke`, `Machine.invokeStatic`: calls from outside
-/

namespace ClassFoundry

/-- The number of steps that a machine may take, unless told otherwise. -/
def defaultStepLimit : Nat := 1000000

/-- **The machine**: what was printed, the steps taken and allowed, and the serial number of the
next new reference. -/
structure Machine where
  output : String := ""
  steps : Nat := 0
  limit : Nat := defaultStepLimit
  nextSerial : Nat := 0

namespace Machine

/-- A new string. -/
def newString (m : Machine) (text : String) : Value × Machine :=
  (.str (.made m.nextSerial) text, { m with nextSerial := m.nextSerial + 1 })

/-- A new object. -/
def newObject (m : Machine) (className : String) : Value × Machine :=
  (.object (.made m.nextSerial) className, { m with nextSerial := m.nextSerial + 1 })

/-- The output so far, which the machine forgets. -/
def takeOutput (m : Machine) : String × Machine := (m.output, { m with output := "" })

end Machine

/-- What an instruction leads to. -/
inductive Outcome where
  /-- The run goes on with a frame; the others wait for it to return. -/
  | next (machine : Machine) (frame : Frame) (callers : List Frame)
  /-- The outermost call returned. -/
  | done (machine : Machine) (result : Option Value)
  | fault (machine : Machine) (cause : Fault)

/-- The value of a constant. -/
def constantValue (pool : ConstantPool) (index : UInt16) : Except Fault Value :=
  match pool.get? index with
  | some (.integer v) => .ok (.int v)
  | some (.long v) => .ok (.long v)
  | some (.string text) =>
    match pool.text? text with
    | some text => .ok (.str (.literal index) text)
    | none => .error (.badConstant index)
  | _ => .error (.badConstant index)

/-- The frame after a jump from its current instruction. -/
def Frame.jump (f : Frame) (offset : UInt16) : Except Fault Frame :=
  let target := branchTarget f.pc offset
  if 0 ≤ target then .ok { f with pc := target.toNat }
  else .error (.fellOffCode f.method f.pc)

/-- The frame after a jump that depends on a condition. -/
def Frame.jumpIf (f : Frame) (cond : Bool) (offset : UInt16) (next : Nat) : Except Fault Frame :=
  if cond then f.jump offset else .ok { f with pc := next }

/-- The effect of an operation on its frame, which goes on at `next` unless it branches. -/
def Frame.apply (pool : ConstantPool) (f : Frame) (next : Nat) : FrameOp → Except Fault Frame
  | .nop => .ok { f with pc := next }
  | .pushNull => .ok { f.push .null with pc := next }
  | .pushInt v => .ok { f.push (.int v) with pc := next }
  | .pushLong v => .ok { f.push (.long v) with pc := next }
  | .pushConstant index => do
    let v ← constantValue pool index
    return { f.push v with pc := next }
  | .load kind slot => do
    let f ← f.load kind slot
    return { f with pc := next }
  | .store kind slot => do
    let f ← f.store kind slot
    return { f with pc := next }
  | .pop => do
    let (_, f) ← f.pop
    return { f with pc := next }
  | .pop2 => do
    let (v, f) ← f.pop
    if v.hasKind .long then return { f with pc := next }
    else
      let (_, f) ← f.pop
      return { f with pc := next }
  | .dup =>
    match f.stack with
    | v :: _ => .ok { f.push v with pc := next }
    | [] => .error f.underflow
  | .intOp op => do
    let (b, f) ← f.popInt
    let (a, f) ← f.popInt
    match op.onInt a b with
    | some v => return { f.push (.int v) with pc := next }
    | none => throw .divisionByZero
  | .longOp op => do
    let (b, f) ← f.popLong
    let (a, f) ← f.popLong
    match op.onLong a b with
    | some v => return { f.push (.long v) with pc := next }
    | none => throw .divisionByZero
  | .intShift op => do
    let (b, f) ← f.popInt
    let (a, f) ← f.popInt
    return { f.push (.int (op.onInt a b)) with pc := next }
  | .longShift op => do
    let (b, f) ← f.popInt
    let (a, f) ← f.popLong
    return { f.push (.long (op.onLong a b)) with pc := next }
  | .intNeg => do
    let (v, f) ← f.popInt
    return { f.push (.int (-v)) with pc := next }
  | .longNeg => do
    let (v, f) ← f.popLong
    return { f.push (.long (-v)) with pc := next }
  | .intToLong => do
    let (v, f) ← f.popInt
    return { f.push (.long v.toInt64) with pc := next }
  | .longToInt => do
    let (v, f) ← f.popLong
    return { f.push (.int v.toInt32) with pc := next }
  | .intCast cast => do
    let (v, f) ← f.popInt
    return { f.push (.int (cast.apply v)) with pc := next }
  | .longCompare => do
    let (b, f) ← f.popLong
    let (a, f) ← f.popLong
    return { f.push (.int (Ordering.toInt32 (orderLongs a b))) with pc := next }
  | .branchZero test offset => do
    let (v, f) ← f.popInt
    f.jumpIf (test.holds (orderInts v 0)) offset next
  | .branchInts test offset => do
    let (b, f) ← f.popInt
    let (a, f) ← f.popInt
    f.jumpIf (test.holds (orderInts a b)) offset next
  | .branchRefs same offset => do
    let (b, f) ← f.popKind .reference
    let (a, f) ← f.popKind .reference
    f.jumpIf (a.same b == same) offset next
  | .jump offset => f.jump offset
  | .getStatic index =>
    match pool.member? index with
    | none => .error (.badConstant index)
    | some field =>
      if field.owner = systemClass ∧ field.name = "out" then
        .ok { f.push (.object .standardOutput printStreamClass) with pc := next }
      else .error (.unsupportedField field.owner field.name)

/-- The frame with the result of a call, if there is one, on its stack. -/
def Frame.resume (f : Frame) : Option Value → Frame
  | some v => f.push v
  | none => f

/-- Returns a result to the caller, or to the outside. -/
def returnTo (m : Machine) (result : Option Value) : List Frame → Outcome
  | [] => .done m result
  | caller :: callers => .next m (caller.resume result) callers

/-- The operands of a call: the method, the receiver, the arguments, and the frame without
them. -/
def Frame.callOperands (pool : ConstantPool) (f : Frame) (mode : CallMode) (index : UInt16) :
    Except Fault (Member × Option Value × List Value × Frame) :=
  match pool.member? index with
  | none => .error (.badConstant index)
  | some callee =>
    match Descriptor.parameters? callee.descriptor with
    | none => .error (.badConstant index)
    | some params => do
      let (args, f) ← f.popArgs params.length []
      match mode with
      | .static => return (callee, none, args, f)
      | .virtual | .special =>
        let (receiver, f) ← f.popKind .reference
        if receiver = .null then throw .nullPointer
        return (callee, some receiver, args, f)

/-- Does what a library call does. -/
def applyEffect (m : Machine) (f : Frame) (callers : List Frame) : Effect → Outcome
  | .print text => .next { m with output := m.output ++ text } f callers
  | .value v => .next m (f.push v) callers
  | .newString text =>
    let (v, m) := m.newString text
    .next m (f.push v) callers
  | .nothing => .next m f callers

/-- The call of a method. One of the same class gets a frame of its own, unless too many calls
are in progress. -/
def call (c : ClassFile) (m : Machine) (f : Frame) (callers : List Frame) (callee : Member)
    (receiver : Option Value) (args : List Value) : Outcome :=
  if callee.owner = c.name?.getD "" then
    match c.find? callee.name callee.descriptor with
    | none => .fault m (.noSuchMethod callee.name callee.descriptor)
    | some method =>
      if callers.length + 1 ≥ maxCallDepth then .fault m .callDepth
      else .next m (.enter callee.name method receiver args) (f :: callers)
  else
    match libraryCall callee receiver args with
    | .ok effect => applyEffect m f callers effect
    | .error e => .fault m e

/-- The effect of an instruction on the whole machine. -/
def execute (c : ClassFile) (m : Machine) (f : Frame) (callers : List Frame) (next : Nat)
    (a : Action) : Outcome :=
  match a with
  | .ret none => returnTo m none callers
  | .ret (some kind) =>
    match f.popKind kind with
    | .ok (v, _) => returnTo m (some v) callers
    | .error e => .fault m e
  | .invoke mode index =>
    match f.callOperands c.pool mode index with
    | .ok (callee, receiver, args, f) =>
      call c m { f with pc := next } callers callee receiver args
    | .error e => .fault m e
  | .new index =>
    match c.pool.className? index with
    | some className =>
      let (v, m) := m.newObject className
      .next m { f.push v with pc := next } callers
    | none => .fault m (.badConstant index)
  | .frame op =>
    match f.apply c.pool next op with
    | .ok f => .next m f callers
    | .error e => .fault m e

/-- The instruction that a frame is at, with its meaning. -/
def Frame.fetch (f : Frame) : Except Fault (Instruction × Action) :=
  match decodeAt f.code f.pc with
  | .error .outside | .error .truncated => .error (.fellOffCode f.method f.pc)
  | .error (.unknown op) => .error (.unsupportedOpcode f.method f.pc op)
  | .ok i =>
    match i.action? with
    | some a => .ok (i, a)
    | none => .error (.unsupportedOpcode f.method f.pc i.opcode)

/-- **One step**: fetches and executes the current instruction. -/
def step (c : ClassFile) (m : Machine) (f : Frame) (callers : List Frame) : Outcome :=
  match f.fetch with
  | .ok (i, a) => execute c m f callers (f.pc + i.length) a
  | .error e => .fault m e

/-- **A run**: steps until the outermost call returns or a fault occurs. Each step is counted
before it is taken; `fuel` is the number of steps left, and the one that exceeds them is counted
too. -/
def run (c : ClassFile) : (fuel : Nat) → Machine → Frame → List Frame →
    Except Fault (Option Value) × Machine
  | 0, m, _, _ => (.error (.stepLimit m.limit), { m with steps := m.steps + 1 })
  | fuel + 1, m, f, callers =>
    match step c { m with steps := m.steps + 1 } f callers with
    | .next m f callers => run c fuel m f callers
    | .done m result => (.ok result, m)
    | .fault m e => (.error e, m)

namespace Machine

variable (c : ClassFile)

/-- Runs a method with its arguments. -/
def callMethod (m : Machine) (method : Method) (this : Option Value) (args : List Value) :
    Except Fault (Option Value) × Machine :=
  run c (m.limit - m.steps) m (.enter ((c.pool.text? method.name).getD "") method this args) []

/-- Calls the first static method of a name. -/
def invokeStatic (m : Machine) (name : String) (args : List Value) :
    Except Fault (Option Value) × Machine :=
  let found := c.methods.find? fun method =>
    AccessFlags.has method.flags AccessFlags.static && (c.pool.text? method.name).getD "" == name
  match found with
  | some method => m.callMethod c method none args
  | none => (.error (.noSuchMethod name ""), m)

/-- Calls the first method of a name and a descriptor. -/
def invoke (m : Machine) (name descriptor : String) (this : Option Value) (args : List Value) :
    Except Fault (Option Value) × Machine :=
  match c.find? name descriptor with
  | some method => m.callMethod c method this args
  | none => (.error (.noSuchMethod name descriptor), m)

/-- A new object of the class, on which no constructor has run. -/
def newInstance (m : Machine) : Value × Machine := m.newObject (c.name?.getD "")

end Machine

end ClassFoundry
