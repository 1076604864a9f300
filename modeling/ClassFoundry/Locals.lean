import ClassFoundry.CompileError

/-!
# Local variables

All locals of a function share one array of slots: first what is reserved for the receiver, then
the parameters, then the numbers, then the references. How many slots the numbers take is known
before any code is emitted, because the whole body is scanned for declarations. A name is visible
in the whole function, and cannot be declared twice.

## Main definitions

* `Layout`: how many slots each part takes
* `Locals`: the slots of a function
* `Locals.declare`, `Locals.resolve`: a new variable, and one by its name
-/

namespace ClassFoundry

/-- A declared variable and its slots. -/
structure Slot where
  name : String
  ty : DataType
  storage : Storage
  slot : Nat
  width : Nat
deriving DecidableEq

/-- **The layout** of the slots of a function. -/
structure Layout where
  /-- The first slot after what is reserved and the parameters. -/
  paramsEnd : Nat
  /-- The slots taken by all numbers declared in the body. -/
  integerWidth : Nat := 0
  /-- The slots taken by all references declared in the body. -/
  referenceWidth : Nat := 0
deriving DecidableEq

namespace Layout

/-- Adds a declaration. -/
def add (l : Layout) (ty : DataType) : Layout :=
  match ty.storage? with
  | some .integer => { l with integerWidth := l.integerWidth + ty.width }
  | some .reference => { l with referenceWidth := l.referenceWidth + 1 }
  | none => l

mutual

/-- Adds the declarations of a statement. -/
def addStmt (l : Layout) : Stmt → Layout
  | .declare _ ty _ => l.add ty
  | .ifThen _ body => l.addBlock body
  | .ifElse _ body orElse => (l.addBlock body).addBlock orElse
  | .loop _ body => l.addBlock body
  | _ => l

/-- Adds the declarations of a block. -/
def addBlock (l : Layout) : List Stmt → Layout
  | [] => l
  | s :: rest => (l.addStmt s).addBlock rest

end

/-- The layout of a function body. -/
def scan (body : List Stmt) (paramsEnd : Nat) : Layout :=
  addBlock { paramsEnd } body

@[simp] theorem paramsEnd_add (l : Layout) (ty : DataType) :
    (l.add ty).paramsEnd = l.paramsEnd := by
  unfold add
  split <;> rfl

mutual

theorem paramsEnd_addStmt (l : Layout) (s : Stmt) : (l.addStmt s).paramsEnd = l.paramsEnd := by
  cases s with
  | declare name ty init => simp [addStmt]
  | ifThen cond body => simpa [addStmt] using paramsEnd_addBlock l body
  | ifElse cond body orElse =>
    rw [addStmt, paramsEnd_addBlock, paramsEnd_addBlock]
  | loop cond body => simpa [addStmt] using paramsEnd_addBlock l body
  | _ => rfl

theorem paramsEnd_addBlock (l : Layout) (block : List Stmt) :
    (l.addBlock block).paramsEnd = l.paramsEnd := by
  cases block with
  | nil => rfl
  | cons s rest => rw [addBlock, paramsEnd_addBlock, paramsEnd_addStmt]

end

@[simp] theorem paramsEnd_scan (body : List Stmt) (paramsEnd : Nat) :
    (scan body paramsEnd).paramsEnd = paramsEnd :=
  paramsEnd_addBlock _ _

/-- The slot of the first reference. -/
def firstReference (l : Layout) : Nat := l.paramsEnd + l.integerWidth

/-- The number of slots. -/
def maxLocals (l : Layout) : Nat := l.paramsEnd + l.integerWidth + l.referenceWidth

end Layout

/-- **The local variables** of a function: those declared so far, and the next free slot of each
part. -/
structure Locals where
  function : String
  slots : List Slot := []
  nextParam : Nat
  nextInteger : Nat
  nextReference : Nat
  maxLocals : Nat

namespace Locals

/-- No variables yet; parameters start at `firstParam`. -/
def start (function : String) (firstParam : Nat) (layout : Layout) : Locals where
  function
  nextParam := firstParam
  nextInteger := layout.paramsEnd
  nextReference := layout.firstReference
  maxLocals := layout.paramsEnd

/-- The variable of a name. -/
def find? (l : Locals) (name : String) : Option Slot := l.slots.find? (·.name == name)

/-- The storage of a variable that may be declared: its name is new and its type has values. -/
def checkNew (l : Locals) (name : String) (ty : DataType) : Except CompileError Storage :=
  if (l.find? name).isSome then .error (.duplicate name l.function)
  else
    match ty.storage? with
    | some storage => .ok storage
    | none => .error (.violation (.voidVariable name))

/-- Adds a variable at a slot, if it fits the frame. -/
def insert (l : Locals) (name : String) (ty : DataType) (storage : Storage) (slot : Nat) :
    Except CompileError Locals :=
  if slot + ty.width ≤ maxFrameWords then
    .ok { l with
      slots := ⟨name, ty, storage, slot, ty.width⟩ :: l.slots
      maxLocals := max l.maxLocals (slot + ty.width) }
  else .error (.tooManyLocals l.function (slot + ty.width))

/-- Declares a parameter, at the next slot of the parameters. -/
def declareParam (l : Locals) (name : String) (ty : DataType) :
    Except CompileError (Nat × Locals) := do
  let storage ← l.checkNew name ty
  let slot := l.nextParam
  let l ← l.insert name ty storage slot
  return (slot, { l with nextParam := slot + ty.width })

/-- Declares a variable of the body, at the next slot for its storage. -/
def declare (l : Locals) (name : String) (ty : DataType) :
    Except CompileError (Nat × Locals) := do
  match ← l.checkNew name ty with
  | .integer =>
    let slot := l.nextInteger
    let l ← l.insert name ty .integer slot
    return (slot, { l with nextInteger := slot + ty.width })
  | .reference =>
    let slot := l.nextReference
    let l ← l.insert name ty .reference slot
    return (slot, { l with nextReference := slot + ty.width })

/-- The variable of a name, as an error where there is none. -/
def resolve (l : Locals) (name : String) : Except CompileError Slot :=
  match l.find? name with
  | some s => .ok s
  | none => .error (.unresolved name)

/-- Declares parameters in order. -/
def declareParams : Locals → List Param → Except CompileError Locals
  | l, [] => .ok l
  | l, p :: rest => do
    let (_, l) ← l.declareParam p.name p.ty
    declareParams l rest

/-- The locals of a function with its parameters, after `reserved` slots. The first reference has
to have a slot; whether the references fit is seen when they are declared, because those in dead
code never are. -/
def ofFunction (f : FunDef) (reserved : Nat) : Except CompileError Locals :=
  let paramsWidth := f.params.foldl (fun n p => n + p.ty.width) 0
  let layout := Layout.scan f.body (reserved + paramsWidth)
  if layout.firstReference > maxFrameWords then
    .error (.tooManyLocals f.name layout.firstReference)
  else declareParams (start f.name reserved layout) f.params

/-- The variables by slot, and by name where slots are equal. -/
def sorted (l : Locals) : List Slot :=
  l.slots.mergeSort fun a b => a.slot < b.slot || (a.slot == b.slot && a.name ≤ b.name)

end Locals

end ClassFoundry
