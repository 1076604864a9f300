/-!
# Labels

Symbolic branch targets of one method body. A branch to a label that has no place yet waits for
it; placing the label hands out all branches that wait for it, in the order in which they were
added.

## Main definitions

* `Label`, `PendingBranch`: a target, and a branch that waits for one
* `LabelTable`: the labels of a method body
* `LabelTable.place`: fixes a label and takes the branches that wait for it
-/

namespace ClassFoundry

/-- A symbolic branch target. -/
structure Label where
  id : Nat
deriving DecidableEq

/-- How a label is written. -/
def Label.text (l : Label) : String := "L" ++ toString l.id

/-- A branch whose target has no place yet. -/
structure PendingBranch where
  /-- The offset of the branch, from which its own offset is counted. -/
  branch : Nat
  /-- The offset of the operand to be filled in. -/
  operand : Nat
  label : Label
deriving DecidableEq

/-- What is known of a label. -/
structure LabelState where
  /-- The place of the label. -/
  offset : Option Nat := none
  /-- The stack depth at the label, as the first branch to it or its placement saw it. -/
  entryDepth : Option Nat := none
deriving DecidableEq

/-- Why a label cannot be used. -/
inductive LabelError where
  | alreadyPlaced (label : Label)
  | unknown (label : Label)
deriving DecidableEq

/-- **Label tables**. -/
structure LabelTable where
  states : Array LabelState := #[]
  pending : Array PendingBranch := #[]
deriving DecidableEq

namespace LabelTable

variable (t : LabelTable)

/-- A new label. -/
def fresh : Label × LabelTable :=
  (⟨t.states.size⟩, { t with states := t.states.push {} })

/-- The place of a label. -/
def offset? (l : Label) : Option Nat :=
  match t.states[l.id]? with
  | some s => s.offset
  | none => none

@[simp] theorem offset?_fresh : t.fresh.2.offset? t.fresh.1 = none := by
  simp [fresh, offset?]

/-- The stack depth at a label. -/
def entryDepth? (l : Label) : Except LabelError (Option Nat) :=
  match t.states[l.id]? with
  | some s => .ok s.entryDepth
  | none => .error (.unknown l)

/-- Records the stack depth at a label; the first one stays. -/
def noteDepth (l : Label) (depth : Nat) : Except LabelError LabelTable :=
  match t.states[l.id]? with
  | some s =>
    .ok { t with
      states := t.states.setIfInBounds l.id { s with entryDepth := s.entryDepth.or (some depth) } }
  | none => .error (.unknown l)

/-- Lets a branch wait for its label. -/
def addPending (b : PendingBranch) : LabelTable :=
  { t with pending := t.pending.push b }

/-- **Fixes a label** at an offset and takes the branches that wait for it. -/
def place (l : Label) (offset : Nat) : Except LabelError (List PendingBranch × LabelTable) :=
  match t.states[l.id]? with
  | none => .error (.unknown l)
  | some s =>
    if s.offset.isSome then .error (.alreadyPlaced l)
    else
      .ok ((t.pending.filter (·.label = l)).toList,
        { states := t.states.setIfInBounds l.id { s with offset := some offset }
          pending := t.pending.filter (·.label ≠ l) })

/-- The smallest label that a branch waits for. -/
def firstUnresolved? : Option Label :=
  t.pending.foldl (fun found b =>
    match found with
    | some l => some (if b.label.id < l.id then b.label else l)
    | none => some b.label) none

end LabelTable

end ClassFoundry
