import ClassFoundry.Text.ModifiedUtf8

/-!
# Constant pools

The table of constants of a class. Indices start at 1; a long takes two of them, and the second
holds no constant of its own. Classes, texts and members refer to other constants by index.

## Main definitions

* `Constant`: an entry of the table
* `ConstantPool`: the table
* `ConstantPool.get?`: the constant with an index
* `ConstantPool.text?`, `className?`, `member?`: what an index finally names
-/

namespace ClassFoundry

/-- **Constants**. Indices refer to other constants of the same pool. -/
inductive Constant where
  | utf8 (text : String)
  | integer (value : Int32)
  | long (value : Int64)
  | class (name : UInt16)
  | string (text : UInt16)
  | fieldRef (cls nameAndType : UInt16)
  | methodRef (cls nameAndType : UInt16)
  | nameAndType (name descriptor : UInt16)
  /-- The second slot of a long. -/
  | unusable
deriving DecidableEq, Hashable

namespace Constant

/-- How many indices a constant takes. -/
def slots : Constant → Nat
  | .long _ => 2
  | _ => 1

/-- The name of the sort of a constant. -/
def tagName : Constant → String
  | .utf8 _ => "Utf8"
  | .integer _ => "Integer"
  | .long _ => "Long"
  | .class _ => "Class"
  | .string _ => "String"
  | .fieldRef _ _ => "Fieldref"
  | .methodRef _ _ => "Methodref"
  | .nameAndType _ _ => "NameAndType"
  | .unusable => "(unusable)"

end Constant

/-- A member of a class: the class, the name and the descriptor. -/
structure Member where
  owner : String
  name : String
  descriptor : String
deriving DecidableEq

/-- **Constant pools**: the constants in the order of their indices. -/
structure ConstantPool where
  constants : Array Constant := #[]
deriving DecidableEq

namespace ConstantPool

variable (pool : ConstantPool)

/-- The number of indices in use. -/
def size : Nat := pool.constants.size

/-- The constant with a 1-based index; none at the second slot of a long. -/
def get? (index : UInt16) : Option Constant :=
  if index = 0 then none
  else
    match pool.constants[index.toNat - 1]? with
    | some .unusable => none
    | found => found

@[simp] theorem get?_zero : pool.get? 0 = none := rfl

/-- The text with an index. -/
def text? (index : UInt16) : Option String :=
  match pool.get? index with
  | some (.utf8 text) => some text
  | _ => none

/-- The name of the class with an index. -/
def className? (index : UInt16) : Option String :=
  match pool.get? index with
  | some (.class name) => pool.text? name
  | _ => none

/-- The member given by the indices of its class and of its name and type. -/
def memberOf? (cls nameAndType : UInt16) : Option Member :=
  match pool.get? nameAndType with
  | some (.nameAndType name descriptor) => do
    let owner ← pool.className? cls
    let name ← pool.text? name
    let descriptor ← pool.text? descriptor
    return ⟨owner, name, descriptor⟩
  | _ => none

/-- The field or method with an index. -/
def member? (index : UInt16) : Option Member :=
  match pool.get? index with
  | some (.fieldRef cls nameAndType) | some (.methodRef cls nameAndType) =>
    pool.memberOf? cls nameAndType
  | _ => none

/-- The constants with their indices, in order, without the second slots of longs. -/
def entries : List (UInt16 × Constant) :=
  pool.constants.toList.zipIdx.filterMap fun (c, i) =>
    if c = .unusable then none else some (UInt16.ofNat (i + 1), c)

end ConstantPool

end ClassFoundry
