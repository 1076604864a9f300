import ClassFoundry.Syntax.Program

/-!
# Access flags

The bits that class files use for the visibility and sort of classes and methods.

## Main definitions

* `AccessFlags.pub` and the other bits
* `FunDef.accessFlags`: the flags of a function
-/

namespace ClassFoundry

namespace AccessFlags

/-- Visible everywhere. -/
def pub : UInt16 := 0x0001

/-- Visible in its class only. -/
def priv : UInt16 := 0x0002

/-- Visible in its class and those that extend it. -/
def prot : UInt16 := 0x0004

/-- Without a receiver. -/
def static : UInt16 := 0x0008

/-- Set on every class. -/
def super : UInt16 := 0x0020

/-- Whether any of the bits is set. -/
def has (flags bits : UInt16) : Bool := flags &&& bits != 0

end AccessFlags

/-- The flag of a visibility. -/
def Visibility.flag : Visibility → UInt16
  | .pub => AccessFlags.pub
  | .prot => AccessFlags.prot
  | .priv => AccessFlags.priv

/-- The flags of a function. -/
def FunDef.accessFlags (f : FunDef) : UInt16 :=
  if f.isStatic then f.visibility.flag ||| AccessFlags.static else f.visibility.flag

end ClassFoundry
