import ClassFoundry.AccessFlags
import ClassFoundry.ConstantPool.Builder
import ClassFoundry.Descriptor
import ClassFoundry.Text.Numeral

/-!
# Options

What shapes a generated class file, with defaults that the environment can change.

## Main definitions

* `Options`: the options
* `majorVersion?`: the class file version of a release
* `Options.ofEnvironment`: the options of an environment, with warnings
-/

namespace ClassFoundry

/-- **The options** of the compiler. -/
structure Options where
  /-- The version of the class file. -/
  major : UInt16 := 52
  superClass : String := Descriptor.objectClass
  flags : UInt16 := AccessFlags.pub ||| AccessFlags.super
  /-- Whether classes get a constructor that calls the one of the superclass. -/
  defaultConstructor : Bool := true
  /-- Whether classes are verified. -/
  verify : Bool := true
  /-- Whether every emitted instruction is traced. -/
  debug : Bool := false
  /-- The highest index of the constant pool. -/
  poolLimit : Nat := maxPoolIndex
deriving DecidableEq

/-- The class file version of a release such as `8`, `1.8` or `17`. -/
def majorVersion? (release : String) : Option UInt16 :=
  let chars := Text.trim release.toList
  let feature := match chars with
    | '1' :: '.' :: rest => rest
    | chars => chars
  match Text.Decimal.parse 0 65535 feature with
  | .ok n => if 1 ≤ n ∧ n ≤ 30 then some (UInt16.ofNat (44 + n.toNat)) else none
  | .error _ => none

/-- The variable that turns tracing on. -/
def debugVariable : String := "JCLASSGEN_DEBUG_CODE"

/-- The variable that turns verification off. -/
def noVerifyVariable : String := "JCLASSGEN_NO_VERIFY"

/-- The variable that holds the release. -/
def targetVariable : String := "JCLASSGEN_TARGET"

/-- The options under an environment, and the warnings they give rise to. -/
def Options.ofEnvironment (lookup : String → Option String) : Options × List String :=
  let debug := (lookup debugVariable).isSome
  let verify := (lookup noVerifyVariable).isNone
  let verifyWarnings :=
    if verify then [] else [noVerifyVariable ++ " set: structural verification disabled"]
  match lookup targetVariable with
  | none => ({ debug, verify }, verifyWarnings)
  | some target =>
    match majorVersion? target with
    | some major => ({ debug, verify, major }, verifyWarnings)
    | none =>
      ({ debug, verify },
        verifyWarnings ++ ["ignoring unknown " ++ targetVariable ++ " '" ++ target ++ "'"])

end ClassFoundry
