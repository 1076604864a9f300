import ClassFoundry.ClassFile.Basic
import ClassFoundry.ConstantPool.Builder

/-!
# Writing class files

The bytes of a class. A text whose encoding is longer than its 16-bit length field can say ends
the output just before it.

## Main definitions

* `Constant.encode`, `Method.encode`: the bytes of the parts
* `ClassFile.write`: the bytes of a class, and why they are not complete
* `ClassFile.toBytes`: the bytes alone
-/

namespace ClassFoundry

/-- The tags before the constants of each sort. -/
def Constant.tag? : Constant → Option UInt8
  | .utf8 _ => some 1
  | .integer _ => some 3
  | .long _ => some 5
  | .class _ => some 7
  | .string _ => some 8
  | .fieldRef _ _ => some 9
  | .methodRef _ _ => some 10
  | .nameAndType _ _ => some 12
  | .unusable => none

/-- The bytes of a constant after its tag. -/
def Constant.payload : Constant → Bytes
  | .utf8 text =>
    let bytes := ModifiedUtf8.encode text
    be16 (UInt16.ofNat bytes.length) ++ bytes
  | .integer value => be32 value.toUInt32
  | .long value => be64 value.toUInt64
  | .class name => be16 name
  | .string text => be16 text
  | .fieldRef cls sig => be16 cls ++ be16 sig
  | .methodRef cls sig => be16 cls ++ be16 sig
  | .nameAndType name descriptor => be16 name ++ be16 descriptor
  | .unusable => []

/-- The bytes of a constant; the second slot of a long has none. -/
def Constant.encode (c : Constant) : Bytes :=
  match c.tag? with
  | some tag => tag :: c.payload
  | none => []

/-- Whether a constant can be written. -/
def Constant.fits : Constant → Bool
  | .utf8 text => ModifiedUtf8.encodedLength text ≤ maxTextLength
  | _ => true

/-- A text that is too long for its length field. -/
structure WriteError where
  length : Nat
deriving DecidableEq

/-- The wording of the error. -/
def WriteError.message (e : WriteError) : String :=
  "Utf8 constant of " ++ toString e.length ++ " bytes does not fit its length field"

/-- The error of a constant that cannot be written. -/
def Constant.writeError? (c : Constant) : Option WriteError :=
  match c with
  | .utf8 text => if c.fits then none else some ⟨ModifiedUtf8.encodedLength text⟩
  | _ => none

/-- What was written: all bytes, or those before an error. -/
structure Written where
  bytes : Bytes
  error : Option WriteError := none

/-- The bytes of a pool: the number of indices plus one, then the constants. -/
def ConstantPool.write (pool : ConstantPool) : Written where
  bytes := be16 (UInt16.ofNat (pool.size + 1)) ++
    (pool.constants.toList.takeWhile Constant.fits).flatMap Constant.encode
  error := pool.constants.toList.findSome? Constant.writeError?

/-- The bytes of the code attribute after its length: no exception handlers, no attributes of
its own. -/
def Method.codeInfo (m : Method) : Bytes :=
  be16 m.maxStack ++ be16 m.maxLocals ++ be32 (UInt32.ofNat m.code.size) ++ m.code.toList ++
    be16 0 ++ be16 0

/-- The bytes of a method, whose only attribute is its code. -/
def Method.encode (m : Method) : Bytes :=
  let info := m.codeInfo
  be16 m.flags ++ be16 m.name ++ be16 m.descriptor ++ be16 1 ++
    be16 m.attrName ++ be32 (UInt32.ofNat info.length) ++ info

/-- The bytes before the pool. -/
def ClassFile.header (c : ClassFile) : Bytes :=
  be32 c.magic ++ be16 c.minor ++ be16 c.major

/-- The bytes after the pool. -/
def ClassFile.body (c : ClassFile) : Bytes :=
  be16 c.flags ++ be16 c.thisClass ++ be16 c.superClass ++ be16 0 ++ be16 0 ++
    be16 (UInt16.ofNat c.methods.length) ++ c.methods.flatMap Method.encode ++ be16 0

/-- **Writes a class**. -/
def ClassFile.write (c : ClassFile) : Written :=
  let pool := c.pool.write
  match pool.error with
  | some e => ⟨c.header ++ pool.bytes, some e⟩
  | none => ⟨c.header ++ pool.bytes ++ c.body, none⟩

/-- The bytes of a class, as far as they can be written. -/
def ClassFile.toBytes (c : ClassFile) : Bytes := c.write.bytes

end ClassFoundry
