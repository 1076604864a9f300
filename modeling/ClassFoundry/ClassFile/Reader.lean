import ClassFoundry.ClassFile.Basic
import ClassFoundry.Text.Numeral

/-!
# Reading class files

A class from its bytes. Interfaces, fields, exception handlers and attributes other than the code
of a method are skipped. A fault tells the offset at which the part began that could not be read.

## Main definitions

* `Reader`: reads from a cursor
* `readPool`, `readMethod`: the parts
* `ClassFile.read`: the class at the head of a byte sequence
-/

namespace ClassFoundry

/-- Why bytes are not a class file. -/
inductive ReadError where
  | truncated (offset : Nat)
  | badMagic (magic : UInt32)
  | badText (offset : Nat)
  | unsupportedConstant (tag : UInt8) (offset : Nat)
  | missingCode (method : String)
deriving DecidableEq

/-- The wording of an error. -/
def ReadError.message : ReadError → String
  | .truncated offset => "class file truncated at byte " ++ toString offset
  | .badMagic magic => "bad magic 0x" ++ Text.hex 8 magic.toNat
  | .badText offset => "malformed Utf8 constant at byte " ++ toString offset
  | .unsupportedConstant tag offset =>
    "unsupported constant tag " ++ toString tag.toNat ++ " at byte " ++ toString offset
  | .missingCode method => "method " ++ method ++ " has no Code attribute"

/-- What is left to read, and the offset of its first byte. -/
structure Cursor where
  rest : Bytes
  offset : Nat := 0

/-- **Readers** take bytes from the head of what is left. -/
abbrev Reader := StateT Cursor (Except ReadError)

namespace Reader

/-- The next `n` bytes. -/
def take (n : Nat) : Reader Bytes := fun c =>
  let taken := c.rest.take n
  if taken.length < n then .error (.truncated c.offset)
  else .ok (taken, ⟨c.rest.drop n, c.offset + n⟩)

/-- The next byte. -/
def u8 : Reader UInt8 := fun c =>
  match c.rest with
  | b :: rest => .ok (b, ⟨rest, c.offset + 1⟩)
  | [] => .error (.truncated c.offset)

/-- The next 16-bit word. -/
def u16 : Reader UInt16 := fun c =>
  match c.rest with
  | hi :: lo :: rest => .ok (ofBe16 hi lo, ⟨rest, c.offset + 2⟩)
  | _ => .error (.truncated c.offset)

/-- The next 32-bit word. -/
def u32 : Reader UInt32 := fun c =>
  match c.rest with
  | b₃ :: b₂ :: b₁ :: b₀ :: rest =>
    .ok (ofBe32 (ofBe16 b₃ b₂) (ofBe16 b₁ b₀), ⟨rest, c.offset + 4⟩)
  | _ => .error (.truncated c.offset)

/-- The offset of the next byte. -/
def offset : Reader Nat := return (← get).offset

/-- Runs a reader `n` times and drops the results. -/
def skipMany (r : Reader Unit) : Nat → Reader Unit
  | 0 => pure ()
  | n + 1 => do
    r
    skipMany r n

/-- Runs a reader `n` times and appends the results to `acc`. -/
def many (r : Reader α) : Nat → Array α → Reader (Array α)
  | 0, acc => pure acc
  | n + 1, acc => do
    let a ← r
    many r n (acc.push a)

/-- Passes over a number of bytes. -/
def skip (n : Nat) : Reader Unit := do
  let _ ← take n

/-- Passes over an attribute. -/
def skipAttribute : Reader Unit := do
  let _ ← u16
  let length ← u32
  skip length.toNat

/-- Passes over a list of attributes. -/
def skipAttributes : Reader Unit := do
  let count ← u16
  skipMany skipAttribute count.toNat

end Reader

open Reader

/-- The next constant. -/
def readConstant : Reader Constant := do
  let start ← offset
  let tag ← u8
  match tag with
  | 1 =>
    let length ← u16
    let start ← offset
    let bytes ← take length.toNat
    match ModifiedUtf8.decode? bytes with
    | some text => return .utf8 text
    | none => throw (.badText start)
  | 3 => return .integer (← u32).toInt32
  | 5 =>
    let high ← u32
    let low ← u32
    return .long (ofBe64 high low).toInt64
  | 7 => return .class (← u16)
  | 8 => return .string (← u16)
  | 9 =>
    let cls ← u16
    let sig ← u16
    return .fieldRef cls sig
  | 10 =>
    let cls ← u16
    let sig ← u16
    return .methodRef cls sig
  | 12 =>
    let name ← u16
    let descriptor ← u16
    return .nameAndType name descriptor
  | tag => throw (.unsupportedConstant tag start)

/-- Fills `n` more slots with constants. A long takes two, also where only one is left. -/
def readConstants : (n : Nat) → Array Constant → Reader (Array Constant)
  | 0, acc => pure acc
  | n + 1, acc => do
    let c ← readConstant
    if c.slots = 2 then
      match n with
      | 0 => pure ((acc.push c).push .unusable)
      | n + 1 => readConstants n ((acc.push c).push .unusable)
    else readConstants n (acc.push c)

/-- The constant pool: the number of its indices plus one, then the constants. -/
def readPool : Reader ConstantPool := do
  let count ← u16
  let constants ← readConstants (count.toNat - 1) #[]
  return ⟨constants⟩

/-- The contents of a code attribute. -/
structure CodeInfo where
  attrName : UInt16
  maxStack : UInt16
  maxLocals : UInt16
  code : CodeArray

/-- An attribute of a method: its code replaces what was found before, any other is passed
over. The length field of a code attribute is not looked at. -/
def readMethodAttribute (pool : ConstantPool) (found : Option CodeInfo) :
    Reader (Option CodeInfo) := do
  let attrName ← u16
  let length ← u32
  if pool.text? attrName = some codeAttribute then
    let maxStack ← u16
    let maxLocals ← u16
    let length ← u32
    let code ← take length.toNat
    let handlers ← u16
    skip (handlers.toNat * 8)
    skipAttributes
    return some ⟨attrName, maxStack, maxLocals, code.toArray⟩
  else
    skip length.toNat
    return found

/-- The attributes of a method. -/
def readMethodAttributes (pool : ConstantPool) :
    Nat → Option CodeInfo → Reader (Option CodeInfo)
  | 0, found => pure found
  | n + 1, found => do
    let found ← readMethodAttribute pool found
    readMethodAttributes pool n found

/-- The next method, which has to have code. -/
def readMethod (pool : ConstantPool) : Reader Method := do
  let flags ← u16
  let name ← u16
  let descriptor ← u16
  let attributes ← u16
  match ← readMethodAttributes pool attributes.toNat none with
  | some info =>
    return ⟨flags, name, descriptor, info.attrName, info.maxStack, info.maxLocals, info.code⟩
  | none => throw (.missingCode ((pool.text? name).getD "<unnamed>"))

/-- A field is passed over. -/
def skipField : Reader Unit := do
  skip 6
  skipAttributes

/-- The next class. -/
def readClass : Reader ClassFile := do
  let magic ← u32
  if magic ≠ magicNumber then throw (.badMagic magic)
  let minor ← u16
  let major ← u16
  let pool ← readPool
  let flags ← u16
  let thisClass ← u16
  let superClass ← u16
  let interfaces ← u16
  skip (interfaces.toNat * 2)
  let fields ← u16
  skipMany skipField fields.toNat
  let count ← u16
  let methods ← many (readMethod pool) count.toNat #[]
  skipAttributes
  return { magic, minor, major, pool, flags, thisClass, superClass, methods := methods.toList }

/-- **Reads a class** from the head of a byte sequence. -/
def ClassFile.read (bytes : Bytes) : Except ReadError ClassFile :=
  (readClass.run { rest := bytes }).map Prod.fst

end ClassFoundry
