import ClassFoundry.Bytes

/-!
# Modified UTF-8

The encoding of text constants in class files. Text is a sequence of UTF-16 units, each written
in one to three bytes: NUL takes two, so that no zero byte occurs, and a character outside the
basic plane is written as its two surrogates.

## Main definitions

* `units`: the UTF-16 units of a text
* `encode`, `encodedLength`: the bytes of a text, and how many there are
* `decode?`: the text with given bytes, if they are well formed
-/

namespace ClassFoundry.ModifiedUtf8

/-- The UTF-16 units of a character. -/
def charUnits (c : Char) : List UInt16 :=
  let n := c.toNat
  if n < 0x10000 then [UInt16.ofNat n]
  else [UInt16.ofNat (0xd800 + (n - 0x10000) / 0x400), UInt16.ofNat (0xdc00 + n % 0x400)]

/-- The UTF-16 units of a text. -/
def units (s : String) : List UInt16 :=
  s.toList.flatMap charUnits

/-- How many bytes a unit takes. -/
def unitLength (u : UInt16) : Nat :=
  let n := u.toNat
  if n = 0 then 2 else if n < 0x80 then 1 else if n < 0x800 then 2 else 3

/-- The bytes of a unit. -/
def encodeUnit (u : UInt16) : Bytes :=
  let n := u.toNat
  match unitLength u with
  | 1 => [UInt8.ofNat n]
  | 2 => [UInt8.ofNat (0xc0 + n / 0x40), UInt8.ofNat (0x80 + n % 0x40)]
  | _ => [UInt8.ofNat (0xe0 + n / 0x1000), UInt8.ofNat (0x80 + n / 0x40 % 0x40),
          UInt8.ofNat (0x80 + n % 0x40)]

/-- The bytes of a text. -/
def encode (s : String) : Bytes :=
  (units s).flatMap encodeUnit

/-- The number of bytes of a text. -/
def encodedLength (s : String) : Nat :=
  s.toList.foldl (fun n c => (charUnits c).foldl (fun n u => n + unitLength u) n) 0

/-- The six payload bits of a continuation byte. -/
def continuation? (b : UInt8) : Option Nat :=
  if 0x80 ≤ b.toNat ∧ b.toNat < 0xc0 then some (b.toNat - 0x80) else none

/-- The units of `bytes`, appended to those already read. Longer forms than needed are read as
well; a zero byte, a stray continuation byte and a byte from `f0` up are refused. -/
def decodeUnitsFrom : Bytes → Array UInt16 → Option (Array UInt16)
  | [], acc => some acc
  | b :: rest, acc =>
    let n := b.toNat
    if 0 < n ∧ n < 0x80 then decodeUnitsFrom rest (acc.push (UInt16.ofNat n))
    else if 0xc0 ≤ n ∧ n < 0xe0 then
      match rest with
      | low :: rest =>
        match continuation? low with
        | some low => decodeUnitsFrom rest (acc.push (UInt16.ofNat ((n - 0xc0) * 0x40 + low)))
        | none => none
      | [] => none
    else if 0xe0 ≤ n ∧ n < 0xf0 then
      match rest with
      | mid :: low :: rest =>
        match continuation? mid, continuation? low with
        | some mid, some low =>
          decodeUnitsFrom rest
            (acc.push (UInt16.ofNat ((n - 0xe0) * 0x1000 + mid * 0x40 + low)))
        | _, _ => none
      | _ => none
    else none

/-- The units of `bytes`. -/
def decodeUnits? (bytes : Bytes) : Option (List UInt16) :=
  (decodeUnitsFrom bytes #[]).map Array.toList

/-- Whether a unit is the first half of a surrogate pair. -/
def isHighSurrogate (u : UInt16) : Bool := 0xd800 ≤ u.toNat && u.toNat < 0xdc00

/-- Whether a unit is the second half of a surrogate pair. -/
def isLowSurrogate (u : UInt16) : Bool := 0xdc00 ≤ u.toNat && u.toNat < 0xe000

/-- The character of a surrogate pair. -/
def pairChar (high low : UInt16) : Char :=
  Char.ofNat (0x10000 + (high.toNat - 0xd800) * 0x400 + (low.toNat - 0xdc00))

/-- The text of a sequence of units, appended to `acc`; surrogates have to come in pairs. -/
def ofUnitsFrom : List UInt16 → String → Option String
  | [], acc => some acc
  | [u], acc =>
    if isHighSurrogate u || isLowSurrogate u then none else some (acc.push (Char.ofNat u.toNat))
  | u :: v :: rest, acc =>
    if isHighSurrogate u then
      if isLowSurrogate v then ofUnitsFrom rest (acc.push (pairChar u v)) else none
    else if isLowSurrogate u then none
    else ofUnitsFrom (v :: rest) (acc.push (Char.ofNat u.toNat))

/-- The text of a sequence of units. -/
def ofUnits? (us : List UInt16) : Option String := ofUnitsFrom us ""

/-- The text with the given bytes, if they are well formed. -/
def decode? (bytes : Bytes) : Option String := do
  ofUnits? (← decodeUnits? bytes)

end ClassFoundry.ModifiedUtf8
