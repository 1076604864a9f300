/-!
# Numerals

Fixed-width hexadecimal, padding, and decimal numerals read into a bounded range.

## Main definitions

* `hex`: hexadecimal digits, padded with zeros
* `padLeft`: padding with blanks on the left
* `Decimal.parse`: a decimal numeral within bounds, or the first fault from the left
* `trim`: text without leading and trailing white space
-/

namespace ClassFoundry.Text

/-- Lower-case hexadecimal digits of `n`, at least `width` of them. -/
def hex (width n : Nat) : String :=
  let digits := Nat.toDigits 16 n
  String.ofList (List.replicate (width - digits.length) '0' ++ digits)

/-- `s` preceded by as many blanks as `width` asks for. -/
def padLeft (width : Nat) (s : String) : String :=
  String.ofList (List.replicate (width - s.length) ' ') ++ s

/-- Characters with the Unicode property White_Space. -/
def isSpace (c : Char) : Bool :=
  let n := c.toNat
  (9 ≤ n && n ≤ 13) || n == 0x20 || n == 0x85 || n == 0xa0 || n == 0x1680 ||
    (0x2000 ≤ n && n ≤ 0x200a) || n == 0x2028 || n == 0x2029 || n == 0x202f || n == 0x205f ||
    n == 0x3000

/-- `cs` without leading and trailing white space. -/
def trim (cs : List Char) : List Char :=
  ((cs.dropWhile isSpace).reverse.dropWhile isSpace).reverse

namespace Decimal

/-- Why a text is not a decimal numeral of the wanted range. -/
inductive Fault where
  | empty
  | invalidDigit
  | tooLarge
  | tooSmall
deriving DecidableEq

/-- The wording of a fault. -/
def Fault.message : Fault → String
  | .empty => "cannot parse integer from empty string"
  | .invalidDigit => "invalid digit found in string"
  | .tooLarge => "number too large to fit in target type"
  | .tooSmall => "number too small to fit in target type"

/-- The value of an ASCII digit. -/
def digit? (c : Char) : Option Nat :=
  if '0' ≤ c ∧ c ≤ '9' then some (c.toNat - '0'.toNat) else none

/-- Digits read from the left onto `acc`, as long as the value stays at most `bound`. -/
def digits (bound : Nat) (excess : Fault) : Nat → List Char → Except Fault Nat
  | acc, [] => .ok acc
  | acc, c :: cs =>
    match digit? c with
    | none => .error .invalidDigit
    | some d =>
      if acc * 10 + d ≤ bound then digits bound excess (acc * 10 + d) cs else .error excess

/-- A decimal numeral between `-low` and `high`. A plus sign is always allowed, a minus sign
only where negative values are. -/
def parse (low high : Nat) : List Char → Except Fault Int
  | [] => .error .empty
  | ['+'] | ['-'] => .error .invalidDigit
  | '+' :: cs => (digits high .tooLarge 0 cs).map Int.ofNat
  | '-' :: cs =>
    if low = 0 then .error .invalidDigit
    else (digits low .tooSmall 0 cs).map fun n => -(n : Int)
  | cs => (digits high .tooLarge 0 cs).map Int.ofNat

end Decimal

end ClassFoundry.Text
