import ClassFoundry.Text.Numeral
import ClassFoundry.Text.Printable

/-!
# Quoted text

A text between quotes, every character on one line and visible: the usual backslash escapes for
NUL, tab, carriage return, newline, backslash and the quote itself, and a braced code point for
all that is not printable or would merge with its neighbour.

## Main definitions

* `quoteChar`: a character between single quotes
* `quoteString`: a text between double quotes
-/

namespace ClassFoundry.Text

/-- The form of `c` inside quotes of the kind `quote`. -/
def escape (quote c : Char) : String :=
  if c = '\x00' then "\\0"
  else if c = '\t' then "\\t"
  else if c = '\r' then "\\r"
  else if c = '\n' then "\\n"
  else if c = '\\' then "\\\\"
  else if c = quote then "\\".push quote
  else if extendsGrapheme c || !isPrintable c then
    "\\u\x7b" ++ hex 1 c.toNat ++ "\x7d"
  else c.toString

/-- `c` between single quotes. -/
def quoteChar (c : Char) : String :=
  "'" ++ escape '\x27' c ++ "'"

/-- `s` between double quotes. -/
def quoteString (s : String) : String :=
  s.toList.foldl (fun out c => out ++ escape '\x22' c) "\"" ++ "\""

end ClassFoundry.Text
