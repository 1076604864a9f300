import ClassFoundry.Kind

/-!
# Descriptors

The texts by which class files name types: one letter for a primitive type, `L` and `;` around a
class name, and for a method the parameters in parentheses before the result.

## Main definitions

* `ofType`, `ofMethod`: the descriptor of a type and of a method
* `parameters?`: the field descriptors between the parentheses
* `argumentWords?`, `returnWords?`: the words a call takes and gives back
-/

namespace ClassFoundry.Descriptor

/-- The class of texts. -/
def stringClass : String := "java/lang/String"

/-- The class of all objects. -/
def objectClass : String := "java/lang/Object"

/-- The descriptor of a class by its name. -/
def ofClass (name : String) : String := "L" ++ name ++ ";"

/-- The descriptor of a type. Pointers are passed as plain objects, and the dots of a class name
become slashes. -/
def ofType : DataType → String
  | .void => "V"
  | .bool => "Z"
  | .char => "C"
  | .int .w8 false => "B"
  | .int .w8 true => "S"
  | .int .w16 false => "S"
  | .int .w16 true => "C"
  | .int .w32 _ => "I"
  | .int .w64 _ => "J"
  | .string => ofClass stringClass
  | .ptr _ => ofClass objectClass
  | .struct name => ofClass (name.map fun c => if c = '.' then '/' else c)
  | .object name => ofClass (name.map fun c => if c = '.' then '/' else c)

/-- The descriptor of a method. -/
def ofMethod (params : List DataType) (result : DataType) : String :=
  "(" ++ String.join (params.map ofType) ++ ")" ++ ofType result

/-- The descriptor of the entry point, which takes an array of texts. -/
def entryPoint : String := "([Ljava/lang/String;)V"

/-- The letters of the primitive types. -/
def isPrimitive (c : Char) : Bool :=
  c == 'B' || c == 'C' || c == 'D' || c == 'F' || c == 'I' || c == 'J' || c == 'S' || c == 'Z'

/-- Where a reader of field descriptors stands: before one, after some of its brackets, or inside
a class name. -/
inductive Place where
  | start
  | brackets
  | className

/-- Splits a text into field descriptors. `item` is what was read of the current one, last
character first. -/
def splitFrom : Place → List Char → List Char → Array String → Option (Array String)
  | .start, [], _, acc => some acc
  | _, [], _, _ => none
  | .className, c :: cs, item, acc =>
    if c = ';' then splitFrom .start cs [] (acc.push (String.ofList (c :: item).reverse))
    else splitFrom .className cs (c :: item) acc
  | _, c :: cs, item, acc =>
    if c = '[' then splitFrom .brackets cs (c :: item) acc
    else if isPrimitive c then
      splitFrom .start cs [] (acc.push (String.ofList (c :: item).reverse))
    else if c = 'L' then splitFrom .className cs (c :: item) acc
    else none

/-- The field descriptors of the parameters: those between the leading parenthesis and the first
closing one. -/
def parameters? (descriptor : String) : Option (List String) :=
  match descriptor.toList with
  | '(' :: rest =>
    if rest.contains ')' then
      (splitFrom .start (rest.takeWhile (· != ')')) [] #[]).map Array.toList
    else none
  | _ => none

/-- The words taken by a parameter. -/
def parameterWords (field : String) : Nat :=
  if field = "J" ∨ field = "D" then 2 else 1

/-- The words that the arguments of a call take, without a receiver. -/
def argumentWords? (descriptor : String) : Option Nat :=
  (parameters? descriptor).map fun ps => ps.foldl (fun n p => n + parameterWords p) 0

/-- The words that a call gives back, by the letter after the last closing parenthesis. -/
def returnWords? (descriptor : String) : Option Nat :=
  let chars := descriptor.toList
  if chars.contains ')' then
    match (chars.reverse.takeWhile (· != ')')).reverse with
    | [] => none
    | 'V' :: _ => some 0
    | 'J' :: _ | 'D' :: _ => some 2
    | _ :: _ => some 1
  else none

end ClassFoundry.Descriptor
