/-!
# Paths of class files

A class lies below an output directory, in the directory of its package and under its own name
with the extension `class`.

## Main definitions

* `Path.push`: a path and one more part
* `Path.withExtension`: a path whose file name has an extension in place of its own
* `classFilePath`: the path of a class of a given name

## Main results

* `Path.join_parts`: a path is its parts with slashes between them
-/

namespace ClassFoundry

namespace Path

/-- The texts between the slashes of a path, empty ones included. -/
def parts : List Char → List (List Char)
  | [] => [[]]
  | c :: cs =>
    if c = '/' then [] :: parts cs
    else
      match parts cs with
      | [] => [[c]]
      | p :: ps => (c :: p) :: ps

/-- Parts with slashes between them. -/
def join : List (List Char) → List Char
  | [] => []
  | [p] => p
  | p :: ps => p ++ '/' :: join ps

theorem parts_ne_nil (cs : List Char) : parts cs ≠ [] := by
  cases cs with
  | nil => simp [parts]
  | cons c cs =>
    rw [parts]
    split
    · simp
    · split <;> simp

/-- Nothing of a path is lost between its parts. -/
theorem join_parts (cs : List Char) : join (parts cs) = cs := by
  induction cs with
  | nil => rfl
  | cons c cs ih =>
    rw [parts]
    split
    · rename_i h
      cases hp : parts cs with
      | nil => exact absurd hp (parts_ne_nil cs)
      | cons p ps => rw [hp] at ih; simp [join, ih, h]
    · cases hp : parts cs with
      | nil => exact absurd hp (parts_ne_nil cs)
      | cons p ps =>
        rw [hp] at ih
        cases ps with
        | nil => simpa [join] using ih
        | cons q qs => simpa [join] using ih

/-- A path and one more part, with a slash between them unless the path is empty or ends in
one. -/
def push (path part : List Char) : List Char :=
  match path.getLast? with
  | none | some '/' => path ++ part
  | some _ => path ++ '/' :: part

/-- The current directory. -/
def here : List Char := ['.']

/-- The directory above. -/
def above : List Char := ['.', '.']

/-- Parts of a path, last part first, without empty parts and dots at the end. The part that the
path begins with stays. -/
def trimEnd : List (List Char) → List (List Char)
  | [] => []
  | [part] => [part]
  | part :: before => if part = [] ∨ part = here then trimEnd before else part :: before

/-- The path of the directory that a path lies in, empty if that is the working directory or the
root. -/
def parentOf (path : List Char) : List Char :=
  join (trimEnd (trimEnd (parts path).reverse).tail).reverse

/-- The paths of the directories that a path leads through, in order, and the path itself. -/
def stages (path : List Char) : List (List Char) :=
  let parts := parts path
  ((List.range parts.length).map fun i => join (parts.take (i + 1))).filter (· ≠ [])

/-- The file name among the parts of a path, last part first, and the parts before it. Empty parts
and dots at the end do not count; there is no name if the path ends at a root or above. -/
def fileName? : List (List Char) → Option (List Char × List (List Char))
  | [] => none
  | [part] => if part = [] ∨ part = here ∨ part = above then none else some (part, [])
  | part :: before =>
    if part = [] ∨ part = here then fileName? before
    else if part = above then none
    else some (part, before)

/-- A file name up to its last dot. A dot at the beginning belongs to the name. -/
def stem (name : List Char) : List Char :=
  match name.reverse.dropWhile (· ≠ '.') with
  | [] | [_] => name
  | _ :: before => before.reverse

/-- A path whose file name has an extension in place of its own; what follows the name is
dropped. A path without file name stays as it is. -/
def withExtension (path extension : List Char) : List Char :=
  match fileName? (parts path).reverse with
  | none => path
  | some (name, before) => join (stem name :: before).reverse ++ '.' :: extension

end Path

/-- The extension of class files. -/
def classExtension : String := "class"

/-- **The path of a class file** below a directory: one part for every part of the class name. -/
def classFilePath (dir name : String) : String :=
  let path := (Path.parts name.toList).foldl Path.push dir.toList
  String.ofList (Path.withExtension path classExtension.toList)

end ClassFoundry
