import ClassFoundry.Files.Tree
import ClassFoundry.Text.Numeral

/-!
# Outcomes of commands

A command ends with an exit code and texts for the two output streams. On its way it makes at most
one access to a file, so that it is told in full by that access and by what follows from each
answer to it.

## Main definitions

* `Command.Failure`: an error with the causes behind it
* `Command.Outcome`: how a command ends
* `Command.Request`: the access that a command makes, and the outcome that follows
* `Command.Request.onTree`: a command carried out on a file tree
-/

namespace ClassFoundry.Command

/-- An error as a user sees it: what failed, and what was behind it, the nearest cause first. -/
structure Failure where
  message : String
  causes : List String := []

/-- A text with every line but the first moved right by `width`. -/
def hangingLines (width : Nat) (text : String) : String :=
  String.ofList (text.toList.flatMap fun c =>
    if c = '\n' then c :: List.replicate width ' ' else [c])

/-- Causes, numbered from `n`. -/
def numberedLines : Nat → List String → String
  | _, [] => ""
  | n, cause :: causes =>
    Text.padLeft 5 (toString n) ++ ": " ++ hangingLines 7 cause ++ "\n" ++
      numberedLines (n + 1) causes

/-- The text of an error. Several causes are numbered, one is not. -/
def Failure.text (f : Failure) : String :=
  let causes := match f.causes with
    | [] => ""
    | [cause] => "\nCaused by:\n    " ++ hangingLines 4 cause ++ "\n"
    | causes => "\nCaused by:\n" ++ numberedLines 0 causes
  "Error: " ++ f.message ++ "\n" ++ causes

/-- How a command ends. -/
structure Outcome where
  exitCode : UInt32 := 0
  /-- What the command prints. -/
  output : String := ""
  /-- What the command prints about an error. -/
  errorText : String := ""
  /-- What the user should look at, whatever the result. -/
  warnings : List String := []
  /-- What the user may want to know about the way to the result. -/
  remarks : List String := []

/-- An outcome that ends in an error. -/
def Outcome.fail (o : Outcome) (f : Failure) : Outcome :=
  { o with exitCode := 1, errorText := f.text }

/-- **A command as an access to a file**: none, a file to read or a file to save, and the outcome
by the answer. -/
inductive Request where
  | done (outcome : Outcome)
  | read (path : String) (next : Except FileError Bytes → Outcome)
  | save (path : String) (content : Bytes) (next : Except FileError Unit → Outcome)

/-- The answer to an access, with the tree that it leaves. -/
def answer (x : FileM α) (t : FileTree) : Except FileError α × FileTree :=
  match x t with
  | .ok a t => (.ok a, t)
  | .error e t => (.error e, t)

/-- Carries out a command in a directory of a file tree. -/
def Request.onTree (dir : Place) (t : FileTree) : Request → Outcome × FileTree
  | .done outcome => (outcome, t)
  | .read path next =>
    let (r, t) := answer (FileM.read dir path) t
    (next r, t)
  | .save path content next =>
    let (r, t) := answer (FileM.save dir path content) t
    (next r, t)

end ClassFoundry.Command
