import ClassFoundry.Bytes
import ClassFoundry.Files.Path

/-!
# File trees

Files and directories by the names that lead to them, with the two accesses that the program
makes: reading a file, and saving one below directories that are created as needed.

## Main definitions

* `FileError`: why an access fails
* `FileTree`: files and directories
* `FileM`: an access to a file tree
* `FileM.read`, `FileM.save`: the accesses
-/

namespace ClassFoundry

/-- Why a file cannot be read or saved. -/
inductive FileError where
  | notFound
  | busy
  | exists
  | notDirectory
  | isDirectory
  | nameTooLong
  | badName
  | other (text : String)
deriving DecidableEq

/-- The wording of an error with a number. -/
def numberedError (text : String) (n : Nat) : String :=
  text ++ " (os error " ++ toString n ++ ")"

/-- The wording of an error. -/
def FileError.message : FileError → String
  | .notFound => numberedError "No such file or directory" 2
  | .busy => numberedError "Device or resource busy" 16
  | .exists => numberedError "File exists" 17
  | .notDirectory => numberedError "Not a directory" 20
  | .isDirectory => numberedError "Is a directory" 21
  | .nameTooLong => numberedError "File name too long" 36
  | .badName => "file name contained an unexpected NUL byte"
  | .other text => text

/-- **A file tree**: a file, or a directory with a tree for every name in it. -/
inductive FileTree where
  | file (content : Bytes)
  | directory (children : List (String × FileTree))

/-- A place in a file tree: the names that lead to it from the root. -/
abbrev Place := List String

namespace FileTree

/-- A directory with nothing in it. -/
def empty : FileTree := .directory []

/-- What lies in a directory. A file has nothing below it. -/
def children : FileTree → List (String × FileTree)
  | .file _ => []
  | .directory children => children

/-- What lies under a name of a directory. -/
def child? (t : FileTree) (name : String) : Option FileTree := t.children.lookup name

/-- A directory with something new under a name. -/
def withChild (t : FileTree) (name : String) (child : FileTree) : FileTree :=
  .directory ((name, child) :: t.children.filter fun c => c.1 != name)

/-- What lies at a place. -/
def find? : FileTree → Place → Option FileTree
  | t, [] => some t
  | t, name :: place =>
    match t.child? name with
    | none => none
    | some child => child.find? place

/-- A tree with something new at a place. -/
def insert : FileTree → Place → FileTree → FileTree
  | _, [], new => new
  | t, name :: place, new => t.withChild name (((t.child? name).getD empty).insert place new)

@[simp] theorem child?_withChild_self (t : FileTree) (name : String) (child : FileTree) :
    (t.withChild name child).child? name = some child := by
  simp [child?, withChild, children]

theorem find?_insert_self (t : FileTree) (place : Place) (new : FileTree) :
    (t.insert place new).find? place = some new := by
  induction place generalizing t with
  | nil => rfl
  | cons name place ih => simp [insert, find?, ih]

mutual

/-- The files of a tree that lies at a place, each with its own place. -/
def filesAt (place : Place) : FileTree → List (Place × Bytes)
  | .file content => [(place, content)]
  | .directory children => filesAmong place children

/-- The files among the trees in a directory. -/
def filesAmong (place : Place) : List (String × FileTree) → List (Place × Bytes)
  | [] => []
  | (name, t) :: rest => filesAt (place ++ [name]) t ++ filesAmong place rest

end

/-- The files below a directory, each with its path from there, in the order of their paths. -/
def files (t : FileTree) (dir : Place) : List (String × Bytes) :=
  let below := ((t.find? dir).getD empty).filesAt []
  let named := below.map fun (place, content) => ("/".intercalate place, content)
  named.mergeSort fun a b => decide (a.1 ≤ b.1)

end FileTree

/-- The names in a path. -/
def pathNames (path : String) : List String :=
  (Path.parts path.toList).map String.ofList

/-- Where a path starts, seen from a working directory. -/
def pathStart (dir : Place) (path : String) : Place :=
  if path.toList.head? = some '/' then [] else dir

/-- The path of a place, from the root. -/
def Place.path (place : Place) : String := place.foldl (fun path name => path ++ "/" ++ name) ""

/-- The most bytes that a name has. -/
def maxNameBytes : Nat := 255

/-- The most bytes that a path has. -/
def maxPathBytes : Nat := 4095

/-- Whether a name leads nowhere else. -/
def staysHere (name : String) : Bool := name == "" || name == "."

/-- Where a name leads from a directory. -/
def enterName (place : Place) (name : String) : Except FileError Place :=
  if staysHere name then .ok place
  else if name = ".." then .ok place.dropLast
  else if maxNameBytes < name.utf8ByteSize then .error .nameTooLong
  else .ok (place ++ [name])

/-- An access to a file tree; its effects remain when it fails. -/
abbrev FileM := EStateM FileError FileTree

namespace FileM

/-- What lies at a place. -/
def find? (place : Place) : FileM (Option FileTree) := return (← get).find? place

/-- Where a name leads from a place, which has to be a directory. -/
def enter (place : Place) (name : String) : FileM Place := do
  match ← find? place with
  | none => throw .notFound
  | some (.file _) => throw .notDirectory
  | some (.directory _) =>
    match enterName place name with
    | .ok place => return place
    | .error e => throw e

/-- Where names lead, one after the other. -/
def locate : Place → List String → FileM Place
  | place, [] => return place
  | place, name :: names => do locate (← enter place name) names

/-- Refuses paths that no file can have: those with a NUL, and those that are too long. -/
def checkPath (path : String) : FileM Unit :=
  if path.contains '\x00' then throw .badName
  else if maxPathBytes < path.utf8ByteSize then throw .nameTooLong
  else return

/-- **Reads a file** by its path from a working directory. -/
def read (dir : Place) (path : String) : FileM Bytes := do
  checkPath path
  match ← find? (← locate (pathStart dir path) (pathNames path)) with
  | none => throw .notFound
  | some (.directory _) => throw .isDirectory
  | some (.file content) => return content

/-- Follows names from a directory and creates the directories that are missing. All the names are
tried together at first, so that a file which more names follow is not the directory it should be.
Once a directory had to be created, the names are tried one by one, and a file stands where a
directory should be created. -/
def makeDirectories (created : Bool) : Place → List String → FileM Place
  | place, [] => return place
  | place, name :: names => do
    let next ← enter place name
    match ← find? next with
    | some (.directory _) => makeDirectories created next names
    | some (.file _) => throw (if created || names.isEmpty then .exists else .notDirectory)
    | none =>
      modify (·.insert next .empty)
      makeDirectories true next names

/-- The bytes of the name of a draft, which holds a file until it is complete, and of the slash
before it. -/
def draftBytes : Nat := 11

/-- The path from the root of a path from a working directory. -/
def absolutePath (dir : Place) (path : String) : String :=
  if path.toList.head? = some '/' then path else dir.path ++ "/" ++ path

/-- **Saves a file** under its path from a working directory. Missing directories are created, a
file that was there is replaced, and a directory is not. The file is complete before it takes its
name, so that its directory has to have a path which leaves room for the name of the draft. -/
def save (dir : Place) (path : String) (content : Bytes) : FileM Unit := do
  let parentPath := String.ofList (Path.parentOf path.toList)
  let names := (pathNames path).filter (!staysHere ·)
  checkPath parentPath
  let parent ← makeDirectories false (pathStart dir path) names.dropLast
  if maxPathBytes < (absolutePath dir parentPath).utf8ByteSize + draftBytes then
    throw .nameTooLong
  checkPath path
  match names.getLast? with
  | none => throw .notFound
  | some ".." => throw .busy
  | some name =>
    let place ← enter parent name
    match ← find? place with
    | some (.directory _) => throw .isDirectory
    | _ => modify (·.insert place (.file content))

end FileM

end ClassFoundry
