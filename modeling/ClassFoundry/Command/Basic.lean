import ClassFoundry.ClassFile.Listing
import ClassFoundry.ClassFile.Reader
import ClassFoundry.Command.Arguments
import ClassFoundry.Command.Outcome
import ClassFoundry.Files.Path
import ClassFoundry.Lowering.Class
import ClassFoundry.Machine.Run
import ClassFoundry.Syntax.Printer
import ClassFoundry.Syntax.Samples

/-!
# Commands

What the program does for its arguments: generate a sample program, list a class file, or run a
method of one.

## Main definitions

* `ClassFile.path`: where the file of a class belongs
* `Command.demo`, `Command.dump`, `Command.run`: the commands
* `Command.request`: the command of a list of arguments
-/

namespace ClassFoundry

/-- Where the file of a class belongs below a directory. A class without name is called
`Main`. -/
def ClassFile.path (c : ClassFile) (dir : String) : String :=
  classFilePath dir (c.name?.getD "Main")

namespace Command

/-- The name and version of the program. -/
def versionText : String := "jclassgen 0.1.0\n"

/-- How the program is used. -/
def usageText : String :=
  "Usage: jclassgen [-v] demo NAME [-o DIR] [--show-ast]\n" ++
  "       jclassgen [-v] dump FILE\n" ++
  "       jclassgen [-v] run FILE METHOD [ARGS]...\n"

/-- The outcome of arguments that are not read to their end. -/
def Stop.outcome : Stop → Outcome
  | .usage => { exitCode := 2, errorText := usageText }
  | .help => { output := usageText }
  | .version => { output := versionText }

/-- The wording of a failed access to a file. -/
def accessText (e : FileError) : String := "IO error: " ++ e.message

/-- Why the file of a class cannot be saved. -/
def saveFailure (e : FileError) : Failure :=
  ⟨"Code generation error: " ++ accessText e, [accessText e, e.message]⟩

/-- Why a program has no class. -/
def buildFailure (e : BuildError) : Failure :=
  match e with
  | .compile cause => ⟨e.message, [cause.message]⟩
  | .verify cause => ⟨e.message, [cause.message]⟩

/-- Generates a sample program and saves its class, after the text of the program if that is
wanted. -/
def demo (env : String → Option String) (name : String) (output : Option String)
    (showText : Bool) : Request :=
  match sample? name with
  | none =>
    .done (Outcome.fail {} ⟨"unknown sample '" ++ name ++ "' (expected max, loop or hello)", []⟩)
  | some program =>
    let (options, warnings) := Options.ofEnvironment env
    let built := buildClass options [] program
    let outcome : Outcome := {
      output := if showText then program.text ++ "\n" else ""
      warnings := warnings ++ built.warnings
      remarks := built.trace.map TraceEntry.text }
    match built.result with
    | .error e => .done (outcome.fail (buildFailure e))
    | .ok c =>
      let path := c.path (output.getD ".")
      .save path c.toBytes fun
        | .ok _ => { outcome with output := outcome.output ++ path ++ "\n" }
        | .error e => outcome.fail (saveFailure e)

/-- Reads a class file and goes on with its class. -/
def withClass (path : String) (next : ClassFile → Except Failure Outcome) : Request :=
  .read path fun r =>
    let context := "reading " ++ path
    let outcome : Except Failure Outcome := match r with
      | .error e => .error ⟨context, [accessText e, e.message]⟩
      | .ok bytes =>
        match ClassFile.read bytes with
        | .error e => .error ⟨context, [e.message]⟩
        | .ok c => next c
    match outcome with
    | .ok outcome => outcome
    | .error f => Outcome.fail {} f

/-- Lists a class file. -/
def dump (path : String) : Request := withClass path fun c => .ok { output := c.listing }

/-- The value of an argument for a parameter that takes a number. -/
def numberArgument (type text : String) : Except Failure Value :=
  match Text.Decimal.parse 9223372036854775808 9223372036854775807 text.toList with
  | .error e => .error ⟨"'" ++ text ++ "' is not an integer", [e.message]⟩
  | .ok n =>
    match type with
    | "J" => .ok (.long (Int64.ofInt n))
    | "I" | "S" | "B" | "C" | "Z" => .ok (.int (Int32.ofInt n))
    | _ => .error ⟨"cannot pass an argument of type " ++ type, []⟩

/-- The values of arguments for the parameters of a method. The array of the entry point takes no
argument and is null, and a text that is missing is empty. -/
def argumentValues (tooFew : Failure) :
    List String → List String → Machine → Except Failure (List Value × Machine)
  | [], _, m => .ok ([], m)
  | "[Ljava/lang/String;" :: types, texts, m => do
    let (values, m) ← argumentValues tooFew types texts m
    return (.null :: values, m)
  | "Ljava/lang/String;" :: types, texts, m => do
    let (value, m) := m.newString (texts.headD "")
    let (values, m) ← argumentValues tooFew types texts.tail m
    return (value :: values, m)
  | _ :: _, [], _ => .error tooFew
  | type :: types, text :: texts, m => do
    let value ← numberArgument type text
    let (values, m) ← argumentValues tooFew types texts m
    return (value :: values, m)

/-- The receiver of a method: none if it is static, else a new object after its constructor. -/
def receiver (c : ClassFile) (method : Method) (m : Machine) :
    Except Failure (Option Value × Machine) :=
  if AccessFlags.has method.flags AccessFlags.static then .ok (none, m)
  else
    let (this, m) := m.newInstance c
    match m.invoke c constructorName constructorDescriptor (some this) [] with
    | (.ok _, m) => .ok (some this, m)
    | (.error e, _) => .error ⟨e.message, []⟩

/-- The text of the result of a method. -/
def resultText : Option Value → String
  | none => ""
  | some value => "=> " ++ value.text?.getD "" ++ "\n"

/-- Runs a method of a class. -/
def runMethod (file name : String) (texts : List String) (c : ClassFile) :
    Except Failure Outcome := do
  let fail {α : Type} (message : String) : Except Failure α := .error ⟨message, []⟩
  let some method := c.method? name | fail ("no method '" ++ name ++ "' in " ++ file)
  let some descriptor := c.pool.text? method.descriptor
    | fail ("method '" ++ name ++ "' has no descriptor")
  let some types := Descriptor.parameters? descriptor
    | fail ("malformed descriptor " ++ descriptor)
  let tooFew : Failure := ⟨name ++ " expects " ++ toString types.length ++ " argument(s)", []⟩
  let (args, m) ← argumentValues tooFew types texts {}
  let (this, m) ← receiver c method m
  match m.invoke c name descriptor this args with
  | (.error e, _) => fail e.message
  | (.ok result, m) =>
    return {
      output := m.output ++ resultText result
      remarks := [toString m.steps ++ " instructions executed"] }

/-- Runs a method of a class file. -/
def run (file method : String) (args : List String) : Request :=
  withClass file (runMethod file method args)

/-- The command of a task. -/
def taskRequest (env : String → Option String) : Task → Request
  | .demo name output showText => demo env name output showText
  | .dump file => dump file
  | .run file method args => run file method args

/-- **The command** of a list of arguments in an environment, and whether remarks are wanted. -/
def request (env : String → Option String) (args : List String) : Request × Bool :=
  match parse args with
  | .ok invocation => (taskRequest env invocation.task, invocation.verbose)
  | .error stop => (.done stop.outcome, false)

end Command

end ClassFoundry
