/-!
# Command lines

The arguments of the program: options before a command, then the command with its own options and
words. An option is given by a long name or by a letter, letters may be joined, the value of an
option is joined to it or follows it, and after `--` every argument is a word.

## Main definitions

* `Command.Shape`: the options and words that a command takes
* `Command.Shape.scan`: arguments sorted into options and words
* `Command.Invocation`: what the program is asked to do
* `Command.parse`: the invocation of a list of arguments
-/

namespace ClassFoundry.Command

/-- Why the arguments are not read to their end. -/
inductive Stop where
  | usage
  | help
  | version
deriving DecidableEq

/-- What an option does. -/
inductive OptionAction where
  /-- Turns something on, once at most. -/
  | switch
  /-- Takes a path, once at most. -/
  | path
  | stop (reason : Stop)

/-- An option, by its names. -/
structure OptionSpec where
  long : String
  letter : Option Char := none
  action : OptionAction

/-- What a word of a command is. A path is never empty. -/
inductive WordSort where
  | text
  | path
deriving DecidableEq

/-- The options and words that a command takes. -/
structure Shape where
  options : List OptionSpec
  words : List WordSort := []
  /-- Whether more words may follow, which may look like options. -/
  openEnded : Bool := false

/-- What has been read of the arguments. -/
structure Given where
  switches : List String := []
  paths : List (String × String) := []
  /-- The words, the last one first. -/
  words : List String := []
  /-- The option whose value comes next. -/
  pending : Option String := none
  /-- Whether all further arguments are words. -/
  wordsOnly : Bool := false

/-- How an argument looks. -/
inductive Token where
  | separator
  | long (name : String) (value : Option String)
  | letters (letters : List Char)
  | word

/-- The name and the value of a long option. -/
def splitValue (cs : List Char) : String × Option String :=
  (String.ofList (cs.takeWhile (· ≠ '=')),
    match cs.dropWhile (· ≠ '=') with
    | [] => none
    | _ :: value => some (String.ofList value))

/-- How an argument looks. A single hyphen is a word. -/
def Token.ofArgument (arg : String) : Token :=
  match arg.toList with
  | ['-', '-'] => .separator
  | '-' :: '-' :: cs => .long (splitValue cs).1 (splitValue cs).2
  | '-' :: c :: cs => .letters (c :: cs)
  | _ => .word

namespace Shape

variable (s : Shape)

/-- The option of a letter. -/
def byLetter? (c : Char) : Option OptionSpec := s.options.find? (·.letter == some c)

/-- The option of a long name. -/
def byName? (name : String) : Option OptionSpec := s.options.find? (·.long == name)

/-- Whether the next word is one that may look like an option. -/
def takesAnything (g : Given) : Bool := s.openEnded && s.words.length ≤ g.words.length

/-- Turns a switch on. -/
def switchOn (g : Given) (name : String) : Except Stop Given :=
  if g.pending.isSome || g.switches.contains name then .error .usage
  else .ok { g with switches := name :: g.switches }

/-- Gives an option its path. -/
def setPath (g : Given) (name value : String) : Except Stop Given :=
  if value = "" || (g.paths.lookup name).isSome then .error .usage
  else .ok { g with paths := (name, value) :: g.paths, pending := none }

/-- Gives an option its path, or waits for it. -/
def beginPath (g : Given) (name : String) : Option String → Except Stop Given
  | some value => if g.pending.isSome then .error .usage else setPath g name value
  | none => if g.pending.isSome then .error .usage else .ok { g with pending := some name }

/-- Stops, unless an option still waits for its value. -/
def stopFor (g : Given) (reason : Stop) : Except Stop Given :=
  .error (if g.pending.isSome then .usage else reason)

/-- Adds a word. -/
def addWord (g : Given) (word : String) : Except Stop Given :=
  let added := { g with words := word :: g.words }
  if g.pending.isSome then .error .usage
  else
    match s.words[g.words.length]? with
    | some .path => if word = "" then .error .usage else .ok added
    | some .text => .ok added
    | none => if s.openEnded then .ok { added with wordsOnly := true } else .error .usage

/-- The value joined to a letter, without the sign between them. -/
def joinedValue : List Char → Option String
  | [] => none
  | '=' :: cs => some (String.ofList cs)
  | cs => some (String.ofList cs)

/-- Reads joined letters. A letter that takes a value takes the letters after it. -/
def letters (g : Given) : List Char → Except Stop Given
  | [] => .ok g
  | c :: cs =>
    match s.byLetter? c with
    | none => .error .usage
    | some option =>
      match option.action with
      | .switch => do letters (← switchOn g option.long) cs
      | .path => beginPath g option.long (joinedValue cs)
      | .stop reason => stopFor g reason

/-- Reads a long option. -/
def longOption (g : Given) (option : OptionSpec) (value : Option String) : Except Stop Given :=
  match option.action with
  | .path => beginPath g option.long value
  | .switch => if value.isSome then .error .usage else switchOn g option.long
  | .stop reason => if value.isSome then .error .usage else stopFor g reason

/-- Takes an argument for the value that an option waits for, or for a word. -/
def valueOrWord (g : Given) (arg : String) : Except Stop Given :=
  match g.pending with
  | some name => setPath g name arg
  | none => s.addWord g arg

/-- Reads one argument. -/
def argument (g : Given) (arg : String) : Except Stop Given :=
  if g.wordsOnly then s.addWord g arg
  else
    match Token.ofArgument arg with
    | .separator => .ok { g with wordsOnly := true }
    | .word => s.valueOrWord g arg
    | .long name value =>
      match s.byName? name with
      | some option => longOption g option value
      | none => if s.takesAnything g then s.valueOrWord g arg else .error .usage
    | .letters cs =>
      if s.takesAnything g && cs.any (fun c => (s.byLetter? c).isNone) then s.valueOrWord g arg
      else s.letters g cs

/-- **Sorts arguments** into options and words, all of which have to be there. -/
def scan (g : Given) : List String → Except Stop Given
  | [] => if g.pending.isSome || g.words.length < s.words.length then .error .usage else .ok g
  | arg :: args => do scan (← s.argument g arg) args

end Shape

/-- Something to do. -/
inductive Task where
  | demo (sample : String) (output : Option String) (showText : Bool)
  | dump (file : String)
  | run (file method : String) (args : List String)
deriving DecidableEq

/-- What the program is asked to do. -/
structure Invocation where
  task : Task
  /-- Whether remarks are wanted. -/
  verbose : Bool
deriving DecidableEq

/-- Options that every command has. -/
def sharedOptions : List OptionSpec := [
  { long := "verbose", letter := some 'v', action := .switch },
  { long := "help", letter := some 'h', action := .stop .help }]

/-- The options before a command. -/
def mainShape : Shape where
  options := { long := "version", letter := some 'V', action := .stop .version } :: sharedOptions

/-- What `demo` takes. -/
def demoShape : Shape where
  options := [
    { long := "output", letter := some 'o', action := .path },
    { long := "show-ast", action := .switch }] ++ sharedOptions
  words := [.text]

/-- What `dump` takes. -/
def dumpShape : Shape where
  options := sharedOptions
  words := [.path]

/-- What `run` takes. -/
def runShape : Shape where
  options := sharedOptions
  words := [.path, .text]
  openEnded := true

/-- The name of the command that describes the others. -/
def helpCommand : String := "help"

/-- The names of the commands. -/
def commandNames : List String := ["demo", "dump", "run", helpCommand]

/-- Reads a command after its name. -/
def parseCommand (name : String) (args : List String) : Except Stop (Task × Given) := do
  match name with
  | "demo" =>
    let g ← demoShape.scan {} args
    let task := .demo (g.words.headD "") (g.paths.lookup "output") (g.switches.contains "show-ast")
    return (task, g)
  | "dump" =>
    let g ← dumpShape.scan {} args
    return (.dump (g.words.headD ""), g)
  | "run" =>
    let g ← runShape.scan {} args
    match g.words.reverse with
    | file :: method :: args => return (.run file method args, g)
    | _ => throw .usage
  | "help" =>
    match args with
    | [] => throw .help
    | [command] => throw (if commandNames.contains command then .help else .usage)
    | _ => throw .usage
  | _ => throw .usage

/-- Reads arguments up to the name of a command, and the command. -/
def parseFrom (g : Given) : List String → Except Stop Invocation
  | [] => .error .usage
  | arg :: args =>
    if !g.wordsOnly && commandNames.contains arg then do
      let (task, own) ← parseCommand arg args
      return ⟨task, g.switches.contains "verbose" || own.switches.contains "verbose"⟩
    else do parseFrom (← mainShape.argument g arg) args

/-- **The invocation** of a list of arguments. -/
def parse (args : List String) : Except Stop Invocation := parseFrom {} args

end ClassFoundry.Command
