import ClassFoundry.AccessFlags
import ClassFoundry.CompileError
import ClassFoundry.Descriptor

/-!
# Callable methods

The methods that a program can call: its own functions, methods of other classes imported under a
name, and the built-in ones. A call is resolved by name and argument types. A function of the
program hides all imports of its name; among imports the one with exactly the argument types is
preferred, then the one whose types hold every value of the arguments, then the first of the same
kinds.

## Main definitions

* `Callable`, `Receiver`: a method as a caller sees it
* `CallTable`: the methods in order
* `CallTable.resolve`: the callee of a call
* `builtins`: printing and text functions
-/

namespace ClassFoundry

/-- Where the receiver of a call comes from. -/
inductive Receiver where
  /-- There is none. -/
  | none
  /-- The receiver of the caller. -/
  | this
  /-- The first argument. -/
  | firstArg
  /-- A static field. -/
  | staticField (field : Member)
deriving DecidableEq

/-- **A method as a caller sees it**. -/
structure Callable where
  /-- The name that calls use. -/
  name : String
  /-- The class of the method. -/
  owner : String
  /-- The name of the method in its class. -/
  methodName : String
  descriptor : String
  params : List DataType
  returnType : DataType
  receiver : Receiver := .none
  flags : UInt16 := AccessFlags.pub
  /-- Whether the class under construction defines the method. -/
  defined : Bool := false
  /-- Whether callers pass an argument array that the program does not see. -/
  entryPoint : Bool := false
  /-- The index of the method in the constant pool, once it has one. -/
  methodRef : Option UInt16 := .none
  codeLength : Nat := 0
  codeOffset : Nat := 0
deriving DecidableEq

namespace Callable

/-- The method in its class. -/
def member (c : Callable) : Member := ⟨c.owner, c.methodName, c.descriptor⟩

/-- The callable of a function of the class `owner`. -/
def ofFunction (owner : String) (f : FunDef) : Callable where
  name := f.name
  owner
  methodName := f.name
  descriptor :=
    if f.isEntryPoint then Descriptor.entryPoint
    else Descriptor.ofMethod (f.params.map (·.ty)) f.returnType
  params := f.params.map (·.ty)
  returnType := f.returnType
  receiver := if f.isStatic then .none else .this
  flags := f.accessFlags
  defined := true
  entryPoint := f.isEntryPoint

/-- The callable of a method of another class. -/
def ofImport (name owner methodName descriptor : String) (params : List DataType)
    (returnType : DataType) (receiver : Receiver) : Callable where
  name
  owner
  methodName
  descriptor
  params
  returnType
  receiver

/-- Whether a call needs no receiver. -/
def isStatic (c : Callable) : Bool := c.receiver == .none

/-- The words of the arguments, without the receiver. -/
def argWords (c : Callable) : Nat :=
  let params := if c.receiver = .firstArg then c.params.drop 1 else c.params
  params.foldl (fun n ty => n + ty.width) 0 + if c.entryPoint then 1 else 0

/-- The words of the result. -/
def returnWords (c : Callable) : Nat := c.returnType.width

/-- Whether arguments of these types have the number and the kinds of the parameters. -/
def accepts (c : Callable) (args : List DataType) : Bool :=
  c.params.map DataType.kind? == args.map DataType.kind?

/-- The line of a callable in a list. -/
def text (c : Callable) : String :=
  c.name ++ " " ++ c.owner ++ "." ++ c.methodName ++ c.descriptor

end Callable

/-- The parameter type of an import that holds every value of a type: small integers go to int
and unsigned 32-bit ones to long. -/
def DataType.widened : DataType → DataType
  | .int .w8 _ | .int .w16 _ => .i32
  | .int .w32 true => .i64
  | ty => ty

/-- The class that prints. -/
def printStreamClass : String := "java/io/PrintStream"

/-- The class that holds the standard output. -/
def systemClass : String := "java/lang/System"

/-- The standard output. -/
def standardOutput : Member := ⟨systemClass, "out", Descriptor.ofClass printStreamClass⟩

/-- A printing method for values of a type. -/
def printMethod (name : String) (ty : DataType) : Callable where
  name
  owner := printStreamClass
  methodName := name
  descriptor := Descriptor.ofMethod [ty] .void
  params := [ty]
  returnType := .void
  receiver := .staticField standardOutput

/-- The types that can be printed. -/
def printableTypes : List DataType := [.string, .i32, .i64, .char, .bool]

/-- **The built-in methods**. -/
def builtins : List Callable :=
  printableTypes.map (printMethod "print") ++ printableTypes.map (printMethod "println") ++
  [{ name := "println", owner := printStreamClass, methodName := "println", descriptor := "()V"
     params := [], returnType := .void, receiver := .staticField standardOutput },
   { name := "strcat", owner := Descriptor.stringClass, methodName := "concat"
     descriptor := "(Ljava/lang/String;)Ljava/lang/String;"
     params := [.string, .string], returnType := .string, receiver := .firstArg },
   { name := "strlen", owner := Descriptor.stringClass, methodName := "length"
     descriptor := "()I", params := [.string], returnType := .i32, receiver := .firstArg },
   { name := "streq", owner := Descriptor.stringClass, methodName := "equals"
     descriptor := "(Ljava/lang/Object;)Z"
     params := [.string, .string], returnType := .bool, receiver := .firstArg }]

/-- **Call tables**: the callable methods in order. -/
structure CallTable where
  entries : Array Callable := #[]

namespace CallTable

variable (t : CallTable)

/-- The table of the built-in methods. -/
def withBuiltins : CallTable := ⟨builtins.toArray⟩

/-- Adds a method of another class. -/
def add (c : Callable) : CallTable := ⟨t.entries.push c⟩

/-- The position of the function of a name that the class defines. -/
def defined? (name : String) : Option Nat :=
  t.entries.findIdx? fun e => e.defined && e.name == name

/-- Adds a method; a class defines a name once. -/
def register (c : Callable) : Except CompileError CallTable :=
  if c.defined && (t.defined? c.name).isSome then .error (.duplicate c.name c.owner)
  else .ok (t.add c)

/-- Records where the code of a method is. -/
def setCode? (i length offset : Nat) : Option CallTable :=
  match t.entries[i]? with
  | some c =>
    some ⟨t.entries.setIfInBounds i { c with codeLength := length, codeOffset := offset }⟩
  | none => none

/-- **The callee** of a call, with its position in the table. -/
def resolve (name : String) (args : List DataType) : Except CompileError (Nat × Callable) :=
  let candidates := t.entries.toList.zipIdx.filter (·.1.name == name)
  let pick (p : Callable → Bool) : Option (Nat × Callable) :=
    (candidates.find? (p ·.1)).map fun (c, i) => (i, c)
  if candidates.isEmpty then .error (.unresolved name)
  else
    match pick (·.defined) with
    | some found =>
      if found.2.accepts args then .ok found
      else .error (.violation (.argumentMismatch name args.length))
    | none =>
      match (pick (·.params == args)).or <|
          (pick (·.params == args.map DataType.widened)).or (pick (·.accepts args)) with
      | some found => .ok found
      | none => .error (.violation (.noOverload name))

end CallTable

end ClassFoundry
