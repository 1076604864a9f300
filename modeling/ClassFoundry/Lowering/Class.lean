import ClassFoundry.ClassFile.Verification
import ClassFoundry.ClassFile.Writer
import ClassFoundry.Lowering.Statement
import ClassFoundry.Options

/-!
# Compilation

A program becomes a class in two passes: the first gives every function its place in the call
table and in the constant pool, so that calls may come before definitions, and the second lowers
one function after the other.

## Main definitions

* `ClassM`: work on a class
* `compileProgram`: the class of a program, with warnings and a trace
* `buildClass`: the same, verified if the options say so
-/

namespace ClassFoundry

/-- What the compilation of a program works on. -/
structure ClassState where
  pool : PoolBuilder
  table : CallTable
  methods : Array Method := #[]
  warnings : Array String := #[]
  trace : Array TraceEntry := #[]

/-- Work on a class; its effects remain when it fails. -/
abbrev ClassM := EStateM CompileError ClassState

namespace ClassM

/-- Works on the constant pool. -/
def pool (x : PoolM α) : ClassM α := fun ⟨pool, table, methods, warnings, trace⟩ =>
  match x pool with
  | .ok a pool => .ok a ⟨pool, table, methods, warnings, trace⟩
  | .error e pool => .error (.pool e) ⟨pool, table, methods, warnings, trace⟩

/-- Lowers a function from its initial locals and appends to the trace. An error is attached to
the function. -/
def function (name : String) (locals : Locals) (x : Lower α) : ClassM α :=
  fun ⟨pool, table, methods, warnings, trace⟩ =>
    match x ⟨pool, locals, .start locals.maxLocals⟩ with
    | .ok a s => .ok a ⟨s.pool, table, methods, warnings, trace ++ s.asm.trace⟩
    | .error e s =>
      .error (e.inFunction name) ⟨s.pool, table, methods, warnings, trace ++ s.asm.trace⟩

end ClassM

open ClassM

/-- Gives a function its place in the call table and in the pool. -/
def registerFunction (owner : String) (f : FunDef) : ClassM Unit := do
  let callable := Callable.ofFunction owner f
  let methodRef ← pool (PoolBuilder.internMethod callable.member)
  let s ← get
  match s.table.register { callable with methodRef := some methodRef } with
  | .ok table => set { s with table }
  | .error e => throw e

/-- Adds a finished method to the class. -/
def addMethod (attrName flags : UInt16) (name descriptor : String) (body : Finished) :
    ClassM Unit := do
  let name ← pool (PoolBuilder.internText name)
  let descriptor ← pool (PoolBuilder.internText descriptor)
  let method : Method := {
    flags, name, descriptor, attrName
    maxStack := UInt16.ofNat body.maxStack
    maxLocals := UInt16.ofNat body.maxLocals
    code := body.code }
  modify fun s => { s with methods := s.methods.push method }

/-- The locals of a constructor: the receiver. -/
def constructorLocals : Locals := .start constructorName 0 { paramsEnd := 1 }

/-- The body of a constructor that calls the one with an index and returns. -/
def constructorBody (superInit : UInt16) : Lower Finished := do
  Lower.code (Asm.load .reference 0)
  Lower.code (Asm.invoke .invokespecial superInit 0 0)
  Lower.code (Asm.ret none)
  finishBody

/-- Adds a constructor that only calls the one of the superclass. -/
def addConstructor (attrName : UInt16) (superClass : String) : ClassM Unit := do
  let superInit ← pool
    (PoolBuilder.internMethod ⟨superClass, constructorName, constructorDescriptor⟩)
  let body ← function constructorName constructorLocals (constructorBody superInit)
  addMethod attrName AccessFlags.pub constructorName constructorDescriptor body

/-- Lowers a function that has been registered. -/
def compileFunction (attrName : UInt16) (f : FunDef) : ClassM Unit := do
  let table := (← get).table
  match (table.defined? f.name).bind (table.entries[·]?) with
  | none => throw (.unresolved f.name)
  | some callable =>
    match Locals.ofFunction f f.reservedSlots with
    | .error e => throw e
    | .ok locals =>
      let body ← function f.name locals (lowerFunction ⟨table, f⟩)
      addMethod attrName callable.flags callable.methodName callable.descriptor body

/-- The warning about a program that defines a constructor. -/
def constructorWarning (program : String) : String :=
  program ++ " defines its own " ++ constructorName ++ "; no default constructor added"

/-- Adds the constructor that the options ask for, unless the program has one. -/
def compileConstructor (options : Options) (attrName : UInt16) (program : Program) :
    ClassM Unit :=
  if options.defaultConstructor then
    if (program.function? constructorName).isSome then
      modify fun s => { s with warnings := s.warnings.push (constructorWarning program.name) }
    else addConstructor attrName options.superClass
  else pure ()

/-- The class of a program. -/
def compileClass (options : Options) (program : Program) : ClassM ClassFile := do
  let thisClass ← pool (PoolBuilder.internClass program.name)
  let superClass ← pool (PoolBuilder.internClass options.superClass)
  let attrName ← pool (PoolBuilder.internText codeAttribute)
  program.functions.forM (registerFunction program.name)
  compileConstructor options attrName program
  program.functions.forM (compileFunction attrName)
  let s ← get
  return {
    major := options.major, flags := options.flags, thisClass, superClass
    pool := s.pool.pool, methods := s.methods.toList }

/-- What a compilation gives: a class or an error, the warnings, and the trace if one was asked
for. -/
structure Compilation (ε : Type) where
  result : Except ε ClassFile
  warnings : List String
  trace : List TraceEntry

/-- The call table that a program starts with. -/
def importTable (imports : List Callable) : CallTable :=
  imports.foldl CallTable.add CallTable.withBuiltins

/-- **Compiles a program**, with methods of other classes callable from it. -/
def compileProgram (options : Options) (imports : List Callable) (program : Program) :
    Compilation CompileError :=
  let start : ClassState :=
    { pool := .withLimit options.poolLimit, table := importTable imports }
  let finish (result : Except CompileError ClassFile) (s : ClassState) :
      Compilation CompileError :=
    ⟨result, s.warnings.toList, if options.debug then s.trace.toList else []⟩
  match compileClass options program start with
  | .ok c s => finish (.ok c) s
  | .error e s => finish (.error e) s

/-- Why a program has no class that can be used. -/
inductive BuildError where
  | compile (cause : CompileError)
  | verify (cause : VerifyError)

/-- The wording of an error. -/
def BuildError.message : BuildError → String
  | .compile cause => "Code generation error: " ++ cause.message
  | .verify cause => "ClassFile verify failed: " ++ cause.message

/-- Verifies a class if the options say so. -/
def verified (options : Options) (c : ClassFile) : Except BuildError ClassFile :=
  if options.verify then
    match c.verify with
    | .ok _ => .ok c
    | .error e => .error (.verify e)
  else .ok c

/-- **Builds the class of a program**. -/
def buildClass (options : Options) (imports : List Callable) (program : Program) :
    Compilation BuildError :=
  let compiled := compileProgram options imports program
  { compiled with result := (compiled.result.mapError .compile).bind (verified options) }

/-- The bytes of the class of a program. -/
def buildBytes (options : Options) (program : Program) : Except BuildError Bytes :=
  (buildClass options [] program).result.map ClassFile.toBytes

end ClassFoundry
