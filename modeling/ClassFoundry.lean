import ClassFoundry.AccessFlags
import ClassFoundry.Assembler.Basic
import ClassFoundry.Assembler.Labels
import ClassFoundry.Bytes
import ClassFoundry.CallTable
import ClassFoundry.ClassFile.Basic
import ClassFoundry.ClassFile.Listing
import ClassFoundry.ClassFile.Reader
import ClassFoundry.ClassFile.Verification
import ClassFoundry.ClassFile.Writer
import ClassFoundry.Command.Arguments
import ClassFoundry.Command.Basic
import ClassFoundry.Command.Outcome
import ClassFoundry.CompileError
import ClassFoundry.ConstantPool.Basic
import ClassFoundry.ConstantPool.Builder
import ClassFoundry.Descriptor
import ClassFoundry.Files.Path
import ClassFoundry.Files.Tree
import ClassFoundry.Instruction.Action
import ClassFoundry.Instruction.Format
import ClassFoundry.Instruction.Opcode
import ClassFoundry.Kind
import ClassFoundry.Locals
import ClassFoundry.Lowering.Basic
import ClassFoundry.Lowering.Class
import ClassFoundry.Lowering.Expression
import ClassFoundry.Lowering.Statement
import ClassFoundry.Machine.Arithmetic
import ClassFoundry.Machine.Frame
import ClassFoundry.Machine.Library
import ClassFoundry.Machine.Run
import ClassFoundry.Machine.Value
import ClassFoundry.Main
import ClassFoundry.Options
import ClassFoundry.Proofs.Assembler.Decoding
import ClassFoundry.Proofs.Assembler.Events
import ClassFoundry.Proofs.Assembler.Rendering
import ClassFoundry.Proofs.CallTable
import ClassFoundry.Proofs.Compilation
import ClassFoundry.Proofs.ConstantPool
import ClassFoundry.Proofs.Descriptor
import ClassFoundry.Proofs.Locals
import ClassFoundry.Proofs.Progress
import ClassFoundry.Proofs.Structured.Code
import ClassFoundry.Proofs.Structured.Ends
import ClassFoundry.Proofs.Structured.Expressions
import ClassFoundry.Proofs.Structured.Operations
import ClassFoundry.Proofs.Structured.Selection
import ClassFoundry.Proofs.Structured.Statements
import ClassFoundry.Proofs.Structured.Declarations
import ClassFoundry.Proofs.Success
import ClassFoundry.Proofs.Verification
import ClassFoundry.Syntax.DataType
import ClassFoundry.Syntax.Printer
import ClassFoundry.Syntax.Program
import ClassFoundry.Syntax.Samples
import ClassFoundry.Text.ModifiedUtf8
import ClassFoundry.Text.Numeral
import ClassFoundry.Text.Printable
import ClassFoundry.Text.Quoted
import ClassFoundry.Proofs.Assembler.Depth
import ClassFoundry.Proofs.Discipline
import ClassFoundry.Proofs.Boundaries
import ClassFoundry.Proofs.Interning
import ClassFoundry.Proofs.ModifiedUtf8
import ClassFoundry.Proofs.RoundTrip
import ClassFoundry.Proofs.Calling
import ClassFoundry.Proofs.Structured.Contracts
import ClassFoundry.Proofs.TypeSafety
import ClassFoundry.Proofs.Structured.Meaning
import ClassFoundry.Proofs.Assembler.Resolution
import ClassFoundry.Proofs.Convention
import ClassFoundry.Proofs.Normalisation
import ClassFoundry.Proofs.Threshold
import ClassFoundry.Proofs.Evaluation
import ClassFoundry.Proofs.Structured.Endings
import ClassFoundry.Proofs.Structured.Numbers
import ClassFoundry.Proofs.Structured.Simulation
import ClassFoundry.Proofs.Preservation
import ClassFoundry.Proofs.Structured.Ranges
import ClassFoundry.Proofs.Ranges
import ClassFoundry.Proofs.Imports
import ClassFoundry.Proofs.Integers
import ClassFoundry.Proofs.Literals
import ClassFoundry.Proofs.Answers
import ClassFoundry.Proofs.ExactArithmetic
import ClassFoundry.Proofs.StraightLine
import ClassFoundry.Proofs.ExactComparisons
import ClassFoundry.Proofs.TruthValues
import ClassFoundry.Proofs.Encoding
import ClassFoundry.Proofs.SlotRegions
import ClassFoundry.Proofs.Returns
import ClassFoundry.Proofs.Printing
import ClassFoundry.Proofs.Truncation
import ClassFoundry.Proofs.CallBounds
import ClassFoundry.Proofs.LiteralIdentity
import ClassFoundry.Proofs.CanonicalText
import ClassFoundry.Proofs.DescriptorGrammar
import ClassFoundry.Proofs.ClassNames
import ClassFoundry.Proofs.ClassPaths
import ClassFoundry.Proofs.Listing
import ClassFoundry.Proofs.Assembler.FarBranches
import ClassFoundry.Proofs.Structured.Truth
import ClassFoundry.Proofs.Branching
import ClassFoundry.Proofs.Assembler.LabelCalls
