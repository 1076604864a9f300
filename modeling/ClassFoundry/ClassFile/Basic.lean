import ClassFoundry.AccessFlags
import ClassFoundry.ConstantPool.Basic
import ClassFoundry.Instruction.Format

/-!
# Class files

One class as its file describes it: the constant pool, the class and its superclass by index, and
the methods with their code.

## Main definitions

* `ClassFile`, `Method`: the contents of a class file
* `ClassFile.name?`, `ClassFile.method?`: names resolved through the constant pool
-/

namespace ClassFoundry

/-- The first four bytes of every class file. -/
def magicNumber : UInt32 := 0xcafebabe

/-- The name of the attribute that holds the code of a method. -/
def codeAttribute : String := "Code"

/-- The name of constructors. -/
def constructorName : String := "<init>"

/-- The descriptor of a constructor without parameters. -/
def constructorDescriptor : String := "()V"

/-- **Methods**: flags, the indices of name and descriptor, and the code attribute. -/
structure Method where
  flags : UInt16
  name : UInt16
  descriptor : UInt16
  /-- The index of the attribute's name. -/
  attrName : UInt16
  maxStack : UInt16
  maxLocals : UInt16
  code : CodeArray
deriving DecidableEq

/-- **Class files**. Those made here have no interfaces, no fields and no attributes. -/
structure ClassFile where
  magic : UInt32 := magicNumber
  minor : UInt16 := 0
  major : UInt16 := 52
  pool : ConstantPool := {}
  flags : UInt16 := AccessFlags.pub ||| AccessFlags.super
  thisClass : UInt16 := 0
  superClass : UInt16 := 0
  methods : List Method := []
deriving DecidableEq

namespace ClassFile

variable (c : ClassFile)

/-- The name of the class. -/
def name? : Option String := c.pool.className? c.thisClass

/-- The name of the superclass. -/
def superName? : Option String := c.pool.className? c.superClass

/-- The first method of a name. -/
def method? (name : String) : Option Method :=
  c.methods.find? fun m => c.pool.text? m.name == some name

/-- The first method of a name and a descriptor. -/
def find? (name descriptor : String) : Option Method :=
  c.methods.find? fun m =>
    c.pool.text? m.name == some name && c.pool.text? m.descriptor == some descriptor

end ClassFile

end ClassFoundry
