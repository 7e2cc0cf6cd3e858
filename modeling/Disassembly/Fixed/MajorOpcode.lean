import Disassembly.Fixed.Format

/-!
# Major opcodes

The low seven bits of a 32-bit instruction are its major opcode, which decides the format.
-/

namespace Disassembly

/-- A major opcode. -/
structure MajorOpcode where
  /-- its name -/
  name : Text
  /-- its number -/
  number : BitVec 8
  /-- the format of its instructions -/
  format : Format
  /-- whether the two low bits of the function code of seven bits only ask for memory ordering -/
  ordered : Bool := false

namespace MajorOpcode

/-- The major opcodes that are known, in ascending order. -/
def all : List MajorOpcode :=
  [{ name := "LOAD", number := 0x03, format := .i },
    { name := "MISC-MEM", number := 0x0F, format := .i },
    { name := "OP-IMM", number := 0x13, format := .i },
    { name := "AUIPC", number := 0x17, format := .u },
    { name := "STORE", number := 0x23, format := .s },
    { name := "AMO", number := 0x2F, format := .r, ordered := true },
    { name := "OP", number := 0x33, format := .r },
    { name := "LUI", number := 0x37, format := .u },
    { name := "BRANCH", number := 0x63, format := .sb },
    { name := "JALR", number := 0x67, format := .i },
    { name := "JAL", number := 0x6F, format := .uj },
    { name := "SYSTEM", number := 0x73, format := .i }]

/-- The major opcode with a number. -/
def find? (number : BitVec 8) : Option MajorOpcode := all.find? (·.number = number)

/-- Whether instructions of an opcode carry a request for memory ordering. -/
def isOrdered (number : BitVec 8) : Bool := (find? number).any (·.ordered)

end MajorOpcode

end Disassembly
