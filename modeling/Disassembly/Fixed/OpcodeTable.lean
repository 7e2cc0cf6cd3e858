import Disassembly.Fixed.Instruction
import Disassembly.Fixed.MajorOpcode
import Disassembly.Fixed.Operation

/-!
# Opcode tables

An opcode table holds the operations of some standards and finds the operation of a decoded
instruction. The parts of an instruction can fit several selectors; the most specific one counts.
-/

namespace Disassembly

/-- The operations of some standards. -/
structure OpcodeTable where
  /-- the operations, in the order of `Operation.all` -/
  ops : List Operation

namespace OpcodeTable

/-- The table of the operations of given standards, or of all operations if none are given. -/
def ofStandards (ss : List Standard) : OpcodeTable where
  ops := Operation.all.filter fun o => ss.isEmpty || ss.contains o.standard

/-- The format of a major opcode of which the table has an operation. -/
def format? (t : OpcodeTable) (opcode : BitVec 8) : Option Format :=
  if t.ops.any (·.opcode = opcode) then (MajorOpcode.find? opcode).map (·.format) else none

/-- The operation with an opcode and selector. -/
def select? (t : OpcodeTable) (opcode : BitVec 8) (s : Selector) : Option Operation :=
  t.ops.find? fun o => o.opcode = opcode && o.selector = s

/-- The selectors that the parts of an instruction fit, the most specific first. -/
def candidates (inst : Instruction) : List Selector :=
  match inst.format with
  | .r =>
    .funct7 inst.funct3 inst.funct7 ::
      (if MajorOpcode.isOrdered inst.opcode then
        [.funct7 inst.funct3 (inst.funct7 &&& ~~~3)] else []) ++
      [.funct3 inst.funct3, .opcode]
  | .i =>
    [.constant inst.funct3 inst.imm, .funct7 inst.funct3 ((inst.imm >>> 5).setWidth 8),
      .funct3 inst.funct3, .opcode]
  | .s | .sb => [.funct3 inst.funct3, .opcode]
  | .u | .uj | .unknown _ => [.opcode]

/-- The operation of an instruction. -/
def lookup (t : OpcodeTable) (inst : Instruction) : Option Operation :=
  (candidates inst).findSome? (t.select? inst.opcode)

end OpcodeTable

end Disassembly
