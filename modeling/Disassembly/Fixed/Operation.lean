import Disassembly.Fixed.Standard

/-!
# Operations

An operation of the base set is known by its major opcode and some fixed parts of the word: the
function codes, or, for a few operations without operands, the whole immediate.
-/

namespace Disassembly

/-- The fixed parts of an operation, besides its opcode. -/
inductive Selector where
  /-- none -/
  | opcode
  /-- the function code of three bits -/
  | funct3 (f3 : BitVec 8)
  /-- both function codes -/
  | funct7 (f3 f7 : BitVec 8)
  /-- the function code of three bits and the immediate -/
  | constant (f3 : BitVec 8) (imm : BitVec 32)
  deriving DecidableEq

namespace Selector

/-- The function code of three bits, or zero. -/
def funct3Value : Selector → BitVec 8
  | opcode => 0
  | funct3 f3 => f3
  | funct7 f3 _ => f3
  | constant f3 _ => f3

/-- The function code of seven bits, or zero. -/
def funct7Value : Selector → BitVec 8
  | funct7 _ f7 => f7
  | _ => 0

/-- The immediate, or zero. -/
def constantValue : Selector → BitVec 32
  | constant _ imm => imm
  | _ => 0

end Selector

/-- Which operands follow the name of an operation. -/
inductive Operands where
  /-- those of the format -/
  | format
  /-- those of the format, the immediate being an amount to shift by -/
  | shift
  /-- none -/
  | none
  deriving DecidableEq

/-- An operation with a name. -/
structure Operation where
  /-- the mnemonic -/
  name : Text
  /-- the major opcode -/
  opcode : BitVec 8
  /-- the other fixed parts -/
  selector : Selector
  /-- how the operands are shown -/
  operands : Operands
  /-- the standard that defines it -/
  standard : Standard
  deriving DecidableEq

namespace Operation

/-- An operation that its opcode alone selects. -/
def plain (standard : Standard) (name : Text) (opcode : BitVec 8) : Operation :=
  ⟨name, opcode, .opcode, .format, standard⟩

/-- An operation that the function code of three bits selects. -/
def short (standard : Standard) (name : Text) (opcode f3 : BitVec 8) : Operation :=
  ⟨name, opcode, .funct3 f3, .format, standard⟩

/-- An operation that both function codes select. -/
def long (standard : Standard) (name : Text) (opcode f3 f7 : BitVec 8) : Operation :=
  ⟨name, opcode, .funct7 f3 f7, .format, standard⟩

/-- A shift by a constant amount. -/
def shift (standard : Standard) (name : Text) (opcode f3 f7 : BitVec 8) : Operation :=
  ⟨name, opcode, .funct7 f3 f7, .shift, standard⟩

/-- An operation without operands that the immediate selects. -/
def constant (standard : Standard) (name : Text) (opcode f3 : BitVec 8) (imm : BitVec 32) :
    Operation :=
  ⟨name, opcode, .constant f3 imm, .none, standard⟩

/-- An atomic memory operation, selected by the five high bits of the function code of seven. -/
def atomic (name : Text) (funct5 : BitVec 5) : Operation :=
  long .rv32a name 0x2F 0b010 ((funct5 ++ 0#2).setWidth 8)

open Standard in
/-- All operations that are known. No two of them have the same opcode and fixed parts. -/
def all : List Operation :=
  [plain rv32i "lui" 0x37,
    plain rv32i "auipc" 0x17,
    plain rv32i "jal" 0x6F,
    short rv32i "jalr" 0x67 0b000,
    short rv32i "beq" 0x63 0b000,
    short rv32i "bne" 0x63 0b001,
    short rv32i "blt" 0x63 0b100,
    short rv32i "bge" 0x63 0b101,
    short rv32i "bltu" 0x63 0b110,
    short rv32i "bgeu" 0x63 0b111,
    short rv32i "lb" 0x03 0b000,
    short rv32i "lh" 0x03 0b001,
    short rv32i "lw" 0x03 0b010,
    short rv32i "lbu" 0x03 0b100,
    short rv32i "lhu" 0x03 0b101,
    short rv32i "sb" 0x23 0b000,
    short rv32i "sh" 0x23 0b001,
    short rv32i "sw" 0x23 0b010,
    short rv32i "addi" 0x13 0b000,
    short rv32i "slti" 0x13 0b010,
    short rv32i "sltiu" 0x13 0b011,
    short rv32i "xori" 0x13 0b100,
    short rv32i "ori" 0x13 0b110,
    short rv32i "andi" 0x13 0b111,
    shift rv32i "slli" 0x13 0b001 0x00,
    shift rv32i "srli" 0x13 0b101 0x00,
    shift rv32i "srai" 0x13 0b101 0x20,
    long rv32i "add" 0x33 0b000 0x00,
    long rv32i "sub" 0x33 0b000 0x20,
    long rv32i "sll" 0x33 0b001 0x00,
    long rv32i "slt" 0x33 0b010 0x00,
    long rv32i "sltu" 0x33 0b011 0x00,
    long rv32i "xor" 0x33 0b100 0x00,
    long rv32i "srl" 0x33 0b101 0x00,
    long rv32i "sra" 0x33 0b101 0x20,
    long rv32i "or" 0x33 0b110 0x00,
    long rv32i "and" 0x33 0b111 0x00,
    short rv32i "fence" 0x0F 0b000,
    constant rv32i "fence.i" 0x0F 0b001 0,
    constant rv32i "ecall" 0x73 0b000 0x000,
    constant rv32i "ebreak" 0x73 0b000 0x001,
    short rv32i "csrrw" 0x73 0b001,
    short rv32i "csrrs" 0x73 0b010,
    short rv32i "csrrc" 0x73 0b011,
    short rv32i "csrrwi" 0x73 0b101,
    short rv32i "csrrsi" 0x73 0b110,
    short rv32i "csrrci" 0x73 0b111,
    constant rv32s "sret" 0x73 0b000 0x102,
    constant rv32s "wfi" 0x73 0b000 0x105,
    constant rv32s "mret" 0x73 0b000 0x302,
    long rv32m "mul" 0x33 0b000 0x01,
    long rv32m "mulh" 0x33 0b001 0x01,
    long rv32m "mulhsu" 0x33 0b010 0x01,
    long rv32m "mulhu" 0x33 0b011 0x01,
    long rv32m "div" 0x33 0b100 0x01,
    long rv32m "divu" 0x33 0b101 0x01,
    long rv32m "rem" 0x33 0b110 0x01,
    long rv32m "remu" 0x33 0b111 0x01,
    atomic "lr.w" 0b00010,
    atomic "sc.w" 0b00011,
    atomic "amoswap.w" 0b00001,
    atomic "amoadd.w" 0b00000,
    atomic "amoxor.w" 0b00100,
    atomic "amoand.w" 0b01100,
    atomic "amoor.w" 0b01000,
    atomic "amomin.w" 0b10000,
    atomic "amomax.w" 0b10100,
    atomic "amominu.w" 0b11000,
    atomic "amomaxu.w" 0b11100]

end Operation

end Disassembly
