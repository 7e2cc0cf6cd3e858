import Disassembly.Table.Load

/-!
# The base integer instructions

The table of the 32-bit instructions of RV32I. It is kept as a file, with blank lines and comments,
and read like any other table; the file is in order (`Table.loadBaseInteger_eq`).
-/

namespace Disassembly

namespace Table

/-- The lines of the file with the base integer instructions, in the order in which they are
tried. -/
def baseIntegerLines : List String :=
  ["# RV32I base integer instructions, 32-bit encodings.",
    "#",
    "# Each line is \"template\", then the instruction's bit groups from bit 31",
    "# down to bit 0. The first matching line wins.",
    "",
    "\"<illegal>\", 00000000000000000000000000000000",
    "\"<illegal>\", 11111111111111111111111111111111",
    "",
    "\"lui rd, uimm\", uimm[31:12], rd[4:0], 0110111",
    "\"auipc rd, uimm\", uimm[31:12], rd[4:0], 0010111",
    "\"jal rd, off21\", off21[20|10:1|11|19:12], rd[4:0], 1101111",
    "\"jalr rd, imm12(rs1)\", imm12[11:0], rs1[4:0], 000, rd[4:0], 1100111",
    "",
    "\"beq rs1, rs2, off13\", off13[12|10:5], rs2[4:0], rs1[4:0], 000, off13[4:1|11], 1100011",
    "\"bne rs1, rs2, off13\", off13[12|10:5], rs2[4:0], rs1[4:0], 001, off13[4:1|11], 1100011",
    "\"blt rs1, rs2, off13\", off13[12|10:5], rs2[4:0], rs1[4:0], 100, off13[4:1|11], 1100011",
    "\"bge rs1, rs2, off13\", off13[12|10:5], rs2[4:0], rs1[4:0], 101, off13[4:1|11], 1100011",
    "\"bltu rs1, rs2, off13\", off13[12|10:5], rs2[4:0], rs1[4:0], 110, off13[4:1|11], 1100011",
    "\"bgeu rs1, rs2, off13\", off13[12|10:5], rs2[4:0], rs1[4:0], 111, off13[4:1|11], 1100011",
    "",
    "\"lb rd, imm12(rs1)\", imm12[11:0], rs1[4:0], 000, rd[4:0], 0000011",
    "\"lh rd, imm12(rs1)\", imm12[11:0], rs1[4:0], 001, rd[4:0], 0000011",
    "\"lw rd, imm12(rs1)\", imm12[11:0], rs1[4:0], 010, rd[4:0], 0000011",
    "\"lbu rd, imm12(rs1)\", imm12[11:0], rs1[4:0], 100, rd[4:0], 0000011",
    "\"lhu rd, imm12(rs1)\", imm12[11:0], rs1[4:0], 101, rd[4:0], 0000011",
    "",
    "\"sb rs2, imm12(rs1)\", imm12[11:5], rs2[4:0], rs1[4:0], 000, imm12[4:0], 0100011",
    "\"sh rs2, imm12(rs1)\", imm12[11:5], rs2[4:0], rs1[4:0], 001, imm12[4:0], 0100011",
    "\"sw rs2, imm12(rs1)\", imm12[11:5], rs2[4:0], rs1[4:0], 010, imm12[4:0], 0100011",
    "",
    "\"addi rd, rs1, imm12\", imm12[11:0], rs1[4:0], 000, rd[4:0], 0010011",
    "\"slti rd, rs1, imm12\", imm12[11:0], rs1[4:0], 010, rd[4:0], 0010011",
    "\"sltiu rd, rs1, imm12\", imm12[11:0], rs1[4:0], 011, rd[4:0], 0010011",
    "\"xori rd, rs1, imm12\", imm12[11:0], rs1[4:0], 100, rd[4:0], 0010011",
    "\"ori rd, rs1, imm12\", imm12[11:0], rs1[4:0], 110, rd[4:0], 0010011",
    "\"andi rd, rs1, imm12\", imm12[11:0], rs1[4:0], 111, rd[4:0], 0010011",
    "\"slli rd, rs1, shamt\", 0000000, shamt[4:0], rs1[4:0], 001, rd[4:0], 0010011",
    "\"srli rd, rs1, shamt\", 0000000, shamt[4:0], rs1[4:0], 101, rd[4:0], 0010011",
    "\"srai rd, rs1, shamt\", 0100000, shamt[4:0], rs1[4:0], 101, rd[4:0], 0010011",
    "",
    "\"add rd, rs1, rs2\", 0000000, rs2[4:0], rs1[4:0], 000, rd[4:0], 0110011",
    "\"sub rd, rs1, rs2\", 0100000, rs2[4:0], rs1[4:0], 000, rd[4:0], 0110011",
    "\"sll rd, rs1, rs2\", 0000000, rs2[4:0], rs1[4:0], 001, rd[4:0], 0110011",
    "\"slt rd, rs1, rs2\", 0000000, rs2[4:0], rs1[4:0], 010, rd[4:0], 0110011",
    "\"sltu rd, rs1, rs2\", 0000000, rs2[4:0], rs1[4:0], 011, rd[4:0], 0110011",
    "\"xor rd, rs1, rs2\", 0000000, rs2[4:0], rs1[4:0], 100, rd[4:0], 0110011",
    "\"srl rd, rs1, rs2\", 0000000, rs2[4:0], rs1[4:0], 101, rd[4:0], 0110011",
    "\"sra rd, rs1, rs2\", 0100000, rs2[4:0], rs1[4:0], 101, rd[4:0], 0110011",
    "\"or rd, rs1, rs2\", 0000000, rs2[4:0], rs1[4:0], 110, rd[4:0], 0110011",
    "\"and rd, rs1, rs2\", 0000000, rs2[4:0], rs1[4:0], 111, rd[4:0], 0110011",
    "",
    "\"fence pred, succ\", 0000, pred[3:0], succ[3:0], 00000, 000, 00000, 0001111",
    "\"fence.i\", 00000000000000000001000000001111",
    "\"ecall\", 00000000000000000000000001110011",
    "\"ebreak\", 00000000000100000000000001110011",
    "",
    "\"csrrw rd, csr, rs1\", csr[11:0], rs1[4:0], 001, rd[4:0], 1110011",
    "\"csrrs rd, csr, rs1\", csr[11:0], rs1[4:0], 010, rd[4:0], 1110011",
    "\"csrrc rd, csr, rs1\", csr[11:0], rs1[4:0], 011, rd[4:0], 1110011",
    "\"csrrwi rd, csr, uimm\", csr[11:0], uimm[4:0], 101, rd[4:0], 1110011",
    "\"csrrsi rd, csr, uimm\", csr[11:0], uimm[4:0], 110, rd[4:0], 1110011",
    "\"csrrci rd, csr, uimm\", csr[11:0], uimm[4:0], 111, rd[4:0], 1110011"]

/-- The file with the base integer instructions. -/
def baseIntegerSource : Text := baseIntegerLines.flatMap fun line => Text.ofString line ++ "\n"

/-- The formatters that go with the names of the fields of base integer instructions. -/
def baseIntegerFormatters : Formatters :=
  [("rd", Operand.register.format),
    ("rs1", Operand.register.format),
    ("rs2", Operand.register.format),
    ("imm12", (Operand.signed 12).format),
    ("off13", (Operand.signed 13).format),
    ("off21", (Operand.signed 21).format)]

/-- Read the table of base integer instructions. -/
def loadBaseInteger : Except (LoadError .full) (Table .full) :=
  load baseIntegerFormatters baseIntegerSource none

theorem isSome_loadBaseInteger : loadBaseInteger.toOption.isSome = true := by
  decide +kernel

/-- The table of base integer instructions. -/
def baseInteger : Table .full := loadBaseInteger.toOption.get isSome_loadBaseInteger

theorem loadBaseInteger_eq : loadBaseInteger = .ok baseInteger := eq_ok_get isSome_loadBaseInteger

end Table

end Disassembly
