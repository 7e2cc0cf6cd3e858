import Disassembly.Entry.Source
import Disassembly.Table.Basic

/-!
# The compressed instructions

The table of the 16-bit instructions of RV32C. The registers `crd`, `crs1` and `crs2` are among
`x8` to `x15`. Immediates are named for how they are shown: `imm6`, `nzimm10` and `nzimm18` are
signed numbers of that many bits, `off9` and `off12` signed offsets of jumps, `uimm` and `shamt`
unsigned.
-/

namespace Disassembly

namespace Table

/-- The descriptions of the compressed instructions, in the order in which they are tried. -/
def compressedSource : List String :=
  ["\"<illegal>\", 0000000000000000",
    "\"c.addi4spn crd, uimm\", 000, uimm[5:4|9:6|2|3], crd[2:0], 00",
    "\"c.lw crd, uimm(crs1)\", 010, uimm[5:3], crs1[2:0], uimm[2|6], crd[2:0], 00",
    "\"c.sw crs2, uimm(crs1)\", 110, uimm[5:3], crs1[2:0], uimm[2|6], crs2[2:0], 00",
    "\"c.nop\", 000, imm6[5], 00000, imm6[4:0], 01",
    "\"c.addi rd, imm6\", 000, imm6[5], rd[4:0], imm6[4:0], 01",
    "\"c.jal off12\", 001, off12[11|4|9:8|10|6|7|3:1|5], 01",
    "\"c.li rd, imm6\", 010, imm6[5], rd[4:0], imm6[4:0], 01",
    "\"c.addi16sp nzimm10\", 011, nzimm10[9], 00010, nzimm10[4|6|8:7|5], 01",
    "\"c.lui rd, nzimm18\", 011, nzimm18[17], rd[4:0], nzimm18[16:12], 01",
    "\"c.srli crd, shamt\", 100, shamt[5], 00, crd[2:0], shamt[4:0], 01",
    "\"c.srai crd, shamt\", 100, shamt[5], 01, crd[2:0], shamt[4:0], 01",
    "\"c.andi crd, imm6\", 100, imm6[5], 10, crd[2:0], imm6[4:0], 01",
    "\"c.sub crd, crs2\", 100011, crd[2:0], 00, crs2[2:0], 01",
    "\"c.xor crd, crs2\", 100011, crd[2:0], 01, crs2[2:0], 01",
    "\"c.or crd, crs2\", 100011, crd[2:0], 10, crs2[2:0], 01",
    "\"c.and crd, crs2\", 100011, crd[2:0], 11, crs2[2:0], 01",
    "\"c.j off12\", 101, off12[11|4|9:8|10|6|7|3:1|5], 01",
    "\"c.beqz crs1, off9\", 110, off9[8|4:3], crs1[2:0], off9[7:6|2:1|5], 01",
    "\"c.bnez crs1, off9\", 111, off9[8|4:3], crs1[2:0], off9[7:6|2:1|5], 01",
    "\"c.slli rd, shamt\", 000, shamt[5], rd[4:0], shamt[4:0], 10",
    "\"c.lwsp rd, uimm\", 010, uimm[5], rd[4:0], uimm[4:2|7:6], 10",
    "\"c.jr rs1\", 1000, rs1[4:0], 0000010",
    "\"c.mv rd, rs2\", 1000, rd[4:0], rs2[4:0], 10",
    "\"c.ebreak\", 1001000000000010",
    "\"c.jalr rs1\", 1001, rs1[4:0], 0000010",
    "\"c.add rd, rs2\", 1001, rd[4:0], rs2[4:0], 10",
    "\"c.swsp rs2, uimm\", 110, uimm[5:2|7:6], rs2[4:0], 10"]

/-- The formatters that go with the names of the fields of compressed instructions. -/
def compressedFormatters : Formatters :=
  [("rd", Operand.register.format),
    ("rs1", Operand.register.format),
    ("rs2", Operand.register.format),
    ("crd", Operand.shortRegister.format),
    ("crs1", Operand.shortRegister.format),
    ("crs2", Operand.shortRegister.format),
    ("imm6", (Operand.signed 6).format),
    ("nzimm10", (Operand.signed 10).format),
    ("nzimm18", (Operand.signed 18).format),
    ("off9", (Operand.signed 9).format),
    ("off12", (Operand.signed 12).format),
    ("uimm", Operand.unsigned.format),
    ("shamt", Operand.unsigned.format)]

/-- A description of a compressed instruction that is wrong. -/
structure CompressedError where
  /-- which one it is, counted from zero -/
  number : Nat
  /-- what is wrong with it -/
  fault : SourceFault .compact
  deriving DecidableEq

/-- The full report. -/
def CompressedError.message (e : CompressedError) : Text :=
  "RV32C entry " ++ Text.decimal e.number ++ ": " ++ e.fault.message

/-- Read the table of compressed instructions. The first description that is wrong ends the
reading. -/
def loadCompressed : Except CompressedError (Table .compact) := do
  let entries ← compressedSource.zipIdx.mapM fun (line, i) =>
    (Entry.parse (Text.ofString line)).mapError fun f => ⟨i, f⟩
  return ⟨entries, compressedFormatters⟩

theorem isSome_loadCompressed : loadCompressed.toOption.isSome = true := by
  decide +kernel

/-- The table of compressed instructions. -/
def compressed : Table .compact := loadCompressed.toOption.get isSome_loadCompressed

theorem loadCompressed_eq : loadCompressed = .ok compressed := eq_ok_get isSome_loadCompressed

end Table

end Disassembly
