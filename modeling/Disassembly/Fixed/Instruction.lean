import Disassembly.Fixed.Format
import Disassembly.Operand

/-!
# Decoded instructions

`Instruction.decode` takes a 32-bit word apart by a base format, by masks and shifts. The parts that
a format does not have are zero. An immediate is put together from ranges of bits (`bits`) without
extending its sign: 12 bits in the formats I and S, 13 in SB, 21 in UJ, and the upper 20 in place
in U.
-/

namespace Disassembly

/-- A 32-bit word taken apart. -/
structure Instruction where
  /-- the format that was used -/
  format : Format
  /-- the major opcode -/
  opcode : BitVec 8
  /-- the register that is written -/
  rd : BitVec 8 := 0
  /-- the first register that is read -/
  rs1 : BitVec 8 := 0
  /-- the second register that is read -/
  rs2 : BitVec 8 := 0
  /-- the function code of three bits -/
  funct3 : BitVec 8 := 0
  /-- the function code of seven bits -/
  funct7 : BitVec 8 := 0
  /-- the immediate -/
  imm : BitVec 32 := 0
  deriving DecidableEq

/-- The major opcode of a word, its low seven bits. -/
def majorOpcodeOf (w : BitVec 32) : BitVec 8 := (w &&& 0x7F).setWidth 8

/-! ## Ranges of bits -/

/-- The mask of the bits from `top` down to `bottom`, as the difference of two powers of two. The
greater one may be outside of 32 bits; it is zero then, and the difference wraps around. -/
def rangeMask (top bottom : Nat) : BitVec 32 := (1#32 <<< (top + 1)) - (1#32 <<< bottom)

/-- The bits from `top` down to `bottom`, moved down to bit zero. -/
def bits (w : BitVec 32) (top bottom : Nat) : BitVec 32 := (w &&& rangeMask top bottom) >>> bottom

/-! ## Decoding -/

namespace Instruction

/-- Take a word apart by a format. The opcode is given, since it was needed to find the format. -/
def decode (w : BitVec 32) (format : Format) (opcode : BitVec 8) : Instruction :=
  match format with
  | .r =>
    { format, opcode
      funct7 := (bits w 31 25).setWidth 8
      rs2 := (bits w 24 20).setWidth 8
      rs1 := (bits w 19 15).setWidth 8
      funct3 := (bits w 14 12).setWidth 8
      rd := (bits w 11 7).setWidth 8 }
  | .i =>
    { format, opcode
      imm := bits w 31 20
      rs1 := (bits w 19 15).setWidth 8
      funct3 := (bits w 14 12).setWidth 8
      rd := (bits w 11 7).setWidth 8 }
  | .s =>
    { format, opcode
      imm := bits w 31 25 <<< 5 ||| bits w 11 7
      rs2 := (bits w 24 20).setWidth 8
      rs1 := (bits w 19 15).setWidth 8
      funct3 := (bits w 14 12).setWidth 8 }
  | .sb =>
    -- bits 12, 11, 10 to 5 and 4 to 1; the lowest is always clear
    { format, opcode
      imm := bits w 31 31 <<< 12 ||| bits w 7 7 <<< 11 ||| bits w 30 25 <<< 5 |||
        bits w 11 8 <<< 1
      rs2 := (bits w 24 20).setWidth 8
      rs1 := (bits w 19 15).setWidth 8
      funct3 := (bits w 14 12).setWidth 8 }
  | .u =>
    { format, opcode
      imm := w &&& rangeMask 31 12
      rd := (bits w 11 7).setWidth 8 }
  | .uj =>
    -- bits 20, 19 to 12, 11 and 10 to 1; the lowest is always clear
    { format, opcode
      imm := bits w 31 31 <<< 20 ||| bits w 19 12 <<< 12 ||| bits w 20 20 <<< 11 |||
        bits w 30 21 <<< 1
      rd := (bits w 11 7).setWidth 8 }
  | .unknown _ => { format, opcode }

theorem format_decode (w : BitVec 32) (f : Format) (opcode : BitVec 8) :
    (decode w f opcode).format = f := by
  cases f <;> rfl

theorem opcode_decode (w : BitVec 32) (f : Format) (opcode : BitVec 8) :
    (decode w f opcode).opcode = opcode := by
  cases f <;> rfl

/-! ## Text -/

/-- A number in hexadecimal with at least `width` digits. -/
def hexText (width n : Nat) : Text := "0x" ++ Text.zeroPad width (Text.hex n)

/-- A major opcode as it is shown. -/
def opcodeText (opcode : BitVec 8) : Text := hexText 2 opcode.toNat

/-- The parts of an instruction, for inspection. -/
def text (inst : Instruction) : Text :=
  let rd := registerName inst.rd.toNat
  let rs1 := registerName inst.rs1.toNat
  let rs2 := registerName inst.rs2.toNat
  let funct3 := hexText 1 inst.funct3.toNat
  let imm (width : Nat) : Text := hexText width inst.imm.toNat
  "op: " ++ opcodeText inst.opcode ++ ", fmt: " ++ inst.format.name ++
    match inst.format with
    | .r =>
      ", funct7: " ++ hexText 2 inst.funct7.toNat ++ ", rs2: " ++ rs2 ++ ", rs1: " ++ rs1 ++
        ", funct3: " ++ funct3 ++ ", rd: " ++ rd
    | .i => ", imm: " ++ imm 3 ++ ", rs1: " ++ rs1 ++ ", funct3: " ++ funct3 ++ ", rd: " ++ rd
    | .s | .sb =>
      ", imm: " ++ imm 4 ++ ", rs2: " ++ rs2 ++ ", rs1: " ++ rs1 ++ ", funct3: " ++ funct3
    | .u | .uj => ", imm: " ++ imm 8 ++ ", rd: " ++ rd
    | .unknown _ => []

end Instruction

end Disassembly
