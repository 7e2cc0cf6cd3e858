import Disassembly.Fixed.OpcodeTable
import Disassembly.Text.Column

/-!
# Assembly text

A decoded instruction is shown as its mnemonic, in a column, followed by the operands of its
format. An instruction without an operation is shown with a marker in place of the mnemonic.
-/

namespace Disassembly

/-- What is shown for a word that cannot be an instruction. -/
def illegalText : Text := "<illegal>"

/-- What is shown for an operation that is not known. -/
def unknownName : Text := "<unk>"

/-- The width of the column of mnemonics. -/
def mnemonicWidth : Nat := 8

namespace Instruction

/-- The operands of an instruction, between commas. There are none without a format. -/
def operandTexts (inst : Instruction) (operands : Operands) : List Text :=
  let rd := registerName inst.rd.toNat
  let rs1 := registerName inst.rs1.toNat
  let rs2 := registerName inst.rs2.toNat
  let imm := unsignedHex inst.imm
  match inst.format with
  | .r => [rd, rs1, rs2]
  | .i => [rd, rs1, if operands = .shift then unsignedHex (inst.imm &&& 0x1F) else imm]
  | .s | .sb => [rs1, rs2, imm]
  | .u | .uj => [rd, imm]
  | .unknown _ => []

/-- An instruction under a name and with a kind of operands. -/
def textWith (inst : Instruction) (name : Text) (operands : Operands) : Text :=
  if operands = .none then name
  else match inst.operandTexts operands with
    | [] => name
    | texts => name.padRight mnemonicWidth ++ " " ++ Text.joinWith ", " texts

/-- An instruction as the given operation. -/
def assembly (inst : Instruction) : Option Operation → Text
  | some op => inst.textWith op.name op.operands
  | none => inst.textWith unknownName .format

end Instruction

/-- Whether a word can never be a 32-bit instruction. -/
def isIllegal (w : BitVec 32) : Bool := w &&& 0xFFFF = 0 || w = 0xFFFFFFFF

namespace OpcodeTable

/-- The text of a 32-bit word. -/
def textOf (t : OpcodeTable) (w : BitVec 32) : Text :=
  if isIllegal w then illegalText
  else
    let opcode := majorOpcodeOf w
    match t.format? opcode with
    | none => "(op = " ++ Instruction.opcodeText opcode ++ ")"
    | some format =>
      let inst := Instruction.decode w format opcode
      inst.assembly (t.lookup inst)

end OpcodeTable

end Disassembly
