import Disassembly.Proofs.Fixed.Slices

/-!
# Putting an instruction together

`Instruction.encode` puts the parts of an instruction back where the formats have them. Taking a
word apart and putting it together again gives the word (`Instruction.encode_decode`), because the
parts are slices of the word (`Instruction.decode_eq_ofSlices`) that lie next to each other. Putting
an instruction together and taking it apart again gives the instruction
(`Instruction.decode_encode`) if its parts are no larger than their places, which is
`Instruction.InRange`, and what is taken from a word always is (`Instruction.inRange_decode`).
-/

namespace Disassembly

/-! ## Numbers that fit -/

/-- A number that fits in its low bits is told by them. -/
theorem setWidth_extractLsb'_of_lt {n m : Nat} {x : BitVec n} (h : x.toNat < 2 ^ m) :
    (x.extractLsb' 0 m).setWidth n = x := by
  rw [← BitVec.toNat_inj, BitVec.toNat_setWidth, BitVec.extractLsb'_toNat, Nat.shiftRight_zero,
    Nat.mod_eq_of_lt h, Nat.mod_eq_of_lt x.isLt]

theorem mod_two_pow_append_zero {n : Nat} (x : BitVec n) (z : Nat) :
    (x ++ 0#z).toNat % 2 ^ z = 0 := by
  rw [BitVec.toNat_append, BitVec.toNat_ofNat, Nat.zero_mod, Nat.or_zero, Nat.shiftLeft_eq,
    Nat.mul_mod_left]

/-- A number that fits and whose lowest bits are clear is told by the others. -/
theorem setWidth_append_zero_of_lt {n m z : Nat} {x : BitVec n} (h : x.toNat < 2 ^ (m + z))
    (hz : x.toNat % 2 ^ z = 0) : (x.extractLsb' z m ++ 0#z).setWidth n = x := by
  have hhigh : x.toNat / 2 ^ z < 2 ^ m := by
    apply Nat.div_lt_of_lt_mul
    rwa [← Nat.pow_add, Nat.add_comm]
  rw [← BitVec.toNat_inj, BitVec.toNat_setWidth, BitVec.toNat_append, BitVec.extractLsb'_toNat,
    Nat.shiftRight_eq_div_pow, Nat.mod_eq_of_lt hhigh, BitVec.toNat_ofNat, Nat.zero_mod,
    Nat.or_zero, Nat.shiftLeft_eq, Nat.div_mul_cancel (Nat.dvd_of_mod_eq_zero hz),
    Nat.mod_eq_of_lt x.isLt]

namespace Instruction

open Format

/-! ## Words and instructions -/

/-- Every part is small enough for its place in the format, the parts that the format does not have
are zero, and so are the bits of the immediate that have no place. -/
def InRange (inst : Instruction) : Prop :=
  inst.opcode.toNat < 2 ^ 7 ∧
    match inst.format with
    | .r => inst.rd.toNat < 2 ^ 5 ∧ inst.rs1.toNat < 2 ^ 5 ∧ inst.rs2.toNat < 2 ^ 5 ∧
        inst.funct3.toNat < 2 ^ 3 ∧ inst.funct7.toNat < 2 ^ 7 ∧ inst.imm = 0
    | .i => inst.rd.toNat < 2 ^ 5 ∧ inst.rs1.toNat < 2 ^ 5 ∧ inst.rs2 = 0 ∧
        inst.funct3.toNat < 2 ^ 3 ∧ inst.funct7 = 0 ∧ inst.imm.toNat < 2 ^ 12
    | .s => inst.rd = 0 ∧ inst.rs1.toNat < 2 ^ 5 ∧ inst.rs2.toNat < 2 ^ 5 ∧
        inst.funct3.toNat < 2 ^ 3 ∧ inst.funct7 = 0 ∧ inst.imm.toNat < 2 ^ 12
    | .sb => inst.rd = 0 ∧ inst.rs1.toNat < 2 ^ 5 ∧ inst.rs2.toNat < 2 ^ 5 ∧
        inst.funct3.toNat < 2 ^ 3 ∧ inst.funct7 = 0 ∧
        inst.imm.toNat < 2 ^ 13 ∧ inst.imm.toNat % 2 ^ 1 = 0
    | .u => inst.rd.toNat < 2 ^ 5 ∧ inst.rs1 = 0 ∧ inst.rs2 = 0 ∧ inst.funct3 = 0 ∧
        inst.funct7 = 0 ∧ inst.imm.toNat % 2 ^ 12 = 0
    | .uj => inst.rd.toNat < 2 ^ 5 ∧ inst.rs1 = 0 ∧ inst.rs2 = 0 ∧ inst.funct3 = 0 ∧
        inst.funct7 = 0 ∧ inst.imm.toNat < 2 ^ 21 ∧ inst.imm.toNat % 2 ^ 1 = 0
    | .unknown _ => False

/-- The word with the parts of an instruction in their places, from the most significant bit down.
`imm low len` is the slice of the immediate with `len` bits from bit `low` on. -/
def encode (inst : Instruction) : BitVec 32 :=
  let opcode := inst.opcode.extractLsb' 0 7
  let rd := inst.rd.extractLsb' 0 5
  let rs1 := inst.rs1.extractLsb' 0 5
  let rs2 := inst.rs2.extractLsb' 0 5
  let funct3 := inst.funct3.extractLsb' 0 3
  let funct7 := inst.funct7.extractLsb' 0 7
  let imm (low len : Nat) := inst.imm.extractLsb' low len
  match inst.format with
  | .r => funct7 ++ rs2 ++ rs1 ++ funct3 ++ rd ++ opcode
  | .i => imm 0 12 ++ rs1 ++ funct3 ++ rd ++ opcode
  | .s => imm 5 7 ++ rs2 ++ rs1 ++ funct3 ++ imm 0 5 ++ opcode
  | .sb => imm 12 1 ++ imm 5 6 ++ rs2 ++ rs1 ++ funct3 ++ imm 1 4 ++ imm 11 1 ++ opcode
  | .u => imm 12 20 ++ rd ++ opcode
  | .uj => imm 20 1 ++ imm 1 10 ++ imm 11 1 ++ imm 12 8 ++ rd ++ opcode
  | .unknown _ => 0

/-- The parts of a word are small enough. -/
theorem inRange_decode {f : Format} (hf : f ∈ known) (w : BitVec 32) :
    (decode w f (majorOpcodeOf w)).InRange := by
  simp only [known, List.mem_cons, List.not_mem_nil, or_false] at hf
  rcases hf with rfl | rfl | rfl | rfl | rfl | rfl
  all_goals
    simp (disch := decide) only [decode_eq_ofSlices, ofSlices, InRange, majorOpcodeOf_eq,
      BitVec.toNat_setWidth_of_le, BitVec.isLt, true_and, and_self]
  -- what is left is that the immediates without a lowest bit are even, or clear below bit 12
  all_goals exact mod_two_pow_append_zero _ _

/-- A word is put together from its parts. -/
theorem encode_decode {f : Format} (hf : f ∈ known) (w : BitVec 32) :
    (decode w f (majorOpcodeOf w)).encode = w := by
  simp only [known, List.mem_cons, List.not_mem_nil, or_false] at hf
  rcases hf with rfl | rfl | rfl | rfl | rfl | rfl
  -- the pieces of every immediate are slices of the word, and slices next to each other are joined
  all_goals
    simp (disch := decide) only [decode_eq_ofSlices, ofSlices, encode, majorOpcodeOf_eq, rdBits,
      rs1Bits, rs2Bits, funct3Bits, funct7Bits, immI, immS, immSB, immU, immUJ,
      BitVec.extractLsb'_setWidth_of_le, BitVec.extractLsb'_append_eq_of_add_le,
      BitVec.extractLsb'_append_eq_of_le, Nat.reduceSub, BitVec.extractLsb'_eq_self,
      BitVec.extractLsb'_append_extractLsb'_eq_extractLsb']

/-- Parts that are small enough are found again. -/
theorem decode_encode {inst : Instruction} (h : inst.InRange) :
    decode inst.encode inst.format (majorOpcodeOf inst.encode) = inst := by
  obtain ⟨f, opcode, rd, rs1, rs2, funct3, funct7, imm⟩ := inst
  obtain ⟨hopcode, h⟩ := h
  cases f
  case unknown => exact h.elim
  all_goals
    obtain ⟨hrd, hrs1, hrs2, hfunct3, hfunct7, himm⟩ := h
    dsimp only at hopcode hrd hrs1 hrs2 hfunct3 hfunct7 himm
    subst_vars
    -- a slice of the word lies in one of its pieces, and the slices of the immediate are joined
    simp (disch := decide) only [decode_eq_ofSlices, ofSlices, encode, majorOpcodeOf_eq, rdBits,
      rs1Bits, rs2Bits, funct3Bits, funct7Bits, immI, immS, immSB, immU, immUJ,
      BitVec.extractLsb'_append_eq_of_add_le, BitVec.extractLsb'_append_eq_of_le, Nat.reduceSub,
      BitVec.extractLsb'_eq_self, BitVec.extractLsb'_append_extractLsb'_eq_extractLsb']
    simp (disch := assumption) only [setWidth_extractLsb'_of_lt]
  case sb =>
    rw [setWidth_append_zero_of_lt himm.1 himm.2]
  case u =>
    rw [← BitVec.setWidth_eq (imm.extractLsb' 12 20 ++ 0#12),
      setWidth_append_zero_of_lt imm.isLt himm]
  case uj =>
    rw [setWidth_append_zero_of_lt himm.1 himm.2]

/-- **Words and instructions of a format.** A word taken apart by one of the six formats is an
instruction of that format in range, and the word is put together from it again; and every
instruction of the format in range is what the word put together from it is taken apart into. -/
theorem decode_encode_inverse {f : Format} (hf : f ∈ known) :
    (∀ w, (decode w f (majorOpcodeOf w)).format = f ∧
      (decode w f (majorOpcodeOf w)).InRange ∧ (decode w f (majorOpcodeOf w)).encode = w) ∧
    ∀ inst : Instruction, inst.format = f → inst.InRange →
      decode inst.encode f (majorOpcodeOf inst.encode) = inst := by
  refine ⟨fun w => ⟨format_decode w f _, inRange_decode hf w, encode_decode hf w⟩, ?_⟩
  rintro inst rfl h
  exact decode_encode h

/-- A branch by the least offset and one by the greatest, back and forth. -/
theorem decode_encode_inverse_branch :
    let inst : Instruction :=
      { format := .sb, opcode := 0x63, rs1 := 31, rs2 := 1, funct3 := 5, imm := 0xFFE }
    .sb ∈ known ∧ inst.InRange ∧ inst.encode = 0x7E1FDFE3 ∧
      decode 0x7E1FDFE3 .sb (majorOpcodeOf 0x7E1FDFE3) = inst ∧
      (decode 0x801FD063 .sb (majorOpcodeOf 0x801FD063)).encode = 0x801FD063 := by
  intro inst
  have hknown : .sb ∈ known := by decide
  have hrange : inst.InRange :=
    ⟨by decide, rfl, by decide, by decide, by decide, rfl, by decide, by decide⟩
  have hword : inst.encode = 0x7E1FDFE3 := by decide
  obtain ⟨hwords, hinsts⟩ := decode_encode_inverse hknown
  refine ⟨hknown, hrange, hword, ?_, (hwords _).2.2⟩
  rw [← hword]
  exact hinsts inst rfl hrange

end Instruction

end Disassembly
