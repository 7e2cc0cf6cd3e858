import Disassembly.Fixed.Instruction
import Mathlib.Data.BitVec

/-!
# Parts of a word as slices

A word is taken apart by masks and shifts. A range of bits that comes out of it is a slice of the
word (`bits_eq_slice`), and pieces that are shifted to their places and joined are the slices one
after the other (`shiftLeft_or_shiftLeft`). So a word is taken apart into slices:
`Instruction.decode_eq_ofSlices`.
-/

namespace Disassembly

/-! ## Ranges of bits -/

theorem rangeMask_eq_ofNat {top bottom : Nat} (hle : bottom ≤ top) (hbottom : bottom < 32) :
    rangeMask top bottom = BitVec.ofNat 32 ((2 ^ (top + 1 - bottom) - 1) <<< bottom) := by
  have hshift (n : Nat) : 1#32 <<< n = BitVec.ofNat 32 (2 ^ n) := by
    rw [← BitVec.toNat_inj]
    simp [Nat.shiftLeft_eq]
  have hpow : 2 ^ bottom < 2 ^ 32 := Nat.pow_lt_pow_right (by decide) hbottom
  have hpow' : 2 ^ bottom ≤ 2 ^ (top + 1) := Nat.pow_le_pow_right (by decide) (by omega)
  rw [rangeMask, hshift, hshift, BitVec.ofNat_sub_ofNat_of_le _ _ hpow hpow', Nat.shiftLeft_eq,
    Nat.sub_mul, ← Nat.pow_add, Nat.sub_add_cancel (by omega), Nat.one_mul]

/-- The mask of a range has just its bits, also where the range ends with the word and the power of
two above it is zero. -/
theorem getLsbD_rangeMask {top bottom : Nat} (hle : bottom ≤ top) (htop : top < 32) (i : Nat) :
    (rangeMask top bottom).getLsbD i = decide (bottom ≤ i ∧ i ≤ top) := by
  rw [rangeMask_eq_ofNat hle (by omega), BitVec.getLsbD_ofNat, Nat.testBit_shiftLeft,
    Nat.testBit_two_pow_sub_one, Bool.eq_iff_iff]
  simp only [Bool.and_eq_true, decide_eq_true_eq]
  omega

/-- A range of bits is a slice. -/
theorem bits_eq_slice {top bottom : Nat} (hle : bottom ≤ top) (htop : top < 32) (w : BitVec 32) :
    bits w top bottom = (w.extractLsb' bottom (top + 1 - bottom)).setWidth 32 := by
  refine BitVec.eq_of_getLsbD_eq fun i hi => ?_
  rw [bits, BitVec.getLsbD_ushiftRight, BitVec.getLsbD_and, getLsbD_rangeMask hle htop,
    BitVec.getLsbD_setWidth, BitVec.getLsbD_extractLsb', Bool.eq_iff_iff]
  simp only [Bool.and_eq_true, decide_eq_true_eq]
  constructor
  · rintro ⟨hw, hrange⟩
    exact ⟨hi, by omega, hw⟩
  · rintro ⟨-, hlt, hw⟩
    exact ⟨hw, by omega⟩

theorem setWidth_bits {top bottom n : Nat} (hle : bottom ≤ top) (htop : top < 32) (hn : n ≤ 32)
    (w : BitVec 32) :
    (bits w top bottom).setWidth n = (w.extractLsb' bottom (top + 1 - bottom)).setWidth n := by
  rw [bits_eq_slice hle htop, BitVec.setWidth_setWidth_of_le _ hn]

/-- What a mask leaves of a word is a slice in its place. -/
theorem and_rangeMask_eq {top bottom : Nat} (hle : bottom ≤ top) (htop : top < 32) (w : BitVec 32) :
    w &&& rangeMask top bottom =
      (w.extractLsb' bottom (top + 1 - bottom)).setWidth 32 <<< bottom := by
  refine BitVec.eq_of_getLsbD_eq fun i hi => ?_
  rw [BitVec.getLsbD_and, getLsbD_rangeMask hle htop, BitVec.getLsbD_shiftLeft,
    BitVec.getLsbD_setWidth, BitVec.getLsbD_extractLsb', Bool.eq_iff_iff]
  rcases Nat.lt_or_ge i bottom with h | h
  · simp [h]
  · simp only [Nat.add_sub_cancel' h, Bool.and_eq_true, decide_eq_true_eq, Bool.not_eq_true',
      decide_eq_false_iff_not]
    constructor
    · rintro ⟨hw, hrange⟩
      exact ⟨⟨hi, by omega⟩, by omega, by omega, hw⟩
    · rintro ⟨-, -, hlt, hw⟩
      exact ⟨hw, h, by omega⟩

theorem and_rangeMask_zero {top : Nat} (htop : top < 32) (w : BitVec 32) :
    w &&& rangeMask top 0 = (w.extractLsb' 0 (top + 1)).setWidth 32 := by
  rw [and_rangeMask_eq (Nat.zero_le top) htop, BitVec.shiftLeft_zero, Nat.sub_zero]

/-! ## Pieces in their places -/

theorem setWidth_append {n m : Nat} (x : BitVec n) (y : BitVec m) (k : Nat) :
    (x ++ y).setWidth k = x.setWidth k <<< m ||| y.setWidth k := by
  refine BitVec.eq_of_getLsbD_eq fun i hi => ?_
  rw [BitVec.getLsbD_setWidth, BitVec.getLsbD_append, BitVec.getLsbD_or, BitVec.getLsbD_shiftLeft,
    BitVec.getLsbD_setWidth, BitVec.getLsbD_setWidth]
  rcases Nat.lt_or_ge i m with h | h
  · simp [h]
  · rw [BitVec.getLsbD_of_ge y i h]
    simp [Nat.not_lt.mpr h, show i - m < k by omega]

theorem setWidth_append_zero {n : Nat} (x : BitVec n) (z k : Nat) :
    (x ++ 0#z).setWidth k = x.setWidth k <<< z := by
  rw [setWidth_append, BitVec.setWidth_zero, BitVec.or_zero]

/-- A piece whose place begins where that of the next one ends stands right before it. -/
theorem shiftLeft_or_shiftLeft {n m i j : Nat} (x : BitVec n) (y : BitVec m) (h : i = m + j) :
    x.setWidth 32 <<< i ||| y.setWidth 32 <<< j = (x ++ y).setWidth 32 <<< j := by
  rw [setWidth_append, BitVec.shiftLeft_or_distrib, ← BitVec.shiftLeft_add, h]

/-- The major opcode is a slice. -/
theorem majorOpcodeOf_eq (w : BitVec 32) : majorOpcodeOf w = (w.extractLsb' 0 7).setWidth 8 := by
  have hmask : (0x7F : BitVec 32) = rangeMask 6 0 := by decide
  rw [majorOpcodeOf, hmask, and_rangeMask_zero (by decide),
    BitVec.setWidth_setWidth_of_le _ (by decide)]

/-! ## The slices of the formats -/

namespace Format

/-- The formats that instructions have. -/
def known : List Format := [.r, .i, .s, .sb, .u, .uj]

/-- The bits of the register that is written. -/
def rdBits (w : BitVec 32) : BitVec 5 := w.extractLsb' 7 5

/-- The bits of the function code of three bits. -/
def funct3Bits (w : BitVec 32) : BitVec 3 := w.extractLsb' 12 3

/-- The bits of the first register that is read. -/
def rs1Bits (w : BitVec 32) : BitVec 5 := w.extractLsb' 15 5

/-- The bits of the second register that is read. -/
def rs2Bits (w : BitVec 32) : BitVec 5 := w.extractLsb' 20 5

/-- The bits of the function code of seven bits. -/
def funct7Bits (w : BitVec 32) : BitVec 7 := w.extractLsb' 25 7

/-- The immediate of format I. -/
def immI (w : BitVec 32) : BitVec 12 := w.extractLsb' 20 12

/-- The immediate of format S: bits 11 to 5, then bits 4 to 0. -/
def immS (w : BitVec 32) : BitVec 12 := w.extractLsb' 25 7 ++ w.extractLsb' 7 5

/-- The immediate of format SB, which is even: bits 12, 11, 10 to 5 and 4 to 1. -/
def immSB (w : BitVec 32) : BitVec 13 :=
  w.extractLsb' 31 1 ++ w.extractLsb' 7 1 ++ w.extractLsb' 25 6 ++ w.extractLsb' 8 4 ++ 0#1

/-- The immediate of format U: bits 31 to 12. -/
def immU (w : BitVec 32) : BitVec 32 := w.extractLsb' 12 20 ++ 0#12

/-- The immediate of format UJ, which is even: bits 20, 19 to 12, 11 and 10 to 1. -/
def immUJ (w : BitVec 32) : BitVec 21 :=
  w.extractLsb' 31 1 ++ w.extractLsb' 12 8 ++ w.extractLsb' 20 1 ++ w.extractLsb' 21 10 ++ 0#1

theorem immI_eq (w : BitVec 32) : bits w 31 20 = (immI w).setWidth 32 :=
  bits_eq_slice (by decide) (by decide) w

theorem immS_eq (w : BitVec 32) : bits w 31 25 <<< 5 ||| bits w 11 7 = (immS w).setWidth 32 := by
  simp (disch := decide) only [bits_eq_slice]
  exact (setWidth_append _ _ _).symm

theorem immSB_eq (w : BitVec 32) :
    bits w 31 31 <<< 12 ||| bits w 7 7 <<< 11 ||| bits w 30 25 <<< 5 ||| bits w 11 8 <<< 1 =
      (immSB w).setWidth 32 := by
  simp (disch := decide) only [bits_eq_slice, shiftLeft_or_shiftLeft]
  exact (setWidth_append_zero _ _ _).symm

theorem immU_eq (w : BitVec 32) : w &&& rangeMask 31 12 = immU w := by
  rw [and_rangeMask_eq (by decide) (by decide), ← BitVec.setWidth_eq (immU w)]
  exact (setWidth_append_zero _ _ _).symm

theorem immUJ_eq (w : BitVec 32) :
    bits w 31 31 <<< 20 ||| bits w 19 12 <<< 12 ||| bits w 20 20 <<< 11 ||| bits w 30 21 <<< 1 =
      (immUJ w).setWidth 32 := by
  simp (disch := decide) only [bits_eq_slice, shiftLeft_or_shiftLeft]
  exact (setWidth_append_zero _ _ _).symm

end Format

namespace Instruction

open Format

/-- The instruction that the slices of a word make up. -/
def ofSlices (w : BitVec 32) (format : Format) (opcode : BitVec 8) : Instruction :=
  match format with
  | .r =>
    { format, opcode
      rd := (rdBits w).setWidth 8
      rs1 := (rs1Bits w).setWidth 8
      rs2 := (rs2Bits w).setWidth 8
      funct3 := (funct3Bits w).setWidth 8
      funct7 := (funct7Bits w).setWidth 8 }
  | .i =>
    { format, opcode
      rd := (rdBits w).setWidth 8
      rs1 := (rs1Bits w).setWidth 8
      funct3 := (funct3Bits w).setWidth 8
      imm := (immI w).setWidth 32 }
  | .s =>
    { format, opcode
      rs1 := (rs1Bits w).setWidth 8
      rs2 := (rs2Bits w).setWidth 8
      funct3 := (funct3Bits w).setWidth 8
      imm := (immS w).setWidth 32 }
  | .sb =>
    { format, opcode
      rs1 := (rs1Bits w).setWidth 8
      rs2 := (rs2Bits w).setWidth 8
      funct3 := (funct3Bits w).setWidth 8
      imm := (immSB w).setWidth 32 }
  | .u =>
    { format, opcode
      rd := (rdBits w).setWidth 8
      imm := immU w }
  | .uj =>
    { format, opcode
      rd := (rdBits w).setWidth 8
      imm := (immUJ w).setWidth 32 }
  | .unknown _ => { format, opcode }

/-- **A word is taken apart into its slices.** -/
theorem decode_eq_ofSlices (w : BitVec 32) (f : Format) (opcode : BitVec 8) :
    decode w f opcode = ofSlices w f opcode := by
  cases f with
  | r =>
    simp (disch := decide) only [decode, setWidth_bits]
    rfl
  | i =>
    simp (disch := decide) only [decode, setWidth_bits, immI_eq]
    rfl
  | s =>
    simp (disch := decide) only [decode, setWidth_bits, immS_eq]
    rfl
  | sb =>
    simp (disch := decide) only [decode, setWidth_bits, immSB_eq]
    rfl
  | u =>
    simp (disch := decide) only [decode, setWidth_bits, immU_eq]
    rfl
  | uj =>
    simp (disch := decide) only [decode, setWidth_bits, immUJ_eq]
    rfl
  | unknown code => rfl

end Instruction

end Disassembly
