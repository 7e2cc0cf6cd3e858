import Disassembly.Proofs.Fixed.Slices

/-!
# Wires from a word to its parts

The parts of an instruction are made of bits of the word and of nothing else, so each is described
by a list of wires: the wire `(b, i)` leads bit `i` of the word to bit `b` of the part.
`Carries wires w v` says that `v` is what arrives, and two values that arrive over the same wires
are equal (`Carries.unique`). The operations that take a word apart have their wires
(`Carries.slice`, `Carries.append` and so on), and from these come the wires of all parts of a
decoded instruction (`Instruction.carries_component`).
-/

namespace Disassembly

/-- The bits of `v` that are set are those at which a wire from a set bit of `w` arrives. A wire is
a pair of a bit of `v` and a bit of `w`. -/
def Carries (wires : List (Nat × Nat)) (w : BitVec 32) {n : Nat} (v : BitVec n) : Prop :=
  ∀ b, v.getLsbD b = true ↔ ∃ i, (b, i) ∈ wires ∧ w.getLsbD i = true

/-- The wires of `len` bits in order, from bit `start` of the word on. -/
def wiresOfSlice (start len : Nat) : List (Nat × Nat) :=
  (List.range len).map fun b => (b, start + b)

/-- Wires that arrive `n` bits higher. -/
def wiresAbove (n : Nat) (wires : List (Nat × Nat)) : List (Nat × Nat) :=
  wires.map fun p => (n + p.1, p.2)

/-- The wires that arrive at `len` bits from bit `start` on, which become the lowest. -/
def wiresWithin (start len : Nat) (wires : List (Nat × Nat)) : List (Nat × Nat) :=
  wires.filterMap fun p =>
    if start ≤ p.1 ∧ p.1 < start + len then some (p.1 - start, p.2) else none

theorem mem_wiresOfSlice {start len b i : Nat} :
    (b, i) ∈ wiresOfSlice start len ↔ b < len ∧ i = start + b := by
  simp [wiresOfSlice, eq_comm]

theorem mem_wiresAbove {n b i : Nat} {wires : List (Nat × Nat)} :
    (b, i) ∈ wiresAbove n wires ↔ n ≤ b ∧ (b - n, i) ∈ wires := by
  simp only [wiresAbove, List.mem_map, Prod.mk.injEq, Prod.exists]
  refine ⟨?_, ?_⟩
  · rintro ⟨c, j, hmem, rfl, rfl⟩
    rw [Nat.add_sub_cancel_left]
    exact ⟨Nat.le_add_right _ _, hmem⟩
  · rintro ⟨hle, hmem⟩
    exact ⟨b - n, i, hmem, by omega, rfl⟩

theorem mem_wiresWithin {start len b i : Nat} {wires : List (Nat × Nat)} :
    (b, i) ∈ wiresWithin start len wires ↔ b < len ∧ (start + b, i) ∈ wires := by
  simp only [wiresWithin, List.mem_filterMap, Option.ite_none_right_eq_some, Option.some.injEq,
    Prod.mk.injEq, Prod.exists]
  refine ⟨?_, ?_⟩
  · rintro ⟨c, j, hmem, hc, rfl, rfl⟩
    rw [Nat.add_sub_cancel' hc.1]
    exact ⟨by omega, hmem⟩
  · rintro ⟨hlt, hmem⟩
    exact ⟨start + b, i, hmem, by omega, by omega, rfl⟩

namespace Carries

variable {w : BitVec 32} {n m : Nat} {v : BitVec n} {wires : List (Nat × Nat)}

/-- What arrives over the same wires is the same. -/
theorem unique {wires' : List (Nat × Nat)} {v' : BitVec n} (h : Carries wires w v)
    (h' : Carries wires' w v') (hsame : ∀ p, p ∈ wires ↔ p ∈ wires') : v = v' := by
  refine BitVec.eq_of_getLsbD_eq fun b _ => ?_
  rw [Bool.eq_iff_iff, h b, h' b]
  simp only [hsame]

theorem zero : Carries [] w (0#n) := by
  intro b
  simp

theorem slice (w : BitVec 32) (start len : Nat) :
    Carries (wiresOfSlice start len) w (w.extractLsb' start len) := by
  intro b
  simp only [BitVec.getLsbD_extractLsb', mem_wiresOfSlice, Bool.and_eq_true, decide_eq_true_eq]
  refine ⟨?_, ?_⟩
  · rintro ⟨hb, hw⟩
    exact ⟨_, ⟨hb, rfl⟩, hw⟩
  · rintro ⟨i, ⟨hb, rfl⟩, hw⟩
    exact ⟨hb, hw⟩

theorem append {x : BitVec n} {y : BitVec m} {wires' : List (Nat × Nat)} (hx : Carries wires w x)
    (hy : Carries wires' w y) : Carries (wires' ++ wiresAbove m wires) w (x ++ y) := by
  intro b
  simp only [BitVec.getLsbD_append, List.mem_append, mem_wiresAbove]
  rcases Nat.lt_or_ge b m with hb | hb
  · rw [if_pos hb, hy b]
    simp [Nat.not_le.mpr hb]
  · -- no wire of the lower part leads beyond it
    have hlow : ∀ i, (b, i) ∈ wires' → ¬ w.getLsbD i = true := by
      intro i hmem hw
      have := (hy b).mpr ⟨i, hmem, hw⟩
      rw [BitVec.getLsbD_of_ge y b hb] at this
      contradiction
    rw [if_neg (Nat.not_lt.mpr hb), hx (b - m)]
    refine ⟨?_, ?_⟩
    · rintro ⟨i, hmem, hw⟩
      exact ⟨i, .inr ⟨hb, hmem⟩, hw⟩
    · rintro ⟨i, hmem | ⟨-, hmem⟩, hw⟩
      · exact absurd hw (hlow i hmem)
      · exact ⟨i, hmem, hw⟩

theorem setWidth (h : Carries wires w v) (hm : n ≤ m) : Carries wires w (v.setWidth m) := by
  intro b
  rw [← h b, BitVec.getLsbD_setWidth]
  rcases Nat.lt_or_ge b m with hb | hb
  · simp [hb]
  · rw [BitVec.getLsbD_of_ge v b (by omega)]
    simp

theorem extractLsb' (h : Carries wires w v) (start len : Nat) :
    Carries (wiresWithin start len wires) w (v.extractLsb' start len) := by
  intro b
  rw [BitVec.getLsbD_extractLsb', Bool.and_eq_true, decide_eq_true_eq, h (start + b)]
  simp only [mem_wiresWithin, and_assoc, exists_and_left]

end Carries

/-! ## The components of an instruction -/

/-- A part of a decoded instruction that stands for an operand. -/
inductive Component where
  /-- the register that is written -/
  | rd
  /-- the first register that is read -/
  | rs1
  /-- the second register that is read -/
  | rs2
  /-- the immediate -/
  | imm
  /-- the five low bits of the immediate, an amount to shift by -/
  | amount
  /-- bits 7 to 4 of the immediate, what comes before a fence -/
  | before
  /-- bits 3 to 0 of the immediate, what comes after a fence -/
  | after

/-- The value of a component. -/
def Instruction.component (inst : Instruction) : Component → BitVec 32
  | .rd => inst.rd.setWidth 32
  | .rs1 => inst.rs1.setWidth 32
  | .rs2 => inst.rs2.setWidth 32
  | .imm => inst.imm
  | .amount => inst.imm &&& 0x1F
  | .before => (inst.imm.extractLsb' 4 4).setWidth 32
  | .after => (inst.imm.extractLsb' 0 4).setWidth 32

namespace Format

/-- The wires of the immediate. -/
def immWires : Format → List (Nat × Nat)
  | .i => wiresOfSlice 20 12
  | .s => wiresOfSlice 7 5 ++ wiresAbove 5 (wiresOfSlice 25 7)
  | .sb =>
    wiresAbove 1 (wiresOfSlice 8 4 ++ wiresAbove 4 (wiresOfSlice 25 6 ++
      wiresAbove 6 (wiresOfSlice 7 1 ++ wiresAbove 1 (wiresOfSlice 31 1))))
  | .u => wiresAbove 12 (wiresOfSlice 12 20)
  | .uj =>
    wiresAbove 1 (wiresOfSlice 21 10 ++ wiresAbove 10 (wiresOfSlice 20 1 ++
      wiresAbove 1 (wiresOfSlice 12 8 ++ wiresAbove 8 (wiresOfSlice 31 1))))
  | .r | .unknown _ => []

/-- The wires of a component. A component that the format does not have has none. -/
def wires (f : Format) : Component → List (Nat × Nat)
  | .rd => match f with
    | .r | .i | .u | .uj => wiresOfSlice 7 5
    | .s | .sb | .unknown _ => []
  | .rs1 => match f with
    | .r | .i | .s | .sb => wiresOfSlice 15 5
    | .u | .uj | .unknown _ => []
  | .rs2 => match f with
    | .r | .s | .sb => wiresOfSlice 20 5
    | .i | .u | .uj | .unknown _ => []
  | .imm => f.immWires
  | .amount => wiresWithin 0 5 f.immWires
  | .before => wiresWithin 4 4 f.immWires
  | .after => wiresWithin 0 4 f.immWires

end Format

namespace Instruction

variable (w : BitVec 32) (f : Format) (opcode : BitVec 8)

theorem carries_imm : Carries f.immWires w (decode w f opcode).imm := by
  rw [decode_eq_ofSlices]
  cases f with
  | r => exact .zero
  | i => exact (Carries.slice w 20 12).setWidth (by decide)
  | s => exact ((Carries.slice w 25 7).append (.slice w 7 5)).setWidth (by decide)
  | sb =>
    exact (((((Carries.slice w 31 1).append (.slice w 7 1)).append (.slice w 25 6)).append
      (.slice w 8 4)).append .zero).setWidth (by decide)
  | u => exact (Carries.slice w 12 20).append .zero
  | uj =>
    exact (((((Carries.slice w 31 1).append (.slice w 12 8)).append (.slice w 20 1)).append
      (.slice w 21 10)).append .zero).setWidth (by decide)
  | unknown code => exact .zero

theorem carries_rd : Carries (f.wires .rd) w (decode w f opcode).rd := by
  rw [decode_eq_ofSlices]
  cases f with
  | r | i | u | uj => exact (Carries.slice w 7 5).setWidth (by decide)
  | s | sb | unknown code => exact .zero

theorem carries_rs1 : Carries (f.wires .rs1) w (decode w f opcode).rs1 := by
  rw [decode_eq_ofSlices]
  cases f with
  | r | i | s | sb => exact (Carries.slice w 15 5).setWidth (by decide)
  | u | uj | unknown code => exact .zero

theorem carries_rs2 : Carries (f.wires .rs2) w (decode w f opcode).rs2 := by
  rw [decode_eq_ofSlices]
  cases f with
  | r | s | sb => exact (Carries.slice w 20 5).setWidth (by decide)
  | i | u | uj | unknown code => exact .zero

theorem and_eq_setWidth_extractLsb' (v : BitVec 32) :
    v &&& 0x1F = (v.extractLsb' 0 5).setWidth 32 := by
  have hmask : (0x1F : BitVec 32) = rangeMask 4 0 := by decide
  rw [hmask, and_rangeMask_zero (by decide)]

/-- **Every component of a decoded instruction is what its wires carry.** -/
theorem carries_component (c : Component) :
    Carries (f.wires c) w ((decode w f opcode).component c) := by
  have himm := carries_imm w f opcode
  cases c with
  | rd => exact (carries_rd w f opcode).setWidth (by decide)
  | rs1 => exact (carries_rs1 w f opcode).setWidth (by decide)
  | rs2 => exact (carries_rs2 w f opcode).setWidth (by decide)
  | imm => exact himm
  | amount =>
    rw [component, and_eq_setWidth_extractLsb']
    exact (himm.extractLsb' 0 5).setWidth (by decide)
  | before => exact (himm.extractLsb' 4 4).setWidth (by decide)
  | after => exact (himm.extractLsb' 0 4).setWidth (by decide)

end Instruction

end Disassembly
