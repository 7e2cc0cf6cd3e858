import Disassembly.Text.Quoted

/-!
# Instruction words

An instruction is a word of 16 bits, in the compressed encoding, or of 32 bits. Everything that
does not depend on the difference is stated once, over a `Width`.

Amounts of bits come from descriptions and can be far greater than a word, so the operations here
look at an amount before they shift by it.
-/

namespace Disassembly

/-- The two sizes of an instruction word. -/
inductive Width where
  /-- compressed instructions, 16 bits -/
  | compact
  /-- instructions of standard length, 32 bits -/
  | full
  deriving DecidableEq

namespace Width

/-- The number of bits in a word. -/
@[reducible]
def bits : Width → Nat
  | compact => 16
  | full => 32

/-- The name that messages use for a width. -/
def name : Width → Text
  | compact => "CompactType"
  | full => "RV32Type"

end Width

/-- An instruction word. -/
abbrev Word (k : Width) := BitVec k.bits

namespace Word

variable {k : Width}

/-- Whether the bit at index `i` is set. A word has no set bits beyond its width. -/
def bit (w : Word k) (i : Nat) : Bool := decide (i < k.bits) && w.getLsbD i

@[simp]
theorem bit_eq_getLsbD (w : Word k) (i : Nat) : w.bit i = w.getLsbD i := by
  unfold bit
  by_cases h : i < k.bits
  · simp [h]
  · simp [h, BitVec.getLsbD_of_ge w i (by omega)]

/-- The word with its `n` low bits set; more bits than the word has leave none. -/
def ones (n : Nat) : Word k :=
  if n ≤ k.bits then BitVec.allOnes k.bits >>> (k.bits - n) else 0

theorem getLsbD_ones {n : Nat} (h : n ≤ k.bits) (i : Nat) :
    (ones n : Word k).getLsbD i = decide (i < n) := by
  rw [ones, if_pos h, BitVec.getLsbD_ushiftRight, BitVec.getLsbD_allOnes]
  by_cases hi : i < n
  · simp [hi, show k.bits - n + i < k.bits by omega]
  · simp [hi, show ¬ k.bits - n + i < k.bits by omega]

/-- A word shifted up by `n` bits; the bits that leave it are dropped. -/
def shiftUp (w : Word k) (n : Nat) : Word k :=
  if n < k.bits then w <<< n else 0

theorem shiftUp_eq (w : Word k) (n : Nat) : w.shiftUp n = w <<< n := by
  unfold shiftUp
  split
  · rfl
  · exact (BitVec.shiftLeft_eq_zero (by omega)).symm

/-- Read a word from its binary digits. -/
def ofBinary (t : Text) : Except Text.NumeralError (Word k) :=
  (Text.readNumeral 2 (BitVec.allOnes k.bits).toNat t).map (BitVec.ofNat k.bits)

end Word

/-- The report on a text that should have been a word in binary digits. -/
def binaryReport (t : Text) (e : Text.NumeralError) : Text :=
  "not a binary string " ++ t.quoted ++ ": " ++ e.report t

end Disassembly
