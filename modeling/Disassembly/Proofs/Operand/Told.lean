import Disassembly.Name
import Disassembly.Operand
import Disassembly.Proofs.Text.Numeral

/-!
# What the text of an operand tells

Operands are shown so that their bits can be read off again. A register or an unsigned number tells
all bits of its value, a signed number those within its width (`Operand.Tells`): two values with the
same text agree on all bits that the text tells (`Operand.getLsbD_of_format_eq`). Numerals have no
leading zeros that could differ, and a minus sign is nothing that a numeral begins with.

The text of an operand is a word of its own, because it consists of bytes (`isOperandByte`) that do
not separate operands.
-/

namespace Disassembly

open Text

/-! ## Numbers -/

namespace Text

/-- A number is determined by its numeral. -/
theorem numeral_inj {base : Nat} (hlow : 1 < base) (hhigh : base ≤ 36) {m n : Nat}
    (h : (digits base m).map digitByte = (digits base n).map digitByte) : m = n := by
  have hm := readNumeral_zeroPad hlow hhigh 0 (Nat.le_max_left m n)
  have hn := readNumeral_zeroPad hlow hhigh 0 (Nat.le_max_right m n)
  rw [h] at hm
  exact Except.ok.inj (hm.symm.trans hn)

theorem decimal_inj {m n : Nat} (h : decimal m = decimal n) : m = n :=
  numeral_inj (by decide) (by decide) h

theorem hex_inj {m n : Nat} (h : hex m = hex n) : m = n :=
  numeral_inj (by decide) (by decide) h

end Text

theorem registerName_inj {m n : Nat} (h : registerName m = registerName n) : m = n :=
  decimal_inj (List.append_cancel_left h)

theorem signedHex_inj {i j : Int} (h : signedHex i = signedHex j) : i = j := by
  unfold signedHex at h
  split at h <;> split at h
  · have := hex_inj (List.append_cancel_left h)
    omega
  · -- a minus sign against a zero
    cases (List.cons.inj h).1
  · cases (List.cons.inj h).1
  · have := hex_inj (List.append_cancel_left h)
    omega

/-- Shifted up and down again, a bit is where it was. -/
theorem getLsbD_sshiftRight_shiftLeft (v : BitVec 32) {shift b : Nat} (hb : shift + b < 32) :
    ((v <<< shift).sshiftRight shift).getLsbD b = v.getLsbD b := by
  rw [BitVec.getLsbD_sshiftRight, if_pos hb, BitVec.getLsbD_shiftLeft]
  simp [hb, show b < 32 by omega]

/-- A signed value tells the bits within its width. -/
theorem getLsbD_of_signedValue_eq {width : UInt64} {u v : BitVec 32}
    (h : signedValue width u = signedValue width v) {b : Nat}
    (hb : width = 0 ∨ 32 ≤ width ∨ b < width.toNat) : u.getLsbD b = v.getLsbD b := by
  unfold signedValue at h
  split at h
  · rw [BitVec.eq_of_toInt_eq h]
  · rename_i hwidth
    rw [not_or, UInt64.not_le, UInt64.lt_iff_toNat_lt] at hwidth
    have hlt : width.toNat < 32 := hwidth.2
    have hb : b < width.toNat := by
      rcases hb with hzero | hge | hb
      · exact absurd hzero hwidth.1
      · exact absurd (UInt64.le_iff_toNat_le.mp hge) (Nat.not_le_of_lt hlt)
      · exact hb
    have hbit := congrArg (BitVec.getLsbD · b) (BitVec.eq_of_toInt_eq h)
    rwa [getLsbD_sshiftRight_shiftLeft u (by omega), getLsbD_sshiftRight_shiftLeft v (by omega)]
      at hbit

/-! ## Operands -/

/-- A byte that may stand in an operand, or in the marker for a missing one. -/
def isOperandByte (b : UInt8) : Bool := isNameByte b || b == 0x2D || b == 0x2A

theorem isOperandByte_numeral {base : Nat} (hlow : 1 < base) (hhigh : base ≤ 36) (n : Nat) :
    ∀ b ∈ (digits base n).map digitByte, isOperandByte b = true := by
  have hall : ∀ d < 36, isOperandByte (digitByte d) = true := by decide
  intro b hb
  obtain ⟨d, hd, rfl⟩ := List.mem_map.mp hb
  exact hall d (by have := digits_lt hlow hd; omega)

theorem isOperandByte_registerName (n : Nat) :
    ∀ b ∈ registerName n, isOperandByte b = true := by
  rw [registerName, List.forall_mem_append]
  exact ⟨List.all_eq_true.mp (by decide), isOperandByte_numeral (by decide) (by decide) n⟩

theorem isOperandByte_signedHex (i : Int) : ∀ b ∈ signedHex i, isOperandByte b = true := by
  have hhex : ∀ b ∈ hex i.natAbs, isOperandByte b = true :=
    isOperandByte_numeral (by decide) (by decide) _
  unfold signedHex
  split
  · rw [List.forall_mem_append]
    exact ⟨List.all_eq_true.mp (by decide), hhex⟩
  · rw [List.forall_mem_append]
    exact ⟨List.all_eq_true.mp (by decide), hhex⟩

namespace Operand

/-- The bits of a value that can be read off its text. -/
def Tells : Operand → Nat → Prop
  | signed width, b => width = 0 ∨ 32 ≤ width ∨ b < width.toNat
  | _, _ => True

instance (o : Operand) (b : Nat) : Decidable (o.Tells b) :=
  match o with
  | signed _ => inferInstanceAs (Decidable (_ ∨ _))
  | register => inferInstanceAs (Decidable True)
  | shortRegister => inferInstanceAs (Decidable True)
  | unsigned => inferInstanceAs (Decidable True)

/-- Values that are shown by the same text agree on the bits that the text tells. -/
theorem getLsbD_of_format_eq {o : Operand} {u v : BitVec 32} (h : o.format u = o.format v)
    {b : Nat} (hb : o.Tells b) : u.getLsbD b = v.getLsbD b := by
  cases o with
  | register => rw [BitVec.eq_of_toNat_eq (registerName_inj h)]
  | shortRegister =>
    have hsum : u + 8 = v + 8 := BitVec.eq_of_toNat_eq (registerName_inj h)
    rw [(BitVec.add_left_inj 8).mp hsum]
  | signed width => exact getLsbD_of_signedValue_eq (signedHex_inj h) hb
  | unsigned => rw [BitVec.eq_of_toNat_eq (hex_inj (List.append_cancel_left h))]

theorem isOperandByte_format (o : Operand) (v : BitVec 32) :
    ∀ b ∈ o.format v, isOperandByte b = true := by
  cases o with
  | register => exact isOperandByte_registerName _
  | shortRegister => exact isOperandByte_registerName _
  | signed width => exact isOperandByte_signedHex _
  | unsigned =>
    rw [format, unsignedHex, List.forall_mem_append]
    exact ⟨List.all_eq_true.mp (by decide), isOperandByte_numeral (by decide) (by decide) _⟩

/-- The operand that a list has for a name, unsigned if it has none. -/
def ofName (operands : List (Text × Operand)) (name : Text) : Operand :=
  (operands.lookup name).getD unsigned

end Operand

namespace Formatters

/-- The formatters that belong to a list of operands. -/
def ofOperands (operands : List (Text × Operand)) : Formatters :=
  operands.map fun p => (p.1, p.2.format)

theorem get_ofOperands (operands : List (Text × Operand)) (name : Text) :
    (ofOperands operands).get name = (Operand.ofName operands name).format := by
  induction operands with
  | nil => rfl
  | cons p operands ih =>
    obtain ⟨n, o⟩ := p
    rw [get, Operand.ofName] at ih ⊢
    rw [ofOperands, List.map_cons, List.lookup_cons, List.lookup_cons]
    cases name == n with
    | true => rfl
    | false => exact ih

theorem isOperandByte_get_ofOperands (operands : List (Text × Operand)) (name : Text)
    (v : BitVec 32) : ∀ b ∈ (ofOperands operands).get name v, isOperandByte b = true := by
  rw [get_ofOperands]
  exact Operand.isOperandByte_format _ v

end Formatters

end Disassembly
