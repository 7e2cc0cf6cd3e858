import Disassembly.Text.Basic

/-!
# Names

A name is a letter followed by letters, digits and dots, all of ASCII. Fields of a layout have
names, and templates refer to them by the same rule.
-/

namespace Disassembly

/-- An ASCII letter. -/
def isLetter (b : UInt8) : Bool := (0x61 ≤ b && b ≤ 0x7A) || (0x41 ≤ b && b ≤ 0x5A)

/-- An ASCII digit. -/
def isDigit (b : UInt8) : Bool := 0x30 ≤ b && b ≤ 0x39

/-- A byte that can stand in a name after its first letter. -/
def isNameByte (b : UInt8) : Bool := isLetter b || isDigit b || b == 0x2E

/-- Whether a text is a name. -/
def isName : Text → Bool
  | [] => false
  | b :: t => isLetter b && t.all isNameByte

theorem isNameByte_of_isLetter {b : UInt8} (hb : isLetter b = true) : isNameByte b = true := by
  simp [isNameByte, hb]

theorem isNameByte_of_isDigit {b : UInt8} (hb : isDigit b = true) : isNameByte b = true := by
  simp [isNameByte, hb]

/-- A name starts with a letter. -/
theorem exists_letter_of_isName {name : Text} (hname : isName name = true) :
    ∃ b t, name = b :: t ∧ isLetter b = true := by
  cases name with
  | nil => contradiction
  | cons b t => exact ⟨b, t, rfl, (Bool.and_eq_true_iff.mp hname).1⟩

theorem isNameByte_of_isName {name : Text} (hname : isName name = true) :
    ∀ b ∈ name, isNameByte b = true := by
  cases name with
  | nil => simp
  | cons b t =>
    obtain ⟨hb, ht⟩ := Bool.and_eq_true_iff.mp hname
    rw [List.forall_mem_cons]
    exact ⟨isNameByte_of_isLetter hb, List.all_eq_true.mp ht⟩

/-- A name goes on as long as there are bytes for it. -/
theorem isName_concat {name : Text} (hname : isName name = true) {b : UInt8}
    (hb : isNameByte b = true) : isName (name ++ [b]) = true := by
  obtain ⟨c, t, rfl, -⟩ := exists_letter_of_isName hname
  simpa [isName, hb] using hname

end Disassembly
