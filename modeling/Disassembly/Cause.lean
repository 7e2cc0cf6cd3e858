import Disassembly.Text.Numeral

/-!
# What can be wrong with a description

The errors of this library say where something is wrong and quote it. `Cause` is what remains
when the place is left out: the few ways in which the description of an instruction can fail.
-/

namespace Disassembly

/-- A way in which the description of an instruction can be wrong. -/
inductive Cause where
  /-- the segments do not add up to the width of the word -/
  | widthMismatch
  /-- a field lists no bits -/
  | emptyBits
  /-- a field has no proper name -/
  | fieldName
  /-- a literal needs more bits than it has -/
  | literalOverflow
  /-- a field value has no such bit -/
  | bitOutOfRange
  /-- the text does not follow the grammar -/
  | grammar
  /-- a number cannot be read -/
  | numeral (e : Text.NumeralError)
  deriving DecidableEq

namespace Cause

/-- How the cause is put in a message. -/
def message : Cause → Text
  | widthMismatch => "layout width does not match word width"
  | emptyBits => "field has an empty bitspec"
  | fieldName => "invalid field name"
  | literalOverflow => "literal value does not fit its length"
  | bitOutOfRange => "field destination bit out of range"
  | grammar => "invalid instruction syntax"
  | numeral e => e.message

end Cause

end Disassembly
