import Disassembly.Text.Symbol

/-!
# Columns

A text in a column is followed by spaces up to the width of the column, counted in symbols.
-/

namespace Disassembly

namespace Text

/-- A text with spaces after it, up to `width` symbols. A longer text is left as it is. -/
def padRight (width : Nat) (t : Text) : Text :=
  t ++ List.replicate (width - t.symbolCount) 0x20

end Text

end Disassembly
