import Disassembly.Text.Symbol

/-!
# White space

The characters with the Unicode property White_Space, and texts with their white space at both
ends removed.
-/

namespace Disassembly

/-- The code points with the property White_Space, as inclusive ranges. -/
def blankRanges : List (Nat × Nat) :=
  [(0x20, 0x20), (0x09, 0x0D), (0x85, 0x85), (0xA0, 0xA0), (0x1680, 0x1680), (0x2000, 0x200A),
    (0x2028, 0x2029), (0x202F, 0x202F), (0x205F, 0x205F), (0x3000, 0x3000)]

namespace Symbol

/-- Whether a symbol is a white space character. A stray byte is none. -/
def isBlank : Symbol → Bool
  | char c => blankRanges.any fun r => r.1 ≤ c.toNat && c.toNat ≤ r.2
  | stray _ => false

end Symbol

namespace Text

/-- A text without the white space at its two ends. -/
def trim (t : Text) : Text :=
  ofSymbols ((t.symbols.dropWhile Symbol.isBlank).reverse.dropWhile Symbol.isBlank).reverse

end Text

end Disassembly
