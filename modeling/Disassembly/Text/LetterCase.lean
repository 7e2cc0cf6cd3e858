import Disassembly.Text.Symbol
import Disassembly.Text.LetterCase.Table

/-!
# Letter case

A text in capital or in small letters, character by character. A stray byte has no case and is
replaced by the replacement character U+FFFD, so the result is well-formed UTF-8.
-/

namespace Disassembly

/-- The capital form of a character, or the character itself. -/
def upperChar (c : Char) : Char := Char.ofNat (CaseRow.apply upperRows c.toNat)

/-- The small form of a character, or the character itself. -/
def lowerChar (c : Char) : Char := Char.ofNat (CaseRow.apply lowerRows c.toNat)

namespace Symbol

/-- The character that is shown for a symbol: a stray byte shows as U+FFFD. -/
def shown : Symbol → Char
  | char c => c
  | stray _ => Char.ofNat 0xFFFD

end Symbol

namespace Text

/-- The characters of a text in capital letters. -/
def upperChars (t : Text) : List Char := t.symbols.map fun s => upperChar s.shown

/-- A text in capital letters. -/
def upper (t : Text) : Text := t.upperChars.flatMap String.utf8EncodeChar

/-- A text in small letters. -/
def lower (t : Text) : Text :=
  t.symbols.flatMap fun s => String.utf8EncodeChar (lowerChar s.shown)

end Text

end Disassembly
