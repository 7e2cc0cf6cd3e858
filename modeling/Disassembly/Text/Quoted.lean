import Disassembly.Text.Numeral
import Disassembly.Text.Printable

/-!
# Quoted texts

Messages show a text in quotes, on one line and in printable characters only, so that it can be
read back:

* the delimiter and the backslash stand after a backslash;
* the control characters with a letter of their own (`\n`, `\t`, …) use it;
* any other character that is not printable is given by its code point, and a stray byte by its
  value, in hexadecimal.
-/

namespace Disassembly

/-- The letter that follows the backslash for a control character that has one. -/
def controlLetter? (v : Nat) : Option UInt8 :=
  match v with
  | 0x07 => some 0x61
  | 0x08 => some 0x62
  | 0x0C => some 0x66
  | 0x0A => some 0x6E
  | 0x0D => some 0x72
  | 0x09 => some 0x74
  | 0x0B => some 0x76
  | _ => none

/-- A number in hexadecimal with small letters, filled up with zeros to `width` digits. -/
def escapeCode (width n : Nat) : Text :=
  Text.zeroPad width
    ((Text.digits 16 n).map fun d => UInt8.ofNat (if d < 10 then 0x30 + d else 0x57 + d))

/-- A character between quotes that are the character `delimiter`. -/
def escapeChar (delimiter c : Char) : Text :=
  let v := c.toNat
  if c = delimiter ∨ v = 0x5C then 0x5C :: String.utf8EncodeChar c
  else if isPrintable c then String.utf8EncodeChar c
  else match controlLetter? v with
    | some letter => [0x5C, letter]
    | none =>
      if v < 0x80 then "\\x" ++ escapeCode 2 v
      else if v < 0x10000 then "\\u" ++ escapeCode 4 v
      else "\\U" ++ escapeCode 8 v

/-- A character in single quotes. -/
def quotedChar (c : Char) : Text := 0x27 :: (escapeChar (Char.ofNat 0x27) c ++ [0x27])

namespace Symbol

/-- A symbol between double quotes. -/
def escape : Symbol → Text
  | char c => escapeChar (Char.ofNat 0x22) c
  | stray b => "\\x" ++ escapeCode 2 b.toNat

end Symbol

namespace Text

/-- A text in double quotes. -/
def quoted (t : Text) : Text := 0x22 :: (t.symbols.flatMap Symbol.escape ++ [0x22])

/-- The report on a text that should have been a numeral. -/
def NumeralError.report (e : NumeralError) (t : Text) : Text :=
  "strconv.ParseUint: parsing " ++ t.quoted ++ ": " ++ e.message

end Text

end Disassembly
