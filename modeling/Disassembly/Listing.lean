import Disassembly.Program
import Disassembly.Text.Column

/-!
# Listings

A listing has a line for each word of a program, in order: the address, the text of the
instruction in a column, and the word itself at its own size.
-/

namespace Disassembly

/-- The texts of instruction words of both sizes. -/
structure Disassembler where
  /-- the text of a word of two bytes -/
  compact : BitVec 16 → Text
  /-- the text of a word of four bytes -/
  wide : BitVec 32 → Text

/-- The width of the column of instruction texts. -/
def instructionWidth : Nat := 40

/-- The line for a word with a given text. The word has two digits for each of its bytes. -/
def CodeWord.line (w : CodeWord) (text : Text) : Text :=
  addressText w.address ++ "  " ++ text.padRight instructionWidth ++ " 0x" ++
    Text.zeroField (Text.wrap64 (w.size * 2)) (Text.hex w.raw.toNat)

namespace Disassembler

/-- The text of a word. -/
def text (d : Disassembler) (w : CodeWord) : Text :=
  if w.size = 2 then d.compact (w.raw.setWidth 16) else d.wide w.raw

/-- The lines for the words of a program. -/
def lines (d : Disassembler) (words : List CodeWord) : List Text :=
  words.map fun w => w.line (d.text w)

end Disassembler

/-- A listing that was cancelled. -/
inductive ListingError where
  /-- whoever asked for the listing gave it up -/
  | cancelled
  deriving DecidableEq

namespace ListingError

/-- The full report. -/
def message : ListingError → Text
  | cancelled => "failed to disassemble: context canceled"

end ListingError

/-- The lines for the words of a program, or an error if the listing was cancelled before its first
line. A listing without lines cannot be cancelled. -/
def listing (d : Disassembler) (words : List CodeWord) (cancelled : Bool) :
    Except ListingError (List Text) :=
  if cancelled && !words.isEmpty then .error .cancelled else .ok (d.lines words)

end Disassembly
