import Disassembly.Text.Numeral

/-!
# Base formats

The 32-bit instructions of the base set come in six formats, which say where in the word the
registers, the function codes and the immediate stand.
-/

namespace Disassembly

/-- A format of 32-bit instructions. -/
inductive Format where
  /-- register with register -/
  | r
  /-- register with immediate -/
  | i
  /-- store -/
  | s
  /-- conditional branch -/
  | sb
  /-- upper immediate -/
  | u
  /-- jump -/
  | uj
  /-- a code that stands for no format -/
  | unknown (code : UInt8)
  deriving DecidableEq

namespace Format

/-- The format with a given code; the formats have the codes one to six. -/
def ofCode (code : UInt8) : Format :=
  if code = 1 then r
  else if code = 2 then i
  else if code = 3 then s
  else if code = 4 then sb
  else if code = 5 then u
  else if code = 6 then uj
  else unknown code

/-- The name of a format. -/
def name : Format → Text
  | r => "R"
  | i => "I"
  | s => "S"
  | sb => "SB"
  | u => "U"
  | uj => "UJ"
  | unknown code => "Format(" ++ Text.decimal code.toNat ++ ")"

end Format

end Disassembly
