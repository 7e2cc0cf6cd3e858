import Disassembly.Text.Numeral

/-!
# Operands

How the value of a field is shown: as a register, as a signed number, or in hexadecimal. A table
lists formatters by the names of fields; a field that is not listed is shown in hexadecimal.
-/

namespace Disassembly

/-- The integer that the low `width` bits of `v` denote in two's complement. A width of zero, or of
at least 32, takes the whole of `v`. -/
def signedValue (width : UInt64) (v : BitVec 32) : Int :=
  if width = 0 ∨ 32 ≤ width then v.toInt
  else
    let shift := 32 - width.toNat
    ((v <<< shift).sshiftRight shift).toInt

/-- An integer in hexadecimal, the sign before the `0x`. -/
def signedHex (i : Int) : Text :=
  if i < 0 then "-0x" ++ Text.hex i.natAbs else "0x" ++ Text.hex i.natAbs

/-- A value in hexadecimal. -/
def unsignedHex (v : BitVec 32) : Text := "0x" ++ Text.hex v.toNat

/-- A register by its number. -/
def registerName (n : Nat) : Text := "x" ++ Text.decimal n

/-- The kinds of operands that are shown in a way of their own. -/
inductive Operand where
  /-- a register by its number -/
  | register
  /-- one of the eight registers, from `x8` on, that a short register field reaches -/
  | shortRegister
  /-- a number in two's complement of `width` bits -/
  | signed (width : UInt64)
  /-- anything else, in hexadecimal -/
  | unsigned
  deriving DecidableEq

/-- A way to show a field value. -/
abbrev Formatter := BitVec 32 → Text

namespace Operand

/-- The operand of a kind known by its name: `ireg`, `creg`, `offset` and `simm`; any other name
means an unsigned number. -/
def named (name : Text) (width : UInt64) : Operand :=
  if name = "ireg" then register
  else if name = "creg" then shortRegister
  else if name = "offset" ∨ name = "simm" then signed width
  else unsigned

/-- How values of a kind are shown. Register numbers wrap around in 32 bits. -/
def format : Operand → Formatter
  | register, v => registerName v.toNat
  | shortRegister, v => registerName (v + 8).toNat
  | signed width, v => signedHex (signedValue width v)
  | unsigned, v => unsignedHex v

end Operand

/-- Formatters by the names of the fields they are for. -/
abbrev Formatters := List (Text × Formatter)

namespace Formatters

/-- The formatter for a field. -/
def get (fs : Formatters) (name : Text) : Formatter := (fs.lookup name).getD unsignedHex

end Formatters

end Disassembly
