import Disassembly.Text.Basic

/-!
# Numerals

Natural numbers are written and read in any base up to sixteen, the digits from ten on as letters.

* `Text.digits` lists the digits of a number; `Text.decimal`, `Text.hex` and `Text.binary` write
  them, with capital letters and without leading zeros;
* `Text.zeroPad` fills up with zeros to a fixed width, `Text.zeroField` to a width that is itself
  data, which may be negative or absurd;
* `Text.readNumeral` reads a numeral that must not exceed a limit.
-/

namespace Disassembly

namespace Text

/-! ## Writing -/

/-- The digits of `n` before the digits `low`; `fuel` bounds how many there are. -/
def digitsBefore (base : Nat) : Nat → Nat → List Nat → List Nat
  | 0, _, low => low
  | fuel + 1, n, low =>
    if n / base = 0 then n % base :: low
    else digitsBefore base fuel (n / base) (n % base :: low)

/-- The digits of a number, the most significant first. Zero has one digit, and no other number
starts with the digit zero. -/
def digits (base n : Nat) : List Nat := digitsBefore base (n + 1) n []

/-- A digit as a byte: `0` to `9`, then `A` to `F`. -/
def digitByte (d : Nat) : UInt8 :=
  if d < 10 then UInt8.ofNat (0x30 + d) else UInt8.ofNat (0x37 + d)

/-- A number in decimal. -/
def decimal (n : Nat) : Text := (digits 10 n).map digitByte

/-- A number in hexadecimal, with capital letters. -/
def hex (n : Nat) : Text := (digits 16 n).map digitByte

/-- A number in binary. -/
def binary (n : Nat) : Text := (digits 2 n).map digitByte

/-- A numeral with zeros in front of it, up to `width` bytes. -/
def zeroPad (width : Nat) (numeral : Text) : Text :=
  List.replicate (width - numeral.length) 0x30 ++ numeral

/-- A number kept in 64 bits, in two's complement. -/
def wrap64 (n : Int) : Int := n.bmod UInt64.size

/-- The greatest width that a field may have. -/
def maxFieldWidth : Int := 1000000

/-- A numeral in a field of the given width: zeros in front of it, or, in a field of negative
width, spaces after it. A width beyond `maxFieldWidth` either way is reported and then ignored. -/
def zeroField (width : Int) (numeral : Text) : Text :=
  if maxFieldWidth < width ∨ width < -maxFieldWidth then "%!(BADWIDTH)" ++ numeral
  else if width < 0 then numeral ++ List.replicate (width.natAbs - numeral.length) 0x20
  else zeroPad width.toNat numeral

/-! ## Reading -/

/-- Why a text is no numeral of the wanted kind. -/
inductive NumeralError where
  /-- there is no digit, or something else than a digit -/
  | malformed
  /-- the number is too great -/
  | outOfRange
  deriving DecidableEq

namespace NumeralError

/-- What is said about the text. -/
def message : NumeralError → Text
  | malformed => "invalid syntax"
  | outOfRange => "value out of range"

end NumeralError

/-- The value of a byte as a digit: decimal digits, then the letters of either case. -/
def digitValue? (b : UInt8) : Option Nat :=
  if 0x30 ≤ b ∧ b ≤ 0x39 then some (b.toNat - 0x30)
  else if 0x41 ≤ b ∧ b ≤ 0x5A then some (b.toNat - 0x37)
  else if 0x61 ≤ b ∧ b ≤ 0x7A then some (b.toNat - 0x57)
  else none

/-- Read digits on to the number `n` read so far. The first byte at which something is wrong
decides the error. -/
def readDigits (base limit : Nat) (n : Nat) : Text → Except NumeralError Nat
  | [] => .ok n
  | b :: t =>
    match digitValue? b with
    | none => .error .malformed
    | some d =>
      if base ≤ d then .error .malformed
      else if limit < n * base + d then .error .outOfRange
      else readDigits base limit (n * base + d) t

/-- The number, at most `limit`, that a text of one or more digits denotes. -/
def readNumeral (base limit : Nat) (t : Text) : Except NumeralError Nat :=
  if t.isEmpty then .error .malformed else readDigits base limit 0 t

end Text

end Disassembly
