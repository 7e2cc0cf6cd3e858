import Disassembly.Text.LetterCase
import Disassembly.Text.Numeral
import Disassembly.Text.Quoted

/-!
# Standards

A standard is a size of registers together with a letter for an extension, such as RV32M. Sets of
standards are kept in ascending order.
-/

namespace Disassembly

/-- A size with an extension. The letter zero stands for any extension. -/
structure Standard where
  /-- the size of registers in bits -/
  size : UInt8
  /-- the letter of the extension -/
  letter : UInt8
  deriving DecidableEq

namespace Standard

/-- The number of a standard, by which standards are ordered: the letter above the size. -/
def value (s : Standard) : Nat := s.letter.toNat * 256 + s.size.toNat

/-- The standard with a number, of which only 16 bits count. -/
def ofValue (v : Nat) : Standard := ⟨UInt8.ofNat (v % 256), UInt8.ofNat (v / 256 % 256)⟩

/-- The same size with any extension. -/
def base (s : Standard) : Standard := ⟨s.size, 0⟩

/-- The name of a standard. -/
def text (s : Standard) : Text :=
  "RV" ++ Text.decimal s.size.toNat ++
    if s.letter = 0 then [] else String.utf8EncodeChar (Char.ofNat s.letter.toNat)

/-- No standard: what an unknown name stands for. -/
def invalid : Standard := ⟨0, 0⟩

/-- The 32-bit standard of an extension. -/
def rv32 (letter : UInt8) : Standard := ⟨32, letter⟩

/-- Base integer instructions. -/
def rv32i : Standard := rv32 0x49

/-- Multiplication and division. -/
def rv32m : Standard := rv32 0x4D

/-- Atomic memory operations. -/
def rv32a : Standard := rv32 0x41

/-- Supervisor instructions. -/
def rv32s : Standard := rv32 0x53

/-- Compressed instructions. -/
def rv32c : Standard := rv32 0x43

/-- The size that a numeral stands for. -/
def sizeOf? (t : Text) : Option UInt8 :=
  if t = "32" then some 32
  else if t = "64" then some 64
  else if t = "128" then some 128
  else none

/-- The first byte of the capital form of the character with the code of a byte. -/
def capitalByte (b : UInt8) : UInt8 :=
  (String.utf8EncodeChar (upperChar (Char.ofNat b.toNat))).headD 0

/-- The standard that a name such as `rv32m` stands for, in letters of either case. The last byte
is the letter, whatever it is. -/
def parse? (t : Text) : Option Standard :=
  match Text.strip? "rv" t.lower with
  | none => none
  | some body =>
    match body.getLast? with
    | none => none
    | some letter => (sizeOf? body.dropLast).map fun size => ⟨size, capitalByte letter⟩

end Standard

/-- A set of standards, in ascending order of their numbers. -/
abbrev Standards := List Standard

/-- A letter that stands for no extension. -/
structure UnknownExtension where
  /-- the letter, as a capital -/
  letter : Char
  deriving DecidableEq

namespace UnknownExtension

/-- The full report. -/
def message (e : UnknownExtension) : Text := "unknown extension " ++ quotedChar e.letter

end UnknownExtension

namespace Standards

/-- Put a standard into its place, unless it is there. -/
def insert (s : Standard) : Standards → Standards
  | [] => [s]
  | t :: ts =>
    if s.value < t.value then s :: t :: ts
    else if s.value = t.value then t :: ts
    else t :: insert s ts

/-- The names of the standards in a set. -/
def text (ss : Standards) : Text := Text.joinWith ", " (ss.map Standard.text)

/-- The standard of the extension that a character names. Only the low byte of its code point is
looked at. -/
def ofLetter? (c : Char) : Option Standard :=
  let letter := UInt8.ofNat (c.toNat % 256)
  if letter = 0x49 ∨ letter = 0x4D ∨ letter = 0x41 ∨ letter = 0x53 ∨ letter = 0x43 then
    some (.rv32 letter)
  else none

/-- Add the standards of the extensions that characters name. -/
def addLetters (ss : Standards) : List Char → Except UnknownExtension Standards
  | [] => .ok ss
  | c :: cs =>
    match ofLetter? c with
    | some s => addLetters (insert s ss) cs
    | none => .error ⟨c⟩

/-- The standards that a text of extension letters such as `IMAC`, of either case, names. The base
integer set is always among them. -/
def ofExtensions (t : Text) : Except UnknownExtension Standards :=
  addLetters [.rv32i] t.upperChars

end Standards

end Disassembly
