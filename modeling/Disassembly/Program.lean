import Disassembly.Text.Numeral

/-!
# Program images

A program image is a sequence of instruction words, the low byte of each word first. The two low
bits of the first byte tell the size of a word: both set means four bytes, anything else two.
`Program.split` cuts an image into its words and numbers them by their addresses, which wrap
around at 32 bits. An image may end inside a word.
-/

namespace Disassembly

/-- An instruction word of an image. -/
structure CodeWord where
  /-- where the word stands -/
  address : BitVec 32
  /-- the word; one of two bytes is in the low half -/
  raw : BitVec 32
  /-- the size in bytes -/
  size : Int
  deriving DecidableEq

/-- A word that the end of the image cuts short. -/
structure Truncation where
  /-- where the word stands -/
  address : BitVec 32
  /-- its size in bytes -/
  needed : Nat
  /-- how many bytes there are -/
  present : Nat
  deriving DecidableEq

/-- An address as it is shown. -/
def addressText (a : BitVec 32) : Text := "0x" ++ Text.zeroPad 8 (Text.hex a.toNat)

namespace Truncation

/-- The full report. -/
def message (e : Truncation) : Text :=
  "truncated instruction at " ++ addressText e.address ++ ": need " ++ Text.decimal e.needed ++
    " bytes, have " ++ Text.decimal e.present

end Truncation

/-- An image cut into words. -/
structure Program where
  /-- the complete words in order -/
  words : List CodeWord
  /-- the word that the image ends in, if it does -/
  rest : Option Truncation

namespace Program

/-- Whether a word that starts with this byte has four bytes. -/
def isLong (b : UInt8) : Bool := b &&& 3 = 3

/-- The size of a word that starts with this byte. -/
def sizeOf (b : UInt8) : Nat := if isLong b then 4 else 2

/-- A word of two bytes. -/
def shortWord (b₀ b₁ : UInt8) : BitVec 32 := (b₁.toBitVec ++ b₀.toBitVec).setWidth 32

/-- A word of four bytes. -/
def longWord (b₀ b₁ b₂ b₃ : UInt8) : BitVec 32 :=
  b₃.toBitVec ++ b₂.toBitVec ++ b₁.toBitVec ++ b₀.toBitVec

/-- Cut an image that starts at an address, after the words `done`, the last of them first. -/
def splitAfter (done : List CodeWord) (address : BitVec 32) : Text → Program
  | [] => ⟨done.reverse, none⟩
  | [b₀] => ⟨done.reverse, some ⟨address, sizeOf b₀, 1⟩⟩
  | b₀ :: b₁ :: image =>
    if isLong b₀ then
      match image with
      | [] => ⟨done.reverse, some ⟨address, 4, 2⟩⟩
      | [_] => ⟨done.reverse, some ⟨address, 4, 3⟩⟩
      | b₂ :: b₃ :: image =>
        splitAfter (⟨address, longWord b₀ b₁ b₂ b₃, 4⟩ :: done) (address + 4) image
    else splitAfter (⟨address, shortWord b₀ b₁, 2⟩ :: done) (address + 2) image

/-- Cut an image that starts at an address into words. -/
def split (start : BitVec 32) (image : Text) : Program := splitAfter [] start image

end Program

end Disassembly
