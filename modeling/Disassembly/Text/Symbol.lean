import Disassembly.Text.Basic

/-!
# The characters of a text

A text is read as UTF-8 from left to right. Where its bytes spell a character, that character is
the next symbol; a byte at which no character can start, or whose character breaks off, is a
symbol of its own. So every text has symbols, and no byte is lost:

* `Symbol.leading?` reads one character off the front;
* `Text.symbols` reads all symbols, `Text.ofSymbols` writes them back.
-/

namespace Disassembly

/-- One unit of a text: a character in its shortest UTF-8 form, or a byte that belongs to none. -/
inductive Symbol where
  /-- a well-formed character -/
  | char (c : Char)
  /-- a byte that is part of no well-formed character -/
  | stray (b : UInt8)
  deriving DecidableEq

namespace Symbol

/-- The bytes that a symbol stands for. -/
def bytes : Symbol → Text
  | char c => String.utf8EncodeChar c
  | stray b => [b]

/-- A byte `10xxxxxx`, which continues a character and never starts one. -/
def isContinuation (b : UInt8) : Bool := 0x80 ≤ b && b < 0xC0

/-- The six bits that a continuation byte contributes. -/
def payload (b : UInt8) : Nat := b.toNat % 64

/-- The character of code point `v`, provided that `v` is one and needs more than the code points
below `least`, which have a shorter form. -/
def scalar? (least v : Nat) : Option Char :=
  if least ≤ v ∧ v.isValidChar then some (Char.ofNat v) else none

/-- The character that starts with the byte `b` and goes on in `t`, with the number of bytes of
`t` that belong to it. -/
def leading? (b : UInt8) (t : Text) : Option (Char × Nat) :=
  if b < 0x80 then some (Char.ofNat b.toNat, 0)
  else if b < 0xC0 then none
  else if b < 0xE0 then
    match t with
    | c :: _ =>
      if isContinuation c then
        (scalar? 0x80 (b.toNat % 32 * 64 + payload c)).map (·, 1)
      else none
    | _ => none
  else if b < 0xF0 then
    match t with
    | c :: d :: _ =>
      if isContinuation c && isContinuation d then
        (scalar? 0x800 ((b.toNat % 16 * 64 + payload c) * 64 + payload d)).map (·, 2)
      else none
    | _ => none
  else if b < 0xF8 then
    match t with
    | c :: d :: e :: _ =>
      if isContinuation c && isContinuation d && isContinuation e then
        (scalar? 0x10000
          (((b.toNat % 8 * 64 + payload c) * 64 + payload d) * 64 + payload e)).map (·, 3)
      else none
    | _ => none
  else none

end Symbol

namespace Text

/-- The symbols of a text of which the first `skip` bytes belong to a symbol already read, after
the symbols `done`, the last of them first. -/
def symbolsAfter (done : List Symbol) : Nat → Text → List Symbol
  | _, [] => done.reverse
  | skip + 1, _ :: t => symbolsAfter done skip t
  | 0, b :: t =>
    match Symbol.leading? b t with
    | some (c, more) => symbolsAfter (.char c :: done) more t
    | none => symbolsAfter (.stray b :: done) 0 t

/-- The symbols of a text, from left to right. -/
def symbols (t : Text) : List Symbol := symbolsAfter [] 0 t

/-- The text that a list of symbols stands for. -/
def ofSymbols (ss : List Symbol) : Text := ss.flatMap Symbol.bytes

/-- How many symbols a text has; a stray byte counts as one. -/
def symbolCount (t : Text) : Nat := t.symbols.length

end Text

end Disassembly
