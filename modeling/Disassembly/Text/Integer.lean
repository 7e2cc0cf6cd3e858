import Disassembly.Text.Numeral

/-!
# Integers with a marked base

An integer on a command line may carry a sign, a marker for its base (`0b`, `0o`, `0x`, or a bare
`0` for octal) and underscores between its digits. It has to fit in 64 bits.
-/

namespace Disassembly

namespace Text

/-- The base that a marker letter stands for. -/
def markedBase? (b : UInt8) : Option Nat :=
  if b = 0x62 ∨ b = 0x42 then some 2
  else if b = 0x6F ∨ b = 0x4F then some 8
  else if b = 0x78 ∨ b = 0x58 then some 16
  else none

/-- The base of an unsigned integer and what follows its marker. A marker letter counts only if
something follows it; a leading zero without one means octal. -/
def baseAndDigits (t : Text) : Nat × Text :=
  match strip? "0" t with
  | none => (10, t)
  | some [] => (8, [])
  | some (m :: body) =>
    match markedBase? m with
    | some base => if body.isEmpty then (8, m :: body) else (base, body)
    | none => (8, m :: body)

/-- Whether every underscore stands between two digits, given whether a digit comes before. -/
def separates (afterDigit : Bool) : Text → Bool
  | [] => true
  | b :: t =>
    if b = 0x5F then afterDigit && !t.isEmpty && separates false t else separates true t

/-- Whether the underscores of an unsigned integer are in order. A marker counts as a digit. -/
def underscoresOk (t : Text) : Bool :=
  match strip? "0" t with
  | some (m :: body) =>
    if (markedBase? m).isSome then separates true body else separates true (m :: body)
  | _ => separates false t

/-- The value of an integer without sign. -/
def readMagnitude (t : Text) : Except NumeralError Nat := do
  if t.isEmpty then throw .malformed
  let (base, body) := baseAndDigits t
  let n ← readDigits base (UInt64.size - 1) 0 (body.filter (· != 0x5F))
  if body.contains 0x5F && !underscoresOk t then throw .malformed
  return n

/-- The value of an integer in the range of 64 bits in two's complement. -/
def readInteger (t : Text) : Except NumeralError Int :=
  match strip? "-" t with
  | some body => do
    let n ← readMagnitude body
    if n ≤ 0x8000000000000000 then return -(n : Int) else throw .outOfRange
  | none => do
    let n ← readMagnitude ((strip? "+" t).getD t)
    if n < 0x8000000000000000 then return (n : Int) else throw .outOfRange

end Text

end Disassembly
