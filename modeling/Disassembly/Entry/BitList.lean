import Disassembly.Cause
import Disassembly.Text.Blank
import Disassembly.Text.Quoted

/-!
# Bit lists

A description lists the bits of a field as items between bars, such as `11|4|9:8|3:1`. An item is
the index of a bit or a range, the higher index first; white space around a number does not
matter.
-/

namespace Disassembly

/-- The greatest index that can be written. -/
def lastBitIndex : Nat := 255

/-- What is wrong with a bit list. -/
inductive BitListFault where
  /-- there is nothing but white space -/
  | empty
  /-- an item of the list is no index -/
  | index (list item : Text)
  /-- a range goes up -/
  | ascending (list : Text) (high low : Nat)
  deriving DecidableEq

namespace BitListFault

/-- The cause of a fault. -/
def cause : BitListFault → Cause
  | empty => .emptyBits
  | index _ _ => .grammar
  | ascending _ _ _ => .grammar

/-- The full report. -/
def message : BitListFault → Text
  | empty => Cause.emptyBits.message
  | index list item =>
    "bitspec " ++ list.quoted ++ ": bad bit index " ++ item.quoted ++ ": " ++
      Cause.grammar.message
  | ascending list high low =>
    "bitspec " ++ list.quoted ++ ": range " ++ Text.decimal high ++ ":" ++ Text.decimal low ++
      " must be written high:low: " ++ Cause.grammar.message

end BitListFault

namespace BitList

/-- With every step down there is less left to count, also where the step wraps around. -/
theorem toNat_sub_one_sub_lt {i bottom : UInt64} (h : i ≠ bottom) :
    (i - 1 - bottom).toNat < (i - bottom).toNat := by
  have hne : i.toNat ≠ bottom.toNat := fun heq => h (UInt64.toNat_inj.mp heq)
  have hi := i.toNat_lt
  have hbottom := bottom.toNat_lt
  rw [UInt64.toNat_sub, UInt64.toNat_sub, UInt64.toNat_sub, UInt64.toNat_one]
  omega

/-- Count down from `i` to `bottom` in 64 bits. An index is taken first, then it is compared with
the last one, and only then comes the next step, so that there is no step below zero if `bottom` is
zero. -/
def countdown (i bottom : UInt64) : List UInt64 :=
  i :: if i = bottom then [] else countdown (i - 1) bottom
termination_by (i - bottom).toNat
decreasing_by exact toNat_sub_one_sub_lt ‹_›

theorem countdown_self (i : UInt64) : countdown i i = [i] := by
  rw [countdown, if_pos rfl]

/-- The index that an item denotes, up to white space around it. -/
def readIndex (list item : Text) : Except BitListFault Nat :=
  (Text.readNumeral 10 lastBitIndex item.trim).mapError fun _ => .index list item

/-- The indices that one item of a list denotes. -/
def readItem (list item : Text) : Except BitListFault (List UInt64) := do
  let (top, bottom) := (Text.cut? 0x3A item).getD (item, item)
  let high ← readIndex list top
  let low ← readIndex list bottom
  if high < low then throw (.ascending list high low)
  return countdown (.ofNat high) (.ofNat low)

/-- The indices that a bit list denotes, in the order in which they are written. -/
def parse (t : Text) : Except BitListFault (List UInt64) :=
  if t.trim.isEmpty then .error .empty
  else (·.flatten) <$> (Text.pieces 0x7C t).mapM (readItem t)

end BitList

end Disassembly
