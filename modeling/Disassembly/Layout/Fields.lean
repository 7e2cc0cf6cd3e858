import Disassembly.Cause
import Disassembly.Layout.Basic

/-!
# Field values

Reading a word along a layout gives each field its value. Every bit that a field takes from the
word goes to the place listed for it, so a value comes out assembled; the segments of one field
contribute to one value.
-/

namespace Disassembly

/-- The values of fields by name, in the order in which the fields first appear. -/
abbrev Fields := List (Text × BitVec 32)

namespace Fields

/-- The value of a field. -/
def get? (fs : Fields) (name : Text) : Option (BitVec 32) := fs.lookup name

/-- Give a field a value, in place of an earlier one. -/
def put (name : Text) (v : BitVec 32) : Fields → Fields
  | [] => [(name, v)]
  | (n, u) :: fs => if n = name then (n, v) :: fs else (n, u) :: put name v fs

@[simp]
theorem get?_put_self (fs : Fields) (name : Text) (v : BitVec 32) :
    (fs.put name v).get? name = some v := by
  induction fs with
  | nil => simp [put, get?]
  | cons f fs ih =>
    obtain ⟨n, u⟩ := f
    unfold put
    split
    · simp_all [get?]
    · rename_i h
      have hn : (name == n) = false := by simpa using Ne.symm h
      simpa [get?, List.lookup_cons, hn] using ih

theorem get?_put_of_ne (fs : Fields) {name other : Text} (v : BitVec 32) (h : other ≠ name) :
    (fs.put name v).get? other = fs.get? other := by
  have ho : (other == name) = false := by simpa using h
  induction fs with
  | nil => simp [put, get?, List.lookup_cons, ho]
  | cons f fs ih =>
    obtain ⟨n, u⟩ := f
    unfold put
    split
    · subst_vars
      simp [get?, List.lookup_cons, ho]
    · simp only [get?, List.lookup_cons] at ih ⊢
      rw [ih]

end Fields

/-- Why a word cannot be read along a layout. -/
inductive ReadFault where
  /-- a literal is longer than what is left of the word -/
  | literal (index : Nat) (len : UInt64) (left : Nat)
  /-- a field goes on after the last bit of the word -/
  | field (index : Nat) (name : Text)
  deriving DecidableEq

namespace ReadFault

/-- The full report. -/
def message : ReadFault → Text
  | literal i len left =>
    "segment " ++ Text.decimal i ++ ": literal of " ++ Text.decimal len.toNat ++ " bits with " ++
      Text.decimal left ++ " bits left: " ++ Cause.widthMismatch.message
  | field i name =>
    "segment " ++ Text.decimal i ++ ": field " ++ name.quoted ++ " runs past bit 0: " ++
      Cause.widthMismatch.message

end ReadFault

/-- The field value that has a given bit at index `dest` and no other; beyond the last bit of a
value there is no place for it. -/
def placeBit (b : Bool) (dest : UInt64) : BitVec 32 :=
  if b && dest < 32 then 1#32 <<< dest.toNat else 0#32

namespace Layout

variable {k : Width}

/-- Add to a value the bits of `w` below index `left`, one for each destination, and give the
index below which the word is unread. There is none if the word ends before the destinations. -/
def gather (w : Word k) : Nat → List UInt64 → BitVec 32 → Option (Nat × BitVec 32)
  | left, [], v => some (left, v)
  | 0, _ :: _, _ => none
  | left + 1, d :: dest, v => gather w left dest (v ||| placeBit (w.bit left) d)

/-- Read `w` along a layout, given the fields read so far, the number of the next segment and the
index below which the word is unread. -/
def fieldsFrom (w : Word k) (index left : Nat) (fs : Fields) :
    Layout k → Except ReadFault Fields
  | [] => .ok fs
  | .literal len _ :: l =>
    if left < len.toNat then .error (.literal index len left)
    else fieldsFrom w (index + 1) (left - len.toNat) fs l
  | .field name dest :: l =>
    match gather w left dest ((fs.get? name).getD 0) with
    | none => .error (.field index name)
    | some (left, v) => fieldsFrom w (index + 1) left (fs.put name v) l

/-- The values that the fields of a layout have in a word. -/
def fields (l : Layout k) (w : Word k) : Except ReadFault Fields :=
  fieldsFrom w 0 k.bits [] l

end Layout

end Disassembly
