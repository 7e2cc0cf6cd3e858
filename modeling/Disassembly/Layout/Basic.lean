import Disassembly.Width

/-!
# Layouts

The layout of an instruction says what each bit of its word is for, from the most significant bit
down. A segment is a run of fixed bits or a run of bits that belong to a field; the bits of a field
go, one by one, to the listed bits of the field's value. One field may be spread over several
segments.

Lengths are 64-bit numbers, and so are sums of them: `Layout.width` wraps around.
`Layout.extent` is the same sum without the bound.
-/

namespace Disassembly

/-- The length of a list in 64 bits. No list that can be kept has `2 ^ 63` members or more, and one
that had them would count as the longest that can be kept. -/
def length64 {α : Type} (xs : List α) : UInt64 := UInt64.ofNat (min xs.length 0x7FFFFFFFFFFFFFFF)

/-- One piece of a layout. -/
inductive Segment (k : Width) where
  /-- `len` bits that have to equal `value` -/
  | literal (len : UInt64) (value : Word k)
  /-- a bit for each member of `dest`, which says where in the field's value it goes -/
  | field (name : Text) (dest : List UInt64)
  deriving DecidableEq

/-- The segments of a word, the most significant first. -/
abbrev Layout (k : Width) := List (Segment k)

namespace Segment

variable {k : Width}

/-- Whether a segment belongs to a field. -/
def isField : Segment k → Bool
  | literal _ _ => false
  | field _ _ => true

/-- How many bits of the word a segment takes, in 64 bits. -/
def width : Segment k → UInt64
  | literal len _ => len
  | field _ dest => length64 dest

/-- How many bits of the word a segment takes. -/
def extent : Segment k → Nat
  | literal len _ => len.toNat
  | field _ dest => dest.length

/-- A segment as messages show it: the digits of a literal, or a field's name with its bits. -/
def text : Segment k → Text
  | literal len value => Text.zeroField (Text.wrap64 len.toNat) (Text.binary value.toNat)
  | field name dest =>
    name ++ "[" ++ Text.joinWith " " (dest.map fun d => Text.decimal d.toNat) ++ "]"

end Segment

/-- A segment as it is put together, with the parts of both kinds. The list of bits can be missing,
which is not the same as an empty one. -/
structure RawSegment (k : Width) where
  /-- the number of fixed bits -/
  len : UInt64 := 0
  /-- the fixed bits -/
  value : Word k := 0
  /-- the name of the field -/
  name : Text := []
  /-- where the bits go in the field's value -/
  dest : Option (List UInt64) := none

namespace RawSegment

variable {k : Width}

/-- Whether the parts are those of a field: there is a name or a list of bits. -/
def isField (r : RawSegment k) : Bool := !r.name.isEmpty || r.dest.isSome

/-- The segment that the parts make up; those of the other kind do not matter. -/
def toSegment (r : RawSegment k) : Segment k :=
  if r.isField then .field r.name (r.dest.getD []) else .literal r.len r.value

theorem isField_toSegment (r : RawSegment k) : r.toSegment.isField = r.isField := by
  rw [toSegment]
  cases r.isField <;> rfl

theorem width_toSegment (r : RawSegment k) :
    r.toSegment.width = if r.isField then length64 (r.dest.getD []) else r.len := by
  rw [toSegment]
  cases r.isField <;> rfl

/-- Every segment is made up of parts. -/
theorem exists_toSegment_eq (s : Segment k) : ∃ r : RawSegment k, r.toSegment = s := by
  cases s with
  | literal len value => exact ⟨{ len, value }, rfl⟩
  | field name dest =>
    refine ⟨{ name, dest := some dest }, ?_⟩
    rw [toSegment, isField, Option.isSome_some, Bool.or_true]
    rfl

end RawSegment

namespace Layout

variable {k : Width}

/-- The number of bits that a layout takes, in 64 bits. -/
def width (l : Layout k) : UInt64 := l.foldl (fun n s => n + s.width) 0

/-- The number of bits that a layout takes. -/
def extent (l : Layout k) : Nat := l.foldr (fun s n => s.extent + n) 0

@[simp]
theorem extent_nil : extent ([] : Layout k) = 0 := rfl

@[simp]
theorem extent_cons (s : Segment k) (l : Layout k) :
    extent (s :: l) = s.extent + extent l := rfl

/-- A layout as messages show it. -/
def text (l : Layout k) : Text := Text.joinWith ", " (l.map Segment.text)

end Layout

end Disassembly
