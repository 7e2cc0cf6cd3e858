import Disassembly.Cause
import Disassembly.Name
import Disassembly.Layout.Basic

/-!
# Valid layouts

A layout is valid if each of its segments makes sense by itself and together they cover the word.
`Layout.validate` reports the first segment that is wrong, and looks at the sum of the widths only
if none is.
-/

namespace Disassembly

/-- The highest bit of a field value. -/
def lastFieldBit : UInt64 := 31

/-- What is wrong with a single segment. -/
inductive SegmentFault (k : Width) where
  /-- a literal is empty or longer than the word -/
  | length (len : UInt64)
  /-- the value of a literal does not fit -/
  | overflow (value : Word k) (len : UInt64)
  /-- a field is not properly named -/
  | name (name : Text)
  /-- a field has no bits -/
  | noBits (name : Text)
  /-- a bit of a field has no place in a field value -/
  | bit (name : Text) (index : UInt64)
  deriving DecidableEq

namespace SegmentFault

variable {k : Width}

/-- The cause of a fault. -/
def cause : SegmentFault k → Cause
  | length _ => .widthMismatch
  | overflow _ _ => .literalOverflow
  | name _ => .fieldName
  | noBits _ => .emptyBits
  | bit _ _ => .bitOutOfRange

/-- What is said about the segment, without its place and the cause. -/
def subject : SegmentFault k → Text
  | length len => "literal of " ++ Text.decimal len.toNat ++ " bits"
  | overflow value len =>
    "0b" ++ Text.binary value.toNat ++ " in " ++ Text.decimal len.toNat ++ " bits"
  | name n => n.quoted
  | noBits n => "field " ++ n.quoted
  | bit n i => "field " ++ n.quoted ++ " bit " ++ Text.decimal i.toNat

end SegmentFault

/-- Why a layout is not valid. -/
inductive LayoutFault (k : Width) where
  /-- the segment at an index is wrong -/
  | segment (index : Nat) (fault : SegmentFault k)
  /-- the segments cover another number of bits than the word has -/
  | coverage (bits : UInt64)
  deriving DecidableEq

namespace LayoutFault

variable {k : Width}

/-- The cause of a fault. -/
def cause : LayoutFault k → Cause
  | segment _ f => f.cause
  | coverage _ => .widthMismatch

/-- The full report. -/
def message : LayoutFault k → Text
  | segment i f => "segment " ++ Text.decimal i ++ ": " ++ f.subject ++ ": " ++ f.cause.message
  | coverage bits =>
    "layout covers " ++ Text.decimal bits.toNat ++ " bits, " ++ k.name ++ " needs " ++
      Text.decimal k.bits ++ ": " ++ Cause.widthMismatch.message

end LayoutFault

namespace Segment

variable {k : Width}

/-- What is wrong with a segment, if anything is. -/
def fault? : Segment k → Option (SegmentFault k)
  | literal len value =>
    if len = 0 ∨ k.bits < len.toNat then some (.length len)
    else if value >>> len.toNat ≠ 0 then some (.overflow value len)
    else none
  | field name dest =>
    if !isName name then some (.name name)
    else if dest.isEmpty then some (.noBits name)
    else (dest.find? (lastFieldBit < ·)).map (.bit name)

end Segment

namespace Layout

variable {k : Width}

/-- The first faulty segment, where the segments are numbered from `index` on. -/
def firstFault? (index : Nat) : Layout k → Option (LayoutFault k)
  | [] => none
  | s :: l =>
    match s.fault? with
    | some f => some (.segment index f)
    | none => firstFault? (index + 1) l

/-- Check that a layout describes a word of its width. -/
def validate (l : Layout k) : Except (LayoutFault k) Unit :=
  match l.firstFault? 0 with
  | some f => .error f
  | none => if l.width.toNat = k.bits then .ok () else .error (.coverage l.width)

end Layout

end Disassembly
