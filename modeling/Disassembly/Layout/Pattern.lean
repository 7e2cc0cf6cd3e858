import Disassembly.Cause
import Disassembly.Layout.Basic

/-!
# Mask and pattern

Of a word only the fixed bits decide whether it is an encoding of an instruction. The mask of a
layout has those bits set, and the pattern has their values; a word `w` matches if
`w &&& mask = pattern`.
-/

namespace Disassembly

/-- The fixed bits of an instruction and their values. -/
structure Pattern (k : Width) where
  /-- the fixed bits -/
  mask : Word k
  /-- the values of the fixed bits -/
  value : Word k
  deriving DecidableEq

/-- Why a layout has no mask and pattern. -/
inductive PatternFault (k : Width) where
  /-- a segment does not fit in what the ones before it leave of the word -/
  | overrun (index : Nat) (segment : Segment k)
  /-- some bits of the word are left over -/
  | pending (bits : UInt64)
  deriving DecidableEq

namespace PatternFault

variable {k : Width}

/-- The full report. -/
def message : PatternFault k → Text
  | overrun i s =>
    "segment " ++ Text.decimal i ++ " (" ++ s.text ++ ") overruns " ++ Text.decimal k.bits ++
      "-bit word: " ++ Cause.widthMismatch.message
  | pending bits =>
    "layout leaves " ++ Text.decimal bits.toNat ++ " of " ++ Text.decimal k.bits ++
      " bits pending: " ++ Cause.widthMismatch.message

end PatternFault

namespace Pattern

variable {k : Width}

/-- The pattern of the segments so far, with one more below them. -/
def extend (p : Pattern k) (s : Segment k) : Pattern k :=
  let n := s.width.toNat
  match s with
  | .literal _ value =>
    ⟨p.mask.shiftUp n ||| Word.ones n, p.value.shiftUp n ||| (value &&& Word.ones n)⟩
  | .field _ _ => ⟨p.mask.shiftUp n, p.value.shiftUp n⟩

end Pattern

namespace Layout

variable {k : Width}

/-- The pattern of a layout whose segments up to `index` take `used` bits and have the pattern
`p`. The number of bits used is kept in 64 bits. -/
def patternFrom (index : Nat) (used : UInt64) (p : Pattern k) :
    Layout k → Except (PatternFault k) (Pattern k)
  | [] =>
    if used.toNat = k.bits then .ok p else .error (.pending (UInt64.ofNat k.bits - used))
  | s :: l =>
    if k.bits < (used + s.width).toNat then .error (.overrun index s)
    else patternFrom (index + 1) (used + s.width) (p.extend s) l

/-- The mask and pattern of a layout. -/
def pattern (l : Layout k) : Except (PatternFault k) (Pattern k) :=
  patternFrom 0 0 ⟨0, 0⟩ l

end Layout

end Disassembly
