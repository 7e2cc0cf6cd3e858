import Disassembly.Layout.Validity
import Disassembly.Layout.Pattern
import Disassembly.Layout.Fields
import Disassembly.Template.Basic

/-!
# Entries

An entry of an instruction table is a layout with the template for its text, and the mask and
pattern by which its words are recognised. `Entry.make` derives mask and pattern from a valid
layout; every entry of a table is made by it.
-/

namespace Disassembly

/-- An instruction of a table. -/
structure Entry (k : Width) where
  /-- how the word is divided -/
  layout : Layout k
  /-- the text of the instruction -/
  template : Template
  /-- the fixed bits and their values -/
  pattern : Pattern k
  deriving DecidableEq

/-- Why no entry can be made of a layout. -/
inductive EntryFault (k : Width) where
  /-- the layout is not valid -/
  | layout (fault : LayoutFault k)
  /-- the layout has no mask and pattern -/
  | pattern (fault : PatternFault k)
  deriving DecidableEq

namespace EntryFault

variable {k : Width}

/-- The cause of a fault. -/
def cause : EntryFault k → Cause
  | layout f => f.cause
  | pattern _ => .widthMismatch

/-- The report, without the instruction that it is about. -/
def reason : EntryFault k → Text
  | layout f => f.message
  | pattern f => f.message

/-- The full report on an instruction with the given text. -/
def message (text : Text) (f : EntryFault k) : Text :=
  "invalid layout for " ++ text.quoted ++ ": " ++ f.reason

end EntryFault

namespace Entry

variable {k : Width}

/-- Make an entry of a valid layout. -/
def make (l : Layout k) (t : Template) : Except (EntryFault k) (Entry k) :=
  match l.validate with
  | .error f => .error (.layout f)
  | .ok () =>
    match l.pattern with
    | .error f => .error (.pattern f)
    | .ok p => .ok ⟨l, t, p⟩

/-- Whether a word is an encoding of the instruction. -/
def Matches (e : Entry k) (w : Word k) : Prop := w &&& e.pattern.mask = e.pattern.value

instance (e : Entry k) (w : Word k) : Decidable (e.Matches w) :=
  inferInstanceAs (Decidable (_ = _))

/-- The values of the fields in a word, whether the word matches or not. It fails only for a layout
that is not valid. -/
def fields (e : Entry k) (w : Word k) : Except ReadFault Fields := e.layout.fields w

/-- The report on an entry whose fields cannot be read. -/
def readReport (e : Entry k) (f : ReadFault) : Text :=
  "extracting fields of " ++ e.template.text.quoted ++ ": " ++ f.message

/-- A word in binary with all its zeros. -/
def bitText (w : Word k) : Text := "0b" ++ Text.zeroPad k.bits (Text.binary w.toNat)

/-- An entry on one line. -/
def text (e : Entry k) : Text :=
  e.template.text.quoted ++ " mask=" ++ bitText e.pattern.mask ++ " pattern=" ++
    bitText e.pattern.value ++ " [" ++ e.layout.text ++ "]"

end Entry

end Disassembly
