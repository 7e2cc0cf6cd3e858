import Disassembly.Entry.Basic
import Disassembly.Entry.BitList

/-!
# Descriptions of instructions

An entry is described by a line such as

    "c.lw rd, imm(rs1)", 010, imm[5:3], rs1[2:0], imm[2|6], rd[2:0], 00

The template stands in quotes. The groups after it are the segments of the layout, from the most
significant bit down: binary digits for a literal, a name with a bit list for a field. White space
around a group, a name or a number does not matter.
-/

namespace Disassembly

/-! ## Groups -/

/-- What is wrong with a group. -/
inductive GroupFault where
  /-- there is nothing -/
  | empty
  /-- the binary digits are no word -/
  | digits (group : Text) (e : Text.NumeralError)
  /-- the group has neither of the two forms -/
  | form (group : Text)
  /-- the field is not properly named -/
  | name (group : Text)
  /-- the bits of the field are wrong -/
  | bits (name : Text) (fault : BitListFault)
  deriving DecidableEq

namespace GroupFault

/-- The cause of a fault. -/
def cause : GroupFault → Cause
  | empty => .grammar
  | digits _ e => .numeral e
  | form _ => .grammar
  | name _ => .fieldName
  | bits _ f => f.cause

/-- The full report. -/
def message : GroupFault → Text
  | empty => "empty bit group: " ++ Cause.grammar.message
  | digits g e => "bit group " ++ g.quoted ++ ": " ++ binaryReport g e
  | form g =>
    "bit group " ++ g.quoted ++ ": expected binary digits or name[bits]: " ++
      Cause.grammar.message
  | name g => "bit group " ++ g.quoted ++ ": " ++ Cause.fieldName.message
  | bits n f => "field " ++ n.quoted ++ ": " ++ f.message

end GroupFault

/-- A binary digit. -/
def isBinaryDigit (b : UInt8) : Bool := b == 0x30 || b == 0x31

namespace Segment

variable {k : Width}

/-- The bit list of a field group, which follows the name and has to end with a bracket. -/
def bitListOf? (afterBracket : Text) : Option Text :=
  if afterBracket.getLast? = some 0x5D then some afterBracket.dropLast else none

/-- The segment that a group without white space around it describes. -/
def parse (group : Text) : Except GroupFault (Segment k) :=
  if group.isEmpty then .error .empty
  else if group.all isBinaryDigit then
    match Word.ofBinary group with
    | .error e => .error (.digits group e)
    | .ok value => .ok (.literal (length64 group) value)
  else
    match Text.cut? 0x5B group with
    | none => .error (.form group)
    | some (before, after) =>
      match bitListOf? after with
      | none => .error (.form group)
      | some list =>
        if !isName before.trim then .error (.name group)
        else match BitList.parse list with
          | .error f => .error (.bits before.trim f)
          | .ok dest => .ok (.field before.trim dest)

end Segment

/-! ## Whole descriptions -/

/-- Why a text describes no entry. -/
inductive SourceFault (k : Width) where
  /-- the template is not in quotes -/
  | unquoted (source : Text)
  /-- the quotes are not closed -/
  | unterminated (source : Text)
  /-- no comma follows the template -/
  | separator (source : Text)
  /-- a group is wrong -/
  | group (template : Text) (fault : GroupFault)
  /-- the groups do not make a layout -/
  | entry (template : Text) (fault : EntryFault k)
  deriving DecidableEq

namespace SourceFault

variable {k : Width}

/-- The cause of a fault. -/
def cause : SourceFault k → Cause
  | unquoted _ => .grammar
  | unterminated _ => .grammar
  | separator _ => .grammar
  | group _ f => f.cause
  | entry _ f => f.cause

/-- The full report. -/
def message : SourceFault k → Text
  | unquoted s => s.quoted ++ ": instruction text must be quoted: " ++ Cause.grammar.message
  | unterminated s => s.quoted ++ ": unterminated instruction text: " ++ Cause.grammar.message
  | separator s =>
    s.quoted ++ ": expected ',' after instruction text: " ++ Cause.grammar.message
  | group t f => t.quoted ++ ": " ++ f.message
  | entry t f => f.message t

end SourceFault

namespace Layout

variable {k : Width}

/-- The layout that the groups between commas describe. -/
def parseGroups (t : Text) : Except GroupFault (Layout k) :=
  (Text.pieces 0x2C t).mapM fun g => Segment.parse g.trim

end Layout

namespace Entry

variable {k : Width}

/-- The template text and what follows it in a description without white space around it. -/
def splitSource (source : Text) : Except (SourceFault k) (Text × Text) :=
  match Text.strip? "\"" source with
  | none => .error (.unquoted source)
  | some body =>
    match Text.cut? 0x22 body with
    | none => .error (.unterminated source)
    | some parts => .ok parts

/-- The layout in a description, from what follows the template. It may be missing. -/
def parseLayout (source template rest : Text) : Except (SourceFault k) (Layout k) :=
  match rest.trim with
  | [] => .ok []
  | b :: groups =>
    if b = 0x2C then (Layout.parseGroups groups).mapError (.group template)
    else .error (.separator source)

/-- The entry that a text describes. -/
def parse (t : Text) : Except (SourceFault k) (Entry k) := do
  let source := t.trim
  let (template, rest) ← splitSource source
  let layout ← parseLayout source template rest
  (make layout (Template.parse template)).mapError (.entry template)

end Entry

end Disassembly
