import Disassembly.Entry.Source
import Disassembly.Table.Basic
import Disassembly.Text.Lines

/-!
# Tables from text

A table is written with one description on a line. Blank lines do not matter, nor does anything
from a `#` on that stands outside of quotes. The first line that is wrong ends the reading, with
an error that gives its number.
-/

namespace Disassembly

/-- Why a table cannot be read. -/
inductive LoadError (k : Width) where
  /-- the description on a line is wrong; lines are counted from one -/
  | line (number : Nat) (fault : SourceFault k)
  /-- a line is too long -/
  | overlong
  /-- the text breaks off with an error of the reader's -/
  | unreadable (reason : Text)
  deriving DecidableEq

namespace LoadError

variable {k : Width}

/-- The full report. -/
def message : LoadError k → Text
  | line n f => "line " ++ Text.decimal n ++ ": " ++ f.message
  | overlong => "failed to read instruction table: bufio.Scanner: token too long"
  | unreadable reason => "failed to read instruction table: " ++ reason

end LoadError

/-- A line up to the first `#` outside of quotes, given whether its start is inside. -/
def dropCommentFrom (done : Text) (quoted : Bool) : Text → Text
  | [] => done.reverse
  | b :: t =>
    if b = 0x23 ∧ quoted = false then done.reverse
    else dropCommentFrom (b :: done) (if b = 0x22 then !quoted else quoted) t

/-- A line without its comment. -/
def dropComment (line : Text) : Text := dropCommentFrom [] false line

namespace Table

variable {k : Width}

/-- The entries of lines that are numbered from `number` on, after the entries `done`, the last of
them first. -/
def readEntries (done : List (Entry k)) (number : Nat) :
    List Text → Except (LoadError k) (List (Entry k))
  | [] => .ok done.reverse
  | line :: rest =>
    let source := (dropComment line).trim
    if source.isEmpty then readEntries done (number + 1) rest
    else match Entry.parse source with
      | .error f => .error (.line number f)
      | .ok e => readEntries (e :: done) (number + 1) rest

/-- The table that a text describes. `failure` is the error, if any, with which the text breaks
off; it counts after all that could be read. -/
def load (formatters : Formatters) (t : Text) (failure : Option Text) :
    Except (LoadError k) (Table k) := do
  let reading := t.readLines
  let entries ← readEntries [] 1 reading.lines
  if reading.overlong then throw .overlong
  match failure with
  | some reason => throw (.unreadable reason)
  | none => return ⟨entries, formatters⟩

end Table

end Disassembly
