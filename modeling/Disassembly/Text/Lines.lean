import Disassembly.Text.Basic

/-!
# Lines

A text is read line by line through a buffer. A line ends with a line feed, which a carriage
return may precede; the last line need not be ended. The buffer sets a limit: the reader stops at
a line that fills it.

* `Text.lines` cuts a text into its lines, still with their carriage returns;
* `Text.readLines` is what the reader delivers.
-/

namespace Disassembly

namespace Text

/-- The lines of a text without their line feeds. What follows the last line feed is a line only
if it is not empty. -/
def lines (t : Text) : List Text :=
  let ps := pieces 0x0A t
  if ps.getLast? = some [] then ps.dropLast else ps

/-- A line without the carriage return at its end. -/
def dropReturn (line : Text) : Text :=
  if line.getLast? = some 0x0D then line.dropLast else line

/-- How many bytes of a line the reader can hold, the line feed not counted. -/
def lineCapacity : Nat := 65535

/-- What the reader delivers: the lines before the first one that is too long, and whether there
is such a line. -/
structure Reading where
  /-- the lines read, without their carriage returns -/
  lines : List Text
  /-- whether reading stopped at a line that does not fit -/
  overlong : Bool

/-- Read a text line by line. -/
def readLines (t : Text) : Reading :=
  let fitting := t.lines.takeWhile (·.length ≤ lineCapacity)
  ⟨fitting.map dropReturn, fitting.length < t.lines.length⟩

end Text

end Disassembly
