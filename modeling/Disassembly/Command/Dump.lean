import Disassembly.Entry.Basic
import Disassembly.Fixed.Operation

/-!
# Dumps

The command can show its tables in full, for inspection. How it does so is up to a dumper, of which
nothing is known here: what the command hands to it are the tables.
-/

namespace Disassembly

/-- A table that is shown in full. -/
inductive Dumped where
  /-- the entries of a table -/
  | entries {k : Width} (es : List (Entry k))
  /-- the operations of an opcode table -/
  | operations (os : List Operation)

/-- A way to show tables in full. -/
abbrev Dumper := Dumped → Text

/-- What the command tells the user besides the listing and the log. -/
inductive Remark where
  /-- a text -/
  | text (t : Text)
  /-- a table in full -/
  | dump (d : Dumped)

namespace Remark

/-- A remark as it is shown, dumps by the given dumper. -/
def shown (dumper : Dumper) : Remark → Text
  | text t => t
  | dump d => dumper d

end Remark

end Disassembly
