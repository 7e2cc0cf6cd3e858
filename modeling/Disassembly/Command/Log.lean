import Disassembly.Text.Numeral
import Disassembly.Text.Quoted

/-!
# Log records

What the command reports besides its output. A record has a message and named values.
-/

namespace Disassembly

/-- How important a record is. -/
inductive Level where
  /-- of interest when something is looked into -/
  | debug
  /-- something was left out -/
  | warning
  /-- the command failed -/
  | fatal
  deriving DecidableEq

namespace Level

/-- The name of a level. -/
def name : Level → Text
  | debug => "debug"
  | warning => "warning"
  | fatal => "fatal"

end Level

/-- A value in a record. -/
inductive LogValue where
  /-- a number -/
  | number (n : Nat)
  /-- a text -/
  | text (t : Text)
  deriving DecidableEq

namespace LogValue

/-- A value as the log shows it. -/
def shown : LogValue → Text
  | number n => Text.decimal n
  | text t => t.quoted

end LogValue

/-- A log record. -/
structure LogRecord where
  /-- how important it is -/
  level : Level
  /-- what happened -/
  message : Text
  /-- the details -/
  fields : List (Text × LogValue) := []
  deriving DecidableEq

namespace LogRecord

/-- Whether a record is kept: details only if the log is verbose. -/
def isKept (verbose : Bool) (r : LogRecord) : Bool := verbose || r.level != .debug

/-- A named value on the line of its record. -/
def fieldText (name : Text) (value : LogValue) : Text := " " ++ name ++ "=" ++ value.shown

/-- A record on one line. -/
def line (r : LogRecord) : Text :=
  "level=" ++ r.level.name ++ " msg=" ++ r.message.quoted ++
    r.fields.flatMap (fun f => fieldText f.1 f.2) ++ "\n"

end LogRecord

end Disassembly
