import Disassembly.Command.Flag
import Disassembly.Text.LetterCase

/-!
# Options

What a command line asks for: the settings of its flags, the start address read as a number, and
the program file, of which there is at most one.
-/

namespace Disassembly

/-- The file that is read if none is named. -/
def defaultProgram : Text := "prog.bin"

/-- How the command is used. -/
def usage : Text :=
  "usage: asdis [flags] [file]\n\nDisassembles a RISC-V program image (default prog.bin).\n\n" ++
  "  -dump\n    \tdump the instruction tables to stderr\n" ++
  "  -ext string\n    \textensions the fixed decoder recognizes (default \"IMA\")\n" ++
  "  -j int\n    \tnumber of decode workers (default 4)\n" ++
  "  -mode string\n    \tdecoder for 32-bit words: fixed or table (default \"fixed\")\n" ++
  "  -start string\n    \taddress of the first instruction, in hex (default \"0\")\n" ++
  "  -table string\n    \tfile of compressed instruction descriptions to use instead of the " ++
  "built-in table\n" ++
  "  -v\tlog debug messages\n"

/-- What a command line asks for. -/
structure Options where
  /-- the settings of the flags -/
  settings : Settings
  /-- the address of the first instruction -/
  start : BitVec 32
  /-- the program file -/
  program : Text
  deriving DecidableEq

/-- Why a command line cannot be followed. -/
inductive OptionsError where
  /-- the flags cannot be read -/
  | flag (e : FlagError)
  /-- the start address is no address; `digits` is the part of it that should be the number -/
  | start (given digits : Text) (e : Text.NumeralError)
  /-- there are several files -/
  | files (count : Nat)
  deriving DecidableEq

namespace OptionsError

/-- The full report. -/
def message : OptionsError → Text
  | flag e => e.message
  | start given digits e =>
    "invalid start address " ++ given.quoted ++ ": " ++ e.report digits
  | files count => "expected at most one program file, got " ++ Text.decimal count

/-- What the user is told at once, besides the report on the error. -/
def advice : OptionsError → Text
  | flag .help => usage
  | flag e => e.message ++ "\n" ++ usage
  | start _ _ _ => []
  | files _ => usage

end OptionsError

namespace Options

/-- The address that a text of hexadecimal digits denotes, which may start with `0x`. -/
def readStart (given : Text) : Except OptionsError (BitVec 32) :=
  let lowered := given.lower
  let digits := (Text.strip? "0x" lowered).getD lowered
  match Text.readNumeral 16 0xFFFFFFFF digits with
  | .ok n => .ok (BitVec.ofNat 32 n)
  | .error e => .error (.start given digits e)

/-- Read a command line. -/
def parse (args : List Text) : Except OptionsError Options := do
  let (settings, files) ← (Settings.readFlags {} args).mapError .flag
  let start ← readStart settings.start
  match files with
  | [] => return ⟨settings, start, defaultProgram⟩
  | [file] => return ⟨settings, start, file⟩
  | files => throw (.files files.length)

end Options

end Disassembly
