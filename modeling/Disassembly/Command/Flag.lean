import Disassembly.Text.Integer
import Disassembly.Text.Quoted

/-!
# Flags

The flags of the command line. A flag is written `-name` or `--name`; its value follows after `=`
or as the next argument. A switch takes a value only after `=`. The flags end at the first
argument that is none, or after `--`.
-/

namespace Disassembly

/-! ## The flags and their values -/

/-- The values that flags set. -/
structure Settings where
  /-- the address of the first instruction -/
  start : Text := "0"
  /-- the decoder for 32-bit words -/
  mode : Text := "fixed"
  /-- the file with the table of compressed instructions, or nothing -/
  table : Text := []
  /-- the extensions of the fixed decoder -/
  ext : Text := "IMA"
  /-- how many workers decode -/
  workers : Int := 4
  /-- whether to show the tables -/
  dump : Bool := false
  /-- whether to log in detail -/
  verbose : Bool := false
  deriving DecidableEq

/-- A flag. -/
inductive Flag where
  /-- sets `Settings.start` -/
  | start
  /-- sets `Settings.mode` -/
  | mode
  /-- sets `Settings.table` -/
  | table
  /-- sets `Settings.ext` -/
  | ext
  /-- sets `Settings.workers` -/
  | workers
  /-- sets `Settings.dump` -/
  | dump
  /-- sets `Settings.verbose` -/
  | verbose
  deriving DecidableEq

/-- Why the flags of a command line cannot be read. -/
inductive FlagError where
  /-- an argument starts like a flag but has no name -/
  | malformed (arg : Text)
  /-- there is no such flag -/
  | unknown (name : Text)
  /-- help was asked for -/
  | help
  /-- the value of a flag is missing -/
  | missing (name : Text)
  /-- the value of a flag cannot be read -/
  | value (name value : Text) (e : Text.NumeralError)
  /-- the value of a switch is neither true nor false -/
  | switch (name value : Text)
  deriving DecidableEq

namespace FlagError

/-- What is said of a number that cannot be read. -/
def reason : Text.NumeralError → Text
  | .malformed => "parse error"
  | .outOfRange => "value out of range"

/-- The full report. -/
def message : FlagError → Text
  | malformed arg => "bad flag syntax: " ++ arg
  | unknown name => "flag provided but not defined: -" ++ name
  | help => "flag: help requested"
  | missing name => "flag needs an argument: -" ++ name
  | value name v e => "invalid value " ++ v.quoted ++ " for flag -" ++ name ++ ": " ++ reason e
  | switch name v => "invalid boolean value " ++ v.quoted ++ " for -" ++ name ++ ": parse error"

end FlagError

namespace Flag

/-- The name of a flag. -/
def name : Flag → Text
  | start => "start"
  | mode => "mode"
  | table => "table"
  | ext => "ext"
  | workers => "j"
  | dump => "dump"
  | verbose => "v"

/-- All flags. -/
def all : List Flag := [start, mode, table, ext, workers, dump, verbose]

/-- The flag with a name. -/
def ofName? (n : Text) : Option Flag := all.find? (·.name = n)

/-- Whether a flag is a switch. -/
def isSwitch : Flag → Bool
  | dump => true
  | verbose => true
  | _ => false

end Flag

/-- The words that turn a switch on. -/
def trueWords : List Text := ["1", "t", "T", "TRUE", "true", "True"]

/-- The words that turn a switch off. -/
def falseWords : List Text := ["0", "f", "F", "FALSE", "false", "False"]

/-- The value of a switch. -/
def readSwitch? (t : Text) : Option Bool :=
  if trueWords.contains t then some true
  else if falseWords.contains t then some false
  else none

namespace Settings

/-- Set a flag to a value. -/
def set (s : Settings) (f : Flag) (v : Text) : Except FlagError Settings :=
  let switched (put : Bool → Settings) : Except FlagError Settings :=
    match readSwitch? v with
    | some b => .ok (put b)
    | none => .error (.switch f.name v)
  match f with
  | .start => .ok { s with start := v }
  | .mode => .ok { s with mode := v }
  | .table => .ok { s with table := v }
  | .ext => .ok { s with ext := v }
  | .workers =>
    match Text.readInteger v with
    | .ok n => .ok { s with workers := n }
    | .error e => .error (.value f.name v e)
  | .dump => switched fun b => { s with dump := b }
  | .verbose => switched fun b => { s with verbose := b }

end Settings

/-! ## Arguments -/

/-- What an argument is, as far as its own text tells. -/
inductive Argument where
  /-- no flag -/
  | plain
  /-- the mark after which no flags follow -/
  | stop
  /-- something that starts like a flag but has no name -/
  | malformed
  /-- a flag, perhaps with a value -/
  | flag (name : Text) (value : Option Text)
  deriving DecidableEq

namespace Argument

/-- Read what follows the dashes of a flag. The first byte belongs to the name, so that a name is
never empty. -/
def ofBody : Text → Argument
  | [] => malformed
  | b :: t =>
    if b = 0x2D ∨ b = 0x3D then malformed
    else match Text.cut? 0x3D t with
      | some (rest, v) => flag (b :: rest) (some v)
      | none => flag (b :: t) none

/-- Read an argument. -/
def read (t : Text) : Argument :=
  match Text.strip? "-" t with
  | none => plain
  | some [] => plain
  | some body =>
    if body = "-" then stop else ofBody ((Text.strip? "-" body).getD body)

end Argument

namespace Settings

/-- Set flags from arguments, up to the first argument that is no flag. The result has the
arguments that are left. -/
def readFlags (s : Settings) : List Text → Except FlagError (Settings × List Text)
  | [] => .ok (s, [])
  | arg :: rest =>
    match Argument.read arg with
    | .plain => .ok (s, arg :: rest)
    | .stop => .ok (s, rest)
    | .malformed => .error (.malformed arg)
    | .flag name value =>
      match Flag.ofName? name with
      | none => .error (if name = "help" ∨ name = "h" then .help else .unknown name)
      | some f =>
        match value, rest with
        | some v, rest => do (← s.set f v).readFlags rest
        | none, rest =>
          if f.isSwitch then do (← s.set f "true").readFlags rest
          else match rest with
            | [] => .error (.missing name)
            | v :: rest => do (← s.set f v).readFlags rest

end Settings

end Disassembly
