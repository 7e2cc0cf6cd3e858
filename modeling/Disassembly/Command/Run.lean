import Disassembly.Command.Dump
import Disassembly.Command.Log
import Disassembly.Command.Options
import Disassembly.Fixed.Assembly
import Disassembly.Listing
import Disassembly.Table.BaseInteger
import Disassembly.Table.Compressed
import Disassembly.Table.Load

/-!
# The command

`run` follows a command line: it sets up the decoders, reads the program and writes its listing.
The files and the output are data, so that everything the command does shows in its result:

* the decoders are set up first, by `compactTable` and `wideDecoder`;
* the whole listing is made before its first line is written, so an error leaves the output empty,
  unless writing itself fails;
* what is logged up to an error stays logged.
-/

namespace Disassembly

/-- The files of a directory by name. -/
abbrev Directory := Text → Option Text

/-- Where the listing goes: it takes all lines, or a number of them and then fails. -/
structure Sink where
  /-- how many lines there is room for, if that is limited -/
  capacity : Option Nat := none
  /-- what is said when a line finds no room -/
  failure : Text := []

/-- Why the command fails. -/
inductive RunError where
  /-- the command line cannot be followed -/
  | options (e : OptionsError)
  /-- there is no such table file -/
  | tableMissing (file : Text)
  /-- the table file cannot be read -/
  | table (file : Text) (e : LoadError .compact)
  /-- the built-in table of compressed instructions cannot be read -/
  | compressed (e : Table.CompressedError)
  /-- the built-in table of base integer instructions cannot be read -/
  | baseInteger (e : LoadError .full)
  /-- there is no such extension -/
  | extension (e : UnknownExtension)
  /-- there is no such decoder -/
  | mode (mode : Text)
  /-- there is no such program file -/
  | programMissing (file : Text)
  /-- the listing was not completed -/
  | listing (e : ListingError)
  /-- a line could not be written -/
  | write (reason : Text)
  deriving DecidableEq

namespace RunError

/-- What is said of a file that does not exist. -/
def missing (file : Text) : Text := "open " ++ file ++ ": no such file or directory"

/-- The full report. -/
def message : RunError → Text
  | options e => e.message
  | tableMissing file => "failed to open instruction table: " ++ missing file
  | table file e => "failed to load " ++ file ++ ": " ++ e.message
  | compressed e => e.message
  | baseInteger e => "RV32I table: " ++ e.message
  | extension e => "invalid -ext: " ++ e.message
  | mode m => "unknown -mode " ++ m.quoted
  | programMissing file => "failed to read program: " ++ missing file
  | listing e => e.message
  | write reason => "failed to write listing: " ++ reason

end RunError

/-! ## Setting up -/

/-- The table of compressed instructions that the settings ask for, and what is logged about it. -/
def compactTable (s : Settings) (dir : Directory) :
    Except RunError (Table .compact × LogRecord) :=
  if s.table.isEmpty then
    match Table.loadCompressed with
    | .error e => .error (.compressed e)
    | .ok t => .ok (t, ⟨.debug, "built instruction table",
        [("table", .text "RV32C"), ("entries", .number t.entries.length)]⟩)
  else match dir s.table with
    | none => .error (.tableMissing s.table)
    | some source =>
      match Table.load Table.compressedFormatters source none with
      | .error e => .error (.table s.table e)
      | .ok t => .ok (t, ⟨.debug, "loaded instruction table",
          [("file", .text s.table), ("entries", .number t.entries.length)]⟩)

/-- A decoder of 32-bit words. -/
structure WideDecoder where
  /-- the text of a word -/
  text : BitVec 32 → Text
  /-- what is logged about the decoder -/
  record : LogRecord
  /-- its table, to be shown in full -/
  dump : Dumped

/-- The decoder that a mode asks for. Extensions matter to the fixed decoder only. -/
def wideDecoder (mode ext : Text) : Except RunError WideDecoder :=
  if mode = "fixed" then
    match Standards.ofExtensions ext with
    | .error e => .error (.extension e)
    | .ok ss =>
      let t := OpcodeTable.ofStandards ss
      .ok ⟨t.textOf, ⟨.debug, "built opcode table",
        [("standards", .text ss.text), ("ops", .number t.ops.length)]⟩,
        .operations t.ops⟩
  else if mode = "table" then
    match Table.loadBaseInteger with
    | .error e => .error (.baseInteger e)
    | .ok t =>
      .ok ⟨t.textOf, ⟨.debug, "built instruction table",
        [("table", .text "RV32I"), ("entries", .number t.entries.length)]⟩,
        .entries t.entries⟩
  else .error (.mode mode)

/-- Without a table file, the built-in table is taken. -/
theorem exists_compactTable {s : Settings} (h : s.table = []) (dir : Directory) :
    ∃ r, compactTable s dir = .ok (Table.compressed, r) := by
  rw [compactTable, h, List.isEmpty_nil, if_pos rfl, Table.loadCompressed_eq]
  exact ⟨_, rfl⟩

theorem exists_wideDecoder (ext : Text) :
    ∃ d, wideDecoder "table" ext = .ok d ∧ d.text = Table.baseInteger.textOf := by
  rw [wideDecoder, if_neg (by decide), if_pos rfl, Table.loadBaseInteger_eq]
  refine ⟨_, rfl, ?_⟩
  rfl

/-! ## Running -/

/-- What the command has done. -/
structure Outcome where
  /-- why it failed, if it did -/
  error : Option RunError := none
  /-- what it wrote -/
  stdout : Text := []
  /-- what it told the user besides -/
  stderr : List Remark := []
  /-- what it logged -/
  log : List LogRecord := []

namespace Sink

/-- Write lines as far as there is room. -/
def write (sink : Sink) (lines : List Text) : Text × Option RunError :=
  let ended (ls : List Text) : Text := ls.flatMap fun l => l ++ "\n"
  match sink.capacity with
  | none => (ended lines, none)
  | some n =>
    if n < lines.length then (ended (lines.take n), some (.write sink.failure))
    else (ended lines, none)

end Sink

/-- Read the program and write its listing with decoders that are set up; `log` and `stderr` are
what came of setting them up. -/
def runProgram (o : Options) (d : Disassembler) (dir : Directory) (sink : Sink)
    (log : List LogRecord) (stderr : List Remark) : Outcome :=
  match dir o.program with
  | none => { error := some (.programMissing o.program), stderr, log }
  | some image =>
    let program := Program.split o.start image
    let log := log ++
      ⟨.debug, "read program", [("file", .text o.program), ("bytes", .number image.length),
        ("start", .text (addressText o.start))]⟩ ::
      program.rest.toList.map fun e =>
        ⟨.warning, "ignoring trailing bytes", [("error", .text e.message)]⟩
    match listing d program.words false with
    | .error e => { error := some (.listing e), stderr, log }
    | .ok lines =>
      let (stdout, error) := sink.write lines
      { error, stdout, stderr, log }

/-- Set up the decoders and run, keeping the whole log. -/
def runOptions (o : Options) (dir : Directory) (sink : Sink) : Outcome :=
  match compactTable o.settings dir with
  | .error e => { error := some e }
  | .ok (table, record) =>
    match wideDecoder o.settings.mode o.settings.ext with
    | .error e => { error := some e, log := [record] }
    | .ok wide =>
      let dumps := if o.settings.dump then [.dump (.entries table.entries), .dump wide.dump] else []
      runProgram o ⟨table.textOf, wide.text⟩ dir sink [record, wide.record] dumps

/-- Follow a command line. -/
def run (args : List Text) (dir : Directory) (sink : Sink) : Outcome :=
  match Options.parse args with
  | .error e => { error := some (.options e), stderr := [.text e.advice] }
  | .ok o =>
    let outcome := runOptions o dir sink
    { outcome with log := outcome.log.filter (LogRecord.isKept o.settings.verbose) }

namespace Outcome

/-- Whether the command did what was asked for. A request for help is always met. -/
def succeeded (r : Outcome) : Bool :=
  match r.error with
  | none => true
  | some (.options (.flag .help)) => true
  | some _ => false

/-- The outcome as the command ends with it: a failure is the last thing that is logged. -/
def logged (r : Outcome) : Outcome :=
  match r.error with
  | some e => if r.succeeded then r else { r with log := r.log ++ [⟨.fatal, e.message, []⟩] }
  | none => r

/-- What the command told the user besides, as it is shown. -/
def remarks (r : Outcome) (dumper : Dumper) : Text := r.stderr.flatMap (Remark.shown dumper)

/-- The exit code of the command. -/
def exitCode (r : Outcome) : Nat := if r.succeeded then 0 else 1

end Outcome

end Disassembly
