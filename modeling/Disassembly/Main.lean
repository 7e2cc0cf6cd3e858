import Disassembly.Command.Run

/-!
# The command line program

Reads the files that a command line names, runs the command on them and writes what it gives.
-/

namespace Disassembly

/-- The contents of a file, if it can be read. -/
def readFile? (name : Text) : IO (Option Text) := do
  match String.fromUTF8? ⟨name.toArray⟩ with
  | none => return none
  | some path =>
    try
      return some (← IO.FS.readBinFile path).data.toList
    catch _ => return none

/-- The directory of the named files. -/
def readDirectory (names : List Text) : IO Directory := do
  let files ← names.mapM fun name => return (name, ← readFile? name)
  return fun name => (files.lookup name).join

/-- The files that a command line needs. -/
def neededFiles (args : List Text) : List Text :=
  match Options.parse args with
  | .ok o => [o.settings.table, o.program]
  | .error _ => []

/-- Write bytes to a stream. -/
def writeText (stream : IO.FS.Stream) (t : Text) : IO Unit := stream.write ⟨t.toArray⟩

/-- A dump with an entry or operation on each line. -/
def dumpLines : Dumper
  | .entries es => es.flatMap fun e => e.text ++ "\n"
  | .operations os => os.flatMap fun o => o.name ++ "\n"

/-- Follow a command line and give the exit code. -/
def execute (args : List Text) : IO UInt32 := do
  let dir ← readDirectory (neededFiles args)
  let outcome := (run args dir {}).logged
  writeText (← IO.getStderr) (outcome.remarks dumpLines ++ outcome.log.flatMap LogRecord.line)
  writeText (← IO.getStdout) outcome.stdout
  return UInt32.ofNat outcome.exitCode

end Disassembly

/-- The entry point of the program. -/
def main (args : List String) : IO UInt32 :=
  Disassembly.execute (args.map Disassembly.Text.ofString)
