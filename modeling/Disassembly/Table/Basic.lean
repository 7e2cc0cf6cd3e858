import Disassembly.Entry.Basic
import Disassembly.Template.Render

/-!
# Instruction tables

A table is an ordered list of entries with the formatters for their fields. The first entry that
matches a word decides what the word means, so special encodings stand before general ones.
-/

namespace Disassembly

/-- What can be read, once it is known that it can. -/
theorem eq_ok_get {ε α : Type} {read : Except ε α} (h : read.toOption.isSome = true) :
    read = .ok (read.toOption.get h) := by
  cases read with
  | error e => cases h
  | ok a => rfl

/-- Entries in the order in which they are tried, and how their fields are shown. -/
structure Table (k : Width) where
  /-- the entries -/
  entries : List (Entry k) := []
  /-- the formatters -/
  formatters : Formatters := []

/-- An entry whose fields cannot be read, because its layout is not valid. -/
structure EntryError (k : Width) where
  /-- the entry -/
  entry : Entry k
  /-- what is wrong with it -/
  fault : ReadFault
  deriving DecidableEq

namespace EntryError

/-- The full report. -/
def message {k : Width} (e : EntryError k) : Text := e.entry.readReport e.fault

end EntryError

namespace Table

variable {k : Width}

/-- The text for a word that no entry matches. -/
def notFound (k : Width) : Text := k.name ++ ". Not found!"

/-- The first entry that matches a word. -/
def find? (t : Table k) (w : Word k) : Option (Entry k) :=
  t.entries.find? fun e => decide (e.Matches w)

/-- The place of the first entry that matches a word. -/
def findIdx? (t : Table k) (w : Word k) : Option Nat :=
  t.entries.findIdx? fun e => decide (e.Matches w)

/-- The first entry that matches a word, with the values of its fields. -/
def lookup (t : Table k) (w : Word k) : Except (EntryError k) (Option (Entry k × Fields)) :=
  match t.find? w with
  | none => .ok none
  | some e =>
    match e.fields w with
    | .ok fs => .ok (some (e, fs))
    | .error f => .error ⟨e, f⟩

/-- The text of a word. -/
def decode (t : Table k) (w : Word k) : Except (EntryError k) Text :=
  (t.lookup w).map fun
    | none => notFound k
    | some (e, fs) => e.template.render fs t.formatters

/-- The text of a word, in which the report on a broken entry takes the place of the text. -/
def textOf (t : Table k) (w : Word k) : Text :=
  match t.decode w with
  | .ok text => text
  | .error e => e.message

end Table

end Disassembly
