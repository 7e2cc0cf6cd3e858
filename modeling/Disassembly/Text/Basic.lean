/-!
# Text as bytes

Everything the library reads or writes is a `Text`, the list of its bytes. Input need not be
well-formed UTF-8, and a message has to repeat it unchanged, so bytes rather than characters are
the common currency; `Disassembly.Text.Symbol` gives the view as characters.

* `Text.ofString` turns a string of Lean into its UTF-8 bytes; it is also a coercion, so that
  `"line " ++ t` is a text;
* `Text.pieces` cuts at every occurrence of a byte, `Text.cut?` at the first one;
* `Text.joinWith` puts a separator between texts.
-/

namespace Disassembly

/-- A text is the list of its bytes. -/
abbrev Text := List UInt8

namespace Text

/-- The UTF-8 bytes of a string. -/
@[coe]
def ofString (s : String) : Text := s.toByteArray.data.toList

instance : Coe String Text := ⟨ofString⟩

/-- One byte further to the left: a separator opens a new piece, any other byte joins the piece
that follows it. -/
def splitStep (sep b : UInt8) (pieces : List Text) : List Text :=
  if b = sep then [] :: pieces
  else match pieces with
    | [] => [[b]]
    | piece :: rest => (b :: piece) :: rest

/-- The pieces of a text between the occurrences of `sep`. There is always at least one piece, and
pieces may be empty. -/
def pieces (sep : UInt8) (t : Text) : List Text :=
  t.foldr (splitStep sep) [[]]

@[simp]
theorem pieces_nil (sep : UInt8) : pieces sep [] = [[]] := rfl

theorem pieces_cons (sep b : UInt8) (t : Text) :
    pieces sep (b :: t) = splitStep sep b (pieces sep t) := rfl

/-- There is always a first piece. -/
theorem pieces_ne_nil (sep : UInt8) (t : Text) : pieces sep t ≠ [] := by
  cases t with
  | nil => simp
  | cons b t =>
    rw [pieces_cons]
    unfold splitStep
    split
    · simp
    · split <;> simp

/-- The text before the first `sep` and the text after it, if there is one. -/
def cut? (sep : UInt8) (t : Text) : Option (Text × Text) :=
  match t.dropWhile (· != sep) with
  | [] => none
  | _ :: after => some (t.takeWhile (· != sep), after)

/-- The texts in order with `sep` between neighbours. -/
def joinWith (sep : Text) (texts : List Text) : Text :=
  sep.intercalate texts

/-- Cutting a text into pieces loses nothing. -/
theorem joinWith_pieces (sep : UInt8) (t : Text) : joinWith [sep] (pieces sep t) = t := by
  induction t with
  | nil => rfl
  | cons b t ih =>
    rw [pieces_cons]
    unfold splitStep
    cases h : pieces sep t with
    | nil => exact absurd h (pieces_ne_nil sep t)
    | cons p ps =>
      rw [h] at ih
      subst ih
      split
      · subst_vars
        simp [joinWith, List.intercalate]
      · cases ps <;> simp [joinWith, List.intercalate]

/-- A text that starts with `lead`, without it. -/
def strip? (lead t : Text) : Option Text :=
  if t.take lead.length = lead then some (t.drop lead.length) else none

end Text

end Disassembly
