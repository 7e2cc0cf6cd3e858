import Disassembly.Name

/-!
# Templates

The text of an instruction, such as `c.lw rd, imm(rs1)`, is a template: its names after the first
one, the mnemonic, stand for field values.

* `Text.lexemes` finds the names of a text, from left to right and each as long as possible;
* `Template.parse` makes the template of a text, `Template.text` gives the text back.
-/

namespace Disassembly

/-! ## Names in a text -/

/-- A name in a text, or a byte that belongs to no name. -/
inductive Lexeme where
  /-- a name, as long as possible -/
  | name (n : Text)
  /-- a byte outside of names -/
  | byte (b : UInt8)
  deriving DecidableEq

namespace Lexeme

/-- The bytes of a lexeme. -/
def bytes : Lexeme → Text
  | name n => n
  | byte b => [b]

/-- The name that a lexeme is. -/
def name? : Lexeme → Option Text
  | name n => some n
  | byte _ => none

/-- Whether a lexeme is a single byte. -/
def isByte : Lexeme → Bool
  | name _ => false
  | byte _ => true

/-- Put a name in front of lexemes that are listed the last first. The name is given the last byte
first too, and may be missing. -/
def close (word : Text) (done : List Lexeme) : List Lexeme :=
  if word.isEmpty then done else name word.reverse :: done

theorem bytes_close (word : Text) (done : List Lexeme) :
    (close word done).reverse.flatMap bytes = done.reverse.flatMap bytes ++ word.reverse := by
  unfold close
  cases word <;> simp [bytes]

end Lexeme

namespace Text

/-- The lexemes of a text that follows the lexemes `done` and the bytes `word` of a name not yet
at its end, both the last first. -/
def lexemesAfter (done : List Lexeme) (word : Text) : Text → List Lexeme
  | [] => (Lexeme.close word done).reverse
  | b :: t =>
    if isLetter b || (!word.isEmpty && isNameByte b) then lexemesAfter done (b :: word) t
    else lexemesAfter (.byte b :: Lexeme.close word done) [] t

/-- The lexemes of a text, from left to right. -/
def lexemes (t : Text) : List Lexeme := lexemesAfter [] [] t

theorem bytes_lexemesAfter (done : List Lexeme) (word t : Text) :
    (lexemesAfter done word t).flatMap Lexeme.bytes =
      done.reverse.flatMap Lexeme.bytes ++ word.reverse ++ t := by
  induction t generalizing done word with
  | nil => simp [lexemesAfter, Lexeme.bytes_close]
  | cons b t ih =>
    unfold lexemesAfter
    split
    · rw [ih]
      simp
    · rw [ih, List.reverse_cons, List.flatMap_append, Lexeme.bytes_close]
      simp [Lexeme.bytes]

/-- The lexemes of a text are all of it. -/
theorem bytes_lexemes (t : Text) : t.lexemes.flatMap Lexeme.bytes = t := by
  have h := bytes_lexemesAfter [] [] t
  simpa [lexemes] using h

end Text

/-! ## Templates -/

/-- One piece of a template. -/
inductive Part where
  /-- text that is shown as it is -/
  | text (t : Text)
  /-- a reference to the field of that name -/
  | field (name : Text)
  deriving DecidableEq

namespace Part

/-- The text that a part was written as. -/
def source : Part → Text
  | text t => t
  | field name => name

/-- The field that a part refers to. -/
def name? : Part → Option Text
  | text _ => none
  | field name => some name

end Part

/-- The text of an instruction, with places for field values. -/
abbrev Template := List Part

namespace Template

/-- Put text in front of a template. It joins text that is already there, so that no two pieces
of text are neighbours, and no piece is empty. -/
def addText (t : Text) (parts : Template) : Template :=
  if t.isEmpty then parts
  else match parts with
    | .text u :: rest => .text (t ++ u) :: rest
    | parts => .text t :: parts

/-- Put a lexeme after the mnemonic in front of a template. -/
def addLexeme (x : Lexeme) (parts : Template) : Template :=
  match x with
  | .name n => .field n :: parts
  | .byte b => addText [b] parts

/-- The template of a text given by its lexemes: the first name belongs to the text, and every
later one is a reference. -/
def ofLexemes (xs : List Lexeme) : Template :=
  match xs.dropWhile Lexeme.isByte with
  | [] => addText (xs.flatMap Lexeme.bytes) []
  | mnemonic :: rest =>
    addText ((xs.takeWhile Lexeme.isByte).flatMap Lexeme.bytes ++ mnemonic.bytes)
      (rest.foldr addLexeme [])

/-- The template of a text. -/
def parse (t : Text) : Template := ofLexemes t.lexemes

/-- The names of the fields that a template refers to, in order. -/
def names (parts : Template) : List Text := parts.filterMap Part.name?

/-- The text that a template was made of. -/
def text (parts : Template) : Text := parts.flatMap Part.source

@[simp]
theorem text_nil : text [] = [] := rfl

@[simp]
theorem text_cons (p : Part) (parts : Template) : text (p :: parts) = p.source ++ text parts := by
  simp [text]

@[simp]
theorem text_addText (t : Text) (parts : Template) : text (addText t parts) = t ++ text parts := by
  unfold addText
  split
  · simp_all
  · split <;> simp [Part.source]

theorem text_foldr_addLexeme (xs : List Lexeme) :
    text (xs.foldr addLexeme []) = xs.flatMap Lexeme.bytes := by
  induction xs with
  | nil => rfl
  | cons x xs ih => cases x <;> simp [addLexeme, Lexeme.bytes, Part.source, ih]

theorem text_ofLexemes (xs : List Lexeme) : text (ofLexemes xs) = xs.flatMap Lexeme.bytes := by
  have whole := @List.takeWhile_append_dropWhile Lexeme Lexeme.isByte xs
  unfold ofLexemes
  split
  · simp
  · rename_i mnemonic rest h
    rw [text_addText, text_foldr_addLexeme, ← congrArg (List.flatMap Lexeme.bytes) whole, h]
    simp

/-- A template keeps the text that it was made of. -/
theorem text_parse (t : Text) : text (parse t) = t := by
  rw [parse, text_ofLexemes, Text.bytes_lexemes]

end Template

end Disassembly
