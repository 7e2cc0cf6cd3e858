import Disassembly.Listing
import Disassembly.Proofs.Program.Splitting
import Disassembly.Proofs.Text.Column
import Disassembly.Proofs.Text.OneLine

/-!
# Reading a line back

The first column of a line is the address of its word and the last one the word itself, whatever
text stands between them. `Text.lineAddress?` and `Text.lineBytes?` read them from a line that
somebody found in a listing, and on the line of a word they give what the line was made of
(`CodeWord.lineAddress?_line`, `CodeWord.lineBytes?_line`).

Nothing is asked of the text, which may have spaces and digits of its own and may be longer than its
column. Once the columns at both ends are known, what is left over is the column of the text, so a
line tells the word and all of the text but its trailing spaces (`CodeWord.line_eq_iff`).
-/

namespace Disassembly

open Text

namespace Text

/-- Lines, each of them ended by a line feed. -/
def ofLines (ls : List Text) : Text := ls.flatMap fun l => l ++ [0x0A]

/-- The address that a line starts with: `0x` and eight digits. -/
def lineAddress? (l : Text) : Option Nat :=
  match strip? "0x" l with
  | none => none
  | some rest =>
    if 8 ≤ rest.length then (readNumeral 16 0xFFFFFFFF (rest.take 8)).toOption else none

/-- What follows the last space of a line. -/
def afterLastSpace (l : Text) : Text := (l.reverse.takeWhile (· != 0x20)).reverse

/-- The bytes of the word that a line ends with: after the last space there is `0x` and a number of
four or eight digits, two for each byte, and the low byte is the first in an image. -/
def lineBytes? (l : Text) : Option Text :=
  match strip? "0x" l.afterLastSpace with
  | none => none
  | some digits =>
    if digits.length = 4 ∨ digits.length = 8 then
      (readNumeral 16 0xFFFFFFFF digits).toOption.map fun n =>
        littleEndian (digits.length / 2) (BitVec.ofNat 32 n)
    else none

theorem afterLastSpace_append (t : Text) {u : Text} (hu : 0x20 ∉ u) :
    afterLastSpace (t ++ 0x20 :: u) = u := by
  have hall : ∀ b ∈ u.reverse, (b != 0x20) = true := by
    intro b hb
    simpa using fun h : b = 0x20 => hu (h ▸ List.mem_reverse.mp hb)
  rw [afterLastSpace, List.reverse_append, List.reverse_cons, List.append_assoc,
    List.takeWhile_append_of_pos hall]
  simp

/-- A hexadecimal number of 32 bits is read back. -/
theorem readNumeral_zeroPad_hex (width : Nat) (v : BitVec 32) :
    (readNumeral 16 0xFFFFFFFF (zeroPad width (hex v.toNat))).toOption = some v.toNat := by
  rw [hex, readNumeral_zeroPad (by decide) (by decide) width (by have := v.isLt; omega)]
  rfl

end Text

/-- Eight digits are enough for every address. -/
theorem length_addressDigits (a : BitVec 32) : (zeroPad 8 (hex a.toNat)).length = 8 :=
  length_zeroPad_digits (by decide) (by decide) a.isLt

theorem length_addressText (a : BitVec 32) : (addressText a).length = 10 := by
  rw [addressText, List.length_append, length_addressDigits]
  rfl

namespace CodeWord

/-- A word of two or four bytes that has no bits beyond them. What its low bits are does not
matter for a line. -/
structure Fits (w : CodeWord) : Prop where
  size_cases : w.size = 2 ∨ w.size = 4
  raw_lt : w.raw.toNat < 2 ^ (8 * w.size.toNat)

instance (w : CodeWord) : Decidable w.Fits :=
  decidable_of_iff (_ ∧ _) ⟨fun h => ⟨h.1, h.2⟩, fun h => ⟨h.size_cases, h.raw_lt⟩⟩

theorem Sized.fits {w : CodeWord} (hw : w.Sized) : w.Fits :=
  ⟨hw.size_cases.symm, hw.raw_lt⟩

/-- There are two digits for each byte. -/
theorem Fits.zeroField_eq {w : CodeWord} (hw : w.Fits) :
    zeroField (wrap64 (w.size * 2)) (hex w.raw.toNat) =
      zeroPad (2 * w.size.toNat) (hex w.raw.toNat) := by
  rcases hw.size_cases with hsize | hsize
  · rw [hsize]
    rfl
  · rw [hsize]
    rfl

theorem Fits.length_zeroPad {w : CodeWord} (hw : w.Fits) :
    (zeroPad (2 * w.size.toNat) (hex w.raw.toNat)).length = 2 * w.size.toNat := by
  have hsize := hw.size_cases
  refine length_zeroPad_digits (by decide) ?_ ?_
  · omega
  · calc w.raw.toNat < 2 ^ (8 * w.size.toNat) := hw.raw_lt
      _ = 16 ^ (2 * w.size.toNat) := by
        rw [show 16 = 2 ^ 4 from rfl, ← Nat.pow_mul]
        congr 1
        omega

theorem oneLine_line {w : CodeWord} (hw : w.Sized) {text : Text} (htext : text.OneLine) :
    (w.line text).OneLine := by
  have hdigits : ∀ width n, (zeroPad width (hex n)).OneLine := fun width n =>
    oneLine_of_isSolid (isSolid_zeroPad (by decide) (by decide) width n)
  rw [line, hw.fits.zeroField_eq, addressText]
  simp only [oneLine_append, oneLine_padRight]
  exact ⟨⟨⟨⟨⟨by decide, hdigits _ _⟩, by decide⟩, htext⟩, by decide⟩, hdigits _ _⟩

/-- The first column of a line is the address. -/
theorem lineAddress?_line (w : CodeWord) (text : Text) :
    lineAddress? (w.line text) = some w.address.toNat := by
  have hlength := length_addressDigits w.address
  obtain ⟨rest, hrest⟩ : ∃ rest,
      w.line text = "0x" ++ (zeroPad 8 (hex w.address.toNat) ++ rest) := by
    simp only [line, addressText, List.append_assoc]
    exact ⟨_, rfl⟩
  rw [hrest, lineAddress?, strip?_append]
  simp only
  rw [if_pos (by simp [hlength]), List.take_append_of_le_length (by omega),
    List.take_of_length_le (by omega), readNumeral_zeroPad_hex]

theorem Fits.afterLastSpace_line {w : CodeWord} (hw : w.Fits) (text : Text) :
    (w.line text).afterLastSpace = "0x" ++ zeroPad (2 * w.size.toNat) (hex w.raw.toNat) := by
  obtain ⟨before, hline⟩ : ∃ before, w.line text =
      before ++ 0x20 :: (ofString "0x" ++ zeroPad (2 * w.size.toNat) (hex w.raw.toNat)) := by
    rw [line, hw.zeroField_eq, show ofString " 0x" = 0x20 :: ofString "0x" from rfl,
      List.append_assoc]
    exact ⟨_, rfl⟩
  rw [hline]
  refine afterLastSpace_append before fun hmem => ?_
  rcases List.mem_append.mp hmem with hmem | hmem
  · revert hmem
    decide
  · have := isSolid_zeroPad (by decide) (by decide) _ _ _ hmem
    contradiction

/-- The last column of a line is the word. -/
theorem lineBytes?_line {w : CodeWord} (hw : w.Fits) (text : Text) :
    lineBytes? (w.line text) = some w.bytes := by
  have hlength := hw.length_zeroPad
  have hsize := hw.size_cases
  rw [lineBytes?, hw.afterLastSpace_line, strip?_append]
  simp only
  rw [if_pos (by omega), readNumeral_zeroPad_hex, hlength, Nat.mul_div_cancel_left _ (by decide),
    Option.map_some, BitVec.ofNat_toNat, BitVec.setWidth_eq, bytes]

/-! ## Lines that are the same -/

/-- The first and the last column tell the word. -/
theorem eq_of_line_eq {w w' : CodeWord} (hw : w.Fits) (hw' : w'.Fits) {t t' : Text}
    (h : w.line t = w'.line t') : w = w' := by
  have haddress : w.address = w'.address := by
    have hread := congrArg lineAddress? h
    rw [lineAddress?_line, lineAddress?_line] at hread
    exact BitVec.eq_of_toNat_eq (Option.some.inj hread)
  have hdigits : zeroPad (2 * w.size.toNat) (hex w.raw.toNat) =
      zeroPad (2 * w'.size.toNat) (hex w'.raw.toNat) := by
    have hlast := congrArg afterLastSpace h
    rw [hw.afterLastSpace_line, hw'.afterLastSpace_line] at hlast
    exact List.append_cancel_left hlast
  have hsize : w.size = w'.size := by
    have hlength := congrArg List.length hdigits
    rw [hw.length_zeroPad, hw'.length_zeroPad] at hlength
    have := hw.size_cases
    have := hw'.size_cases
    omega
  have hraw : w.raw = w'.raw := by
    have hread := congrArg (fun u => (readNumeral 16 0xFFFFFFFF u).toOption) hdigits
    simp only [readNumeral_zeroPad_hex] at hread
    exact BitVec.eq_of_toNat_eq (Option.some.inj hread)
  cases w
  cases w'
  rw [mk.injEq]
  exact ⟨haddress, hraw, hsize⟩

/-- Lines are the same exactly if the words are, and the texts are or cannot be told apart in their
column. -/
theorem line_eq_iff {w w' : CodeWord} (hw : w.Fits) (hw' : w'.Fits) (t t' : Text) :
    w.line t = w'.line t' ↔ w = w' ∧
      (t = t' ∨ t.symbolCount ≤ instructionWidth ∧ t'.symbolCount ≤ instructionWidth ∧
        t.withoutTrailingSpaces = t'.withoutTrailingSpaces) := by
  rw [← padRight_eq_iff]
  constructor
  · intro h
    obtain rfl := eq_of_line_eq hw hw' h
    refine ⟨rfl, ?_⟩
    rw [line, line] at h
    exact List.append_cancel_left (List.append_cancel_right (List.append_cancel_right h))
  · rintro ⟨rfl, h⟩
    rw [line, line, h]

/-- Around the column of the text there is nothing but ASCII, a symbol for each byte. -/
theorem Fits.symbolCount_line {w : CodeWord} (hw : w.Fits) (t : Text) :
    (w.line t).symbolCount =
      10 + 2 + max instructionWidth t.symbolCount + 1 + 2 + 2 * w.size.toNat := by
  have hdigits (width n : Nat) : (zeroPad width (hex n)).Ascii := (ascii_iff _).mpr fun b hb =>
    lt_of_isSolid (isSolid_zeroPad (by decide) (by decide) width n b hb)
  have hfront : (addressText w.address ++ ofString "  ").Ascii := by
    rw [addressText, ascii_append, ascii_append]
    exact ⟨⟨by decide, hdigits _ _⟩, by decide⟩
  have hback : (ofString " 0x" ++ zeroPad (2 * w.size.toNat) (hex w.raw.toNat)).Ascii := by
    rw [ascii_append]
    exact ⟨by decide, hdigits _ _⟩
  have hgap : (ofString "  ").length = 2 := rfl
  have hmarker : (ofString " 0x").length = 1 + 2 := rfl
  rw [line, hw.zeroField_eq, List.append_assoc, List.append_assoc, symbolCount_ascii_append hfront,
    symbolCount_append_ascii _ hback, symbolCount_padRight, List.length_append, List.length_append,
    length_addressText, hw.length_zeroPad, hgap, hmarker]
  omega

/-- **A line tells its word and its text.** Two words of two or four bytes that have the same line,
with any texts, are the same word, and the texts are the same up to trailing spaces. And the line
has as many symbols as its columns: ten for the address, two spaces, the text or the column that it
does not fill, a space, and the marker with two digits for each byte. -/
theorem line_tells_word_and_text {w : CodeWord} (hw : w.Fits) (t : Text) :
    (∀ w' : CodeWord, w'.Fits → ∀ t', w.line t = w'.line t' →
      w = w' ∧ t.withoutTrailingSpaces = t'.withoutTrailingSpaces) ∧
    (w.line t).symbolCount = 10 + 2 + max 40 t.symbolCount + 1 + 2 + 2 * w.size.toNat := by
  refine ⟨fun w' hw' t' h => ?_, hw.symbolCount_line t⟩
  obtain ⟨hword, rfl | ⟨-, -, htext⟩⟩ := (line_eq_iff hw hw' t t').mp h
  · exact ⟨hword, rfl⟩
  · exact ⟨hword, htext⟩

/-- A text that looks like a last column and ends in the middle of a character, with and without
trailing spaces; and the same word in four bytes, whose line is another one whatever its text. -/
theorem line_tells_word_and_text_broken :
    let w : CodeWord := ⟨0xFFFFFFFE, 0x0001, 2⟩
    let t : Text := ofString "- 0x0001 " ++ [0xE2, 0x82]
    w.Fits ∧ w.line t = w.line (t ++ spaces 3) ∧
      t.withoutTrailingSpaces = (t ++ spaces 3).withoutTrailingSpaces ∧
      (w.line t).symbolCount = 59 ∧
      ∀ t', w.line t ≠ (⟨0xFFFFFFFE, 0x0001, 4⟩ : CodeWord).line t' := by
  intro w t
  have hw : w.Fits := by decide
  have hsame : w.line t = w.line (t ++ spaces 3) :=
    (line_eq_iff hw hw t _).mpr ⟨rfl, .inr ⟨by decide, by decide, by simp⟩⟩
  obtain ⟨htold, hcount⟩ := line_tells_word_and_text hw t
  refine ⟨hw, hsame, (htold w hw _ hsame).2, hcount.trans (by decide), fun t' h => ?_⟩
  exact absurd (htold _ (by decide) t' h).1 (by decide)

end CodeWord

/-- The last columns of a listing are the words, one after the other. -/
theorem Disassembler.mapM_lineBytes?_lines (d : Disassembler) {ws : List CodeWord}
    (h : ∀ w ∈ ws, w.Sized) : (d.lines ws).mapM lineBytes? = some (ws.map CodeWord.bytes) := by
  induction ws with
  | nil => rfl
  | cons w ws ih =>
    obtain ⟨hw, hws⟩ := List.forall_mem_cons.mp h
    have hrest := ih hws
    rw [lines] at hrest ⊢
    rw [List.map_cons, List.mapM_cons, CodeWord.lineBytes?_line hw.fits, hrest]
    rfl

end Disassembly
