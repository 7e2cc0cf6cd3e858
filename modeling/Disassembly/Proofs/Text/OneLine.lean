import Disassembly.Operand
import Disassembly.Text.Column
import Disassembly.Text.Lines
import Disassembly.Text.Symbol.Lemmas
import Disassembly.Proofs.Text.Numeral
import Disassembly.Proofs.Text.Pieces
import Disassembly.Proofs.Text.Trim

/-!
# Texts on one line

A text that is part of a listing must not break its line. Numerals and operands never do, and what
is taken from a line that was read stays on one line: the lines of a text have no line feeds
(`Text.oneLine_of_mem_readLines`), and trimming adds nothing (`Text.trim_subset`).
-/

namespace Disassembly

namespace Text

/-- A text that stays on its line: it has no line feed. -/
def OneLine (t : Text) : Prop := 0x0A ∉ t

instance (t : Text) : Decidable t.OneLine := inferInstanceAs (Decidable (¬ _))

@[simp]
theorem oneLine_append (t u : Text) : (t ++ u).OneLine ↔ t.OneLine ∧ u.OneLine := by
  simp [OneLine]

theorem OneLine.of_subset {t u : Text} (hu : u.OneLine) (h : t ⊆ u) : t.OneLine :=
  fun hmem => hu (h hmem)

theorem oneLine_of_isSolid {t : Text} (h : ∀ b ∈ t, isSolid b = true) : t.OneLine := by
  intro hmem
  have := h _ hmem
  contradiction

/-! ## Numerals and operands -/

/-- The digits of a numeral can be seen, so there is neither a space nor a line feed in it. -/
theorem isSolid_zeroPad {base : Nat} (hlow : 1 < base) (hhigh : base ≤ 36) (width n : Nat) :
    ∀ b ∈ zeroPad width ((digits base n).map digitByte), isSolid b = true := by
  have hall : ∀ d < 36, isSolid (digitByte d) = true := by decide
  intro b hb
  obtain ⟨d, hd, rfl⟩ := exists_digit_of_mem_zeroPad hlow hb
  exact hall d (by omega)

theorem oneLine_numeral {base : Nat} (hlow : 1 < base) (hhigh : base ≤ 36) (n : Nat) :
    OneLine ((digits base n).map digitByte) := by
  have h := isSolid_zeroPad hlow hhigh 0 n
  rw [zeroPad, Nat.zero_sub, List.replicate_zero, List.nil_append] at h
  exact oneLine_of_isSolid h

theorem oneLine_hex (n : Nat) : (hex n).OneLine := oneLine_numeral (by decide) (by decide) n

theorem oneLine_decimal (n : Nat) : (decimal n).OneLine :=
  oneLine_numeral (by decide) (by decide) n

@[simp]
theorem oneLine_padRight (width : Nat) (t : Text) : (t.padRight width).OneLine ↔ t.OneLine := by
  have hspace : OneLine (List.replicate (width - t.symbolCount) 0x20) := by
    intro hmem
    have := List.eq_of_mem_replicate hmem
    contradiction
  rw [padRight, oneLine_append, and_iff_left hspace]

theorem oneLine_registerName (n : Nat) : (registerName n).OneLine := by
  rw [registerName, oneLine_append]
  exact ⟨by decide, oneLine_decimal n⟩

theorem oneLine_unsignedHex (v : BitVec 32) : (unsignedHex v).OneLine := by
  rw [unsignedHex, oneLine_append]
  exact ⟨by decide, oneLine_hex _⟩

theorem oneLine_signedHex (i : Int) : (signedHex i).OneLine := by
  unfold signedHex
  split
  · rw [oneLine_append]
    exact ⟨by decide, oneLine_hex _⟩
  · rw [oneLine_append]
    exact ⟨by decide, oneLine_hex _⟩

/-- Every kind of operand is shown on one line. -/
theorem oneLine_format (o : Operand) (v : BitVec 32) : (o.format v).OneLine := by
  cases o with
  | register => exact oneLine_registerName _
  | shortRegister => exact oneLine_registerName _
  | signed width => exact oneLine_signedHex _
  | unsigned => exact oneLine_unsignedHex v

/-! ## Lines that are read -/

/-- Trimming only takes away. -/
theorem trim_subset (t : Text) : t.trim ⊆ t := by
  intro b hb
  obtain ⟨s, hs, hbs⟩ := List.mem_flatMap.mp hb
  have hs : s ∈ t.symbols := by
    have hs := (List.dropWhile_sublist _).subset (List.mem_reverse.mp hs)
    exact (List.dropWhile_sublist _).subset (List.mem_reverse.mp hs)
  rw [← ofSymbols_symbols t]
  exact List.mem_flatMap.mpr ⟨s, hs, hbs⟩

theorem oneLine_of_mem_lines {t l : Text} (hl : l ∈ t.lines) : l.OneLine := by
  unfold lines at hl
  simp only at hl
  split at hl
  · exact not_mem_of_mem_pieces (List.dropLast_subset _ hl)
  · exact not_mem_of_mem_pieces hl

theorem dropReturn_subset (l : Text) : dropReturn l ⊆ l := by
  unfold dropReturn
  split
  · exact List.dropLast_subset l
  · exact List.Subset.refl l

/-- What the reader delivers has no line feeds. -/
theorem oneLine_of_mem_readLines {t l : Text} (hl : l ∈ t.readLines.lines) : l.OneLine := by
  obtain ⟨m, hm, rfl⟩ := List.mem_map.mp hl
  have hm := (List.takeWhile_sublist _).subset hm
  exact (oneLine_of_mem_lines hm).of_subset (dropReturn_subset m)

end Text

end Disassembly
