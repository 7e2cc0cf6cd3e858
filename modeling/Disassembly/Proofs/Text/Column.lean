import Disassembly.Text.Column
import Disassembly.Proofs.Text.Trim
import Mathlib.Data.List.DropRight

/-!
# Texts in a column

A column is counted in symbols and filled up with spaces, which are symbols of their own whatever
bytes the text before them has. So the text in a column has as many symbols as the column is wide,
unless it had more before (`Text.symbolCount_padRight`).

What a column does not show is how many spaces the text ended with. `Text.withoutTrailingSpaces` is
what it shows: a text that has room in the column looks there as it would without its trailing
spaces (`Text.padRight_of_le`), and two texts look the same exactly if they are the same, or have
room and differ in trailing spaces only (`Text.padRight_eq_iff`).
-/

namespace Disassembly

namespace Text

/-! ## Counting symbols -/

/-- A text of ASCII bytes. -/
def Ascii (t : Text) : Prop := t.all (· < 0x80) = true

instance (t : Text) : Decidable t.Ascii := inferInstanceAs (Decidable (_ = true))

theorem ascii_iff (t : Text) : t.Ascii ↔ ∀ b ∈ t, b < 0x80 := by
  simp [Ascii]

@[simp]
theorem ascii_append (t u : Text) : (t ++ u).Ascii ↔ t.Ascii ∧ u.Ascii := by
  simp only [ascii_iff, List.forall_mem_append]

theorem ascii_cons (a : UInt8) (t : Text) : Ascii (a :: t) ↔ a < 0x80 ∧ t.Ascii := by
  simp only [ascii_iff, List.forall_mem_cons]

/-- ASCII in front of a text adds a symbol for each byte. -/
theorem symbolCount_ascii_append {t : Text} (ht : t.Ascii) (u : Text) :
    symbolCount (t ++ u) = t.length + symbolCount u := by
  induction t with
  | nil => simp
  | cons a t ih =>
    obtain ⟨ha, ht⟩ := (ascii_cons a t).mp ht
    rw [List.cons_append, symbolCount, symbols_cons_ascii ha, List.length_cons, ← symbolCount,
      ih ht, List.length_cons, Nat.add_right_comm]

/-- ASCII after a text adds a symbol for each byte, even if the text ends in the middle of a
character. -/
theorem symbolCount_append_ascii (t : Text) {u : Text} (hu : u.Ascii) :
    symbolCount (t ++ u) = symbolCount t + u.length := by
  cases u with
  | nil => simp
  | cons a u =>
    obtain ⟨ha, hu⟩ := (ascii_cons a u).mp hu
    have hrest := symbolCount_ascii_append hu []
    rw [List.append_nil, symbolCount] at hrest
    rw [symbolCount, symbols_append_ascii t ha, List.length_append, List.length_cons, hrest]
    rfl

theorem symbolCount_append_spaces (t : Text) (n : Nat) :
    symbolCount (t ++ spaces n) = symbolCount t + n := by
  have hascii : (spaces n).Ascii :=
    (ascii_iff _).mpr fun b hb => lt_of_isGap (isGap_of_mem_spaces b hb)
  rw [symbolCount_append_ascii t hascii, spaces, List.length_replicate]

/-! ## Filling up -/

theorem padRight_eq (width : Nat) (t : Text) :
    t.padRight width = t ++ spaces (width - t.symbolCount) := rfl

/-- A text fills its column, or goes beyond it as far as it did before. -/
@[simp]
theorem symbolCount_padRight (width : Nat) (t : Text) :
    (t.padRight width).symbolCount = max width t.symbolCount := by
  rw [padRight_eq, symbolCount_append_spaces]
  omega

/-- A text that fills the column by itself is left as it is. -/
theorem padRight_of_ge {width : Nat} {t : Text} (h : width ≤ t.symbolCount) :
    t.padRight width = t := by
  rw [padRight_eq, Nat.sub_eq_zero_of_le h]
  exact List.append_nil t

/-! ## Trailing spaces -/

/-- A text up to its last byte that is not a space. -/
def withoutTrailingSpaces (t : Text) : Text := t.rdropWhile (· == 0x20)

@[simp]
theorem withoutTrailingSpaces_append_spaces (t : Text) (n : Nat) :
    (t ++ spaces n).withoutTrailingSpaces = t.withoutTrailingSpaces := by
  induction n with
  | zero => exact congrArg _ (List.append_nil t)
  | succ n ih =>
    rw [spaces, List.replicate_succ', ← List.append_assoc, withoutTrailingSpaces,
      List.rdropWhile_concat_pos _ _ _ rfl]
    exact ih

@[simp]
theorem withoutTrailingSpaces_padRight (width : Nat) (t : Text) :
    (t.padRight width).withoutTrailingSpaces = t.withoutTrailingSpaces :=
  withoutTrailingSpaces_append_spaces t _

theorem exists_append_spaces (t : Text) : ∃ n, t = t.withoutTrailingSpaces ++ spaces n := by
  have hspaces : t.rtakeWhile (· == 0x20) = spaces (t.rtakeWhile (· == 0x20)).length :=
    List.eq_replicate_of_mem fun b hb => by simpa using List.mem_rtakeWhile_imp hb
  refine ⟨(t.rtakeWhile (· == 0x20)).length, ?_⟩
  rw [← hspaces]
  exact List.rdropWhile_append_rtakeWhile.symm

/-- In a column that has room for a text, its trailing spaces are among those that fill it up. -/
theorem padRight_of_le {width : Nat} {t : Text} (h : t.symbolCount ≤ width) :
    t.padRight width = t.withoutTrailingSpaces.padRight width := by
  obtain ⟨n, hn⟩ := exists_append_spaces t
  generalize t.withoutTrailingSpaces = u at hn
  subst hn
  rw [symbolCount_append_spaces] at h
  rw [padRight_eq, padRight_eq, symbolCount_append_spaces, List.append_assoc, spaces, spaces,
    List.replicate_append_replicate, spaces]
  congr 2
  omega

/-- Which texts look the same in a column. -/
theorem padRight_eq_iff (width : Nat) (t u : Text) :
    t.padRight width = u.padRight width ↔
      t = u ∨ t.symbolCount ≤ width ∧ u.symbolCount ≤ width ∧
        t.withoutTrailingSpaces = u.withoutTrailingSpaces := by
  constructor
  · intro h
    have hcount := congrArg symbolCount h
    rw [symbolCount_padRight, symbolCount_padRight] at hcount
    rcases Nat.lt_or_ge width t.symbolCount with ht | ht
    · rw [padRight_of_ge ht.le, padRight_of_ge (by omega)] at h
      exact .inl h
    · refine .inr ⟨ht, by omega, ?_⟩
      simpa using congrArg withoutTrailingSpaces h
  · rintro (rfl | ⟨ht, hu, h⟩)
    · rfl
    · rw [padRight_of_le ht, padRight_of_le hu, h]

end Text

end Disassembly
