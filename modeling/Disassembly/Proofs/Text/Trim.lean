import Disassembly.Text.Blank
import Disassembly.Text.Symbol.Lemmas
import Mathlib.Data.List.TakeWhile

/-!
# White space around a text

An ASCII byte is a symbol of its own wherever it stands: no character that starts before it can
reach over it, not even one that breaks off (`Text.symbols_append_ascii`). So spaces around a text
are seen as spaces, whatever bytes the text has:

* `Text.trim_gap_append`, `Text.trim_append_gap`: ASCII white space at either end does not matter;
* `Text.trim_of_framed`: a text with a solid byte, neither blank nor part of a longer character, at
  each end is left as it is;
* `Text.Spaced` is the relation between a text and the same with spaces around it, and
  `Text.Spaced.trim_eq` undoes it.
-/

namespace Disassembly

namespace Symbol

/-- An ASCII byte after the text does not change which character the text starts with. -/
theorem leading?_append_ascii (b : UInt8) (t : Text) {a : UInt8} (ha : a < 0x80) (u : Text) :
    leading? b (t ++ a :: u) = leading? b t := by
  -- `a` continues no character, so one that has not ended before it is broken off either way
  have hcont : isContinuation a = false := by
    have : ¬ 0x80 ≤ a := by simpa using ha
    simp [isContinuation, this]
  unfold leading?
  rcases t with _ | ⟨c, _ | ⟨d, _ | ⟨e, t⟩⟩⟩
  · rcases u with _ | ⟨x, _ | ⟨y, u⟩⟩ <;> simp [hcont]
  · rcases u with _ | ⟨x, u⟩ <;> simp [hcont]
  · simp [hcont]
  · rfl

theorem leading?_ascii {a : UInt8} (ha : a < 0x80) (u : Text) :
    leading? a u = some (Char.ofNat a.toNat, 0) := by
  unfold leading?
  exact if_pos ha

/-- A character lies within the text that it is read from. -/
theorem le_length_of_leading? {b : UInt8} {t : Text} {c : Char} {n : Nat}
    (h : leading? b t = some (c, n)) : n ≤ t.length := by
  unfold leading? at h
  rcases t with _ | ⟨x, _ | ⟨y, _ | ⟨z, t⟩⟩⟩ <;> simp only at h <;> (repeat' split at h) <;>
    simp_all <;> omega

end Symbol

namespace Text

/-! ## Symbols next to ASCII -/

theorem symbolsAfter_eq (done : List Symbol) (skip : Nat) (t : Text) :
    symbolsAfter done skip t = done.reverse ++ symbolsAfter [] skip t := by
  induction t generalizing done skip with
  | nil => cases skip <;> simp [symbolsAfter]
  | cons b t ih =>
    cases skip with
    | succ skip => exact ih done skip
    | zero =>
      simp only [symbolsAfter]
      split
      · rename_i c more _
        rw [ih (.char c :: done), ih [.char c]]
        simp
      · rw [ih (.stray b :: done), ih [.stray b]]
        simp

theorem symbols_cons_ascii {a : UInt8} (ha : a < 0x80) (u : Text) :
    symbols (a :: u) = .char (Char.ofNat a.toNat) :: symbols u := by
  simp only [symbols, symbolsAfter, Symbol.leading?_ascii ha]
  rw [symbolsAfter_eq]
  rfl

theorem symbolsAfter_append_ascii (skip : Nat) (t : Text) (hskip : skip ≤ t.length) {a : UInt8}
    (ha : a < 0x80) (u : Text) :
    symbolsAfter [] skip (t ++ a :: u) = symbolsAfter [] skip t ++ symbols (a :: u) := by
  -- what is skipped lies within `t`, so the reading comes to a new symbol at `a`
  induction t generalizing skip with
  | nil =>
    obtain rfl : skip = 0 := by simpa using hskip
    rfl
  | cons b t ih =>
    cases skip with
    | succ skip => exact ih skip (by simpa using hskip)
    | zero =>
      simp only [List.cons_append, symbolsAfter, Symbol.leading?_append_ascii b t ha u]
      split
      · rename_i c more h
        rw [symbolsAfter_eq, ih more (Symbol.le_length_of_leading? h), symbolsAfter_eq [_]]
        simp
      · rw [symbolsAfter_eq, ih 0 (Nat.zero_le _), symbolsAfter_eq [_]]
        simp

/-- An ASCII byte starts a symbol, whatever comes before it. -/
theorem symbols_append_ascii (t : Text) {a : UInt8} (ha : a < 0x80) (u : Text) :
    symbols (t ++ a :: u) = symbols t ++ .char (Char.ofNat a.toNat) :: symbols u := by
  rw [← symbols_cons_ascii ha]
  exact symbolsAfter_append_ascii 0 t (Nat.zero_le _) ha u

/-! ## Spaces at the ends -/

/-- A text of `n` spaces. -/
def spaces (n : Nat) : Text := List.replicate n 0x20

/-- A byte of ASCII that is visible, so neither white space nor part of a longer character. -/
def isSolid (b : UInt8) : Bool := 0x21 ≤ b && b < 0x80

/-- A byte of ASCII white space. -/
def isGap (b : UInt8) : Bool := b == 0x20 || (0x09 ≤ b && b ≤ 0x0D)

theorem lt_of_isGap {b : UInt8} (hb : isGap b = true) : b < 0x80 := by
  simp only [isGap, Bool.or_eq_true, beq_iff_eq, Bool.and_eq_true, decide_eq_true_eq,
    UInt8.le_iff_toNat_le, UInt8.lt_iff_toNat_lt, ← UInt8.toNat_inj, UInt8.reduceToNat] at hb ⊢
  omega

theorem isBlank_of_isGap {b : UInt8} (hb : isGap b = true) :
    (Symbol.char (Char.ofNat b.toNat)).isBlank = true := by
  have hall : ∀ n < 128, isGap (UInt8.ofNat n) = true →
      (Symbol.char (Char.ofNat n)).isBlank = true := by decide
  have hlt := lt_of_isGap hb
  rw [UInt8.lt_iff_toNat_lt] at hlt
  exact hall b.toNat hlt (by simpa using hb)

theorem lt_of_isSolid {b : UInt8} (hb : isSolid b = true) : b < 0x80 := by
  simp only [isSolid, Bool.and_eq_true, decide_eq_true_eq] at hb
  exact hb.2

theorem isBlank_of_isSolid {b : UInt8} (hb : isSolid b = true) :
    (Symbol.char (Char.ofNat b.toNat)).isBlank = false := by
  have hall : ∀ n < 128, 33 ≤ n → (Symbol.char (Char.ofNat n)).isBlank = false := by decide
  simp only [isSolid, Bool.and_eq_true, decide_eq_true_eq, UInt8.le_iff_toNat_le,
    UInt8.lt_iff_toNat_lt] at hb
  exact hall b.toNat hb.2 hb.1

theorem trim_cons_of_isGap {a : UInt8} (ha : isGap a = true) (t : Text) :
    trim (a :: t) = trim t := by
  simp only [trim, symbols_cons_ascii (lt_of_isGap ha), List.dropWhile_cons, isBlank_of_isGap ha,
    if_true]

theorem trim_append_of_isGap (t : Text) {a : UInt8} (ha : isGap a = true) :
    trim (t ++ [a]) = trim t := by
  rw [trim, trim, symbols_append_ascii t (lt_of_isGap ha) []]
  generalize symbols t = ss
  rw [show symbols [] = [] from rfl, List.dropWhile_append]
  split
  · -- all that comes before is white space too
    rename_i h
    rw [List.isEmpty_iff] at h
    rw [h, List.dropWhile_cons, if_pos (isBlank_of_isGap ha)]
    rfl
  · rw [List.reverse_append, List.reverse_singleton, List.singleton_append, List.dropWhile_cons,
      if_pos (isBlank_of_isGap ha)]

/-- White space before a text does not matter. -/
theorem trim_gap_append {g : Text} (hg : ∀ b ∈ g, isGap b = true) (t : Text) :
    trim (g ++ t) = trim t := by
  induction g with
  | nil => rfl
  | cons a g ih =>
    obtain ⟨ha, hg⟩ := List.forall_mem_cons.mp hg
    rw [List.cons_append, trim_cons_of_isGap ha, ih hg]

/-- White space after a text does not matter. -/
theorem trim_append_gap (t : Text) {g : Text} (hg : ∀ b ∈ g, isGap b = true) :
    trim (t ++ g) = trim t := by
  induction g generalizing t with
  | nil => rw [List.append_nil]
  | cons a g ih =>
    obtain ⟨ha, hg⟩ := List.forall_mem_cons.mp hg
    rw [← List.singleton_append, ← List.append_assoc, ih _ hg, trim_append_of_isGap t ha]

theorem isGap_of_mem_spaces {n : Nat} : ∀ b ∈ spaces n, isGap b = true := by
  intro b hb
  rw [List.eq_of_mem_replicate hb]
  rfl

theorem trim_spaces_append (n : Nat) (t : Text) : trim (spaces n ++ t) = trim t :=
  trim_gap_append isGap_of_mem_spaces t

theorem trim_append_spaces (t : Text) (n : Nat) : trim (t ++ spaces n) = trim t :=
  trim_append_gap t isGap_of_mem_spaces

/-! ## Solid ends -/

/-- A text whose last byte is solid. -/
def SolidEnd (t : Text) : Prop := ∃ u z, t = u ++ [z] ∧ isSolid z = true

theorem SolidEnd.append (t : Text) {u : Text} (h : u.SolidEnd) : (t ++ u).SolidEnd := by
  obtain ⟨v, z, rfl, hz⟩ := h
  exact ⟨t ++ v, z, by simp, hz⟩

/-- A text that starts and ends with a solid byte. -/
def Framed (t : Text) : Prop := (∃ a u, t = a :: u ∧ isSolid a = true) ∧ t.SolidEnd

/-- A text of solid bytes is framed by two of them. -/
theorem framed_of_forall {t : Text} (hne : t ≠ []) (h : ∀ b ∈ t, isSolid b = true) :
    t.Framed := by
  refine ⟨?_, ?_⟩
  · obtain ⟨a, u, rfl⟩ := List.exists_cons_of_ne_nil hne
    exact ⟨a, u, rfl, h a (by simp)⟩
  · refine ⟨t.dropLast, t.getLast hne, (List.dropLast_concat_getLast hne).symm, ?_⟩
    exact h _ (List.getLast_mem hne)

/-- No white space is dropped in front of a framed text. -/
theorem dropWhile_symbols_of_framed {t : Text} (h : t.Framed) (ss : List Symbol) :
    (symbols t ++ ss).dropWhile Symbol.isBlank = symbols t ++ ss := by
  obtain ⟨⟨a, u, rfl, ha⟩, -⟩ := h
  rw [symbols_cons_ascii (lt_of_isSolid ha), List.cons_append, List.dropWhile_cons,
    isBlank_of_isSolid ha]
  rfl

/-- No white space is dropped behind a framed text. -/
theorem dropWhile_reverse_symbols_of_framed {t : Text} (h : t.Framed) :
    (symbols t).reverse.dropWhile Symbol.isBlank = (symbols t).reverse := by
  obtain ⟨-, u, z, rfl, hz⟩ := h
  rw [symbols_append_ascii u (lt_of_isSolid hz) [], show symbols [] = [] from rfl,
    List.reverse_append, List.reverse_singleton, List.singleton_append, List.dropWhile_cons,
    isBlank_of_isSolid hz]
  rfl

/-- There is nothing to trim between solid bytes. -/
theorem trim_of_framed {t : Text} (h : t.Framed) : t.trim = t := by
  have hfront := dropWhile_symbols_of_framed h []
  rw [List.append_nil] at hfront
  rw [trim, hfront, dropWhile_reverse_symbols_of_framed h, List.reverse_reverse, ofSymbols_symbols]

theorem ofSymbols_eq_nil_iff (ss : List Symbol) : ofSymbols ss = [] ↔ ss = [] := by
  have hbytes : ∀ s : Symbol, s.bytes ≠ [] := by
    intro s
    cases s with
    | char c => exact String.utf8EncodeChar_ne_nil
    | stray b => exact List.cons_ne_nil _ _
  cases ss with
  | nil => simp [ofSymbols]
  | cons s ss => simp [ofSymbols, hbytes s]

/-- A text with a solid byte is more than white space. -/
theorem trim_ne_nil (u : Text) {b : UInt8} (hb : isSolid b = true) (v : Text) :
    trim (u ++ b :: v) ≠ [] := by
  have hmem : Symbol.char (Char.ofNat b.toNat) ∈ symbols (u ++ b :: v) := by
    rw [symbols_append_ascii u (lt_of_isSolid hb)]
    simp
  rw [trim]
  generalize symbols (u ++ b :: v) = ss at hmem
  intro hnil
  rw [ofSymbols_eq_nil_iff, List.reverse_eq_nil_iff, List.dropWhile_eq_nil_iff] at hnil
  have hall : ∀ s ∈ ss, s.isBlank = true := by
    intro s hs
    rw [← @List.takeWhile_append_dropWhile _ Symbol.isBlank ss] at hs
    rcases List.mem_append.mp hs with hs | hs
    · exact List.mem_takeWhile_imp hs
    · exact hnil s (List.mem_reverse.mpr hs)
  have := hall _ hmem
  rw [isBlank_of_isSolid hb] at this
  contradiction

/-! ## A text among spaces -/

/-- `u` is the text `t`, possibly with spaces before and after it. -/
def Spaced (t u : Text) : Prop := ∃ m n, u = spaces m ++ t ++ spaces n

namespace Spaced

theorem refl (t : Text) : Spaced t t := ⟨0, 0, by simp [spaces]⟩

theorem trim_eq {t u : Text} (h : Spaced t u) (ht : t.Framed) : u.trim = t := by
  obtain ⟨m, n, rfl⟩ := h
  rw [trim_append_spaces, trim_spaces_append, trim_of_framed ht]

/-- Apart from spaces there are no other bytes than in the text itself. -/
theorem not_mem {t u : Text} (h : Spaced t u) {b : UInt8} (hb : b ≠ 0x20) (ht : b ∉ t) :
    b ∉ u := by
  obtain ⟨m, n, rfl⟩ := h
  simp [spaces, hb, ht]

theorem length_le {t u : Text} (h : Spaced t u) : t.length ≤ u.length := by
  obtain ⟨m, n, rfl⟩ := h
  simp only [List.length_append]
  omega

end Spaced

end Text

end Disassembly
