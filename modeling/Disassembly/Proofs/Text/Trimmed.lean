import Disassembly.Proofs.Text.Trim
import Mathlib.Data.List.DropRight

/-!
# What trimming leaves

The symbols of a text do not depend on what stands around them: the first symbols of a text are the
symbols of the bytes that they stand for, and so are the last ones (`Text.symbols_ofSymbols_left`,
`Text.symbols_ofSymbols_right`). Trimming therefore takes symbols away at both ends and leaves the
others as they are (`Text.symbols_trim`):

* `Text.trim_trim`: to trim a second time changes nothing;
* `Text.padded_trim`: what was taken away is white space, and so has no solid byte
  (`Text.exists_eq_append_trim`);
* `Text.trim_eq_iff`: what is trimmed to a framed text is that text with white space around it.
-/

namespace Disassembly

namespace Symbol

/-- Which character a text starts with is decided by the bytes of the character alone. -/
theorem leading?_take_append {b : UInt8} {t : Text} {c : Char} {n : Nat}
    (h : leading? b t = some (c, n)) (u : Text) : leading? b (t.take n ++ u) = some (c, n) := by
  unfold leading? at h ⊢
  by_cases hone : b < 0x80
  · rw [if_pos hone] at h ⊢
    exact h
  rw [if_neg hone] at h ⊢
  by_cases hnone : b < 0xC0
  · rw [if_pos hnone] at h
    cases h
  rw [if_neg hnone] at h ⊢
  by_cases htwo : b < 0xE0
  · rw [if_pos htwo] at h ⊢
    rcases t with _ | ⟨x, t⟩
    · cases h
    · obtain ⟨hx, h⟩ := Option.ite_none_right_eq_some.mp h
      obtain ⟨c', hc, heq⟩ := Option.map_eq_some_iff.mp h
      obtain ⟨rfl, rfl⟩ := Prod.mk.inj heq
      simp [hx, hc]
  rw [if_neg htwo] at h ⊢
  by_cases hthree : b < 0xF0
  · rw [if_pos hthree] at h ⊢
    rcases t with _ | ⟨x, _ | ⟨y, t⟩⟩
    · cases h
    · cases h
    · obtain ⟨hxy, h⟩ := Option.ite_none_right_eq_some.mp h
      obtain ⟨c', hc, heq⟩ := Option.map_eq_some_iff.mp h
      obtain ⟨rfl, rfl⟩ := Prod.mk.inj heq
      simpa [hc] using hxy
  rw [if_neg hthree] at h ⊢
  by_cases hfour : b < 0xF8
  · rw [if_pos hfour] at h ⊢
    rcases t with _ | ⟨x, _ | ⟨y, _ | ⟨z, t⟩⟩⟩
    · cases h
    · cases h
    · cases h
    · obtain ⟨hxyz, h⟩ := Option.ite_none_right_eq_some.mp h
      obtain ⟨c', hc, heq⟩ := Option.map_eq_some_iff.mp h
      obtain ⟨rfl, rfl⟩ := Prod.mk.inj heq
      simpa [hc, and_assoc] using hxyz
  · rw [if_neg hfour] at h
    cases h

end Symbol

namespace Text

/-! ## Parts of a text -/

theorem symbolsAfter_skip (skip : Nat) (t : Text) :
    symbolsAfter [] skip t = symbols (t.drop skip) := by
  induction t generalizing skip with
  | nil => simp [symbols, symbolsAfter]
  | cons b t ih =>
    cases skip with
    | zero => rfl
    | succ skip => exact ih skip

/-- A text is read off symbol by symbol. -/
theorem symbols_cons (b : UInt8) (t : Text) :
    (∃ c n, Symbol.leading? b t = some (c, n) ∧
      symbols (b :: t) = .char c :: symbols (t.drop n)) ∨
    Symbol.leading? b t = none ∧ symbols (b :: t) = .stray b :: symbols t := by
  rcases h : Symbol.leading? b t with _ | ⟨c, n⟩
  · refine .inr ⟨rfl, ?_⟩
    rw [symbols, symbolsAfter, h]
    exact symbolsAfter_eq [.stray b] 0 t
  · refine .inl ⟨c, n, rfl, ?_⟩
    rw [symbols, symbolsAfter, h]
    simp only
    rw [symbolsAfter_eq, symbolsAfter_skip]
    rfl

theorem ofSymbols_append (ss ss' : List Symbol) :
    ofSymbols (ss ++ ss') = ofSymbols ss ++ ofSymbols ss' := by
  simp [ofSymbols]

/-- The last symbols of a text are the symbols of what they stand for. -/
theorem symbols_ofSymbols_right {t : Text} {ss ss' : List Symbol} (h : symbols t = ss ++ ss') :
    symbols (ofSymbols ss') = ss' := by
  induction ss generalizing t with
  | nil =>
    rw [List.nil_append] at h
    rw [← h, ofSymbols_symbols]
  | cons s ss ih =>
    rcases t with _ | ⟨b, t⟩
    · cases h
    · rcases symbols_cons b t with ⟨c, n, -, hsymbols⟩ | ⟨-, hsymbols⟩
      · rw [hsymbols] at h
        exact ih (List.cons.inj h).2
      · rw [hsymbols] at h
        exact ih (List.cons.inj h).2

/-- The first symbols of a text are the symbols of what they stand for: what follows a symbol does
not change it. -/
theorem symbols_ofSymbols_left {t : Text} {ss ss' : List Symbol} (h : symbols t = ss ++ ss') :
    symbols (ofSymbols ss) = ss := by
  induction ss generalizing t with
  | nil => rfl
  | cons s ss ih =>
    rcases t with _ | ⟨b, t⟩
    · cases h
    · rcases symbols_cons b t with ⟨c, n, hlead, hsymbols⟩ | ⟨hlead, hsymbols⟩
      · rw [hsymbols] at h
        obtain ⟨rfl, htail⟩ := List.cons.inj h
        have hle := Symbol.le_length_of_leading? hlead
        have hbytes : ofSymbols (.char c :: ss) = b :: (t.take n ++ ofSymbols ss) := by
          rw [ofSymbols, List.flatMap_cons, Symbol.bytes, Symbol.bytes_of_leading? hlead]
          rfl
        rw [hbytes, symbols, symbolsAfter, Symbol.leading?_take_append hlead]
        simp only
        rw [symbolsAfter_eq, symbolsAfter_skip, List.drop_left' (List.length_take_of_le hle),
          ih htail]
        rfl
      · rw [hsymbols] at h
        obtain ⟨rfl, htail⟩ := List.cons.inj h
        -- a byte that starts no character with all of the text behind it starts none with less
        have hnone : Symbol.leading? b (ofSymbols ss) = none := by
          rw [Option.eq_none_iff_forall_ne_some]
          rintro ⟨c, n⟩ hsome
          have hwhole : t = ofSymbols ss ++ ofSymbols ss' := by
            rw [← ofSymbols_append, show ss ++ ss' = symbols t from htail.symm, ofSymbols_symbols]
          have := Symbol.leading?_take_append hsome ((ofSymbols ss).drop n ++ ofSymbols ss')
          rw [← List.append_assoc, List.take_append_drop, ← hwhole, hlead] at this
          cases this
        rw [show ofSymbols (.stray b :: ss) = b :: ofSymbols ss from rfl, symbols, symbolsAfter,
          hnone]
        simp only
        rw [symbolsAfter_eq]
        exact congrArg (.stray b :: ·) (ih htail)

/-! ## Trimming -/

/-- Trimming leaves the symbols between the white space at both ends. -/
theorem symbols_trim (t : Text) :
    symbols t.trim = ((symbols t).dropWhile Symbol.isBlank).rdropWhile Symbol.isBlank := by
  have hfront := @List.takeWhile_append_dropWhile _ Symbol.isBlank (symbols t)
  have hback := @List.rdropWhile_append_rtakeWhile _ Symbol.isBlank
    ((symbols t).dropWhile Symbol.isBlank)
  exact symbols_ofSymbols_left ((symbols_ofSymbols_right hfront.symm).trans hback.symm)

/-- There is nothing to trim in what trimming left. -/
@[simp]
theorem trim_trim (t : Text) : t.trim.trim = t.trim := by
  have hkept := symbols_trim t
  obtain ⟨rest, hrest⟩ := List.rdropWhile_prefix Symbol.isBlank
    (l := (symbols t).dropWhile Symbol.isBlank)
  have hfront : (symbols t.trim).dropWhile Symbol.isBlank = symbols t.trim := by
    rcases hsymbols : symbols t.trim with _ | ⟨s, ss⟩
    · rfl
    · -- the first symbol that is kept is the first that was not dropped
      have hhead := List.head?_dropWhile_not Symbol.isBlank (symbols t)
      rw [← hrest, ← hkept, hsymbols] at hhead
      rw [List.dropWhile_cons, if_neg (by simpa using hhead)]
  have hback := List.rdropWhile_idempotent Symbol.isBlank ((symbols t).dropWhile Symbol.isBlank)
  rw [← hkept] at hback
  rw [trim, hfront]
  exact (congrArg ofSymbols hback).trans (ofSymbols_symbols _)

theorem char_mem_symbols {t : Text} {b : UInt8} (hascii : b < 0x80) (hb : b ∈ t) :
    .char (Char.ofNat b.toNat) ∈ symbols t := by
  obtain ⟨u, v, rfl⟩ := List.append_of_mem hb
  rw [symbols_append_ascii u hascii]
  exact List.mem_append_right _ List.mem_cons_self

/-- Among white space there is no solid byte. -/
theorem isSolid_eq_false_of_blank {t : Text} (h : ∀ s ∈ symbols t, s.isBlank = true) :
    ∀ b ∈ t, isSolid b = false := by
  intro b hb
  rw [Bool.eq_false_iff]
  intro hsolid
  have hblank := h _ (char_mem_symbols (lt_of_isSolid hsolid) hb)
  rw [isBlank_of_isSolid hsolid] at hblank
  cases hblank

/-- A text that is nothing but white space. -/
def Blank (t : Text) : Prop := ∀ s ∈ symbols t, s.isBlank = true

instance (t : Text) : Decidable t.Blank := inferInstanceAs (Decidable (∀ s ∈ symbols t, _))

/-- `u` is the text `t`, possibly with white space before and after it. -/
def Padded (t u : Text) : Prop :=
  ∃ before after, u = before ++ (t ++ after) ∧ Blank before ∧ Blank after

/-- A text is what trimming leaves, with white space around it. -/
theorem padded_trim (t : Text) : Padded t.trim t := by
  have hfront := @List.takeWhile_append_dropWhile _ Symbol.isBlank (symbols t)
  have hback := @List.rdropWhile_append_rtakeWhile _ Symbol.isBlank
    ((symbols t).dropWhile Symbol.isBlank)
  refine ⟨ofSymbols ((symbols t).takeWhile Symbol.isBlank),
    ofSymbols (((symbols t).dropWhile Symbol.isBlank).rtakeWhile Symbol.isBlank), ?_, ?_, ?_⟩
  · rw [← ofSymbols_symbols t.trim, symbols_trim, ← ofSymbols_append, hback, ← ofSymbols_append,
      hfront, ofSymbols_symbols]
  · intro s hs
    rw [symbols_ofSymbols_left hfront.symm] at hs
    exact List.mem_takeWhile_imp hs
  · intro s hs
    rw [symbols_ofSymbols_right ((symbols_ofSymbols_right hfront.symm).trans hback.symm)] at hs
    exact List.mem_rtakeWhile_imp hs

theorem length_trim_le (t : Text) : t.trim.length ≤ t.length := by
  obtain ⟨before, after, ht, -, -⟩ := padded_trim t
  have := congrArg List.length ht
  rw [List.length_append, List.length_append] at this
  omega

/-- A text is what trimming leaves, between two texts without a solid byte. -/
theorem exists_eq_append_trim (t : Text) :
    ∃ before after, t = before ++ (t.trim ++ after) ∧
      (∀ b ∈ before, isSolid b = false) ∧ ∀ b ∈ after, isSolid b = false := by
  obtain ⟨before, after, ht, hbefore, hafter⟩ := padded_trim t
  exact ⟨before, after, ht, isSolid_eq_false_of_blank hbefore, isSolid_eq_false_of_blank hafter⟩

/-- Nothing is left of white space, and of nothing else. -/
theorem trim_eq_nil_iff (t : Text) : t.trim = [] ↔ t.Blank := by
  rw [trim, ofSymbols_eq_nil_iff, List.reverse_eq_nil_iff, List.dropWhile_eq_nil_iff]
  simp only [List.mem_reverse]
  constructor
  · intro h s hs
    rw [← @List.takeWhile_append_dropWhile _ Symbol.isBlank (symbols t)] at hs
    rcases List.mem_append.mp hs with hs | hs
    · exact List.mem_takeWhile_imp hs
    · exact h s hs
  · intro h s hs
    exact h s ((List.dropWhile_suffix _).subset hs)

/-- The symbols of a framed text stand apart from what is around it. -/
theorem symbols_append_framed {t : Text} (ht : t.Framed) (before after : Text) :
    symbols (before ++ (t ++ after)) = symbols before ++ (symbols t ++ symbols after) := by
  obtain ⟨⟨a, u, hhead, ha⟩, u', z, hlast, hz⟩ := ht
  have hafter : symbols (t ++ after) = symbols t ++ symbols after := by
    rw [hlast, List.append_assoc, List.singleton_append, symbols_append_ascii u' (lt_of_isSolid hz),
      symbols_append_ascii u' (lt_of_isSolid hz), List.append_assoc]
    rfl
  rw [← hafter, hhead, List.cons_append, symbols_append_ascii before (lt_of_isSolid ha),
    symbols_cons_ascii (lt_of_isSolid ha)]

/-- The texts that are trimmed to a framed text are those in which white space stands around it. -/
theorem trim_eq_iff {t : Text} (ht : t.Framed) (u : Text) : u.trim = t ↔ Padded t u := by
  constructor
  · rintro rfl
    exact padded_trim u
  · rintro ⟨before, after, rfl, hbefore, hafter⟩
    have hrest : ∀ s ∈ (symbols after).reverse, s.isBlank = true :=
      fun s hs => hafter s (List.mem_reverse.mp hs)
    rw [trim, symbols_append_framed ht, List.dropWhile_append_of_pos hbefore,
      dropWhile_symbols_of_framed ht, List.reverse_append, List.dropWhile_append_of_pos hrest,
      dropWhile_reverse_symbols_of_framed ht, List.reverse_reverse, ofSymbols_symbols]

namespace Blank

theorem not_mem {t : Text} (h : t.Blank) {b : UInt8} (hb : isSolid b = true) : b ∉ t := by
  intro hmem
  rw [isSolid_eq_false_of_blank h b hmem] at hb
  cases hb

end Blank

namespace Padded

/-- White space brings no solid byte with it. -/
theorem not_mem {t u : Text} (h : Padded t u) {b : UInt8} (hb : isSolid b = true) (ht : b ∉ t) :
    b ∉ u := by
  obtain ⟨before, after, rfl, hbefore, hafter⟩ := h
  rw [List.mem_append, List.mem_append]
  rintro (hmem | hmem | hmem)
  · exact hbefore.not_mem hb hmem
  · exact ht hmem
  · exact hafter.not_mem hb hmem

theorem refl (t : Text) : Padded t t := ⟨[], [], by simp, by decide, by decide⟩

end Padded

/-- Trimming takes no solid byte away. -/
theorem mem_trim_of_isSolid {t : Text} {b : UInt8} (hsolid : isSolid b = true) (hb : b ∈ t) :
    b ∈ t.trim := by
  obtain ⟨before, after, ht, hbefore, hafter⟩ := exists_eq_append_trim t
  rw [ht, List.mem_append, List.mem_append] at hb
  rcases hb with hb | hb | hb
  · rw [hbefore b hb] at hsolid
    cases hsolid
  · exact hb
  · rw [hafter b hb] at hsolid
    cases hsolid

end Text

end Disassembly
