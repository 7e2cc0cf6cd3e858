import Disassembly.Proofs.Layout.Coverage
import Disassembly.Proofs.Template.Separated
import Mathlib.Data.List.TakeWhile

/-!
# The references in a template

The names in a text are found from left to right, each as long as possible. `Text.Scanned` says so
without saying how they are found, it leaves no choice (`Text.Scanned.unique`), and `Text.lexemes`
is what it describes (`Text.scanned_lexemes`). From the lexemes come the parts of a template:

* text and references alternate and no part is empty (`Template.Alternates`), because no two names
  stand side by side;
* the references are the names but for the first (`Template.names_ofLexemes`);
* a name that stands apart after the mnemonic is a reference to exactly that name
  (`Template.parse_append_name`).
-/

namespace Disassembly

namespace Lexeme

theorem name?_eq_some_iff (x : Lexeme) (n : Text) : x.name? = some n ↔ x = name n := by
  cases x <;> simp [name?]

theorem close_append (word : Text) (done : List Lexeme) :
    close word done = close word [] ++ done := by
  cases word <;> rfl

end Lexeme

/-! ## Scanning -/

namespace Text

/-- A text that a name before it does not go on in. -/
def EndsName (t : Text) : Prop := ∀ b ∈ t.head?, isNameByte b = false

/-- The lexemes of a text: from left to right, at a letter stands a name, which ends where it cannot
go on, and any other byte stands for itself. -/
inductive Scanned : Text → List Lexeme → Prop
  | nil : Scanned [] []
  | byte {b : UInt8} {t : Text} {xs : List Lexeme} (hb : isLetter b = false) (h : Scanned t xs) :
      Scanned (b :: t) (.byte b :: xs)
  | name {n t : Text} {xs : List Lexeme} (hn : isName n = true) (ht : t.EndsName)
      (h : Scanned t xs) : Scanned (n ++ t) (.name n :: xs)

theorem endsName_nil : EndsName [] := fun _ hb => by cases hb

theorem endsName_cons {b : UInt8} (hb : isNameByte b = false) (t : Text) : EndsName (b :: t) := by
  intro c hc
  obtain rfl := Option.some.inj hc
  exact hb

theorem lexemesAfter_eq (done : List Lexeme) (word t : Text) :
    lexemesAfter done word t = done.reverse ++ lexemesAfter [] word t := by
  induction t generalizing done word with
  | nil => rw [lexemesAfter, lexemesAfter, Lexeme.close_append, List.reverse_append]
  | cons b t ih =>
    rw [lexemesAfter, lexemesAfter]
    split
    · exact ih done (b :: word)
    · rw [ih, ih (.byte b :: Lexeme.close word []), Lexeme.close_append]
      simp

/-- Scanning goes on with the bytes of a name before the text. -/
theorem scanned_lexemesAfter {word : Text} (hword : word ≠ [] → isName word.reverse = true)
    (t : Text) : Scanned (word.reverse ++ t) (lexemesAfter [] word t) := by
  induction t generalizing word with
  | nil =>
    cases word with
    | nil => exact .nil
    | cons c word => exact .name (hword (by simp)) endsName_nil .nil
  | cons b t ih =>
    rw [lexemesAfter]
    split
    · rename_i hb
      have hnext : isName (b :: word).reverse = true := by
        rw [List.reverse_cons]
        cases word with
        | nil => simpa [isName] using hb
        | cons c word =>
          refine isName_concat (hword (by simp)) ?_
          rcases Bool.or_eq_true_iff.mp hb with hletter | hb
          · exact isNameByte_of_isLetter hletter
          · exact (Bool.and_eq_true_iff.mp hb).2
      simpa using ih fun _ => hnext
    · rename_i hb
      rw [Bool.or_eq_true, not_or, Bool.not_eq_true] at hb
      have hrest : Scanned (b :: t) (.byte b :: lexemesAfter [] [] t) :=
        .byte hb.1 (ih fun h => absurd rfl h)
      rw [lexemesAfter_eq]
      cases word with
      | nil => exact hrest
      | cons c word =>
        have hends : isNameByte b = false := by simpa using hb.2
        simpa [Lexeme.close] using Scanned.name (hword (by simp)) (endsName_cons hends t) hrest

theorem scanned_lexemes (t : Text) : Scanned t t.lexemes :=
  @scanned_lexemesAfter [] (fun h => absurd rfl h) t

namespace Scanned

variable {t u : Text} {xs ys : List Lexeme}

/-- There is only one way to scan a text. -/
theorem unique (h : Scanned t xs) (h' : Scanned t ys) : xs = ys := by
  induction h generalizing ys with
  | nil =>
    generalize ht : ([] : Text) = u at h'
    cases h' with
    | nil => rfl
    | byte => cases ht
    | name hn =>
      obtain ⟨c, m, rfl, -⟩ := exists_letter_of_isName hn
      cases ht
  | @byte b t xs hb h ih =>
    generalize ht : b :: t = u at h'
    cases h' with
    | nil => cases ht
    | byte _ h' =>
      obtain ⟨rfl, rfl⟩ := List.cons.inj ht
      rw [ih h']
    | name hn =>
      obtain ⟨c, m, rfl, hc⟩ := exists_letter_of_isName hn
      obtain ⟨rfl, -⟩ := List.cons.inj ht
      cases hb.symm.trans hc
  | @name n t xs hn hends h ih =>
    generalize ht : n ++ t = u at h'
    cases h' with
    | nil =>
      obtain ⟨c, m, rfl, -⟩ := exists_letter_of_isName hn
      cases ht
    | byte hb =>
      obtain ⟨c, m, rfl, hc⟩ := exists_letter_of_isName hn
      obtain ⟨rfl, -⟩ := List.cons.inj ht
      cases hb.symm.trans hc
    | name hn' hends' h' =>
      obtain ⟨rfl, rfl⟩ := append_inj_of_head (isNameByte_of_isName hn)
        (isNameByte_of_isName hn') hends hends' ht
      rw [ih h']

theorem append (h : Scanned t xs) (h' : Scanned u ys) (hu : u.EndsName) :
    Scanned (t ++ u) (xs ++ ys) := by
  induction h with
  | nil => exact h'
  | byte hb _ ih => exact .byte hb ih
  | @name n t xs hn ht _ ih =>
    rw [List.append_assoc]
    refine .name hn ?_ ih
    cases t with
    | nil => exact hu
    | cons b t => exact ht

theorem isName_of_mem (h : Scanned t xs) {n : Text} (hn : .name n ∈ xs) : isName n = true := by
  induction h with
  | nil => cases hn
  | byte _ _ ih =>
    rcases List.mem_cons.mp hn with hn | hn
    · cases hn
    · exact ih hn
  | name hname _ _ ih =>
    rcases List.mem_cons.mp hn with hn | hn
    · obtain rfl := Lexeme.name.inj hn
      exact hname
    · exact ih hn

/-- Every letter is in a name. -/
theorem exists_name (h : Scanned t xs) {b : UInt8} (hmem : b ∈ t) (hletter : isLetter b = true) :
    ∃ n, .name n ∈ xs := by
  induction h with
  | nil => cases hmem
  | byte hb _ ih =>
    rcases List.mem_cons.mp hmem with rfl | hmem
    · cases hb.symm.trans hletter
    · obtain ⟨n, hn⟩ := ih hmem
      exact ⟨n, List.mem_cons_of_mem _ hn⟩
  | name => exact ⟨_, List.mem_cons_self⟩

/-- No two names stand side by side. -/
theorem isChain (h : Scanned t xs) :
    xs.IsChain fun x y => x.isByte = true ∨ y.isByte = true := by
  induction h with
  | nil => exact .nil
  | byte _ _ ih => exact ih.cons fun _ _ => .inl rfl
  | name _ ht h ih =>
    refine ih.cons fun x hx => .inr ?_
    cases h with
    | nil => cases hx
    | byte =>
      obtain rfl := Option.some.inj hx
      rfl
    | name hn =>
      obtain ⟨c, m, rfl, hc⟩ := exists_letter_of_isName hn
      cases (ht c rfl).symm.trans (isNameByte_of_isLetter hc)

end Scanned

theorem scanned_iff (t : Text) (xs : List Lexeme) : Scanned t xs ↔ xs = t.lexemes := by
  constructor
  · exact fun h => h.unique t.scanned_lexemes
  · rintro rfl
    exact t.scanned_lexemes

@[simp]
theorem lexemes_nil : lexemes [] = [] := rfl

theorem lexemes_append (t : Text) {u : Text} (hu : u.EndsName) :
    (t ++ u).lexemes = t.lexemes ++ u.lexemes :=
  (t ++ u).scanned_lexemes.unique (t.scanned_lexemes.append u.scanned_lexemes hu)

theorem lexemes_name_append {n : Text} (hn : isName n = true) {t : Text} (ht : t.EndsName) :
    (n ++ t).lexemes = .name n :: t.lexemes :=
  (n ++ t).scanned_lexemes.unique (.name hn ht t.scanned_lexemes)

theorem lexemes_cons {b : UInt8} (hb : isLetter b = false) (t : Text) :
    lexemes (b :: t) = .byte b :: t.lexemes :=
  (scanned_lexemes (b :: t)).unique (.byte hb t.scanned_lexemes)

end Text

/-! ## Parts -/

namespace Template

open Text

/-- Text and references alternate, and no part is empty. -/
structure Alternates (parts : Template) : Prop where
  source_ne_nil : ∀ p ∈ parts, p.source ≠ []
  isChain : parts.IsChain fun p q => p.name?.isSome ≠ q.name?.isSome

theorem alternates_nil : Alternates [] := ⟨by simp, .nil⟩

theorem addText_nil (parts : Template) : addText [] parts = parts := rfl

section AddText

variable {t : Text} (ht : t ≠ [])
include ht

theorem addText_empty : addText t [] = [.text t] := by
  simp [addText, ht]

theorem addText_text (u : Text) (parts : Template) :
    addText t (.text u :: parts) = .text (t ++ u) :: parts := by
  simp [addText, ht]

theorem addText_field (n : Text) (parts : Template) :
    addText t (.field n :: parts) = .text t :: .field n :: parts := by
  simp [addText, ht]

theorem exists_text_of_addText (parts : Template) :
    ∃ u rest, addText t parts = .text u :: rest := by
  match parts with
  | [] => exact ⟨_, _, addText_empty ht⟩
  | .text u :: parts => exact ⟨_, _, addText_text ht u parts⟩
  | .field n :: parts => exact ⟨_, _, addText_field ht n parts⟩

end AddText

theorem Alternates.addText {parts : Template} (h : parts.Alternates) (t : Text) :
    (addText t parts).Alternates := by
  by_cases ht : t = []
  · subst ht
    exact h
  match parts, h with
  | [], _ =>
    rw [addText_empty ht]
    exact ⟨by simp [Part.source, ht], .singleton _⟩
  | .text u :: parts, ⟨hne, hchain⟩ =>
    rw [addText_text ht]
    obtain ⟨-, hrest⟩ := List.forall_mem_cons.mp hne
    obtain ⟨hnext, htail⟩ := List.isChain_cons.mp hchain
    exact ⟨List.forall_mem_cons.mpr ⟨by simp [Part.source, ht], hrest⟩, htail.cons hnext⟩
  | .field n :: parts, ⟨hne, hchain⟩ =>
    rw [addText_field ht]
    exact ⟨List.forall_mem_cons.mpr ⟨ht, hne⟩, .cons_cons (by simp [Part.name?]) hchain⟩

/-- Lexemes of which no two neighbours are names give parts that alternate. -/
theorem alternates_foldr {xs : List Lexeme} (hnames : ∀ n, .name n ∈ xs → n ≠ [])
    (hchain : xs.IsChain fun x y => x.isByte = true ∨ y.isByte = true) :
    (xs.foldr addLexeme []).Alternates := by
  induction xs with
  | nil => exact alternates_nil
  | cons x xs ih =>
    obtain ⟨hnext, htail⟩ := List.isChain_cons.mp hchain
    have hrest := ih (fun n hn => hnames n (List.mem_cons_of_mem _ hn)) htail
    cases x with
    | byte b => exact hrest.addText [b]
    | name n =>
      refine ⟨List.forall_mem_cons.mpr ⟨hnames n List.mem_cons_self, hrest.source_ne_nil⟩, ?_⟩
      refine hrest.isChain.cons fun q hq => ?_
      -- what follows a name is a byte, so the parts after the reference begin with text
      cases xs with
      | nil => cases hq
      | cons y ys =>
        cases y with
        | name m => simpa [Lexeme.isByte] using hnext _ rfl
        | byte b =>
          obtain ⟨u, rest, htext⟩ := exists_text_of_addText (List.cons_ne_nil b [])
            (ys.foldr addLexeme [])
          rw [List.foldr_cons, addLexeme, htext] at hq
          obtain rfl := Option.some.inj hq
          simp [Part.name?]

/-! ## The mnemonic -/

/-- In a text with a name in it, the first one is the mnemonic. -/
theorem ofLexemes_of_mnemonic {bs : List Lexeme} (hbs : ∀ x ∈ bs, x.isByte = true) (m : Text)
    (xs : List Lexeme) :
    ofLexemes (bs ++ .name m :: xs) =
      addText (bs.flatMap Lexeme.bytes ++ m) (xs.foldr addLexeme []) := by
  have hname : ¬ (Lexeme.name m).isByte = true := by simp [Lexeme.isByte]
  rw [ofLexemes, List.dropWhile_append_of_pos hbs, List.takeWhile_append_of_pos hbs,
    List.dropWhile_cons_of_neg hname, List.takeWhile_cons_of_neg hname, List.append_nil]
  rfl

theorem ofLexemes_of_bytes {xs : List Lexeme} (hxs : ∀ x ∈ xs, x.isByte = true) :
    ofLexemes xs = addText (xs.flatMap Lexeme.bytes) [] := by
  rw [ofLexemes, List.dropWhile_eq_nil_iff.mpr hxs]

/-- A text has a mnemonic, or it has no names. -/
theorem exists_mnemonic (xs : List Lexeme) :
    (∀ x ∈ xs, x.isByte = true) ∨
      ∃ bs m rest, xs = bs ++ .name m :: rest ∧ ∀ x ∈ bs, x.isByte = true := by
  induction xs with
  | nil => exact .inl (by simp)
  | cons x xs ih =>
    cases x with
    | name n => exact .inr ⟨[], n, xs, rfl, by simp⟩
    | byte b =>
      rcases ih with hxs | ⟨bs, m, rest, rfl, hbs⟩
      · exact .inl (List.forall_mem_cons.mpr ⟨rfl, hxs⟩)
      · exact .inr ⟨.byte b :: bs, m, rest, rfl, List.forall_mem_cons.mpr ⟨rfl, hbs⟩⟩

theorem alternates_ofLexemes {xs : List Lexeme} (hnames : ∀ n, .name n ∈ xs → n ≠ [])
    (hchain : xs.IsChain fun x y => x.isByte = true ∨ y.isByte = true) :
    (ofLexemes xs).Alternates := by
  rcases exists_mnemonic xs with hxs | ⟨bs, m, rest, rfl, hbs⟩
  · rw [ofLexemes_of_bytes hxs]
    exact alternates_nil.addText _
  · rw [ofLexemes_of_mnemonic hbs]
    refine (alternates_foldr (fun n hn => hnames n ?_) ?_).addText _
    · exact List.mem_append_right _ (List.mem_cons_of_mem _ hn)
    · exact hchain.right_of_append.tail

/-! ## The names -/

theorem names_addText (t : Text) (parts : Template) : names (addText t parts) = names parts := by
  by_cases ht : t = []
  · rw [ht, addText_nil]
  match parts with
  | [] => rw [addText_empty ht]; rfl
  | .text u :: parts => rw [addText_text ht]; rfl
  | .field n :: parts => rw [addText_field ht]; rfl

theorem names_foldr (xs : List Lexeme) :
    names (xs.foldr addLexeme []) = xs.filterMap Lexeme.name? := by
  induction xs with
  | nil => rfl
  | cons x xs ih =>
    cases x with
    | name n => exact congrArg (n :: ·) ih
    | byte b => exact (names_addText [b] _).trans ih

theorem filterMap_name?_of_bytes {xs : List Lexeme} (hxs : ∀ x ∈ xs, x.isByte = true) :
    xs.filterMap Lexeme.name? = [] := by
  rw [List.filterMap_eq_nil_iff]
  intro x hx
  cases x with
  | name n => cases hxs _ hx
  | byte b => rfl

/-- The references are the names but for the mnemonic. -/
theorem names_ofLexemes (xs : List Lexeme) :
    names (ofLexemes xs) = (xs.filterMap Lexeme.name?).tail := by
  rcases exists_mnemonic xs with hxs | ⟨bs, m, rest, rfl, hbs⟩
  · rw [ofLexemes_of_bytes hxs, names_addText, filterMap_name?_of_bytes hxs]
    rfl
  · rw [ofLexemes_of_mnemonic hbs, names_addText, names_foldr, List.filterMap_append,
      filterMap_name?_of_bytes hbs]
    rfl

/-! ## A name after the mnemonic -/

theorem addText_append_field (t : Text) (parts : Template) (n : Text) (after : Template) :
    addText t (parts ++ .field n :: after) = addText t parts ++ .field n :: after := by
  by_cases ht : t = []
  · rw [ht, addText_nil, addText_nil]
  match parts with
  | [] => rw [addText_empty ht, List.nil_append, addText_field ht]; rfl
  | .text u :: parts => rw [addText_text ht, List.cons_append, addText_text ht]; rfl
  | .field m :: parts => rw [addText_field ht, List.cons_append, addText_field ht]; rfl

theorem foldr_append_name (xs : List Lexeme) (n : Text) (ys : List Lexeme) :
    (xs ++ .name n :: ys).foldr addLexeme [] =
      xs.foldr addLexeme [] ++ .field n :: ys.foldr addLexeme [] := by
  induction xs with
  | nil => rfl
  | cons x xs ih =>
    rw [List.cons_append, List.foldr_cons, List.foldr_cons, ih]
    cases x with
    | name m => rfl
    | byte b => exact addText_append_field [b] _ n _

theorem ofLexemes_append_name {xs : List Lexeme} {m : Text} (hm : .name m ∈ xs) (n : Text)
    (ys : List Lexeme) :
    ofLexemes (xs ++ .name n :: ys) = ofLexemes xs ++ .field n :: ys.foldr addLexeme [] := by
  rcases exists_mnemonic xs with hxs | ⟨bs, m', rest, rfl, hbs⟩
  · cases hxs _ hm
  · rw [List.append_assoc, List.cons_append, ofLexemes_of_mnemonic hbs, foldr_append_name,
      addText_append_field, ofLexemes_of_mnemonic hbs]

/-- A name that stands apart in a text after the mnemonic is one reference. -/
theorem parse_append_name {lead : Text} (hlead : ∃ b ∈ lead, isLetter b = true) {n : Text}
    (hn : isName n = true) {rest : Text} (hrest : rest.EndsName) :
    ∃ after, parse (lead ++ " " ++ n ++ rest) = parse (lead ++ " ") ++ .field n :: after ∧
      text after = rest := by
  obtain ⟨b, hb, hletter⟩ := hlead
  obtain ⟨m, hm⟩ := (lead ++ " ").scanned_lexemes.exists_name (List.mem_append_left _ hb) hletter
  have hspace (u : Text) :
      (lead ++ (" " ++ u)).lexemes = lead.lexemes ++ .byte 0x20 :: u.lexemes := by
    have hcons : (" " : Text) ++ u = 0x20 :: u := rfl
    rw [hcons, lexemes_append lead (endsName_cons (by decide) u), lexemes_cons (by decide)]
  have hlast : (lead ++ " ").lexemes = lead.lexemes ++ [.byte 0x20] := by
    simpa using hspace []
  have hwhole : (lead ++ " " ++ n ++ rest).lexemes =
      (lead ++ " ").lexemes ++ .name n :: rest.lexemes := by
    rw [List.append_assoc, List.append_assoc, hspace, lexemes_name_append hn hrest, hlast,
      List.append_assoc, List.singleton_append]
  refine ⟨rest.lexemes.foldr addLexeme [], ?_, ?_⟩
  · rw [parse, hwhole, ofLexemes_append_name hm, parse]
  · rw [text_foldr_addLexeme, bytes_lexemes]

/-- **The parts of a template.** A template is all of its text. No part is empty, and text and
references alternate. The references are the names in the text, as the one way to scan it finds
them, without the first, so all of them are names that a field can have. Conversely a name that
stands apart after a mnemonic and a space is read as one reference to it, and so every field of a
valid layout can be referred to. -/
theorem parse_finds_references (t : Text) :
    (parse t).text = t ∧
    (∀ p ∈ parse t, p.source ≠ []) ∧
    (parse t).IsChain (fun p q => p.name?.isSome ≠ q.name?.isSome) ∧
    (∃ xs, (∀ ys, t.Scanned ys ↔ ys = xs) ∧
      (parse t).names = (xs.filterMap Lexeme.name?).tail) ∧
    (∀ n ∈ (parse t).names, isName n = true) ∧
    ((∃ b ∈ t, isLetter b = true) →
      (∀ n rest : Text, isName n = true → rest.EndsName →
        ∃ after, parse (t ++ " " ++ n ++ rest) = parse (t ++ " ") ++ .field n :: after ∧
          text after = rest) ∧
      ∀ (k : Width) (l : Layout k), l.validate = .ok () → ∀ n dest, .field n dest ∈ l →
        n ∈ (parse (t ++ " " ++ n)).names) := by
  have hscan := t.scanned_lexemes
  have hnames : ∀ n, .name n ∈ t.lexemes → n ≠ [] := by
    rintro n hn rfl
    cases hscan.isName_of_mem hn
  have halternates := alternates_ofLexemes hnames hscan.isChain
  refine ⟨text_parse t, halternates.source_ne_nil, halternates.isChain,
    ⟨t.lexemes, t.scanned_iff, names_ofLexemes t.lexemes⟩, ?_, fun hlead => ⟨?_, ?_⟩⟩
  · intro n hn
    rw [parse, names_ofLexemes] at hn
    obtain ⟨x, hx, hname⟩ := List.mem_filterMap.mp (List.mem_of_mem_tail hn)
    obtain rfl := (x.name?_eq_some_iff n).mp hname
    exact hscan.isName_of_mem hx
  · exact fun n rest hn hrest => parse_append_name hlead hn hrest
  · intro k l hl n dest hmem
    obtain ⟨hname, -, -⟩ := (l.validate_eq_ok_iff.mp hl).1 _ hmem
    obtain ⟨after, hparse, -⟩ := parse_append_name hlead hname endsName_nil
    rw [List.append_nil] at hparse
    rw [hparse]
    simp [names, Part.name?]

/-- The base register of a load, after the mnemonic and two other references and before a
bracket. -/
theorem parse_finds_references_load :
    let t : Text := "c.lw rd, imm( "
    (∃ b ∈ t, isLetter b = true) ∧ isName "rs1" = true ∧ EndsName ")" ∧
      (parse t).names = ["rd", "imm"] ∧
      ∃ after, parse (t ++ " " ++ "rs1" ++ ")") = parse (t ++ " ") ++ .field "rs1" :: after ∧
        text after = ")" := by
  intro t
  have hlead : ∃ b ∈ t, isLetter b = true := ⟨0x63, by decide, by decide⟩
  have hname : isName "rs1" = true := by decide
  have hbracket : EndsName ")" := endsName_cons (by decide) []
  exact ⟨hlead, hname, hbracket, by decide,
    ((parse_finds_references t).2.2.2.2.2 hlead).1 "rs1" ")" hname hbracket⟩

end Template

end Disassembly
