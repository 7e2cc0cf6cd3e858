import Disassembly.Fixed.Assembly
import Disassembly.Table.BaseInteger
import Disassembly.Table.Compressed
import Disassembly.Proofs.Entry.BitGrammar
import Disassembly.Proofs.Fixed.Selection
import Disassembly.Proofs.Table.FirstMatch
import Disassembly.Proofs.Text.OneLine

/-!
# Decoded words stay on their lines

Whatever decodes a word gives a text on one line. The fixed decoder puts its texts together from
names and operands (`OpcodeTable.oneLine_textOf`). A table takes the text from a template that
somebody wrote; it stays on one line because the descriptions of entries were lines themselves, and
the rest of the text is made by formatters (`Table.WritesLines`). This holds of a table that was
loaded, whatever the text (`Table.writesLines_of_load`), and of the tables that are built in.
-/

namespace Disassembly

open Text

/-! ## The fixed decoder -/

namespace Instruction

theorem oneLine_hexText (width n : Nat) : (hexText width n).OneLine := by
  rw [hexText, oneLine_append]
  exact ⟨by decide, oneLine_of_isSolid (isSolid_zeroPad (by decide) (by decide) width n)⟩

/-- The operands of every format are registers and numbers. -/
theorem oneLine_operandTexts (inst : Instruction) (operands : Operands) :
    ∀ t ∈ inst.operandTexts operands, t.OneLine := by
  unfold operandTexts
  split <;> simp [oneLine_registerName, oneLine_unsignedHex, apply_ite OneLine]

theorem oneLine_textWith (inst : Instruction) {name : Text} (hname : name.OneLine)
    (operands : Operands) : (inst.textWith name operands).OneLine := by
  unfold textWith
  split
  · exact hname
  · split
    · exact hname
    · have hjoin : (joinWith ", " (inst.operandTexts operands)).OneLine :=
        not_mem_joinWith (by decide) (inst.oneLine_operandTexts operands)
      rw [oneLine_append, oneLine_append, oneLine_padRight]
      exact ⟨⟨hname, by decide⟩, hjoin⟩

end Instruction

namespace OpcodeTable

theorem oneLine_name_of_mem : ∀ o ∈ Operation.all, o.name.OneLine := by
  decide

theorem mem_ops_of_lookup {t : OpcodeTable} {inst : Instruction} {o : Operation}
    (h : t.lookup inst = some o) : o ∈ t.ops := by
  obtain ⟨s, -, hs⟩ := List.exists_of_findSome?_eq_some h
  exact List.mem_of_find?_eq_some hs

/-- The fixed decoder writes one line for each word. -/
theorem oneLine_textOf (ss : List Standard) (w : BitVec 32) :
    ((ofStandards ss).textOf w).OneLine := by
  unfold textOf
  split
  · decide
  · simp only
    split
    · rw [oneLine_append, oneLine_append]
      exact ⟨⟨by decide, Instruction.oneLine_hexText _ _⟩, by decide⟩
    · rename_i f hf
      rcases hlookup : (ofStandards ss).lookup (Instruction.decode w f (majorOpcodeOf w))
        with _ | o
      · exact Instruction.oneLine_textWith _ (by decide) _
      · have ho := mem_all_of_mem_ops (mem_ops_of_lookup hlookup)
        exact Instruction.oneLine_textWith _ (oneLine_name_of_mem o ho) _

end OpcodeTable

/-! ## Tables -/

namespace Formatters

/-- A field without a formatter of its own is shown in hexadecimal. -/
theorem oneLine_get {fs : Formatters} (h : ∀ p ∈ fs, ∀ v, (p.2 v).OneLine) (name : Text)
    (v : BitVec 32) : (fs.get name v).OneLine := by
  rw [get]
  rcases hlookup : fs.lookup name with _ | f
  · exact oneLine_unsignedHex v
  · obtain ⟨before, after, rfl, -⟩ := List.lookup_eq_some_iff.mp hlookup
    exact h (name, f) (by simp) v

end Formatters

namespace Template

theorem oneLine_render {parts : Template} (hparts : parts.text.OneLine) (fs : Fields)
    {formatters : Formatters} (hformat : ∀ name v, (formatters.get name v).OneLine) :
    (parts.render fs formatters).OneLine := by
  intro hmem
  obtain ⟨p, hp, hbreak⟩ := List.mem_flatMap.mp hmem
  cases p with
  | text t => exact hparts (List.mem_flatMap.mpr ⟨_, hp, hbreak⟩)
  | field name =>
    rw [Part.render] at hbreak
    split at hbreak
    · exact hformat _ _ hbreak
    · revert hbreak
      decide

end Template

namespace Entry

variable {k : Width}

/-- The text of an entry that was read is part of what it was read from. -/
theorem text_subset_of_parse {source : Text} {e : Entry k} (h : parse source = .ok e) :
    e.template.text ⊆ source := by
  obtain ⟨text, rest, hsource, -, hmake⟩ := exists_quoted_of_parse h
  obtain ⟨-, -, he⟩ := (make_eq_ok_iff _ _ _).mp hmake
  have htext : e.template.text = text := by
    rw [he]
    exact Template.text_parse text
  intro b hb
  apply trim_subset
  rw [hsource, List.mem_cons, List.mem_append]
  exact .inr (.inl (htext ▸ hb))

theorem made_of_parse {source : Text} {e : Entry k} (h : parse source = .ok e) : e.Made := by
  obtain ⟨text, -, hmake⟩ := exists_make_of_parse h
  exact ⟨_, _, hmake⟩

end Entry

namespace Table

variable {k : Width}

/-- A table whose entries were made of layouts, and whose templates and formatters stay on one
line. -/
structure WritesLines (t : Table k) : Prop where
  made : ∀ e ∈ t.entries, e.Made
  template : ∀ e ∈ t.entries, e.template.text.OneLine
  formatter : ∀ name v, (t.formatters.get name v).OneLine

/-- Such a table writes one line for each word. -/
theorem WritesLines.oneLine_textOf {t : Table k} (ht : t.WritesLines) (w : Word k) :
    (t.textOf w).OneLine := by
  rcases lookup_cases ht.made w with ⟨-, hrun⟩ | ⟨e, fs, he, -, hrun⟩
  · rw [textOf, decode_of_lookup_none hrun]
    cases k <;> decide
  · rw [textOf, decode_of_lookup_some hrun]
    exact Template.oneLine_render (ht.template e he.mem) fs ht.formatter

/-- Entries that were read from lines make a table that writes lines. -/
theorem writesLines_of_parse {t : Table k}
    (hentries : ∀ e ∈ t.entries, ∃ source, source.OneLine ∧ Entry.parse source = .ok e)
    (hformat : ∀ p ∈ t.formatters, ∀ v, (p.2 v).OneLine) : t.WritesLines where
  made := by
    intro e he
    obtain ⟨source, -, hparse⟩ := hentries e he
    exact Entry.made_of_parse hparse
  template := by
    intro e he
    obtain ⟨source, hsource, hparse⟩ := hentries e he
    exact hsource.of_subset (Entry.text_subset_of_parse hparse)
  formatter := Formatters.oneLine_get hformat

/-! ### Tables from text -/

theorem dropCommentFrom_subset (done : Text) (quoted : Bool) (t : Text) :
    dropCommentFrom done quoted t ⊆ done ++ t := by
  intro b hb
  induction t generalizing done quoted with
  | nil => simpa [dropCommentFrom] using hb
  | cons c t ih =>
    rw [dropCommentFrom] at hb
    split at hb
    · exact List.mem_append_left _ (List.mem_reverse.mp hb)
    · have := ih _ _ hb
      simp only [List.cons_append, List.mem_cons, List.mem_append] at this ⊢
      tauto

/-- The source of an entry is a line without its comment. -/
theorem exists_line_of_readEntries {done es : List (Entry k)} {number : Nat} {ls : List Text}
    (h : readEntries done number ls = .ok es) {e : Entry k} (he : e ∈ es) :
    e ∈ done ∨ ∃ l ∈ ls, Entry.parse (dropComment l).trim = .ok e := by
  induction ls generalizing done number with
  | nil =>
    obtain rfl := Except.ok.inj h
    exact .inl (List.mem_reverse.mp he)
  | cons l ls ih =>
    rw [readEntries] at h
    split at h
    · rcases ih h with hdone | ⟨m, hm, hparse⟩
      · exact .inl hdone
      · exact .inr ⟨m, List.mem_cons_of_mem l hm, hparse⟩
    · split at h
      · cases h
      · rename_i e' hparse
        rcases ih h with hdone | ⟨m, hm, hm'⟩
        · rcases List.mem_cons.mp hdone with rfl | hdone
          · exact .inr ⟨l, List.mem_cons_self, hparse⟩
          · exact .inl hdone
        · exact .inr ⟨m, List.mem_cons_of_mem l hm, hm'⟩

/-- A table that was loaded has the formatters that it was given, and entries from the lines. -/
theorem eq_of_load {formatters : Formatters} {source : Text} {failure : Option Text} {t : Table k}
    (h : load formatters source failure = .ok t) :
    t.formatters = formatters ∧ readEntries [] 1 source.readLines.lines = .ok t.entries := by
  simp only [load, bind, Except.bind] at h
  split at h
  · cases h
  · rename_i es hread
    split at h
    · cases h
    · split at h
      · cases h
      · obtain rfl := Except.ok.inj h
        exact ⟨rfl, hread⟩

/-- A table that was loaded writes lines, whatever it was loaded from. -/
theorem writesLines_of_load {formatters : Formatters} {source : Text} {failure : Option Text}
    {t : Table k} (hformat : ∀ p ∈ formatters, ∀ v, (p.2 v).OneLine)
    (h : load formatters source failure = .ok t) : t.WritesLines := by
  obtain ⟨rfl, hread⟩ := eq_of_load h
  refine writesLines_of_parse (fun e he => ?_) hformat
  rcases exists_line_of_readEntries hread he with hnil | ⟨l, hl, hparse⟩
  · exact absurd hnil List.not_mem_nil
  · refine ⟨_, ?_, hparse⟩
    have hline := (oneLine_of_mem_readLines hl).of_subset (dropCommentFrom_subset [] false l)
    exact hline.of_subset (trim_subset _)

/-! ### Built-in tables -/

theorem oneLine_of_mem_compressedFormatters :
    ∀ p ∈ compressedFormatters, ∀ v, (p.2 v).OneLine := by
  simp [compressedFormatters, oneLine_format]

/-- The table of compressed instructions has its formatters, and entries from the descriptions. -/
theorem eq_of_loadCompressed {t : Table .compact} (h : loadCompressed = .ok t) :
    t.formatters = compressedFormatters ∧
      ∀ e ∈ t.entries, ∃ line ∈ compressedSource, Entry.parse (ofString line) = .ok e := by
  obtain ⟨es, hes, ht⟩ := (bind_eq_ok_iff _ _ _).mp h
  obtain rfl := Except.ok.inj ht
  rw [mapM_eq_ok_iff] at hes
  refine ⟨rfl, fun e he => ?_⟩
  obtain ⟨⟨line, i⟩, hline, hparse⟩ := exists_mem_of_forall₂ hes e he
  rw [Entry.mapError_eq_ok_iff] at hparse
  exact ⟨line, List.fst_mem_of_mem_zipIdx hline, hparse⟩

theorem writesLines_compressed : compressed.WritesLines := by
  -- the bytes of the descriptions are found out by the kernel alone, which is the quickest way
  have hlines : ∀ s ∈ compressedSource, (ofString s).OneLine := by decide +kernel
  obtain ⟨hformatters, hentries⟩ := eq_of_loadCompressed loadCompressed_eq
  refine writesLines_of_parse (fun e he => ?_) ?_
  · obtain ⟨line, hline, hparse⟩ := hentries e he
    exact ⟨_, hlines line hline, hparse⟩
  · rw [hformatters]
    exact oneLine_of_mem_compressedFormatters

theorem writesLines_baseInteger : baseInteger.WritesLines := by
  refine writesLines_of_load ?_ loadBaseInteger_eq
  simp [baseIntegerFormatters, oneLine_format]

end Table

end Disassembly
