import Disassembly.Proofs.Layout.Scatter
import Disassembly.Proofs.Listing.Decoded
import Disassembly.Proofs.Table.BaseInteger
import Disassembly.Proofs.Template.Separated

/-!
# Decoding without loss

When can a word be found again from its text? The texts of two entries have to begin differently
(`Entry.Apart`), so that a text tells the entry; and the text of an entry has to tell all bits that
the entry leaves open (`Entry.Legible`): every field is shown, by an operand that tells the bits
which the field takes from the word. Both conditions are about the entries and about no particular
word, so for the built-in tables they are found to hold by computation
(`Table.baseInteger_unambiguous`, `Table.compressed_unambiguous`). Not quite for all entries: two of
the base integer instructions have the same text, and `c.nop` does not show its immediate. A table
is therefore `Table.Unambiguous` up to entries that are excused.
-/

namespace Disassembly

namespace Layout

variable {k : Width} {l : Layout k}

theorem hasField_iff_mem (name : Text) :
    l.HasField name ↔ name ∈ l.filterMap Segment.name? := by
  rw [HasField, List.mem_filterMap]
  constructor
  · rintro ⟨dest, hmem⟩
    exact ⟨_, hmem, rfl⟩
  · rintro ⟨s, hmem, hs⟩
    obtain ⟨dest, rfl⟩ := s.name?_eq_some_iff.mp hs
    exact ⟨dest, hmem⟩

theorem hasField_of_mem_destinations {name : Text} {d : UInt64} (h : d ∈ l.destinations name) :
    l.HasField name := by
  obtain ⟨s, hs, hd⟩ := List.mem_flatMap.mp h
  cases s with
  | literal len value => cases hd
  | field n dest =>
    have hd : d ∈ if n = name then dest else [] := hd
    by_cases hn : n = name
    · exact ⟨dest, hn ▸ hs⟩
    · rw [if_neg hn] at hd
      cases hd

/-- Names that a layout does not have are no trouble. -/
theorem nodup_destinations (h : ∀ name ∈ l.filterMap Segment.name?, (l.destinations name).Nodup)
    (name : Text) : (l.destinations name).Nodup := by
  by_cases hname : l.HasField name
  · exact h name ((hasField_iff_mem name).mp hname)
  · have hnil : l.destinations name = [] := by
      rw [List.eq_nil_iff_forall_not_mem]
      exact fun d hd => hname (hasField_of_mem_destinations hd)
    rw [hnil]
    exact List.nodup_nil

end Layout

namespace Entry

variable {k : Width} {e f : Entry k}

/-! ## One entry -/

/-- The text of an entry tells every bit that the entry leaves open: its operands can be told from
each other, no two bits of the word meet in one bit of a field, and every field is shown, by an
operand that tells the bits which the field takes. -/
def Legible (operands : List (Text × Operand)) (e : Entry k) : Prop :=
  e.template.Separated ∧ ∀ name ∈ e.layout.filterMap Segment.name?,
    (e.layout.destinations name).Nodup ∧ name ∈ e.template.names ∧
      ∀ b ∈ (e.layout.destinations name).map UInt64.toNat, (Operand.ofName operands name).Tells b

instance (operands : List (Text × Operand)) (e : Entry k) : Decidable (e.Legible operands) :=
  inferInstanceAs (Decidable (_ ∧ _))

variable {operands : List (Text × Operand)} {w w' : Word k} {fs fs' : Fields}

theorem Made.exists_get?_of_hasField (he : e.Made) (hfs : e.fields w = .ok fs) {name : Text}
    (hname : e.layout.HasField name) : ∃ v, fs.get? name = some v :=
  Option.isSome_iff_exists.mp ((he.isSome_get?_iff hfs name).mpr hname)

/-- Where the text is the same, the bits that a field takes from the word are the same. -/
theorem Legible.getLsbD_field (h : e.Legible operands) (he : e.Made)
    (hfs : e.fields w = .ok fs) (hfs' : e.fields w' = .ok fs')
    (htext : e.template.render fs (.ofOperands operands) =
      e.template.render fs' (.ofOperands operands))
    {name : Text} {d : UInt64} (hd : d ∈ e.layout.destinations name) :
    ((fs.get? name).getD 0).getLsbD d.toNat = ((fs'.get? name).getD 0).getLsbD d.toNat := by
  have hname := Layout.hasField_of_mem_destinations hd
  obtain ⟨-, hshown, htells⟩ := h.2 name ((Layout.hasField_iff_mem name).mp hname)
  have hfield := Template.eq_of_render_eq (Formatters.isOperandByte_get_ofOperands operands) h.1
    htext hshown
  obtain ⟨v, hv⟩ := he.exists_get?_of_hasField hfs hname
  obtain ⟨v', hv'⟩ := he.exists_get?_of_hasField hfs' hname
  simp only [Part.render, hv, hv', Formatters.get_ofOperands] at hfield
  rw [hv, hv', Option.getD_some, Option.getD_some]
  exact Operand.getLsbD_of_format_eq hfield (htells _ (List.mem_map_of_mem hd))

/-- A word is put together again from the fields that were read from it. -/
theorem Legible.scatter_eq (h : e.Legible operands) (he : e.Made) (hw : e.Matches w)
    (hfs : e.fields w = .ok fs) :
    e.layout.scatter (fun name => (fs.get? name).getD 0) = w := by
  have hnodup := Layout.nodup_destinations fun name hname => (h.2 name hname).1
  obtain ⟨fs', hfs', hback⟩ := Layout.scatter_fields he.extent he.wellFormed hnodup
    ((he.matches_iff_fixed w).mp hw)
  obtain rfl : fs = fs' := Except.ok.inj (hfs.symm.trans hfs')
  exact hback

/-- A word that matches a legible entry is determined by its text. -/
theorem Legible.eq_of_render_eq (h : e.Legible operands) (he : e.Made) (hw : e.Matches w)
    (hw' : e.Matches w') (hfs : e.fields w = .ok fs) (hfs' : e.fields w' = .ok fs')
    (htext : e.template.render fs (.ofOperands operands) =
      e.template.render fs' (.ofOperands operands)) : w = w' := by
  rw [← h.scatter_eq he hw hfs, ← h.scatter_eq he hw' hfs']
  refine BitVec.eq_of_getLsbD_eq fun i hi => ?_
  obtain ⟨r, hr⟩ := Layout.exists_role he.extent hi
  rw [Layout.getLsbD_scatter he.extent _ hr, Layout.getLsbD_scatter he.extent _ hr]
  cases r with
  | fixed b => rfl
  | part name d =>
    have hd := (e.layout.mem_destinations_iff name d).mpr ⟨i, hr⟩
    exact h.getLsbD_field he hfs hfs' htext hd

/-! ## Two entries -/

/-- The texts of two entries begin differently. -/
def Apart (e f : Entry k) : Prop :=
  ¬ e.template.lead <+: f.template.lead ∧ ¬ f.template.lead <+: e.template.lead

instance (e f : Entry k) : Decidable (e.Apart f) := inferInstanceAs (Decidable (_ ∧ _))

theorem Apart.render_ne (h : e.Apart f) (fs fs' : Fields) (formatters : Formatters) :
    e.template.render fs formatters ≠ f.template.render fs' formatters := by
  intro heq
  have he := e.template.lead_prefix_render fs formatters
  have hf := f.template.lead_prefix_render fs' formatters
  rw [← heq] at hf
  rcases List.prefix_or_prefix_of_prefix he hf with hle | hle
  · exact h.1 hle
  · exact h.2 hle

end Entry

namespace Table

variable {k : Width}

/-- Different entries are told apart by how their texts begin, and words of one entry by the rest of
the text, up to pairs of entries that are excused. -/
def Unambiguous (operands : List (Text × Operand)) (excused : Entry k → Entry k → Bool)
    (entries : List (Entry k)) : Prop :=
  (entries.Pairwise fun e f => e.Apart f ∨ excused e f = true) ∧
    ∀ e ∈ entries, e.Legible operands ∨ excused e e = true

instance (operands : List (Text × Operand)) (excused : Entry k → Entry k → Bool)
    (entries : List (Entry k)) : Decidable (Unambiguous operands excused entries) :=
  inferInstanceAs (Decidable (_ ∧ _))

/-- A word that some entry matches is found. -/
theorem exists_lookup_of_matches {t : Table k} (hmade : ∀ e ∈ t.entries, e.Made) {w : Word k}
    (h : ∃ e ∈ t.entries, e.Matches w) : ∃ e fs, t.lookup w = .ok (some (e, fs)) := by
  obtain ⟨e, he, hw⟩ := h
  rcases lookup_cases hmade w with ⟨hnone, -⟩ | ⟨e', fs, -, -, hrun⟩
  · exact absurd (((hmade e he).matches_iff w).mp hw) (hnone e he)
  · exact ⟨e', fs, hrun⟩

/-- Words with the same text are the same, or are found by entries that are excused. -/
theorem Unambiguous.eq_of_decode_eq {operands : List (Text × Operand)}
    {excused : Entry k → Entry k → Bool} {t : Table k}
    (h : Unambiguous operands excused t.entries) (hsymm : ∀ e f, excused e f = excused f e)
    (hmade : ∀ e ∈ t.entries, e.Made) (hformatters : t.formatters = .ofOperands operands)
    {w w' : Word k} (hw : ∃ e ∈ t.entries, e.Matches w) (hw' : ∃ e ∈ t.entries, e.Matches w')
    (htext : t.decode w = t.decode w') :
    w = w' ∨ ∃ e fs e' fs', t.lookup w = .ok (some (e, fs)) ∧ t.lookup w' = .ok (some (e', fs')) ∧
      excused e e' = true := by
  obtain ⟨e, fs, hlookup⟩ := exists_lookup_of_matches hmade hw
  obtain ⟨e', fs', hlookup'⟩ := exists_lookup_of_matches hmade hw'
  rw [decode_of_lookup_some hlookup, decode_of_lookup_some hlookup', hformatters] at htext
  have htext := Except.ok.inj htext
  obtain ⟨hmem, hmatch, hfs⟩ := lookup_eq_some hlookup
  obtain ⟨hmem', hmatch', hfs'⟩ := lookup_eq_some hlookup'
  by_cases hsame : e = e'
  · subst hsame
    rcases h.2 e hmem with hlegible | hexcused
    · exact .inl (hlegible.eq_of_render_eq (hmade e hmem) hmatch hmatch' hfs hfs' htext)
    · exact .inr ⟨e, fs, e, fs', hlookup, hlookup', hexcused⟩
  · have : Std.Symm fun e f : Entry k => e.Apart f ∨ excused e f = true := by
      refine ⟨?_⟩
      rintro e f (⟨hef, hfe⟩ | hexcused)
      · exact .inl ⟨hfe, hef⟩
      · exact .inr (hsymm e f ▸ hexcused)
    rcases h.1.forall hmem hmem' hsame with hapart | hexcused
    · exact absurd htext (hapart.render_ne fs fs' _)
    · exact .inr ⟨e, fs, e', fs', hlookup, hlookup', hexcused⟩

/-! ## The built-in tables -/

/-- How the fields of base integer instructions are shown. -/
def baseIntegerOperands : List (Text × Operand) :=
  [("rd", .register), ("rs1", .register), ("rs2", .register), ("imm12", .signed 12),
    ("off13", .signed 13), ("off21", .signed 21)]

/-- How the fields of compressed instructions are shown. -/
def compressedOperands : List (Text × Operand) :=
  [("rd", .register), ("rs1", .register), ("rs2", .register), ("crd", .shortRegister),
    ("crs1", .shortRegister), ("crs2", .shortRegister), ("imm6", .signed 6),
    ("nzimm10", .signed 10), ("nzimm18", .signed 18), ("off9", .signed 9), ("off12", .signed 12),
    ("uimm", .unsigned), ("shamt", .unsigned)]

end Table

/-- An entry for one of the two words without any or with all bits set, and no other. -/
def Entry.isUniform (e : Entry .full) : Bool :=
  e.pattern.mask == BitVec.allOnes 32 && (e.pattern.value == 0 || e.pattern.value == 0xFFFFFFFF)

theorem Entry.Matches.eq_of_isUniform {e : Entry .full} {w : BitVec 32} (hw : e.Matches w)
    (he : e.isUniform = true) : w = 0 ∨ w = 0xFFFFFFFF := by
  simp only [isUniform, Bool.and_eq_true, Bool.or_eq_true, beq_iff_eq] at he
  rw [Matches, he.1, BitVec.and_allOnes] at hw
  rw [hw]
  exact he.2

namespace Table

theorem baseInteger_unambiguous : Unambiguous baseIntegerOperands
    (fun e f => e.isUniform && f.isUniform) baseInteger.entries := by
  decide +kernel

theorem compressed_unambiguous : Unambiguous compressedOperands
    (fun e f => e == f && e.template.text == "c.nop") compressed.entries := by
  decide +kernel

/-- **Decoding with a built-in table loses nothing.** Base integer instructions with the same text
are the same word, unless they are the two illegal words without any or with all bits set; and
compressed instructions with the same text are the same word, unless both are found as `c.nop`. -/
theorem decode_loses_nothing :
    (∀ w w' : BitVec 32, (∃ e ∈ baseInteger.entries, e.Matches w) →
      (∃ e ∈ baseInteger.entries, e.Matches w') → baseInteger.decode w = baseInteger.decode w' →
        w = w' ∨ (w = 0 ∨ w = 0xFFFFFFFF) ∧ (w' = 0 ∨ w' = 0xFFFFFFFF)) ∧
    ∀ w w' : BitVec 16, (∃ e ∈ compressed.entries, e.Matches w) →
      (∃ e ∈ compressed.entries, e.Matches w') → compressed.decode w = compressed.decode w' →
        w = w' ∨ ∃ e fs fs', compressed.lookup w = .ok (some (e, fs)) ∧
          compressed.lookup w' = .ok (some (e, fs')) ∧ e.template.text = "c.nop" := by
  constructor
  · intro w w' hw hw' htext
    rcases baseInteger_unambiguous.eq_of_decode_eq (fun e f => Bool.and_comm _ _)
      writesLines_baseInteger.made (eq_of_load loadBaseInteger_eq).1 hw hw' htext with
      heq | ⟨e, fs, e', fs', hlookup, hlookup', hboth⟩
    · exact .inl heq
    · obtain ⟨he, he'⟩ := Bool.and_eq_true_iff.mp hboth
      obtain ⟨-, hmatch, -⟩ := lookup_eq_some hlookup
      obtain ⟨-, hmatch', -⟩ := lookup_eq_some hlookup'
      exact .inr ⟨hmatch.eq_of_isUniform he, hmatch'.eq_of_isUniform he'⟩
  · intro w w' hw hw' htext
    have hsymm : ∀ e f : Entry .compact, (e == f && e.template.text == "c.nop") =
        (f == e && f.template.text == "c.nop") := by
      intro e f
      by_cases hef : e = f
      · rw [hef]
      · rw [beq_false_of_ne hef, beq_false_of_ne (Ne.symm hef)]
        rfl
    rcases compressed_unambiguous.eq_of_decode_eq hsymm writesLines_compressed.made
      (eq_of_loadCompressed loadCompressed_eq).1 hw hw' htext with
      heq | ⟨e, fs, e', fs', hlookup, hlookup', hboth⟩
    · exact .inl heq
    · simp only [Bool.and_eq_true, beq_iff_eq] at hboth
      obtain ⟨rfl, hnop⟩ := hboth
      exact .inr ⟨e, fs, fs', hlookup, hlookup', hnop⟩

/-- The two illegal words, and two words with different immediates, each with the same text. -/
theorem decode_loses_nothing_nop :
    let w : BitVec 32 := 0
    let w' : BitVec 32 := 0xFFFFFFFF
    (baseInteger.decode w = .ok "<illegal>" ∧ baseInteger.decode w' = .ok "<illegal>" ∧ w ≠ w' ∧
      (w = 0 ∨ w = 0xFFFFFFFF) ∧ (w' = 0 ∨ w' = 0xFFFFFFFF)) ∧
    compressed.decode 0x0001 = compressed.decode 0x0005 ∧
      ∃ e fs fs', compressed.lookup 0x0001 = .ok (some (e, fs)) ∧
        compressed.lookup 0x0005 = .ok (some (e, fs')) ∧ e.template.text = "c.nop" := by
  intro w w'
  have hillegal : ((∃ e ∈ baseInteger.entries, e.Matches w) ∧
      ∃ e ∈ baseInteger.entries, e.Matches w') ∧
      baseInteger.decode w = .ok "<illegal>" ∧ baseInteger.decode w' = .ok "<illegal>" := by
    decide +kernel
  have hnop : ((∃ e ∈ compressed.entries, e.Matches 0x0001) ∧
      ∃ e ∈ compressed.entries, e.Matches 0x0005) ∧
      compressed.decode 0x0001 = .ok "c.nop" ∧ compressed.decode 0x0005 = .ok "c.nop" := by
    decide +kernel
  have hne : w ≠ w' := by decide
  obtain ⟨hwide, hcompact⟩ := decode_loses_nothing
  obtain ⟨⟨hmatch, hmatch'⟩, htext, htext'⟩ := hillegal
  refine ⟨⟨htext, htext', hne, ?_⟩, ?_⟩
  · exact (hwide w w' hmatch hmatch' (htext.trans htext'.symm)).resolve_left hne
  · obtain ⟨⟨hmatch, hmatch'⟩, htext, htext'⟩ := hnop
    have hsame := htext.trans htext'.symm
    exact ⟨hsame, (hcompact _ _ hmatch hmatch' hsame).resolve_left (by decide)⟩

end Table

end Disassembly
