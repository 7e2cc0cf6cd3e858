import Disassembly.Table.Basic
import Disassembly.Proofs.Layout.Reading
import Disassembly.Proofs.Layout.Recognition

/-!
# The first entry that agrees with a word

A table of entries that were made of layouts never meets an entry whose fields cannot be read. What
it finds is said without masks: the first entry whose layout agrees with the word, literal by
literal (`Table.FirstAgreeing`), with the fields of that layout. A reference in the template is
shown as a value exactly if the layout has a field of that name, whatever the word.

`Table.find?_eq_some_iff` turns the search into that predicate, and `Table.lookup_cases` says how a
look-up can end.
-/

namespace Disassembly

namespace Entry.Made

variable {k : Width} {e : Entry k}

/-- The fields of an entry can be read from every word, and they are those of its layout. -/
theorem fields_eq_ok (he : e.Made) (w : Word k) :
    ∃ fs, e.fields w = .ok fs ∧
      (∀ name, (fs.get? name).isSome = true ↔ e.layout.HasField name) ∧
      ∀ name, ∀ b < 32, ((fs.get? name).getD 0).getLsbD b = true ↔
        e.layout.Feeds w 0 name b := by
  have := Layout.fields_eq_ok (Nat.le_of_eq he.extent) w
  rwa [he.extent, Nat.sub_self] at this

theorem isSome_get?_iff (he : e.Made) {w : Word k} {fs : Fields} (hfs : e.fields w = .ok fs)
    (name : Text) : (fs.get? name).isSome = true ↔ e.layout.HasField name := by
  obtain ⟨fs', hfs', hnames, -⟩ := he.fields_eq_ok w
  obtain rfl : fs = fs' := Except.ok.inj (hfs.symm.trans hfs')
  exact hnames name

end Entry.Made

namespace Part

/-- What becomes of a part of a template for the fields of a word with a given layout. Text stays as
it is; a reference becomes the value of the field, shown by the formatter for it or else in
hexadecimal, if the layout has a field of that name, and the marker otherwise. -/
inductive Shown {k : Width} (l : Layout k) (fs : Fields) (formatters : Formatters) :
    Part → Text → Prop
  /-- text -/
  | text (t : Text) : Shown l fs formatters (.text t) t
  /-- a field that the layout does not have -/
  | marker {name : Text} (h : ¬ l.HasField name) : Shown l fs formatters (.field name) "****"
  /-- a field with a formatter -/
  | formatted {name : Text} {v : BitVec 32} {f : Formatter} (h : l.HasField name)
      (hv : fs.get? name = some v) (hf : formatters.lookup name = some f) :
      Shown l fs formatters (.field name) (f v)
  /-- a field without a formatter -/
  | plain {name : Text} {v : BitVec 32} (h : l.HasField name) (hv : fs.get? name = some v)
      (hf : formatters.lookup name = none) :
      Shown l fs formatters (.field name) ("0x" ++ Text.hex v.toNat)

variable {k : Width} {l : Layout k} {fs : Fields} {formatters : Formatters}

/-- A part can be shown in one way only. -/
theorem Shown.unique : Relator.RightUnique (Shown l fs formatters) := by
  intro p t u ht hu
  cases ht <;> cases hu <;> simp_all

/-- If the fields with a value are those of the layout, a part is rendered as it should be shown. -/
theorem shown_render (h : ∀ name, (fs.get? name).isSome = true ↔ l.HasField name)
    (formatters : Formatters) (p : Part) : Shown l fs formatters p (p.render fs formatters) := by
  cases p with
  | text t => exact .text t
  | field name =>
    rcases hget : fs.get? name with _ | v
    · have hnone : ¬ l.HasField name := by
        rw [← h name, hget]
        exact Bool.false_ne_true
      rw [render, hget]
      exact .marker hnone
    · have hname : l.HasField name := by
        rw [← h name, hget]
        rfl
      rw [render, hget]
      dsimp only
      rcases hf : formatters.lookup name with _ | f
      · rw [Formatters.get, hf]
        exact .plain hname hget hf
      · rw [Formatters.get, hf]
        exact .formatted hname hget hf

end Part

/-- A template is rendered piece by piece. -/
theorem Template.exists_pieces {k : Width} {l : Layout k} {fs : Fields}
    (h : ∀ name, (fs.get? name).isSome = true ↔ l.HasField name) (formatters : Formatters)
    (t : Template) :
    ∃ pieces, t.render fs formatters = pieces.flatten ∧
      List.Forall₂ (Part.Shown l fs formatters) t pieces := by
  refine ⟨t.map (Part.render fs formatters), List.flatMap_def, ?_⟩
  rw [List.forall₂_map_right_iff, List.forall₂_same]
  exact fun p _ => Part.shown_render h formatters p

namespace Table

variable {k : Width}

/-- An entry is the first of the table whose layout agrees with a word. -/
def FirstAgreeing (t : Table k) (w : Word k) (e : Entry k) : Prop :=
  ∃ before after, t.entries = before ++ e :: after ∧
    (∀ f ∈ before, ¬ f.layout.Agrees w) ∧ e.layout.Agrees w

theorem FirstAgreeing.mem {t : Table k} {w : Word k} {e : Entry k} (h : t.FirstAgreeing w e) :
    e ∈ t.entries := by
  obtain ⟨before, after, hsplit, -⟩ := h
  rw [hsplit]
  exact List.mem_append_right _ List.mem_cons_self

/-! ## What is rendered -/

theorem decode_of_lookup_none {t : Table k} {w : Word k} (h : t.lookup w = .ok none) :
    t.decode w = .ok (notFound k) := by
  rw [decode, h]
  rfl

theorem decode_of_lookup_some {t : Table k} {w : Word k} {e : Entry k} {fs : Fields}
    (h : t.lookup w = .ok (some (e, fs))) :
    t.decode w = .ok (e.template.render fs t.formatters) := by
  rw [decode, h]
  rfl

/-! ## What is found -/

variable {t : Table k} (hmade : ∀ e ∈ t.entries, e.Made)
include hmade

theorem find?_eq_none_iff (w : Word k) :
    t.find? w = none ↔ ∀ e ∈ t.entries, ¬ e.layout.Agrees w := by
  rw [find?, List.find?_eq_none]
  refine ⟨?_, ?_⟩
  · intro h e he
    rw [← (hmade e he).matches_iff]
    simpa using h e he
  · intro h e he
    rw [decide_eq_true_eq, (hmade e he).matches_iff]
    exact h e he

theorem find?_eq_some_iff (w : Word k) (e : Entry k) :
    t.find? w = some e ↔ t.FirstAgreeing w e := by
  rw [find?, List.find?_eq_some_iff_append]
  refine ⟨?_, ?_⟩
  · rintro ⟨he, before, after, hsplit, hbefore⟩
    have hmem : ∀ f, f ∈ before ++ e :: after → f.Made := fun f hf => hmade f (hsplit ▸ hf)
    refine ⟨before, after, hsplit, fun f hf => ?_, ?_⟩
    · rw [← (hmem f (List.mem_append_left _ hf)).matches_iff]
      simpa using hbefore f hf
    · rw [← (hmem e (List.mem_append_right _ List.mem_cons_self)).matches_iff]
      simpa using he
  · rintro ⟨before, after, hsplit, hbefore, he⟩
    have hmem : ∀ f, f ∈ before ++ e :: after → f.Made := fun f hf => hmade f (hsplit ▸ hf)
    refine ⟨?_, before, after, hsplit, fun f hf => ?_⟩
    · rw [decide_eq_true_eq,
        (hmem e (List.mem_append_right _ List.mem_cons_self)).matches_iff]
      exact he
    · have := hbefore f hf
      rw [← (hmem f (List.mem_append_left _ hf)).matches_iff] at this
      simpa using this

theorem lookup_of_none_agrees {w : Word k} (h : ∀ e ∈ t.entries, ¬ e.layout.Agrees w) :
    t.lookup w = .ok none := by
  rw [lookup, (find?_eq_none_iff hmade w).mpr h]

theorem lookup_of_firstAgreeing {w : Word k} {e : Entry k} (he : t.FirstAgreeing w e) :
    ∃ fs, e.fields w = .ok fs ∧ t.lookup w = .ok (some (e, fs)) ∧
      ∀ name, (fs.get? name).isSome = true ↔ e.layout.HasField name := by
  obtain ⟨fs, hfs, hnames, -⟩ := (hmade e he.mem).fields_eq_ok w
  refine ⟨fs, hfs, ?_, hnames⟩
  rw [lookup, (find?_eq_some_iff hmade w e).mpr he]
  simp only [hfs]

/-- The look-up never fails: it finds nothing, or it finds an entry. -/
theorem lookup_cases (w : Word k) :
    ((∀ e ∈ t.entries, ¬ e.layout.Agrees w) ∧ t.lookup w = .ok none) ∨
      ∃ e fs, t.FirstAgreeing w e ∧ e.fields w = .ok fs ∧ t.lookup w = .ok (some (e, fs)) := by
  rcases hfind : t.find? w with _ | e
  · have hnone := (find?_eq_none_iff hmade w).mp hfind
    exact .inl ⟨hnone, lookup_of_none_agrees hmade hnone⟩
  · have he := (find?_eq_some_iff hmade w e).mp hfind
    obtain ⟨fs, hfs, hrun, -⟩ := lookup_of_firstAgreeing hmade he
    exact .inr ⟨e, fs, he, hfs, hrun⟩

/-- **A table finds the first entry that agrees with a word.** The masks of its entries are set
exactly at the bits of literals and their patterns nowhere else; look-up and decoding succeed on
every word; the look-up gives the first entry whose layout agrees with the word, with its fields,
and nothing exactly if no layout agrees. The text is the template rendered with these fields, piece
by piece: the marker stands for the references that the layout has no field for, and only for
these. -/
theorem lookup_finds_first_agreeing (w : Word k) :
    (∀ e ∈ t.entries, (∀ i, e.pattern.mask.getLsbD i = true ↔ e.layout.IsLiteralBit i) ∧
      e.pattern.value &&& ~~~e.pattern.mask = 0) ∧
    (∃ r, t.lookup w = .ok r) ∧ (∃ text, t.decode w = .ok text) ∧
    (t.lookup w = .ok none ↔ ∀ e ∈ t.entries, ¬ e.layout.Agrees w) ∧
    (∀ e fs, t.lookup w = .ok (some (e, fs)) ↔
      t.FirstAgreeing w e ∧ e.fields w = .ok fs) ∧
    ((∀ e ∈ t.entries, ¬ e.layout.Agrees w) → t.decode w = .ok (notFound k)) ∧
    ∀ e, t.FirstAgreeing w e → ∃ fs pieces, e.fields w = .ok fs ∧
      t.decode w = .ok (e.template.render fs t.formatters) ∧
      e.template.render fs t.formatters = pieces.flatten ∧
      List.Forall₂ (Part.Shown e.layout fs t.formatters) e.template pieces := by
  refine ⟨fun e he => ⟨(hmade e he).getLsbD_mask_iff, (hmade e he).value_and_not_mask⟩,
    ?_, ?_, ?_, ?_, ?_, ?_⟩
  · rcases lookup_cases hmade w with ⟨-, hrun⟩ | ⟨e, fs, -, -, hrun⟩
    · exact ⟨_, hrun⟩
    · exact ⟨_, hrun⟩
  · rcases lookup_cases hmade w with ⟨-, hrun⟩ | ⟨e, fs, -, -, hrun⟩
    · exact ⟨_, decode_of_lookup_none hrun⟩
    · exact ⟨_, decode_of_lookup_some hrun⟩
  · refine ⟨?_, ?_⟩
    · intro h
      rcases lookup_cases hmade w with ⟨hnone, -⟩ | ⟨e, fs, -, -, hrun⟩
      · exact hnone
      · rw [h] at hrun
        simp at hrun
    · intro h
      exact lookup_of_none_agrees hmade h
  · intro e fs
    refine ⟨?_, ?_⟩
    · intro h
      rcases lookup_cases hmade w with ⟨-, hrun⟩ | ⟨e', fs', he, hfs, hrun⟩
      · rw [h] at hrun
        simp at hrun
      · rw [h] at hrun
        simp only [Except.ok.injEq, Option.some.injEq, Prod.mk.injEq] at hrun
        obtain ⟨rfl, rfl⟩ := hrun
        exact ⟨he, hfs⟩
    · rintro ⟨he, hfs⟩
      obtain ⟨fs', hfs', hrun, -⟩ := lookup_of_firstAgreeing hmade he
      rw [hfs, Except.ok.injEq] at hfs'
      rw [hrun, hfs']
  · intro h
    exact decode_of_lookup_none (lookup_of_none_agrees hmade h)
  · intro e he
    obtain ⟨fs, hfs, hrun, hnames⟩ := lookup_of_firstAgreeing hmade he
    obtain ⟨pieces, hflat, hpieces⟩ := Template.exists_pieces hnames t.formatters e.template
    exact ⟨fs, pieces, hfs, decode_of_lookup_some hrun, hflat, hpieces⟩

omit hmade in
/-- The first two entries both agree with the word zero, and the template of the first refers to a
field that its layout does not have. -/
theorem lookup_finds_first_agreeing_zero :
    let move : Entry .compact :=
      ⟨[.literal 4 0, .field "rd" [4, 3, 2, 1, 0], .literal 7 0],
        [.text "move ", .field "rd", .text ", ", .field "rs"], ⟨0xF07F, 0⟩⟩
    let halt : Entry .compact := ⟨[.literal 16 0], [.text "halt"], ⟨0xFFFF, 0⟩⟩
    let table : Table .compact := ⟨[move, halt], [("rd", Operand.register.format)]⟩
    (∀ e ∈ table.entries, e.Made) ∧ move.layout.Agrees 0 ∧ halt.layout.Agrees 0 ∧
      table.decode 0 = .ok "move x0, ****" := by
  intro move halt table
  have hmade : ∀ e ∈ table.entries, e.Made := by
    intro e he
    rcases List.mem_cons.mp he with rfl | he
    · exact ⟨move.layout, move.template, by decide⟩
    · obtain rfl := List.mem_singleton.mp he
      exact ⟨halt.layout, halt.template, by decide⟩
  have hfirst : table.FirstAgreeing 0 move := (find?_eq_some_iff hmade 0 move).mp (by decide)
  have hhalt : halt.layout.Agrees 0 :=
    ((hmade halt (by decide)).matches_iff 0).mp (by decide)
  obtain ⟨-, -, -, -, -, -, hdecode⟩ := lookup_finds_first_agreeing hmade 0
  obtain ⟨fs, pieces, hfs, htext, hflat, hpieces⟩ := hdecode move hfirst
  obtain rfl : ([("rd", 0)] : Fields) = fs := Except.ok.inj hfs
  have hrd : Part.Shown move.layout [("rd", 0)] table.formatters (.field "rd") "x0" :=
    .formatted (v := 0) (f := Operand.register.format) (by decide) rfl rfl
  have hrs : Part.Shown move.layout [("rd", 0)] table.formatters (.field "rs") "****" :=
    .marker (by decide)
  have hshown : List.Forall₂ (Part.Shown move.layout [("rd", 0)] table.formatters) move.template
      ["move ", "x0", ", ", "****"] :=
    .cons (.text _) (.cons hrd (.cons (.text _) (.cons hrs .nil)))
  obtain rfl := Part.Shown.unique.forall₂ hpieces hshown
  refine ⟨hmade, ?_, hhalt, ?_⟩
  · obtain ⟨-, -, -, -, hagrees⟩ := hfirst
    exact hagrees
  · rw [htext, hflat]
    rfl

end Table

end Disassembly
