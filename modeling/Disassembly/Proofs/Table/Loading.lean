import Disassembly.Table.Load
import Disassembly.Proofs.Entry.Quotes
import Disassembly.Proofs.Listing.Line
import Mathlib.Data.List.ReduceOption

/-!
# A table is the sequence of its lines

A text is loaded line by line. What a line holds is a matter of the line alone (`Table.Holds`):
nothing, or the entry that is described before the comment. Lines that can be read add their
entries in order and count, whatever follows them (`Table.readEntries_append`), so the first line
that cannot be read is reported with its number.

`TableLine` says which lines hold something by how they are written. It has to be shown that the
comment begins where the line says (`Scans.dropComment_append`) and that a carriage return at the
end of a line makes no difference (`trim_dropComment_dropReturn`).
-/

namespace Disassembly

open Text

/-! ## The lines of a text -/

namespace Text

theorem pieces_append_cons {sep : UInt8} {t : Text} (ht : sep ∉ t) (u : Text) :
    pieces sep (t ++ sep :: u) = t :: pieces sep u := by
  induction t with
  | nil => simp [pieces_cons, splitStep]
  | cons b t ih =>
    rw [List.mem_cons, not_or] at ht
    rw [List.cons_append, pieces_cons, ih ht.2, splitStep, if_neg (Ne.symm ht.1)]

theorem pieces_ofLines_append {ls : List Text} (hls : ∀ l ∈ ls, 0x0A ∉ l) (t : Text) :
    pieces 0x0A (ofLines ls ++ t) = ls ++ pieces 0x0A t := by
  induction ls with
  | nil => rfl
  | cons l ls ih =>
    obtain ⟨hl, hls⟩ := List.forall_mem_cons.mp hls
    have hsplit : ofLines (l :: ls) ++ t = l ++ 0x0A :: (ofLines ls ++ t) := by
      simp [ofLines]
    rw [hsplit, pieces_append_cons hl, ih hls, List.cons_append]

/-- Lines that have been ended are the lines of a text, whatever follows them. -/
theorem lines_ofLines_append {ls : List Text} (hls : ∀ l ∈ ls, 0x0A ∉ l) (t : Text) :
    lines (ofLines ls ++ t) = ls ++ lines t := by
  have hne := pieces_ne_nil 0x0A t
  simp only [lines, pieces_ofLines_append hls t, List.getLast?_append_of_ne_nil ls hne,
    List.dropLast_append_of_ne_nil hne]
  split <;> rfl

theorem lines_ofLines {ls : List Text} (hls : ∀ l ∈ ls, 0x0A ∉ l) : lines (ofLines ls) = ls := by
  have h := lines_ofLines_append hls []
  rwa [List.append_nil, show lines [] = [] from rfl, List.append_nil] at h

/-- A line goes on to the next line feed or to the end of the text. -/
theorem exists_lines_eq_cons {l rest : Text} (hl : 0x0A ∉ l) (hne : l ≠ [])
    (hrest : rest = [] ∨ ∃ r, rest = 0x0A :: r) : ∃ more, lines (l ++ rest) = l :: more := by
  rcases hrest with rfl | ⟨r, rfl⟩
  · have hpieces : pieces 0x0A l = [l] := by
      have h := pieces_joinWith (List.cons_ne_nil l []) (List.forall_mem_singleton.mpr hl)
      rwa [joinWith, List.intercalate_singleton] at h
    refine ⟨[], ?_⟩
    simp only [List.append_nil, lines, hpieces, List.getLast?_singleton]
    rw [if_neg (by simpa using hne)]
  · have h := lines_ofLines_append (List.forall_mem_singleton.mpr hl) r
    refine ⟨lines r, ?_⟩
    rwa [show ofLines [l] ++ r = l ++ 0x0A :: r by simp [ofLines]] at h

theorem le_lineCapacity_of_lt {ls : List Text} (hfit : ∀ l ∈ ls, l.length < 65536) :
    ∀ l ∈ ls, decide (l.length ≤ lineCapacity) = true := by
  intro l hl
  have := hfit l hl
  rw [decide_eq_true_eq, lineCapacity]
  omega

/-- What the reader delivers begins with the lines that fit. -/
theorem exists_readLines_eq {t : Text} {ls more : List Text} (hlines : t.lines = ls ++ more)
    (hfit : ∀ l ∈ ls, l.length < 65536) :
    ∃ more', t.readLines.lines = ls.map dropReturn ++ more' := by
  refine ⟨(more.takeWhile (·.length ≤ lineCapacity)).map dropReturn, ?_⟩
  rw [readLines, hlines, ← List.map_append]
  exact congrArg (List.map dropReturn) (List.takeWhile_append_of_pos (le_lineCapacity_of_lt hfit))

/-- A text of lines that fit is delivered as a whole. -/
theorem readLines_ofLines {ls : List Text} (hls : ∀ l ∈ ls, 0x0A ∉ l)
    (hfit : ∀ l ∈ ls, l.length < 65536) : (ofLines ls).readLines = ⟨ls.map dropReturn, false⟩ := by
  have hall : ls.takeWhile (·.length ≤ lineCapacity) = ls :=
    List.takeWhile_eq_self_iff.mpr (le_lineCapacity_of_lt hfit)
  simp [readLines, lines_ofLines hls, hall]

end Text

/-! ## Carriage returns -/

theorem dropCommentFrom_append_return (done : Text) (quoted : Bool) (t : Text) :
    dropCommentFrom done quoted (t ++ [0x0D]) = dropCommentFrom done quoted t ∨
      dropCommentFrom done quoted (t ++ [0x0D]) = dropCommentFrom done quoted t ++ [0x0D] := by
  induction t generalizing done quoted with
  | nil => exact .inr (by simp [dropCommentFrom])
  | cons b t ih =>
    rw [List.cons_append, dropCommentFrom, dropCommentFrom]
    split
    · exact .inl rfl
    · exact ih _ _

/-- A carriage return at the end of a line belongs to the comment or is white space. -/
theorem trim_dropComment_dropReturn (l : Text) :
    (dropComment (dropReturn l)).trim = (dropComment l).trim := by
  unfold dropReturn
  split
  · rename_i hlast
    have hl : l.dropLast ++ [0x0D] = l := List.dropLast_append_getLast? _ hlast
    rcases dropCommentFrom_append_return [] false l.dropLast with h | h
    · rw [hl] at h
      rw [dropComment, dropComment, h]
    · rw [hl] at h
      rw [dropComment, dropComment, h, trim_append_of_isGap _ (by decide)]
  · rfl

/-! ## What lines hold -/

namespace Table

variable {k : Width}

/-- A line holds nothing, or an entry. -/
def Holds (l : Text) : Option (Entry k) → Prop
  | none => (dropComment l).trim = []
  | some e => Entry.parse (dropComment l) = .ok e

theorem holds_dropReturn_iff (l : Text) (e : Option (Entry k)) :
    Holds (dropReturn l) e ↔ Holds l e := by
  cases e with
  | none => rw [Holds, Holds, trim_dropComment_dropReturn]
  | some e =>
    rw [Holds, Holds, ← Entry.parse_trim, trim_dropComment_dropReturn, Entry.parse_trim]

theorem forall₂_holds_dropReturn {ls : List Text} {es : List (Option (Entry k))}
    (h : List.Forall₂ Holds ls es) : List.Forall₂ Holds (ls.map dropReturn) es := by
  rw [List.forall₂_map_left_iff]
  exact h.imp fun l e he => (holds_dropReturn_iff l e).mpr he

theorem trim_ne_nil_of_parse {t : Text} {e : Entry k} (h : Entry.parse t = .ok e) :
    t.trim ≠ [] := by
  obtain ⟨text, rest, htrim, -⟩ := Entry.exists_quoted_of_parse h
  rw [htrim]
  exact List.cons_ne_nil _ _

/-- One line more: it counts, and its entry is added. -/
theorem readEntries_cons {l : Text} {e : Option (Entry k)} (h : Holds l e)
    (done : List (Entry k)) (number : Nat) (ls : List Text) :
    readEntries done number (l :: ls) = readEntries (e.toList ++ done) (number + 1) ls := by
  rw [readEntries]
  cases e with
  | none =>
    rw [Holds] at h
    rw [h]
    rfl
  | some e =>
    rw [Holds] at h
    rw [if_neg (by simpa using trim_ne_nil_of_parse h), Entry.parse_trim, h]
    rfl

/-- Lines that can be read add their entries, whatever follows them. -/
theorem readEntries_append {ls : List Text} {es : List (Option (Entry k))}
    (h : List.Forall₂ Holds ls es) (done : List (Entry k)) (number : Nat) (more : List Text) :
    readEntries done number (ls ++ more) =
      readEntries (es.reduceOption.reverse ++ done) (number + ls.length) more := by
  induction h generalizing done number with
  | nil => rfl
  | @cons l e ls es hl _ ih =>
    rw [List.cons_append, readEntries_cons hl, ih, List.length_cons, Nat.add_right_comm,
      Nat.add_assoc number]
    cases e with
    | none => rfl
    | some e => simp [List.reduceOption_cons_of_some]

theorem exists_forall₂_holds {ls : List Text}
    (h : ∀ l ∈ ls, (dropComment l).trim = [] ∨ ∃ e : Entry k, Entry.parse (dropComment l) = .ok e) :
    ∃ es : List (Option (Entry k)), List.Forall₂ Holds ls es := by
  induction ls with
  | nil => exact ⟨[], .nil⟩
  | cons l ls ih =>
    obtain ⟨hl, hls⟩ := List.forall_mem_cons.mp h
    obtain ⟨es, hes⟩ := ih hls
    rcases hl with hblank | ⟨e, he⟩
    · exact ⟨none :: es, .cons hblank hes⟩
    · exact ⟨some e :: es, .cons he hes⟩

/-- A line that is not blank and cannot be read ends the reading. -/
theorem readEntries_cons_error {l : Text} (hne : (dropComment l).trim ≠ []) {f : SourceFault k}
    (h : Entry.parse (dropComment l) = .error f) (done : List (Entry k)) (number : Nat)
    (ls : List Text) : readEntries done number (l :: ls) = .error (.line number f) := by
  rw [readEntries, if_neg (by simpa using hne), Entry.parse_trim, h]

/-! ## Loading -/

theorem load_of_holds {ls : List Text} {es : List (Option (Entry k))}
    (h : List.Forall₂ Holds ls es) (hls : ∀ l ∈ ls, 0x0A ∉ l)
    (hfit : ∀ l ∈ ls, l.length < 65536) (formatters : Formatters) :
    load formatters (ofLines ls) none = .ok ⟨es.reduceOption, formatters⟩ := by
  have hread := readEntries_append (forall₂_holds_dropReturn h) [] 1 []
  rw [List.append_nil, List.append_nil, readEntries, List.reverse_reverse] at hread
  simp [load, readLines_ofLines hls hfit, hread, bind, Except.bind, pure, Except.pure]

/-- The first line that is not blank and cannot be read is reported, whatever follows it. -/
theorem load_of_holds_error {before : List Text} {es : List (Option (Entry k))}
    (h : List.Forall₂ Holds before es) {l : Text} (hne : (dropComment l).trim ≠ [])
    {f : SourceFault k} (hparse : Entry.parse (dropComment l) = .error f)
    (hlines : ∀ m ∈ l :: before, 0x0A ∉ m) (hfit : ∀ m ∈ l :: before, m.length < 65536)
    {rest : Text} (hrest : rest = [] ∨ ∃ r, rest = 0x0A :: r) (formatters : Formatters)
    (failure : Option Text) :
    load formatters (ofLines before ++ (l ++ rest)) failure =
      .error (.line (before.length + 1) f) := by
  obtain ⟨hl, hbefore⟩ := List.forall_mem_cons.mp hlines
  have hlne : l ≠ [] := by
    rintro rfl
    exact hne rfl
  obtain ⟨more, hmore⟩ := exists_lines_eq_cons hl hlne hrest
  have hall : lines (ofLines before ++ (l ++ rest)) = before ++ [l] ++ more := by
    rw [lines_ofLines_append hbefore, hmore, List.append_assoc, List.singleton_append]
  obtain ⟨more', hread⟩ := exists_readLines_eq hall fun m hm => hfit m (by
    rwa [List.mem_append, List.mem_singleton, or_comm, ← List.mem_cons] at hm)
  have herror : readEntries [] 1 (ofLines before ++ (l ++ rest)).readLines.lines =
      .error (.line (before.length + 1) f) := by
    rw [hread, List.map_append, List.append_assoc,
      readEntries_append (forall₂_holds_dropReturn h)]
    rw [← trim_dropComment_dropReturn] at hne
    rw [← Entry.parse_trim, ← trim_dropComment_dropReturn, Entry.parse_trim] at hparse
    rw [List.map_singleton, List.singleton_append, readEntries_cons_error hne hparse,
      List.length_map, Nat.add_comm]
  rw [load, herror]
  rfl

end Table

/-! ## How lines are written -/

/-- Spaces and tabs. -/
def Text.IsIndent (t : Text) : Prop := ∀ b ∈ t, b = 0x20 ∨ b = 0x09

/-- Nothing, or a comment up to the end of a line. -/
def Text.IsComment (t : Text) : Prop := t = [] ∨ ∃ body, t = 0x23 :: body ∧ 0x0A ∉ body

/-- A line of a table as it is written, and what it holds: nothing up to a comment, or a description
that can be read. A carriage return may stand before the line feed. -/
inductive TableLine (k : Width) : Text → Option (Entry k) → Prop where
  | blank {indent comment : Text} (hindent : indent.IsIndent) (hcomment : comment.IsComment) :
      TableLine k (indent ++ comment) none
  | entry {indent source gap comment : Text} {e : Entry k} (hindent : indent.IsIndent)
      (hline : 0x0A ∉ source) (hparse : Entry.parse source = .ok e) (hgap : gap.IsIndent)
      (hcomment : comment.IsComment) :
      TableLine k (indent ++ (source ++ (gap ++ comment))) (some e)
  | withReturn {l : Text} {e : Option (Entry k)} (h : TableLine k l e) :
      TableLine k (l ++ [0x0D]) e

namespace Text

theorem IsIndent.isGap {t : Text} (h : t.IsIndent) : ∀ b ∈ t, isGap b = true := by
  intro b hb
  rcases h b hb with rfl | rfl <;> rfl

theorem IsIndent.scans {t : Text} (h : t.IsIndent) : Scans false t false := by
  refine .of_not_mem (fun hmem => ?_) fun hmem => ?_
  · rcases h _ hmem with hb | hb <;> cases hb
  · rcases h _ hmem with hb | hb <;> cases hb

theorem IsIndent.not_mem {t : Text} (h : t.IsIndent) : 0x0A ∉ t := by
  intro hmem
  rcases h _ hmem with hb | hb <;> cases hb

theorem IsComment.not_mem {t : Text} (h : t.IsComment) : 0x0A ∉ t := by
  rcases h with rfl | ⟨body, rfl, hbody⟩
  · exact List.not_mem_nil
  · rw [List.mem_cons]
    rintro (hb | hmem)
    · cases hb
    · exact hbody hmem

/-- A comment is dropped where it was written. -/
theorem IsComment.dropComment_append {t : Text} (h : t.IsComment) {u : Text}
    (hu : Scans false u false) : dropComment (u ++ t) = u := by
  rcases h with rfl | ⟨body, rfl, -⟩
  · rw [List.append_nil, hu.dropComment_eq]
  · exact hu.dropComment_append body

end Text

namespace TableLine

variable {k : Width} {l : Text} {e : Option (Entry k)}

theorem holds (h : TableLine k l e) : Table.Holds l e := by
  induction h with
  | blank hindent hcomment =>
    have htrim := trim_append_gap [] hindent.isGap
    rw [Table.Holds, hcomment.dropComment_append hindent.scans]
    rwa [List.nil_append] at htrim
  | @entry indent source gap comment e hindent hline hparse hgap hcomment =>
    have hscans := hindent.scans.append ((Entry.scans_of_parse hparse).append hgap.scans)
    have hsplit : indent ++ (source ++ (gap ++ comment)) =
        (indent ++ (source ++ gap)) ++ comment := by
      simp only [List.append_assoc]
    rw [Table.Holds, hsplit, hcomment.dropComment_append hscans, ← Entry.parse_trim,
      trim_gap_append hindent.isGap, trim_append_gap _ hgap.isGap, Entry.parse_trim, hparse]
  | @withReturn l e _ ih =>
    have hdrop : dropReturn (l ++ [0x0D]) = l := by
      simp [dropReturn]
    rw [← Table.holds_dropReturn_iff, hdrop]
    exact ih

theorem not_mem (h : TableLine k l e) : 0x0A ∉ l := by
  induction h with
  | blank hindent hcomment =>
    rw [List.mem_append, not_or]
    exact ⟨hindent.not_mem, hcomment.not_mem⟩
  | entry hindent hline hparse hgap hcomment =>
    simp only [List.mem_append, not_or]
    exact ⟨hindent.not_mem, hline, hgap.not_mem, hcomment.not_mem⟩
  | withReturn _ ih =>
    rw [List.mem_append, not_or]
    exact ⟨ih, by decide⟩

end TableLine

/-! ## The main result -/

/-- **A table is read line by line.** Lines that hold nothing or a description, as `TableLine` has
it, make the table of their descriptions in order. The first line that is neither blank nor a
description fails the reading with its number and its own fault, whatever follows it: more lines, a
line that is too long, or the failure of the reader. -/
theorem Table.load_reads_lines (k : Width) (formatters : Formatters) :
    (∀ (ls : List Text) (es : List (Option (Entry k))), List.Forall₂ (TableLine k) ls es →
      (∀ l ∈ ls, l.length < 65536) →
        load formatters (ofLines ls) none = .ok ⟨es.reduceOption, formatters⟩) ∧
    (∀ (before : List Text) (l rest : Text) (failure : Option Text) (fault : SourceFault k),
      (∀ m ∈ l :: before, 0x0A ∉ m ∧ m.length < 65536) →
      (∀ m ∈ before, (dropComment m).trim = [] ∨
        ∃ e : Entry k, Entry.parse (dropComment m) = .ok e) →
      (dropComment l).trim ≠ [] → Entry.parse (dropComment l) = .error fault →
      (rest = [] ∨ ∃ r, rest = 0x0A :: r) →
        ∃ error, load formatters (ofLines before ++ (l ++ rest)) failure = .error error ∧
          error = .line (before.length + 1) fault ∧
          error.message = "line " ++ decimal (before.length + 1) ++ ": " ++ fault.message) := by
  constructor
  · intro ls es hls hfit
    obtain ⟨hlines, hholds⟩ := (List.forall₂_and_left ls es).mp
      (hls.imp fun _ _ h => ⟨h.not_mem, h.holds⟩)
    exact load_of_holds hholds hlines hfit formatters
  · intro before l rest failure fault hlines hbefore hne hparse hrest
    obtain ⟨es, hes⟩ := exists_forall₂_holds hbefore
    exact ⟨_, load_of_holds_error hes hne hparse (fun m hm => (hlines m hm).1)
      (fun m hm => (hlines m hm).2) hrest formatters failure, rfl, rfl⟩

/-- A comment with a quote in it, a description with `#` in its quotes, and a line that is wrong. -/
theorem Table.load_reads_lines_third :
    let source : Text := "\"a#b\", 0000000000000000"
    let head : List Text := [[0x20] ++ ofString "# say \"" ++ [0x0D],
      [0x09] ++ (source ++ ([0x20] ++ ofString "# \"c\" #"))]
    ∃ e : Entry .compact, Entry.parse source = .ok e ∧
      load [] (ofLines head) none = .ok ⟨[e], []⟩ ∧
      load [] (ofLines head ++ ("oops" ++ "\n\"")) (some "gone") =
        .error (LoadError.line (k := .compact) 3 (.unquoted "oops")) := by
  intro source head
  have hsource : (Entry.parse source : Except (SourceFault .compact) _).isOk = true := by
    decide +kernel
  obtain ⟨hread, hfail⟩ := Table.load_reads_lines .compact []
  cases hparse : (Entry.parse source : Except (SourceFault .compact) _) with
  | error fault =>
    rw [hparse] at hsource
    cases hsource
  | ok e =>
    have hfirst : TableLine .compact ([0x20] ++ ofString "# say \"" ++ [0x0D]) none :=
      .withReturn (.blank (by simp [IsIndent])
        (.inr ⟨" say \"", by decide +kernel, by decide +kernel⟩))
    have hsecond : TableLine .compact
        ([0x09] ++ (source ++ ([0x20] ++ ofString "# \"c\" #"))) (some e) :=
      .entry (by simp [IsIndent]) (by decide +kernel) hparse (by simp [IsIndent])
        (.inr ⟨" \"c\" #", by decide +kernel, by decide +kernel⟩)
    refine ⟨e, rfl, ?_, ?_⟩
    · exact hread head [none, some e] (.cons hfirst (.cons hsecond .nil)) (by decide +kernel)
    · have hhead : ∀ m ∈ head, (dropComment m).trim = [] ∨
          ∃ e : Entry .compact, Entry.parse (dropComment m) = .ok e := by
        rw [List.forall_mem_cons, List.forall_mem_singleton]
        exact ⟨.inl hfirst.holds, .inr ⟨e, hsecond.holds⟩⟩
      obtain ⟨error, hload, rfl, -⟩ := hfail head "oops" "\n\"" (some "gone") (.unquoted "oops")
        (by decide +kernel) hhead (by decide +kernel) (by decide +kernel)
        (.inr ⟨"\"", by decide +kernel⟩)
      exact hload

end Disassembly
