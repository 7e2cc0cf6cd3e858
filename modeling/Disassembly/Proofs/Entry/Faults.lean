import Disassembly.Proofs.Entry.BitGrammar
import Disassembly.Proofs.Layout.Acceptance

/-!
# What can be wrong with a description

A description is read in two stages: its groups are read one by one, and the layout that they make
is checked. The two stages fail for different causes.

* `Segment.Denotes` is the grammar of groups, and a group is read exactly if it follows it
  (`Segment.parse_eq_ok_iff`). Otherwise the cause is one of grammar, of a name, of an empty bit
  list or of digits for which the word is too short (`Segment.cause_of_parse`).
* `Entry.Divided` says what the groups of a description are, and `Entry.parse_of_divided` that
  they are read before anybody looks at the layout.
* A group that was read leaves little for the second stage to find: `n` binary digits fit in `n`
  bits, names are names and bit lists are not empty (`Segment.Denotes.cause_of_illFormed`). What is
  left is a destination out of range and a wrong number of bits.
* A report ends with the cause, and no cause ends like another (`SourceFault.message_suffix_iff`).
-/

namespace Disassembly

open Text

/-! ## Groups -/

theorem Word.ofBinary_eq_ok_iff {k : Width} (t : Text) (v : Word k) :
    Word.ofBinary t = .ok v ↔
      ∃ n, IsNumeral 2 n t ∧ n < 2 ^ k.bits ∧ v = BitVec.ofNat k.bits n := by
  have hlimit : ∀ n, n ≤ (BitVec.allOnes k.bits).toNat ↔ n < 2 ^ k.bits := by
    intro n
    have := Nat.two_pow_pos k.bits
    rw [BitVec.toNat_allOnes]
    omega
  rw [Word.ofBinary]
  constructor
  · intro h
    rcases hread : readNumeral 2 (BitVec.allOnes k.bits).toNat t with e | n
    · rw [hread] at h
      cases h
    · rw [hread] at h
      obtain ⟨hnumeral, hle⟩ := (readNumeral_eq_ok_iff (by decide) _ _ _).mp hread
      exact ⟨n, hnumeral, (hlimit n).mp hle, (Except.ok.inj h).symm⟩
  · rintro ⟨n, hnumeral, hlt, rfl⟩
    rw [(readNumeral_eq_ok_iff (by decide) _ _ _).mpr ⟨hnumeral, (hlimit n).mpr hlt⟩]
    rfl

theorem eq_or_eq_of_isBinaryDigit {b : UInt8} (hb : isBinaryDigit b = true) :
    b = 0x30 ∨ b = 0x31 := by
  simpa [isBinaryDigit] using hb

theorem isBinaryDigit_of_isNumeral {n : Nat} {t : Text} (h : IsNumeral 2 n t) :
    ∀ b ∈ t, isBinaryDigit b = true := by
  have hall : ∀ d < 2, isBinaryDigit (digitByte d) = true := by decide
  obtain ⟨ds, -, hds, rfl, -⟩ := h
  intro b hb
  obtain ⟨d, hd, rfl⟩ := List.mem_map.mp hb
  exact hall d (hds d hd)

namespace Segment

variable {k : Width}

/-- The segment that a group denotes. -/
inductive Denotes : Text → Segment k → Prop
  /-- binary digits of a number that the word has room for -/
  | digits {group : Text} {n : Nat} (h : IsNumeral 2 n group) (hn : n < 2 ^ k.bits) :
      Denotes group (literal (length64 group) (BitVec.ofNat k.bits n))
  /-- a name, with white space around it, and a bit list in brackets -/
  | field {name title list : Text} {dest : List UInt64} (hname : isName name = true)
      (htitle : Padded name title) (hlist : BitList.Denotes list dest) :
      Denotes (title ++ 0x5B :: (list ++ [0x5D])) (field name dest)

/-- A group is read exactly if it follows the grammar, and to what it denotes. -/
theorem parse_eq_ok_iff (group : Text) (s : Segment k) : parse group = .ok s ↔ Denotes group s := by
  constructor
  · intro h
    rw [parse] at h
    split at h
    · cases h
    split at h
    · split at h
      · cases h
      · rename_i value hvalue
        obtain ⟨n, hnumeral, hlt, rfl⟩ := (Word.ofBinary_eq_ok_iff group value).mp hvalue
        obtain rfl := Except.ok.inj h
        exact .digits hnumeral hlt
    split at h
    · cases h
    rename_i before after hcut
    split at h
    · cases h
    rename_i list hlist
    split at h
    · cases h
    rename_i hname
    split at h
    · cases h
    rename_i dest hdest
    obtain rfl := Except.ok.inj h
    rw [(eq_of_cut? hcut).1, eq_of_bitListOf? hlist]
    exact .field (by simpa using hname) (padded_trim before)
      ((BitList.parse_eq_ok_iff list dest).mp hdest)
  · intro h
    cases h with
    | @digits _ n h hn =>
      have hempty : group.isEmpty = false := by
        obtain ⟨ds, hne, -, rfl, -⟩ := h
        simpa using hne
      have hword := (Word.ofBinary_eq_ok_iff group (BitVec.ofNat k.bits n)).mpr ⟨n, h, hn, rfl⟩
      rw [parse, hempty, List.all_eq_true.mpr (isBinaryDigit_of_isNumeral h), hword]
      rfl
    | @field name title list dest hname htitle hlist =>
      have hempty : (title ++ 0x5B :: (list ++ [0x5D])).isEmpty = false := by simp
      have hbinary : (title ++ 0x5B :: (list ++ [0x5D])).all isBinaryDigit = false := by
        rw [List.all_append, List.all_cons, show isBinaryDigit 0x5B = false from rfl]
        simp
      have hcut := cut?_append (htitle.not_mem (b := 0x5B) (by decide)
        (not_mem_of_isName hname (by decide))) (list ++ [0x5D])
      have htrim := (trim_eq_iff (framed_of_isName hname) title).mpr htitle
      simp only [parse, hempty, hbinary, hcut, bitListOf?_append, htrim, hname,
        (BitList.parse_eq_ok_iff list dest).mpr hlist]
      rfl

/-- Binary digits that are no word have a number that is too great for it. -/
theorem error_of_ofBinary {group : Text} (hne : group.isEmpty = false)
    (hbinary : group.all isBinaryDigit = true) {e : NumeralError}
    (h : (Word.ofBinary group : Except NumeralError (Word k)) = .error e) : e = .outOfRange := by
  rw [Word.ofBinary, readNumeral, hne] at h
  rcases hread : readDigits 2 (BitVec.allOnes k.bits).toNat 0 group with e' | n
  · simp only [Bool.false_eq_true, if_false, hread] at h
    obtain rfl := Except.error.inj h
    refine error_of_readDigits (fun b hb => ?_) hread
    rcases eq_or_eq_of_isBinaryDigit (List.all_eq_true.mp hbinary b hb) with rfl | rfl
    · exact ⟨0, by decide, rfl⟩
    · exact ⟨1, by decide, rfl⟩
  · simp only [Bool.false_eq_true, if_false, hread] at h
    cases h

/-- Why a group cannot be read. -/
theorem cause_of_parse {group : Text} {f : GroupFault}
    (h : (parse group : Except GroupFault (Segment k)) = .error f) :
    f.cause ∈ [.grammar, .fieldName, .emptyBits, .numeral .outOfRange] := by
  rw [parse] at h
  split at h
  · obtain rfl := Except.error.inj h
    simp [GroupFault.cause]
  rename_i hne
  split at h
  · rename_i hbinary
    split at h
    · rename_i e he
      obtain rfl := Except.error.inj h
      rw [error_of_ofBinary (Bool.eq_false_iff.mpr hne) hbinary he]
      simp [GroupFault.cause]
    · cases h
  split at h
  · obtain rfl := Except.error.inj h
    simp [GroupFault.cause]
  split at h
  · obtain rfl := Except.error.inj h
    simp [GroupFault.cause]
  split at h
  · obtain rfl := Except.error.inj h
    simp [GroupFault.cause]
  split at h
  · rename_i e he
    obtain rfl := Except.error.inj h
    rcases BitList.cause_of_parse he with ⟨-, hcause⟩ | ⟨-, hcause⟩ <;>
      simp [GroupFault.cause, hcause]
  · cases h

namespace Denotes

variable {group : Text} {s : Segment k} (h : Denotes group s)
include h

/-- Of a segment that was read, only a length or a destination can be wrong. -/
theorem cause_of_illFormed {c : Cause} (hill : s.IllFormed c) :
    c ∈ [.bitOutOfRange, .widthMismatch] := by
  cases h with
  | digits h hn =>
    cases hill with
    | length => simp
    | overflow _ hle hvalue =>
      -- as many digits as the literal has bits denote a number that fits in them
      have hbits := k.bits_le
      rw [toNat_length64] at hle hvalue
      rw [Nat.min_eq_left (by omega), BitVec.toNat_ofNat, Nat.mod_eq_of_lt hn] at hvalue
      have := h.lt_pow (by decide)
      omega
  | field hname _ hlist =>
    cases hill with
    | name _ hname' => cases hname.symm.trans hname'
    | noBits => exact absurd rfl hlist.ne_nil
    | bit => simp

/-- A literal with more digits than the word has bits is refused whatever its digits are. -/
theorem not_wellFormed_of_long (hbinary : group.all isBinaryDigit = true)
    (hlong : k.bits < group.length) : ¬ s.WellFormed := by
  cases h with
  | digits h hn =>
    rintro ⟨-, hle, -⟩
    have hbits := k.bits_le
    rw [toNat_length64] at hle
    omega
  | field =>
    rw [List.all_append, List.all_cons, show isBinaryDigit 0x5B = false from rfl] at hbinary
    simp at hbinary

theorem extent_le : s.extent ≤ 256 * group.length := by
  cases h with
  | digits h hn =>
    rw [extent, toNat_length64]
    omega
  | field _ _ hlist =>
    have := hlist.length_le
    simp only [extent, List.length_append, List.length_cons]
    omega

end Denotes

end Segment

/-! ## Reports -/

/-- No cause can be mistaken for another at the end of a report. -/
theorem Cause.eq_of_message_suffix {c d : Cause} {report : Text} (hc : c.message <:+ report)
    (hd : d.message <:+ report) : c = d := by
  have hdistinct : c.message <:+ d.message ∨ d.message <:+ c.message → c = d := by
    rcases c with _ | _ | _ | _ | _ | _ | (_ | _) <;>
      rcases d with _ | _ | _ | _ | _ | _ | (_ | _) <;> decide
  exact hdistinct (List.suffix_or_suffix_of_suffix hc hd)

theorem BitListFault.cause_message_suffix (f : BitListFault) : f.cause.message <:+ f.message := by
  cases f with
  | empty => exact List.suffix_rfl
  | index | ascending => exact List.suffix_append _ _

theorem GroupFault.cause_message_suffix (f : GroupFault) : f.cause.message <:+ f.message := by
  cases f with
  | empty | form | name => exact List.suffix_append _ _
  | digits g e =>
    have hreport : e.message <:+ binaryReport g e :=
      (List.suffix_append _ _).trans (List.suffix_append _ _)
    exact hreport.trans (List.suffix_append _ _)
  | bits n f => exact f.cause_message_suffix.trans (List.suffix_append _ _)

theorem EntryFault.cause_message_suffix {k : Width} (f : EntryFault k) (text : Text) :
    f.cause.message <:+ f.message text := by
  have hreason : f.cause.message <:+ f.reason := by
    rcases f with (_ | _) | (_ | _) <;> exact List.suffix_append _ _
  exact hreason.trans (List.suffix_append _ _)

/-- The report on a fault ends with its cause. -/
theorem SourceFault.cause_message_suffix {k : Width} (f : SourceFault k) :
    f.cause.message <:+ f.message := by
  cases f with
  | unquoted | unterminated | separator => exact List.suffix_append _ _
  | group t f => exact f.cause_message_suffix.trans (List.suffix_append _ _)
  | entry t f => exact f.cause_message_suffix t

theorem SourceFault.message_suffix_iff {k : Width} (f : SourceFault k) (c : Cause) :
    c.message <:+ f.message ↔ c = f.cause := by
  constructor
  · exact fun h => Cause.eq_of_message_suffix h f.cause_message_suffix
  · rintro rfl
    exact f.cause_message_suffix

/-! ## Descriptions -/

namespace Entry

variable {k : Width}

/-- What is wrong with a layout is wrong with one of its segments, or it is the number of bits. -/
theorem exists_illFormed_or_widthMismatch {l : Layout k} {t : Template} {f : EntryFault k}
    (h : make l t = .error f) : (∃ s ∈ l, s.IllFormed f.cause) ∨ f.cause = .widthMismatch := by
  rcases hfault : l.firstFault? 0 with _ | g
  · exact .inr (cause_of_wellFormed ((l.firstFault?_eq_none_iff 0).mp hfault) h)
  · obtain rfl := Except.error.inj (h.symm.trans (make_of_firstFault? hfault t))
    obtain ⟨before, s, after, g, rfl, -, hg, rfl⟩ := (l.firstFault?_eq_some_iff 0 _).mp hfault
    exact .inl ⟨s, List.mem_append_right _ List.mem_cons_self, Segment.illFormed_of_fault? hg⟩

/-- Why no entry can be made of groups that can be read. -/
theorem cause_of_make {groups : List Text} {l : Layout k}
    (hl : List.Forall₂ Segment.Denotes groups l) {t : Template} {f : EntryFault k}
    (h : make l t = .error f) : f.cause ∈ [.bitOutOfRange, .widthMismatch] := by
  rcases exists_illFormed_or_widthMismatch h with ⟨s, hs, hill⟩ | hwidth
  · obtain ⟨g, -, hg⟩ := exists_mem_of_forall₂ hl s hs
    exact hg.cause_of_illFormed hill
  · simp [hwidth]

/-- What a description is divided into: a text in quotes and, each after a comma, the groups. White
space around the whole, after the quotes and around a group belongs to neither. -/
inductive Divided : Text → Text → List Text → Prop
  /-- there are no groups -/
  | bare {source text rest : Text} (hsource : source.trim = 0x22 :: (text ++ 0x22 :: rest))
      (htext : 0x22 ∉ text) (hrest : rest.trim = []) : Divided source text []
  /-- there are groups after a comma -/
  | grouped {source text rest body : Text} (hsource : source.trim = 0x22 :: (text ++ 0x22 :: rest))
      (htext : 0x22 ∉ text) (hrest : rest.trim = 0x2C :: body) :
      Divided source text ((pieces 0x2C body).map trim)

theorem mapError_eq_error_iff {α β γ : Type} (f : α → β) (x : Except α γ) (e : β) :
    x.mapError f = .error e ↔ ∃ e', x = .error e' ∧ f e' = e := by
  cases x <;> simp [Except.mapError]

theorem parse_of_quoted {source text rest : Text}
    (hsource : source.trim = 0x22 :: (text ++ 0x22 :: rest)) (htext : 0x22 ∉ text) :
    (parse source : Except (SourceFault k) (Entry k)) =
      (parseLayout source.trim text rest >>= fun l =>
        (make l (Template.parse text)).mapError (.entry text)) := by
  have hsplit : (splitSource source.trim : Except (SourceFault k) _) = .ok (text, rest) := by
    rw [hsource]
    exact splitSource_quoted htext rest
  rw [parse, hsplit]
  rfl

/-- The groups of a description are read first, and an entry is made of what they denote. -/
theorem parse_of_divided {source text : Text} {groups : List Text}
    (h : Divided source text groups) :
    (parse source : Except (SourceFault k) (Entry k)) =
      ((groups.mapM Segment.parse).mapError (.group text) >>= fun l =>
        (make l (Template.parse text)).mapError (.entry text)) := by
  cases h with
  | bare hsource htext hrest =>
    rw [parse_of_quoted hsource htext, parseLayout, hrest]
    rfl
  | grouped hsource htext hrest =>
    rw [parse_of_quoted hsource htext, parseLayout, hrest, List.mapM_map]
    rfl

/-- A description that is not divided like this is a fault of grammar. -/
theorem divided_or_cause (source : Text) :
    (∃ text groups, Divided source text groups) ∨
      ∃ f : SourceFault k, parse source = .error f ∧ f.cause = .grammar := by
  rcases hsplit : (splitSource source.trim : Except (SourceFault k) _) with f | ⟨text, rest⟩
  · refine .inr ⟨f, by rw [parse, hsplit]; rfl, ?_⟩
    rw [splitSource] at hsplit
    split at hsplit
    · obtain rfl := Except.error.inj hsplit
      rfl
    split at hsplit
    · obtain rfl := Except.error.inj hsplit
      rfl
    · cases hsplit
  obtain ⟨hsource, htext⟩ := eq_of_splitSource hsplit
  rcases hrest : rest.trim with _ | ⟨b, body⟩
  · exact .inl ⟨text, [], .bare hsource htext hrest⟩
  by_cases hb : b = 0x2C
  · subst hb
    exact .inl ⟨text, _, .grouped hsource htext hrest⟩
  · refine .inr ⟨.separator source.trim, ?_, rfl⟩
    rw [parse_of_quoted hsource htext, parseLayout, hrest]
    simp only [if_neg hb]
    rfl

namespace Divided

variable {source text : Text} {groups : List Text} (h : Divided source text groups)
include h

theorem exists_of_ok {e : Entry k} (hparse : parse source = .ok e) :
    ∃ l, List.Forall₂ Segment.Denotes groups l ∧ make l (Template.parse text) = .ok e := by
  rw [parse_of_divided h, bind_eq_ok_iff] at hparse
  obtain ⟨l, hl, hmake⟩ := hparse
  rw [mapError_eq_ok_iff, mapM_eq_ok_iff] at hl
  exact ⟨l, hl.imp fun _ _ => (Segment.parse_eq_ok_iff _ _).mp, (mapError_eq_ok_iff _ _ _).mp hmake⟩

/-- Either some group cannot be read, or all can and no entry can be made of them. -/
theorem cause_or_denotes {f : SourceFault k} (hparse : parse source = .error f) :
    f.cause ∈ [.grammar, .fieldName, .emptyBits, .numeral .outOfRange] ∨
    f.cause ∈ [.bitOutOfRange, .widthMismatch] ∧
      ∃ l : Layout k, List.Forall₂ Segment.Denotes groups l := by
  rw [parse_of_divided h, bind_eq_error_iff] at hparse
  rcases hparse with hgroups | ⟨l, hl, hmake⟩
  · obtain ⟨e, he, rfl⟩ := (mapError_eq_error_iff _ _ _).mp hgroups
    obtain ⟨g, -, hg⟩ := exists_of_mapM_eq_error he
    exact .inl (Segment.cause_of_parse hg)
  · rw [mapError_eq_ok_iff, mapM_eq_ok_iff] at hl
    obtain ⟨e, he, rfl⟩ := (mapError_eq_error_iff _ _ _).mp hmake
    have hdenotes := hl.imp fun _ _ => (Segment.parse_eq_ok_iff _ _).mp
    exact .inr ⟨cause_of_make hdenotes he, l, hdenotes⟩

/-- If all groups can be read, the rest is up to the layout. -/
theorem parse_of_denotes {l : Layout k} (hl : List.Forall₂ Segment.Denotes groups l) :
    parse source = (make l (Template.parse text)).mapError (.entry text) := by
  have hgroups : groups.mapM Segment.parse = .ok l :=
    (mapM_eq_ok_iff _ _).mpr (hl.imp fun _ _ => (Segment.parse_eq_ok_iff _ _).mpr)
  rw [parse_of_divided h, hgroups]
  rfl

/-- There is a limit to the bits that a description of a given length can describe. -/
theorem extent_le {l : Layout k} (hl : List.Forall₂ Segment.Denotes groups l) :
    l.extent ≤ 256 * source.length := by
  cases h with
  | bare =>
    rw [List.forall₂_nil_left_iff.mp hl]
    exact Nat.zero_le _
  | @grouped rest body hsource htext hrest =>
    rw [List.forall₂_map_left_iff] at hl
    have hbody : l.extent ≤ 256 * body.length := by
      rw [Layout.extent_eq_sum, ← joinWith_pieces 0x2C body]
      refine sum_le_mul_length_joinWith hl.flip fun s _ piece hs => ?_
      have := hs.extent_le
      have := length_trim_le piece
      omega
    have hlong := length_trim_le source
    have hafter := length_trim_le rest
    rw [hsource] at hlong
    rw [hrest] at hafter
    simp only [List.length_append, List.length_cons] at hlong hafter
    omega

/-- The check of a layout that was read leaves nothing for its pattern to find. -/
theorem exists_pattern_of_validate {l : Layout k} (hl : List.Forall₂ Segment.Denotes groups l)
    (hlength : source.length < 2 ^ 56) (hv : l.validate = .ok ()) : ∃ p, l.pattern = .ok p := by
  have hextent := Layout.extent_eq_of_validate hv (by have := h.extent_le hl; omega)
  have hcountable : ∀ s ∈ l, s.Countable :=
    fun s hs => ((l.validate_eq_ok_iff.mp hv).1 s hs).countable
  exact ⟨_, (Layout.pattern_eq_ok_iff hcountable _).mpr ⟨hextent, rfl⟩⟩

theorem exists_error_of_long {g : Text} (hg : g ∈ groups) (hbinary : g.all isBinaryDigit = true)
    (hlong : k.bits < g.length) : ∃ f : SourceFault k, parse source = .error f := by
  rcases hparse : (parse source : Except (SourceFault k) (Entry k)) with f | e
  · exact ⟨f, rfl⟩
  · obtain ⟨l, hl, hmake⟩ := h.exists_of_ok hparse
    obtain ⟨s, hs, hdenotes⟩ := exists_mem_of_forall₂ hl.flip g hg
    have hwf := ((make_eq_ok_iff _ _ _).mp hmake).1 s hs
    exact absurd hwf (hdenotes.not_wellFormed_of_long hbinary hlong)

theorem exists_error_of_malformed {g : Text} (hg : g ∈ groups)
    (hmalformed : ¬ ∃ s : Segment k, Segment.Denotes g s) :
    ∃ f : SourceFault k, parse source = .error f ∧
      f.cause ∈ [.grammar, .fieldName, .emptyBits, .numeral .outOfRange] := by
  have hall : ¬ ∃ l : Layout k, List.Forall₂ Segment.Denotes groups l := by
    rintro ⟨l, hl⟩
    obtain ⟨s, -, hdenotes⟩ := exists_mem_of_forall₂ hl.flip g hg
    exact hmalformed ⟨s, hdenotes⟩
  rcases hparse : (parse source : Except (SourceFault k) (Entry k)) with f | e
  · exact ⟨f, rfl, (h.cause_or_denotes hparse).resolve_right fun hdenotes => hall hdenotes.2⟩
  · obtain ⟨l, hl, -⟩ := h.exists_of_ok hparse
    exact absurd ⟨l, hl⟩ hall

end Divided

/-- A fault of the layout is found only after every group was read. -/
theorem cause_or_denotes {source : Text} {f : SourceFault k} (h : parse source = .error f) :
    f.cause ∈ [.grammar, .fieldName, .emptyBits, .numeral .outOfRange] ∨
    f.cause ∈ [.bitOutOfRange, .widthMismatch] ∧
      ∃ text groups, ∃ l : Layout k, Divided source text groups ∧
        List.Forall₂ Segment.Denotes groups l := by
  rcases divided_or_cause (k := k) source with ⟨text, groups, hdivided⟩ | ⟨f', hf', hcause⟩
  · rcases hdivided.cause_or_denotes h with hcause | ⟨hcause, l, hl⟩
    · exact .inl hcause
    · exact .inr ⟨hcause, text, groups, l, hdivided, hl⟩
  · obtain rfl := Except.error.inj (h.symm.trans hf')
    simp [hcause]

/-- **A description fails for one cause.** It is one of six, and the report ends with it and with no
other; a literal that needs more bits than it has and a numeral that is none are not among them. If
every group can be read, the outcome is that of the layout, and a layout that is valid has a
pattern; only a description of 2^56 bytes or more could list so many bits that their number wraps.
A group with more binary digits than the word has bits is refused, whatever the digits. And a
destination out of range or a wrong number of bits is reported only if every group can be read. -/
theorem parse_fails_for_one_cause (source : Text) :
    (∀ f : SourceFault k, parse source = .error f →
      f.cause ∈ [.grammar, .fieldName, .emptyBits, .bitOutOfRange, .widthMismatch,
        .numeral .outOfRange] ∧
      ∀ c, c.message <:+ f.message ↔ c = f.cause) ∧
    (∀ text groups, Divided source text groups →
      (∀ l : Layout k, List.Forall₂ Segment.Denotes groups l →
        parse source = (make l (Template.parse text)).mapError (.entry text) ∧
        (source.length < 2 ^ 56 → l.validate = .ok () → ∃ p, l.pattern = .ok p)) ∧
      (∀ g ∈ groups, g.all isBinaryDigit = true → k.bits < g.length →
        ∃ f : SourceFault k, parse source = .error f) ∧
      ∀ g ∈ groups, (¬ ∃ s : Segment k, Segment.Denotes g s) →
        ∃ f : SourceFault k, parse source = .error f ∧
          f.cause ≠ .bitOutOfRange ∧ f.cause ≠ .widthMismatch) ∧
    ∀ f : SourceFault k, parse source = .error f →
      f.cause = .bitOutOfRange ∨ f.cause = .widthMismatch →
      ∃ text groups, ∃ l : Layout k, Divided source text groups ∧
        List.Forall₂ Segment.Denotes groups l := by
  refine ⟨fun f hf => ⟨?_, f.message_suffix_iff⟩, fun text groups h => ⟨?_, ?_, ?_⟩,
    fun f hf hlayout => ?_⟩
  · rcases cause_or_denotes hf with hcause | ⟨hcause, -⟩ <;>
      simp only [List.mem_cons, List.not_mem_nil, or_false] at hcause ⊢ <;> tauto
  · exact fun l hl => ⟨h.parse_of_denotes hl, h.exists_pattern_of_validate hl⟩
  · exact fun g hg => h.exists_error_of_long hg
  · intro g hg hmalformed
    obtain ⟨f, hf, hcause⟩ := h.exists_error_of_malformed hg hmalformed
    refine ⟨f, hf, ?_, ?_⟩ <;> rintro hc <;> simp [hc] at hcause
  · rcases cause_or_denotes hf with hcause | ⟨-, hdenotes⟩
    · rcases hlayout with hc | hc <;> simp [hc] at hcause
    · exact hdenotes

end Entry

end Disassembly
