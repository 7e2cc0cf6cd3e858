import Disassembly.Table.Load
import Disassembly.Proofs.Entry.RoundTrip
import Disassembly.Proofs.Text.Trimmed

/-!
# Quotes and comments in a description

Comments are taken off a line before anybody looks at the description in it, by a scan that only
knows whether it is inside of quotes. `Scans` says how far such a scan comes without meeting a
comment. A description that can be read is scanned to its end, and ends outside of quotes
(`Entry.scans_of_parse`): it has just two quotes, what stands between them does not matter, and the
groups after them have neither a quote nor a `#`, because there is no place for such a byte in a
numeral, a name or a bit list (`IsForeign.not_mem_of_parseLayout`).
-/

namespace Disassembly

open Text

/-! ## Scanning -/

/-- A scan that starts outside or inside of quotes passes over a text without finding a comment, and
ends outside or inside. -/
inductive Scans : Bool → Text → Bool → Prop where
  | nil (quoted : Bool) : Scans quoted [] quoted
  | quote {quoted quoted' : Bool} {t : Text} (h : Scans (!quoted) t quoted') :
      Scans quoted (0x22 :: t) quoted'
  | other {quoted quoted' : Bool} {b : UInt8} {t : Text} (hquote : b ≠ 0x22)
      (hcomment : b = 0x23 → quoted = true) (h : Scans quoted t quoted') :
      Scans quoted (b :: t) quoted'

namespace Scans

variable {quoted quoted' quoted'' : Bool} {t u : Text}

theorem append (ht : Scans quoted t quoted') (hu : Scans quoted' u quoted'') :
    Scans quoted (t ++ u) quoted'' := by
  induction ht with
  | nil => exact hu
  | quote _ ih => exact .quote (ih hu)
  | other hquote hcomment _ ih => exact .other hquote hcomment (ih hu)

/-- Outside of quotes a text without quotes and without `#` is passed over. -/
theorem of_not_mem (hquote : 0x22 ∉ t) (hcomment : 0x23 ∉ t) : Scans false t false := by
  induction t with
  | nil => exact .nil false
  | cons b t ih =>
    rw [List.mem_cons, not_or] at hquote hcomment
    exact .other (Ne.symm hquote.1) (fun hb => absurd hb.symm hcomment.1)
      (ih hquote.2 hcomment.2)

/-- Inside of quotes every text without quotes is passed over. -/
theorem of_quoted (hquote : 0x22 ∉ t) : Scans true t true := by
  induction t with
  | nil => exact .nil true
  | cons b t ih =>
    rw [List.mem_cons, not_or] at hquote
    exact .other (Ne.symm hquote.1) (fun _ => rfl) (ih hquote.2)

/-- What is passed over is not dropped. -/
theorem dropCommentFrom_append (ht : Scans quoted t quoted') (done u : Text) :
    dropCommentFrom done quoted (t ++ u) = dropCommentFrom (t.reverse ++ done) quoted' u := by
  induction ht generalizing done with
  | nil => rfl
  | @quote quoted _ t _ ih =>
    rw [List.cons_append, dropCommentFrom, if_neg (by simp), if_pos rfl, ih, List.reverse_cons,
      List.append_assoc, List.singleton_append]
  | @other quoted _ b t hquote hcomment _ ih =>
    have hkeep : ¬ (b = 0x23 ∧ quoted = false) := by
      rintro ⟨hb, hout⟩
      rw [hcomment hb] at hout
      cases hout
    rw [List.cons_append, dropCommentFrom, if_neg hkeep, if_neg hquote, ih, List.reverse_cons,
      List.append_assoc, List.singleton_append]

theorem dropComment_eq (ht : Scans false t quoted) : dropComment t = t := by
  have h := ht.dropCommentFrom_append [] []
  rw [List.append_nil, List.append_nil] at h
  rw [dropComment, h, dropCommentFrom, List.reverse_reverse]

/-- A comment begins where the scan first comes to a `#` outside of quotes. -/
theorem dropComment_append (ht : Scans false t false) (comment : Text) :
    dropComment (t ++ 0x23 :: comment) = t := by
  rw [dropComment, ht.dropCommentFrom_append, List.append_nil, dropCommentFrom, if_pos ⟨rfl, rfl⟩,
    List.reverse_reverse]

end Scans

/-! ## The bytes of groups -/

/-- A visible byte that has no meaning in the groups of a description. -/
structure IsForeign (b : UInt8) : Prop where
  solid : isSolid b = true
  name : isNameByte b = false
  mark : b ∉ ([0x5B, 0x5D, 0x7C, 0x3A, 0x2C] : Text)

theorem isForeign_quote : IsForeign 0x22 := ⟨by decide, by decide, by decide⟩

theorem isForeign_comment : IsForeign 0x23 := ⟨by decide, by decide, by decide⟩

theorem bind_eq_ok_iff {ε α β : Type} (x : Except ε α) (f : α → Except ε β) (c : β) :
    (x >>= f) = .ok c ↔ ∃ a, x = .ok a ∧ f a = .ok c := by
  cases x <;> simp [bind, Except.bind]

/-- A list can be read member by member only if each member can be read. -/
theorem exists_of_mapM_eq_ok {ε α β : Type} {f : α → Except ε β} {us : List α} {xs : List β}
    (h : us.mapM f = .ok xs) : ∀ u ∈ us, ∃ x, f u = .ok x := by
  induction us generalizing xs with
  | nil => simp
  | cons u us ih =>
    rw [List.mapM_cons, bind_eq_ok_iff] at h
    obtain ⟨x, hx, h⟩ := h
    obtain ⟨xs', hxs, -⟩ := (bind_eq_ok_iff _ _ _).mp h
    rw [List.forall_mem_cons]
    exact ⟨⟨x, hx⟩, ih hxs⟩

theorem isDigit_of_digitValue? {b : UInt8} {d : Nat} (h : digitValue? b = some d) (hd : d < 10) :
    isDigit b = true := by
  unfold digitValue? at h
  split at h
  · rename_i hdigit
    simpa [isDigit] using hdigit
  · split at h
    · rename_i hletter
      have hlow := UInt8.le_iff_toNat_le.mp hletter.1
      simp only [UInt8.reduceToNat, Option.some.injEq] at hlow h
      omega
    · split at h
      · rename_i hletter
        have hlow := UInt8.le_iff_toNat_le.mp hletter.1
        simp only [UInt8.reduceToNat, Option.some.injEq] at hlow h
        omega
      · cases h

theorem isDigit_of_readDigits {limit n m : Nat} {t : Text} (h : readDigits 10 limit n t = .ok m) :
    ∀ b ∈ t, isDigit b = true := by
  induction t generalizing n with
  | nil => simp
  | cons b t ih =>
    rw [readDigits] at h
    split at h
    · cases h
    · rename_i d hd
      split at h
      · cases h
      · rename_i hbase
        split at h
        · cases h
        · rw [List.forall_mem_cons]
          exact ⟨isDigit_of_digitValue? hd (by omega), ih h⟩

theorem Segment.eq_of_bitListOf? {after list : Text} (h : bitListOf? after = some list) :
    after = list ++ [0x5D] := by
  obtain ⟨hlast, hlist⟩ := Option.ite_none_right_eq_some.mp h
  rw [← Option.some.inj hlist, List.dropLast_append_getLast? _ hlast]

namespace IsForeign

variable {b : UInt8} (hb : IsForeign b)
include hb

/-- Trimming cannot take a foreign byte away. -/
theorem not_mem_of_trim {t : Text} (h : b ∉ t.trim) : b ∉ t :=
  fun hmem => h (mem_trim_of_isSolid hb.solid hmem)

theorem not_mem_of_readIndex {list item : Text} {n : Nat}
    (h : BitList.readIndex list item = .ok n) : b ∉ item := by
  rw [BitList.readIndex, Entry.mapError_eq_ok_iff, readNumeral] at h
  split at h
  · cases h
  · refine hb.not_mem_of_trim fun hmem => ?_
    have hdigit := isNameByte_of_isDigit (isDigit_of_readDigits h b hmem)
    rw [hb.name] at hdigit
    cases hdigit

theorem not_mem_of_readItem {list item : Text} {dest : List UInt64}
    (h : BitList.readItem list item = .ok dest) : b ∉ item := by
  rw [BitList.readItem, bind_eq_ok_iff] at h
  obtain ⟨high, hhigh, h⟩ := h
  obtain ⟨low, hlow, -⟩ := (bind_eq_ok_iff _ _ _).mp h
  rcases hcut : cut? 0x3A item with _ | ⟨top, bottom⟩
  · rw [hcut] at hhigh
    exact hb.not_mem_of_readIndex hhigh
  · rw [hcut] at hhigh hlow
    rw [(eq_of_cut? hcut).1, List.mem_append, List.mem_cons]
    rintro (hmem | rfl | hmem)
    · exact hb.not_mem_of_readIndex hhigh hmem
    · exact hb.mark (by decide)
    · exact hb.not_mem_of_readIndex hlow hmem

theorem not_mem_of_bitList {t : Text} {dest : List UInt64} (h : BitList.parse t = .ok dest) :
    b ∉ t := by
  unfold BitList.parse at h
  split at h
  · cases h
  · rcases hitems : (pieces 0x7C t).mapM (BitList.readItem t) with f | items
    · rw [hitems] at h
      cases h
    · rw [← joinWith_pieces 0x7C t]
      refine not_mem_joinWith (fun hmem => hb.mark ?_) fun item hitem => ?_
      · rw [List.mem_singleton.mp hmem]
        decide
      · obtain ⟨dest', hdest⟩ := exists_of_mapM_eq_ok hitems item hitem
        exact hb.not_mem_of_readItem hdest

variable {k : Width}

/-- There is no foreign byte in a group. -/
theorem not_mem_of_group {group : Text} {s : Segment k} (h : Segment.parse group = .ok s) :
    b ∉ group := by
  unfold Segment.parse at h
  split at h
  · cases h
  split at h
  · rename_i hbinary
    intro hmem
    have hdigit := List.all_eq_true.mp hbinary b hmem
    simp only [isBinaryDigit, Bool.or_eq_true, beq_iff_eq] at hdigit
    have hname := hb.name
    rcases hdigit with rfl | rfl <;> cases hname
  split at h
  · cases h
  rename_i before after hcut
  split at h
  · cases h
  rename_i list hlist
  split at h
  · cases h
  rename_i hname
  split at h
  · cases h
  rename_i dest hdest
  -- the group is a name and a bit list with two brackets
  have hafter := Segment.eq_of_bitListOf? hlist
  have hbefore : b ∉ before :=
    hb.not_mem_of_trim (not_mem_of_isName (by simpa using hname) hb.name)
  have hbits := hb.not_mem_of_bitList hdest
  rw [(eq_of_cut? hcut).1, hafter]
  simp only [List.mem_append, List.mem_cons, List.not_mem_nil, or_false]
  rintro (hmem | rfl | hmem | rfl)
  · exact hbefore hmem
  · exact hb.mark (by decide)
  · exact hbits hmem
  · exact hb.mark (by decide)

theorem not_mem_of_groups {t : Text} {l : Layout k} (h : Layout.parseGroups t = .ok l) :
    b ∉ t := by
  rw [← joinWith_pieces 0x2C t]
  refine not_mem_joinWith (fun hmem => hb.mark ?_) fun group hgroup => ?_
  · rw [List.mem_singleton.mp hmem]
    decide
  · obtain ⟨s, hs⟩ := exists_of_mapM_eq_ok h group hgroup
    exact hb.not_mem_of_trim (hb.not_mem_of_group hs)

/-- What follows the quotes of a description has no foreign byte. -/
theorem not_mem_of_parseLayout {source text rest : Text} {l : Layout k}
    (h : Entry.parseLayout source text rest = .ok l) : b ∉ rest := by
  refine hb.not_mem_of_trim ?_
  unfold Entry.parseLayout at h
  split at h
  · rename_i hnil
    rw [hnil]
    exact List.not_mem_nil
  · rename_i c groups hcons
    rw [hcons]
    split at h
    · rename_i hcomma
      rw [Entry.mapError_eq_ok_iff] at h
      rw [hcomma, List.mem_cons]
      rintro (rfl | hmem)
      · exact hb.mark (by decide)
      · exact hb.not_mem_of_groups h hmem
    · cases h

end IsForeign

/-! ## Descriptions -/

namespace Entry

variable {k : Width}

/-- White space around a description does not matter. -/
theorem parse_trim (t : Text) : (parse t.trim : Except (SourceFault k) (Entry k)) = parse t := by
  rw [parse, parse, trim_trim]

/-- **A description ends outside of quotes**, and has no `#` outside of them. -/
theorem scans_of_parse {source : Text} {e : Entry k} (h : parse source = .ok e) :
    Scans false source false := by
  obtain ⟨text, rest, hsource, htext, hlayout, -⟩ := exists_parts_of_parse h
  obtain ⟨before, after, hwhole, hbefore, hafter⟩ := exists_eq_append_trim source
  have hblank : ∀ t : Text, (∀ b ∈ t, isSolid b = false) → Scans false t false := by
    intro t ht
    refine .of_not_mem (fun hmem => ?_) fun hmem => ?_
    · cases ht _ hmem
    · cases ht _ hmem
  have hrest : Scans false rest false :=
    .of_not_mem (isForeign_quote.not_mem_of_parseLayout hlayout)
      (isForeign_comment.not_mem_of_parseLayout hlayout)
  rw [hwhole, hsource]
  refine (hblank before hbefore).append (Scans.append ?_ (hblank after hafter))
  exact .quote ((Scans.of_quoted htext).append (.quote hrest))

end Entry

end Disassembly
