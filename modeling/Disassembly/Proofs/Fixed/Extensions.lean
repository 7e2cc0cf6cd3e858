import Disassembly.Proofs.Fixed.Translation
import Mathlib.Data.List.Perm.Basic

/-!
# The letters of extensions

A text of extension letters stands for a set of standards. Which letters there are and which
standards they name is said by `extensionLetters`; a character is compared with them by the low byte
of its code point alone (`Standards.ofLetter?_eq_some_iff`). The letters are taken one after the
other:

* `Standards.addLetters_eq`: either all of them are known and their standards have been put into the
  set, or the first one that is not is reported;
* `Standards.mem_insert`, `Standards.ascending_insert`: putting a standard into a set adds it and
  keeps the order, so a set is determined by its members (`Standards.eq_of_mem_iff`).

Up to U+00FF the low byte of a character tells which one it is, and there the known characters are
the five letters. Beyond that there are characters which pass for letters that they are not, and
`Standards.NoLookalike` says of a text that it has none of them.
-/

namespace Disassembly

/-- The letters of the extensions with the standards that they name. -/
def extensionLetters : List (Char × Standard) :=
  [('I', .rv32i), ('M', .rv32m), ('A', .rv32a), ('S', .rv32s), ('C', .rv32c)]

namespace Standard

/-- A standard is determined by its number. -/
theorem value_inj {s t : Standard} (h : s.value = t.value) : s = t := by
  obtain ⟨size, letter⟩ := s
  obtain ⟨size', letter'⟩ := t
  simp only [value] at h
  have hsize := size.toNat_lt
  have hsize' := size'.toNat_lt
  rw [mk.injEq, ← UInt8.toNat_inj, ← UInt8.toNat_inj]
  omega

end Standard

namespace Standards

/-! ## Sets in ascending order -/

/-- A set is in ascending order. -/
def Ascending (ss : Standards) : Prop := ss.Pairwise fun s t => s.value < t.value

theorem mem_insert (s t : Standard) (ss : Standards) : t ∈ insert s ss ↔ t = s ∨ t ∈ ss := by
  induction ss with
  | nil => rw [insert, List.mem_singleton, or_iff_left List.not_mem_nil]
  | cons u ss ih =>
    rw [insert]
    split
    · rw [List.mem_cons]
    · split
      · rename_i heq
        obtain rfl := Standard.value_inj heq
        simp
      · rw [List.mem_cons, ih, List.mem_cons, or_left_comm]

theorem ascending_insert (s : Standard) {ss : Standards} (h : ss.Ascending) :
    (insert s ss).Ascending := by
  induction ss with
  | nil => exact List.pairwise_singleton _ _
  | cons u ss ih =>
    obtain ⟨hu, hss⟩ := List.pairwise_cons.mp h
    rw [insert]
    split
    · rename_i hlt
      apply List.pairwise_cons.mpr
      refine ⟨fun t ht => ?_, h⟩
      rcases List.mem_cons.mp ht with rfl | ht
      · exact hlt
      · exact Nat.lt_trans hlt (hu t ht)
    · split
      · exact h
      · rename_i hge hne
        apply List.pairwise_cons.mpr
        refine ⟨fun t ht => ?_, ih hss⟩
        rcases (mem_insert s t ss).mp ht with rfl | ht
        · omega
        · exact hu t ht

theorem Ascending.nodup {ss : Standards} (h : ss.Ascending) : ss.Nodup := by
  refine List.Pairwise.imp ?_ h
  rintro s t hlt rfl
  exact Nat.lt_irrefl _ hlt

/-- A set is determined by its members. -/
theorem eq_of_mem_iff {ss ss' : Standards} (h : ss.Ascending) (h' : ss'.Ascending)
    (hmem : ∀ s, s ∈ ss ↔ s ∈ ss') : ss = ss' := by
  have hperm : ss.Perm ss' := (List.perm_ext_iff_of_nodup h.nodup h'.nodup).mpr hmem
  exact hperm.eq_of_pairwise (fun s t _ _ hlt hgt => absurd hlt (Nat.lt_asymm hgt)) h h'

/-! ## Letters -/

/-- A character is taken for the letter that has the low byte of its code point. -/
theorem ofLetter?_eq_some_iff (c : Char) (s : Standard) :
    ofLetter? c = some s ↔ ∃ l, (l, s) ∈ extensionLetters ∧ l.toNat = c.toNat % 256 := by
  constructor
  · intro h
    have hletter : ∀ b : UInt8, b = 0x49 ∨ b = 0x4D ∨ b = 0x41 ∨ b = 0x53 ∨ b = 0x43 →
        ∃ l, (l, Standard.rv32 b) ∈ extensionLetters ∧ l.toNat = b.toNat := by
      rintro b (rfl | rfl | rfl | rfl | rfl)
      · exact ⟨'I', List.mem_of_getElem? (i := 0) rfl, rfl⟩
      · exact ⟨'M', List.mem_of_getElem? (i := 1) rfl, rfl⟩
      · exact ⟨'A', List.mem_of_getElem? (i := 2) rfl, rfl⟩
      · exact ⟨'S', List.mem_of_getElem? (i := 3) rfl, rfl⟩
      · exact ⟨'C', List.mem_of_getElem? (i := 4) rfl, rfl⟩
    simp only [ofLetter?] at h
    split at h
    · rename_i hbyte
      obtain rfl := Option.some.inj h
      obtain ⟨l, hmem, hl⟩ := hletter _ hbyte
      refine ⟨l, hmem, ?_⟩
      rw [hl, UInt8.toNat_ofNat', Nat.mod_mod]
    · cases h
  · rintro ⟨l, hmem, hl⟩
    simp only [ofLetter?]
    rw [← hl]
    simp only [extensionLetters, List.mem_cons, List.not_mem_nil, or_false, Prod.mk.injEq] at hmem
    rcases hmem with ⟨rfl, rfl⟩ | ⟨rfl, rfl⟩ | ⟨rfl, rfl⟩ | ⟨rfl, rfl⟩ | ⟨rfl, rfl⟩ <;> rfl

/-- Letters are taken up to the first one that is not known. -/
theorem addLetters_eq (ss : Standards) (cs : List Char) :
    addLetters ss cs =
      match cs.find? fun c => (ofLetter? c).isNone with
      | some c => .error ⟨c⟩
      | none => .ok ((cs.filterMap ofLetter?).foldl (fun ss s => insert s ss) ss) := by
  induction cs generalizing ss with
  | nil => rfl
  | cons c cs ih =>
    rcases hc : ofLetter? c with _ | s
    · rw [addLetters, hc, List.find?_cons_of_pos (by rw [hc]; rfl)]
    · rw [addLetters, hc, List.find?_cons_of_neg (by rw [hc]; exact Bool.false_ne_true),
        List.filterMap_cons_some hc, List.foldl_cons]
      exact ih (insert s ss)

theorem mem_foldl_insert (us ss : Standards) (t : Standard) :
    t ∈ us.foldl (fun ss s => insert s ss) ss ↔ t ∈ ss ∨ t ∈ us := by
  induction us generalizing ss with
  | nil => simp
  | cons s us ih =>
    rw [List.foldl_cons, ih, mem_insert, List.mem_cons, or_comm (a := t = s), or_assoc]

theorem ascending_foldl_insert (us : Standards) {ss : Standards} (h : ss.Ascending) :
    (us.foldl (fun ss s => insert s ss) ss).Ascending := by
  induction us generalizing ss with
  | nil => exact h
  | cons s us ih => exact ih (ascending_insert s h)

/-! ## Texts of letters -/

/-- A text of known letters names the set of their standards and of the base integer set. -/
theorem ofExtensions_eq_ok_iff (t : Text) (ss : Standards) :
    ofExtensions t = .ok ss ↔
      (∀ c ∈ t.upperChars, ∃ s, ofLetter? c = some s) ∧ ss.Ascending ∧
        ∀ s, s ∈ ss ↔ s = .rv32i ∨ ∃ c ∈ t.upperChars, ofLetter? c = some s := by
  let us := (t.upperChars.filterMap ofLetter?).foldl (fun ss s => insert s ss) [.rv32i]
  have hasc : Ascending us := ascending_foldl_insert _ (List.pairwise_singleton _ _)
  have hmem : ∀ s, s ∈ us ↔ s = .rv32i ∨ ∃ c ∈ t.upperChars, ofLetter? c = some s := by
    intro s
    rw [mem_foldl_insert, List.mem_singleton, List.mem_filterMap]
  have hknown : (t.upperChars.find? fun c => (ofLetter? c).isNone) = none ↔
      ∀ c ∈ t.upperChars, ∃ s, ofLetter? c = some s := by
    simp only [List.find?_eq_none, Option.isNone_iff_eq_none, ← ne_eq, Option.ne_none_iff_exists']
  rw [ofExtensions, addLetters_eq]
  constructor
  · intro h
    split at h
    · cases h
    · rename_i hnone
      obtain rfl := Except.ok.inj h
      exact ⟨hknown.mp hnone, hasc, hmem⟩
  · rintro ⟨hall, hasc', hmem'⟩
    rw [hknown.mpr hall, eq_of_mem_iff hasc' hasc fun s => (hmem' s).trans (hmem s).symm]

/-- A text that is not accepted is reported with its first letter that is not known. -/
theorem ofExtensions_eq_error_iff (t : Text) (e : UnknownExtension) :
    ofExtensions t = .error e ↔
      ∃ before c after, t.upperChars = before ++ c :: after ∧
        (∀ b ∈ before, ∃ s, ofLetter? b = some s) ∧ ofLetter? c = none ∧ e = ⟨c⟩ := by
  have hfirst : ofExtensions t = .error e ↔
      ∃ c, (t.upperChars.find? fun c => (ofLetter? c).isNone) = some c ∧ e = ⟨c⟩ := by
    rw [ofExtensions, addLetters_eq]
    split
    · rename_i c hc
      simp [hc, eq_comm]
    · rename_i hnone
      simp [hnone]
  rw [hfirst]
  simp only [List.find?_eq_some_iff_append, Option.isNone_iff_eq_none, Bool.not_eq_true',
    Option.isNone_eq_false_iff, Option.isSome_iff_exists]
  constructor
  · rintro ⟨c, ⟨hc, before, after, hsplit, hbefore⟩, rfl⟩
    exact ⟨before, c, after, hsplit, hbefore, hc, rfl⟩
  · rintro ⟨before, c, after, hsplit, hbefore, hc, rfl⟩
    exact ⟨c, ⟨hc, before, after, hsplit, hbefore⟩, rfl⟩

theorem exists_ofExtensions_iff (t : Text) :
    (∃ ss, ofExtensions t = .ok ss) ↔ ∀ c ∈ t.upperChars, ∃ s, ofLetter? c = some s := by
  constructor
  · rintro ⟨ss, hss⟩
    exact ((ofExtensions_eq_ok_iff t ss).mp hss).1
  · intro hknown
    rcases hrun : ofExtensions t with e | ss
    · obtain ⟨before, c, after, hsplit, -, hnone, -⟩ := (ofExtensions_eq_error_iff t e).mp hrun
      obtain ⟨s, hs⟩ := hknown c (hsplit ▸ List.mem_append_right _ List.mem_cons_self)
      cases hnone.symm.trans hs
    · exact ⟨ss, rfl⟩

/-- Texts with the same letters, in whatever order, number and case, name the same set. -/
theorem ofExtensions_congr {t t' : Text} (h : ∀ c, c ∈ t'.upperChars ↔ c ∈ t.upperChars)
    {ss : Standards} (hss : ofExtensions t = .ok ss) : ofExtensions t' = .ok ss := by
  rw [ofExtensions_eq_ok_iff] at hss ⊢
  simpa only [h] using hss

/-- In capitals, no character of a text has the low byte of a letter without being that letter. -/
def NoLookalike (t : Text) : Prop :=
  ∀ c ∈ t.upperChars, ∀ p ∈ extensionLetters, p.1.toNat = c.toNat % 256 → p.1 = c

-- by going through the text: there are too many characters to go through all of them
instance (t : Text) : Decidable (NoLookalike t) :=
  List.decidableBAll (fun c : Char => ∀ p ∈ extensionLetters, p.1.toNat = c.toNat % 256 → p.1 = c)
    t.upperChars

theorem NoLookalike.ofLetter?_eq_some_iff {t : Text} (h : NoLookalike t) {c : Char}
    (hc : c ∈ t.upperChars) (s : Standard) :
    ofLetter? c = some s ↔ (c, s) ∈ extensionLetters := by
  rw [Standards.ofLetter?_eq_some_iff]
  constructor
  · rintro ⟨l, hmem, hl⟩
    obtain rfl := h c hc _ hmem hl
    exact hmem
  · intro hmem
    have hsmall : ∀ p ∈ extensionLetters, p.1.toNat < 256 := by decide
    exact ⟨c, hmem, (Nat.mod_eq_of_lt (hsmall _ hmem)).symm⟩

theorem NoLookalike.ofLetter?_eq_none_iff {t : Text} (h : NoLookalike t) {c : Char}
    (hc : c ∈ t.upperChars) : ofLetter? c = none ↔ ∀ s, (c, s) ∉ extensionLetters := by
  simp only [Option.eq_none_iff_forall_ne_some, ne_eq, h.ofLetter?_eq_some_iff hc]

end Standards

open Standards

/-- **Extension letters.** A text of extension letters is accepted exactly if every character of it,
in capitals, has the low byte of one of the letters `I`, `M`, `A`, `S` and `C`. Where no character
merely looks like a letter in this way, a text is accepted exactly if all its characters are
letters. The set is then that of the base integer instructions and of the standards of the letters,
whatever their order, number and case, and an opcode table for it has just the operations of these;
otherwise the first character that is no letter is reported. -/
theorem Standards.ofExtensions_by_letters (t : Text) :
    ((∃ ss, ofExtensions t = .ok ss) ↔
      ∀ c ∈ t.upperChars, ∃ l s, (l, s) ∈ extensionLetters ∧ l.toNat = c.toNat % 256) ∧
    (NoLookalike t →
      ((∃ ss, ofExtensions t = .ok ss) ↔ ∀ c ∈ t.upperChars, ∃ s, (c, s) ∈ extensionLetters) ∧
      (∀ ss, ofExtensions t = .ok ss →
        (∀ s, s ∈ ss ↔ s = .rv32i ∨ ∃ c ∈ t.upperChars, (c, s) ∈ extensionLetters) ∧
        (∀ t', (∀ c, c ∈ t'.upperChars ↔ c ∈ t.upperChars) → ofExtensions t' = .ok ss) ∧
        ss ≠ [] ∧
        ∀ o, o ∈ (OpcodeTable.ofStandards ss).ops ↔ o ∈ Operation.all ∧
          (o.standard = .rv32i ∨ ∃ c ∈ t.upperChars, (c, o.standard) ∈ extensionLetters)) ∧
      ∀ e, ofExtensions t = .error e ↔
        ∃ before c after, t.upperChars = before ++ c :: after ∧
          (∀ b ∈ before, ∃ s, (b, s) ∈ extensionLetters) ∧ (∀ s, (c, s) ∉ extensionLetters) ∧
          e = ⟨c⟩ ∧ e.message = "unknown extension " ++ quotedChar c) := by
  refine ⟨?_, fun hplain => ⟨?_, fun ss hss => ?_, fun e => ?_⟩⟩
  · rw [exists_ofExtensions_iff]
    refine forall₂_congr fun c _ => ?_
    simp only [ofLetter?_eq_some_iff]
    exact exists_comm
  · rw [exists_ofExtensions_iff]
    exact forall₂_congr fun c hc => exists_congr fun s => hplain.ofLetter?_eq_some_iff hc s
  · have hmem : ∀ s, s ∈ ss ↔ s = .rv32i ∨ ∃ c ∈ t.upperChars, (c, s) ∈ extensionLetters := by
      intro s
      rw [((ofExtensions_eq_ok_iff t ss).mp hss).2.2 s]
      exact or_congr_right (exists_congr fun c =>
        and_congr_right fun hc => hplain.ofLetter?_eq_some_iff hc s)
    have hne : ss ≠ [] := List.ne_nil_of_mem ((hmem .rv32i).mpr (.inl rfl))
    refine ⟨hmem, fun t' hsame => ofExtensions_congr hsame hss, hne, fun o => ?_⟩
    rw [OpcodeTable.mem_ops_iff, OpcodeTable.Selected, or_iff_right hne, hmem]
  · rw [ofExtensions_eq_error_iff]
    refine exists_congr fun before => exists_congr fun c => exists_congr fun after =>
      and_congr_right fun hsplit => ?_
    have hin : ∀ b ∈ before ++ c :: after, b ∈ t.upperChars := fun b hb => hsplit ▸ hb
    have hbefore : ∀ b ∈ before, ∀ s, ofLetter? b = some s ↔ (b, s) ∈ extensionLetters :=
      fun b hb s => hplain.ofLetter?_eq_some_iff (hin b (List.mem_append_left _ hb)) s
    have hmessage : e = ⟨c⟩ → e.message = "unknown extension " ++ quotedChar c := by
      rintro rfl
      rfl
    rw [hplain.ofLetter?_eq_none_iff (hin c (List.mem_append_right _ List.mem_cons_self)),
      and_iff_left_of_imp hmessage]
    refine and_congr_left fun _ => forall₂_congr fun b hb => ?_
    exact exists_congr (hbefore b hb)

/-- Small letters and capitals in any order, a long `ſ` among them. -/
theorem Standards.ofExtensions_by_letters_mixed :
    let t : Text := "mAſm"
    NoLookalike t ∧ ofExtensions t = .ok [.rv32a, .rv32i, .rv32m, .rv32s] ∧
      ∀ o, o ∈ (OpcodeTable.ofStandards [.rv32a, .rv32i, .rv32m, .rv32s]).ops ↔
        o ∈ Operation.all ∧
          (o.standard = .rv32i ∨ ∃ c ∈ t.upperChars, (c, o.standard) ∈ extensionLetters) := by
  intro t
  have hplain : NoLookalike t := by decide +kernel
  have hset : ofExtensions t = .ok [.rv32a, .rv32i, .rv32m, .rv32s] := by decide +kernel
  obtain ⟨-, hletters, -⟩ := (ofExtensions_by_letters t).2 hplain
  exact ⟨hplain, hset, (hletters _ hset).2.2.2⟩

/-- A Polish letter is taken for an `A` and brings the atomic operations with it. -/
theorem Standards.ofExtensions_takes_stroked_letter :
    ofExtensions "Ł" = .ok [.rv32a, .rv32i] ∧
      ¬ ∀ t : Text, (∃ ss, ofExtensions t = .ok ss) ↔
        ∀ c ∈ t.upperChars, ∃ s, (c, s) ∈ extensionLetters := by
  have hset : ofExtensions "Ł" = .ok [.rv32a, .rv32i] := by decide +kernel
  refine ⟨hset, fun h => ?_⟩
  have hchars : Text.upperChars "Ł" = ['Ł'] := by decide +kernel
  obtain ⟨s, hs⟩ := (h "Ł").mp ⟨_, hset⟩ 'Ł' (by rw [hchars]; exact List.mem_cons_self)
  have hletter : ∀ p ∈ extensionLetters, p.1 ≠ 'Ł' := by decide
  exact hletter _ hs rfl

end Disassembly
