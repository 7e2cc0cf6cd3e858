import Disassembly.Proofs.Layout.Positions

/-!
# Which layouts are accepted

Before an entry is made of a layout, the segments are checked one by one, their widths are added,
and the bits are counted once more for the pattern. Both sums are kept in 64 bits.

* `Segment.IllFormed` is what can be wrong with a segment by itself, and
  `Layout.firstFault?_eq_some_iff` finds the first segment with which something is;
* `Layout.exists_pattern_iff`: the count of the pattern is the wrapping sum of the widths, and every
  prefix of the layout has to keep it within the word;
* `Layout.countable_of_literals`: it takes a literal of nearly `2 ^ 64` bits to make the sum wrap,
  and no such literal is well formed. So the two checks together are exact, and the pattern alone is
  not.
-/

namespace Disassembly

namespace Segment

variable {k : Width}

/-! ## Faulty segments -/

/-- What is wrong with a segment by itself. Of a literal the length comes first, of a field the name
and then the number of its destinations. -/
inductive IllFormed : Segment k → Cause → Prop
  /-- a literal is empty or longer than the word -/
  | length {len : UInt64} (value : Word k) (hlen : len.toNat = 0 ∨ k.bits < len.toNat) :
      IllFormed (literal len value) .widthMismatch
  /-- a literal has a proper length, and its value does not fit -/
  | overflow {len : UInt64} {value : Word k} (hpos : 1 ≤ len.toNat) (hle : len.toNat ≤ k.bits)
      (hvalue : 2 ^ len.toNat ≤ value.toNat) : IllFormed (literal len value) .literalOverflow
  /-- a field is not properly named -/
  | name {name : Text} (dest : List UInt64) (hname : isName name = false) :
      IllFormed (field name dest) .fieldName
  /-- a field has a name and no destinations -/
  | noBits {name : Text} (hname : isName name = true) : IllFormed (field name []) .emptyBits
  /-- a field has a name, and a destination beyond the last bit of a value -/
  | bit {name : Text} {dest : List UInt64} {d : UInt64} (hname : isName name = true)
      (hmem : d ∈ dest) (hd : 31 < d.toNat) : IllFormed (field name dest) .bitOutOfRange

theorem illFormed_of_fault? {s : Segment k} {f : SegmentFault k} (h : s.fault? = some f) :
    s.IllFormed f.cause := by
  cases s with
  | literal len value =>
    simp only [fault?, eq_zero_iff_toNat] at h
    split at h
    · rename_i hlen
      obtain rfl := Option.some.inj h
      exact .length value hlen
    · rename_i hlen
      split at h
      · rename_i hvalue
        obtain rfl := Option.some.inj h
        rw [ne_eq, ushiftRight_eq_zero_iff, Nat.not_lt] at hvalue
        exact .overflow (by omega) (by omega) hvalue
      · cases h
  | field name dest =>
    rw [fault?] at h
    cases hname : isName name with
    | false =>
      rw [hname] at h
      obtain rfl := Option.some.inj h
      exact .name dest hname
    | true =>
      cases dest with
      | nil =>
        rw [hname] at h
        obtain rfl := Option.some.inj h
        exact .noBits hname
      | cons d dest =>
        rw [hname] at h
        obtain ⟨d', hd', rfl⟩ := Option.map_eq_some_iff.mp h
        have hbeyond := List.find?_some hd'
        rw [decide_eq_true_eq, lastFieldBit_lt_iff] at hbeyond
        exact .bit hname (List.mem_of_find?_eq_some hd') hbeyond

theorem IllFormed.not_wellFormed {s : Segment k} {c : Cause} (h : s.IllFormed c) :
    ¬ s.WellFormed := by
  cases h with
  | length value hlen =>
    rintro ⟨hpos, hle, -⟩
    omega
  | overflow hpos hle hvalue =>
    rintro ⟨-, -, hlt⟩
    omega
  | name dest hname =>
    rintro ⟨hname', -, -⟩
    cases hname.symm.trans hname'
  | noBits hname =>
    rintro ⟨-, hne, -⟩
    exact hne rfl
  | bit hname hmem hd =>
    rintro ⟨-, -, hall⟩
    have := hall _ hmem
    omega

/-- Only one thing is reported of a segment. -/
theorem IllFormed.unique {s : Segment k} {c c' : Cause} (h : s.IllFormed c)
    (h' : s.IllFormed c') : c = c' := by
  cases h with
  | length value hlen =>
    cases h' with
    | length => rfl
    | overflow hpos hle => omega
  | overflow hpos hle hvalue =>
    cases h' with
    | length _ hlen => omega
    | overflow => rfl
  | name dest hname =>
    cases h' with
    | name => rfl
    | noBits hname' => cases hname.symm.trans hname'
    | bit hname' => cases hname.symm.trans hname'
  | noBits hname =>
    cases h' with
    | name _ hname' => cases hname.symm.trans hname'
    | noBits => rfl
    | bit _ hmem => cases hmem
  | bit hname hmem hd =>
    cases h' with
    | name _ hname' => cases hname.symm.trans hname'
    | noBits => cases hmem
    | bit => rfl

/-- Something is reported of every segment with which something is wrong, and nothing else. -/
theorem exists_fault?_iff (s : Segment k) (c : Cause) :
    (∃ f, s.fault? = some f ∧ f.cause = c) ↔ s.IllFormed c := by
  constructor
  · rintro ⟨f, hf, rfl⟩
    exact illFormed_of_fault? hf
  · intro h
    rcases hf : s.fault? with _ | f
    · exact absurd (s.fault?_eq_none_iff.mp hf) h.not_wellFormed
    · exact ⟨f, rfl, (illFormed_of_fault? hf).unique h⟩

end Segment

namespace Layout

variable {k : Width}

/-- What is reported is the fault of the first segment that is not well formed. -/
theorem firstFault?_eq_some_iff (l : Layout k) (index : Nat) (e : LayoutFault k) :
    l.firstFault? index = some e ↔
      ∃ (before : Layout k) (s : Segment k) (after : Layout k) (f : SegmentFault k),
        l = before ++ s :: after ∧ (∀ r ∈ before, r.WellFormed) ∧ s.fault? = some f ∧
          e = .segment (index + before.length) f := by
  constructor
  · intro h
    induction l generalizing index with
    | nil => cases h
    | cons s l ih =>
      rw [firstFault?] at h
      rcases hf : s.fault? with _ | f
      · rw [hf] at h
        obtain ⟨before, s', after, f, rfl, hbefore, hs', rfl⟩ := ih (index + 1) h
        refine ⟨s :: before, s', after, f, rfl, ?_, hs', ?_⟩
        · exact List.forall_mem_cons.mpr ⟨s.fault?_eq_none_iff.mp hf, hbefore⟩
        · rw [List.length_cons, Nat.add_right_comm, Nat.add_assoc]
      · rw [hf] at h
        obtain rfl := Option.some.inj h
        exact ⟨[], s, l, f, rfl, by simp, hf, rfl⟩
  · rintro ⟨before, s, after, f, rfl, hbefore, hf, rfl⟩
    induction before generalizing index with
    | nil =>
      rw [List.nil_append, firstFault?, hf]
      rfl
    | cons r before ih =>
      obtain ⟨hr, hbefore⟩ := List.forall_mem_cons.mp hbefore
      rw [List.cons_append, firstFault?, r.fault?_eq_none_iff.mpr hr]
      rw [List.length_cons, ← Nat.add_assoc, Nat.add_right_comm]
      exact ih (index + 1) hbefore

/-! ## The count of the pattern -/

theorem width_cons (s : Segment k) (l : Layout k) : width (s :: l) = s.width + l.width := by
  rw [← UInt64.toNat_inj, UInt64.toNat_add, toNat_width, toNat_width, List.map_cons,
    List.sum_cons]
  omega

theorem add_width_nil (n : UInt64) : n + width ([] : Layout k) = n := UInt64.add_zero n

/-- After `used` bits a layout has a pattern exactly if the wrapping count stays within the word and
ends with it. -/
theorem exists_patternFrom_iff (l : Layout k) (index : Nat) {used : UInt64}
    (hu : used.toNat ≤ k.bits) (p : Pattern k) :
    (∃ q, patternFrom index used p l = .ok q) ↔
      (∀ m : Layout k, m <+: l → (used + m.width).toNat ≤ k.bits) ∧
        (used + l.width).toNat = k.bits := by
  induction l generalizing index used p with
  | nil =>
    simp only [patternFrom, List.prefix_nil, forall_eq, add_width_nil]
    split <;> simp_all
  | cons s l ih =>
    rw [patternFrom, width_cons, ← UInt64.add_assoc]
    -- a prefix is empty, or it goes on after the first segment
    have hwithin : (∀ m : Layout k, m <+: s :: l → (used + m.width).toNat ≤ k.bits) ↔
        ∀ m : Layout k, m <+: l → (used + s.width + m.width).toNat ≤ k.bits := by
      simp only [List.prefix_cons_iff, forall_eq_or_imp, add_width_nil, hu, true_and]
      constructor
      · intro h m hm
        rw [UInt64.add_assoc, ← width_cons]
        exact h (s :: m) ⟨m, rfl, hm⟩
      · rintro h _ ⟨m, rfl, hm⟩
        rw [width_cons, ← UInt64.add_assoc]
        exact h m hm
    rw [hwithin]
    by_cases hover : k.bits < (used + s.width).toNat
    · rw [if_pos hover]
      simp only [reduceCtorEq, exists_false, false_iff]
      rintro ⟨h, -⟩
      have hfirst := h [] List.nil_prefix
      rw [add_width_nil] at hfirst
      omega
    · rw [if_neg hover]
      exact ih (index + 1) (Nat.not_lt.mp hover) (p.extend s)

theorem exists_pattern_iff (l : Layout k) :
    (∃ p, l.pattern = .ok p) ↔
      (∀ m : Layout k, m <+: l → m.width.toNat ≤ k.bits) ∧ l.width.toNat = k.bits := by
  rw [pattern, exists_patternFrom_iff l 0 (Nat.zero_le _)]
  simp only [UInt64.zero_add]

/-- The count can only wrap at a literal. -/
theorem countable_of_literals {l : Layout k}
    (h : ∀ len value, .literal len value ∈ l → k.bits + len.toNat < 2 ^ 64) :
    ∀ s ∈ l, s.Countable := by
  intro s hs
  cases s with
  | literal len value => exact h len value hs
  | field name dest => exact Segment.countable_field name dest

theorem countable_of_extent_le {l : Layout k} (h : l.extent ≤ k.bits) : ∀ s ∈ l, s.Countable := by
  intro s hs
  have hb := k.bits_le
  have hle := s.toNat_width_le
  have hpart := extent_le_of_mem hs
  rw [Segment.Countable]
  omega

/-- **When a layout has a pattern.** A layout has a pattern exactly if the wrapping sums of the
widths of its prefixes stay within the word, and that of the whole is the width of the word. This
accepts every layout that covers the word. Without a literal that is within a word's width of
`2 ^ 64` bits it accepts nothing else, and then every word can be read along a layout that has a
pattern. -/
theorem pattern_by_running_count (l : Layout k) :
    ((∃ p, l.pattern = .ok p) ↔
      (∀ m : Layout k, m <+: l → m.width.toNat ≤ k.bits) ∧ l.width.toNat = k.bits) ∧
    (l.extent = k.bits → ∃ p, l.pattern = .ok p) ∧
    ((∀ len value, .literal len value ∈ l → k.bits + len.toNat < 2 ^ 64) →
      ((∃ p, l.pattern = .ok p) ↔ l.extent = k.bits) ∧
      ∀ p, l.pattern = .ok p → ∀ w, ∃ fs, l.fields w = .ok fs) := by
  refine ⟨l.exists_pattern_iff, fun hext => ?_, fun hliterals => ?_⟩
  · exact ⟨_, (pattern_eq_ok_iff (countable_of_extent_le hext.le) _).mpr ⟨hext, rfl⟩⟩
  · have hcount := countable_of_literals hliterals
    refine ⟨⟨?_, fun hext => ⟨_, (pattern_eq_ok_iff hcount _).mpr ⟨hext, rfl⟩⟩⟩, ?_⟩
    · rintro ⟨p, hp⟩
      exact ((pattern_eq_ok_iff hcount p).mp hp).1
    · intro p hp w
      have hext := ((pattern_eq_ok_iff hcount p).mp hp).1
      obtain ⟨fs, hfs, -⟩ := fields_eq_ok hext.le w
      exact ⟨fs, hfs⟩

/-- A literal whose value does not fit has a pattern all the same, and the word can be read; one of
`2 ^ 63` bits has none. -/
theorem pattern_by_running_count_unchecked :
    let l : Layout .compact := [.literal 4 0xFFFF, .field "imm" [40, 3], .literal 10 0]
    let m : Layout .compact := .literal 0x8000000000000000 0 :: l
    l.pattern = .ok ⟨0xF3FF, 0xF000⟩ ∧ (∀ w, ∃ fs, l.fields w = .ok fs) ∧
      ¬ ∃ p, m.pattern = .ok p := by
  intro l m
  have hl : l.pattern = .ok ⟨0xF3FF, 0xF000⟩ := by decide
  have hcount : ∀ s ∈ m, s.Countable := by decide
  obtain ⟨-, hfields⟩ :=
    (pattern_by_running_count l).2.2 fun _ _ h => hcount _ (List.mem_cons_of_mem _ h)
  obtain ⟨hm, -⟩ := (pattern_by_running_count m).2.2 fun _ _ h => hcount _ h
  exact ⟨hl, hfields _ hl, fun hp => absurd (hm.mp hp) (by decide)⟩

/-- The count wraps at the second of these literals and starts again, so the layout has a pattern,
though it is too long for any word to be read along it. -/
theorem pattern_takes_wrapping_literal :
    let l : Layout .compact := [.literal 1 0, .literal 0xFFFFFFFFFFFFFFFF 0, .literal 16 0]
    l.pattern = .ok ⟨0xFFFF, 0⟩ ∧ l.extent = 2 ^ 64 + 16 ∧
      (∀ w, ∃ e, l.fields w = .error e) ∧
      ¬ ∀ (k : Width) (l : Layout k), (∃ p, l.pattern = .ok p) ↔ l.extent = k.bits := by
  intro l
  have hp : l.pattern = .ok ⟨0xFFFF, 0⟩ := by decide
  have hext : l.extent = 2 ^ 64 + 16 := by decide
  refine ⟨hp, hext, fun w => (l.fields_eq_error_iff w).mpr ?_, fun h => ?_⟩
  · rw [hext]
    decide
  · have := (h .compact l).mp ⟨_, hp⟩
    rw [hext] at this
    revert this
    decide

end Layout

namespace Entry

variable {k : Width}

/-! ## Both checks together -/

theorem make_of_firstFault? {l : Layout k} {f : LayoutFault k} (h : l.firstFault? 0 = some f)
    (t : Template) : make l t = .error (.layout f) := by
  rw [make, Layout.validate, h]

/-- If all segments are well formed, what can still be wrong is the number of bits. -/
theorem cause_of_wellFormed {l : Layout k} (hl : ∀ s ∈ l, s.WellFormed) {t : Template}
    {f : EntryFault k} (h : make l t = .error f) : f.cause = .widthMismatch := by
  rw [make, Layout.validate, (l.firstFault?_eq_none_iff 0).mpr hl] at h
  by_cases hwidth : l.width.toNat = k.bits
  · simp only [hwidth, if_true] at h
    split at h
    · obtain rfl := Except.error.inj h
      rfl
    · cases h
  · simp only [hwidth, if_false] at h
    obtain rfl := Except.error.inj h
    rfl

/-- **What is accepted as an entry.** An entry is made of a layout exactly if all segments are well
formed and their extents, added without bound, are the width of the word. Otherwise the cause that
is reported is that of the first segment that is not well formed, and a wrong total is reported only
if there is none. Along the layout of an entry every word can be read. -/
theorem make_judges_layout (l : Layout k) (t : Template) :
    ((∃ e, make l t = .ok e) ↔ (∀ s ∈ l, s.WellFormed) ∧ l.extent = k.bits) ∧
    (∀ c, (∃ f, make l t = .error f ∧ f.cause = c) ↔
      (∃ (before : Layout k) (s : Segment k) (after : Layout k), l = before ++ s :: after ∧
        (∀ r ∈ before, r.WellFormed) ∧ ¬ s.WellFormed ∧ s.IllFormed c) ∨
      (∀ s ∈ l, s.WellFormed) ∧ l.extent ≠ k.bits ∧ c = .widthMismatch) ∧
    (∀ e, make l t = .ok e → ∀ w, ∃ fs, l.fields w = .ok fs ∧ e.fields w = .ok fs) := by
  have hok : (∃ e, make l t = .ok e) ↔ (∀ s ∈ l, s.WellFormed) ∧ l.extent = k.bits := by
    simp only [make_eq_ok_iff, exists_and_left, exists_eq, and_true]
  refine ⟨hok, fun c => ⟨?_, ?_⟩, ?_⟩
  · rintro ⟨f, hf, rfl⟩
    rcases hfault : l.firstFault? 0 with _ | g
    · have hl := (l.firstFault?_eq_none_iff 0).mp hfault
      refine .inr ⟨hl, fun hext => ?_, cause_of_wellFormed hl hf⟩
      obtain ⟨e, he⟩ := hok.mpr ⟨hl, hext⟩
      cases hf.symm.trans he
    · obtain rfl := Except.error.inj (hf.symm.trans (make_of_firstFault? hfault t))
      obtain ⟨before, s, after, g, hsplit, hbefore, hg, rfl⟩ :=
        (l.firstFault?_eq_some_iff 0 _).mp hfault
      have hs := Segment.illFormed_of_fault? hg
      exact .inl ⟨before, s, after, hsplit, hbefore, hs.not_wellFormed, hs⟩
  · rintro (⟨before, s, after, hsplit, hbefore, -, hs⟩ | ⟨hl, hext, rfl⟩)
    · obtain ⟨g, hg, rfl⟩ := (s.exists_fault?_iff c).mpr hs
      have hfault := (l.firstFault?_eq_some_iff 0 _).mpr
        ⟨before, s, after, g, hsplit, hbefore, hg, rfl⟩
      exact ⟨_, make_of_firstFault? hfault t, rfl⟩
    · rcases hmake : make l t with f | e
      · exact ⟨f, rfl, cause_of_wellFormed hl hmake⟩
      · exact absurd (hok.mp ⟨e, hmake⟩).2 hext
  · intro e he w
    obtain ⟨-, hext, rfl⟩ := (make_eq_ok_iff l t e).mp he
    obtain ⟨fs, hfs, -⟩ := Layout.fields_eq_ok hext.le w
    exact ⟨fs, hfs, hfs⟩

/-- Of three faults the one of the second segment is reported, which is its name and not that it has
no bits; and a jump with its eleven scattered bits is accepted. -/
theorem make_judges_layout_faulty :
    let l : Layout .compact := [.literal 3 0, .field "1x" [], .literal 2 0b111]
    let m : Layout .compact :=
      [.literal 3 0b101, .field "off" [11, 4, 9, 8, 10, 6, 7, 3, 2, 1, 5], .literal 2 0b01]
    (∃ f, make l [] = .error f ∧ f.cause = .fieldName) ∧
      (∃ e, make m [] = .ok e ∧ ∀ w, ∃ fs, m.fields w = .ok fs ∧ e.fields w = .ok fs) := by
  intro l m
  have hfirst : ∀ r ∈ l.take 1, r.WellFormed := by decide
  have hsecond : (.field "1x" [] : Segment .compact).IllFormed .fieldName := .name [] (by decide)
  have hm : ∀ s ∈ m, s.WellFormed := by decide
  refine ⟨((make_judges_layout l []).2.1 _).mpr (.inl ⟨l.take 1, _, _, rfl, hfirst,
    hsecond.not_wellFormed, hsecond⟩), ?_⟩
  obtain ⟨haccept, -, hread⟩ := make_judges_layout m []
  obtain ⟨e, he⟩ := haccept.mpr ⟨hm, by decide⟩
  exact ⟨e, he, hread e he⟩

end Entry

end Disassembly
