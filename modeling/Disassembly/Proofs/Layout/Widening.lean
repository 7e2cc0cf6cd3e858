import Disassembly.Proofs.Layout.Reading
import Disassembly.Proofs.Layout.Recognition

/-!
# Compressed layouts in words of full width

Everything that is done with layouts is done for both widths, and the width matters nowhere else
than where a word begins. This can be said of a compressed layout and of a layout of full width that
begins with sixteen fixed bits and goes on like the compressed one (`Layout.under`): the bits below
have the same roles (`Layout.roles_under`). So whatever is known by roles is the same for both:
mask and pattern (`Layout.describes_under`), recognition, and the values of fields
(`Layout.fields_under`), which are gathered from the same bits.
-/

namespace Disassembly

/-! ## Words -/

namespace Word

/-- The word of full width with the halves `h` and `w`. -/
def above (h w : Word .compact) : Word .full := h.setWidth 32 <<< 16 ||| w.setWidth 32

theorem getLsbD_above (h w : Word .compact) (i : Nat) :
    (h.above w).getLsbD i = if i < 16 then w.getLsbD i else h.getLsbD (i - 16) := by
  rw [above, BitVec.getLsbD_or, BitVec.getLsbD_shiftLeft, BitVec.getLsbD_setWidth,
    BitVec.getLsbD_setWidth]
  split
  · rename_i hi
    simp [hi, show i < 32 by omega]
  · rename_i hi
    rw [BitVec.getLsbD_of_ge w i (Nat.not_lt.mp hi)]
    rcases Nat.lt_or_ge i 32 with hlt | hge
    · simp [hi, hlt, show i - 16 < 32 by omega]
    · rw [BitVec.getLsbD_of_ge h (i - 16) (show 16 ≤ i - 16 by omega)]
      simp

theorem above_and_above (h w m n : Word .compact) :
    h.above w &&& m.above n = above (h &&& m) (w &&& n) := by
  refine BitVec.eq_of_getLsbD_eq fun i _ => ?_
  simp only [BitVec.getLsbD_and, getLsbD_above]
  split <;> rfl

theorem above_inj (h v w : Word .compact) : h.above v = h.above w ↔ v = w := by
  refine ⟨fun heq => BitVec.eq_of_getLsbD_eq fun i hi => ?_, fun heq => heq ▸ rfl⟩
  have hbit := congrArg (BitVec.getLsbD · i) heq
  simpa only [getLsbD_above, if_pos hi] using hbit

end Word

/-! ## Segments -/

namespace Segment

/-- A segment of a compressed layout in a layout of full width. -/
def widen : Segment .compact → Segment .full
  | literal len value => literal len (value.setWidth 32)
  | field name dest => field name dest

@[simp]
theorem width_widen (s : Segment .compact) : s.widen.width = s.width := by
  cases s <;> rfl

@[simp]
theorem extent_widen (s : Segment .compact) : s.widen.extent = s.extent := by
  cases s <;> rfl

@[simp]
theorem roles_widen (s : Segment .compact) : s.widen.roles = s.roles := by
  cases s with
  | literal len value =>
    refine List.map_congr_left fun i _ => ?_
    rw [BitVec.getLsbD_setWidth]
    rcases Nat.lt_or_ge i 32 with hi | hi
    · simp [hi]
    · rw [BitVec.getLsbD_of_ge value i (show 16 ≤ i by omega), Bool.and_false]
  | field name dest => rfl

theorem WellFormed.widen {s : Segment .compact} (hs : s.WellFormed) : s.widen.WellFormed := by
  cases s with
  | literal len value =>
    obtain ⟨hpos, hlen, hvalue⟩ := hs
    refine ⟨hpos, Nat.le_trans hlen (by decide), ?_⟩
    rwa [BitVec.toNat_setWidth_of_le (by decide)]
  | field name dest => exact hs

end Segment

/-! ## Layouts -/

namespace Layout

/-- The layout of full width that begins with the fixed bits `h` and goes on like a compressed
one. -/
def under (l : Layout .compact) (h : Word .compact) : Layout .full :=
  .literal 16 (h.setWidth 32) :: l.map Segment.widen

variable (l : Layout .compact) (h : Word .compact)

theorem extent_map_widen : extent (l.map Segment.widen) = l.extent := by
  induction l with
  | nil => rfl
  | cons s l ih => rw [List.map_cons, extent_cons, extent_cons, ih, Segment.extent_widen]

theorem extent_under : (l.under h).extent = 16 + l.extent := by
  rw [under, extent_cons, extent_map_widen]
  rfl

/-- The lower half of a word is used as the compressed layout uses it. -/
theorem roles_under :
    (l.under h).roles = l.roles ++ (Segment.literal 16 (h.setWidth 32) : Segment .full).roles := by
  rw [under, roles_cons]
  congr 1
  rw [roles, roles, ← List.map_reverse, List.flatMap_map]
  exact congrArg (l.reverse.flatMap ·) (funext Segment.roles_widen)

/-- The upper half of a word is fixed. -/
theorem getElem?_roles_under {l : Layout .compact} (hl : l.extent = 16) {i : Nat} (hi : i < 32) :
    (l.under h).roles[i]? =
      if i < 16 then l.roles[i]? else some (.fixed (h.getLsbD (i - 16))) := by
  rw [roles_under]
  split
  · rename_i hlow
    rw [List.getElem?_append_left (by rw [length_roles, hl]; exact hlow)]
  · rename_i hhigh
    have hfixed : i - 16 < (16 : UInt64).toNat := Nat.sub_lt_right_of_lt_add (by omega) hi
    rw [List.getElem?_append_right (by rw [length_roles, hl]; omega), length_roles, hl,
      Segment.getElem?_roles_literal, if_pos hfixed, BitVec.getLsbD_setWidth,
      decide_eq_true (show i - 16 < 32 by omega), Bool.true_and]

theorem wellFormed_under {l : Layout .compact} (hl : ∀ s ∈ l, s.WellFormed) :
    ∀ s ∈ l.under h, s.WellFormed := by
  refine List.forall_mem_cons.mpr ⟨⟨by decide, by decide, ?_⟩, fun s hs => ?_⟩
  · rw [BitVec.toNat_setWidth_of_le (by decide)]
    exact h.isLt
  · obtain ⟨s, hmem, rfl⟩ := List.mem_map.mp hs
    exact (hl s hmem).widen

theorem validate_under {l : Layout .compact} (hv : l.validate = .ok ()) :
    (l.under h).validate = .ok () := by
  obtain ⟨hl, hwidth⟩ := l.validate_eq_ok_iff.mp hv
  refine (validate_eq_ok_iff _).mpr ⟨wellFormed_under h hl, ?_⟩
  have hsum : ((l.under h).map fun s => s.width.toNat).sum =
      16 + (l.map fun s => s.width.toNat).sum := by
    rw [under, List.map_cons, List.sum_cons, List.map_map]
    congr 2
    exact List.map_congr_left fun s _ => congrArg UInt64.toNat s.width_widen
  rw [toNat_width] at hwidth ⊢
  rw [hsum]
  change _ = 16 at hwidth
  change _ = 32
  omega

/-- A pattern for the layout below, with the fixed bits above it. -/
theorem describes_under {l : Layout .compact} (hl : l.extent = 16) {p : Pattern .compact}
    (hp : p.Describes l.roles) :
    Pattern.Describes ⟨Word.above (BitVec.allOnes 16) p.mask, h.above p.value⟩
      (l.under h).roles := by
  intro i hi
  rw [getElem?_roles_under h hl hi]
  simp only [Word.getLsbD_above]
  split
  · rename_i hlow
    exact hp i hlow
  · rename_i hhigh
    have hone : (BitVec.allOnes 16).getLsbD (i - 16) = true := by
      rw [BitVec.getLsbD_allOnes]
      exact decide_eq_true (Nat.sub_lt_right_of_lt_add (Nat.not_lt.mp hhigh) hi)
    rw [hone]
    exact ⟨rfl, rfl⟩

/-! ## Fields -/

/-- Bits of the lower half are gathered as from the word that it is. -/
theorem gather_above (w : Word .compact) {left : Nat} (hleft : left ≤ 16) (dest : List UInt64)
    (v : BitVec 32) : gather (h.above w) left dest v = gather w left dest v := by
  induction dest generalizing left v with
  | nil => rw [gather, gather]
  | cons d dest ih =>
    cases left with
    | zero => rw [gather, gather]
    | succ left =>
      rw [gather, gather, ih (by omega), Word.bit_eq_getLsbD, Word.bit_eq_getLsbD,
        Word.getLsbD_above, if_pos (by omega)]

theorem le_of_gather {k : Width} {w : Word k} {left rest : Nat} {dest : List UInt64}
    {v v' : BitVec 32} (hgather : gather w left dest v = some (rest, v')) : rest ≤ left := by
  induction dest generalizing left v with
  | nil =>
    rw [gather] at hgather
    exact Nat.le_of_eq (Prod.mk.inj (Option.some.inj hgather)).1.symm
  | cons d dest ih =>
    cases left with
    | zero => cases hgather
    | succ left => exact Nat.le_succ_of_le (ih hgather)

/-- From the lower half on, the same fields are read. The segments have other numbers, and so have
the reports on them. -/
theorem fieldsFrom_above (w : Word .compact) (index index' : Nat) {left : Nat} (hleft : left ≤ 16)
    (fs : Fields) :
    (fieldsFrom (h.above w) index' left fs (l.map Segment.widen)).toOption =
      (fieldsFrom w index left fs l).toOption := by
  induction l generalizing index index' left fs with
  | nil => rfl
  | cons s l ih =>
    cases s with
    | literal len value =>
      rw [List.map_cons, Segment.widen, fieldsFrom, fieldsFrom]
      split
      · rfl
      · exact ih _ _ (by omega) _
    | field name dest =>
      rw [List.map_cons, Segment.widen, fieldsFrom, fieldsFrom, gather_above h w hleft]
      rcases hgather : gather w left dest ((fs.get? name).getD 0) with _ | ⟨rest, v⟩
      · rfl
      · exact ih _ _ (Nat.le_trans (le_of_gather hgather) hleft) _

theorem fields_under (w : Word .compact) :
    ((l.under h).fields (h.above w)).toOption = (l.fields w).toOption := by
  have hskip : (l.under h).fields (h.above w) =
      fieldsFrom (h.above w) 1 16 [] (l.map Segment.widen) := rfl
  rw [hskip, fieldsFrom_above l h w 0 1 (Nat.le_refl _)]
  rfl

/-! ## Entries -/

/-- The entry of full width has the fixed bits above and the pattern of the compressed one below. -/
theorem pattern_under {l : Layout .compact} {h : Word .compact} {t : Template} {e : Entry .compact}
    {e' : Entry .full} (he : Entry.make l t = .ok e) (he' : Entry.make (l.under h) t = .ok e') :
    e'.pattern = ⟨Word.above (BitVec.allOnes 16) e.pattern.mask, h.above e.pattern.value⟩ := by
  have hbelow : e.Made := ⟨l, t, he⟩
  have hwhole : e'.Made := ⟨l.under h, t, he'⟩
  obtain ⟨-, hl, rfl⟩ := (Entry.make_eq_ok_iff l t e).mp he
  obtain ⟨-, -, rfl⟩ := (Entry.make_eq_ok_iff _ t e').mp he'
  exact hwhole.describes.unique (describes_under h hl hbelow.describes)

/-- **Both widths are treated alike.** A valid compressed layout, put under sixteen fixed bits, is a
valid layout of full width, along which the same fields are read from the lower half of a word. Both
make entries, as long as the bits can be counted in 64 bits; the mask and the pattern of the wide
one are those of the other below the fixed bits, and it matches a word with the fixed bits above
exactly if the other matches what is below. -/
theorem under_works_alike (l : Layout .compact) (hv : l.validate = .ok ()) (h : Word .compact) :
    (l.under h).validate = .ok () ∧
    (∀ w, ((l.under h).fields (h.above w)).toOption = (l.fields w).toOption) ∧
    (l.extent < 2 ^ 64 → ∀ t, ∃ e e', Entry.make l t = .ok e ∧ Entry.make (l.under h) t = .ok e' ∧
      e'.pattern.mask = 0xFFFF0000 ||| e.pattern.mask.setWidth 32 ∧
      e'.pattern.value = h.setWidth 32 <<< 16 ||| e.pattern.value.setWidth 32 ∧
      ∀ w, (e'.Matches (h.above w) ↔ e.Matches w) ∧
        ∃ fs, e.fields w = .ok fs ∧ e'.fields (h.above w) = .ok fs) := by
  refine ⟨validate_under h hv, fields_under l h, fun hl t => ?_⟩
  have hext := extent_eq_of_validate hv hl
  obtain ⟨e, he⟩ := Entry.exists_make_eq_ok hv hl t
  obtain ⟨e', he'⟩ := Entry.exists_make_eq_ok (validate_under h hv)
    (by rw [extent_under, hext]; decide) t
  have hpattern := pattern_under he he'
  refine ⟨e, e', he, he', by rw [hpattern]; rfl, by rw [hpattern]; rfl, fun w => ⟨?_, ?_⟩⟩
  · rw [Entry.Matches, Entry.Matches, hpattern, Word.above_and_above, BitVec.and_allOnes,
      Word.above_inj]
  · obtain ⟨-, -, rfl⟩ := (Entry.make_eq_ok_iff l t e).mp he
    obtain ⟨-, -, rfl⟩ := (Entry.make_eq_ok_iff _ t e').mp he'
    obtain ⟨fs, hfs, -⟩ := fields_eq_ok (Nat.le_of_eq hext) w
    have hsame := fields_under l h w
    rw [hfs] at hsame
    rcases hwide : (l.under h).fields (h.above w) with f | fs'
    · rw [hwide] at hsame
      cases hsame
    · rw [hwide] at hsame
      exact ⟨fs, hfs, hwide.trans (congrArg Except.ok (Option.some.inj hsame))⟩

/-- A compressed store under bits that are no code by themselves. -/
theorem under_works_alike_store :
    let l : Layout .compact :=
      [.literal 3 6, .field "uimm" [5, 4, 3], .field "crs1" [2, 1, 0], .field "uimm" [2, 6],
        .field "crs2" [2, 1, 0], .literal 2 0]
    l.validate = .ok () ∧ ∃ e e', Entry.make l [] = .ok e ∧
      Entry.make (l.under 0xABCD) [] = .ok e' ∧ e'.pattern = ⟨0xFFFFE003, 0xABCDC000⟩ ∧
      ∀ w, e'.Matches (Word.above 0xABCD w) ↔ e.Matches w := by
  intro l
  have hv : l.validate = .ok () := by decide
  obtain ⟨-, -, hmake⟩ := under_works_alike l hv 0xABCD
  obtain ⟨e, e', he, he', hmask, hvalue, hword⟩ := hmake (by decide) []
  refine ⟨hv, e, e', he, he', ?_, fun w => (hword w).1⟩
  obtain ⟨-, -, rfl⟩ := (Entry.make_eq_ok_iff l [] e).mp he
  exact congrArg₂ Pattern.mk (hmask.trans (by decide)) (hvalue.trans (by decide))

end Layout

end Disassembly
