import Disassembly.Proofs.Layout.BitRole

/-!
# Recognition by mask and pattern

The mask and the pattern of a layout are put together from the most significant segment down, and
every further segment shifts what is there. `Pattern.Describes` is the invariant: the bits of the
mask and of the pattern are those of a list of roles. A segment more puts its roles below the others
(`Pattern.Describes.extend`), so in the end the roles are those of the layout
(`Entry.Made.describes`), and matching is agreement with the layout (`Entry.Made.matches_iff`).
-/

namespace Disassembly

namespace Pattern

variable {k : Width}

/-- The mask has the fixed bits of a list of roles and the pattern their values, and nothing
above. -/
def Describes (p : Pattern k) (rs : List BitRole) : Prop :=
  ∀ i < k.bits, p.mask.getLsbD i = rs[i]?.any BitRole.isFixed ∧
    p.value.getLsbD i = rs[i]?.any BitRole.isSet

theorem describes_nil : Describes (⟨0, 0⟩ : Pattern k) [] := by
  intro i _
  simp

/-- There is one pattern for a list of roles. -/
theorem Describes.unique {p q : Pattern k} {rs : List BitRole} (hp : p.Describes rs)
    (hq : q.Describes rs) : p = q := by
  have hmask : p.mask = q.mask :=
    BitVec.eq_of_getLsbD_eq fun i hi => (hp i hi).1.trans (hq i hi).1.symm
  have hvalue : p.value = q.value :=
    BitVec.eq_of_getLsbD_eq fun i hi => (hp i hi).2.trans (hq i hi).2.symm
  exact congrArg₂ Pattern.mk hmask hvalue

theorem Describes.extend {p : Pattern k} {rs : List BitRole} (hp : p.Describes rs) {s : Segment k}
    (hs : s.width.toNat ≤ k.bits) : (p.extend s).Describes (s.roles ++ rs) := by
  intro i hi
  have hext := Segment.extent_eq_of_toNat_width_le hs
  rcases Nat.lt_or_ge i s.extent with hlt | hge
  · -- a bit of the new segment
    rw [List.getElem?_append_left (by simpa using hlt)]
    rw [hext] at hlt
    cases s with
    | literal len value =>
      rw [Segment.getElem?_roles_literal, if_pos (show i < len.toNat from hlt)]
      simp only [Pattern.extend, Word.shiftUp_eq, BitVec.getLsbD_or, BitVec.getLsbD_and,
        BitVec.getLsbD_shiftLeft, Word.getLsbD_ones hs, hlt, hi, decide_true, Bool.not_true,
        Bool.and_false, Bool.false_and, Bool.false_or, Bool.and_true, Option.any_some,
        BitRole.isFixed, BitRole.isSet, and_self]
    | field name dest =>
      have hpart : (Segment.field name dest : Segment k).roles[i]?.any BitRole.isFixed = false ∧
          (Segment.field name dest : Segment k).roles[i]?.any BitRole.isSet = false := by
        rw [Segment.roles, List.getElem?_map]
        cases dest.reverse[i]? <;> simp [BitRole.isFixed, BitRole.isSet]
      rw [hpart.1, hpart.2]
      simp [Pattern.extend, Word.shiftUp_eq, hlt]
  · -- a bit of the segments before, shifted up
    rw [List.getElem?_append_right (by simpa using hge), Segment.length_roles]
    obtain ⟨hmask, hvalue⟩ := hp (i - s.extent) (by omega)
    rw [← hmask, ← hvalue]
    rw [hext] at hge
    have hlow : (Word.ones s.width.toNat : Word k).getLsbD i = false := by
      rw [Word.getLsbD_ones hs, decide_eq_false (by omega)]
    rw [hext]
    cases s with
    | literal len value =>
      simp only [Pattern.extend, Word.shiftUp_eq, BitVec.getLsbD_or, BitVec.getLsbD_and,
        BitVec.getLsbD_shiftLeft, hlow, hi, decide_true, Bool.and_false, Bool.or_false,
        Bool.true_and, Nat.not_lt.mpr hge, decide_false, Bool.not_false, and_self]
    | field name dest =>
      simp only [Pattern.extend, Word.shiftUp_eq, BitVec.getLsbD_shiftLeft, hi, decide_true,
        Bool.true_and, Nat.not_lt.mpr hge, decide_false, Bool.not_false, and_self]

/-- The pattern of a layout describes its roles, above those that were there before. -/
theorem Describes.foldl_extend {p : Pattern k} {rs : List BitRole} (hp : p.Describes rs)
    {l : Layout k} (hl : l.extent ≤ k.bits) :
    (l.foldl Pattern.extend p).Describes (l.roles ++ rs) := by
  induction l generalizing p rs with
  | nil => exact hp
  | cons s l ih =>
    rw [Layout.extent_cons] at hl
    have hs : s.width.toNat ≤ k.bits := by
      have := s.toNat_width_le
      omega
    rw [List.foldl_cons, Layout.roles_cons, List.append_assoc]
    exact ih (hp.extend hs) (by omega)

end Pattern

namespace Entry

variable {k : Width}

/-- An entry that was made of a layout and a template. -/
def Made (e : Entry k) : Prop := ∃ l t, make l t = .ok e

namespace Made

variable {e : Entry k}

theorem wellFormed (he : e.Made) : ∀ s ∈ e.layout, s.WellFormed := by
  obtain ⟨l, t, h⟩ := he
  obtain ⟨hw, -, rfl⟩ := (make_eq_ok_iff l t e).mp h
  exact hw

theorem extent (he : e.Made) : e.layout.extent = k.bits := by
  obtain ⟨l, t, h⟩ := he
  obtain ⟨-, hl, rfl⟩ := (make_eq_ok_iff l t e).mp h
  exact hl

/-- The mask and the pattern of an entry are those of the roles in its layout. -/
theorem describes (he : e.Made) : e.pattern.Describes e.layout.roles := by
  obtain ⟨l, t, h⟩ := he
  obtain ⟨-, hl, rfl⟩ := (make_eq_ok_iff l t e).mp h
  have := Pattern.describes_nil.foldl_extend (Nat.le_of_eq hl)
  rwa [List.append_nil] at this

/-- The mask is set exactly at the bits of literals. -/
theorem getLsbD_mask_iff (he : e.Made) (i : Nat) :
    e.pattern.mask.getLsbD i = true ↔ e.layout.IsLiteralBit i := by
  rw [Layout.isLiteralBit_iff he.extent]
  rcases Nat.lt_or_ge i k.bits with hi | hi
  · rw [(he.describes i hi).1]
    rcases e.layout.roles[i]? with _ | (b | ⟨name, d⟩) <;> simp [BitRole.isFixed]
  · rw [BitVec.getLsbD_of_ge _ _ hi, List.getElem?_eq_none (by simpa [he.extent] using hi)]
    simp

/-- The pattern has no bits outside of the mask. -/
theorem value_and_not_mask (he : e.Made) : e.pattern.value &&& ~~~e.pattern.mask = 0 := by
  refine BitVec.eq_of_getLsbD_eq fun i hi => ?_
  obtain ⟨hmask, hvalue⟩ := he.describes i hi
  rw [BitVec.getLsbD_and, BitVec.getLsbD_not, hmask, hvalue]
  rcases e.layout.roles[i]? with _ | (b | ⟨name, d⟩) <;> simp [BitRole.isFixed, BitRole.isSet]

/-- An entry matches the words that have the fixed bits of its layout. -/
theorem matches_iff_fixed (he : e.Made) (w : Word k) :
    e.Matches w ↔ ∀ i b, e.layout.roles[i]? = some (.fixed b) → w.getLsbD i = b := by
  refine ⟨?_, ?_⟩
  · intro h i b hb
    have hi : i < k.bits := by
      have := (List.getElem?_eq_some_iff.mp hb).1
      rwa [Layout.length_roles, he.extent] at this
    obtain ⟨hmask, hvalue⟩ := he.describes i hi
    have hbit := congrArg (BitVec.getLsbD · i) h
    simp only [BitVec.getLsbD_and, hmask, hvalue, hb] at hbit
    simpa [BitRole.isFixed, BitRole.isSet] using hbit
  · intro h
    refine BitVec.eq_of_getLsbD_eq fun i hi => ?_
    obtain ⟨hmask, hvalue⟩ := he.describes i hi
    rw [BitVec.getLsbD_and, hmask, hvalue]
    rcases hr : e.layout.roles[i]? with _ | (b | ⟨name, d⟩)
    · simp
    · simp [BitRole.isFixed, BitRole.isSet, h i b hr]
    · simp [BitRole.isFixed, BitRole.isSet]

/-- An entry matches the words that its layout agrees with. -/
theorem matches_iff (he : e.Made) (w : Word k) : e.Matches w ↔ e.layout.Agrees w := by
  rw [he.matches_iff_fixed w, Layout.agrees_iff he.extent he.wellFormed]

end Made

end Entry

end Disassembly
