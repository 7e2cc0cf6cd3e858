import Disassembly.Entry.Basic
import Mathlib.Data.BitVec

/-!
# Layouts that cover their word

Lengths are 64-bit numbers and their sums wrap around, both in `Layout.validate` and in
`Layout.pattern`. Yet no layout of a wrong size slips through both:

* `Segment.WellFormed` is what `Segment.fault?` checks, said on its own;
* `Segment.Countable` is what the count of used bits asks of a segment; a well-formed one has it,
  and so has every field;
* `Layout.patternFrom_eq_ok_iff`: over such segments the count never wraps, because it is compared
  with the width of the word after every segment;
* `Entry.make_eq_ok_iff`: an entry is made of a layout exactly if all segments are well formed and
  their extents, added without bound, are the width of the word;
* `Layout.extent_eq_of_validate`: the first check alone is exact as long as the bits of the layout
  can be counted in 64 bits at all.
-/

namespace Disassembly

/-! ## Lengths -/

theorem toNat_length64 {α : Type} (xs : List α) :
    (length64 xs).toNat = min xs.length 0x7FFFFFFFFFFFFFFF := by
  rw [length64, UInt64.toNat_ofNat']
  omega

theorem Width.bits_le (k : Width) : k.bits ≤ 32 := by
  cases k <;> decide

theorem Width.bits_pos (k : Width) : 0 < k.bits := by
  cases k <;> decide

namespace Segment

variable {k : Width}

/-- The width of a segment is its extent, unless the segment is as long as a list can be. -/
theorem toNat_width_le (s : Segment k) : s.width.toNat ≤ s.extent := by
  cases s with
  | literal len value => exact Nat.le_refl _
  | field name dest =>
    rw [width, toNat_length64]
    exact Nat.min_le_left _ _

theorem extent_eq_of_toNat_width_le {s : Segment k} (h : s.width.toNat ≤ k.bits) :
    s.extent = s.width.toNat := by
  cases s with
  | literal len value => rfl
  | field name dest =>
    have hb := k.bits_le
    rw [width, toNat_length64] at h ⊢
    rw [extent]
    omega

/-! ## Well-formed segments -/

/-- A segment that makes sense by itself: a literal of some bits of the word with a value that fits
in them, or a field with a name and with at least one destination, all within a field value. -/
def WellFormed : Segment k → Prop
  | literal len value => 1 ≤ len.toNat ∧ len.toNat ≤ k.bits ∧ value.toNat < 2 ^ len.toNat
  | field name dest => isName name = true ∧ dest ≠ [] ∧ ∀ d ∈ dest, d.toNat ≤ 31

instance (s : Segment k) : Decidable s.WellFormed :=
  match s with
  | literal _ _ => inferInstanceAs (Decidable (_ ∧ _ ∧ _))
  | field _ dest =>
    -- by going through the destinations: there are too many numbers to go through all of them
    have : Decidable (∀ d ∈ dest, d.toNat ≤ 31) :=
      List.decidableBAll (fun d : UInt64 => d.toNat ≤ 31) dest
    inferInstanceAs (Decidable (_ ∧ _ ∧ _))

theorem ushiftRight_eq_zero_iff {n : Nat} (x : BitVec n) (m : Nat) :
    x >>> m = 0 ↔ x.toNat < 2 ^ m := by
  rw [← BitVec.toNat_inj, BitVec.toNat_ushiftRight, Nat.shiftRight_eq_div_pow]
  exact Nat.div_eq_zero_iff_lt (Nat.two_pow_pos m)

theorem eq_zero_iff_toNat (len : UInt64) : len = 0 ↔ len.toNat = 0 := by
  rw [← UInt64.toNat_inj]
  rfl

theorem lastFieldBit_lt_iff (d : UInt64) : lastFieldBit < d ↔ 31 < d.toNat := by
  rw [UInt64.lt_iff_toNat_lt]
  rfl

/-- Nothing is wrong with a segment exactly if it is well formed. -/
theorem fault?_eq_none_iff (s : Segment k) : s.fault? = none ↔ s.WellFormed := by
  cases s with
  | literal len value =>
    simp only [fault?, WellFormed, eq_zero_iff_toNat]
    split
    · simp
      omega
    · rename_i hlen
      rw [← ushiftRight_eq_zero_iff value len.toNat]
      split
      · simp_all
      · rename_i hvalue
        rw [not_not] at hvalue
        simp only [hvalue, and_true, true_iff]
        omega
  | field name dest =>
    simp only [fault?, WellFormed]
    split
    · simp_all
    · split
      · simp_all
      · simp_all [List.find?_eq_none, lastFieldBit_lt_iff]

/-! ## Countable segments -/

/-- After no more bits than a word has, the bits of the segment can still be counted in 64 bits. -/
def Countable (s : Segment k) : Prop := k.bits + s.width.toNat < 2 ^ 64

instance (s : Segment k) : Decidable s.Countable := inferInstanceAs (Decidable (_ < _))

theorem countable_field (name : Text) (dest : List UInt64) :
    (field name dest : Segment k).Countable := by
  have hb := k.bits_le
  rw [Countable, width, toNat_length64]
  omega

theorem WellFormed.countable {s : Segment k} (hs : s.WellFormed) : s.Countable := by
  cases s with
  | literal len value =>
    have hb := k.bits_le
    obtain ⟨-, hlen, -⟩ := hs
    rw [Countable, width]
    omega
  | field name dest => exact countable_field name dest

end Segment

namespace Layout

variable {k : Width}

/-! ## The sum of the widths -/

theorem toNat_foldl_width (l : Layout k) (n : UInt64) :
    (l.foldl (fun n s => n + s.width) n).toNat =
      (n.toNat + (l.map fun s => s.width.toNat).sum) % 2 ^ 64 := by
  induction l generalizing n with
  | nil =>
    have := n.toNat_lt
    simp only [List.foldl_nil, List.map_nil, List.sum_nil]
    omega
  | cons s l ih =>
    rw [List.foldl_cons, ih, UInt64.toNat_add, List.map_cons, List.sum_cons]
    omega

theorem toNat_width (l : Layout k) :
    l.width.toNat = (l.map fun s => s.width.toNat).sum % 2 ^ 64 := by
  rw [width, toNat_foldl_width]
  simp

theorem sum_toNat_width_le_extent (l : Layout k) :
    (l.map fun s => s.width.toNat).sum ≤ l.extent := by
  induction l with
  | nil => exact Nat.le_refl _
  | cons s l ih =>
    have := s.toNat_width_le
    rw [List.map_cons, List.sum_cons, extent_cons]
    omega

/-- Widths that together are no more than the word are the extents. -/
theorem extent_eq_of_sum_le {l : Layout k}
    (h : (l.map fun s => s.width.toNat).sum ≤ k.bits) :
    l.extent = (l.map fun s => s.width.toNat).sum := by
  induction l with
  | nil => rfl
  | cons s l ih =>
    rw [List.map_cons, List.sum_cons] at h ⊢
    rw [extent_cons, ih (by omega), Segment.extent_eq_of_toNat_width_le (by omega)]

theorem extent_append (l m : Layout k) : extent (l ++ m) = l.extent + m.extent := by
  induction l with
  | nil => simp
  | cons s l ih =>
    rw [List.cons_append, extent_cons, extent_cons, ih]
    omega

theorem extent_le_of_mem {l : Layout k} {s : Segment k} (hs : s ∈ l) : s.extent ≤ l.extent := by
  obtain ⟨before, after, rfl⟩ := List.append_of_mem hs
  rw [extent_append, extent_cons]
  omega

/-! ## Validation -/

theorem firstFault?_eq_none_iff (l : Layout k) (index : Nat) :
    l.firstFault? index = none ↔ ∀ s ∈ l, s.WellFormed := by
  induction l generalizing index with
  | nil => simp [firstFault?]
  | cons s l ih =>
    rw [List.forall_mem_cons, ← ih (index + 1), ← s.fault?_eq_none_iff, firstFault?]
    cases s.fault? <;> simp

theorem validate_eq_ok_iff (l : Layout k) :
    l.validate = .ok () ↔ (∀ s ∈ l, s.WellFormed) ∧ l.width.toNat = k.bits := by
  rw [← l.firstFault?_eq_none_iff 0, validate]
  cases l.firstFault? 0 with
  | some f => simp
  | none =>
    simp only [true_and]
    split <;> simp_all

/-- A valid layout whose bits can be counted in 64 bits covers its word. -/
theorem extent_eq_of_validate {l : Layout k} (hv : l.validate = .ok ()) (hl : l.extent < 2 ^ 64) :
    l.extent = k.bits := by
  obtain ⟨-, hw⟩ := l.validate_eq_ok_iff.mp hv
  have hle := l.sum_toNat_width_le_extent
  rw [toNat_width, Nat.mod_eq_of_lt (by omega)] at hw
  rw [extent_eq_of_sum_le (by omega), hw]

/-! ## Masks and patterns -/

/-- The count of used bits does not wrap at a countable segment. -/
theorem toNat_used_add {s : Segment k} (hs : s.Countable) {used : UInt64}
    (hu : used.toNat ≤ k.bits) : (used + s.width).toNat = used.toNat + s.width.toNat := by
  rw [Segment.Countable] at hs
  rw [UInt64.toNat_add, Nat.mod_eq_of_lt (by omega)]

/-- Countable segments have a pattern exactly if they fill what is left of the word, and then it is
put together segment by segment. -/
theorem patternFrom_eq_ok_iff {l : Layout k} (hl : ∀ s ∈ l, s.Countable) {index : Nat}
    {used : UInt64} (hu : used.toNat ≤ k.bits) (p q : Pattern k) :
    patternFrom index used p l = .ok q ↔
      used.toNat + l.extent = k.bits ∧ q = l.foldl Pattern.extend p := by
  induction l generalizing index used p with
  | nil =>
    rw [patternFrom, extent_nil, Nat.add_zero, List.foldl_nil]
    split <;> simp_all [eq_comm]
  | cons s l ih =>
    obtain ⟨hs, hl⟩ := List.forall_mem_cons.mp hl
    -- `used` is at most the width of the word before every segment
    have hadd := toNat_used_add hs hu
    have hle := s.toNat_width_le
    rw [patternFrom, extent_cons, List.foldl_cons, hadd]
    split
    · -- the segment overruns the word, and so does the layout
      simp only [reduceCtorEq, false_iff, not_and]
      omega
    · rw [ih hl (by omega), hadd, Segment.extent_eq_of_toNat_width_le (by omega), Nat.add_assoc]

theorem pattern_eq_ok_iff {l : Layout k} (hl : ∀ s ∈ l, s.Countable) (p : Pattern k) :
    l.pattern = .ok p ↔ l.extent = k.bits ∧ p = l.foldl Pattern.extend ⟨0, 0⟩ := by
  rw [pattern, patternFrom_eq_ok_iff hl (by simp)]
  simp

end Layout

namespace Entry

variable {k : Width}

/-- An entry is made of a layout exactly if all segments are well formed and cover the word. -/
theorem make_eq_ok_iff (l : Layout k) (t : Template) (e : Entry k) :
    make l t = .ok e ↔
      (∀ s ∈ l, s.WellFormed) ∧ l.extent = k.bits ∧
        e = ⟨l, t, l.foldl Pattern.extend ⟨0, 0⟩⟩ := by
  refine ⟨?_, ?_⟩
  · intro h
    unfold make at h
    split at h
    · simp at h
    · rename_i hv
      obtain ⟨hl, -⟩ := l.validate_eq_ok_iff.mp hv
      split at h
      · simp at h
      · rename_i p hp
        obtain ⟨hext, rfl⟩ := (Layout.pattern_eq_ok_iff (fun s hs => (hl s hs).countable) p).mp hp
        simp only [Except.ok.injEq] at h
        exact ⟨hl, hext, h.symm⟩
  · rintro ⟨hl, hext, rfl⟩
    have hsum := l.sum_toNat_width_le_extent
    have hb := k.bits_le
    have hv : l.validate = .ok () := by
      refine l.validate_eq_ok_iff.mpr ⟨hl, ?_⟩
      rw [l.toNat_width, ← Layout.extent_eq_of_sum_le (by omega), hext]
      omega
    have hp := (Layout.pattern_eq_ok_iff (fun s hs => (hl s hs).countable) _).mpr ⟨hext, rfl⟩
    simp only [make, hv, hp]

/-- A valid layout of a countable number of bits makes an entry. -/
theorem exists_make_eq_ok {l : Layout k} (hv : l.validate = .ok ()) (hl : l.extent < 2 ^ 64)
    (t : Template) : ∃ e, make l t = .ok e :=
  ⟨_, (make_eq_ok_iff l t _).mpr
    ⟨(l.validate_eq_ok_iff.mp hv).1, Layout.extent_eq_of_validate hv hl, rfl⟩⟩

end Entry

end Disassembly
