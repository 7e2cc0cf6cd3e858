import Disassembly.Proofs.Layout.Coverage

/-!
# What each bit of a word is for

A layout gives every bit of its word one role: the bit is fixed, or it is a part of a field.
`Layout.roles` lists the roles from bit zero up, so that the role of the bit at index `i` is the
`i`-th of them. Masks, field values and encodings are all described bit by bit through this list.

* `Layout.getElem?_roles_eq_some_iff` finds the segment behind a role;
* `Layout.Agrees` and `Layout.IsLiteralBit` speak of literals and their places in the word, and
  `Layout.agrees_iff`, `Layout.isLiteralBit_iff` say the same with roles.
-/

namespace Disassembly

/-- What a bit of a word is for. -/
inductive BitRole where
  /-- it has to have a given value -/
  | fixed (b : Bool)
  /-- it goes to the bit `dest` of a field's value -/
  | part (name : Text) (dest : UInt64)
  deriving DecidableEq

namespace BitRole

/-- Whether a bit is fixed. -/
def isFixed : BitRole → Bool
  | fixed _ => true
  | part _ _ => false

/-- Whether a bit is fixed and has to be set. -/
def isSet : BitRole → Bool
  | fixed b => b
  | part _ _ => false

end BitRole

namespace Segment

variable {k : Width}

/-- The roles of the bits of a segment, the least significant bit first. -/
def roles : Segment k → List BitRole
  | literal len value => (List.range len.toNat).map fun i => .fixed (value.getLsbD i)
  | field name dest => dest.reverse.map (.part name)

@[simp]
theorem length_roles (s : Segment k) : s.roles.length = s.extent := by
  cases s <;> simp [roles, extent]

theorem getElem?_roles_literal (len : UInt64) (value : Word k) (i : Nat) :
    (literal len value).roles[i]? =
      if i < len.toNat then some (.fixed (value.getLsbD i)) else none := by
  rw [roles, List.getElem?_map]
  split
  · rename_i h
    rw [List.getElem?_range h, Option.map_some]
  · rename_i h
    rw [List.getElem?_eq_none (by simpa using h), Option.map_none]

/-- Only a literal has fixed bits. -/
theorem getElem?_roles_eq_fixed_iff (s : Segment k) (j : Nat) (b : Bool) :
    s.roles[j]? = some (.fixed b) ↔
      ∃ len value, s = literal len value ∧ j < len.toNat ∧ value.getLsbD j = b := by
  cases s with
  | literal len value =>
    rw [getElem?_roles_literal]
    refine ⟨?_, ?_⟩
    · intro h
      split at h
      · rename_i hj
        simp only [Option.some.injEq, BitRole.fixed.injEq] at h
        exact ⟨len, value, rfl, hj, h⟩
      · simp at h
    · rintro ⟨len', value', hs, hj, hb⟩
      obtain ⟨rfl, rfl⟩ := Segment.literal.inj hs
      rw [if_pos hj, hb]
  | field name dest =>
    rw [roles, List.getElem?_map]
    simp

/-- Only a field has bits that are parts, and the last of its destinations comes first. -/
theorem getElem?_roles_eq_part_iff (s : Segment k) (j : Nat) (name : Text) (d : UInt64) :
    s.roles[j]? = some (.part name d) ↔
      ∃ dest, s = field name dest ∧ dest.reverse[j]? = some d := by
  cases s with
  | literal len value =>
    rw [getElem?_roles_literal]
    split <;> simp
  | field n dest =>
    rw [roles, List.getElem?_map]
    refine ⟨?_, ?_⟩
    · intro h
      obtain ⟨d', hd, hr⟩ := Option.map_eq_some_iff.mp h
      obtain ⟨rfl, rfl⟩ := BitRole.part.inj hr
      exact ⟨dest, rfl, hd⟩
    · rintro ⟨dest', hs, hd⟩
      obtain ⟨rfl, rfl⟩ := Segment.field.inj hs
      rw [hd, Option.map_some]

end Segment

namespace Layout

variable {k : Width}

/-- The roles of the bits of a word, from bit zero up. -/
def roles (l : Layout k) : List BitRole := l.reverse.flatMap Segment.roles

@[simp]
theorem roles_nil : roles ([] : Layout k) = [] := rfl

theorem roles_append (l m : Layout k) : roles (l ++ m) = m.roles ++ l.roles := by
  simp [roles]

theorem roles_cons (s : Segment k) (l : Layout k) : roles (s :: l) = l.roles ++ s.roles := by
  simp [roles]

@[simp]
theorem length_roles (l : Layout k) : l.roles.length = l.extent := by
  induction l with
  | nil => rfl
  | cons s l ih =>
    rw [roles_cons, List.length_append, ih, Segment.length_roles, extent_cons, Nat.add_comm]

/-- The role of a bit comes from one segment, whose bits stand above those of the segments after
it. -/
theorem getElem?_roles_eq_some_iff (l : Layout k) (i : Nat) (r : BitRole) :
    l.roles[i]? = some r ↔
      ∃ (before : Layout k) (s : Segment k) (after : Layout k), l = before ++ s :: after ∧
        ∃ j, i = extent after + j ∧ s.roles[j]? = some r := by
  refine ⟨?_, ?_⟩
  · intro h
    induction l with
    | nil => simp at h
    | cons s l ih =>
      rw [roles_cons] at h
      -- the bits of the first segment are above those of all others
      rcases Nat.lt_or_ge i (extent l) with hi | hi
      · rw [List.getElem?_append_left (by simpa using hi)] at h
        obtain ⟨before, s', after, rfl, hj⟩ := ih h
        exact ⟨s :: before, s', after, rfl, hj⟩
      · rw [List.getElem?_append_right (by simpa using hi), length_roles] at h
        exact ⟨[], s, l, rfl, i - extent l, by omega, h⟩
  · rintro ⟨before, s, after, rfl, j, rfl, h⟩
    have hj : j < s.roles.length := (List.getElem?_eq_some_iff.mp h).1
    rw [roles_append, roles_cons, List.append_assoc,
      List.getElem?_append_right (by simp), length_roles, Nat.add_sub_cancel_left,
      List.getElem?_append_left hj]
    exact h

/-- The destinations in a layout of well-formed segments lie within a field value. -/
theorem toNat_lt_of_part {l : Layout k} (hw : ∀ s ∈ l, s.WellFormed) {i : Nat} {name : Text}
    {d : UInt64} (h : l.roles[i]? = some (.part name d)) : d.toNat < 32 := by
  obtain ⟨before, s, after, rfl, j, -, hj⟩ := (getElem?_roles_eq_some_iff _ _ _).mp h
  obtain ⟨dest, rfl, hdest⟩ := (Segment.getElem?_roles_eq_part_iff _ _ _ _).mp hj
  obtain ⟨-, -, hlast⟩ := hw _ (List.mem_append_right _ List.mem_cons_self)
  have := hlast d (List.mem_reverse.mp (List.mem_of_getElem? hdest))
  omega

/-! ## Literals and their places -/

/-- The place, counted from bit zero, of `n` bits that follow the segments `before` when these fill
a word from its most significant bit down. -/
def placeAfter (before : Layout k) (n : Nat) : Nat := k.bits - (before.extent + n)

/-- A layout agrees with a word if each literal stands in the word at its place. -/
def Agrees (l : Layout k) (w : Word k) : Prop :=
  ∀ (before : Layout k) (len : UInt64) (value : Word k) (after : Layout k),
    l = before ++ .literal len value :: after →
      (w.extractLsb' (before.placeAfter len.toNat) len.toNat).toNat = value.toNat

/-- The bit at index `i` of a word is covered by a literal of the layout. -/
def IsLiteralBit (l : Layout k) (i : Nat) : Prop :=
  ∃ (before : Layout k) (len : UInt64) (value : Word k) (after : Layout k),
    l = before ++ .literal len value :: after ∧
      before.placeAfter len.toNat ≤ i ∧ i < before.placeAfter len.toNat + len.toNat

/-- In a layout that covers its word, the place of a segment is what the segments after it take. -/
theorem placeAfter_eq {before : Layout k} {s : Segment k} {after : Layout k}
    (h : extent (before ++ s :: after) = k.bits) :
    before.placeAfter s.extent = after.extent := by
  rw [extent_append, extent_cons] at h
  rw [placeAfter]
  omega

theorem isLiteralBit_iff {l : Layout k} (hl : l.extent = k.bits) (i : Nat) :
    l.IsLiteralBit i ↔ ∃ b, l.roles[i]? = some (.fixed b) := by
  refine ⟨?_, ?_⟩
  · rintro ⟨before, len, value, after, rfl, hlo, hhi⟩
    rw [← show (Segment.literal len value).extent = len.toNat from rfl, placeAfter_eq hl]
      at hlo hhi
    refine ⟨value.getLsbD (i - after.extent), ?_⟩
    rw [getElem?_roles_eq_some_iff]
    refine ⟨before, _, after, rfl, i - after.extent, by omega, ?_⟩
    rw [Segment.getElem?_roles_eq_fixed_iff]
    exact ⟨len, value, rfl, by rw [Segment.extent] at hhi; omega, rfl⟩
  · rintro ⟨b, h⟩
    obtain ⟨before, s, after, rfl, j, rfl, hj⟩ := (getElem?_roles_eq_some_iff _ _ _).mp h
    obtain ⟨len, value, rfl, hlen, -⟩ := (Segment.getElem?_roles_eq_fixed_iff _ _ _).mp hj
    refine ⟨before, len, value, after, rfl, ?_⟩
    rw [← show (Segment.literal len value).extent = len.toNat from rfl, placeAfter_eq hl,
      Segment.extent]
    omega

end Layout

/-- A slice of a word has the value of a number that fits in it exactly if the bits are the same. -/
theorem toNat_extractLsb'_eq_iff {n m : Nat} (w : BitVec n) (lo len : Nat) (v : BitVec m)
    (hv : v.toNat < 2 ^ len) :
    (w.extractLsb' lo len).toNat = v.toNat ↔
      ∀ j < len, w.getLsbD (lo + j) = v.getLsbD j := by
  refine ⟨?_, ?_⟩
  · intro h j hj
    have hbit := congrArg (Nat.testBit · j) h
    simpa only [BitVec.testBit_toNat, BitVec.getLsbD_extractLsb', hj, decide_true,
      Bool.true_and] using hbit
  · intro h
    refine Nat.eq_of_testBit_eq fun j => ?_
    rw [BitVec.testBit_toNat, BitVec.getLsbD_extractLsb']
    rcases Nat.lt_or_ge j len with hj | hj
    · rw [h j hj, BitVec.testBit_toNat]
      simp [hj]
    · have hpow : 2 ^ len ≤ 2 ^ j := Nat.pow_le_pow_right (by decide) hj
      rw [Nat.testBit_lt_two_pow (by omega)]
      simp [hj]

namespace Layout

variable {k : Width}

/-- A layout that covers its word agrees with the words that have its fixed bits. -/
theorem agrees_iff {l : Layout k} (hl : l.extent = k.bits) (hw : ∀ s ∈ l, s.WellFormed)
    (w : Word k) :
    l.Agrees w ↔ ∀ i b, l.roles[i]? = some (.fixed b) → w.getLsbD i = b := by
  refine ⟨?_, ?_⟩
  · intro h i b hb
    obtain ⟨before, s, after, rfl, j, rfl, hj⟩ := (getElem?_roles_eq_some_iff _ _ _).mp hb
    obtain ⟨len, value, rfl, hlen, rfl⟩ := (Segment.getElem?_roles_eq_fixed_iff _ _ _).mp hj
    obtain ⟨-, -, hfit⟩ := hw _ (List.mem_append_right _ List.mem_cons_self)
    have hslice := h before len value after rfl
    rw [toNat_extractLsb'_eq_iff _ _ _ _ hfit] at hslice
    rw [← hslice j hlen, ← placeAfter_eq hl, Segment.extent]
  · rintro h before len value after rfl
    obtain ⟨-, -, hfit⟩ := hw _ (List.mem_append_right _ List.mem_cons_self)
    rw [toNat_extractLsb'_eq_iff _ _ _ _ hfit]
    intro j hj
    refine h _ _ ?_
    rw [getElem?_roles_eq_some_iff]
    refine ⟨before, _, after, rfl, j, ?_, ?_⟩
    · rw [← placeAfter_eq hl, Segment.extent]
    · exact (Segment.getElem?_roles_eq_fixed_iff _ _ _).mpr ⟨len, value, rfl, hj, rfl⟩

end Layout

end Disassembly
