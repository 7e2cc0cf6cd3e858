import Disassembly.Proofs.Layout.BitRole

/-!
# Reading a word along a layout

Field values are gathered from the most significant bit of the word down. While a word is read, the
number of unread bits goes down with every segment just as the extent of what is left of the layout
does, so their difference `base` stays the same: it is the index of the word at which bit zero of
the layout stands. With it the run is described by roles alone (`Layout.Feeds`): the fields read are
those of the layout, and a bit of a value is set exactly if a set bit of the word goes there
(`Layout.fieldsFrom_eq_ok`, `Layout.fields_eq_ok`).
-/

namespace Disassembly

theorem getLsbD_placeBit (b : Bool) (dest : UInt64) {i : Nat} (hi : i < 32) :
    (placeBit b dest).getLsbD i = (b && decide (dest.toNat = i)) := by
  have hlt : dest < 32 ↔ dest.toNat < 32 := UInt64.lt_iff_toNat_lt
  unfold placeBit
  split
  · rename_i h
    simp only [Bool.and_eq_true, decide_eq_true_eq, hlt] at h
    rw [BitVec.getLsbD_shiftLeft, BitVec.getLsbD_one, h.1]
    by_cases hd : dest.toNat = i
    · simp [hd, hi]
    · simp [hd, hi]
      omega
  · rename_i h
    cases b with
    | false => simp
    | true =>
      simp only [Bool.true_and, decide_eq_true_eq, hlt] at h
      rw [BitVec.getLsbD_zero, Bool.true_and, decide_eq_false (by omega)]

namespace Segment

variable {k : Width}

/-- The name of the field that a segment belongs to. -/
def name? : Segment k → Option Text
  | literal _ _ => none
  | field name _ => some name

theorem name?_eq_some_iff (s : Segment k) {name : Text} :
    s.name? = some name ↔ ∃ dest, s = field name dest := by
  cases s <;> simp [name?]

end Segment

namespace Layout

variable {k : Width}

/-! ## One field segment -/

/-- Gathering as many bits as there are destinations succeeds, and adds to a value the bits of the
word from index `base` up, the last destination having the bit at `base`. -/
theorem gather_eq_some (w : Word k) (base : Nat) (dest : List UInt64) (v : BitVec 32) :
    ∃ v', gather w (base + dest.length) dest v = some (base, v') ∧
      ∀ b < 32, v'.getLsbD b = true ↔ v.getLsbD b = true ∨
        ∃ j d, dest.reverse[j]? = some d ∧ d.toNat = b ∧ w.getLsbD (base + j) = true := by
  induction dest generalizing v with
  | nil => exact ⟨v, by simp [gather], fun b _ => by simp⟩
  | cons d dest ih =>
    obtain ⟨v', hv', hbits⟩ := ih (v ||| placeBit (w.bit (base + dest.length)) d)
    refine ⟨v', ?_, fun b hb => ?_⟩
    · rw [List.length_cons, ← Nat.add_assoc, gather, hv']
    · rw [hbits b hb, BitVec.getLsbD_or, getLsbD_placeBit _ _ hb, Word.bit_eq_getLsbD]
      simp only [Bool.or_eq_true, Bool.and_eq_true, decide_eq_true_eq, List.reverse_cons]
      refine ⟨?_, ?_⟩
      · rintro ((hv | ⟨hw, hd⟩) | ⟨j, d', hj, hd', hw⟩)
        · exact .inl hv
        · refine .inr ⟨dest.length, d, ?_, hd, hw⟩
          rw [List.getElem?_append_right (by simp)]
          simp
        · refine .inr ⟨j, d', ?_, hd', hw⟩
          rw [List.getElem?_append_left (List.getElem?_eq_some_iff.mp hj).1]
          exact hj
      · rintro (hv | ⟨j, d', hj, hd', hw⟩)
        · exact .inl (.inl hv)
        · rcases Nat.lt_or_ge j dest.length with hlt | hge
          · rw [List.getElem?_append_left (by simpa using hlt)] at hj
            exact .inr ⟨j, d', hj, hd', hw⟩
          · rw [List.getElem?_append_right (by simpa using hge), List.getElem?_singleton] at hj
            simp only [List.length_reverse, Option.ite_none_right_eq_some, Option.some.injEq] at hj
            obtain ⟨hzero, rfl⟩ := hj
            obtain rfl : j = dest.length := by omega
            exact .inl (.inr ⟨hw, hd'⟩)

/-! ## All segments -/

/-- A layout has a field of the given name. -/
def HasField (l : Layout k) (name : Text) : Prop := ∃ dest, .field name dest ∈ l

instance (l : Layout k) (name : Text) : Decidable (l.HasField name) :=
  decidable_of_iff (∃ s ∈ l, s.name? = some name) <| by
    refine ⟨?_, ?_⟩
    · rintro ⟨s, hs, hname⟩
      obtain ⟨dest, rfl⟩ := s.name?_eq_some_iff.mp hname
      exact ⟨dest, hs⟩
    · rintro ⟨dest, hs⟩
      exact ⟨_, hs, rfl⟩

/-- Bit zero of the layout standing at index `base` of the word, some bit that goes to bit `b` of
the named field is set. -/
def Feeds (l : Layout k) (w : Word k) (base : Nat) (name : Text) (b : Nat) : Prop :=
  ∃ i d, l.roles[i]? = some (.part name d) ∧ d.toNat = b ∧ w.getLsbD (base + i) = true

theorem hasField_cons (s : Segment k) (l : Layout k) (name : Text) :
    HasField (s :: l) name ↔ (∃ dest, s = .field name dest) ∨ l.HasField name := by
  simp only [HasField, List.mem_cons]
  refine ⟨?_, ?_⟩
  · rintro ⟨dest, rfl | h⟩
    · exact .inl ⟨dest, rfl⟩
    · exact .inr ⟨dest, h⟩
  · rintro (⟨dest, rfl⟩ | ⟨dest, h⟩)
    · exact ⟨dest, .inl rfl⟩
    · exact ⟨dest, .inr h⟩

/-- What a layout feeds is fed by its first segment, which stands above the others, or by them. -/
theorem feeds_cons (s : Segment k) (l : Layout k) (w : Word k) (base : Nat) (name : Text)
    (b : Nat) :
    Feeds (s :: l) w base name b ↔ l.Feeds w base name b ∨
      ∃ dest, s = .field name dest ∧ ∃ j d, dest.reverse[j]? = some d ∧ d.toNat = b ∧
        w.getLsbD (base + l.extent + j) = true := by
  simp only [Feeds, roles_cons]
  refine ⟨?_, ?_⟩
  · rintro ⟨i, d, hi, hd, hw⟩
    rcases Nat.lt_or_ge i l.extent with hlt | hge
    · rw [List.getElem?_append_left (by simpa using hlt)] at hi
      exact .inl ⟨i, d, hi, hd, hw⟩
    · rw [List.getElem?_append_right (by simpa using hge), length_roles,
        Segment.getElem?_roles_eq_part_iff] at hi
      obtain ⟨dest, rfl, hj⟩ := hi
      refine .inr ⟨dest, rfl, i - l.extent, d, hj, hd, ?_⟩
      rwa [Nat.add_assoc, Nat.add_sub_cancel' hge]
  · rintro (⟨i, d, hi, hd, hw⟩ | ⟨dest, rfl, j, d, hj, hd, hw⟩)
    · refine ⟨i, d, ?_, hd, hw⟩
      rw [List.getElem?_append_left (List.getElem?_eq_some_iff.mp hi).1]
      exact hi
    · refine ⟨l.extent + j, d, ?_, hd, by rwa [← Nat.add_assoc]⟩
      rw [List.getElem?_append_right (by simp), length_roles, Nat.add_sub_cancel_left,
        Segment.getElem?_roles_eq_part_iff]
      exact ⟨dest, rfl, hj⟩

/-- Reading the rest `l` of a layout from `base` bits above what it takes succeeds. To the fields
read so far it adds those of `l`, and to the set bits of their values those that `l` feeds. -/
theorem fieldsFrom_eq_ok (w : Word k) (base : Nat) (l : Layout k) (index : Nat) (fs : Fields) :
    ∃ fs', fieldsFrom w index (base + l.extent) fs l = .ok fs' ∧
      (∀ name, (fs'.get? name).isSome = true ↔
        (fs.get? name).isSome = true ∨ l.HasField name) ∧
      ∀ name, ∀ b < 32, ((fs'.get? name).getD 0).getLsbD b = true ↔
        ((fs.get? name).getD 0).getLsbD b = true ∨ l.Feeds w base name b := by
  -- `base` stays the same, while the segment takes what is above `base + extent l`
  induction l generalizing index fs with
  | nil => exact ⟨fs, rfl, by simp [HasField], by simp [Feeds]⟩
  | cons s l ih =>
    cases s with
    | literal len value =>
      obtain ⟨fs', hrun, hnames, hbits⟩ := ih (index + 1) fs
      refine ⟨fs', ?_, fun name => ?_, fun name b hb => ?_⟩
      · rw [extent_cons, Segment.extent, fieldsFrom, if_neg (by omega),
          show base + (len.toNat + extent l) - len.toNat = base + extent l by omega]
        exact hrun
      · rw [hnames, hasField_cons]
        simp
      · rw [hbits name b hb, feeds_cons]
        simp
    | field n dest =>
      obtain ⟨v, hv, hgather⟩ :=
        gather_eq_some w (base + extent l) dest ((fs.get? n).getD 0)
      obtain ⟨fs', hrun, hnames, hbits⟩ := ih (index + 1) (fs.put n v)
      refine ⟨fs', ?_, fun name => ?_, fun name b hb => ?_⟩
      · rw [extent_cons, Segment.extent, Nat.add_left_comm, Nat.add_comm dest.length, fieldsFrom,
          hv]
        exact hrun
      · rw [hnames, hasField_cons]
        by_cases hn : name = n
        · subst hn
          simp
        · rw [Fields.get?_put_of_ne _ _ hn]
          simp [Ne.symm hn]
      · rw [hbits name b hb, feeds_cons]
        by_cases hn : name = n
        · subst hn
          rw [Fields.get?_put_self, Option.getD_some, hgather b hb]
          simp only [Segment.field.injEq, true_and, exists_eq_left', or_assoc]
          rw [or_comm (a := Feeds l w base name b)]
        · rw [Fields.get?_put_of_ne _ _ hn]
          simp [Ne.symm hn]

/-- A word is read along every layout that fits in it. The fields are those of the layout, and a bit
of a value is set exactly if a set bit of the word goes there. -/
theorem fields_eq_ok {l : Layout k} (hl : l.extent ≤ k.bits) (w : Word k) :
    ∃ fs, l.fields w = .ok fs ∧
      (∀ name, (fs.get? name).isSome = true ↔ l.HasField name) ∧
      ∀ name, ∀ b < 32, ((fs.get? name).getD 0).getLsbD b = true ↔
        l.Feeds w (k.bits - l.extent) name b := by
  obtain ⟨fs, hrun, hnames, hbits⟩ := fieldsFrom_eq_ok w (k.bits - l.extent) l 0 []
  rw [Nat.sub_add_cancel hl] at hrun
  refine ⟨fs, hrun, fun name => ?_, fun name b hb => ?_⟩
  · rw [hnames]
    simp [Fields.get?]
  · rw [hbits name b hb]
    simp [Fields.get?]

end Layout

end Disassembly
