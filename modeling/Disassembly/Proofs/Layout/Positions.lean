import Disassembly.Proofs.Layout.Reading

/-!
# Fields by position

Reading a word along a layout asks nothing of the layout, so it can fail, and it can meet
destinations that a field value does not have. Both are settled by plain counting:

* `Layout.fieldsFrom_eq_error`: a layout that takes more bits than are left cannot be read, and what
  is reported does not depend on the word, because the number of unread bits does not;
* `Layout.feeds_iff_sets`: in a layout that fits, the bit for the destination with index `j` of a
  segment stands `j` bits below the first one that the segments before it leave.

Together they say what reading gives along every layout, whether it is valid or not.
-/

namespace Disassembly

namespace Layout

variable {k : Width}

/-! ## Layouts that do not fit -/

theorem gather_eq_none (w : Word k) {left : Nat} {dest : List UInt64} (h : left < dest.length)
    (v : BitVec 32) : gather w left dest v = none := by
  induction dest generalizing left v with
  | nil => simp at h
  | cons d dest ih =>
    cases left with
    | zero => rfl
    | succ left =>
      rw [List.length_cons] at h
      exact ih (by omega) _

/-- A layout that takes more bits than are left is refused at the same segment and for the same
reason, whatever the word and the fields read so far. -/
theorem fieldsFrom_eq_error {l : Layout k} {left : Nat} (h : left < l.extent) (index : Nat) :
    ∃ e, ∀ w fs, fieldsFrom w index left fs l = .error e := by
  induction l generalizing index left with
  | nil => simp at h
  | cons s l ih =>
    rw [extent_cons] at h
    cases s with
    | literal len value =>
      rw [Segment.extent] at h
      by_cases hfits : left < len.toNat
      · refine ⟨.literal index len left, fun w fs => ?_⟩
        rw [fieldsFrom, if_pos hfits]
      · have hrest : left - len.toNat < extent l := by omega
        obtain ⟨e, he⟩ := ih hrest (index + 1)
        refine ⟨e, fun w fs => ?_⟩
        rw [fieldsFrom, if_neg hfits]
        exact he w fs
    | field name dest =>
      rw [Segment.extent] at h
      rcases Nat.lt_or_ge left dest.length with hshort | hfits
      · refine ⟨.field index name, fun w fs => ?_⟩
        rw [fieldsFrom, gather_eq_none w hshort]
      · have hrest : left - dest.length < extent l := by omega
        obtain ⟨e, he⟩ := ih hrest (index + 1)
        refine ⟨e, fun w fs => ?_⟩
        obtain ⟨v, hv, -⟩ :=
          gather_eq_some w (left - dest.length) dest ((fs.get? name).getD 0)
        rw [Nat.sub_add_cancel hfits] at hv
        rw [fieldsFrom, hv]
        exact he w _

/-- Every fault in reading a word is one of width. -/
theorem widthMismatch_of_readFault (e : ReadFault) :
    Cause.widthMismatch.message <:+ e.message := by
  cases e <;> exact List.suffix_append _ _

/-- Reading a word fails exactly if the layout takes more bits than the word has. -/
theorem fields_eq_error_iff (l : Layout k) (w : Word k) :
    (∃ e, l.fields w = .error e) ↔ k.bits < l.extent := by
  constructor
  · rintro ⟨e, he⟩
    by_contra hle
    obtain ⟨fs, hfs, -⟩ := fields_eq_ok (Nat.not_lt.mp hle) w
    cases he.symm.trans hfs
  · intro hl
    obtain ⟨e, he⟩ := fieldsFrom_eq_error hl 0
    exact ⟨e, he w []⟩

/-! ## Places -/

/-- Some segment of the named field has `b` as its destination with index `j`, and the bit of the
word at the place of that destination is set: counted from the most significant bit down, it comes
after the bits of the segments before and after `j` bits of its own segment. -/
def Sets (l : Layout k) (w : Word k) (name : Text) (b : Nat) : Prop :=
  ∃ (before : Layout k) (dest : List UInt64) (after : Layout k),
    l = before ++ .field name dest :: after ∧
      ∃ j d, dest[j]? = some d ∧ d.toNat = b ∧
        w.getLsbD (k.bits - 1 - before.extent - j) = true

/-- The role of a destination and its place are the same bit of the word. -/
theorem feeds_iff_sets {l : Layout k} (hl : l.extent ≤ k.bits) (w : Word k) (name : Text)
    (b : Nat) : l.Feeds w (k.bits - l.extent) name b ↔ l.Sets w name b := by
  -- roles and destinations of a segment are listed in opposite directions
  have hplace : ∀ (before : Layout k) (dest : List UInt64) (after : Layout k) (j : Nat),
      j < dest.length → l = before ++ .field name dest :: after →
      k.bits - l.extent + (extent after + (dest.length - 1 - j)) =
        k.bits - 1 - before.extent - j := by
    rintro before dest after j hj rfl
    rw [extent_append, extent_cons, Segment.extent] at hl ⊢
    omega
  constructor
  · rintro ⟨i, d, hrole, hd, hw⟩
    obtain ⟨before, s, after, hsplit, j, rfl, hj⟩ := (getElem?_roles_eq_some_iff _ _ _).mp hrole
    obtain ⟨dest, rfl, hdest⟩ := (Segment.getElem?_roles_eq_part_iff _ _ _ _).mp hj
    have hlt : j < dest.length := by
      simpa using (List.getElem?_eq_some_iff.mp hdest).1
    rw [List.getElem?_reverse hlt] at hdest
    refine ⟨before, dest, after, hsplit, dest.length - 1 - j, d, hdest, hd, ?_⟩
    rw [← hplace before dest after _ (by omega) hsplit,
      show dest.length - 1 - (dest.length - 1 - j) = j by omega]
    exact hw
  · rintro ⟨before, dest, after, hsplit, j, d, hdest, hd, hw⟩
    have hlt : j < dest.length := (List.getElem?_eq_some_iff.mp hdest).1
    refine ⟨extent after + (dest.length - 1 - j), d, ?_, hd, ?_⟩
    · apply (getElem?_roles_eq_some_iff _ _ _).mpr
      refine ⟨before, _, after, hsplit, dest.length - 1 - j, rfl, ?_⟩
      apply (Segment.getElem?_roles_eq_part_iff _ _ _ _).mpr
      refine ⟨dest, rfl, ?_⟩
      rw [List.getElem?_reverse (by omega),
        show dest.length - 1 - (dest.length - 1 - j) = j by omega]
      exact hdest
    · rw [hplace before dest after j hlt hsplit]
      exact hw

/-- Destinations that a field value does not have set nothing. -/
theorem not_sets_of_beyond {l : Layout k} {name : Text}
    (h : ∀ dest, .field name dest ∈ l → ∀ d ∈ dest, 32 ≤ d.toNat) (w : Word k) {b : Nat}
    (hb : b < 32) : ¬ l.Sets w name b := by
  rintro ⟨before, dest, after, rfl, j, d, hd, rfl, -⟩
  have := h dest (List.mem_append_right _ List.mem_cons_self) d (List.mem_of_getElem? hd)
  omega

/-- **What a word gives along any layout.** Reading fails exactly if the segments take more bits
than the word has, and then for every word with the same report of a width mismatch. Otherwise the
names that have a value are those of the field segments, and a bit of a value is set exactly if a
set bit of the word stands at a place that goes there. Destinations beyond the last bit of a value
contribute nothing, so a field that has no others is zero. -/
theorem fields_by_position (l : Layout k) :
    (∀ w, (∃ e, l.fields w = .error e) ↔ k.bits < l.extent) ∧
    (k.bits < l.extent →
      ∃ e, (∀ w, l.fields w = .error e) ∧ Cause.widthMismatch.message <:+ e.message) ∧
    (l.extent ≤ k.bits → ∀ w, ∃ fs, l.fields w = .ok fs ∧
      (∀ name, (∃ v, fs.get? name = some v) ↔ ∃ dest, .field name dest ∈ l) ∧
      ∀ name v, fs.get? name = some v →
        (∀ b < 32, v.getLsbD b = true ↔ l.Sets w name b) ∧
        ((∀ dest, .field name dest ∈ l → ∀ d ∈ dest, 32 ≤ d.toNat) → v = 0)) := by
  refine ⟨l.fields_eq_error_iff, fun hl => ?_, fun hl w => ?_⟩
  · obtain ⟨e, he⟩ := fieldsFrom_eq_error hl 0
    exact ⟨e, fun w => he w [], widthMismatch_of_readFault e⟩
  · obtain ⟨fs, hfs, hnames, hbits⟩ := fields_eq_ok hl w
    refine ⟨fs, hfs, fun name => ?_, fun name v hv => ?_⟩
    · rw [← Option.isSome_iff_exists, hnames name]
      exact Iff.rfl
    · have hset : ∀ b < 32, v.getLsbD b = true ↔ l.Sets w name b := by
        intro b hb
        have hfed := hbits name b hb
        rwa [hv, Option.getD_some, feeds_iff_sets hl] at hfed
      refine ⟨hset, fun hbeyond => ?_⟩
      apply BitVec.eq_of_getLsbD_eq
      intro b hb
      rw [BitVec.ofNat_eq_ofNat, BitVec.getLsbD_zero, ← Bool.not_eq_true, hset b hb]
      exact not_sets_of_beyond hbeyond w hb

/-- A layout that no check would accept: the field is spread over two segments, has a destination
twice and another that its value does not have, and five bits of the word are left over. After a
literal as long as a length can be, nothing of it could be read. -/
theorem fields_by_position_unchecked :
    let l : Layout .compact := [.field "a" [3, 40, 3], .literal 4 0xFFFF, .field "a" [0, 5, 1, 1]]
    let m : Layout .compact := .literal 0xFFFFFFFFFFFFFFFF 0 :: l
    l.extent ≤ Width.bits .compact ∧ Width.bits .compact < m.extent ∧
      (∃ fs v, l.fields 0x2080 = .ok fs ∧ fs.get? "a" = some v ∧
        v.getLsbD 3 = true ∧ v.getLsbD 5 = true) ∧
      ∃ e, (∀ w, m.fields w = .error e) ∧ Cause.widthMismatch.message <:+ e.message := by
  intro l m
  have hl : l.extent ≤ Width.bits .compact := by decide
  have hm : Width.bits .compact < m.extent := by decide
  obtain ⟨fs, hfs, hnames, hvalues⟩ := (fields_by_position l).2.2 hl 0x2080
  obtain ⟨v, hv⟩ := (hnames "a").mpr ⟨_, List.mem_cons_self⟩
  obtain ⟨hset, -⟩ := hvalues "a" v hv
  have h₃ : l.Sets 0x2080 "a" 3 := ⟨[], _, _, rfl, 2, 3, rfl, rfl, rfl⟩
  have h₅ : l.Sets 0x2080 "a" 5 := ⟨l.take 2, _, [], rfl, 1, 5, rfl, rfl, by decide⟩
  exact ⟨hl, hm, ⟨fs, v, hfs, hv, (hset 3 (by decide)).mpr h₃, (hset 5 (by decide)).mpr h₅⟩,
    (fields_by_position m).2.1 hm⟩

end Layout

end Disassembly
