import Disassembly.Proofs.Table.FirstMatch
import Mathlib.Logic.Equiv.Fin.Rotate

/-!
# The order of a table

The first entry that matches a word wins, so the order of a table matters, but only for entries
that overlap: entries whose patterns do not contradict each other on the bits that both of them fix.
Those are exactly the entries that have a word in common (`Entry.Made.overlaps_iff`).

A `Reordering` takes the entries of one table to the places that they have in another, and keeps the
order of those that overlap. All the entries that match a given word overlap, so the first of them
is still the first of them after a reordering (`Table.Reordering.isFirst_place`).
-/

namespace Disassembly

namespace Entry

variable {k : Width} {e f : Entry k}

/-- The patterns of two entries agree on the bits that both entries fix. -/
def Overlaps (e f : Entry k) : Prop :=
  (e.pattern.value ^^^ f.pattern.value) &&& e.pattern.mask &&& f.pattern.mask = 0

instance (e f : Entry k) : Decidable (e.Overlaps f) :=
  inferInstanceAs (Decidable (_ = _))

theorem overlaps_iff_forall : e.Overlaps f ↔
    ∀ i, e.pattern.mask.getLsbD i = true → f.pattern.mask.getLsbD i = true →
      e.pattern.value.getLsbD i = f.pattern.value.getLsbD i := by
  refine ⟨fun h i hemask hfmask => ?_, fun h => BitVec.eq_of_getLsbD_eq fun i _ => ?_⟩
  · have hbit := congrArg (BitVec.getLsbD · i) h
    simpa [hemask, hfmask] using hbit
  · have hbit := h i
    simp only [BitVec.getLsbD_and, BitVec.getLsbD_xor]
    grind

theorem Matches.getLsbD_value {w : Word k} (h : e.Matches w) (i : Nat) :
    e.pattern.value.getLsbD i = (w.getLsbD i && e.pattern.mask.getLsbD i) := by
  rw [← h, BitVec.getLsbD_and]

/-- Entries that have a word in common overlap. -/
theorem Matches.overlaps {w : Word k} (he : e.Matches w) (hf : f.Matches w) : e.Overlaps f := by
  rw [overlaps_iff_forall]
  intro i hemask hfmask
  rw [he.getLsbD_value, hf.getLsbD_value, hemask, hfmask]

namespace Made

theorem getLsbD_mask_of_value (he : e.Made) {i : Nat} (h : e.pattern.value.getLsbD i = true) :
    e.pattern.mask.getLsbD i = true := by
  have hbit := congrArg (BitVec.getLsbD · i) he.value_and_not_mask
  have hi := BitVec.lt_of_getLsbD h
  simpa [h, hi] using hbit

/-- Adding the pattern of an entry that overlaps does not change the bits that an entry fixes. -/
theorem matches_or (he : e.Made) (hf : f.Made) (h : e.Overlaps f) :
    e.Matches (e.pattern.value ||| f.pattern.value) := by
  rw [overlaps_iff_forall] at h
  refine BitVec.eq_of_getLsbD_eq fun i _ => ?_
  have hevalue := he.getLsbD_mask_of_value (i := i)
  have hfvalue := hf.getLsbD_mask_of_value (i := i)
  have hbit := h i
  simp only [BitVec.getLsbD_and, BitVec.getLsbD_or]
  grind

/-- Entries overlap exactly if they have a word in common. -/
theorem overlaps_iff (he : e.Made) (hf : f.Made) :
    e.Overlaps f ↔ ∃ w, e.Matches w ∧ f.Matches w := by
  constructor
  · intro h
    have hsymm : f.Overlaps e := by
      rw [Overlaps, BitVec.xor_comm, BitVec.and_assoc, BitVec.and_comm f.pattern.mask,
        ← BitVec.and_assoc]
      exact h
    refine ⟨e.pattern.value ||| f.pattern.value, he.matches_or hf h, ?_⟩
    rw [BitVec.or_comm]
    exact hf.matches_or he hsymm
  · rintro ⟨w, hew, hfw⟩
    exact hew.overlaps hfw

end Made

end Entry

namespace Table

variable {k : Width} {t t' : Table k} {w : Word k}

/-! ## The place of the first match -/

/-- The entry at a place is the first that matches a word. -/
def IsFirst (t : Table k) (w : Word k) (i : Fin t.entries.length) : Prop :=
  (t.entries.get i).Matches w ∧ ∀ j < i, ¬ (t.entries.get j).Matches w

theorem findIdx?_eq_some_iff (i : Fin t.entries.length) :
    t.findIdx? w = some i.val ↔ t.IsFirst w i := by
  rw [findIdx?, List.findIdx?_eq_some_iff_getElem]
  constructor
  · rintro ⟨_, hi, hbefore⟩
    refine ⟨by simpa using hi, fun j hj => ?_⟩
    simpa using hbefore j.val hj
  · rintro ⟨hi, hbefore⟩
    refine ⟨i.isLt, by simpa using hi, fun j hj => ?_⟩
    simpa using hbefore ⟨j, hj.trans i.isLt⟩ hj

theorem find?_of_isFirst {i : Fin t.entries.length} (h : t.IsFirst w i) :
    t.find? w = some (t.entries.get i) := by
  have hidx := (findIdx?_eq_some_iff i).mpr h
  rw [findIdx?] at hidx
  rw [find?, List.find?_eq_bind_findIdx?_getElem?, hidx, Option.bind_some,
    List.getElem?_eq_getElem i.isLt, List.get_eq_getElem]

theorem find?_eq_none_iff_get : t.find? w = none ↔ ∀ i, ¬ (t.entries.get i).Matches w := by
  rw [find?, List.find?_eq_none, List.forall_mem_iff_get]
  simp

theorem find?_eq_none_or_isFirst (t : Table k) (w : Word k) :
    t.find? w = none ∨ ∃ i, t.IsFirst w i := by
  rcases hidx : t.findIdx? w with _ | n
  · refine .inl ?_
    rw [findIdx?] at hidx
    rw [find?, List.find?_eq_bind_findIdx?_getElem?, hidx, Option.bind_none]
  · obtain ⟨hn, -⟩ := List.findIdx?_eq_some_iff_getElem.mp hidx
    exact .inr ⟨⟨n, hn⟩, (findIdx?_eq_some_iff ⟨n, hn⟩).mp hidx⟩

/-! ## Reordering -/

/-- The entries of one table at the places that they have in another, where entries that overlap
stand in the same order. -/
structure Reordering (t t' : Table k) where
  /-- the new place of an entry -/
  place : Fin t.entries.length ≃ Fin t'.entries.length
  /-- no entry is changed -/
  get_place : ∀ i, t'.entries.get (place i) = t.entries.get i
  /-- entries that overlap keep their order -/
  place_lt : ∀ i j, i < j → (t.entries.get i).Overlaps (t.entries.get j) → place i < place j

namespace Reordering

/-- The first entry that matches a word is the first wherever it is placed. -/
theorem isFirst_place (r : Reordering t t') {i : Fin t.entries.length} (h : t.IsFirst w i) :
    t'.IsFirst w (r.place i) := by
  obtain ⟨hi, hbefore⟩ := h
  refine ⟨by rwa [r.get_place], fun j' hj' hmatch => ?_⟩
  obtain ⟨j, rfl⟩ := r.place.surjective j'
  rw [r.get_place] at hmatch
  -- an entry that was moved to the front of `i` did not stand there before, so it stood after `i`
  rcases lt_trichotomy j i with hlt | rfl | hgt
  · exact hbefore j hlt hmatch
  · exact lt_irrefl _ hj'
  · exact absurd (r.place_lt i j hgt (hi.overlaps hmatch)) (not_lt_of_gt hj')

theorem find?_eq (r : Reordering t t') (w : Word k) : t'.find? w = t.find? w := by
  rcases find?_eq_none_or_isFirst t w with hnone | ⟨i, hi⟩
  · rw [hnone]
    rw [find?_eq_none_iff_get] at hnone ⊢
    intro j'
    obtain ⟨j, rfl⟩ := r.place.surjective j'
    rw [r.get_place]
    exact hnone j
  · rw [find?_of_isFirst hi, find?_of_isFirst (r.isFirst_place hi), r.get_place]

theorem lookup_eq (r : Reordering t t') (w : Word k) : t'.lookup w = t.lookup w := by
  rw [lookup, lookup, r.find?_eq]

theorem decode_eq (r : Reordering t t') (hformatters : t'.formatters = t.formatters)
    (w : Word k) : t'.decode w = t.decode w := by
  rw [decode, decode, r.lookup_eq, hformatters]

end Reordering

/-- **Only the order of overlapping entries matters.** When the entries of a table are reordered,
and those that overlap keep their order, every word has the same text as before, and the look-up
gives the same entry with the same fields, at its new place. No weaker condition would do, because
entries overlap exactly if there is a word that both of them match. -/
theorem reordering_changes_nothing (r : Reordering t t') (hmade : ∀ e ∈ t.entries, e.Made)
    (hformatters : t'.formatters = t.formatters) :
    (∀ w, (∃ text, t.decode w = .ok text ∧ t'.decode w = .ok text) ∧
      (∃ found, t.lookup w = .ok found ∧ t'.lookup w = .ok found) ∧
      ∀ i, t.findIdx? w = some i.val → t'.findIdx? w = some (r.place i).val) ∧
    ∀ e f : Entry k, e.Made → f.Made → (e.Overlaps f ↔ ∃ w, e.Matches w ∧ f.Matches w) := by
  refine ⟨fun w => ?_, fun e f he hf => he.overlaps_iff hf⟩
  rw [r.decode_eq hformatters, r.lookup_eq]
  simp only [and_self]
  refine ⟨?_, ?_, fun i hi => ?_⟩
  · rcases lookup_cases hmade w with ⟨-, hrun⟩ | ⟨e, fs, -, -, hrun⟩
    · exact ⟨_, decode_of_lookup_none hrun⟩
    · exact ⟨_, decode_of_lookup_some hrun⟩
  · rcases lookup_cases hmade w with ⟨-, hrun⟩ | ⟨e, fs, -, -, hrun⟩
    · exact ⟨_, hrun⟩
    · exact ⟨_, hrun⟩
  · rw [findIdx?_eq_some_iff] at hi ⊢
    exact r.isFirst_place hi

/-- The last entry is brought to the front of two that overlap. -/
theorem reordering_changes_nothing_rotated :
    let halt : Entry .compact := ⟨[.literal 16 0], [.text "halt"], ⟨0xFFFF, 0⟩⟩
    let move : Entry .compact :=
      ⟨[.literal 4 0, .field "rd" [4, 3, 2, 1, 0], .literal 7 0], [.text "move ", .field "rd"],
        ⟨0xF07F, 0⟩⟩
    let jump : Entry .compact := ⟨[.literal 16 1], [.text "jump"], ⟨0xFFFF, 1⟩⟩
    let t : Table .compact := ⟨[halt, move, jump], []⟩
    let t' : Table .compact := ⟨[jump, halt, move], []⟩
    halt.Overlaps move ∧ ¬ halt.Overlaps jump ∧ ¬ move.Overlaps jump ∧
      t.findIdx? 0 = some 0 ∧ t'.findIdx? 0 = some 1 ∧
      ∀ w, ∃ text, t.decode w = .ok text ∧ t'.decode w = .ok text := by
  intro halt move jump t t'
  have hmade : ∀ e ∈ t.entries, e.Made := by
    intro e he
    rcases List.mem_cons.mp he with rfl | he
    · exact ⟨halt.layout, halt.template, by decide⟩
    · rcases List.mem_cons.mp he with rfl | he
      · exact ⟨move.layout, move.template, by decide⟩
      · obtain rfl := List.mem_singleton.mp he
        exact ⟨jump.layout, jump.template, by decide⟩
  let r : Reordering t t' :=
    { place := finRotate 3
      get_place := by decide
      place_lt := by decide }
  obtain ⟨hsame, -⟩ := reordering_changes_nothing r hmade rfl
  have hfirst : t.findIdx? 0 = some 0 := by decide
  refine ⟨by decide, by decide, by decide, hfirst, ?_, fun w => (hsame w).1⟩
  exact (hsame 0).2.2 ⟨0, by decide⟩ hfirst

end Table

end Disassembly
