import Disassembly.Proofs.Layout.Reading
import Disassembly.Proofs.Layout.Recognition

/-!
# Scattering field values over a word

`Layout.scatter` is the encoding that belongs to a layout: the word with every literal at its place
and every bit of a field value at the place that the layout takes it from. For a layout of which an
entry is made, reading and scattering are inverse to each other (`Layout.fields_scatter`,
`Layout.scatter_fields`):

* values that have no bits outside of the listed destinations are read back, also where a name is
  spread over several segments or lists a destination twice;
* a word that matches is put together again from its fields, provided that no name lists a
  destination twice, since else two bits of the word meet in one bit of the value.
-/

namespace Disassembly

namespace BitRole

/-- The value of a bit with a given role, the fields having the values `v`. -/
def valueIn (v : Text → BitVec 32) : BitRole → Bool
  | fixed b => b
  | part name dest => (v name).getLsbD dest.toNat

/-- The destination of a bit in the named field. -/
def dest? (name : Text) : BitRole → Option UInt64
  | fixed _ => none
  | part n dest => if n = name then some dest else none

theorem dest?_eq_some_iff (r : BitRole) {name : Text} {d : UInt64} :
    r.dest? name = some d ↔ r = part name d := by
  cases r with
  | fixed b => simp [dest?]
  | part n dest =>
    simp only [dest?, part.injEq]
    split <;> simp_all

end BitRole

namespace Layout

variable {k : Width}

/-- The word with the literals of a layout at their places and the bits of field values where the
layout takes them from. -/
def scatter (l : Layout k) (v : Text → BitVec 32) : Word k :=
  (BitVec.ofBoolListLE (l.roles.map (BitRole.valueIn v))).setWidth k.bits

/-- A word has the literals of a layout at their places, and at the place of every destination of a
field the bit of the field's value that the destination names. -/
def IsScattered (l : Layout k) (v : Text → BitVec 32) (w : Word k) : Prop :=
  l.Agrees w ∧
    ∀ (before : Layout k) (name : Text) (dest : List UInt64) (after : Layout k),
      l = before ++ .field name dest :: after → ∀ j d, dest[j]? = some d →
        w.getLsbD (k.bits - 1 - (before.extent + j)) = (v name).getLsbD d.toNat

/-- The destinations that a layout lists for a name, over all segments of that name. -/
def destinations (l : Layout k) (name : Text) : List UInt64 :=
  l.flatMap fun
    | .literal _ _ => []
    | .field n dest => if n = name then dest else []

/-! ## Destinations and roles -/

theorem filterMap_dest?_roles (s : Segment k) (name : Text) :
    s.roles.filterMap (BitRole.dest? name) = (destinations [s] name).reverse := by
  cases s with
  | literal len value => simp [Segment.roles, destinations, BitRole.dest?]
  | field n dest =>
    rw [Segment.roles, List.filterMap_map]
    by_cases hn : n = name
    · simp [destinations, hn, BitRole.dest?]
    · simp [destinations, hn, BitRole.dest?]

/-- The destinations of a name are found among the roles, the last one first. -/
theorem filterMap_dest?_eq (l : Layout k) (name : Text) :
    l.roles.filterMap (BitRole.dest? name) = (l.destinations name).reverse := by
  induction l with
  | nil => rfl
  | cons s l ih =>
    have hsplit : destinations (s :: l) name = destinations [s] name ++ destinations l name := by
      simp [destinations]
    rw [roles_cons, List.filterMap_append, ih, filterMap_dest?_roles, hsplit, List.reverse_append]

theorem mem_destinations_iff (l : Layout k) (name : Text) (d : UInt64) :
    d ∈ l.destinations name ↔ ∃ i : Nat, l.roles[i]? = some (.part name d) := by
  rw [← List.mem_reverse, ← filterMap_dest?_eq, List.mem_filterMap]
  refine ⟨?_, ?_⟩
  · rintro ⟨r, hr, hd⟩
    obtain ⟨i, hi⟩ := List.mem_iff_getElem?.mp hr
    exact ⟨i, by rw [hi, (r.dest?_eq_some_iff).mp hd]⟩
  · rintro ⟨i, hi⟩
    exact ⟨_, List.mem_of_getElem? hi, (BitRole.dest?_eq_some_iff _).mpr rfl⟩

/-- A destination that is listed once is fed by one bit only. -/
theorem eq_of_nodup_destinations {l : Layout k} {name : Text} (h : (l.destinations name).Nodup)
    {i j : Nat} {d : UInt64} (hi : l.roles[i]? = some (.part name d))
    (hj : l.roles[j]? = some (.part name d)) : i = j := by
  have hd : BitRole.dest? name (.part name d) = some d := (BitRole.dest?_eq_some_iff _).mpr rfl
  have hpair : l.roles.Pairwise fun r r' =>
      ∀ b, r.dest? name = some b → ∀ b', r'.dest? name = some b' → b ≠ b' := by
    rw [← List.pairwise_filterMap, filterMap_dest?_eq]
    exact List.nodup_reverse.mpr h
  rw [List.pairwise_iff_getElem] at hpair
  obtain ⟨hilt, hri⟩ := List.getElem?_eq_some_iff.mp hi
  obtain ⟨hjlt, hrj⟩ := List.getElem?_eq_some_iff.mp hj
  rcases Nat.lt_trichotomy i j with hlt | rfl | hgt
  · exact absurd rfl (hpair i j hilt hjlt hlt d (by rw [hri, hd]) d (by rw [hrj, hd]))
  · rfl
  · exact absurd rfl (hpair j i hjlt hilt hgt d (by rw [hrj, hd]) d (by rw [hri, hd]))

/-! ## Bits of a scattered word -/

theorem getLsbD_scatter {l : Layout k} (hl : l.extent = k.bits) (v : Text → BitVec 32) {i : Nat}
    {r : BitRole} (hr : l.roles[i]? = some r) : (l.scatter v).getLsbD i = r.valueIn v := by
  have hi := (List.getElem?_eq_some_iff.mp hr).1
  rw [length_roles, hl] at hi
  rw [scatter, BitVec.getLsbD_setWidth, BitVec.getLsbD_ofBoolListLE, List.getD_eq_getElem?_getD,
    List.getElem?_map, hr]
  simp [hi]

theorem exists_role {l : Layout k} (hl : l.extent = k.bits) {i : Nat} (hi : i < k.bits) :
    ∃ r, l.roles[i]? = some r :=
  ⟨_, List.getElem?_eq_getElem (by simpa [hl] using hi)⟩

/-- The scattered word has everything where the layout puts it. -/
theorem isScattered_scatter {l : Layout k} (hl : l.extent = k.bits)
    (hw : ∀ s ∈ l, s.WellFormed) (v : Text → BitVec 32) : l.IsScattered v (l.scatter v) := by
  refine ⟨(agrees_iff hl hw _).mpr fun i b hb => getLsbD_scatter hl v hb, ?_⟩
  intro before name dest after hsplit j d hd
  have hj := (List.getElem?_eq_some_iff.mp hd).1
  have hsum := hl
  rw [hsplit, extent_append, extent_cons, Segment.extent] at hsum
  -- counted from bit zero the bit stands above the segments after it and the later destinations
  refine getLsbD_scatter (r := .part name d) hl v ?_
  rw [getElem?_roles_eq_some_iff]
  refine ⟨before, _, after, hsplit, dest.length - 1 - j, by omega, ?_⟩
  rw [Segment.getElem?_roles_eq_part_iff]
  refine ⟨dest, rfl, ?_⟩
  rw [List.getElem?_reverse (by omega), ← hd]
  congr 1
  omega

/-! ## Reading and scattering -/

/-- Values with bits at listed destinations only. -/
def Fits (l : Layout k) (v : Text → BitVec 32) : Prop :=
  ∀ name, l.HasField name → ∀ b, (v name).getLsbD b = true →
    ∃ d ∈ l.destinations name, d.toNat = b

/-- What is fed to a field by a scattered word are the bits of its value. -/
theorem feeds_scatter_iff {l : Layout k} (hl : l.extent = k.bits) {v : Text → BitVec 32}
    (hv : l.Fits v) {name : Text} (hname : l.HasField name) (b : Nat) :
    l.Feeds (l.scatter v) 0 name b ↔ (v name).getLsbD b = true := by
  refine ⟨?_, ?_⟩
  · rintro ⟨i, d, hi, rfl, hbit⟩
    rwa [Nat.zero_add, getLsbD_scatter hl v hi] at hbit
  · intro hbit
    obtain ⟨d, hd, rfl⟩ := hv name hname b hbit
    obtain ⟨i, hi⟩ := (l.mem_destinations_iff name d).mp hd
    refine ⟨i, d, hi, rfl, ?_⟩
    rwa [Nat.zero_add, getLsbD_scatter hl v hi]

/-- Reading gives back the values that were scattered. -/
theorem fields_scatter {l : Layout k} (hl : l.extent = k.bits) {v : Text → BitVec 32}
    (hv : l.Fits v) :
    ∃ fs, l.fields (l.scatter v) = .ok fs ∧
      ∀ name, fs.get? name = if l.HasField name then some (v name) else none := by
  obtain ⟨fs, hfs, hnames, hbits⟩ := fields_eq_ok (Nat.le_of_eq hl) (l.scatter v)
  rw [hl, Nat.sub_self] at hbits
  refine ⟨fs, hfs, fun name => ?_⟩
  rcases hget : fs.get? name with _ | u
  · rw [if_neg fun hname => by simpa [hget] using (hnames name).mpr hname]
  · have hname := (hnames name).mp (by rw [hget]; rfl)
    rw [if_pos hname, Option.some.injEq]
    refine BitVec.eq_of_getLsbD_eq fun b hb => ?_
    have hbit := hbits name b hb
    rw [hget, Option.getD_some, feeds_scatter_iff hl hv hname] at hbit
    exact Bool.eq_iff_iff.mpr hbit

/-- Scattering puts a word together again from its fields. -/
theorem scatter_fields {l : Layout k} (hl : l.extent = k.bits) (hw : ∀ s ∈ l, s.WellFormed)
    (hnodup : ∀ name, (l.destinations name).Nodup) {w : Word k}
    (hfixed : ∀ i b, l.roles[i]? = some (.fixed b) → w.getLsbD i = b) :
    ∃ fs, l.fields w = .ok fs ∧ l.scatter (fun name => (fs.get? name).getD 0) = w := by
  obtain ⟨fs, hfs, -, hbits⟩ := fields_eq_ok (Nat.le_of_eq hl) w
  rw [hl, Nat.sub_self] at hbits
  refine ⟨fs, hfs, BitVec.eq_of_getLsbD_eq fun i hi => ?_⟩
  obtain ⟨r, hr⟩ := exists_role hl hi
  rw [getLsbD_scatter hl _ hr]
  cases r with
  | fixed b => exact (hfixed i b hr).symm
  | part name d =>
    -- the bit was read into its destination, and nothing else was
    rw [BitRole.valueIn, Bool.eq_iff_iff, hbits name d.toNat (toNat_lt_of_part hw hr)]
    refine ⟨?_, ?_⟩
    · rintro ⟨j, d', hj, hd', hbit⟩
      obtain rfl : d' = d := UInt64.toNat_inj.mp hd'
      obtain rfl := eq_of_nodup_destinations (hnodup name) hj hr
      rwa [Nat.zero_add] at hbit
    · intro hbit
      exact ⟨i, d, hr, rfl, by rwa [Nat.zero_add]⟩

/-- **Reading is the inverse of scattering.** A valid layout makes an entry, as long as its bits can
be counted in 64 bits. For an entry made of it: the scattered word has every literal and every bit
of a field at its place; if the values have bits at listed destinations only, the word matches and
they are read back; and if no name lists a destination twice, every word that matches is the one
that is scattered from its fields. -/
theorem fields_scatter_inverse (l : Layout k) (hv : l.validate = .ok ()) :
    (l.extent < 2 ^ 64 → ∀ t, ∃ e, Entry.make l t = .ok e) ∧
    ∀ t e, Entry.make l t = .ok e →
      (∀ v, l.IsScattered v (l.scatter v)) ∧
      (∀ v, l.Fits v → e.Matches (l.scatter v) ∧
        ∃ fs, l.fields (l.scatter v) = .ok fs ∧
          ∀ name, fs.get? name = if l.HasField name then some (v name) else none) ∧
      ((∀ name, (l.destinations name).Nodup) → ∀ w, e.Matches w →
        ∃ fs, l.fields w = .ok fs ∧ l.scatter (fun name => (fs.get? name).getD 0) = w) := by
  refine ⟨fun hl t => Entry.exists_make_eq_ok hv hl t, fun t e he => ?_⟩
  have hmade : e.Made := ⟨l, t, he⟩
  obtain ⟨hw, hl, rfl⟩ := (Entry.make_eq_ok_iff l t e).mp he
  refine ⟨isScattered_scatter hl hw, fun v hfit => ⟨?_, fields_scatter hl hfit⟩,
    fun hnodup w hmatch => ?_⟩
  · exact (hmade.matches_iff _).mpr (isScattered_scatter hl hw v).1
  · exact scatter_fields hl hw hnodup ((hmade.matches_iff_fixed w).mp hmatch)

/-- A layout with an immediate in two pieces, the bits of which are out of order. -/
theorem fields_scatter_inverse_store :
    let l : Layout .compact :=
      [.literal 3 6, .field "uimm" [5, 4, 3], .field "crs1" [2, 1, 0], .field "uimm" [2, 6],
        .field "crs2" [2, 1, 0], .literal 2 0]
    l.validate = .ok () ∧ ∃ e, Entry.make l [] = .ok e ∧ ∀ w, e.Matches w →
      ∃ fs, l.fields w = .ok fs ∧ l.scatter (fun name => (fs.get? name).getD 0) = w := by
  intro l
  have hv : l.validate = .ok () := by decide
  obtain ⟨hmake, hinverse⟩ := fields_scatter_inverse l hv
  obtain ⟨e, he⟩ := hmake (by decide) []
  obtain ⟨-, -, hback⟩ := hinverse [] e he
  refine ⟨hv, e, he, hback fun name => ?_⟩
  by_cases huimm : "uimm" = name
  · subst huimm
    decide
  · by_cases hcrs1 : "crs1" = name
    · subst hcrs1
      decide
    · by_cases hcrs2 : "crs2" = name
      · subst hcrs2
        decide
      · simp [l, destinations, huimm, hcrs1, hcrs2]

end Layout

end Disassembly
