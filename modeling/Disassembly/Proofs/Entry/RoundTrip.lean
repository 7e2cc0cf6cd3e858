import Disassembly.Entry.Source
import Disassembly.Proofs.Layout.Coverage
import Disassembly.Proofs.Text.Numeral
import Disassembly.Proofs.Text.Pieces
import Disassembly.Proofs.Text.Trim

/-!
# Descriptions are read back

A description can be written in many ways, because spaces around groups, names and indices do not
matter. `Entry.Written` relates a template text and a layout to all of them, group by group:

* `BitList.Written`: the indices in decimal between bars;
* `Segment.Written`: a literal as its digits, filled up with zeros to its length, and a field as its
  name with a bit list in brackets;
* `Entry.Written`: the text in quotes, then the groups, each after a comma.

Reading undoes writing level by level. At each level the bytes that hold the parts together, which
are bars, brackets, commas and quotes, occur in none of the parts, so that the text is cut where it
was joined; and each part is framed by visible bytes, so that trimming takes off the spaces and
nothing else.
-/

namespace Disassembly

open Text

/-! ## The bytes of names and numerals -/

theorem isSolid_of_isNameByte {b : UInt8} (hb : isNameByte b = true) : isSolid b = true := by
  simp only [isNameByte, isLetter, isDigit, Bool.or_eq_true, Bool.and_eq_true, decide_eq_true_eq,
    beq_iff_eq, UInt8.le_iff_toNat_le, ← UInt8.toNat_inj, UInt8.reduceToNat] at hb
  simp only [isSolid, Bool.and_eq_true, decide_eq_true_eq, UInt8.le_iff_toNat_le,
    UInt8.lt_iff_toNat_lt, UInt8.reduceToNat]
  omega

theorem framed_of_isName {name : Text} (hname : isName name = true) : name.Framed := by
  refine framed_of_forall ?_ fun b hb => isSolid_of_isNameByte (isNameByte_of_isName hname b hb)
  rintro rfl
  contradiction

/-- A byte outside of names does not occur in one. -/
theorem not_mem_of_isName {name : Text} (hname : isName name = true) {b : UInt8}
    (hb : isNameByte b = false) : b ∉ name := by
  intro hmem
  have := isNameByte_of_isName hname b hmem
  rw [hb] at this
  contradiction

theorem isDigit_digitByte {d : Nat} (hd : d < 10) : isDigit (digitByte d) = true := by
  revert d
  decide

theorem isDigit_of_isNumeral {n : Nat} {t : Text} (h : IsNumeral 10 n t) :
    ∀ b ∈ t, isDigit b = true := by
  obtain ⟨ds, -, hds, rfl, -⟩ := h
  intro b hb
  obtain ⟨d, hd, rfl⟩ := List.mem_map.mp hb
  exact isDigit_digitByte (hds d hd)

theorem framed_of_isNumeral {n : Nat} {t : Text} (h : IsNumeral 10 n t) : t.Framed := by
  refine framed_of_forall ?_ fun b hb =>
    isSolid_of_isNameByte (isNameByte_of_isDigit (isDigit_of_isNumeral h b hb))
  obtain ⟨ds, hne, -, rfl, -⟩ := h
  simpa using hne

theorem isNumeral_decimal (n : Nat) : IsNumeral 10 n (decimal n) := isNumeral_digits (by decide) n

theorem framed_decimal (n : Nat) : (decimal n).Framed := framed_of_isNumeral (isNumeral_decimal n)

theorem not_mem_decimal (n : Nat) {b : UInt8} (hb : isDigit b = false) : b ∉ decimal n := by
  intro hmem
  have := isDigit_of_isNumeral (isNumeral_decimal n) b hmem
  rw [hb] at this
  contradiction

/-! ## Texts between separators -/

theorem exists_mem_of_forall₂ {α β : Type} {R : α → β → Prop} {xs : List α} {us : List β}
    (h : List.Forall₂ R xs us) : ∀ u ∈ us, ∃ x ∈ xs, R x u := by
  induction h with
  | nil => simp
  | cons hx _ ih =>
    rw [List.forall_mem_cons]
    refine ⟨⟨_, List.mem_cons_self, hx⟩, fun u hu => ?_⟩
    obtain ⟨x, hmem, hxu⟩ := ih u hu
    exact ⟨x, List.mem_cons_of_mem _ hmem, hxu⟩

theorem mapM_of_forall₂ {α β γ ε : Type} {R : α → γ → Prop} {f : γ → Except ε β} {g : α → β}
    {xs : List α} {us : List γ} (h : List.Forall₂ R xs us)
    (hread : ∀ x ∈ xs, ∀ u, R x u → f u = .ok (g x)) : us.mapM f = .ok (xs.map g) := by
  induction h with
  | nil => rfl
  | cons hx _ ih =>
    rw [List.mapM_cons, hread _ List.mem_cons_self _ hx,
      ih fun x hmem => hread x (List.mem_cons_of_mem _ hmem)]
    rfl

section Separated

variable {α β ε : Type} {R : α → Text → Prop} {f : Text → Except ε β} {g : α → β} {sep : UInt8}
  {xs : List α} {us : List Text}

/-- A list that was written member by member, with a separator that no member has, is read back
if its members are. -/
theorem mapM_pieces_joinWith (h : List.Forall₂ R xs us) (hne : xs ≠ [])
    (hsep : ∀ x ∈ xs, ∀ u, R x u → sep ∉ u) (hread : ∀ x ∈ xs, ∀ u, R x u → f u = .ok (g x)) :
    (pieces sep (joinWith [sep] us)).mapM f = .ok (xs.map g) := by
  have hus : us ≠ [] := by
    rintro rfl
    exact hne (List.forall₂_nil_right_iff.mp h)
  rw [pieces_joinWith hus, mapM_of_forall₂ h hread]
  intro u hu
  obtain ⟨x, hmem, hx⟩ := exists_mem_of_forall₂ h u hu
  exact hsep x hmem u hx

/-- Joining drops nothing. -/
theorem sum_length_le_joinWith (sep : Text) (ts : List Text) :
    (ts.map List.length).sum ≤ (joinWith sep ts).length := by
  induction ts with
  | nil => exact Nat.zero_le _
  | cons t ts ih =>
    cases ts with
    | nil => simp [joinWith]
    | cons v ts =>
      rw [joinWith] at ih ⊢
      rw [List.intercalate_cons_cons, List.map_cons, List.sum_cons, List.length_append,
        List.length_append]
      omega

/-- A joined list is at least as long as its members need, where a byte can do for `c` of what
they need. -/
theorem sum_le_mul_length_joinWith {size : α → Nat} {c : Nat} (h : List.Forall₂ R xs us)
    (hsize : ∀ x ∈ xs, ∀ u, R x u → size x ≤ c * u.length) :
    (xs.map size).sum ≤ c * (joinWith [sep] us).length := by
  refine Nat.le_trans ?_ (Nat.mul_le_mul_left c (sum_length_le_joinWith [sep] us))
  induction h with
  | nil => exact Nat.zero_le _
  | cons hx _ ih =>
    have hhead := hsize _ List.mem_cons_self _ hx
    have htail := ih fun x hmem => hsize x (List.mem_cons_of_mem _ hmem)
    rw [List.map_cons, List.sum_cons, List.map_cons, List.sum_cons, Nat.mul_add]
    omega

theorem sum_le_length_joinWith {size : α → Nat} (h : List.Forall₂ R xs us)
    (hsize : ∀ x ∈ xs, ∀ u, R x u → size x ≤ u.length) :
    (xs.map size).sum ≤ (joinWith [sep] us).length := by
  have hle : (xs.map size).sum ≤ 1 * (joinWith [sep] us).length :=
    sum_le_mul_length_joinWith h (by simpa using hsize)
  rwa [Nat.one_mul] at hle

end Separated

/-! ## Bit lists -/

namespace BitList

/-- The indices in decimal, with spaces around them and bars between them. -/
def Written (dest : List UInt64) (u : Text) : Prop :=
  ∃ items, List.Forall₂ (fun d item => Spaced (decimal d.toNat) item) dest items ∧
    u = joinWith "|" items

theorem written_iff (dest : List UInt64) (u : Text) :
    Written dest u ↔
      ∃ items, List.Forall₂ (fun d item => Spaced (decimal d.toNat) item) dest items ∧
        u = joinWith [0x7C] items :=
  Iff.rfl

theorem written_plain (dest : List UInt64) :
    Written dest (joinWith "|" (dest.map fun d => decimal d.toNat)) := by
  refine ⟨_, ?_, rfl⟩
  rw [List.forall₂_map_right_iff, List.forall₂_same]
  exact fun d _ => Spaced.refl _

/-- An item with a single index is read back. -/
theorem readItem_of_spaced {d : UInt64} (hd : d.toNat ≤ 31) (list : Text) {item : Text}
    (h : Spaced (decimal d.toNat) item) : readItem list item = .ok [d] := by
  -- without a colon the item is both ends of its range
  have hcut : cut? 0x3A item = none :=
    cut?_of_not_mem (h.not_mem (by decide) (not_mem_decimal _ (by decide)))
  have hindex : readIndex list item = .ok d.toNat := by
    rw [readIndex, h.trim_eq (framed_decimal _),
      readNumeral_decimal (show d.toNat ≤ lastBitIndex by rw [lastBitIndex]; omega)]
    rfl
  simp [readItem, hcut, hindex, countdown_self, bind, Except.bind, pure, Except.pure]

/-- There is nothing but digits, spaces and bars in a bit list. -/
theorem Written.not_mem {dest : List UInt64} {u : Text} (h : Written dest u) {b : UInt8}
    (hdigit : isDigit b = false) (hspace : b ≠ 0x20) (hbar : b ≠ 0x7C) : b ∉ u := by
  obtain ⟨items, hitems, rfl⟩ := (written_iff _ _).mp h
  refine not_mem_joinWith (by simpa using hbar) fun item hitem => ?_
  obtain ⟨d, -, hd⟩ := exists_mem_of_forall₂ hitems item hitem
  exact hd.not_mem hspace (not_mem_decimal _ hdigit)

theorem Written.length_le {dest : List UInt64} {u : Text} (h : Written dest u) :
    dest.length ≤ u.length := by
  obtain ⟨items, hitems, rfl⟩ := (written_iff _ _).mp h
  have hsum := @sum_le_length_joinWith _ _ 0x7C _ _ (fun _ => 1) hitems fun d _ item hd => by
    refine Nat.le_trans ?_ hd.length_le
    rw [decimal, List.length_map]
    exact List.length_pos_iff.mpr (digits_ne_nil (by decide) _)
  simpa using hsum

/-- There is a digit in a bit list that is written. -/
theorem trim_ne_nil_of_written {dest : List UInt64} (hne : dest ≠ []) {u : Text}
    (h : Written dest u) : u.trim ≠ [] := by
  obtain ⟨items, hitems, rfl⟩ := (written_iff _ _).mp h
  cases hitems with
  | nil => contradiction
  | @cons d item dest items hd _ =>
    obtain ⟨m, n, rfl⟩ := hd
    obtain ⟨⟨b, v, hdigits, hb⟩, -⟩ := framed_decimal d.toNat
    obtain ⟨rest, hrest⟩ :=
      exists_joinWith_cons [0x7C] (spaces m ++ decimal d.toNat ++ spaces n) items
    rw [hrest, hdigits]
    simpa using trim_ne_nil (spaces m) hb (v ++ (spaces n ++ rest))

theorem parse_of_written {dest : List UInt64} (hne : dest ≠ []) (hdest : ∀ d ∈ dest, d.toNat ≤ 31)
    {u : Text} (h : Written dest u) : parse u = .ok dest := by
  have htrim := trim_ne_nil_of_written hne h
  obtain ⟨items, hitems, rfl⟩ := (written_iff _ _).mp h
  have hread := @mapM_pieces_joinWith _ _ _ _ (readItem (joinWith [0x7C] items)) (fun d => [d]) 0x7C
    _ _ hitems hne
    (fun d _ u hd => hd.not_mem (by decide) (not_mem_decimal _ (by decide)))
    (fun d hmem u hd => readItem_of_spaced (hdest d hmem) _ hd)
  have hflat : (dest.map fun d => [d]).flatten = dest := by
    rw [← List.flatMap_def, List.flatMap_singleton']
  rw [parse, if_neg (by simpa using htrim), hread]
  exact congrArg Except.ok hflat

end BitList

/-! ## Groups -/

namespace Segment

variable {k : Width}

/-- A literal as its digits, as many as it has bits, or a field as its name with a bit list in
brackets. Spaces around the group and around the name are allowed. -/
def Written : Segment k → Text → Prop
  | literal len value, u => Spaced (zeroPad len.toNat (binary value.toNat)) u
  | field name dest, u =>
    ∃ title list n, Spaced name title ∧ BitList.Written dest list ∧
      u = title ++ "[" ++ list ++ "]" ++ spaces n

theorem written_field_iff (name : Text) (dest : List UInt64) (u : Text) :
    (field name dest : Segment k).Written u ↔
      ∃ title list n, Spaced name title ∧ BitList.Written dest list ∧
        u = title ++ 0x5B :: (list ++ 0x5D :: spaces n) := by
  rw [Written, show Text.ofString "[" = [0x5B] from rfl, show Text.ofString "]" = [0x5D] from rfl]
  simp

/-- The plain form of a group, without spaces. -/
def plain : Segment k → Text
  | literal len value => zeroPad len.toNat (binary value.toNat)
  | field name dest => name ++ "[" ++ joinWith "|" (dest.map fun d => decimal d.toNat) ++ "]"

theorem written_plain (s : Segment k) (n : Nat) : s.Written (spaces n ++ s.plain) := by
  cases s with
  | literal len value => exact ⟨n, 0, by simp [plain, spaces]⟩
  | field name dest =>
    refine ⟨spaces n ++ name, _, 0, ⟨n, 0, by simp [spaces]⟩, BitList.written_plain dest, ?_⟩
    simp [plain, spaces]

theorem isBinaryDigit_zeroPad (width n : Nat) :
    ∀ b ∈ zeroPad width (binary n), isBinaryDigit b = true := by
  have hall : ∀ d < 2, isBinaryDigit (digitByte d) = true := by decide
  intro b hb
  obtain ⟨d, hd, rfl⟩ := exists_digit_of_mem_zeroPad (by decide) hb
  exact hall d hd

theorem length_zeroPad_binary {width n : Nat} (hwidth : 1 ≤ width) (hn : n < 2 ^ width) :
    (zeroPad width (binary n)).length = width :=
  length_zeroPad_digits (by decide) hwidth hn

theorem framed_zeroPad_binary {width n : Nat} (hwidth : 1 ≤ width) (hn : n < 2 ^ width) :
    (zeroPad width (binary n)).Framed := by
  refine framed_of_forall ?_ fun b hb => ?_
  · rw [← List.length_pos_iff, length_zeroPad_binary hwidth hn]
    exact hwidth
  · have := isBinaryDigit_zeroPad width n b hb
    simp only [isBinaryDigit, Bool.or_eq_true, beq_iff_eq] at this
    rcases this with rfl | rfl <;> decide

theorem parse_digits {len : UInt64} {value : Word k} (h : (literal len value).WellFormed) :
    parse (zeroPad len.toNat (binary value.toNat)) = .ok (literal len value) := by
  obtain ⟨hlen, hbits, hvalue⟩ := h
  have hlength := length_zeroPad_binary hlen hvalue
  have hempty : (zeroPad len.toNat (binary value.toNat)).isEmpty = false := by
    rw [List.isEmpty_eq_false_iff, ← List.length_pos_iff]
    omega
  have hword : Word.ofBinary (zeroPad len.toNat (binary value.toNat)) = .ok value := by
    have hlimit : value.toNat ≤ (BitVec.allOnes k.bits).toNat := by
      have := value.isLt
      rw [BitVec.toNat_allOnes]
      omega
    rw [Word.ofBinary, binary, readNumeral_zeroPad (by decide) (by decide) _ hlimit]
    simp [Except.map]
  have hsame : length64 (zeroPad len.toNat (binary value.toNat)) = len := by
    have := k.bits_le
    rw [← UInt64.toNat_inj, toNat_length64, hlength]
    omega
  rw [parse, hempty, List.all_eq_true.mpr (isBinaryDigit_zeroPad _ _), hword, hsame]
  rfl

theorem isBinaryDigit_of_isLetter {b : UInt8} (hb : isLetter b = true) :
    isBinaryDigit b = false := by
  rw [Bool.eq_false_iff]
  intro hdigit
  simp only [isBinaryDigit, Bool.or_eq_true, beq_iff_eq] at hdigit
  rcases hdigit with rfl | rfl <;> contradiction

theorem bitListOf?_append (list : Text) : bitListOf? (list ++ [0x5D]) = some list := by
  simp [bitListOf?]

theorem parse_brackets {name : Text} (hname : isName name = true) {dest : List UInt64}
    (hne : dest ≠ []) (hdest : ∀ d ∈ dest, d.toNat ≤ 31) (n : Nat) {list : Text}
    (hlist : BitList.Written dest list) :
    (parse (name ++ spaces n ++ 0x5B :: (list ++ [0x5D])) : Except GroupFault (Segment k)) =
      .ok (field name dest) := by
  -- the first letter of the name tells the group from a literal
  have hbinary : (name ++ spaces n ++ 0x5B :: (list ++ [0x5D])).all isBinaryDigit = false := by
    cases name with
    | nil => contradiction
    | cons b t =>
      obtain ⟨hb, -⟩ := Bool.and_eq_true_iff.mp hname
      simp [isBinaryDigit_of_isLetter hb]
  have hcut : cut? 0x5B (name ++ spaces n ++ 0x5B :: (list ++ [0x5D])) =
      some (name ++ spaces n, list ++ [0x5D]) := by
    refine cut?_append ?_ _
    have := not_mem_of_isName hname (show isNameByte 0x5B = false by decide)
    simp [this, spaces]
  have htrim : (name ++ spaces n).trim = name := by
    rw [trim_append_spaces, trim_of_framed (framed_of_isName hname)]
  simp only [parse, hbinary, hcut, bitListOf?_append, htrim, hname,
    BitList.parse_of_written hne hdest hlist]
  simp

/-- A written segment has no comma. -/
theorem Written.not_mem {s : Segment k} (hs : s.WellFormed) {u : Text} (h : s.Written u) :
    0x2C ∉ u := by
  cases s with
  | literal len value =>
    refine Spaced.not_mem h (by decide) fun hmem => ?_
    have := isBinaryDigit_zeroPad _ _ _ hmem
    contradiction
  | field name dest =>
    obtain ⟨title, list, n, htitle, hlist, rfl⟩ := (written_field_iff _ _ _).mp h
    have hname := htitle.not_mem (by decide) (not_mem_of_isName hs.1 (b := 0x2C) (by decide))
    have hbits := hlist.not_mem (b := 0x2C) (by decide) (by decide) (by decide)
    simp [hname, hbits, spaces]

/-- Every bit of a segment is a byte of the group at least. -/
theorem Written.extent_le {s : Segment k} (hs : s.WellFormed) {u : Text} (h : s.Written u) :
    s.extent ≤ u.length := by
  cases s with
  | literal len value =>
    have := Spaced.length_le h
    rwa [length_zeroPad_binary hs.1 hs.2.2] at this
  | field name dest =>
    obtain ⟨title, list, n, -, hlist, rfl⟩ := h
    have := hlist.length_le
    simp only [extent, List.length_append]
    omega

/-- The spaces after a group can be told from the group. -/
theorem Written.exists_solidEnd {s : Segment k} (hs : s.WellFormed) {u : Text} (h : s.Written u) :
    ∃ v n, u = v ++ spaces n ∧ s.Written v ∧ v.SolidEnd := by
  cases s with
  | literal len value =>
    obtain ⟨m, n, rfl⟩ := h
    refine ⟨_, n, rfl, ⟨m, 0, by simp [spaces]⟩, ?_⟩
    exact (framed_zeroPad_binary hs.1 hs.2.2).2.append _
  | field name dest =>
    obtain ⟨title, list, n, htitle, hlist, rfl⟩ := h
    exact ⟨_, n, rfl, ⟨title, list, 0, htitle, hlist, by simp [spaces]⟩, _, 0x5D, rfl, by decide⟩

/-- **Groups are read back.** -/
theorem parse_of_written {s : Segment k} (hs : s.WellFormed) {u : Text} (h : s.Written u) :
    parse u.trim = .ok s := by
  cases s with
  | literal len value =>
    obtain ⟨hlen, hbits, hvalue⟩ := hs
    rw [h.trim_eq (framed_zeroPad_binary hlen hvalue), parse_digits ⟨hlen, hbits, hvalue⟩]
  | field name dest =>
    obtain ⟨title, list, n, ⟨m, m', rfl⟩, hlist, rfl⟩ := (written_field_iff _ _ _).mp h
    obtain ⟨hname, hne, hdest⟩ := hs
    have hframed : (name ++ spaces m' ++ 0x5B :: (list ++ [0x5D])).Framed := by
      refine ⟨?_, Text.SolidEnd.append _ ⟨0x5B :: list, 0x5D, rfl, by decide⟩⟩
      obtain ⟨⟨a, t, rfl, ha⟩, -⟩ := framed_of_isName hname
      exact ⟨a, _, rfl, ha⟩
    have hspaced : Spaced (name ++ spaces m' ++ 0x5B :: (list ++ [0x5D]))
        (spaces m ++ name ++ spaces m' ++ 0x5B :: (list ++ 0x5D :: spaces n)) :=
      ⟨m, n, by simp⟩
    rw [hspaced.trim_eq hframed, parse_brackets hname hne hdest m' hlist]

end Segment

namespace Layout

variable {k : Width}

/-- The spaces at the end of the groups can be told from the groups. -/
theorem exists_solidEnd {l : Layout k} (hl : ∀ s ∈ l, s.WellFormed) (hne : l ≠ [])
    {groups : List Text} (h : List.Forall₂ Segment.Written l groups) :
    ∃ groups' n, List.Forall₂ Segment.Written l groups' ∧
      joinWith [0x2C] groups = joinWith [0x2C] groups' ++ spaces n ∧
      (joinWith [0x2C] groups').SolidEnd := by
  induction h with
  | nil => contradiction
  | @cons s u l groups hs hrest ih =>
    obtain ⟨hwf, hl⟩ := List.forall_mem_cons.mp hl
    cases hrest with
    | nil =>
      obtain ⟨v, n, rfl, hv, hend⟩ := hs.exists_solidEnd hwf
      exact ⟨[v], n, .cons hv .nil, by simp [joinWith], by simpa [joinWith] using hend⟩
    | cons hs' hrest =>
      -- only the last group loses its spaces, and it is among the others
      obtain ⟨groups', n, hgroups, hjoin, hend⟩ := ih hl (List.cons_ne_nil _ _)
      obtain ⟨v, groups', rfl⟩ := List.exists_cons_of_ne_nil (l := groups') (by
        rintro rfl
        cases hgroups)
      refine ⟨u :: v :: groups', n, .cons hs hgroups, ?_, ?_⟩
      · rw [joinWith] at hjoin ⊢
        rw [List.intercalate_cons_cons, hjoin]
        simp [joinWith]
      · rw [joinWith, List.intercalate_cons_cons]
        exact hend.append _

/-- The groups of a layout are read back. -/
theorem parseGroups_of_written {l : Layout k} (hl : ∀ s ∈ l, s.WellFormed) (hne : l ≠ [])
    {groups : List Text} (h : List.Forall₂ Segment.Written l groups) :
    parseGroups (joinWith [0x2C] groups) = .ok l := by
  have hread := @mapM_pieces_joinWith _ _ _ _ (fun g => Segment.parse g.trim) id 0x2C _ _ h hne
    (fun s hmem u hs => hs.not_mem (hl s hmem))
    (fun s hmem u hs => Segment.parse_of_written (hl s hmem) hs)
  rwa [List.map_id] at hread

theorem extent_eq_sum (l : Layout k) : l.extent = (l.map Segment.extent).sum := by
  induction l with
  | nil => rfl
  | cons s l ih => rw [extent_cons, ih, List.map_cons, List.sum_cons]

theorem extent_le_length {l : Layout k} (hl : ∀ s ∈ l, s.WellFormed) {groups : List Text}
    (h : List.Forall₂ Segment.Written l groups) : l.extent ≤ (joinWith [0x2C] groups).length := by
  rw [extent_eq_sum]
  exact sum_le_length_joinWith h fun s hmem u hs => hs.extent_le (hl s hmem)

end Layout

/-! ## Descriptions -/

namespace Entry

variable {k : Width}

/-- The text in quotes and then, each after a comma, the groups of the layout. -/
def Written (text : Text) (l : Layout k) (source : Text) : Prop :=
  ∃ lead gap groups, List.Forall₂ Segment.Written l groups ∧
    source = spaces lead ++ "\"" ++ text ++ "\"" ++ spaces gap ++ "," ++ joinWith "," groups

theorem written_iff (text : Text) (l : Layout k) (source : Text) :
    Written text l source ↔ ∃ lead gap groups, List.Forall₂ Segment.Written l groups ∧
      source = spaces lead ++
        0x22 :: (text ++ 0x22 :: (spaces gap ++ 0x2C :: joinWith [0x2C] groups)) := by
  rw [Written, show Text.ofString "\"" = [0x22] from rfl, show Text.ofString "," = [0x2C] from rfl]
  simp

theorem splitSource_quoted {text : Text} (htext : 0x22 ∉ text) (rest : Text) :
    (splitSource (0x22 :: (text ++ 0x22 :: rest)) : Except (SourceFault k) (Text × Text)) =
      .ok (text, rest) := by
  have hstrip : strip? "\"" (0x22 :: (text ++ 0x22 :: rest)) = some (text ++ 0x22 :: rest) := rfl
  simp only [splitSource, hstrip, cut?_append htext]

theorem parseLayout_of_written {l : Layout k} (hl : ∀ s ∈ l, s.WellFormed) (hne : l ≠ [])
    {groups : List Text} (h : List.Forall₂ Segment.Written l groups)
    (hend : (joinWith [0x2C] groups).SolidEnd) (source text : Text) (gap : Nat) :
    parseLayout source text (spaces gap ++ 0x2C :: joinWith [0x2C] groups) = .ok l := by
  have hframed : Framed (0x2C :: joinWith [0x2C] groups) :=
    ⟨⟨_, _, rfl, by decide⟩, hend.append [0x2C]⟩
  rw [parseLayout, trim_spaces_append, trim_of_framed hframed]
  simp [Layout.parseGroups_of_written hl hne h, Except.mapError]

/-- What is written is read: the entry is made of exactly the layout and the text. -/
theorem parse_of_written {l : Layout k} (hl : ∀ s ∈ l, s.WellFormed) (hne : l ≠ []) {text : Text}
    (htext : 0x22 ∉ text) {source : Text} (h : Written text l source) :
    parse source = (make l (Template.parse text)).mapError (.entry text) := by
  obtain ⟨lead, gap, groups, hgroups, rfl⟩ := (written_iff _ _ _).mp h
  -- the spaces after the last group are not part of it once the source is trimmed
  obtain ⟨groups', n, hgroups', hjoin, hend⟩ := Layout.exists_solidEnd hl hne hgroups
  have htrim : (spaces lead ++
      0x22 :: (text ++ 0x22 :: (spaces gap ++ 0x2C :: joinWith [0x2C] groups))).trim =
        0x22 :: (text ++ 0x22 :: (spaces gap ++ 0x2C :: joinWith [0x2C] groups')) := by
    refine Spaced.trim_eq ⟨lead, n, ?_⟩ ⟨⟨0x22, _, rfl, by decide⟩, ?_⟩
    · rw [hjoin]
      simp
    · have := hend.append (0x22 :: (text ++ 0x22 :: (spaces gap ++ [0x2C])))
      simpa using this
  simp only [parse, htrim, splitSource_quoted htext, bind, Except.bind,
    parseLayout_of_written hl hne hgroups' hend]

/-- What a description is divided into. -/
theorem eq_of_splitSource {source text rest : Text}
    (h : (splitSource source : Except (SourceFault k) (Text × Text)) = .ok (text, rest)) :
    source = 0x22 :: (text ++ 0x22 :: rest) ∧ 0x22 ∉ text := by
  unfold splitSource at h
  split at h
  · contradiction
  · rename_i body hstrip
    split at h
    · contradiction
    · rename_i parts hcut
      obtain rfl := Except.ok.inj h
      obtain ⟨rfl, htext⟩ := eq_of_cut? hcut
      exact ⟨eq_of_strip? hstrip, htext⟩

theorem mapError_eq_ok_iff {α β γ : Type} (f : α → β) (x : Except α γ) (c : γ) :
    x.mapError f = .ok c ↔ x = .ok c := by
  cases x <;> simp [Except.mapError]

/-- An entry that was read is made of the layout after the quotes and of the text between them. -/
theorem exists_parts_of_parse {source : Text} {e : Entry k} (h : parse source = .ok e) :
    ∃ text rest, source.trim = 0x22 :: (text ++ 0x22 :: rest) ∧ 0x22 ∉ text ∧
      parseLayout source.trim text rest = .ok e.layout ∧
      make e.layout (Template.parse text) = .ok e := by
  simp only [parse, bind, Except.bind] at h
  split at h
  · contradiction
  · rename_i parts hsplit
    split at h
    · contradiction
    · rename_i l hlayout
      rw [mapError_eq_ok_iff] at h
      obtain ⟨hsource, htext⟩ := eq_of_splitSource hsplit
      obtain ⟨-, -, he⟩ := (make_eq_ok_iff _ _ _).mp h
      have hl : e.layout = l := by rw [he]
      rw [← hl] at hlayout h
      exact ⟨parts.1, parts.2, hsource, htext, hlayout, h⟩

/-- An entry that was read is made of its layout and of the text between the quotes. -/
theorem exists_quoted_of_parse {source : Text} {e : Entry k} (h : parse source = .ok e) :
    ∃ text rest, source.trim = 0x22 :: (text ++ 0x22 :: rest) ∧ 0x22 ∉ text ∧
      make e.layout (Template.parse text) = .ok e := by
  obtain ⟨text, rest, hsource, htext, -, hmake⟩ := exists_parts_of_parse h
  exact ⟨text, rest, hsource, htext, hmake⟩

/-- An entry that was read has a text without quotes, and is made of this text and its layout. -/
theorem exists_make_of_parse {source : Text} {e : Entry k} (h : parse source = .ok e) :
    ∃ text, 0x22 ∉ text ∧ make e.layout (Template.parse text) = .ok e := by
  obtain ⟨text, -, -, htext, hmake⟩ := exists_quoted_of_parse h
  exact ⟨text, htext, hmake⟩

/-- A description is longer than its layout. -/
theorem Written.extent_le {l : Layout k} (hl : ∀ s ∈ l, s.WellFormed) {text source : Text}
    (h : Written text l source) : l.extent ≤ source.length := by
  obtain ⟨lead, gap, groups, hgroups, rfl⟩ := (written_iff _ _ _).mp h
  have := Layout.extent_le_length hl hgroups
  simp only [List.length_append, List.length_cons]
  omega

/-- The plain form of a description, with one space after each comma. -/
def plain (text : Text) (l : Layout k) : Text :=
  "\"" ++ text ++ "\"" ++ "," ++ joinWith "," (l.map fun s => spaces 1 ++ s.plain)

theorem written_plain (text : Text) (l : Layout k) : Written text l (plain text l) := by
  refine ⟨0, 0, l.map fun s => spaces 1 ++ s.plain, ?_, by simp [plain, spaces]⟩
  rw [List.forall₂_map_right_iff, List.forall₂_same]
  exact fun s _ => s.written_plain 1

theorem ne_nil_of_validate {l : Layout k} (hv : l.validate = .ok ()) : l ≠ [] := by
  rintro rfl
  cases k <;> contradiction

/-- **Descriptions are read back.** However a text without quotes and a valid layout are written,
the description is read, to the entry that is made of them. So whatever entry was read, all the ways
to write it down, of which there is one at least, are read to that same entry. -/
theorem parse_written_inverse (k : Width) :
    (∀ (l : Layout k) (text source : Text), l.validate = .ok () → 0x22 ∉ text →
      Written text l source → source.length < 2 ^ 63 →
        ∃ e, parse source = .ok e ∧ e.layout = l ∧ e.template = Template.parse text ∧
          make l (Template.parse text) = .ok e) ∧
    (∀ (source : Text) (e : Entry k), parse source = .ok e →
      ∀ printed, Written e.template.text e.layout printed → parse printed = .ok e) ∧
    ∀ (text : Text) (l : Layout k), Written text l (plain text l) := by
  refine ⟨?_, ?_, written_plain⟩
  · intro l text source hv htext hw hsize
    obtain ⟨hl, -⟩ := l.validate_eq_ok_iff.mp hv
    -- a text that can be kept is too short for a layout whose bits cannot be counted
    have hcount : l.extent < 2 ^ 64 := by
      have := hw.extent_le hl
      omega
    obtain ⟨e, he⟩ := exists_make_eq_ok hv hcount (Template.parse text)
    obtain ⟨-, -, hparts⟩ := (make_eq_ok_iff _ _ _).mp he
    refine ⟨e, ?_, by rw [hparts], by rw [hparts], he⟩
    rw [parse_of_written hl (ne_nil_of_validate hv) htext hw, he]
    rfl
  · intro source e hparse printed hw
    obtain ⟨text, htext, hmake⟩ := exists_make_of_parse hparse
    obtain ⟨hl, hextent, hparts⟩ := (make_eq_ok_iff _ _ _).mp hmake
    have hne : e.layout ≠ [] := by
      intro hnil
      have := k.bits_pos
      rw [hnil, Layout.extent_nil] at hextent
      omega
    -- the text of the template is the text that it was made of
    rw [hparts, Template.text_parse, ← hparts] at hw
    rw [parse_of_written hl hne htext hw, hmake]
    rfl

end Entry

end Disassembly
