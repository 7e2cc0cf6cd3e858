import Disassembly.Proofs.Program.Splitting
import Mathlib.Data.Nat.Find

/-!
# Cutting an image short and going on with the rest

The words of an image do not depend on what stands before or after them. An image that starts with
the bytes of some words is cut into these words and the words of the rest, which go on at the
address after them (`Program.split_bytes_append`). Two things follow for an image and its words:

* `Program.split_drop`: the rest of an image after some of its words has the other words, and it
  ends as the image does;
* `Program.split_take`: the first `n` bytes of an image have as many of its words as there is room
  for (`Program.LongestWithin`), and end inside a word unless that room is used up.
-/

namespace Disassembly

open CodeWord

namespace Program

/-! ## Words in front of an image -/

/-- The words that were found before come first and change nothing else. -/
theorem splitAfter_eq (done : List CodeWord) (address : BitVec 32) (image : Text) :
    splitAfter done address image =
      ⟨done.reverse ++ (split address image).words, (split address image).rest⟩ := by
  -- the words found before vary in the induction, also those of the right side
  have hall : ∀ earlier : List CodeWord, ∀ done, splitAfter done address image =
      ⟨done.reverse ++ (splitAfter [] address image).words,
        (splitAfter [] address image).rest⟩ := by
    intro earlier
    fun_induction splitAfter earlier address image with
    | case1 _ address => exact fun done => by simp [splitAfter]
    | case2 _ address b₀ => exact fun done => by simp [splitAfter]
    | case3 _ address b₀ b₁ hb =>
      intro done
      rw [splitAfter.eq_def done, splitAfter.eq_def []]
      simp [hb]
    | case4 _ address b₀ b₁ hb b₂ =>
      intro done
      rw [splitAfter.eq_def done, splitAfter.eq_def []]
      simp [hb]
    | case5 _ address b₀ b₁ hb b₂ b₃ image ih =>
      intro done
      rw [splitAfter_longWord _ _ hb, splitAfter_longWord _ _ hb, ih (_ :: done), ih [_]]
      simp
    | case6 _ address b₀ b₁ image hb ih =>
      intro done
      have hb : isLong b₀ = false := by simpa using hb
      rw [splitAfter_shortWord _ _ hb, splitAfter_shortWord _ _ hb, ih (_ :: done), ih [_]]
      simp
  exact hall [] done

/-- Words that stand one after the other at the start of an image are found, and then those of the
rest of the image. -/
theorem split_bytes_append {start : BitVec 32} {ws : List CodeWord} (hsized : ∀ w ∈ ws, w.Sized)
    (hplaced : Placed start ws) (image : Text) :
    split start ((ws.map bytes).flatten ++ image) =
      ⟨ws ++ (split (start + BitVec.ofInt 32 (totalSize ws)) image).words,
        (split (start + BitVec.ofInt 32 (totalSize ws)) image).rest⟩ := by
  induction ws generalizing start with
  | nil => simp
  | cons w ws ih =>
    obtain ⟨hw, hws⟩ := List.forall_mem_cons.mp hsized
    obtain ⟨rfl, hrest⟩ := (placed_cons _ _ _).mp hplaced
    rw [List.map_cons, List.flatten_cons, List.append_assoc, split, splitAfter_bytes_append [] hw,
      splitAfter_eq, ih hws hrest, totalSize_cons, BitVec.ofInt_add, BitVec.add_assoc]
    rfl

/-! ## Images that end inside a word -/

/-- An image that is too short for the word that it starts with. -/
def Short (image : Text) : Prop := ∀ b t, image = b :: t → image.length < sizeOf b

theorem short_take {image : Text} {n : Nat}
    (h : ∀ b t, image = b :: t → image.length < sizeOf b ∨ n < sizeOf b) :
    Short (image.take n) := by
  intro b t htake
  cases image with
  | nil => simp at htake
  | cons b' t' =>
    cases n with
    | zero => simp at htake
    | succ n =>
      rw [List.take_succ_cons] at htake
      obtain ⟨rfl, -⟩ := List.cons.inj htake
      have hlength := List.length_take_le' (n + 1) (b' :: t')
      have hlength' := List.length_take_le (n + 1) (b' :: t')
      rcases h b' t' rfl with hshort | hshort
      · exact Nat.lt_of_le_of_lt hlength hshort
      · exact Nat.lt_of_le_of_lt hlength' hshort

/-- Such an image has no words, and there is a report unless it is empty. -/
theorem split_of_short {image : Text} (h : Short image) (start : BitVec 32) :
    (split start image).words = [] ∧
      ((∃ e, (split start image).rest = some e) ↔ image ≠ []) := by
  have hcut := cut_split start image
  obtain ⟨r, hr, hrest⟩ := hcut.exists_remainder
  rcases hwords : (split start image).words with _ | ⟨w, ws⟩
  · rw [hwords, List.flatMap_nil, List.nil_append] at hr
    subst hr
    refine ⟨rfl, ?_⟩
    rcases hrest with ⟨rfl, hnone⟩ | ⟨b, t, rfl, -, hsome⟩
    · simp [hnone]
    · simp [hsome]
  · -- the bytes of a word would be there, and these are as many as the first one tells
    obtain ⟨b, t, hbytes, hlength⟩ := exists_bytes_eq (hcut.sized w (hwords ▸ List.mem_cons_self))
    rw [hwords, List.flatMap_cons, List.append_assoc] at hr
    have hlt := h b _ (by rw [← hr, hbytes, List.cons_append])
    rw [← hr, List.length_append, hlength] at hlt
    omega

/-- What is too short for the next word, if there is one, is too short for the word that it starts
with. -/
theorem short_take_of_head {ws : List CodeWord} (hsized : ∀ w ∈ ws, w.Sized) {r : Text}
    (hr : Short r) {n : Nat} (hnext : ∀ w ∈ ws.head?, (n : Int) < w.size) :
    Short (((ws.map bytes).flatten ++ r).take n) := by
  apply short_take
  intro b t hbt
  cases ws with
  | nil => exact .inl (hr b t hbt)
  | cons w ws =>
    obtain ⟨b', t', hbytes, hlength⟩ := exists_bytes_eq (hsized w List.mem_cons_self)
    rw [List.map_cons, List.flatten_cons, hbytes] at hbt
    obtain ⟨rfl, -⟩ := List.cons.inj hbt
    have hlt := hnext w rfl
    rw [bytes, length_littleEndian] at hlength
    exact .inr (by omega)

/-! ## The parts of an image -/

section Parts

variable {start : BitVec 32} {image : Text} {before after : List CodeWord}
  (h : (split start image).words = before ++ after)
include h

/-- An image is the bytes of its first words, those of the other words and an end that is too short
for a word. -/
theorem exists_image_eq :
    ((∀ w ∈ before, w.Sized) ∧ Placed start before) ∧ (∀ w ∈ after, w.Sized) ∧
      ∃ r, Short r ∧ image = (before.map bytes).flatten ++ ((after.map bytes).flatten ++ r) := by
  have hcut := cut_split start image
  have hsized := hcut.sized
  have hplaced := hcut.placed
  obtain ⟨r, hr, hrest⟩ := hcut.exists_remainder
  rw [h] at hsized hplaced hr
  refine ⟨⟨fun w hw => hsized w (List.mem_append_left _ hw), fun k w hw => ?_⟩,
    fun w hw => hsized w (List.mem_append_right _ hw), r, ?_, ?_⟩
  · have hk : k < before.length := (List.getElem?_eq_some_iff.mp hw).1
    rw [hplaced k w (by rwa [List.getElem?_append_left hk]),
      List.take_append_of_le_length (by omega)]
  · rintro b t rfl
    rcases hrest with ⟨hnil, -⟩ | ⟨b', t', heq, hlt, -⟩
    · cases hnil
    · obtain ⟨rfl, rfl⟩ := List.cons.inj heq
      exact hlt
  · rw [← hr, List.flatMap_def, List.map_append, List.flatten_append, List.append_assoc]

/-- After some words of an image come the others, and the image ends in the same way. -/
theorem split_drop :
    split (start + BitVec.ofInt 32 (totalSize before)) (image.drop (totalSize before).toNat) =
      ⟨after, (split start image).rest⟩ := by
  obtain ⟨⟨hsized, hplaced⟩, -, r, -, himage⟩ := exists_image_eq h
  generalize (after.map bytes).flatten ++ r = back at himage
  have hwhole := split_bytes_append hsized hplaced back
  rw [← himage] at hwhole
  have hdrop : image.drop (totalSize before).toNat = back := by
    rw [← length_flatten_bytes hsized, Int.toNat_natCast, himage, List.drop_left]
  have hafter : (split (start + BitVec.ofInt 32 (totalSize before)) back).words = after := by
    rw [hwhole] at h
    exact List.append_cancel_left h
  rw [hdrop, hwhole, ← hafter]

/-- The first `n` bytes of an image have the words that fit in them, if the next one does not. There
is a report exactly if bytes are left over. -/
theorem split_take {n : Nat} (hn : n ≤ image.length) (hfits : totalSize before ≤ n)
    (hnext : ∀ w ∈ after.head?, n < totalSize before + w.size) :
    (split start (image.take n)).words = before ∧
      ((∃ e, (split start (image.take n)).rest = some e) ↔ totalSize before < n) := by
  obtain ⟨⟨hsized, hplaced⟩, hafter, r, hr, himage⟩ := exists_image_eq h
  have hlength := length_flatten_bytes hsized
  have hshort := short_take_of_head hafter hr (n := n - (before.map bytes).flatten.length)
    fun w hw => by have := hnext w hw; omega
  generalize (after.map bytes).flatten ++ r = back at himage hshort
  obtain ⟨hnone, hreport⟩ := split_of_short hshort (start + BitVec.ofInt 32 (totalSize before))
  have htake : image.take n = (before.map bytes).flatten ++
      back.take (n - (before.map bytes).flatten.length) := by
    rw [himage, List.take_append, List.take_of_length_le (by omega)]
  have hback : image.length = (before.map bytes).flatten.length + back.length := by
    rw [himage, List.length_append]
  rw [htake, split_bytes_append hsized hplaced, hnone, List.append_nil]
  refine ⟨rfl, hreport.trans ?_⟩
  rw [ne_eq, List.take_eq_nil_iff, ← List.length_eq_zero_iff]
  omega

end Parts

/-! ## As many words as there is room for -/

/-- The words `before` come first among `ws`, they fit in `n` bytes, and no more of them do. -/
structure LongestWithin (n : Nat) (ws before : List CodeWord) : Prop where
  /-- the words come first -/
  initial : before <+: ws
  /-- there is room for them -/
  fits : totalSize before ≤ n
  /-- whatever comes first and fits is no longer -/
  longest : ∀ front, front <+: ws → totalSize front ≤ n → front.length ≤ before.length

theorem exists_longestWithin (n : Nat) (ws : List CodeWord) :
    ∃ before, LongestWithin n ws before := by
  let P (k : Nat) : Prop := totalSize (ws.take k) ≤ n
  have hnone : P 0 := by simp [P]
  refine ⟨ws.take (Nat.findGreatest P ws.length), List.take_prefix _ _,
    Nat.findGreatest_spec (P := P) (Nat.zero_le _) hnone, fun front hfront hfits => ?_⟩
  have hle := hfront.length_le
  rw [List.prefix_iff_eq_take.mp hfront] at hfits
  have hgreatest := Nat.le_findGreatest (P := P) hle hfits
  rw [List.length_take]
  omega

/-- The next word does not fit. -/
theorem LongestWithin.lt_of_head {n : Nat} {before after : List CodeWord}
    (h : LongestWithin n (before ++ after) before) :
    ∀ w ∈ after.head?, n < totalSize before + w.size := by
  intro w hw
  obtain ⟨ws, rfl⟩ := List.head?_eq_some_iff.mp hw
  by_contra hle
  have hfront : before ++ [w] <+: before ++ w :: ws := ⟨ws, by simp⟩
  have hsize : totalSize (before ++ [w]) = totalSize before + w.size := by simp [totalSize]
  have hlonger := h.longest _ hfront (by omega)
  rw [List.length_append, List.length_singleton] at hlonger
  omega

end Program

end Disassembly
