import Disassembly.Program
import Mathlib.Algebra.Order.Ring.Int

/-!
# Cutting an image into words

Cutting an image and writing words one after the other, the low byte first, undo each other. What
one cut does is said by `Program.Cut`: the image is at its end, or a word comes off its front, or
it is too short for the word that it starts with. `Program.cut_split` says that `Program.split`
goes on in this way up to the end, and the rest follows by induction on the cuts:

* `Program.Cut.sized`, `Program.Cut.placed`: the words have the sizes that their low bits tell, and
  stand one after the other;
* `Program.Cut.exists_remainder`: with what is left over, their bytes are the image.

In the other direction a word is cut off its own bytes (`Program.splitAfter_bytes_append`), so words
of the right sizes that stand one after the other are found again.
-/

namespace Disassembly

/-! ## Words and their bytes -/

/-- The `n` low bytes of a word, the lowest first. -/
def littleEndian (n : Nat) (v : BitVec 32) : Text :=
  (List.range n).map fun i => ⟨v.extractLsb' (8 * i) 8⟩

@[simp]
theorem length_littleEndian (n : Nat) (v : BitVec 32) : (littleEndian n v).length = n := by
  simp [littleEndian]

namespace CodeWord

/-- The bytes of a word in an image. -/
def bytes (w : CodeWord) : Text := littleEndian w.size.toNat w.raw

/-- A word has the size that its two low bits tell, and no bits beyond it. -/
structure Sized (w : CodeWord) : Prop where
  /-- both bits set mean four bytes -/
  size_eq : w.size = if w.raw.extractLsb' 0 2 = 0b11 then 4 else 2
  /-- the word fits in its bytes -/
  raw_lt : w.raw.toNat < 2 ^ (8 * w.size.toNat)

instance (w : CodeWord) : Decidable w.Sized :=
  decidable_of_iff (_ ∧ _) ⟨fun h => ⟨h.1, h.2⟩, fun h => ⟨h.size_eq, h.raw_lt⟩⟩

theorem Sized.size_cases {w : CodeWord} (hw : w.Sized) : w.size = 4 ∨ w.size = 2 := by
  rw [hw.size_eq]
  split
  · exact .inl rfl
  · exact .inr rfl

end CodeWord

namespace Program

open CodeWord

theorem isLong_iff (b : UInt8) : isLong b = true ↔ b.toBitVec.extractLsb' 0 2 = 0b11 := by
  have hall : ∀ v : BitVec 8, v &&& 3 = 3 ↔ v.extractLsb' 0 2 = 0b11 := by decide
  rw [← hall b.toBitVec, isLong, decide_eq_true_eq, ← UInt8.toBitVec_inj]
  rfl

theorem littleEndian_shortWord (b₀ b₁ : UInt8) : littleEndian 2 (shortWord b₀ b₁) = [b₀, b₁] := by
  have hlow : (shortWord b₀ b₁).extractLsb' 0 8 = b₀.toBitVec := by
    rw [shortWord, BitVec.extractLsb'_setWidth_of_le (by decide),
      BitVec.extractLsb'_append_eq_right]
  have hhigh : (shortWord b₀ b₁).extractLsb' 8 8 = b₁.toBitVec := by
    rw [shortWord, BitVec.extractLsb'_setWidth_of_le (by decide), BitVec.extractLsb'_append_eq_left]
  simp [littleEndian, List.range_succ, hlow, hhigh]

theorem littleEndian_longWord (b₀ b₁ b₂ b₃ : UInt8) :
    littleEndian 4 (longWord b₀ b₁ b₂ b₃) = [b₀, b₁, b₂, b₃] := by
  have h₀ : (longWord b₀ b₁ b₂ b₃).extractLsb' 0 8 = b₀.toBitVec :=
    BitVec.extractLsb'_append_eq_right
  have h₁ : (longWord b₀ b₁ b₂ b₃).extractLsb' 8 8 = b₁.toBitVec := by
    rw [longWord, BitVec.extractLsb'_append_eq_of_le (by decide)]
    exact BitVec.extractLsb'_append_eq_right
  have h₂ : (longWord b₀ b₁ b₂ b₃).extractLsb' 16 8 = b₂.toBitVec := by
    rw [longWord, BitVec.extractLsb'_append_eq_of_le (by decide),
      BitVec.extractLsb'_append_eq_of_le (by decide)]
    exact BitVec.extractLsb'_append_eq_right
  have h₃ : (longWord b₀ b₁ b₂ b₃).extractLsb' 24 8 = b₃.toBitVec := by
    rw [longWord, BitVec.extractLsb'_append_eq_of_le (by decide),
      BitVec.extractLsb'_append_eq_of_le (by decide)]
    exact BitVec.extractLsb'_append_eq_left
  simp [littleEndian, List.range_succ, h₀, h₁, h₂, h₃]

/-- A word below `2 ^ 16` is put together from its two low bytes. -/
theorem shortWord_extractLsb' {v : BitVec 32} (hv : v.toNat < 2 ^ 16) :
    shortWord ⟨v.extractLsb' 0 8⟩ ⟨v.extractLsb' 8 8⟩ = v := by
  have hjoin : v.extractLsb' 8 8 ++ v.extractLsb' 0 8 = v.extractLsb' 0 16 :=
    BitVec.extractLsb'_append_extractLsb'_eq_extractLsb' rfl
  rw [shortWord, hjoin, ← BitVec.toNat_inj, BitVec.toNat_setWidth, BitVec.extractLsb'_toNat,
    Nat.shiftRight_zero]
  omega

/-- A word is put together from its bytes. -/
theorem longWord_extractLsb' (v : BitVec 32) :
    longWord ⟨v.extractLsb' 0 8⟩ ⟨v.extractLsb' 8 8⟩ ⟨v.extractLsb' 16 8⟩ ⟨v.extractLsb' 24 8⟩ =
      v := by
  have h₃ : v.extractLsb' 24 8 ++ v.extractLsb' 16 8 = v.extractLsb' 16 16 :=
    BitVec.extractLsb'_append_extractLsb'_eq_extractLsb' rfl
  have h₂ : v.extractLsb' 16 16 ++ v.extractLsb' 8 8 = v.extractLsb' 8 24 :=
    BitVec.extractLsb'_append_extractLsb'_eq_extractLsb' rfl
  have h₁ : v.extractLsb' 8 24 ++ v.extractLsb' 0 8 = v.extractLsb' 0 32 :=
    BitVec.extractLsb'_append_extractLsb'_eq_extractLsb' rfl
  rw [longWord, h₃, h₂, h₁, BitVec.extractLsb'_eq_self]

theorem sized_shortWord (address : BitVec 32) {b₀ : UInt8} (hb : isLong b₀ = false) (b₁ : UInt8) :
    (⟨address, shortWord b₀ b₁, 2⟩ : CodeWord).Sized := by
  have hlow : (shortWord b₀ b₁).extractLsb' 0 2 = b₀.toBitVec.extractLsb' 0 2 := by
    rw [shortWord, BitVec.extractLsb'_setWidth_of_le (by decide),
      BitVec.extractLsb'_append_eq_of_add_le (by decide)]
  refine ⟨?_, ?_⟩
  · rw [if_neg]
    rw [hlow, ← isLong_iff, hb]
    exact Bool.false_ne_true
  · have hlt := (b₁.toBitVec ++ b₀.toBitVec).isLt
    rw [shortWord, BitVec.toNat_setWidth]
    exact Nat.lt_of_le_of_lt (Nat.mod_le _ _) hlt

theorem sized_longWord (address : BitVec 32) {b₀ : UInt8} (hb : isLong b₀ = true)
    (b₁ b₂ b₃ : UInt8) : (⟨address, longWord b₀ b₁ b₂ b₃, 4⟩ : CodeWord).Sized := by
  have hlow : (longWord b₀ b₁ b₂ b₃).extractLsb' 0 2 = b₀.toBitVec.extractLsb' 0 2 :=
    BitVec.extractLsb'_append_eq_of_add_le (by decide)
  refine ⟨?_, (longWord b₀ b₁ b₂ b₃).isLt⟩
  rw [if_pos]
  rw [hlow, ← isLong_iff, hb]

/-- The first byte of a word tells its size. -/
theorem isLong_extractLsb' (v : BitVec 32) :
    isLong ⟨v.extractLsb' 0 8⟩ = decide (v.extractLsb' 0 2 = 0b11) := by
  have hlow : (v.extractLsb' 0 8).extractLsb' 0 2 = v.extractLsb' 0 2 := by
    ext i hi
    simp
  rw [← hlow, Bool.eq_iff_iff, isLong_iff, decide_eq_true_eq]

/-- The first byte of a word tells how many there are. -/
theorem exists_bytes_eq {w : CodeWord} (hw : w.Sized) :
    ∃ b t, w.bytes = b :: t ∧ w.bytes.length = sizeOf b := by
  have hsize : w.size.toNat = sizeOf ⟨w.raw.extractLsb' 0 8⟩ := by
    rw [hw.size_eq, sizeOf, isLong_extractLsb']
    simp only [decide_eq_true_eq]
    split <;> rfl
  obtain ⟨n, hn⟩ : ∃ n, w.size.toNat = n + 1 :=
    Nat.exists_eq_add_one.mpr (by have := hw.size_cases; omega)
  refine ⟨⟨w.raw.extractLsb' 0 8⟩, w.bytes.tail, ?_, ?_⟩
  · rw [bytes, hn, littleEndian, List.range_succ_eq_map]
    rfl
  · rw [bytes, length_littleEndian, hsize]

/-! ## One cut -/

/-- How an image that starts at an address is cut. -/
inductive Cut : BitVec 32 → Text → Program → Prop where
  /-- there is nothing to cut -/
  | finished (address : BitVec 32) : Cut address [] ⟨[], none⟩
  /-- a word comes off the front -/
  | word {w : CodeWord} {image : Text} {p : Program} (hw : w.Sized)
      (hrest : Cut (w.address + BitVec.ofInt 32 w.size) image p) :
      Cut w.address (w.bytes ++ image) ⟨w :: p.words, p.rest⟩
  /-- the image ends in the word that it starts with -/
  | truncated (address : BitVec 32) {b : UInt8} {t : Text} (hlt : (b :: t).length < sizeOf b) :
      Cut address (b :: t) ⟨[], some ⟨address, sizeOf b, (b :: t).length⟩⟩

theorem Cut.shortWord {address : BitVec 32} {b₀ b₁ : UInt8} {image : Text} {p : Program}
    (hb : isLong b₀ = false) (h : Cut (address + 2) image p) :
    Cut address (b₀ :: b₁ :: image)
      ⟨⟨address, Program.shortWord b₀ b₁, 2⟩ :: p.words, p.rest⟩ := by
  have hcut := Cut.word (sized_shortWord address hb b₁) h
  rwa [bytes, show Int.toNat 2 = 2 from rfl, littleEndian_shortWord] at hcut

theorem Cut.longWord {address : BitVec 32} {b₀ b₁ b₂ b₃ : UInt8} {image : Text} {p : Program}
    (hb : isLong b₀ = true) (h : Cut (address + 4) image p) :
    Cut address (b₀ :: b₁ :: b₂ :: b₃ :: image)
      ⟨⟨address, Program.longWord b₀ b₁ b₂ b₃, 4⟩ :: p.words, p.rest⟩ := by
  have hcut := Cut.word (sized_longWord address hb b₁ b₂ b₃) h
  rwa [bytes, show Int.toNat 4 = 4 from rfl, littleEndian_longWord] at hcut

theorem exists_cut (done : List CodeWord) (address : BitVec 32) (image : Text) :
    ∃ p, Cut address image p ∧
      splitAfter done address image = ⟨done.reverse ++ p.words, p.rest⟩ := by
  fun_induction splitAfter done address image with
  | case1 done address => exact ⟨_, .finished address, by simp⟩
  | case2 done address b₀ =>
    refine ⟨_, .truncated address ?_, by simp⟩
    unfold sizeOf
    split <;> simp
  | case3 done address b₀ b₁ hb =>
    have hsize : sizeOf b₀ = 4 := if_pos hb
    exact ⟨_, .truncated address (by simp [hsize]), by simp [hsize]⟩
  | case4 done address b₀ b₁ hb b₂ =>
    have hsize : sizeOf b₀ = 4 := if_pos hb
    exact ⟨_, .truncated address (by simp [hsize]), by simp [hsize]⟩
  | case5 done address b₀ b₁ hb b₂ b₃ image ih =>
    obtain ⟨p, hcut, heq⟩ := ih
    exact ⟨_, .longWord hb hcut, by simpa using heq⟩
  | case6 done address b₀ b₁ image hb ih =>
    obtain ⟨p, hcut, heq⟩ := ih
    exact ⟨_, .shortWord (by simpa using hb) hcut, by simpa using heq⟩

/-- An image is cut into the words that `split` finds. -/
theorem cut_split (start : BitVec 32) (image : Text) : Cut start image (split start image) := by
  obtain ⟨p, hcut, heq⟩ := exists_cut [] start image
  rw [split, heq]
  exact hcut

/-! ## What the cuts give -/

/-- The size of some words together. -/
def totalSize (ws : List CodeWord) : Int := (ws.map size).sum

@[simp]
theorem totalSize_nil : totalSize [] = 0 := rfl

@[simp]
theorem totalSize_cons (w : CodeWord) (ws : List CodeWord) :
    totalSize (w :: ws) = w.size + totalSize ws := by
  simp [totalSize]

theorem length_flatten_bytes {ws : List CodeWord} (h : ∀ w ∈ ws, w.Sized) :
    ((ws.map bytes).flatten.length : Int) = totalSize ws := by
  induction ws with
  | nil => rfl
  | cons w ws ih =>
    obtain ⟨hw, hws⟩ := List.forall_mem_cons.mp h
    have hsize : (w.size.toNat : Int) = w.size := by
      have := hw.size_cases
      omega
    rw [List.map_cons, List.flatten_cons, List.length_append, Int.natCast_add, ih hws, bytes,
      length_littleEndian, hsize, totalSize_cons]

/-- Words stand one after the other from an address on: each at the sum of the sizes before it.
Addresses wrap around. -/
def Placed (start : BitVec 32) (ws : List CodeWord) : Prop :=
  ∀ k w, ws[k]? = some w → w.address = start + BitVec.ofInt 32 (totalSize (ws.take k))

theorem placed_nil (start : BitVec 32) : Placed start [] := by
  intro k w h
  simp at h

theorem placed_cons (start : BitVec 32) (w : CodeWord) (ws : List CodeWord) :
    Placed start (w :: ws) ↔
      w.address = start ∧ Placed (start + BitVec.ofInt 32 w.size) ws := by
  have hshift : ∀ k, start + BitVec.ofInt 32 (totalSize ((w :: ws).take (k + 1))) =
      start + BitVec.ofInt 32 w.size + BitVec.ofInt 32 (totalSize (ws.take k)) := by
    intro k
    rw [List.take_succ_cons, totalSize_cons, BitVec.ofInt_add, BitVec.add_assoc]
  refine ⟨?_, ?_⟩
  · intro h
    refine ⟨by simpa using h 0 w rfl, fun k v hv => ?_⟩
    rw [← hshift]
    exact h (k + 1) v hv
  · rintro ⟨hfirst, hrest⟩ k v hv
    cases k with
    | zero =>
      obtain rfl : w = v := Option.some.inj hv
      simpa using hfirst
    | succ k =>
      rw [hshift]
      exact hrest k v hv

namespace Cut

variable {start : BitVec 32} {image : Text} {p : Program}

theorem sized (h : Cut start image p) : ∀ w ∈ p.words, w.Sized := by
  induction h with
  | finished _ => simp
  | word hw _ ih => exact List.forall_mem_cons.mpr ⟨hw, ih⟩
  | truncated _ _ => simp

theorem placed (h : Cut start image p) : Placed start p.words := by
  induction h with
  | finished address => exact placed_nil address
  | word _ _ ih => exact (placed_cons _ _ _).mpr ⟨rfl, ih⟩
  | truncated address _ => exact placed_nil address

/-- What the words leave of the image is nothing, or the start of a word. -/
theorem exists_remainder (h : Cut start image p) :
    ∃ r, p.words.flatMap bytes ++ r = image ∧
      ((r = [] ∧ p.rest = none) ∨
        ∃ b t, r = b :: t ∧ r.length < sizeOf b ∧
          p.rest = some ⟨start + BitVec.ofInt 32 (totalSize p.words), sizeOf b, r.length⟩) := by
  induction h with
  | finished _ => exact ⟨[], rfl, .inl ⟨rfl, rfl⟩⟩
  | @word w image p _ _ ih =>
    obtain ⟨r, hr, hrest⟩ := ih
    refine ⟨r, by simp [hr], ?_⟩
    rcases hrest with hnone | ⟨b, t, hb, hlt, hsome⟩
    · exact .inl hnone
    · refine .inr ⟨b, t, hb, hlt, ?_⟩
      rw [hsome, totalSize_cons, BitVec.ofInt_add, BitVec.add_assoc]
  | @truncated address b t hlt => exact ⟨b :: t, rfl, .inr ⟨b, t, rfl, hlt, by simp⟩⟩

end Cut

/-! ## Cutting what was joined -/

theorem splitAfter_shortWord (done : List CodeWord) (address : BitVec 32) {b₀ : UInt8}
    (hb : isLong b₀ = false) (b₁ : UInt8) (image : Text) :
    splitAfter done address (b₀ :: b₁ :: image) =
      splitAfter (⟨address, shortWord b₀ b₁, 2⟩ :: done) (address + 2) image := by
  rw [splitAfter.eq_def]
  simp [hb]

theorem splitAfter_longWord (done : List CodeWord) (address : BitVec 32) {b₀ : UInt8}
    (hb : isLong b₀ = true) (b₁ b₂ b₃ : UInt8) (image : Text) :
    splitAfter done address (b₀ :: b₁ :: b₂ :: b₃ :: image) =
      splitAfter (⟨address, longWord b₀ b₁ b₂ b₃, 4⟩ :: done) (address + 4) image := by
  rw [splitAfter.eq_def]
  simp [hb]

/-- A word is cut off its bytes. -/
theorem splitAfter_bytes_append (done : List CodeWord) {w : CodeWord} (hw : w.Sized)
    (image : Text) :
    splitAfter done w.address (w.bytes ++ image) =
      splitAfter (w :: done) (w.address + BitVec.ofInt 32 w.size) image := by
  obtain ⟨address, raw, size⟩ := w
  obtain ⟨hsize, hraw⟩ := hw
  have hlong := isLong_extractLsb' raw
  simp only at hsize hraw
  split at hsize
  · rename_i hbits
    subst hsize
    have hcut := splitAfter_longWord done address (hlong.trans (decide_eq_true hbits))
      ⟨raw.extractLsb' 8 8⟩ ⟨raw.extractLsb' 16 8⟩ ⟨raw.extractLsb' 24 8⟩ image
    rwa [longWord_extractLsb'] at hcut
  · rename_i hbits
    subst hsize
    have hcut := splitAfter_shortWord done address (hlong.trans (decide_eq_false hbits))
      ⟨raw.extractLsb' 8 8⟩ image
    rwa [shortWord_extractLsb' hraw] at hcut

theorem splitAfter_flatMap_bytes (done : List CodeWord) {start : BitVec 32} {ws : List CodeWord}
    (hsized : ∀ w ∈ ws, w.Sized) (hplaced : Placed start ws) :
    splitAfter done start (ws.flatMap bytes) = ⟨done.reverse ++ ws, none⟩ := by
  induction ws generalizing done start with
  | nil => simp [splitAfter]
  | cons w ws ih =>
    obtain ⟨hw, hws⟩ := List.forall_mem_cons.mp hsized
    obtain ⟨rfl, hrest⟩ := (placed_cons _ _ _).mp hplaced
    rw [List.flatMap_cons, splitAfter_bytes_append done hw, ih (w :: done) hws hrest]
    simp

/-- **Cutting and joining are inverse to each other.** Every image is cut into words that have the
sizes that their low bits tell, fit in them and stand one after the other; their bytes and a
remainder are the image. There is a report exactly if there is a remainder, which is shorter than
the word that it starts; the report gives its address and its length. Conversely, words that have
their sizes and stand one after the other are what the image of their bytes is cut into. -/
theorem split_joined_inverse (start : BitVec 32) :
    (∀ image, (∀ w ∈ (split start image).words, w.Sized) ∧
      Placed start (split start image).words ∧
      ∃ r, (split start image).words.flatMap bytes ++ r = image ∧
        ((split start image).rest = none ↔ r = []) ∧
        ∀ e, (split start image).rest = some e →
          ∃ b t, r = b :: t ∧ r.length < sizeOf b ∧
            e.address = start + BitVec.ofInt 32 (totalSize (split start image).words) ∧
            e.needed = sizeOf b ∧ e.present = r.length ∧
            e.message = "truncated instruction at " ++ addressText e.address ++ ": need " ++
              Text.decimal (sizeOf b) ++ " bytes, have " ++ Text.decimal r.length) ∧
    ∀ ws : List CodeWord, (∀ w ∈ ws, w.Sized) → Placed start ws →
      split start (ws.flatMap bytes) = ⟨ws, none⟩ := by
  refine ⟨fun image => ?_, fun ws hsized hplaced => ?_⟩
  · have hcut := cut_split start image
    obtain ⟨r, hr, hrest⟩ := hcut.exists_remainder
    refine ⟨hcut.sized, hcut.placed, r, hr, ?_⟩
    rcases hrest with ⟨rfl, hnone⟩ | ⟨b, t, rfl, hlt, hsome⟩
    · exact ⟨by simp [hnone], by simp [hnone]⟩
    · refine ⟨by simp [hsome], fun e he => ?_⟩
      rw [hsome] at he
      obtain rfl := Option.some.inj he
      exact ⟨b, t, rfl, hlt, rfl, rfl, rfl, rfl⟩
  · exact splitAfter_flatMap_bytes [] hsized hplaced

/-- A short and a long word, with the addresses wrapping around between them. -/
theorem split_joined_inverse_wrapping :
    let ws : List CodeWord := [⟨0xFFFFFFFE, 0x8082, 2⟩, ⟨0, 0x002081B3, 4⟩]
    (∀ w ∈ ws, w.Sized) ∧ Placed 0xFFFFFFFE ws ∧
      split 0xFFFFFFFE [0x82, 0x80, 0xB3, 0x81, 0x20, 0x00] = ⟨ws, none⟩ := by
  intro ws
  have hsized : ∀ w ∈ ws, w.Sized := by decide
  have hplaced : Placed 0xFFFFFFFE ws :=
    (placed_cons _ _ _).mpr ⟨rfl, (placed_cons _ _ _).mpr ⟨rfl, placed_nil _⟩⟩
  exact ⟨hsized, hplaced, (split_joined_inverse 0xFFFFFFFE).2 ws hsized hplaced⟩

end Program

end Disassembly
