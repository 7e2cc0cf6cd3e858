import Disassembly.Text.Integer
import Disassembly.Proofs.Operand.Told
import Mathlib.Data.Int.ModEq

/-!
# Signed operands

A signed operand shows the integer that the low bits of a value denote in two's complement.
`IsSignedValue` says which integer that is without speaking of shifts: it is congruent to the value
and in the range of so many bits. There is one at most (`IsSignedValue.unique`), and shifting up and
down again gives it (`isSignedValue_signedValue`), whatever bits the value has above.

What is shown is the magnitude in hexadecimal after a sign and a marker for the base
(`ShowsInteger`), which is also how an integer may be given to the command. It is read back
(`Text.readInteger_signedHex`), so the text of an operand tells the integer.
-/

namespace Disassembly

open Text

/-! ## Two's complement -/

/-- The number of bits that a signed operand takes from the low end of a value. -/
def significantBits (width : UInt64) : Nat :=
  if 1 ≤ width.toNat ∧ width.toNat ≤ 31 then width.toNat else 32

/-- The integer that the `m` low bits of a value denote in two's complement. -/
structure IsSignedValue (m : Nat) (v : BitVec 32) (i : Int) : Prop where
  lower : -2 ^ (m - 1) ≤ i
  upper : i < 2 ^ (m - 1)
  congruent : i ≡ v.toNat [ZMOD 2 ^ m]

theorem one_le_significantBits (width : UInt64) : 1 ≤ significantBits width := by
  unfold significantBits
  split <;> omega

theorem significantBits_le (width : UInt64) : significantBits width ≤ 32 := by
  unfold significantBits
  split <;> omega

/-- Values that agree modulo `2 ^ m` do not denote different integers. -/
theorem IsSignedValue.unique {m : Nat} (hm : 1 ≤ m) {u v : BitVec 32} {i j : Int}
    (hi : IsSignedValue m u i) (hj : IsSignedValue m v j) (h : u.toNat ≡ v.toNat [MOD 2 ^ m]) :
    i = j := by
  have hvalues : (u.toNat : Int) ≡ v.toNat [ZMOD 2 ^ m] := by
    exact_mod_cast Int.natCast_modEq_iff.mpr h
  have hdvd : (2 : Int) ^ m ∣ j - i :=
    ((hi.congruent.trans hvalues).trans hj.congruent.symm).dvd
  -- two integers in the range are less than `2 ^ m` apart
  have hrange : (2 : Int) ^ m = 2 * 2 ^ (m - 1) := by
    rw [← pow_succ', Nat.sub_add_cancel hm]
  have hzero := Int.eq_zero_of_abs_lt_dvd hdvd (by
    have := hi.lower
    have := hi.upper
    have := hj.lower
    have := hj.upper
    rw [abs_lt]
    omega)
  omega

theorem isSignedValue_toInt (v : BitVec 32) : IsSignedValue 32 v v.toInt where
  lower := v.le_toInt
  upper := v.toInt_lt
  congruent := by
    rw [BitVec.toInt_eq_toNat_bmod]
    exact Int.bmod_emod

/-- The bits above the low `n` leave the word on the way up, and the sign fills their place on the
way down. -/
theorem isSignedValue_shifted {n : Nat} (hlow : 1 ≤ n) (hhigh : n ≤ 32) (v : BitVec 32) :
    IsSignedValue n v ((v <<< (32 - n)).sshiftRight (32 - n)).toInt := by
  have hword : (2 : Int) ^ 32 = 2 ^ (32 - n) * 2 ^ n := by
    rw [← pow_add]
    congr 1
    omega
  have hhalf : (2 : Int) ^ 31 = 2 ^ (32 - n) * 2 ^ (n - 1) := by
    rw [← pow_add]
    congr 1
    omega
  have hpos : (0 : Int) < 2 ^ (32 - n) := by positivity
  -- on the way up, only a multiple of `2 ^ 32` is lost
  obtain ⟨c, hc⟩ : ∃ c : Int, (v <<< (32 - n)).toInt = 2 ^ (32 - n) * (v.toNat + 2 ^ n * c) := by
    obtain ⟨c, hc⟩ := Int.dvd_bmod_sub_self (x := (v.toNat <<< (32 - n) : Nat)) (m := 2 ^ 32)
    refine ⟨c, ?_⟩
    rw [BitVec.toInt_shiftLeft, eq_add_of_sub_eq hc, Nat.shiftLeft_eq, Nat.cast_mul, Nat.cast_pow,
      Nat.cast_pow, Nat.cast_ofNat, hword]
    ring
  have hlower := (v <<< (32 - n)).le_toInt
  have hupper := (v <<< (32 - n)).toInt_lt
  rw [show 32 - 1 = 31 from rfl, hhalf, hc] at hlower hupper
  rw [BitVec.toInt_sshiftRight, Int.shiftRight_eq_div_pow, hc]
  push_cast
  rw [Int.mul_ediv_cancel_left _ hpos.ne']
  constructor
  · exact le_of_mul_le_mul_left (by rwa [mul_neg]) hpos
  · exact lt_of_mul_lt_mul_left hupper hpos.le
  · exact Int.add_mul_emod_self_left _ _ _

theorem isSignedValue_signedValue (width : UInt64) (v : BitVec 32) :
    IsSignedValue (significantBits width) v (signedValue width v) := by
  rw [signedValue, significantBits]
  have hwhole : width = 0 ∨ 32 ≤ width ↔ ¬ (1 ≤ width.toNat ∧ width.toNat ≤ 31) := by
    simp only [← UInt64.toNat_inj, UInt64.le_iff_toNat_le, UInt64.reduceToNat]
    omega
  by_cases hwidth : 1 ≤ width.toNat ∧ width.toNat ≤ 31
  · rw [if_pos hwidth, if_neg (by simpa [hwhole] using hwidth)]
    exact isSignedValue_shifted hwidth.1 (by omega) v
  · rw [if_neg hwidth, if_pos (hwhole.mpr hwidth)]
    exact isSignedValue_toInt v

/-! ## Texts that show an integer -/

namespace Text

/-- A numeral without zeros in front of it: it begins with a zero only if that is all. -/
def IsShortest (base n : Nat) (t : Text) : Prop :=
  IsNumeral base n t ∧ (t.head? = some 0x30 → t = [0x30])

theorem isShortest_digits {base : Nat} (hlow : 1 < base) (hhigh : base ≤ 36) (n : Nat) :
    IsShortest base n ((digits base n).map digitByte) := by
  refine ⟨isNumeral_digits hlow n, fun hhead => ?_⟩
  rw [digits_eq hlow] at hhead ⊢
  split at hhead
  · simp_all
  · rename_i hn
    have hzero : ∀ d < 36, digitByte d = 0x30 → d = 0 := by decide
    have hne : Nat.digits base n ≠ [] := Nat.digits_ne_nil_iff_ne_zero.mpr hn
    rw [List.head?_map, List.head?_reverse, List.getLast?_eq_some_getLast hne] at hhead
    have hlast := Nat.digits_lt_base hlow (List.getLast_mem hne)
    exact absurd (hzero _ (by omega) (Option.some.inj hhead)) (Nat.getLast_digit_ne_zero base hn)

/-- A text that shows an integer: a sign if it is negative, the marker for hexadecimal, and the
magnitude in capital digits. -/
def ShowsInteger (i : Int) (t : Text) : Prop :=
  ∃ magnitude, IsShortest 16 i.natAbs magnitude ∧
    t = (if i < 0 then ("-0x" : Text) else "0x") ++ magnitude

theorem showsInteger_signedHex (i : Int) : ShowsInteger i (signedHex i) := by
  refine ⟨hex i.natAbs, isShortest_digits (by decide) (by decide) _, ?_⟩
  rw [signedHex]
  split <;> rfl

/-- A marked number is read back as long as it has room in 64 bits. -/
theorem readMagnitude_hex {n : Nat} (hn : n < UInt64.size) :
    readMagnitude ("0x" ++ hex n) = .ok n := by
  have hnone : ∀ d < 16, digitByte d ≠ 0x5F := by decide
  have hplain : ∀ b ∈ hex n, b ≠ 0x5F := by
    intro b hb
    obtain ⟨d, hd, rfl⟩ := List.mem_map.mp hb
    exact hnone d (digits_lt (by decide) hd)
  have hbase : baseAndDigits ("0x" ++ hex n) = (16, hex n) := by
    have hne : (hex n).isEmpty = false := by simpa [hex] using digits_ne_nil (by decide) n
    show (if (hex n).isEmpty then _ else _) = _
    rw [hne]
    rfl
  have hread : readDigits 16 (UInt64.size - 1) 0 (hex n) = .ok n := by
    have hvalue := ofDigits_reverse_digits (show 1 < 16 by decide) n
    rw [hex, readDigits_map_digitByte (by decide) _ (fun _ hd => digits_lt (by decide) hd) 0
      (by rw [hvalue]; omega), hvalue, Nat.zero_mul, Nat.zero_add]
  have hfilter : (hex n).filter (· != 0x5F) = hex n := by
    rw [List.filter_eq_self]
    simpa using hplain
  have hcontains : (hex n).contains 0x5F = false := by
    simpa using fun h => hplain _ h rfl
  rw [readMagnitude, hbase]
  simp only [hfilter, hread, hcontains]
  rfl

/-- An integer is read back as long as it has room in 64 bits. -/
theorem readInteger_signedHex {i : Int} (hlow : -2 ^ 63 ≤ i) (hhigh : i < 2 ^ 63) :
    readInteger (signedHex i) = .ok i := by
  have hmagnitude := readMagnitude_hex (n := i.natAbs) (by
    rw [UInt64.size]
    omega)
  rw [signedHex]
  split
  · have hstrip : strip? "-" ("-0x" ++ hex i.natAbs) = some ("0x" ++ hex i.natAbs) := rfl
    simp only [readInteger, hstrip, hmagnitude]
    show (if i.natAbs ≤ 0x8000000000000000 then _ else _) = _
    rw [if_pos (by omega)]
    exact congrArg Except.ok (by omega)
  · have hminus : strip? "-" ("0x" ++ hex i.natAbs) = none := rfl
    have hplus : strip? "+" ("0x" ++ hex i.natAbs) = none := rfl
    simp only [readInteger, hminus, hplus, Option.getD_none, hmagnitude]
    show (if i.natAbs < 0x8000000000000000 then _ else _) = _
    rw [if_pos (by omega)]
    exact congrArg Except.ok (by omega)

end Text

/-! ## Operands -/

/-- Signed values are the same exactly if the values agree on the bits that are taken. -/
theorem signedValue_eq_iff (width : UInt64) (u v : BitVec 32) :
    signedValue width u = signedValue width v ↔
      u.toNat ≡ v.toNat [MOD 2 ^ significantBits width] := by
  have hu := isSignedValue_signedValue width u
  have hv := isSignedValue_signedValue width v
  constructor
  · intro h
    rw [h] at hu
    have hvalues := hu.congruent.symm.trans hv.congruent
    exact Int.natCast_modEq_iff.mp (by exact_mod_cast hvalues)
  · exact hu.unique (one_le_significantBits width) hv

/-- **Signed operands show the right integer.** The low bits of a value denote one integer in two's
complement, and that is what both kinds of signed operands show: it is read back from the text, and
two values have the same text exactly if they agree on those bits. -/
theorem Operand.format_shows_signed_value (width : UInt64) (v : BitVec 32) :
    ∃ i : Int, (∀ j, IsSignedValue (significantBits width) v j ↔ j = i) ∧
      ∀ name ∈ (["simm", "offset"] : List Text),
        ShowsInteger i ((named name width).format v) ∧
        readInteger ((named name width).format v) = .ok i ∧
        ∀ u, (named name width).format u = (named name width).format v ↔
          u.toNat ≡ v.toNat [MOD 2 ^ significantBits width] := by
  have hvalue := isSignedValue_signedValue width v
  refine ⟨signedValue width v, fun j => ⟨fun hj => ?_, ?_⟩, fun name hname => ?_⟩
  · exact hj.unique (one_le_significantBits width) hvalue rfl
  · rintro rfl
    exact hvalue
  have hnamed : named name width = .signed width := by
    simp only [List.mem_cons, List.not_mem_nil, or_false] at hname
    rcases hname with rfl | rfl <;> rfl
  rw [hnamed]
  have hroom : (2 : Int) ^ (significantBits width - 1) ≤ 2 ^ 63 :=
    pow_le_pow_right₀ (by decide) (by have := significantBits_le width; omega)
  have hread := readInteger_signedHex (i := signedValue width v)
    (by have := hvalue.lower; omega) (by have := hvalue.upper; omega)
  refine ⟨showsInteger_signedHex _, hread, fun u => ?_⟩
  rw [← signedValue_eq_iff]
  exact ⟨signedHex_inj, congrArg signedHex⟩

example : (Operand.named "simm" 8).format 0x12345D5 = "-0x2B" := by decide

end Disassembly
