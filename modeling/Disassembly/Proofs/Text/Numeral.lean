import Disassembly.Text.Numeral
import Mathlib.Data.Nat.Digits.Lemmas

/-!
# Numerals are read back

Writing and reading meet in lists of digits, the most significant first. `Text.digits` is the list
of digits that everybody knows (`Text.digits_eq`), and reading a written list of digits gives the
number it denotes, unless that number is beyond the limit (`Text.readDigits_map_digitByte`). Zeros
in front change nothing, so a numeral is read back whatever the width it was written to
(`Text.readNumeral_zeroPad`).

`Text.IsNumeral` says which texts denote a number, whoever wrote them, and up to base ten these are
exactly the texts that are read to it (`Text.readNumeral_eq_ok_iff`).
-/

namespace Disassembly

namespace Text

/-! ## Writing -/

theorem digitsBefore_eq {base : Nat} (hbase : 1 < base) (fuel n : Nat) (low : List Nat)
    (hn : 0 < n) (hfuel : n ≤ fuel) :
    digitsBefore base fuel n low = (Nat.digits base n).reverse ++ low := by
  induction fuel generalizing n low with
  | zero => omega
  | succ fuel ih =>
    rw [digitsBefore, Nat.digits_def' hbase hn]
    split
    · rename_i hdiv
      simp [hdiv]
    · rename_i hdiv
      have hlt : n / base < n := Nat.div_lt_self hn hbase
      rw [ih (n / base) _ (Nat.pos_of_ne_zero hdiv) (by omega)]
      simp

/-- The digits of a number. Only zero is written with a digit that it could do without. -/
theorem digits_eq {base : Nat} (hbase : 1 < base) (n : Nat) :
    digits base n = if n = 0 then [0] else (Nat.digits base n).reverse := by
  rw [digits]
  split
  · subst_vars
    simp [digitsBefore]
  · rw [digitsBefore_eq hbase (n + 1) n [] (by omega) (by omega), List.append_nil]

theorem digits_lt {base : Nat} (hbase : 1 < base) {n d : Nat} (hd : d ∈ digits base n) :
    d < base := by
  rw [digits_eq hbase] at hd
  split at hd
  · obtain rfl := List.mem_singleton.mp hd
    omega
  · exact Nat.digits_lt_base hbase (List.mem_reverse.mp hd)

theorem digits_ne_nil {base : Nat} (hbase : 1 < base) (n : Nat) : digits base n ≠ [] := by
  rw [digits_eq hbase]
  split
  · simp
  · rename_i hn
    simpa [Nat.digits_eq_nil_iff_eq_zero] using hn

theorem ofDigits_reverse_digits {base : Nat} (hbase : 1 < base) (n : Nat) :
    Nat.ofDigits base (digits base n).reverse = n := by
  rw [digits_eq hbase]
  split
  · simp_all
  · rw [List.reverse_reverse, Nat.ofDigits_digits]

/-- A number below `base ^ m` has at most `m` digits. -/
theorem length_digits_le {base : Nat} (hbase : 1 < base) {n m : Nat} (hm : 1 ≤ m)
    (hn : n < base ^ m) : (digits base n).length ≤ m := by
  rw [digits_eq hbase]
  split
  · simpa using hm
  · rw [List.length_reverse, Nat.digits_length_le_iff hbase]
    exact hn

/-- Filling up with zeros puts zeros in front of the digits. -/
theorem zeroPad_map_digitByte (width : Nat) (ds : List Nat) :
    zeroPad width (ds.map digitByte) =
      (List.replicate (width - ds.length) 0 ++ ds).map digitByte := by
  rw [zeroPad, List.map_append, List.map_replicate, List.length_map]
  rfl

/-- A numeral consists of digits, also where it was filled up. -/
theorem exists_digit_of_mem_zeroPad {base : Nat} (hbase : 1 < base) {width n : Nat} {b : UInt8}
    (hb : b ∈ zeroPad width ((digits base n).map digitByte)) : ∃ d < base, digitByte d = b := by
  rw [zeroPad_map_digitByte] at hb
  obtain ⟨d, hd, rfl⟩ := List.mem_map.mp hb
  refine ⟨d, ?_, rfl⟩
  rcases List.mem_append.mp hd with hd | hd
  · rw [List.eq_of_mem_replicate hd]
    omega
  · exact digits_lt hbase hd

/-- A numeral that fits in a width is filled up to exactly that width. -/
theorem length_zeroPad_digits {base : Nat} (hbase : 1 < base) {width n : Nat} (hwidth : 1 ≤ width)
    (hn : n < base ^ width) : (zeroPad width ((digits base n).map digitByte)).length = width := by
  have := length_digits_le hbase hwidth hn
  rw [zeroPad_map_digitByte, List.length_map, List.length_append, List.length_replicate]
  omega

/-! ## Reading -/

theorem digitValue?_digitByte {d : Nat} (hd : d < 36) : digitValue? (digitByte d) = some d := by
  revert d
  decide

/-- One digit more after the digits of `n`, and then the others. -/
theorem ofDigits_after_cons (base n d : Nat) (ds : List Nat) :
    n * base ^ (d :: ds).length + Nat.ofDigits base (d :: ds).reverse =
      (n * base + d) * base ^ ds.length + Nat.ofDigits base ds.reverse := by
  rw [List.reverse_cons, Nat.ofDigits_append, List.length_reverse, List.length_cons,
    Nat.ofDigits_singleton]
  ring

/-- Written digits are read to the number that they denote after the digits of `n`. -/
theorem readDigits_map_digitByte {base limit : Nat} (hbase : base ≤ 36) (ds : List Nat)
    (hds : ∀ d ∈ ds, d < base) (n : Nat)
    (hle : n * base ^ ds.length + Nat.ofDigits base ds.reverse ≤ limit) :
    readDigits base limit n (ds.map digitByte) =
      .ok (n * base ^ ds.length + Nat.ofDigits base ds.reverse) := by
  induction ds generalizing n with
  | nil => simp [readDigits]
  | cons d ds ih =>
    obtain ⟨hd, hds⟩ := List.forall_mem_cons.mp hds
    rw [ofDigits_after_cons] at hle ⊢
    -- further digits only make the number greater, so the limit is not passed on the way
    have hpow : 1 ≤ base ^ ds.length := Nat.one_le_pow _ _ (by omega)
    have hstep : n * base + d ≤ (n * base + d) * base ^ ds.length := Nat.le_mul_of_pos_right _ hpow
    rw [List.map_cons, readDigits, digitValue?_digitByte (by omega)]
    simp only
    rw [if_neg (by omega), if_neg (by omega), ih hds _ hle]

/-- A numeral is read back whatever the width it was filled up to. -/
theorem readNumeral_zeroPad {base limit : Nat} (hlow : 1 < base) (hhigh : base ≤ 36)
    (width : Nat) {n : Nat} (hn : n ≤ limit) :
    readNumeral base limit (zeroPad width ((digits base n).map digitByte)) = .ok n := by
  have hne := digits_ne_nil hlow n
  have hvalue : Nat.ofDigits base
      (List.replicate (width - (digits base n).length) 0 ++ digits base n).reverse = n := by
    rw [List.reverse_append, List.reverse_replicate, Nat.ofDigits_append_replicate_zero,
      ofDigits_reverse_digits hlow]
  rw [zeroPad_map_digitByte, readNumeral, if_neg (by simp [hne]),
    readDigits_map_digitByte hhigh _ _ 0 (by rw [hvalue]; omega), hvalue, Nat.zero_mul,
    Nat.zero_add]
  intro d hd
  rcases List.mem_append.mp hd with hd | hd
  · have := List.eq_of_mem_replicate hd
    omega
  · exact digits_lt hlow hd

theorem readNumeral_decimal {limit n : Nat} (hn : n ≤ limit) :
    readNumeral 10 limit (decimal n) = .ok n := by
  have h := @readNumeral_zeroPad 10 limit (by decide) (by decide) 0 n hn
  rwa [zeroPad, Nat.zero_sub, List.replicate_zero, List.nil_append] at h

/-! ## Texts that denote a number -/

/-- A text of one or more digits that denotes the number `n`. There may be zeros in front. -/
def IsNumeral (base n : Nat) (t : Text) : Prop :=
  ∃ ds : List Nat, ds ≠ [] ∧ (∀ d ∈ ds, d < base) ∧ t = ds.map digitByte ∧
    Nat.ofDigits base ds.reverse = n

theorem isNumeral_digits {base : Nat} (hbase : 1 < base) (n : Nat) :
    IsNumeral base n ((digits base n).map digitByte) :=
  ⟨digits base n, digits_ne_nil hbase n, fun _ hd => digits_lt hbase hd, rfl,
    ofDigits_reverse_digits hbase n⟩

/-- A number is smaller than the power of the base with as many factors as it has digits. -/
theorem IsNumeral.lt_pow {base n : Nat} (hbase : 1 < base) {t : Text} (h : IsNumeral base n t) :
    n < base ^ t.length := by
  obtain ⟨ds, -, hds, rfl, rfl⟩ := h
  rw [List.length_map, ← List.length_reverse]
  exact Nat.ofDigits_lt_base_pow_length hbase fun d hd => hds d (List.mem_reverse.mp hd)

theorem digitByte_of_digitValue? {b : UInt8} {d : Nat} (h : digitValue? b = some d) (hd : d < 10) :
    digitByte d = b := by
  simp only [digitValue?, UInt8.le_iff_toNat_le, UInt8.reduceToNat] at h
  split at h
  · obtain rfl := Option.some.inj h
    rw [digitByte, if_pos hd, ← UInt8.toNat_inj, UInt8.toNat_ofNat']
    omega
  · -- letters stand for ten and more
    split at h
    · have := Option.some.inj h
      omega
    · split at h
      · have := Option.some.inj h
        omega
      · cases h

/-- What was read on to `n` are digits, and the number that they denote after the digits of `n`. -/
theorem exists_digits_of_readDigits {base limit : Nat} (hbase : base ≤ 10) {n m : Nat} {t : Text}
    (hn : n ≤ limit) (h : readDigits base limit n t = .ok m) :
    ∃ ds : List Nat, (∀ d ∈ ds, d < base) ∧ t = ds.map digitByte ∧
      m = n * base ^ ds.length + Nat.ofDigits base ds.reverse ∧ m ≤ limit := by
  induction t generalizing n with
  | nil =>
    obtain rfl := Except.ok.inj h
    exact ⟨[], by simp, rfl, by simp, hn⟩
  | cons b t ih =>
    rw [readDigits] at h
    split at h
    · cases h
    · rename_i d hd
      split at h
      · cases h
      · rename_i hdigit
        split at h
        · cases h
        · rename_i hlimit
          obtain ⟨ds, hds, rfl, hm, hle⟩ := ih (Nat.not_lt.mp hlimit) h
          refine ⟨d :: ds, List.forall_mem_cons.mpr ⟨Nat.not_le.mp hdigit, hds⟩, ?_, ?_, hle⟩
          · rw [List.map_cons, digitByte_of_digitValue? hd (by omega)]
          · rw [ofDigits_after_cons, hm]

/-- Where there are digits only, the limit is all that can be in the way. -/
theorem error_of_readDigits {base limit n : Nat} {t : Text} {e : NumeralError}
    (ht : ∀ b ∈ t, ∃ d < base, digitValue? b = some d)
    (h : readDigits base limit n t = .error e) : e = .outOfRange := by
  induction t generalizing n with
  | nil => cases h
  | cons b t ih =>
    obtain ⟨⟨d, hd, hvalue⟩, ht⟩ := List.forall_mem_cons.mp ht
    rw [readDigits, hvalue] at h
    simp only [if_neg (Nat.not_le.mpr hd)] at h
    split at h
    · exact (Except.error.inj h).symm
    · exact ih ht h

/-- A text is read to a number exactly if it denotes it and the number is not beyond the limit. -/
theorem readNumeral_eq_ok_iff {base : Nat} (hbase : base ≤ 10) (limit n : Nat) (t : Text) :
    readNumeral base limit t = .ok n ↔ IsNumeral base n t ∧ n ≤ limit := by
  rw [readNumeral]
  constructor
  · intro h
    split at h
    · cases h
    · rename_i hempty
      obtain ⟨ds, hds, rfl, hn, hle⟩ := exists_digits_of_readDigits hbase (Nat.zero_le _) h
      rw [Nat.zero_mul, Nat.zero_add] at hn
      exact ⟨⟨ds, by simpa using hempty, hds, rfl, hn.symm⟩, hle⟩
  · rintro ⟨⟨ds, hne, hds, rfl, rfl⟩, hle⟩
    rw [if_neg (by simpa using hne), readDigits_map_digitByte (by omega) ds hds 0 (by omega),
      Nat.zero_mul, Nat.zero_add]

end Text

end Disassembly
