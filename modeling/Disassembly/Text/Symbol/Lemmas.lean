import Disassembly.Text.Symbol

/-!
# Nothing is lost between bytes and symbols

The character that `Symbol.leading?` reads has exactly the bytes that it was read from
(`Symbol.bytes_of_leading?`), so the symbols of a text give the text back
(`Text.ofSymbols_symbols`).
-/

namespace Disassembly

namespace Symbol

theorem toNat_ofNat_of_isValidChar {v : Nat} (h : v.isValidChar) : (Char.ofNat v).toNat = v := by
  rw [Char.ofNat, dif_pos h]
  rfl

theorem scalar?_eq_some {least v : Nat} {c : Char} (h : scalar? least v = some c) :
    least ≤ v ∧ c.toNat = v := by
  unfold scalar? at h
  split at h
  · rename_i hv
    simp only [Option.some.injEq] at h
    subst h
    exact ⟨hv.1, toNat_ofNat_of_isValidChar hv.2⟩
  · simp at h

theorem isContinuation_iff {b : UInt8} :
    isContinuation b = true ↔ 128 ≤ b.toNat ∧ b.toNat < 192 := by
  simp [isContinuation, UInt8.le_iff_toNat_le, UInt8.lt_iff_toNat_lt]

theorem ofNat_eq_of_eq_toNat {n : Nat} {b : UInt8} (h : n = b.toNat) : UInt8.ofNat n = b := by
  subst h
  simp

/-- A character read off the front of a text has the bytes that stand there. -/
theorem bytes_of_leading? {b : UInt8} {t : Text} {c : Char} {n : Nat}
    (h : leading? b t = some (c, n)) : String.utf8EncodeChar c = b :: t.take n := by
  have hb := b.toNat_lt
  unfold leading? at h
  simp only [UInt8.lt_iff_toNat_lt, UInt8.reduceToNat] at h
  unfold String.utf8EncodeChar
  simp only [Char.toNat_val]
  split at h
  · -- one byte
    simp only [Option.some.injEq, Prod.mk.injEq] at h
    obtain ⟨rfl, rfl⟩ := h
    rw [toNat_ofNat_of_isValidChar (Or.inl (by omega))]
    simp [show b.toNat ≤ 127 by omega]
  split at h
  · simp at h
  split at h
  · -- two bytes
    split at h
    · split at h
      · rename_i hx
        rw [isContinuation_iff] at hx
        simp only [Option.map_eq_some_iff, Prod.mk.injEq] at h
        obtain ⟨c', hc, rfl, rfl⟩ := h
        obtain ⟨hl, hv⟩ := scalar?_eq_some hc
        simp only [payload] at hl hv
        rw [if_neg (by omega), if_pos (by omega)]
        simp only [List.take_succ_cons, List.take_zero, List.cons.injEq, and_true]
        exact ⟨ofNat_eq_of_eq_toNat (by omega), ofNat_eq_of_eq_toNat (by omega)⟩
      · simp at h
    · simp at h
  split at h
  · -- three bytes
    split at h
    · split at h
      · rename_i hx
        simp only [Bool.and_eq_true, isContinuation_iff] at hx
        simp only [Option.map_eq_some_iff, Prod.mk.injEq] at h
        obtain ⟨c', hc, rfl, rfl⟩ := h
        obtain ⟨hl, hv⟩ := scalar?_eq_some hc
        simp only [payload] at hl hv
        rw [if_neg (by omega), if_neg (by omega), if_pos (by omega)]
        simp only [List.take_succ_cons, List.take_zero, List.cons.injEq, and_true]
        exact ⟨ofNat_eq_of_eq_toNat (by omega), ofNat_eq_of_eq_toNat (by omega),
          ofNat_eq_of_eq_toNat (by omega)⟩
      · simp at h
    · simp at h
  split at h
  · -- four bytes
    split at h
    · split at h
      · rename_i hx
        simp only [Bool.and_eq_true, isContinuation_iff] at hx
        simp only [Option.map_eq_some_iff, Prod.mk.injEq] at h
        obtain ⟨c', hc, rfl, rfl⟩ := h
        obtain ⟨hl, hv⟩ := scalar?_eq_some hc
        simp only [payload] at hl hv
        rw [if_neg (by omega), if_neg (by omega), if_neg (by omega)]
        simp only [List.take_succ_cons, List.take_zero, List.cons.injEq, and_true]
        exact ⟨ofNat_eq_of_eq_toNat (by omega), ofNat_eq_of_eq_toNat (by omega),
          ofNat_eq_of_eq_toNat (by omega), ofNat_eq_of_eq_toNat (by omega)⟩
      · simp at h
    · simp at h
  · simp at h

end Symbol

namespace Text

theorem ofSymbols_symbolsAfter (done : List Symbol) (skip : Nat) (t : Text) :
    ofSymbols (symbolsAfter done skip t) = ofSymbols done.reverse ++ t.drop skip := by
  induction t generalizing done skip with
  | nil => cases skip <;> simp [symbolsAfter]
  | cons b t ih =>
    cases skip with
    | succ skip => simp [symbolsAfter, ih]
    | zero =>
      simp only [symbolsAfter]
      split
      · rename_i c more h
        rw [ih]
        simp [ofSymbols, Symbol.bytes, Symbol.bytes_of_leading? h]
      · rw [ih]
        simp [ofSymbols, Symbol.bytes]

/-- The symbols of a text give the text back. -/
theorem ofSymbols_symbols (t : Text) : ofSymbols t.symbols = t := by
  rw [symbols, ofSymbols_symbolsAfter]
  simp [ofSymbols]

end Text

end Disassembly
