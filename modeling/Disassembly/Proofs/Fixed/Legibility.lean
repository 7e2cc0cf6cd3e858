import Disassembly.Proofs.Fixed.Translation
import Disassembly.Proofs.Fixed.Wires
import Disassembly.Proofs.Template.Separated

/-!
# What the text of a 32-bit word tells

The text of a word that an operation was found for tells the operation, by its first word
(`OpcodeTable.finds_of_firstWord`), and with it the bits that the operation fixes. The operands come
apart at the commas, so they tell the components that are shown (`Instruction.textWith_eq_iff`), and
with them the bits that the components are wired to. What is left over is known for every operation
(`Operation.Ignores`): that there is nothing else is a matter of the formats and of the list of
operations, and of no particular word (`Operation.legible_of_mem`).
-/

namespace Disassembly

open Text

/-! ## Words and operands in a text -/

namespace Text

/-- What stands before the first space. -/
def firstWord (t : Text) : Text := t.takeWhile (· != 0x20)

theorem firstWord_append {t u : Text} (ht : 0x20 ∉ t) (hu : ∀ b ∈ u.head?, b = 0x20) :
    firstWord (t ++ u) = t := by
  apply takeWhile_append_of_head
  · intro b hb
    simpa using fun h : b = 0x20 => ht (h ▸ hb)
  · intro b hb
    simpa using hu b hb

/-- Operands between commas can be told from each other. -/
theorem eq_of_joinWith_eq {ts us : List Text} (hlength : ts.length = us.length)
    (hts : ∀ t ∈ ts, ∀ b ∈ t, isOperandByte b = true)
    (hus : ∀ u ∈ us, ∀ b ∈ u, isOperandByte b = true)
    (h : joinWith ", " ts = joinWith ", " us) : ts = us := by
  have hcomma (t : Text) : Breaks (", " ++ t) := by
    intro b hb
    obtain rfl : 0x2C = b := Option.some.inj hb
    decide
  induction ts generalizing us with
  | nil => exact (List.length_eq_zero_iff.mp hlength.symm).symm
  | cons t ts ih =>
    match ts, us with
    | [], [u] => simpa [joinWith] using h
    | t' :: ts, u :: u' :: us =>
      obtain ⟨ht, hts'⟩ := List.forall_mem_cons.mp hts
      obtain ⟨hu, hus'⟩ := List.forall_mem_cons.mp hus
      rw [joinWith, joinWith, List.intercalate_cons_cons, List.intercalate_cons_cons,
        List.append_assoc, List.append_assoc] at h
      obtain ⟨rfl, hrest⟩ := append_inj_of_breaks ht hu (hcomma _) (hcomma _) h
      rw [ih (Nat.succ.inj hlength) hts' hus' (List.append_cancel_left hrest)]

end Text

/-! ## Instructions -/

namespace Component

/-- How a component is shown. -/
def operand : Component → Operand
  | .rd | .rs1 | .rs2 => .register
  | _ => .unsigned

/-- The text of a component tells all of it. -/
theorem eq_of_format_eq {c : Component} {u v : BitVec 32}
    (h : c.operand.format u = c.operand.format v) : u = v := by
  refine BitVec.eq_of_getLsbD_eq fun b _ => Operand.getLsbD_of_format_eq h ?_
  cases c <;> trivial

end Component

/-- The components that are shown for a kind of operands. -/
def Operands.shown : Operands → Format → List Component
  | .none, _ => []
  | _, .r => [.rd, .rs1, .rs2]
  | .format, .i => [.rd, .rs1, .imm]
  | .shift, .i => [.rd, .rs1, .amount]
  | _, .s | _, .sb => [.rs1, .rs2, .imm]
  | _, .u | _, .uj => [.rd, .imm]
  | _, .unknown _ => []

namespace Instruction

theorem operandTexts_eq (inst : Instruction) {operands : Operands} (h : operands ≠ .none) :
    inst.operandTexts operands =
      (operands.shown inst.format).map fun c => c.operand.format (inst.component c) := by
  have hregister (v : BitVec 8) : (v.setWidth 32).toNat = v.toNat :=
    BitVec.toNat_setWidth_of_le (by decide)
  cases operands with
  | none => exact absurd rfl h
  | format | shift =>
    rw [operandTexts]
    cases inst.format <;>
      simp only [Operands.shown, List.map_cons, List.map_nil, Component.operand, Operand.format,
        component, hregister, reduceCtorEq, if_true, if_false]

theorem isOperandByte_operandTexts (inst : Instruction) {operands : Operands}
    (h : operands ≠ .none) :
    ∀ t ∈ inst.operandTexts operands, ∀ b ∈ t, isOperandByte b = true := by
  rw [inst.operandTexts_eq h]
  intro t ht
  obtain ⟨c, -, rfl⟩ := List.mem_map.mp ht
  exact Operand.isOperandByte_format _ _

/-- The first word of an instruction is its name. -/
theorem firstWord_textWith (inst : Instruction) {name : Text} (hname : 0x20 ∉ name)
    (operands : Operands) : firstWord (inst.textWith name operands) = name := by
  have halone : firstWord name = name := by
    simpa using firstWord_append hname (u := []) (by simp)
  rw [textWith]
  split
  · exact halone
  · split
    · exact halone
    · rw [padRight, List.append_assoc, List.append_assoc]
      apply firstWord_append hname
      cases mnemonicWidth - name.symbolCount <;> exact fun b hb => (Option.some.inj hb).symm

/-- Under the same name, two instructions of a format have the same text if all components that are
shown are the same. -/
theorem textWith_eq_iff {inst inst' : Instruction} (hformat : inst'.format = inst.format)
    (name : Text) (operands : Operands) :
    inst.textWith name operands = inst'.textWith name operands ↔
      ∀ c ∈ operands.shown inst.format, inst.component c = inst'.component c := by
  by_cases hnone : operands = .none
  · subst hnone
    simp [textWith, Operands.shown]
  have htexts := inst.operandTexts_eq hnone
  have htexts' := inst'.operandTexts_eq hnone
  rw [hformat] at htexts'
  constructor
  · intro h c hc
    have hne (f : Component → Text) : (operands.shown inst.format).map f ≠ [] :=
      List.ne_nil_of_mem (List.mem_map_of_mem hc)
    rw [textWith_of_ne_nil hnone (htexts ▸ hne _), textWith_of_ne_nil hnone (htexts' ▸ hne _)] at h
    have hsame := eq_of_joinWith_eq (by rw [htexts, htexts', List.length_map, List.length_map])
      (inst.isOperandByte_operandTexts hnone) (inst'.isOperandByte_operandTexts hnone)
      (List.append_cancel_left h)
    rw [htexts, htexts', List.map_inj_left] at hsame
    exact Component.eq_of_format_eq (hsame c hc)
  · intro h
    have hsame : inst.operandTexts operands = inst'.operandTexts operands := by
      rw [htexts, htexts']
      exact List.map_congr_left fun c hc => by rw [h c hc]
    rw [textWith, textWith, hsame]

end Instruction

/-! ## Bits -/

namespace Carries

variable {wires : List (Nat × Nat)} {w w' : BitVec 32} {n : Nat} {v v' : BitVec n}

/-- Where no two wires meet, each bit that is carried arrives as it was. -/
theorem getLsbD_eq (h : Carries wires w v) (hnodup : (wires.map Prod.fst).Nodup) {b i : Nat}
    (hmem : (b, i) ∈ wires) : v.getLsbD b = w.getLsbD i := by
  rw [Bool.eq_iff_iff, h b]
  constructor
  · rintro ⟨j, hj, hw⟩
    have hsame : (b, j) = (b, i) := List.inj_on_of_nodup_map hnodup hj hmem rfl
    rwa [← (Prod.mk.inj hsame).2]
  · exact fun hw => ⟨i, hmem, hw⟩

/-- Two words that carry the same value are those with the same bits at the wires. -/
theorem eq_iff (h : Carries wires w v) (h' : Carries wires w' v')
    (hnodup : (wires.map Prod.fst).Nodup) :
    v = v' ↔ ∀ i ∈ wires.map Prod.snd, w.getLsbD i = w'.getLsbD i := by
  constructor
  · rintro rfl i hi
    obtain ⟨⟨b, j⟩, hmem, rfl⟩ := List.mem_map.mp hi
    rw [← h.getLsbD_eq hnodup hmem, h'.getLsbD_eq hnodup hmem]
  · intro hbits
    refine BitVec.eq_of_getLsbD_eq fun b _ => ?_
    rw [Bool.eq_iff_iff, h b, h' b]
    refine exists_congr fun i => and_congr_right fun hmem => ?_
    rw [hbits i (List.mem_map_of_mem hmem)]

end Carries

theorem bitsBetween_eq_iff (w w' : BitVec 32) (high low : Nat) :
    bitsBetween w high low = bitsBetween w' high low ↔
      ∀ i, low ≤ i → i ≤ high → w.getLsbD i = w'.getLsbD i := by
  rw [bitsBetween, bitsBetween, BitVec.toNat_inj]
  constructor
  · intro h i hlow hhigh
    have hbit := congrArg (BitVec.getLsbD · (i - low)) h
    simpa [BitVec.getLsbD_extractLsb', show i - low < high + 1 - low by omega,
      show low + (i - low) = i by omega] using hbit
  · intro h
    refine BitVec.eq_of_getLsbD_eq fun b hb => ?_
    rw [BitVec.getLsbD_extractLsb', BitVec.getLsbD_extractLsb', h _ (by omega) (by omega)]

namespace Operation

/-- The ranges of bits that an operation fixes, each from its highest bit to its lowest. -/
def fixedRanges (o : Operation) : List (Nat × Nat) :=
  (6, 0) :: match o.selector with
    | .opcode => []
    | .funct3 _ => [(14, 12)]
    | .funct7 _ _ => [(14, 12), if o.opcode = 0x2F then (31, 27) else (31, 25)]
    | .constant _ _ => [(14, 12), (31, 20)]

/-- An operation fixes a bit. -/
def Fixes (o : Operation) (i : Nat) : Prop := ∃ r ∈ o.fixedRanges, r.2 ≤ i ∧ i ≤ r.1

instance (o : Operation) (i : Nat) : Decidable (o.Fixes i) :=
  inferInstanceAs (Decidable (∃ r ∈ o.fixedRanges, _))

/-- The fixed bits of an operation stand in the words that have the same bits there as one word in
which they stand. -/
theorem FixedIn.iff_of_fixedIn {o : Operation} {w : BitVec 32} (h : o.FixedIn w) (w' : BitVec 32) :
    o.FixedIn w' ↔ ∀ i, o.Fixes i → w.getLsbD i = w'.getLsbD i := by
  have hranges : o.FixedIn w' ↔
      ∀ r ∈ o.fixedRanges, bitsBetween w r.1 r.2 = bitsBetween w' r.1 r.2 := by
    rw [FixedIn] at h ⊢
    rw [fixedRanges]
    by_cases hordered : o.opcode = 0x2F <;> cases hs : o.selector <;>
      simp only [hs, hordered, if_true, if_false] at h ⊢ <;> simp [h, eq_comm]
  rw [hranges]
  simp only [bitsBetween_eq_iff, Fixes]
  constructor
  · rintro h i ⟨r, hr, hlow, hhigh⟩
    exact h r hr i hlow hhigh
  · exact fun h r hr i hlow hhigh => h i ⟨r, hr, hlow, hhigh⟩

/-- The bits that the text of an operation does not show: those that ask for memory ordering, and
the registers of an operation that is shown without operands. -/
def Ignores (o : Operation) (i : Nat) : Prop :=
  (o.opcode = 0x2F ∧ 25 ≤ i ∧ i ≤ 26) ∨
    (o.operands = .none ∧ (7 ≤ i ∧ i ≤ 11 ∨ 15 ≤ i ∧ i ≤ 19))

instance (o : Operation) (i : Nat) : Decidable (o.Ignores i) := inferInstanceAs (Decidable (_ ∨ _))

/-- All bits but the ignored ones are fixed or belong to a component that is shown, and no two bits
of the word meet in a component. -/
def Legible (o : Operation) : Prop :=
  ∃ m ∈ MajorOpcode.find? o.opcode,
    (∀ c ∈ o.operands.shown m.format, ((m.format.wires c).map Prod.fst).Nodup) ∧
    ∀ i < 32, ¬ o.Ignores i ↔
      o.Fixes i ∨ ∃ c ∈ o.operands.shown m.format, i ∈ (m.format.wires c).map Prod.snd

instance (o : Operation) : Decidable o.Legible :=
  inferInstanceAs (Decidable (∃ m ∈ MajorOpcode.find? o.opcode, _ ∧ _))

theorem legible_of_mem : ∀ o ∈ all, o.Legible := by
  decide +kernel

end Operation

namespace OpcodeTable

/-- A word can be an instruction, its opcode has a format, and the operation is found for it. -/
structure Finds (t : OpcodeTable) (w : BitVec 32) (o : Operation) : Prop where
  legal : isIllegal w = false
  found : ∃ f, t.format? (majorOpcodeOf w) = some f ∧
    t.lookup (Instruction.decode w f (majorOpcodeOf w)) = some o

variable {ss : List Standard} {w w' : BitVec 32} {o : Operation}

/-- An illegal word has an opcode that no operation has. -/
theorem isIllegal_eq_false_of_agrees (ho : o ∈ Operation.all) (hw : o.Agrees w) :
    isIllegal w = false := by
  have hopcode : ∀ o ∈ Operation.all, o.opcode ≠ 0 ∧ o.opcode ≠ 0x7F := by decide
  obtain ⟨hzero, hones⟩ := hopcode o ho
  rw [hw.1] at hzero hones
  rw [isIllegal, Bool.or_eq_false_iff, decide_eq_false_iff_not, decide_eq_false_iff_not]
  constructor
  · intro hlow
    apply hzero
    have hmask : (0x7F : BitVec 32) = 0xFFFF &&& 0x7F := by decide
    rw [majorOpcodeOf, hmask, ← BitVec.and_assoc, hlow]
    rfl
  · rintro rfl
    exact hones (by decide)

/-- An operation is found for the words that its fixed bits stand in. -/
theorem finds_iff : (ofStandards ss).Finds w o ↔ o ∈ (ofStandards ss).ops ∧ o.FixedIn w := by
  constructor
  · rintro ⟨-, f, hf, hlookup⟩
    obtain ⟨ho, hw⟩ := agrees_of_lookup hf hlookup
    exact ⟨ho, (Operation.agrees_iff_fixedIn (mem_all_of_mem_ops ho) w).mp hw⟩
  · rintro ⟨ho, hw⟩
    have hall := mem_all_of_mem_ops ho
    rw [← Operation.agrees_iff_fixedIn hall] at hw
    exact ⟨isIllegal_eq_false_of_agrees hall hw, lookup_of_agrees ho hw⟩

/-- A word is shown decoded by the format of its opcode, under the name of its operation. -/
theorem Finds.textOf_eq (h : (ofStandards ss).Finds w o) {m : MajorOpcode}
    (hm : MajorOpcode.find? o.opcode = some m) :
    (ofStandards ss).textOf w =
      (Instruction.decode w m.format o.opcode).textWith o.name o.operands := by
  obtain ⟨hlegal, f, hf, hlookup⟩ := h
  obtain ⟨ho, hw⟩ := agrees_of_lookup hf hlookup
  rw [← hw.1] at hf hlookup
  obtain rfl : m.format = f := by
    rw [format?_eq ho, hm] at hf
    exact Option.some.inj hf
  simp [textOf, hlegal, ← hw.1, hf, hlookup, Instruction.assembly]

/-- The name of an operation has no space, and is none of the first words of what is shown for words
without an operation. -/
theorem name_of_mem : ∀ o ∈ Operation.all, 0x20 ∉ o.name ∧
    o.name ≠ illegalText ∧ o.name ≠ unknownName ∧ o.name ≠ ofString "(op" := by
  decide +kernel

theorem nodup_names : (Operation.all.map Operation.name).Nodup := by
  decide +kernel

/-- The first word of what is shown tells the operation. -/
theorem finds_of_firstWord (ho : o ∈ (ofStandards ss).ops)
    (h : firstWord ((ofStandards ss).textOf w) = o.name) : (ofStandards ss).Finds w o := by
  have hall := mem_all_of_mem_ops ho
  obtain ⟨-, hillegal, hunknown, hopcode⟩ := name_of_mem o hall
  rw [textOf] at h
  by_cases hlegal : isIllegal w = true
  · rw [if_pos hlegal] at h
    exact absurd h.symm hillegal
  · rw [if_neg hlegal] at h
    rcases hf : (ofStandards ss).format? (majorOpcodeOf w) with _ | f
    · simp only [hf, List.append_assoc] at h
      have hlead : ofString "(op = " = ofString "(op" ++ 0x20 :: ofString "= " := rfl
      rw [hlead, List.append_assoc, firstWord_append (by decide) (by simp)] at h
      exact absurd h.symm hopcode
    · simp only [hf] at h
      rcases hlookup : (ofStandards ss).lookup (Instruction.decode w f (majorOpcodeOf w)) with _ | p
      · rw [hlookup, Instruction.assembly, Instruction.firstWord_textWith _ (by decide)] at h
        exact absurd h.symm hunknown
      · have hp := mem_all_of_mem_ops (agrees_of_lookup hf hlookup).1
        rw [hlookup, Instruction.assembly,
          Instruction.firstWord_textWith _ (name_of_mem p hp).1] at h
        obtain rfl := List.inj_on_of_nodup_map nodup_names hp hall h
        exact ⟨by simpa using hlegal, f, hf, hlookup⟩

/-- For two words with the same operation, the components that are shown decide whether the texts
are the same. -/
theorem Finds.textOf_eq_iff (h : (ofStandards ss).Finds w o) (h' : (ofStandards ss).Finds w' o)
    {m : MajorOpcode} (hm : MajorOpcode.find? o.opcode = some m)
    (hnodup : ∀ c ∈ o.operands.shown m.format, ((m.format.wires c).map Prod.fst).Nodup) :
    (ofStandards ss).textOf w = (ofStandards ss).textOf w' ↔
      ∀ c ∈ o.operands.shown m.format, ∀ i ∈ (m.format.wires c).map Prod.snd,
        w.getLsbD i = w'.getLsbD i := by
  have hformat (v : BitVec 32) := Instruction.format_decode v m.format o.opcode
  rw [h.textOf_eq hm, h'.textOf_eq hm,
    Instruction.textWith_eq_iff ((hformat w').trans (hformat w).symm), hformat w]
  refine forall_congr' fun c => forall_congr' fun hc => ?_
  exact (Instruction.carries_component w m.format o.opcode c).eq_iff
    (Instruction.carries_component w' m.format o.opcode c) (hnodup c hc)

/-- **The text of a word loses the ignored bits and nothing else.** If an operation is found for a
word, then it is found for every word with the same text; and the words with the same text are those
that agree with it in all bits but the ignored ones: the two that ask for memory ordering, if the
operation is atomic, and those of the registers, if the operation is shown without operands. -/
theorem textOf_loses_ignored_bits_only (ss : List Standard) {w : BitVec 32} {o : Operation}
    (h : (ofStandards ss).Finds w o) (w' : BitVec 32) :
    ((ofStandards ss).textOf w = (ofStandards ss).textOf w' → (ofStandards ss).Finds w' o) ∧
    ((ofStandards ss).textOf w = (ofStandards ss).textOf w' ↔
      ∀ i < 32, ¬ o.Ignores i → w.getLsbD i = w'.getLsbD i) := by
  obtain ⟨ho, hfixed⟩ := finds_iff.mp h
  have hall := mem_all_of_mem_ops ho
  obtain ⟨m, hm, hnodup, hbits⟩ := Operation.legible_of_mem o hall
  have hfinds : (ofStandards ss).textOf w = (ofStandards ss).textOf w' →
      (ofStandards ss).Finds w' o := by
    intro hsame
    apply finds_of_firstWord ho
    rw [← hsame, h.textOf_eq hm, Instruction.firstWord_textWith _ (name_of_mem o hall).1]
  refine ⟨hfinds, ?_, ?_⟩
  · intro hsame i hi hshows
    have h' := hfinds hsame
    rcases (hbits i hi).mp hshows with hfix | ⟨c, hc, hwire⟩
    · exact (hfixed.iff_of_fixedIn w').mp (finds_iff.mp h').2 i hfix
    · exact (h.textOf_eq_iff h' hm hnodup).mp hsame c hc i hwire
  · intro hagree
    -- beyond the word there are no bits that could differ
    have hbit (i : Nat) (hi : i < 32 → ¬ o.Ignores i) : w.getLsbD i = w'.getLsbD i := by
      by_cases hlt : i < 32
      · exact hagree i hlt (hi hlt)
      · rw [BitVec.getLsbD_of_ge w i (by omega), BitVec.getLsbD_of_ge w' i (by omega)]
    have h' : (ofStandards ss).Finds w' o := finds_iff.mpr ⟨ho, (hfixed.iff_of_fixedIn w').mpr
      fun i hfix => hbit i fun hi => (hbits i hi).mpr (.inl hfix)⟩
    rw [h.textOf_eq_iff h' hm hnodup]
    exact fun c hc i hwire => hbit i fun hi => (hbits i hi).mpr (.inr ⟨c, hc, hwire⟩)

/-- An atomic addition with and without a request for memory ordering, told from another atomic
operation; and a return with any bits in the place of its registers. -/
theorem textOf_loses_ignored_bits_only_atomic :
    let t := ofStandards [.rv32a, .rv32s]
    let add := Operation.atomic "amoadd.w" 0b00000
    let ret := Operation.constant .rv32s "mret" 0x73 0b000 0x302
    (t.Finds 0x0020A1AF add ∧ t.textOf 0x0020A1AF = t.textOf 0x0620A1AF ∧
      t.Finds 0x0620A1AF add ∧ t.textOf 0x0020A1AF ≠ t.textOf 0x0820A1AF) ∧
    t.Finds 0x30200073 ret ∧ t.textOf 0x30200073 = t.textOf 0x302F8FF3 := by
  intro t add ret
  have hadd : t.Finds 0x0020A1AF add :=
    finds_iff.mpr ⟨by decide, by decide, by decide, by decide⟩
  have hret : t.Finds 0x30200073 ret :=
    finds_iff.mpr ⟨by decide, by decide, by decide, by decide⟩
  have hshown := textOf_loses_ignored_bits_only [.rv32a, .rv32s] hadd
  have hordering : t.textOf 0x0020A1AF = t.textOf 0x0620A1AF := (hshown _).2.mpr (by decide)
  refine ⟨⟨hadd, hordering, (hshown _).1 hordering, fun hsame => ?_⟩, hret, ?_⟩
  · have hbit := (hshown _).2.mp hsame 27 (by decide) (by decide)
    revert hbit
    decide
  · exact (textOf_loses_ignored_bits_only [.rv32a, .rv32s] hret _).2.mpr (by decide)

end OpcodeTable

end Disassembly
