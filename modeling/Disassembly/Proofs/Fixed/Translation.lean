import Disassembly.Fixed.Assembly
import Disassembly.Proofs.Fixed.Selection
import Disassembly.Proofs.Text.Column

/-!
# The text of a 32-bit word by its fixed bits

What the fixed decoder shows for a word is settled by which operations of its standards have their
fixed bits in the word, in whatever order the standards are given:

* `Operation.FixedIn` compares the bits of a word with an operation, as numbers; it comes to the
  same as `Operation.Agrees` for every operation there is (`Operation.agrees_iff_fixedIn`);
* `Instruction.Written` says how an instruction is written, format by format, and that is how it is
  shown (`Instruction.written_textWith`);
* `OpcodeTable.Selected` says which operations the standards select;
* `OpcodeTable.textOf_of_agrees`, `OpcodeTable.textOf_of_opcode`, `OpcodeTable.textOf_of_no_opcode`
  are the three things that can be shown: an operation, an unknown operation of a known format, and
  an unknown opcode.
-/

namespace Disassembly

open Text

/-- The bits of a word from the index `high` down to the index `low`, as a number. -/
def bitsBetween (w : BitVec 32) (high low : Nat) : Nat :=
  (w.extractLsb' low (high + 1 - low)).toNat

namespace Operation

/-- The fixed bits of an operation stand in a word: its opcode and the parts that it is selected by.
For atomic memory operations the two low bits of the function code of seven are left out. -/
def FixedIn (o : Operation) (w : BitVec 32) : Prop :=
  bitsBetween w 6 0 = o.opcode.toNat ∧
    match o.selector with
    | .opcode => True
    | .funct3 f3 => bitsBetween w 14 12 = f3.toNat
    | .funct7 f3 f7 =>
      bitsBetween w 14 12 = f3.toNat ∧
        if o.opcode = 0x2F then bitsBetween w 31 27 = f7.toNat / 4
        else bitsBetween w 31 25 = f7.toNat
    | .constant f3 imm => bitsBetween w 14 12 = f3.toNat ∧ bitsBetween w 31 20 = imm.toNat

/-! ## Fixed bits as numbers -/

theorem eq_setWidth_iff {m n : Nat} (h : m ≤ n) (v : BitVec n) (x : BitVec m) :
    v = x.setWidth n ↔ x.toNat = v.toNat := by
  rw [← BitVec.toNat_inj, BitVec.toNat_setWidth_of_le h, eq_comm]

theorem isOrdered_eq (opcode : BitVec 8) :
    MajorOpcode.isOrdered opcode = decide (opcode = 0x2F) := by
  revert opcode
  decide +kernel

/-- Without its two low bits a code is the greatest multiple of four below it. -/
theorem toNat_and_not_three (v : BitVec 8) : (v &&& ~~~3).toNat = 4 * (v.toNat / 4) := by
  revert v
  decide

theorem bitsBetween_div_four (w : BitVec 32) : bitsBetween w 31 25 / 4 = bitsBetween w 31 27 := by
  simp only [bitsBetween, BitVec.extractLsb'_toNat, Nat.shiftRight_eq_div_pow]
  omega

theorem eq_funct7Of_iff {o : Operation} {f7 : BitVec 8}
    (hlow : o.opcode = 0x2F → f7 &&& ~~~3 = f7) (w : BitVec 32) :
    f7 = funct7Of o.opcode w ↔
      if o.opcode = 0x2F then bitsBetween w 31 27 = f7.toNat / 4
      else bitsBetween w 31 25 = f7.toNat := by
  rw [funct7Of, isOrdered_eq]
  by_cases h : o.opcode = 0x2F
  · have hmul : f7.toNat = 4 * (f7.toNat / 4) := by
      rw [← toNat_and_not_three, hlow h]
    rw [if_pos (decide_eq_true h), if_pos h, ← BitVec.toNat_inj, toNat_and_not_three,
      BitVec.toNat_setWidth_of_le (by decide), ← bitsBetween_div_four]
    change f7.toNat = 4 * (bitsBetween w 31 25 / 4) ↔ _
    omega
  · rw [if_neg (by simpa using h), if_neg h]
    exact eq_setWidth_iff (by decide) _ _

/-- An operation agrees with the words that its fixed bits stand in. -/
theorem agrees_iff_fixedIn {o : Operation} (ho : o ∈ all) (w : BitVec 32) :
    o.Agrees w ↔ o.FixedIn w := by
  obtain ⟨m, hm, -, hordered⟩ := coherent_of_mem o ho
  have hlow : o.opcode = 0x2F → o.selector.funct7Value &&& ~~~3 = o.selector.funct7Value := by
    intro h
    have hkind : MajorOpcode.isOrdered o.opcode = m.ordered := by
      rw [MajorOpcode.isOrdered, show MajorOpcode.find? o.opcode = some m from hm]
      rfl
    rw [isOrdered_eq, decide_eq_true h] at hkind
    exact (hordered hkind.symm).2
  rw [Agrees, majorOpcodeOf_eq]
  refine and_congr (eq_setWidth_iff (by decide) _ _) ?_
  cases hs : o.selector with
  | opcode => exact Iff.rfl
  | funct3 f3 => exact eq_setWidth_iff (by decide) _ _
  | funct7 f3 f7 =>
    rw [hs] at hlow
    exact and_congr (eq_setWidth_iff (by decide) _ _) (eq_funct7Of_iff hlow w)
  | constant f3 imm =>
    exact and_congr (eq_setWidth_iff (by decide) _ _) (eq_setWidth_iff (by decide) _ _)

end Operation

/-! ## How an instruction is written -/

namespace Instruction

/-- A name in the column of names, which is eight symbols wide, and the space after the column. -/
def column (name : Text) : Text := name ++ spaces (8 - name.symbolCount) ++ " "

/-- How an instruction is written under a name with a kind of operands: the name alone, or the name
in its column and then the operands of the format between commas. Registers are written by their
numbers and immediates in hexadecimal. -/
inductive Written (inst : Instruction) (name : Text) (operands : Operands) : Text → Prop
  /-- the name alone -/
  | alone (h : operands = .none) : Written inst name operands name
  /-- format R -/
  | registers (h : operands ≠ .none) (hf : inst.format = .r) :
      Written inst name operands
        (column name ++ "x" ++ decimal inst.rd.toNat ++ ", x" ++ decimal inst.rs1.toNat ++
          ", x" ++ decimal inst.rs2.toNat)
  /-- format I -/
  | immediate (h : operands = .format) (hf : inst.format = .i) :
      Written inst name operands
        (column name ++ "x" ++ decimal inst.rd.toNat ++ ", x" ++ decimal inst.rs1.toNat ++
          ", 0x" ++ hex inst.imm.toNat)
  /-- format I, of whose immediate the five low bits are an amount to shift by -/
  | amount (h : operands = .shift) (hf : inst.format = .i) :
      Written inst name operands
        (column name ++ "x" ++ decimal inst.rd.toNat ++ ", x" ++ decimal inst.rs1.toNat ++
          ", 0x" ++ hex (inst.imm.toNat % 32))
  /-- formats S and SB -/
  | sources (h : operands ≠ .none) (hf : inst.format = .s ∨ inst.format = .sb) :
      Written inst name operands
        (column name ++ "x" ++ decimal inst.rs1.toNat ++ ", x" ++ decimal inst.rs2.toNat ++
          ", 0x" ++ hex inst.imm.toNat)
  /-- formats U and UJ -/
  | upper (h : operands ≠ .none) (hf : inst.format = .u ∨ inst.format = .uj) :
      Written inst name operands
        (column name ++ "x" ++ decimal inst.rd.toNat ++ ", 0x" ++ hex inst.imm.toNat)

/-- There is only one way to write an instruction. -/
theorem Written.unique {inst : Instruction} {name : Text} {operands : Operands} {t u : Text}
    (ht : inst.Written name operands t) (hu : inst.Written name operands u) : t = u := by
  cases ht <;> cases hu <;> grind

theorem padRight_mnemonicWidth (name : Text) :
    name.padRight mnemonicWidth ++ " " = column name := by
  rw [padRight_eq]
  rfl

theorem textWith_of_ne_nil {inst : Instruction} {operands : Operands} (h : operands ≠ .none)
    (hne : inst.operandTexts operands ≠ []) (name : Text) :
    inst.textWith name operands = column name ++ joinWith ", " (inst.operandTexts operands) := by
  rw [textWith, if_neg h, ← padRight_mnemonicWidth]
  split
  · contradiction
  · rfl

theorem operandTexts_ne_nil {inst : Instruction} (hf : inst.format ∈ Format.known)
    (operands : Operands) : inst.operandTexts operands ≠ [] := by
  simp only [Format.known, List.mem_cons, List.not_mem_nil, or_false] at hf
  rw [operandTexts]
  rcases hf with hf | hf | hf | hf | hf | hf <;> rw [hf] <;> exact List.cons_ne_nil _ _

theorem joinWith_two (a b : Text) : joinWith ", " [a, b] = a ++ ", " ++ b := by
  simp [joinWith, List.intercalate]

theorem joinWith_three (a b c : Text) :
    joinWith ", " [a, b, c] = a ++ ", " ++ b ++ ", " ++ c := by
  simp [joinWith, List.intercalate]

/-- An instruction of a known format is written as it should be. -/
theorem written_textWith {inst : Instruction} (hf : inst.format ∈ Format.known) (name : Text)
    (operands : Operands) : inst.Written name operands (inst.textWith name operands) := by
  by_cases hnone : operands = .none
  · rw [textWith, if_pos hnone]
    exact .alone hnone
  have hamount : inst.imm.toNat &&& 31 = inst.imm.toNat % 32 :=
    Nat.and_two_pow_sub_one_eq_mod inst.imm.toNat 5
  -- the comma before an operand and the letters that it begins with are one text in the rules
  have hregister : (", " : Text) ++ "x" = ", x" := rfl
  have hnumber : (", " : Text) ++ "0x" = ", 0x" := rfl
  rw [textWith_of_ne_nil hnone (operandTexts_ne_nil hf operands), operandTexts]
  simp only [Format.known, List.mem_cons, List.not_mem_nil, or_false] at hf
  rcases hf with hf | hf | hf | hf | hf | hf <;> rw [hf] <;> dsimp only
  · have hrule : inst.Written name operands _ := .registers hnone hf
    rw [joinWith_three]
    simpa [registerName, ← hregister] using hrule
  · rw [joinWith_three]
    cases operands with
    | none => contradiction
    | format =>
      have hrule : inst.Written name .format _ := .immediate rfl hf
      simpa [registerName, unsignedHex, ← hregister, ← hnumber] using hrule
    | shift =>
      have hrule : inst.Written name .shift _ := .amount rfl hf
      simpa [registerName, unsignedHex, hamount, ← hregister, ← hnumber] using hrule
  · have hrule : inst.Written name operands _ := .sources hnone (.inl hf)
    rw [joinWith_three]
    simpa [registerName, unsignedHex, ← hregister, ← hnumber] using hrule
  · have hrule : inst.Written name operands _ := .sources hnone (.inr hf)
    rw [joinWith_three]
    simpa [registerName, unsignedHex, ← hregister, ← hnumber] using hrule
  · have hrule : inst.Written name operands _ := .upper hnone (.inl hf)
    rw [joinWith_two]
    simpa [registerName, unsignedHex, ← hnumber] using hrule
  · have hrule : inst.Written name operands _ := .upper hnone (.inr hf)
    rw [joinWith_two]
    simpa [registerName, unsignedHex, ← hnumber] using hrule

end Instruction

namespace OpcodeTable

/-- The operations of given standards, or all operations if none are given. -/
def Selected (ss : List Standard) (o : Operation) : Prop :=
  o ∈ Operation.all ∧ (ss = [] ∨ o.standard ∈ ss)

theorem mem_ops_iff (ss : List Standard) (o : Operation) :
    o ∈ (ofStandards ss).ops ↔ Selected ss o := by
  simp [ofStandards, Selected, List.mem_filter]

/-- Only the set of standards counts. -/
theorem ofStandards_congr {ss ss' : List Standard} (h : ∀ s, s ∈ ss' ↔ s ∈ ss) :
    ofStandards ss' = ofStandards ss := by
  have hempty : ss' = [] ↔ ss = [] := by
    simp only [List.eq_nil_iff_forall_not_mem, h]
  rw [ofStandards, ofStandards, OpcodeTable.mk.injEq]
  refine List.filter_congr fun o _ => ?_
  rw [Bool.eq_iff_iff]
  simp [hempty, h]

/-! ## What is shown -/

section Text

variable {ss : List Standard} {w : BitVec 32} (hlegal : isIllegal w = false)

/-- The opcode of an operation is known, and so is its format. -/
theorem exists_format?_eq {o : Operation} (ho : o ∈ (ofStandards ss).ops)
    (hopcode : o.opcode = majorOpcodeOf w) :
    ∃ m ∈ MajorOpcode.all, m.number = majorOpcodeOf w ∧
      (ofStandards ss).format? (majorOpcodeOf w) = some m.format := by
  obtain ⟨m, hm, -⟩ := Operation.coherent_of_mem o (mem_all_of_mem_ops ho)
  have hfind : MajorOpcode.find? o.opcode = some m := hm
  refine ⟨m, List.mem_of_find?_eq_some hfind, ?_, ?_⟩
  · rw [← hopcode]
    simpa using List.find?_some hfind
  · rw [← hopcode, format?_eq ho, hfind]
    rfl

include hlegal

theorem textOf_of_format? {m : MajorOpcode} (hnumber : m.number = majorOpcodeOf w)
    (hf : (ofStandards ss).format? (majorOpcodeOf w) = some m.format) :
    (ofStandards ss).textOf w =
      (Instruction.decode w m.format m.number).assembly
        ((ofStandards ss).lookup (Instruction.decode w m.format m.number)) := by
  simp [textOf, hlegal, hf, hnumber]

theorem textOf_of_agrees {o : Operation} (ho : o ∈ (ofStandards ss).ops) (hw : o.Agrees w) :
    ∃ m ∈ MajorOpcode.all, m.number = majorOpcodeOf w ∧
      (ofStandards ss).textOf w =
        (Instruction.decode w m.format m.number).textWith o.name o.operands := by
  obtain ⟨m, hm, hnumber, hf⟩ := exists_format?_eq ho hw.1
  obtain ⟨f, hf', hlookup⟩ := lookup_of_agrees ho hw
  obtain rfl : m.format = f := Option.some.inj (hf.symm.trans hf')
  refine ⟨m, hm, hnumber, ?_⟩
  rw [textOf_of_format? hlegal hnumber hf, hnumber, hlookup]
  rfl

/-- An opcode that is known, without an operation that agrees, is shown with its operands. -/
theorem textOf_of_opcode (hnone : ∀ o ∈ (ofStandards ss).ops, ¬ o.Agrees w) {o : Operation}
    (ho : o ∈ (ofStandards ss).ops) (hopcode : o.opcode = majorOpcodeOf w) :
    ∃ m ∈ MajorOpcode.all, m.number = majorOpcodeOf w ∧
      (ofStandards ss).textOf w =
        (Instruction.decode w m.format m.number).textWith unknownName .format := by
  obtain ⟨m, hm, hnumber, hf⟩ := exists_format?_eq ho hopcode
  refine ⟨m, hm, hnumber, ?_⟩
  rw [textOf_of_format? hlegal hnumber hf, hnumber]
  rcases hlookup : (ofStandards ss).lookup (Instruction.decode w m.format (majorOpcodeOf w))
    with _ | p
  · rfl
  · obtain ⟨hp, hagrees⟩ := agrees_of_lookup hf hlookup
    exact absurd hagrees (hnone p hp)

theorem textOf_of_no_opcode (hnone : ∀ o ∈ (ofStandards ss).ops, o.opcode ≠ majorOpcodeOf w) :
    (ofStandards ss).textOf w = "(op = " ++ Instruction.opcodeText (majorOpcodeOf w) ++ ")" := by
  have hf : (ofStandards ss).format? (majorOpcodeOf w) = none := by
    refine if_neg fun hany => ?_
    obtain ⟨o, ho, hopcode⟩ := List.any_eq_true.mp hany
    exact hnone o ho (by simpa using hopcode)
  simp [textOf, hlegal, hf]

end Text

theorem written_decode {m : MajorOpcode} (hm : m ∈ MajorOpcode.all) (w : BitVec 32) (name : Text)
    (operands : Operands) :
    (Instruction.decode w m.format m.number).Written name operands
      ((Instruction.decode w m.format m.number).textWith name operands) := by
  have hknown : ∀ m ∈ MajorOpcode.all, m.format ∈ Format.known := by decide
  apply Instruction.written_textWith
  rw [Instruction.format_decode]
  exact hknown m hm

/-- **The text of a word follows from the operations whose fixed bits it has.** Of the standards
only the set counts. For a word that can be an instruction, at most one selected operation has its
fixed bits there. If there is one, the decoded word is written under its name and with its kind of
operands; otherwise it is written as unknown with the operands of its format, if a selected
operation has its opcode, and shown by its opcode alone, if none has. -/
theorem textOf_by_fixed_bits (ss : List Standard) {w : BitVec 32} (hlegal : isIllegal w = false) :
    (∀ ss', (∀ s, s ∈ ss' ↔ s ∈ ss) → (ofStandards ss').textOf w = (ofStandards ss).textOf w) ∧
    (∀ o p, Selected ss o → Selected ss p → o.FixedIn w → p.FixedIn w → o = p) ∧
    (∀ o, Selected ss o → o.FixedIn w →
      ∃ m ∈ MajorOpcode.all, m.number = majorOpcodeOf w ∧
        (Instruction.decode w m.format m.number).Written o.name o.operands
          ((ofStandards ss).textOf w)) ∧
    ((∀ o, Selected ss o → ¬ o.FixedIn w) →
      ((∃ o, Selected ss o ∧ o.opcode = majorOpcodeOf w) →
        ∃ m ∈ MajorOpcode.all, m.number = majorOpcodeOf w ∧
          (Instruction.decode w m.format m.number).Written "<unk>" .format
            ((ofStandards ss).textOf w)) ∧
      ((¬ ∃ o, Selected ss o ∧ o.opcode = majorOpcodeOf w) →
        (ofStandards ss).textOf w =
          "(op = 0x" ++ Text.zeroPad 2 (Text.hex (bitsBetween w 6 0)) ++ ")")) := by
  have hagrees : ∀ o, Selected ss o → (o.Agrees w ↔ o.FixedIn w) := fun o ho =>
    Operation.agrees_iff_fixedIn ho.1 w
  refine ⟨fun ss' h => ?_, fun o p ho hp hwo hwp => ?_, fun o ho hw => ?_, fun hnone => ⟨?_, ?_⟩⟩
  · rw [ofStandards_congr h]
  · exact Operation.eq_of_agrees ho.1 hp.1 ((hagrees o ho).mpr hwo) ((hagrees p hp).mpr hwp)
  · obtain ⟨m, hm, hnumber, htext⟩ :=
      textOf_of_agrees hlegal ((mem_ops_iff ss o).mpr ho) ((hagrees o ho).mpr hw)
    refine ⟨m, hm, hnumber, ?_⟩
    rw [htext]
    exact written_decode hm w o.name o.operands
  · rintro ⟨o, ho, hopcode⟩
    have hnone' : ∀ p ∈ (ofStandards ss).ops, ¬ p.Agrees w := by
      intro p hp
      have hp := (mem_ops_iff ss p).mp hp
      rw [hagrees p hp]
      exact hnone p hp
    obtain ⟨m, hm, hnumber, htext⟩ :=
      textOf_of_opcode hlegal hnone' ((mem_ops_iff ss o).mpr ho) hopcode
    refine ⟨m, hm, hnumber, ?_⟩
    rw [htext]
    exact written_decode hm w unknownName .format
  · intro hopcode
    have hnone' : ∀ o ∈ (ofStandards ss).ops, o.opcode ≠ majorOpcodeOf w := fun o ho h =>
      hopcode ⟨o, (mem_ops_iff ss o).mp ho, h⟩
    have hnumber : (majorOpcodeOf w).toNat = bitsBetween w 6 0 := by
      rw [majorOpcodeOf_eq]
      exact BitVec.toNat_setWidth_of_le (by decide)
    have hlead : ("(op = " : Text) ++ "0x" = "(op = 0x" := rfl
    rw [textOf_of_no_opcode hlegal hnone', Instruction.opcodeText, Instruction.hexText, hnumber,
      ← List.append_assoc, hlead]

/-- An atomic addition that asks for memory ordering both ways, in a list that repeats itself. -/
theorem textOf_by_fixed_bits_atomic :
    let ss : List Standard := [.rv32a, .rv32i, .rv32a]
    let o := Operation.atomic "amoadd.w" 0b00000
    isIllegal 0x0620A1AF = false ∧ Selected ss o ∧ o.FixedIn 0x0620A1AF ∧
      (ofStandards ss).textOf 0x0620A1AF = "amoadd.w x3, x1, x2" := by
  intro ss o
  have hlegal : isIllegal 0x0620A1AF = false := by decide
  have hselected : Selected ss o := ⟨by decide, .inr (by decide)⟩
  have hfixed : o.FixedIn 0x0620A1AF := ⟨by decide, by decide, by decide⟩
  have hformat : ∀ m ∈ MajorOpcode.all, m.number = majorOpcodeOf 0x0620A1AF → m.format = .r := by
    decide
  obtain ⟨-, -, hshown, -⟩ := textOf_by_fixed_bits ss hlegal
  obtain ⟨m, hm, hnumber, hwritten⟩ := hshown o hselected hfixed
  rw [hformat m hm hnumber, hnumber] at hwritten
  have htext := hwritten.unique (.registers (by decide) rfl)
  exact ⟨hlegal, hselected, hfixed, htext.trans (by decide)⟩

end OpcodeTable

end Disassembly
