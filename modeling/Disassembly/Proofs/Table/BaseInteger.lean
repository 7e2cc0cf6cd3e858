import Disassembly.Proofs.Fixed.Wires
import Disassembly.Proofs.Listing.Decoded

/-!
# Two decoders of base integer instructions

A 32-bit word can be read by the table `Table.baseInteger`, whose entries come from descriptions, or
be taken apart by its format and looked up among the operations of RV32I. The two have nothing in
common but the bits they look at, and the comparison goes through these:

* an entry and an operation fix bits of the word (`Layout.literalBits`, `Operation.fixedBits`), and
  the one that fixes more is the more special;
* a field and a component of a decoded instruction are wired to bits of the word (`Layout.wires`,
  `Format.wires`), and the same wires carry the same value.

`Table.Parallels` lists what has to be compared, entry by entry and operation by operation. It is
decidable and about no particular word, so that `Table.baseInteger_parallels` is a matter of
computation; what it means for every word is `Table.lookup_of_parallels` and
`Table.exists_lookup_of_parallels`.
-/

namespace Disassembly

/-! ## The bits of a layout -/

namespace Layout

variable {k : Width}

/-- The bits that a layout fixes, as indices with values. -/
def literalBits (l : Layout k) : List (Nat × Bool) :=
  l.roles.zipIdx.filterMap fun
    | (.fixed b, i) => some (i, b)
    | (.part _ _, _) => none

/-- The wires of a field. -/
def wires (l : Layout k) (name : Text) : List (Nat × Nat) :=
  l.roles.zipIdx.filterMap fun
    | (.fixed _, _) => none
    | (.part n d, i) => if n = name then some (d.toNat, i) else none

theorem mem_literalBits {l : Layout k} {i : Nat} {b : Bool} :
    (i, b) ∈ l.literalBits ↔ l.roles[i]? = some (.fixed b) := by
  simp only [literalBits, List.mem_filterMap, List.mem_zipIdx_iff_getElem?, Prod.exists]
  refine ⟨?_, ?_⟩
  · rintro ⟨_ | _, j, hj, h⟩
    · simp_all
    · contradiction
  · intro h
    exact ⟨_, _, h, rfl⟩

theorem mem_wires {l : Layout k} {name : Text} {b i : Nat} :
    (b, i) ∈ l.wires name ↔ ∃ d, l.roles[i]? = some (.part name d) ∧ d.toNat = b := by
  simp only [wires, List.mem_filterMap, List.mem_zipIdx_iff_getElem?, Prod.exists]
  refine ⟨?_, ?_⟩
  · rintro ⟨_ | ⟨n, d⟩, j, hj, h⟩
    · contradiction
    · simp only [Option.ite_none_right_eq_some, Option.some.injEq, Prod.mk.injEq] at h
      obtain ⟨rfl, rfl, rfl⟩ := h
      exact ⟨d, hj, rfl⟩
  · rintro ⟨d, hi, rfl⟩
    exact ⟨_, _, hi, by simp⟩

end Layout

namespace Entry.Made

variable {e : Entry .full}

theorem matches_iff_literalBits (he : e.Made) (w : BitVec 32) :
    e.Matches w ↔ ∀ p ∈ e.layout.literalBits, w.getLsbD p.1 = p.2 := by
  rw [he.matches_iff_fixed w]
  refine ⟨?_, ?_⟩
  · rintro h ⟨i, b⟩ hp
    exact h i b (Layout.mem_literalBits.mp hp)
  · intro h i b hb
    exact h (i, b) (Layout.mem_literalBits.mpr hb)

/-- The value of a field is what its wires carry. -/
theorem carries_field (he : e.Made) {w : BitVec 32} {fs : Fields} (hfs : e.fields w = .ok fs)
    {name : Text} {v : BitVec 32} (hv : fs.get? name = some v) :
    Carries (e.layout.wires name) w v := by
  obtain ⟨fs', hfs', -, hbits⟩ := he.fields_eq_ok w
  obtain rfl : fs = fs' := by
    rw [hfs] at hfs'
    exact Except.ok.inj hfs'
  intro b
  simp only [Layout.mem_wires]
  rcases Nat.lt_or_ge b 32 with hb | hb
  · have hbit := hbits name b hb
    rw [hv, Option.getD_some] at hbit
    simp only [hbit, Layout.Feeds, Nat.zero_add]
    refine ⟨?_, ?_⟩
    · rintro ⟨i, d, hi, hd, hw⟩
      exact ⟨i, ⟨d, hi, hd⟩, hw⟩
    · rintro ⟨i, ⟨d, hi, hd⟩, hw⟩
      exact ⟨i, d, hi, hd, hw⟩
  · -- a field value ends here, and no destination lies beyond
    rw [BitVec.getLsbD_of_ge v b hb]
    simp only [Bool.false_eq_true, false_iff]
    rintro ⟨i, ⟨d, hd, rfl⟩, -⟩
    have := Layout.toNat_lt_of_part he.wellFormed hd
    omega

end Entry.Made

/-! ## Names -/

/-- The mnemonic of an instruction, the first name in its template. -/
def Template.mnemonic? (t : Template) : Option Text := t.text.lexemes.findSome? Lexeme.name?

/-- The component that a field stands for in the instruction with the given mnemonic. -/
def Component.ofName? (mnemonic name : Text) : Option Component :=
  if name = "uimm" then
    if mnemonic = "lui" ∨ mnemonic = "auipc" then some .imm
    else if mnemonic = "csrrwi" ∨ mnemonic = "csrrsi" ∨ mnemonic = "csrrci" then some .rs1
    else none
  else
    List.lookup name [("rd", .rd), ("rs1", .rs1), ("rs2", .rs2), ("imm12", .imm), ("off13", .imm),
      ("off21", .imm), ("csr", .imm), ("shamt", .amount), ("pred", .before), ("succ", .after)]

/-- The fields of an instruction, by its operation and format. -/
def Operation.fieldNames (o : Operation) (f : Format) : List Text :=
  if o.name = "fence" then ["pred", "succ"]
  else match o.operands, f with
    | .none, _ | _, .unknown _ => []
    | .shift, _ => ["rd", "rs1", "shamt"]
    | .format, .r => ["rd", "rs1", "rs2"]
    | .format, .i =>
      if o.name = "csrrw" ∨ o.name = "csrrs" ∨ o.name = "csrrc" then ["rd", "csr", "rs1"]
      else if o.name = "csrrwi" ∨ o.name = "csrrsi" ∨ o.name = "csrrci" then ["rd", "csr", "uimm"]
      else ["rd", "rs1", "imm12"]
    | .format, .s => ["rs1", "rs2", "imm12"]
    | .format, .sb => ["rs1", "rs2", "off13"]
    | .format, .u => ["rd", "uimm"]
    | .format, .uj => ["rd", "off21"]

theorem Component.ofName?_pred (mnemonic : Text) : ofName? mnemonic "pred" = some .before := rfl

theorem Component.ofName?_succ (mnemonic : Text) : ofName? mnemonic "succ" = some .after := rfl

namespace Table

/-- The field values are components of a decoded instruction, each the one that its name stands
for; what comes before and after a fence makes up the whole immediate. -/
structure FieldsAgree (mnemonic : Text) (inst : Instruction) (fs : Fields) : Prop where
  component : ∀ name v, fs.get? name = some v →
    ∃ c ∈ Component.ofName? mnemonic name, v = inst.component c
  fence : ∀ v, fs.get? "pred" = some v →
    ∃ u, fs.get? "succ" = some u ∧ v <<< 4 ||| u = inst.imm

end Table

/-! ## Comparing entries with operations -/

namespace Entry

/-- The bits above the eight that `pred` and `succ` take from the immediate of format I. -/
def fenceBits : List (Nat × Bool) := [(28, false), (29, false), (30, false), (31, false)]

/-- An entry is named like an operation, fixes at least the bits that the operation fixes, and has
its fields, wired like the components that their names stand for. An entry with the field `pred`
leaves no other bits of the immediate free than those of `pred` and `succ`. -/
def Refines (e : Entry .full) (o : Operation) : Prop :=
  e.template.mnemonic? = some o.name ∧ (∀ p ∈ o.fixedBits, p ∈ e.layout.literalBits) ∧
    ∃ m ∈ MajorOpcode.find? o.opcode,
      (∀ name ∈ o.fieldNames m.format, e.layout.HasField name) ∧
      (∀ name ∈ e.layout.filterMap Segment.name?, name ∈ o.fieldNames m.format ∧
        ∃ c ∈ Component.ofName? o.name name, (e.layout.wires name).Perm (m.format.wires c)) ∧
      (e.layout.HasField "pred" → e.layout.HasField "succ" ∧ m.format = .i ∧
        ∀ p ∈ fenceBits, p ∈ e.layout.literalBits)

instance (e : Entry .full) (o : Operation) : Decidable (e.Refines o) :=
  inferInstanceAs (Decidable (_ ∧ _))

/-- An entry for one single word, which is illegal. -/
def IsIllegal (e : Entry .full) : Prop :=
  e.pattern.mask = BitVec.allOnes 32 ∧ isIllegal e.pattern.value = true

instance (e : Entry .full) : Decidable e.IsIllegal := inferInstanceAs (Decidable (_ ∧ _))

end Entry

namespace Table

/-- The operations of which the entries fix more bits than the operation does. -/
def specialNames : List Text := ["fence", "fence.i", "ecall", "ebreak"]

/-- Every entry is illegal by name and by its word, or refines an operation; and apart from the
special ones every operation has an entry that fixes no more bits. -/
def Parallels (entries : List (Entry .full)) (ops : List Operation) : Prop :=
  (∀ e ∈ entries, if e.template.text = illegalText then e.IsIllegal else ∃ o ∈ ops, e.Refines o) ∧
    ∀ o ∈ ops, o.InPlace ∧
      (o.name ∈ specialNames ∨ ∃ e ∈ entries, ∀ p ∈ e.layout.literalBits, p ∈ o.fixedBits)

instance (entries : List (Entry .full)) (ops : List Operation) :
    Decidable (Parallels entries ops) :=
  inferInstanceAs (Decidable (_ ∧ _))

theorem baseInteger_parallels :
    Parallels baseInteger.entries (OpcodeTable.ofStandards [.rv32i]).ops := by
  decide +kernel

end Table

/-! ## What the comparison says about words -/

namespace Entry

variable {e : Entry .full} {o : Operation} {w : BitVec 32}

theorem IsIllegal.isIllegal_of_matches (he : e.IsIllegal) (hw : e.Matches w) :
    isIllegal w = true := by
  obtain ⟨hmask, hvalue⟩ := he
  obtain rfl : w = e.pattern.value := by
    rw [← hw, hmask]
    exact BitVec.and_allOnes.symm
  exact hvalue

/-- An operation agrees with the words of the entries that refine it. -/
theorem Refines.agrees (h : e.Refines o) (he : e.Made) (ho : o.InPlace) (hw : e.Matches w) :
    o.Agrees w := by
  obtain ⟨-, hbits, -⟩ := h
  rw [Operation.agrees_iff_fixedBits ho]
  rw [he.matches_iff_literalBits] at hw
  exact fun p hp => hw p (hbits p hp)

/-- An immediate of eight bits is made up of its two halves. -/
theorem halves_eq (v : BitVec 32) (hv : ∀ b, 8 ≤ b → v.getLsbD b = false) :
    (v.extractLsb' 4 4).setWidth 32 <<< 4 ||| (v.extractLsb' 0 4).setWidth 32 = v := by
  refine BitVec.eq_of_getLsbD_eq fun b hb => ?_
  simp only [BitVec.getLsbD_or, BitVec.getLsbD_shiftLeft, BitVec.getLsbD_setWidth,
    BitVec.getLsbD_extractLsb', hb, decide_true, Bool.true_and]
  rcases (by omega : b < 4 ∨ 4 ≤ b ∧ b < 8 ∨ 8 ≤ b) with h | h | h
  · simp [h]
  · simp [show ¬ b < 4 by omega, show b - 4 < 32 by omega, show b - 4 < 4 by omega,
      show 4 + (b - 4) = b by omega]
  · simp [show ¬ b < 4 by omega, show ¬ b - 4 < 4 by omega, hv b h]

/-- The immediate of a word with zeros above the bits of `pred` and `succ` has eight bits. -/
theorem getLsbD_imm_of_fenceBits (hw : ∀ p ∈ fenceBits, w.getLsbD p.1 = p.2) (opcode : BitVec 8)
    {b : Nat} (hb : 8 ≤ b) : (Instruction.decode w .i opcode).imm.getLsbD b = false := by
  rw [Bool.eq_false_iff]
  intro hset
  obtain ⟨i, hi, hbit⟩ := (Instruction.carries_imm w .i opcode b).mp hset
  obtain ⟨hlt, rfl⟩ := mem_wiresOfSlice.mp hi
  have hzero : (20 + b, false) ∈ fenceBits := by
    rcases (by omega : b = 8 ∨ b = 9 ∨ b = 10 ∨ b = 11) with rfl | rfl | rfl | rfl <;> decide
  rw [hw _ hzero] at hbit
  contradiction

/-- The fields of an entry that refines an operation, for the format of the operation. -/
theorem Refines.of_format (h : e.Refines o) {f : Format}
    (hf : (MajorOpcode.find? o.opcode).map (·.format) = some f) :
    (∀ name ∈ o.fieldNames f, e.layout.HasField name) ∧
      (∀ name, e.layout.HasField name → name ∈ o.fieldNames f ∧
        ∃ c ∈ Component.ofName? o.name name, (e.layout.wires name).Perm (f.wires c)) ∧
      (e.layout.HasField "pred" → e.layout.HasField "succ" ∧ f = .i ∧
        ∀ p ∈ fenceBits, p ∈ e.layout.literalBits) := by
  obtain ⟨-, -, m, hm, hall, honly, hfence⟩ := h
  obtain rfl : m.format = f := by
    rw [show MajorOpcode.find? o.opcode = some m from hm] at hf
    exact Option.some.inj hf
  refine ⟨hall, ?_, hfence⟩
  rintro name ⟨dest, hdest⟩
  exact honly name (List.mem_filterMap.mpr ⟨_, hdest, rfl⟩)

/-- The fields that are read with an entry are those of the operation that it refines. -/
theorem Refines.isSome_get?_iff (h : e.Refines o) (he : e.Made) {fs : Fields}
    (hfs : e.fields w = .ok fs) {f : Format}
    (hf : (MajorOpcode.find? o.opcode).map (·.format) = some f) (name : Text) :
    (fs.get? name).isSome = true ↔ name ∈ o.fieldNames f := by
  obtain ⟨hall, honly, -⟩ := h.of_format hf
  rw [he.isSome_get?_iff hfs]
  exact ⟨fun hname => (honly name hname).1, hall name⟩

/-- The fields of an entry are components of the instruction, decoded by the format of an operation
that the entry refines. -/
theorem Refines.fieldsAgree (h : e.Refines o) (he : e.Made) (hw : e.Matches w) {fs : Fields}
    (hfs : e.fields w = .ok fs) {f : Format}
    (hf : (MajorOpcode.find? o.opcode).map (·.format) = some f) (opcode : BitVec 8) :
    Table.FieldsAgree o.name (Instruction.decode w f opcode) fs := by
  obtain ⟨-, hnames, hfence⟩ := h.of_format hf
  have hhas := he.isSome_get?_iff hfs
  have hcomponent : ∀ name v, fs.get? name = some v → ∃ c ∈ Component.ofName? o.name name,
      v = (Instruction.decode w f opcode).component c := by
    intro name v hv
    obtain ⟨-, c, hc, hperm⟩ := hnames name ((hhas name).mp (by rw [hv]; rfl))
    have hcarried := Instruction.carries_component w f opcode c
    exact ⟨c, hc, (he.carries_field hfs hv).unique hcarried fun p => hperm.mem_iff⟩
  -- the entry fixes the four bits of the immediate that neither of the two fields takes
  refine ⟨hcomponent, fun v hv => ?_⟩
  obtain ⟨hsucc, hformat, hzero⟩ := hfence ((hhas "pred").mp (by rw [hv]; rfl))
  obtain ⟨u, hu⟩ := Option.isSome_iff_exists.mp ((hhas "succ").mpr hsucc)
  refine ⟨u, hu, ?_⟩
  obtain ⟨c, hc, rfl⟩ := hcomponent "pred" v hv
  obtain ⟨c', hc', rfl⟩ := hcomponent "succ" u hu
  rw [Component.ofName?_pred, Option.mem_some_iff] at hc
  rw [Component.ofName?_succ, Option.mem_some_iff] at hc'
  subst hc hc'
  refine halves_eq _ fun b hb => ?_
  rw [hformat]
  rw [he.matches_iff_literalBits] at hw
  exact getLsbD_imm_of_fenceBits (fun p hp => hw p (hzero p hp)) opcode hb

end Entry

namespace Table

theorem lookup_eq_some {k : Width} {t : Table k} {w : Word k} {e : Entry k} {fs : Fields}
    (h : t.lookup w = .ok (some (e, fs))) :
    e ∈ t.entries ∧ e.Matches w ∧ e.fields w = .ok fs := by
  unfold lookup at h
  split at h
  · simp at h
  · rename_i e' hfind
    split at h
    · rename_i fs' hfs
      obtain ⟨rfl, rfl⟩ := Prod.mk.inj (Option.some.inj (Except.ok.inj h))
      exact ⟨List.mem_of_find?_eq_some hfind, by simpa using List.find?_some hfind, hfs⟩
    · contradiction

section Parallels

variable {t : Table .full} (hmade : ∀ e ∈ t.entries, e.Made) {ss : List Standard}
  (hparallel : Parallels t.entries (OpcodeTable.ofStandards ss).ops) {w : BitVec 32}

include hmade hparallel

/-- What an entry is named is what the word is: illegal, or an operation that is found with the
same operands. -/
theorem lookup_of_parallels {e : Entry .full} {fs : Fields}
    (h : t.lookup w = .ok (some (e, fs))) :
    (e.template.text = illegalText ∧ isIllegal w = true) ∨
      e.template.text ≠ illegalText ∧
        ∃ f o, (OpcodeTable.ofStandards ss).format? (majorOpcodeOf w) = some f ∧
          (OpcodeTable.ofStandards ss).lookup (Instruction.decode w f (majorOpcodeOf w)) = some o ∧
          e.template.mnemonic? = some o.name ∧
          (∀ name, (fs.get? name).isSome = true ↔ name ∈ o.fieldNames f) ∧
          FieldsAgree o.name (Instruction.decode w f (majorOpcodeOf w)) fs := by
  obtain ⟨hmem, hw, hfs⟩ := lookup_eq_some h
  have hentry := hparallel.1 e hmem
  split at hentry
  · rename_i htext
    exact .inl ⟨htext, hentry.isIllegal_of_matches hw⟩
  · rename_i htext
    obtain ⟨o, ho, hrefines⟩ := hentry
    have hagrees := hrefines.agrees (hmade e hmem) (hparallel.2 o ho).1 hw
    obtain ⟨f, hf, hlookup⟩ := OpcodeTable.lookup_of_agrees ho hagrees
    have hformat := hf
    rw [← hagrees.1, OpcodeTable.format?_eq ho] at hformat
    exact .inr ⟨htext, f, o, hf, hlookup, hrefines.1,
      hrefines.isSome_get?_iff (hmade e hmem) hfs hformat,
      hrefines.fieldsAgree (hmade e hmem) hw hfs hformat _⟩

/-- A word of an operation that is not special has an entry. -/
theorem exists_lookup_of_parallels {f : Format} {o : Operation}
    (hf : (OpcodeTable.ofStandards ss).format? (majorOpcodeOf w) = some f)
    (h : (OpcodeTable.ofStandards ss).lookup (Instruction.decode w f (majorOpcodeOf w)) = some o)
    (hname : o.name ∉ specialNames) : ∃ e fs, t.lookup w = .ok (some (e, fs)) := by
  obtain ⟨ho, hagrees⟩ := OpcodeTable.agrees_of_lookup hf h
  obtain ⟨hplace, hspecial | ⟨e, he, hbits⟩⟩ := hparallel.2 o ho
  · contradiction
  have hw : e.Matches w := by
    rw [Operation.agrees_iff_fixedBits hplace] at hagrees
    exact ((hmade e he).matches_iff_literalBits w).mpr fun p hp => hagrees p (hbits p hp)
  rcases lookup_cases hmade w with ⟨hnone, -⟩ | ⟨e', fs, -, -, hlookup⟩
  · exact absurd (((hmade e he).matches_iff w).mp hw) (hnone e he)
  · exact ⟨e', fs, hlookup⟩

end Parallels

/-- **The two decoders of base integer instructions agree.** An entry for illegal words is found for
illegal words only. With any other entry, the word has a format and an operation of RV32I, named
like the entry; just the fields of that operation are read, and every value is the component of the
decoded instruction that its name stands for. Conversely, an operation that is found, other than
`fence`, `fence.i`, `ecall` and `ebreak`, has an entry. -/
theorem baseInteger_agrees_with_operations (w : BitVec 32) :
    (∀ e fs, baseInteger.lookup w = .ok (some (e, fs)) → e.template.text = illegalText →
      isIllegal w = true) ∧
    (∀ e fs, baseInteger.lookup w = .ok (some (e, fs)) → e.template.text ≠ illegalText →
      ∃ f o, (OpcodeTable.ofStandards [.rv32i]).format? (majorOpcodeOf w) = some f ∧
        (OpcodeTable.ofStandards [.rv32i]).lookup
          (Instruction.decode w f (majorOpcodeOf w)) = some o ∧
        e.template.mnemonic? = some o.name ∧
        (∀ name, (fs.get? name).isSome = true ↔ name ∈ o.fieldNames f) ∧
        FieldsAgree o.name (Instruction.decode w f (majorOpcodeOf w)) fs) ∧
    ∀ f o, (OpcodeTable.ofStandards [.rv32i]).format? (majorOpcodeOf w) = some f →
      (OpcodeTable.ofStandards [.rv32i]).lookup
        (Instruction.decode w f (majorOpcodeOf w)) = some o →
      o.name ∉ specialNames → ∃ e fs, baseInteger.lookup w = .ok (some (e, fs)) := by
  have hlookup := @lookup_of_parallels _ writesLines_baseInteger.made _ baseInteger_parallels w
  refine ⟨fun e fs h htext => ?_, fun e fs h htext => ?_, fun f o hf h hname => ?_⟩
  · rcases hlookup h with ⟨-, hillegal⟩ | ⟨hother, -⟩
    · exact hillegal
    · exact absurd htext hother
  · rcases hlookup h with ⟨hsame, -⟩ | ⟨-, hop⟩
    · exact absurd hsame htext
    · exact hop
  · exact exists_lookup_of_parallels writesLines_baseInteger.made baseInteger_parallels hf h hname

/-- The word of `addi x3, x1, -5`, read by both decoders. -/
theorem baseInteger_agrees_with_operations_addi :
    let w : BitVec 32 := 0xFFB08193
    let inst := Instruction.decode w .i 0x13
    ((OpcodeTable.ofStandards [.rv32i]).lookup inst).map (·.name) = some "addi" ∧
      inst.rd = 3 ∧ inst.rs1 = 1 ∧ inst.imm = 0xFFB ∧
      ∃ e fs, baseInteger.lookup w = .ok (some (e, fs)) ∧ e.template.mnemonic? = some "addi" ∧
        fs.get? "rd" = some 3 ∧ fs.get? "rs1" = some 1 ∧ fs.get? "imm12" = some 0xFFB ∧
        fs.get? "rs2" = none := by
  intro w inst
  have hformat : (OpcodeTable.ofStandards [.rv32i]).format? (majorOpcodeOf w) = some .i := by
    decide +kernel
  have hlookup : (OpcodeTable.ofStandards [.rv32i]).lookup
      (Instruction.decode w .i (majorOpcodeOf w)) =
        some (.short .rv32i "addi" 0x13 0b000) := by
    decide +kernel
  obtain ⟨hillegal, hother, hfind⟩ := baseInteger_agrees_with_operations w
  obtain ⟨e, fs, hfound⟩ := hfind _ _ hformat hlookup (by decide)
  have hlegal : e.template.text ≠ illegalText :=
    fun htext => absurd (hillegal e fs hfound htext) (by decide)
  obtain ⟨f, o, hf, ho, hname, hfields, hagree⟩ := hother e fs hfound hlegal
  obtain rfl := Option.some.inj (hformat.symm.trans hf)
  obtain rfl := Option.some.inj (hlookup.symm.trans ho)
  have hvalue {name : Text} (c : Component) {v : BitVec 32} (hv : inst.component c = v)
      (hmem : name ∈ (["rd", "rs1", "imm12"] : List Text))
      (hc : Component.ofName? "addi" name = some c) : fs.get? name = some v := by
    obtain ⟨v', hv'⟩ := Option.isSome_iff_exists.mp ((hfields name).mpr hmem)
    obtain ⟨c', hc', rfl⟩ := hagree.component name v' hv'
    obtain rfl := Option.some.inj (hc.symm.trans hc')
    exact hv ▸ hv'
  have hnone : fs.get? "rs2" = none := by
    rw [← Option.not_isSome_iff_eq_none, hfields]
    decide
  refine ⟨?_, by decide, by decide, by decide, e, fs, hfound, hname, ?_, ?_, ?_, hnone⟩
  · rw [show inst = Instruction.decode w .i (majorOpcodeOf w) by decide, hlookup]
    rfl
  · exact hvalue .rd (by decide) (by decide) rfl
  · exact hvalue .rs1 (by decide) (by decide) rfl
  · exact hvalue .imm (by decide) (by decide) rfl

end Table

end Disassembly
