import Disassembly.Fixed.OpcodeTable
import Disassembly.Proofs.Fixed.Slices
import Disassembly.Proofs.Layout.BitRole
import Mathlib.Data.List.Pairwise

/-!
# Operations are selected by fixed bits

An opcode table goes through the selectors that a decoded instruction fits, the most specific
first. What comes out does not depend on that order, nor on the standards of the table otherwise
than by which operations they have:

* `Operation.Agrees` says that a word has the opcode and the fixed parts of an operation;
* `Operation.eq_of_agrees`: no word agrees with two operations;
* `OpcodeTable.agrees_of_lookup`, `OpcodeTable.lookup_of_agrees`: the operation found is the one of
  the table that agrees with the word;
* `Operation.agrees_iff_fixedBits` lists the bits that an operation looks at.

Two facts about the list of operations carry this, and both are checked by going through the list:
each operation is selected by parts that its format has (`Operation.Coherent`), and any two
operations are told apart by a part that both fix (`Operation.Apart`).
-/

namespace Disassembly

open Format (funct3Bits funct7Bits immI)

namespace Operation

/-- The function code of seven bits as far as it counts for an opcode: the two low bits only ask for
memory ordering, if the opcode is for that. -/
def funct7Of (opcode : BitVec 8) (w : BitVec 32) : BitVec 8 :=
  if MajorOpcode.isOrdered opcode then (funct7Bits w).setWidth 8 &&& ~~~3
  else (funct7Bits w).setWidth 8

/-- A word has the opcode and the fixed parts of an operation. -/
def Agrees (o : Operation) (w : BitVec 32) : Prop :=
  o.opcode = majorOpcodeOf w ∧
    match o.selector with
    | .opcode => True
    | .funct3 f3 => f3 = (funct3Bits w).setWidth 8
    | .funct7 f3 f7 => f3 = (funct3Bits w).setWidth 8 ∧ f7 = funct7Of o.opcode w
    | .constant f3 imm => f3 = (funct3Bits w).setWidth 8 ∧ imm = (immI w).setWidth 32

/-! ## No two operations agree with a word -/

/-- Two operations differ in a part that both of them fix. -/
def Apart (o p : Operation) : Bool :=
  o.opcode != p.opcode ||
    match o.selector, p.selector with
    | .opcode, _ | _, .opcode => false
    | .funct7 f3 f7, .funct7 g3 g7 => f3 != g3 || f7 != g7
    | .constant f3 imm, .constant g3 imm' => f3 != g3 || imm != imm'
    | s, t => s.funct3Value != t.funct3Value

theorem pairwise_apart : all.Pairwise fun o p => o.Apart p = true := by
  decide +kernel

theorem not_agrees_of_apart {o p : Operation} (h : o.Apart p = true) {w : BitVec 32}
    (ho : o.Agrees w) : ¬ p.Agrees w := by
  intro hp
  obtain ⟨hopcode, ho⟩ := ho
  obtain ⟨hopcode', hp⟩ := hp
  simp only [Apart, hopcode, hopcode', bne_self_eq_false, Bool.false_or] at h
  -- with the same opcode the function codes are read in the same way
  rw [hopcode] at ho
  rw [hopcode'] at hp
  cases hs : o.selector <;> cases ht : p.selector <;> simp_all [Selector.funct3Value]

/-- No word agrees with two operations. -/
theorem eq_of_agrees {o p : Operation} (hmem : o ∈ all) (hmem' : p ∈ all) {w : BitVec 32}
    (ho : o.Agrees w) (hp : p.Agrees w) : o = p := by
  by_contra hne
  have hpair : all.Pairwise fun o p => ¬ (o.Agrees w ∧ p.Agrees w) :=
    pairwise_apart.imp fun h => fun ⟨ho, hp⟩ => not_agrees_of_apart h ho hp
  have : Std.Symm fun o p : Operation => ¬ (o.Agrees w ∧ p.Agrees w) :=
    ⟨fun _ _ h h' => h h'.symm⟩
  exact hpair.forall hmem hmem' hne ⟨ho, hp⟩

/-! ## Candidates -/

end Operation

/-- Whether the format has the parts that a selector looks at. -/
def Format.has : Format → Selector → Bool
  | _, .opcode => true
  | .r, .funct3 _ | .i, .funct3 _ | .s, .funct3 _ | .sb, .funct3 _ => true
  | .r, .funct7 _ _ | .i, .funct7 _ _ => true
  | .i, .constant _ _ => true
  | _, _ => false

namespace Operation

/-- An operation has a known opcode and is selected by parts of its format. Only the format of
registers asks for memory ordering, and then not by the bits that select. -/
def Coherent (o : Operation) : Prop :=
  ∃ m ∈ MajorOpcode.find? o.opcode, m.format.has o.selector = true ∧
    (m.ordered = true → m.format = .r ∧ o.selector.funct7Value &&& ~~~3 = o.selector.funct7Value)

instance (o : Operation) : Decidable o.Coherent :=
  inferInstanceAs (Decidable (∃ m ∈ MajorOpcode.find? o.opcode, _ ∧ _))

theorem coherent_of_mem : ∀ o ∈ all, o.Coherent := by
  decide +kernel

end Operation

namespace OpcodeTable

/-- The upper part of the immediate of format I stands where the function code of seven bits is. -/
theorem immI_shifted (w : BitVec 32) :
    ((immI w).setWidth 32 >>> 5).setWidth 8 = (funct7Bits w).setWidth 8 := by
  refine BitVec.eq_of_getLsbD_eq fun i hi => ?_
  simp only [immI, funct7Bits, BitVec.getLsbD_setWidth, BitVec.getLsbD_ushiftRight,
    BitVec.getLsbD_extractLsb', ← Nat.add_assoc]
  by_cases h : i < 7
  · simp [h, show 5 + i < 32 by omega, show 5 + i < 12 by omega]
  · simp [h, show ¬ 5 + i < 12 by omega]

/-- An operation agrees with a word of its opcode exactly if its selector is a candidate. -/
theorem agrees_iff_mem_candidates {o : Operation} (ho : o ∈ Operation.all) {w : BitVec 32}
    (hopcode : o.opcode = majorOpcodeOf w) {f : Format}
    (hf : (MajorOpcode.find? o.opcode).map (·.format) = some f) :
    o.Agrees w ↔ o.selector ∈ candidates (Instruction.decode w f o.opcode) := by
  obtain ⟨m, hm, hhas, hordered⟩ := Operation.coherent_of_mem o ho
  have hfind : MajorOpcode.find? o.opcode = some m := hm
  have horder : MajorOpcode.isOrdered o.opcode = m.ordered := by
    simp [MajorOpcode.isOrdered, hfind]
  obtain rfl : m.format = f := by simpa [hfind] using hf
  simp only [Operation.Agrees, Operation.funct7Of, horder, ← hopcode, true_and]
  generalize o.selector = selector at hhas hordered ⊢
  cases hformat : m.format <;> rw [hformat] at hhas hordered <;>
    simp only [Instruction.decode_eq_ofSlices, candidates, Instruction.ofSlices, horder]
  case r =>
    cases selector <;> simp [Format.has] at hhas ⊢
    rename_i f3 f7
    cases hm : m.ordered
    · simp
    · -- the bits that ask for ordering select nothing, so the exact code is found as well
      obtain ⟨-, hlow⟩ := hordered hm
      simp only [if_true, true_and]
      refine ⟨?_, ?_⟩
      · exact .inr
      · rintro (⟨hf3, rfl⟩ | h)
        · exact ⟨hf3, hlow.symm⟩
        · exact h
  case i =>
    have hplain : m.ordered = false := by simpa using fun h => (hordered h).1
    cases selector <;> simp [hplain, immI_shifted]
  all_goals cases selector <;> simp [Format.has] at hhas ⊢

/-! ## Looking up an operation -/

variable {ss : List Standard} {w : BitVec 32}

theorem mem_all_of_mem_ops {o : Operation} (ho : o ∈ (ofStandards ss).ops) : o ∈ Operation.all :=
  (List.mem_filter.mp ho).1

theorem select?_eq_some {t : OpcodeTable} {opcode : BitVec 8} {s : Selector} {o : Operation}
    (h : t.select? opcode s = some o) : o ∈ t.ops ∧ o.opcode = opcode ∧ o.selector = s := by
  have hfound := List.find?_some h
  simp only [Bool.and_eq_true, decide_eq_true_eq] at hfound
  exact ⟨List.mem_of_find?_eq_some h, hfound⟩

/-- The format of an opcode is known as soon as an operation of the table has that opcode. -/
theorem format?_eq {o : Operation} (ho : o ∈ (ofStandards ss).ops) :
    (ofStandards ss).format? o.opcode = (MajorOpcode.find? o.opcode).map (·.format) :=
  if_pos (List.any_eq_true.mpr ⟨o, ho, by simp⟩)

theorem agrees_of_lookup {f : Format}
    (hf : (ofStandards ss).format? (majorOpcodeOf w) = some f) {o : Operation}
    (h : (ofStandards ss).lookup (Instruction.decode w f (majorOpcodeOf w)) = some o) :
    o ∈ (ofStandards ss).ops ∧ o.Agrees w := by
  obtain ⟨s, hs, hselect⟩ := List.exists_of_findSome?_eq_some h
  obtain ⟨ho, hopcode, rfl⟩ := select?_eq_some hselect
  rw [Instruction.opcode_decode] at hopcode
  rw [← hopcode] at hf hs
  rw [format?_eq ho] at hf
  exact ⟨ho, (agrees_iff_mem_candidates (mem_all_of_mem_ops ho) hopcode hf).mpr hs⟩

/-- An operation of the table that agrees with a word gives the word a format and is found. -/
theorem lookup_of_agrees {o : Operation} (ho : o ∈ (ofStandards ss).ops) (hw : o.Agrees w) :
    ∃ f, (ofStandards ss).format? (majorOpcodeOf w) = some f ∧
      (ofStandards ss).lookup (Instruction.decode w f (majorOpcodeOf w)) = some o := by
  have hall := mem_all_of_mem_ops ho
  obtain ⟨m, hm, -⟩ := Operation.coherent_of_mem o hall
  have hknown : (MajorOpcode.find? o.opcode).map (·.format) = some m.format := by
    rw [show MajorOpcode.find? o.opcode = some m from hm, Option.map_some]
  have hformat : (ofStandards ss).format? (majorOpcodeOf w) = some m.format := by
    rw [← hw.1, format?_eq ho, hknown]
  refine ⟨m.format, hformat, ?_⟩
  -- some operation is found, and it agrees with the word as well
  obtain ⟨p, hp⟩ : ∃ p, (ofStandards ss).lookup
      (Instruction.decode w m.format (majorOpcodeOf w)) = some p := by
    rw [← Option.isSome_iff_exists, lookup, List.findSome?_isSome_iff]
    rw [Instruction.opcode_decode, ← hw.1]
    refine ⟨o.selector, (agrees_iff_mem_candidates hall hw.1 hknown).mp hw, ?_⟩
    rw [select?, List.find?_isSome]
    exact ⟨o, ho, by simp⟩
  obtain ⟨hmem, hagrees⟩ := agrees_of_lookup hformat hp
  rw [hp, Operation.eq_of_agrees hall (mem_all_of_mem_ops hmem) hw hagrees]

end OpcodeTable

/-! ## Fixed bits -/

/-- The bits of a number as the values of `len` bits of a word, from the index `start` on. -/
def bitsAt (start len : Nat) {n : Nat} (v : BitVec n) : List (Nat × Bool) :=
  (List.range len).map fun j => (start + j, v.getLsbD j)

/-- A part of a word has a value exactly if it has its bits. -/
theorem eq_extractLsb'_iff (w : BitVec 32) (start len : Nat) {n : Nat} {v : BitVec n}
    (hlen : len ≤ n) (hv : v.toNat < 2 ^ len) :
    v = (w.extractLsb' start len).setWidth n ↔
      ∀ p ∈ bitsAt start len v, w.getLsbD p.1 = p.2 := by
  have hmod : ((w.extractLsb' start len).setWidth n).toNat = (w.extractLsb' start len).toNat := by
    have hlt := (w.extractLsb' start len).isLt
    have hpow : 2 ^ len ≤ 2 ^ n := Nat.pow_le_pow_right (by decide) hlen
    rw [BitVec.toNat_setWidth, Nat.mod_eq_of_lt (by omega)]
  rw [← BitVec.toNat_inj, hmod, eq_comm, toNat_extractLsb'_eq_iff w start len v hv]
  simp [bitsAt]

/-- The bits that a selector fixes, as indices with values. -/
def Selector.fixedBits : Selector → List (Nat × Bool)
  | .opcode => []
  | .funct3 f3 => bitsAt 12 3 f3
  | .funct7 f3 f7 => bitsAt 12 3 f3 ++ bitsAt 25 7 f7
  | .constant f3 imm => bitsAt 12 3 f3 ++ bitsAt 20 12 imm

namespace Operation

/-- The bits that an operation fixes. -/
def fixedBits (o : Operation) : List (Nat × Bool) := bitsAt 0 7 o.opcode ++ o.selector.fixedBits

/-- The opcode and the fixed parts of an operation fit in their places, and all bits of them
count. -/
def InPlace (o : Operation) : Prop :=
  MajorOpcode.isOrdered o.opcode = false ∧ o.opcode.toNat < 2 ^ 7 ∧
    o.selector.funct3Value.toNat < 2 ^ 3 ∧ o.selector.funct7Value.toNat < 2 ^ 7 ∧
      o.selector.constantValue.toNat < 2 ^ 12

instance (o : Operation) : Decidable o.InPlace := inferInstanceAs (Decidable (_ ∧ _))

/-- An operation agrees with the words that have its fixed bits. -/
theorem agrees_iff_fixedBits {o : Operation} (ho : o.InPlace) (w : BitVec 32) :
    o.Agrees w ↔ ∀ p ∈ o.fixedBits, w.getLsbD p.1 = p.2 := by
  obtain ⟨hplain, hopcode, hf3, hf7, himm⟩ := ho
  rw [fixedBits, List.forall_mem_append, ← eq_extractLsb'_iff w 0 7 (by decide) hopcode,
    ← majorOpcodeOf_eq]
  refine and_congr Iff.rfl ?_
  rw [funct7Of, hplain, if_neg Bool.false_ne_true]
  cases hs : o.selector with
  | opcode => simp [Selector.fixedBits]
  | funct3 f3 =>
    rw [hs] at hf3
    exact eq_extractLsb'_iff w 12 3 (by decide) hf3
  | funct7 f3 f7 =>
    rw [hs] at hf3 hf7
    rw [Selector.fixedBits, List.forall_mem_append]
    exact and_congr (eq_extractLsb'_iff w 12 3 (by decide) hf3)
      (eq_extractLsb'_iff w 25 7 (by decide) hf7)
  | constant f3 imm =>
    rw [hs] at hf3 himm
    rw [Selector.fixedBits, List.forall_mem_append]
    exact and_congr (eq_extractLsb'_iff w 12 3 (by decide) hf3)
      (eq_extractLsb'_iff w 20 12 (by decide) himm)

end Operation

end Disassembly
