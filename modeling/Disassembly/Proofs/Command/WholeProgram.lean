import Disassembly.Proofs.Command.AllOrNothing
import Disassembly.Proofs.Listing.Decoded

/-!
# The output holds the whole program

When the command succeeds, its output is a line for each complete word of the program file, and the
file can be put together again from the last columns of these lines, up to less than a word at its
end. This rests on three things:

* the command succeeds only if everything could be prepared, and then it has written all lines
  (`exists_prepare_of_run`);
* whatever decoders the command line asked for, their texts stay on one line
  (`Options.oneLine_of_prepare`);
* the words that the file is cut into are all of it but the tail (`Program.consists_split`), and a
  line gives its word back.
-/

namespace Disassembly

open Text CodeWord

/-! ## What an image consists of -/

namespace Program

/-- An image consists of complete words, of the given bytes, and of a tail that is shorter than the
word it starts with. -/
structure Consists (image : Text) (words : List Text) (tail : Text) : Prop where
  /-- nothing is lost -/
  join : words.flatten ++ tail = image
  /-- the first byte of a word tells how many there are -/
  complete : ∀ c ∈ words, ∃ b t, c = b :: t ∧ c.length = sizeOf b
  /-- the image ends inside a word, if there is a tail -/
  short : ∀ b t, tail = b :: t → tail.length < sizeOf b

theorem Consists.length_tail_le {image : Text} {words : List Text} {tail : Text}
    (h : Consists image words tail) : tail.length ≤ 3 := by
  cases htail : tail with
  | nil => simp
  | cons b t =>
    have hlt := h.short b t htail
    have hsize : sizeOf b ≤ 4 := by
      unfold sizeOf
      split <;> decide
    rw [htail] at hlt
    omega

/-- The words that an image is cut into are all of its complete words. -/
theorem consists_split (start : BitVec 32) (image : Text) :
    ∃ tail, Consists image ((split start image).words.map bytes) tail := by
  have hcut := cut_split start image
  obtain ⟨tail, hjoin, htail⟩ := hcut.exists_remainder
  refine ⟨tail, hjoin, ?_, ?_⟩
  · intro c hc
    obtain ⟨w, hw, rfl⟩ := List.mem_map.mp hc
    exact exists_bytes_eq (hcut.sized w hw)
  · rintro b t rfl
    rcases htail with ⟨hnil, -⟩ | ⟨b', t', heq, hlt, -⟩
    · cases hnil
    · obtain ⟨rfl, rfl⟩ := List.cons.inj heq
      exact hlt

/-- A word stands as many bytes after the start as there are before it. -/
theorem address_eq_of_getElem? {start : BitVec 32} {ws : List CodeWord} (h : ∀ w ∈ ws, w.Sized)
    (hplaced : Placed start ws) {k : Nat} {w : CodeWord} (hw : ws[k]? = some w) :
    w.address.toNat = (start.toNat + ((ws.map bytes).take k).flatten.length) % 2 ^ 32 := by
  have hbefore : ∀ v ∈ ws.take k, v.Sized := fun v hv => h v (List.mem_of_mem_take hv)
  rw [hplaced k w hw, ← length_flatten_bytes hbefore, BitVec.ofInt_natCast, BitVec.toNat_add,
    BitVec.toNat_ofNat, Nat.add_mod_mod, List.map_take]

end Program

/-! ## Decoders -/

theorem writesLines_of_compactTable {s : Settings} {dir : Directory} {t : Table .compact}
    {r : LogRecord} (h : compactTable s dir = .ok (t, r)) : t.WritesLines := by
  by_cases hnone : s.table = []
  · obtain ⟨r', hbuiltin⟩ := exists_compactTable hnone dir
    obtain ⟨rfl, -⟩ := Prod.mk.inj (Except.ok.inj (hbuiltin.symm.trans h))
    exact Table.writesLines_compressed
  · rw [compactTable, if_neg (by simpa using hnone)] at h
    split at h
    · cases h
    · split at h
      · cases h
      · rename_i t' hload
        obtain ⟨rfl, -⟩ := Prod.mk.inj (Except.ok.inj h)
        exact Table.writesLines_of_load Table.oneLine_of_mem_compressedFormatters hload

theorem oneLine_of_wideDecoder {mode ext : Text} {d : WideDecoder}
    (h : wideDecoder mode ext = .ok d) (w : BitVec 32) : (d.text w).OneLine := by
  by_cases htable : mode = "table"
  · obtain ⟨d', hbuiltin, htext⟩ := exists_wideDecoder ext
    rw [htable] at h
    obtain rfl := Except.ok.inj (hbuiltin.symm.trans h)
    rw [htext]
    exact Table.writesLines_baseInteger.oneLine_textOf w
  · rw [wideDecoder, if_neg htable] at h
    split at h
    · split at h
      · cases h
      · obtain rfl := Except.ok.inj h
        exact OpcodeTable.oneLine_textOf _ w
    · cases h

theorem Disassembler.oneLine_text {d : Disassembler} (hcompact : ∀ w, (d.compact w).OneLine)
    (hwide : ∀ w, (d.wide w).OneLine) (w : CodeWord) : (d.text w).OneLine := by
  unfold text
  split
  · exact hcompact _
  · exact hwide _

/-- Decoders that could be set up give texts on one line. -/
theorem Options.oneLine_of_prepare {o : Options} {dir : Directory} {d : Disassembler} {image : Text}
    (h : o.prepare dir = .ok (d, image)) (w : CodeWord) : (d.text w).OneLine := by
  obtain ⟨t, r, wide, htable, hwide, rfl, -⟩ := exists_decoders_of_prepare h
  have hcompact := writesLines_of_compactTable htable
  exact Disassembler.oneLine_text hcompact.oneLine_textOf (oneLine_of_wideDecoder hwide) w

/-! ## The command -/

/-- **The output holds the whole program.** Whenever the command succeeds, whatever its arguments,
the files and the place where the listing goes: the output is a line for each complete word of the
program file, ended by a line feed and without another one; the digits that a line starts with are
the address of its word, which is the start address and the bytes before the word, modulo `2 ^ 32`;
and the digits that the lines end with are the bytes of the file, except for a tail of at most three
bytes, which there is only if the file ends inside a word. -/
theorem stdout_holds_whole_program {args : List Text} {dir : Directory} {sink : Sink}
    (h : (run args dir sink).error = none) :
    ∃ (o : Options) (image : Text) (ls words : List Text) (tail : Text),
      Options.parse args = .ok o ∧ dir o.program = some image ∧
      Program.Consists image words tail ∧ tail.length ≤ 3 ∧
      (run args dir sink).stdout = ofLines ls ∧ (∀ l ∈ ls, 0x0A ∉ l) ∧
      ls.length = words.length ∧ ls.mapM lineBytes? = some words ∧
      ∀ k l, ls[k]? = some l →
        lineAddress? l = some ((o.start.toNat + (words.take k).flatten.length) % 2 ^ 32) := by
  obtain ⟨o, d, image, hparse, hprepare, hstdout⟩ := exists_prepare_of_run h
  have himage := Options.program_of_prepare hprepare
  have hcut := Program.cut_split o.start image
  obtain ⟨tail, hconsists⟩ := Program.consists_split o.start image
  refine ⟨o, image, _, _, tail, hparse, himage, hconsists, hconsists.length_tail_le, hstdout,
    ?_, by simp [Disassembler.lines], ?_, ?_⟩
  · intro l hl
    obtain ⟨w, hw, rfl⟩ := List.mem_map.mp hl
    exact oneLine_line (hcut.sized w hw) (Options.oneLine_of_prepare hprepare w)
  · exact d.mapM_lineBytes?_lines hcut.sized
  · intro k l hl
    rw [Disassembler.lines, List.getElem?_map] at hl
    obtain ⟨w, hw, rfl⟩ := Option.map_eq_some_iff.mp hl
    rw [lineAddress?_line, Program.address_eq_of_getElem? hcut.sized hcut.placed hw]

/-- A table from a file, whose only template has a `#` in it, and a program that goes beyond the
last address and ends inside a word. -/
theorem stdout_holds_whole_program_wrapping :
    let args : List Text :=
      ["-mode", "table", "-table", "own.tbl", "-start", "0xFFFFFFFE", "own.bin"]
    let image : Text := [0x01, 0x00, 0x73, 0x00, 0x00, 0x00, 0x13, 0x05]
    let dir : Directory := fun name =>
      if name = "own.bin" then some image
      else if name = "own.tbl" then some "\"#  none\", 000, imm[12:0] # a comment\n"
      else none
    (run args dir {}).error = none ∧ ∃ ls words tail, Program.Consists image words tail ∧
      (run args dir {}).stdout = ofLines ls ∧ ls.mapM lineBytes? = some words := by
  intro args image dir
  let o : Options :=
    ⟨{ mode := "table", table := "own.tbl", start := "0xFFFFFFFE" }, 0xFFFFFFFE, "own.bin"⟩
  have hparse : Options.parse args = .ok o := by decide +kernel
  have hready : (compactTable o.settings dir).toOption.isSome = true := by decide +kernel
  have herror : (run args dir {}).error = none :=
    error_of_prepare_ok hparse (Options.prepare_of_table rfl (eq_ok_get hready) rfl) rfl
  obtain ⟨o', image', ls, words, tail, hparse', himage, hconsists, -, hstdout, -, -, hwords, -⟩ :=
    stdout_holds_whole_program herror
  obtain rfl := Except.ok.inj (hparse.symm.trans hparse')
  obtain rfl : image = image' := Option.some.inj himage
  exact ⟨herror, ls, words, tail, hconsists, hstdout, hwords⟩

end Disassembly
