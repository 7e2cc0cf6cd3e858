import Disassembly.Proofs.Command.WholeProgram
import Disassembly.Proofs.Entry.Quotes
import Disassembly.Proofs.Entry.RoundTrip
import Disassembly.Proofs.Program.Resuming

/-!
# Listing the rest of a program

A listing can be taken up again at any of its lines. The address that the line starts with is a
start address as the command line has it: its digits are read back whatever their case
(`Options.readStart_addressText`), and there is a place in every command line where the flag for it
can stand and decides (`Settings.exists_insert_start`). With it, and with what follows in the file
from the word of that line on, the command writes that line and all after it, because the decoders
are the same (`Options.SameDecoders.prepare`) and so are the words (`Program.split_drop`).
-/

namespace Disassembly

open Text CodeWord Program

/-! ## Addresses are read back -/

namespace Text

/-- A digit as a byte, the digits from ten on as small letters. -/
def smallDigitByte (d : Nat) : UInt8 :=
  if d < 10 then UInt8.ofNat (0x30 + d) else UInt8.ofNat (0x57 + d)

theorem lower_cons_ascii {b : UInt8} (hb : b < 0x80) (t : Text) :
    lower (b :: t) = String.utf8EncodeChar (lowerChar (Char.ofNat b.toNat)) ++ t.lower := by
  rw [lower, symbols_cons_ascii hb, List.flatMap_cons]
  rfl

/-- In small letters, digits are still digits. -/
theorem lower_map_digitByte {ds : List Nat} (hds : ∀ d ∈ ds, d < 16) :
    lower (ds.map digitByte) = ds.map smallDigitByte := by
  have hdigit : ∀ d < 16, digitByte d < 0x80 ∧
      String.utf8EncodeChar (lowerChar (Char.ofNat (digitByte d).toNat)) = [smallDigitByte d] := by
    decide
  induction ds with
  | nil => rfl
  | cons d ds ih =>
    obtain ⟨hd, hds⟩ := List.forall_mem_cons.mp hds
    obtain ⟨hascii, hlower⟩ := hdigit d hd
    rw [List.map_cons, lower_cons_ascii hascii, hlower, ih hds, List.map_cons]
    rfl

/-- Only the values of digits count. -/
theorem readDigits_congr (base limit n : Nat) {t u : Text}
    (h : t.map digitValue? = u.map digitValue?) :
    readDigits base limit n t = readDigits base limit n u := by
  induction t generalizing n u with
  | nil =>
    cases u with
    | nil => rfl
    | cons c u => cases h
  | cons b t ih =>
    cases u with
    | nil => cases h
    | cons c u =>
      rw [List.map_cons, List.map_cons, List.cons.injEq] at h
      rw [readDigits, readDigits, h.1]
      simp only [ih _ h.2]

theorem readNumeral_congr (base limit : Nat) {t u : Text}
    (h : t.map digitValue? = u.map digitValue?) :
    readNumeral base limit t = readNumeral base limit u := by
  have hempty : t.isEmpty = u.isEmpty := by
    rw [← List.isEmpty_map (f := digitValue?), h, List.isEmpty_map]
  rw [readNumeral, readNumeral, hempty, readDigits_congr base limit 0 h]

/-- A hexadecimal numeral is read back in small letters, too. -/
theorem readNumeral_lower_zeroPad_hex (width : Nat) {n limit : Nat} (hn : n ≤ limit) :
    readNumeral 16 limit (zeroPad width (hex n)).lower = .ok n := by
  have hread : readNumeral 16 limit (zeroPad width (hex n)) = .ok n :=
    readNumeral_zeroPad (by decide) (by decide) width hn
  rw [hex, zeroPad_map_digitByte] at hread ⊢
  have hds : ∀ d ∈ List.replicate (width - (digits 16 n).length) 0 ++ digits 16 n, d < 16 := by
    intro d hd
    rcases List.mem_append.mp hd with hd | hd
    · rw [List.eq_of_mem_replicate hd]
      decide
    · exact digits_lt (by decide) hd
  have hvalue : ∀ d < 16, digitValue? (smallDigitByte d) = digitValue? (digitByte d) := by decide
  rw [lower_map_digitByte hds, ← hread]
  apply readNumeral_congr
  rw [List.map_map, List.map_map]
  exact List.map_congr_left fun d hd => hvalue d (hds d hd)

end Text

namespace Options

/-- An address is read back from the text that shows it. -/
theorem readStart_addressText (a : BitVec 32) : readStart (addressText a) = .ok a := by
  have hlower : (addressText a).lower = "0x" ++ (zeroPad 8 (hex a.toNat)).lower := by
    rw [addressText, show ofString "0x" = [0x30, 0x78] from rfl, List.cons_append,
      lower_cons_ascii (by decide), List.cons_append, lower_cons_ascii (by decide)]
    rfl
  have hread : readNumeral 16 0xFFFFFFFF (zeroPad 8 (hex a.toNat)).lower = .ok a.toNat :=
    readNumeral_lower_zeroPad_hex 8 (by have := a.isLt; omega)
  simp only [readStart, hlower, strip?_append, Option.getD_some, hread, BitVec.ofNat_toNat,
    BitVec.setWidth_eq]

end Options

/-! ## A place for the start address -/

namespace Settings

/-- The arguments that set the start address. -/
def startArgs (v : Text) : List Text := ["-start", v]

theorem readFlags_startArgs (s : Settings) (v : Text) (rest : List Text) :
    s.readFlags (startArgs v ++ rest) = { s with start := v }.readFlags rest := by
  have hread : Argument.read "-start" = .flag "start" none := by decide
  have hname : Flag.ofName? "start" = some .start := by decide
  rw [startArgs, List.cons_append, readFlags, hread]
  simp only [hname]
  rfl

/-- A flag is used up together with its value, whatever follows, unless the value is missing. -/
theorem readFlags_flag {arg name : Text} {value : Option Text} {f : Flag}
    (hread : Argument.read arg = .flag name value) (hname : Flag.ofName? name = some f)
    (rest : List Text) :
    (∃ used rest' v, arg :: rest = used ++ rest' ∧ used ≠ [] ∧
      ∀ (s : Settings) more, s.readFlags (used ++ more) = s.set f v >>= (readFlags · more)) ∨
    ∀ s : Settings, s.readFlags (arg :: rest) = .error (.missing name) := by
  cases value with
  | some v =>
    refine .inl ⟨[arg], rest, v, rfl, List.cons_ne_nil _ _, fun s more => ?_⟩
    rw [List.singleton_append, readFlags, hread]
    simp only [hname]
  | none =>
    by_cases hswitch : f.isSwitch = true
    · refine .inl ⟨[arg], rest, "true", rfl, List.cons_ne_nil _ _, fun s more => ?_⟩
      rw [List.singleton_append, readFlags, hread]
      simp only [hname, if_pos hswitch]
    · cases rest with
      | nil =>
        refine .inr fun s => ?_
        rw [readFlags, hread]
        simp only [hname, if_neg hswitch]
      | cons v rest =>
        refine .inl ⟨[arg, v], rest, v, rfl, List.cons_ne_nil _ _, fun s more => ?_⟩
        rw [List.cons_append, readFlags, hread]
        simp only [hname, if_neg hswitch, List.singleton_append]

/-- Reading flags is at its end, where settings are left as they are, or uses up some arguments,
whatever follows them, and goes on. -/
theorem readFlags_cases {s s' : Settings} {args files : List Text}
    (h : s.readFlags args = .ok (s', files)) :
    (s' = s ∧ ∀ u : Settings, u.readFlags args = .ok (u, files)) ∨
    ∃ used rest u, args = used ++ rest ∧ used ≠ [] ∧
      (∀ more, s.readFlags (used ++ more) = readFlags u more) ∧
      readFlags u rest = .ok (s', files) := by
  cases args with
  | nil =>
    rw [readFlags] at h
    obtain ⟨rfl, rfl⟩ := Prod.mk.inj (Except.ok.inj h)
    exact .inl ⟨rfl, fun u => rfl⟩
  | cons arg rest =>
    cases hread : Argument.read arg with
    | plain =>
      simp only [readFlags, hread] at h ⊢
      obtain ⟨rfl, rfl⟩ := Prod.mk.inj (Except.ok.inj h)
      exact .inl ⟨rfl, fun u => rfl⟩
    | stop =>
      simp only [readFlags, hread] at h ⊢
      obtain ⟨rfl, rfl⟩ := Prod.mk.inj (Except.ok.inj h)
      exact .inl ⟨rfl, fun u => rfl⟩
    | malformed =>
      rw [readFlags, hread] at h
      cases h
    | flag name value =>
      cases hname : Flag.ofName? name with
      | none =>
        rw [readFlags, hread] at h
        simp only [hname] at h
        cases h
      | some f =>
        rcases readFlags_flag hread hname rest with ⟨used, rest', v, hargs, hused, hmore⟩ | hmissing
        · rw [hargs, hmore] at h
          obtain ⟨u, hset, hrest⟩ := (bind_eq_ok_iff _ _ _).mp h
          refine .inr ⟨used, rest', u, hargs, hused, fun more => ?_, hrest⟩
          rw [hmore, hset]
          rfl
        · cases (hmissing s).symm.trans h

/-- A start address can be put after the flags of a command line, where it takes the place of any
that was given before. -/
theorem exists_insert_start {s s' : Settings} {args files : List Text}
    (h : s.readFlags args = .ok (s', files)) :
    ∃ flags others, args = flags ++ others ∧ ∀ v : Text,
      s.readFlags (flags ++ startArgs v ++ others) = .ok ({ s' with start := v }, files) := by
  rcases readFlags_cases h with ⟨rfl, hall⟩ | ⟨used, rest, u, rfl, hused, hmore, hrest⟩
  · refine ⟨[], args, rfl, fun v => ?_⟩
    rw [List.nil_append, readFlags_startArgs, hall]
  · have hshorter : rest.length < (used ++ rest).length := by
      have := List.length_pos_iff.mpr hused
      rw [List.length_append]
      omega
    obtain ⟨flags, others, rfl, hinsert⟩ := exists_insert_start hrest
    refine ⟨used ++ flags, others, (List.append_assoc ..).symm, fun v => ?_⟩
    rw [List.append_assoc, List.append_assoc, hmore, ← List.append_assoc, hinsert]
termination_by args.length

end Settings

namespace Options

theorem readStart_of_parse {args : List Text} {o : Options} (h : parse args = .ok o) :
    readStart o.settings.start = .ok o.start := by
  obtain ⟨⟨settings, files⟩, -, h⟩ := (bind_eq_ok_iff _ _ _).mp h
  obtain ⟨start, hstart, h⟩ := (bind_eq_ok_iff _ _ _).mp h
  match files, h with
  | [], h => cases h; exact hstart
  | [file], h => cases h; exact hstart

theorem start_of_parse {args : List Text} {o : Options} (h : parse args = .ok o) {a : BitVec 32}
    (hstart : o.settings.start = addressText a) : o.start = a := by
  have hread := readStart_of_parse h
  rw [hstart, readStart_addressText] at hread
  exact (Except.ok.inj hread).symm

/-- Any address that is shown can be made the start address of a command line, and nothing else
about it changes. -/
theorem exists_parse_startArgs {args : List Text} {o : Options} (h : parse args = .ok o) :
    ∃ flags others, args = flags ++ others ∧ ∀ a : BitVec 32,
      parse (flags ++ Settings.startArgs (addressText a) ++ others) =
        .ok { o with settings := { o.settings with start := addressText a }, start := a } := by
  obtain ⟨⟨settings, files⟩, hflags, hstart⟩ := (bind_eq_ok_iff _ _ _).mp h
  obtain ⟨start, -, hfiles⟩ := (bind_eq_ok_iff _ _ _).mp hstart
  rw [Entry.mapError_eq_ok_iff] at hflags
  obtain ⟨flags, others, rfl, hinsert⟩ := Settings.exists_insert_start hflags
  refine ⟨flags, others, rfl, fun a => ?_⟩
  simp only [parse, hinsert]
  refine (bind_eq_ok_iff _ _ _).mpr ⟨_, rfl, (bind_eq_ok_iff _ _ _).mpr
    ⟨a, readStart_addressText a, ?_⟩⟩
  match files, hfiles with
  | [], hfiles => cases hfiles; rfl
  | [file], hfiles => cases hfiles; rfl

/-- Options ask for the same decoders, each with files of its own. -/
structure SameDecoders (o : Options) (dir : Directory) (o' : Options) (dir' : Directory) :
    Prop where
  mode : o'.settings.mode = o.settings.mode
  ext : o'.settings.ext = o.settings.ext
  table : o'.settings.table = o.settings.table
  /-- the file with the table, if there is one, is the same -/
  file : o.settings.table ≠ [] → dir' o.settings.table = dir o.settings.table

/-- The same decoders can be set up for another program. -/
theorem SameDecoders.prepare {o o' : Options} {dir dir' : Directory}
    (hsame : SameDecoders o dir o' dir') {d : Disassembler} {image image' : Text}
    (h : o.prepare dir = .ok (d, image)) (himage : dir' o'.program = some image') :
    o'.prepare dir' = .ok (d, image') := by
  have htable : compactTable o'.settings dir' = compactTable o.settings dir := by
    rw [compactTable, compactTable, hsame.table]
    by_cases hnone : o.settings.table = []
    · rw [hnone]
      rfl
    · rw [hsame.file hnone]
  rw [Options.prepare] at h ⊢
  rw [htable, hsame.mode, hsame.ext, himage]
  split at h
  · cases h
  · split at h
    · cases h
    · split at h
      · cases h
      · obtain ⟨rfl, -⟩ := Prod.mk.inj (Except.ok.inj h)
        rfl

end Options

/-! ## Lines -/

/-- A line starts with the address of its word. -/
theorem CodeWord.take_line (w : CodeWord) (text : Text) :
    (w.line text).take 10 = addressText w.address := by
  have hlength := length_addressText w.address
  simp only [line, List.append_assoc]
  rw [List.take_append_of_le_length (by omega), List.take_of_length_le (by omega)]

/-- **A program can be cut and resumed anywhere.** The first `n` bytes of an image have just those
of its words that fit in them, and a report exactly if bytes are left over; the image after these
words, from the address after them on, has the other words and ends with the same report. The text
of an address that a line starts with can be made the start address of any command line, and is read
back as that address. So whenever the command succeeds, whatever command line asks for the same
decoders, for the address that one of the lines starts with and for a file with what follows from
the word of that line on, writes that line and all lines after it. -/
theorem cut_and_resumed_anywhere :
    (∀ (start : BitVec 32) (image : Text) (n : Nat), n ≤ image.length →
      ∃ before after, (split start image).words = before ++ after ∧
        LongestWithin n (split start image).words before ∧
        (split start (image.take n)).words = before ∧
        ((∃ e, (split start (image.take n)).rest = some e) ↔ totalSize before < n) ∧
        split (start + BitVec.ofInt 32 (totalSize before)) (image.drop (totalSize before).toNat) =
          ⟨after, (split start image).rest⟩) ∧
    (∀ args o, Options.parse args = .ok o →
      ∃ flags others, args = flags ++ others ∧ ∀ (w : CodeWord) (text : Text),
        (w.line text).take 10 = addressText w.address ∧
        Options.parse (flags ++ Settings.startArgs ((w.line text).take 10) ++ others) =
          .ok { o with
            settings := { o.settings with start := addressText w.address }
            start := w.address }) ∧
    ∀ args dir sink, (run args dir sink).error = none →
      ∃ o d image, Options.parse args = .ok o ∧ o.prepare dir = .ok (d, image) ∧
        dir o.program = some image ∧
        (run args dir sink).stdout = ofLines (d.lines (split o.start image).words) ∧
        ∀ k w, (split o.start image).words[k]? = some w →
          ∀ args' o' dir' sink', Options.parse args' = .ok o' → o.SameDecoders dir o' dir' →
            o'.settings.start = (w.line (d.text w)).take 10 →
            dir' o'.program =
              some (image.drop (totalSize ((split o.start image).words.take k)).toNat) →
            sink'.capacity = none →
              (run args' dir' sink').error = none ∧
                (run args' dir' sink').stdout =
                  ofLines ((d.lines (split o.start image).words).drop k) := by
  refine ⟨fun start image n hn => ?_, fun args o hparse => ?_, fun args dir sink hrun => ?_⟩
  · obtain ⟨before, hlongest⟩ := exists_longestWithin n (split start image).words
    obtain ⟨after, hwords⟩ := hlongest.initial
    have hnext := LongestWithin.lt_of_head (hwords ▸ hlongest)
    obtain ⟨htake, hreport⟩ := split_take hwords.symm hn hlongest.fits hnext
    exact ⟨before, after, hwords.symm, hlongest, htake, hreport, split_drop hwords.symm⟩
  · obtain ⟨flags, others, hargs, hinsert⟩ := Options.exists_parse_startArgs hparse
    refine ⟨flags, others, hargs, fun w text => ?_⟩
    rw [take_line]
    exact ⟨rfl, hinsert w.address⟩
  · obtain ⟨o, d, image, hparse, hprepare, hstdout⟩ := exists_prepare_of_run hrun
    refine ⟨o, d, image, hparse, hprepare, Options.program_of_prepare hprepare, hstdout, ?_⟩
    intro k w hw args' o' dir' sink' hparse' hsame hstart hprogram hcap
    rw [take_line] at hstart
    have haddress : o'.start = w.address := Options.start_of_parse hparse' hstart
    have hplaced := (cut_split o.start image).placed k w hw
    have hsplit := split_drop (List.take_append_drop k (split o.start image).words).symm
    rw [← hplaced, ← haddress] at hsplit
    obtain ⟨hout, herr, -⟩ := run_of_prepare_ok hparse' (hsame.prepare hprepare hprogram) sink'
    rw [Sink.writeEach_of_unlimited hcap, hsplit] at hout herr
    refine ⟨herr, hout.trans ?_⟩
    rw [List.nil_append, Disassembler.lines, Disassembler.lines, List.map_drop]

/-- A program that goes beyond the last address and ends inside a word: cut inside its second word,
and listed again from that word on. -/
theorem cut_and_resumed_anywhere_wrapping :
    let image : Text := [0x01, 0x00, 0x73, 0x00, 0x00, 0x00, 0x13, 0x05]
    let dir (image : Text) : Directory := fun name => if name = "own.bin" then some image else none
    let args : List Text := ["-mode", "table", "-start", "FFFFFFFE", "own.bin"]
    let args' : List Text := ["-mode", "table", "-start=0x00000000", "own.bin"]
    (∃ before after, (split 0xFFFFFFFE image).words = before ++ after ∧
      (split 0xFFFFFFFE (image.take 4)).words = before ∧
      split (0xFFFFFFFE + BitVec.ofInt 32 (totalSize before))
        (image.drop (totalSize before).toNat) = ⟨after, (split 0xFFFFFFFE image).rest⟩) ∧
    (run args (dir image) {}).error = none ∧
    ∃ ls, (run args (dir image) {}).stdout = ofLines ls ∧ ls.length = 2 ∧
      (run args' (dir (image.drop 2)) {}).stdout = ofLines (ls.drop 1) := by
  intro image dir args args'
  let o : Options := ⟨{ mode := "table", start := "FFFFFFFE" }, 0xFFFFFFFE, "own.bin"⟩
  let o' : Options := ⟨{ o.settings with start := "0x00000000" }, 0, "own.bin"⟩
  have hparse : Options.parse args = .ok o := by decide +kernel
  have hparse' : Options.parse args' = .ok o' := by decide +kernel
  obtain ⟨record, htable⟩ := exists_compactTable (s := o.settings) rfl (dir image)
  have herror : (run args (dir image) {}).error = none :=
    error_of_prepare_ok hparse (Options.prepare_of_table rfl htable rfl) rfl
  have hwords : (split o.start image).words = [⟨0xFFFFFFFE, 1, 2⟩, ⟨0, 0x73, 4⟩] := by
    decide +kernel
  obtain ⟨hcut, -, hresume⟩ := cut_and_resumed_anywhere
  obtain ⟨before, after, hsplit, -, htake, -, hdrop⟩ := hcut 0xFFFFFFFE image 4 (by decide)
  obtain ⟨o₁, d, image₁, hparse₁, -, himage, hstdout, hlines⟩ :=
    hresume args (dir image) {} herror
  obtain rfl := Except.ok.inj (hparse.symm.trans hparse₁)
  obtain rfl : image = image₁ := Option.some.inj himage
  have hfirst : totalSize ((split o.start image).words.take 1) = 2 := by
    rw [hwords]
    rfl
  refine ⟨⟨before, after, hsplit, htake, hdrop⟩, herror, _, hstdout, ?_, ?_⟩
  · rw [Disassembler.lines, List.length_map, hwords]
    rfl
  · refine (hlines 1 ⟨0, 0x73, 4⟩ (by rw [hwords]; rfl) args' o' (dir (image.drop 2)) {} hparse'
      ⟨rfl, rfl, rfl, fun h => absurd rfl h⟩ ?_ ?_ rfl).2
    · rw [take_line]
      decide +kernel
    · rw [hfirst]
      rfl

end Disassembly
