import Disassembly.Command.Run
import Disassembly.Proofs.Listing.Line
import Disassembly.Proofs.Listing.Schedule

/-!
# All of the listing or none of it

Whatever can go wrong besides writing goes wrong before the first line is written. `Options.prepare`
is all of that: it sets up the decoders and finds the program. If it fails, the command fails with
the same error and an empty output (`run_of_prepare_error`); if it succeeds, the command does
nothing more than to write the lines (`run_of_prepare_ok`), and writing goes on line by line until
the output takes no more (`Sink.writeEach`).

Nothing of this depends on how many workers there are, on the log or on the dump
(`Options.prepare_congr`), and the workers come to an end with nothing but the lines that are
written (`ListingState.Run.result_eq_ok`, `ListingState.Run.exists_result_ok`).
-/

namespace Disassembly

open Text ListingTask

/-! ## Writing line by line -/

namespace Sink

/-- Whether there is room for a line after `count` others. -/
def accepts (sink : Sink) (count : Nat) : Bool := sink.capacity.all (count < ·)

/-- Write lines one after the other until one finds no room. The result has the lines that were
written, those before included. -/
def writeEach (sink : Sink) (written : List Text) : List Text → List Text × Option RunError
  | [] => (written, none)
  | l :: ls =>
    if sink.accepts written.length then writeEach sink (written ++ [l]) ls
    else (written, some (.write sink.failure))

variable {sink : Sink}

theorem writeEach_of_unlimited (hcap : sink.capacity = none) (written ls : List Text) :
    sink.writeEach written ls = (written ++ ls, none) := by
  induction ls generalizing written with
  | nil => rw [writeEach, List.append_nil]
  | cons l ls ih =>
    have hroom : sink.accepts written.length = true := by
      rw [accepts, hcap]
      rfl
    rw [writeEach, if_pos hroom, ih, List.append_assoc, List.singleton_append]

/-- With room for `n` lines of which some are written, as many of the others follow as fit, and the
next one is the first to fail. -/
theorem writeEach_of_limited {n : Nat} (hcap : sink.capacity = some n) (written : List Text)
    (hle : written.length ≤ n) (ls : List Text) :
    sink.writeEach written ls =
      (written ++ ls.take (n - written.length),
        if n < written.length + ls.length then some (.write sink.failure) else none) := by
  induction ls generalizing written with
  | nil => rw [writeEach, List.take_nil, List.append_nil, List.length_nil, if_neg (by omega)]
  | cons l ls ih =>
    have haccepts : sink.accepts written.length = decide (written.length < n) := by
      rw [accepts, hcap]
      rfl
    rw [writeEach, haccepts, List.length_cons]
    by_cases hroom : written.length < n
    · have hlength : (written ++ [l]).length = written.length + 1 := by simp
      have htotal : written.length + 1 + ls.length = written.length + (ls.length + 1) := by omega
      rw [if_pos (by simpa using hroom), ih _ (by omega), hlength, List.append_assoc,
        show n - written.length = n - (written.length + 1) + 1 by omega, List.take_succ_cons,
        List.singleton_append, htotal]
    · rw [if_neg (by simpa using hroom), show n - written.length = 0 by omega, List.take_zero,
        List.append_nil, if_pos (by omega)]

/-- If no line fails, all are written. -/
theorem writeEach_of_eq_none {ls : List Text} (h : (sink.writeEach [] ls).2 = none) :
    (sink.writeEach [] ls).1 = ls := by
  rcases hcap : sink.capacity with _ | n
  · rw [writeEach_of_unlimited hcap, List.nil_append]
  · rw [writeEach_of_limited hcap [] (Nat.zero_le n)] at h ⊢
    rw [List.length_nil, Nat.zero_add] at h
    have hroom : ls.length ≤ n := by
      by_contra hmore
      rw [if_pos (Nat.not_le.mp hmore)] at h
      cases h
    rw [List.length_nil, Nat.sub_zero, List.take_of_length_le hroom, List.nil_append]

/-- What is in the output at the end are the lines that were written one after the other. -/
theorem write_eq_writeEach (sink : Sink) (ls : List Text) :
    sink.write ls = (ofLines (sink.writeEach [] ls).1, (sink.writeEach [] ls).2) := by
  rcases hcap : sink.capacity with _ | n
  · rw [writeEach_of_unlimited hcap, write, hcap]
    rfl
  · rw [writeEach_of_limited hcap [] (Nat.zero_le n), write, hcap]
    simp only [List.nil_append, List.length_nil, Nat.sub_zero, Nat.zero_add]
    split
    · rfl
    · rename_i hroom
      rw [List.take_of_length_le (by omega)]
      rfl

end Sink

/-! ## Everything before the first line -/

namespace Options

/-- The decoders that are asked for and the program, or what is wrong with them. -/
def prepare (o : Options) (dir : Directory) : Except RunError (Disassembler × Text) :=
  match compactTable o.settings dir with
  | .error e => .error e
  | .ok (table, _) =>
    match wideDecoder o.settings.mode o.settings.ext with
    | .error e => .error e
    | .ok wide =>
      match dir o.program with
      | none => .error (.programMissing o.program)
      | some image => .ok (⟨table.textOf, wide.text⟩, image)

/-- Options that differ at most in the number of workers, the level of the log and the dump. -/
structure Alike (o o' : Options) : Prop where
  program : o.program = o'.program
  start : o.start = o'.start
  mode : o.settings.mode = o'.settings.mode
  table : o.settings.table = o'.settings.table
  ext : o.settings.ext = o'.settings.ext

theorem compactTable_congr {s s' : Settings} (h : s.table = s'.table) (dir : Directory) :
    compactTable s dir = compactTable s' dir := by
  rw [compactTable, compactTable, h]

/-- The same is prepared for options that are alike. -/
theorem prepare_congr {o o' : Options} (h : o.Alike o') (dir : Directory) :
    o.prepare dir = o'.prepare dir := by
  rw [prepare, prepare, compactTable_congr h.table dir, h.mode, h.ext, h.program]

/-- What is prepared are the decoders that the settings ask for and the program file. -/
theorem exists_decoders_of_prepare {o : Options} {dir : Directory} {d : Disassembler} {image : Text}
    (h : o.prepare dir = .ok (d, image)) :
    ∃ t r wide, compactTable o.settings dir = .ok (t, r) ∧
      wideDecoder o.settings.mode o.settings.ext = .ok wide ∧ d = ⟨t.textOf, wide.text⟩ ∧
      dir o.program = some image := by
  rw [prepare] at h
  rcases htable : compactTable o.settings dir with e | ⟨t, r⟩
  · rw [htable] at h
    cases h
  rcases hwide : wideDecoder o.settings.mode o.settings.ext with e | wide
  · rw [htable, hwide] at h
    cases h
  rcases himage : dir o.program with _ | image'
  · rw [htable, hwide, himage] at h
    cases h
  · rw [htable, hwide, himage] at h
    obtain ⟨rfl, rfl⟩ := Prod.mk.inj (Except.ok.inj h)
    exact ⟨t, r, wide, rfl, rfl, rfl, rfl⟩

theorem program_of_prepare {o : Options} {dir : Directory} {d : Disassembler} {image : Text}
    (h : o.prepare dir = .ok (d, image)) : dir o.program = some image := by
  obtain ⟨-, -, -, -, -, -, himage⟩ := exists_decoders_of_prepare h
  exact himage

/-- In the mode `table`, all is prepared once there is a table of compressed instructions and a
program. -/
theorem prepare_of_table {o : Options} {dir : Directory} {t : Table .compact} {r : LogRecord}
    {image : Text} (hmode : o.settings.mode = "table")
    (htable : compactTable o.settings dir = .ok (t, r)) (himage : dir o.program = some image) :
    o.prepare dir = .ok (⟨t.textOf, Table.baseInteger.textOf⟩, image) := by
  obtain ⟨d, hwide, htext⟩ := exists_wideDecoder o.settings.ext
  simp only [prepare, htable, hmode, hwide, himage, htext]

end Options

/-- The record about a word that the end of the program cuts short. -/
def Truncation.warning (e : Truncation) : LogRecord :=
  ⟨.warning, "ignoring trailing bytes", [("error", .text e.message)]⟩

/-! ## The command -/

section Run

/-- With options for which something cannot be prepared, the command fails before it writes. Once
all is prepared it writes the lines, and logs a cut word whether they find room or not. -/
theorem runOptions_cases (o : Options) (dir : Directory) (sink : Sink) :
    (∃ e, o.prepare dir = .error e ∧ (runOptions o dir sink).error = some e ∧
      (runOptions o dir sink).stdout = []) ∨
    ∃ d image, o.prepare dir = .ok (d, image) ∧
      ((runOptions o dir sink).stdout, (runOptions o dir sink).error) =
        sink.write (d.lines (Program.split o.start image).words) ∧
      ∀ e, (Program.split o.start image).rest = some e →
        e.warning ∈ (runOptions o dir sink).log := by
  unfold runOptions Options.prepare
  rcases compactTable o.settings dir with e | ⟨table, record⟩
  · exact .inl ⟨e, rfl, rfl, rfl⟩
  rcases wideDecoder o.settings.mode o.settings.ext with e | wide
  · exact .inl ⟨e, rfl, rfl, rfl⟩
  unfold runProgram
  rcases dir o.program with _ | image
  · exact .inl ⟨_, rfl, rfl, rfl⟩
  · refine .inr ⟨_, _, rfl, rfl, fun e he => ?_⟩
    simp only [he]
    exact List.mem_append_right _ (List.mem_cons_of_mem _ List.mem_cons_self)

variable {args : List Text} {o : Options} {dir : Directory}

/-- Running a command line is running its options, up to the part of the log that is kept. -/
theorem run_of_parse (hparse : Options.parse args = .ok o) (dir : Directory) (sink : Sink) :
    (run args dir sink).error = (runOptions o dir sink).error ∧
      (run args dir sink).stdout = (runOptions o dir sink).stdout ∧
      ∀ r ∈ (runOptions o dir sink).log, r.isKept o.settings.verbose = true →
        r ∈ (run args dir sink).log := by
  unfold run
  rw [hparse]
  exact ⟨rfl, rfl, fun r hr hkept => List.mem_filter.mpr ⟨hr, hkept⟩⟩

/-- A command line for which something cannot be prepared writes nothing. -/
theorem run_of_prepare_error (hparse : Options.parse args = .ok o) {e : RunError}
    (h : o.prepare dir = .error e) (sink : Sink) :
    (run args dir sink).error = some e ∧ (run args dir sink).stdout = [] := by
  obtain ⟨herror, hstdout, -⟩ := run_of_parse hparse dir sink
  rw [herror, hstdout]
  rcases runOptions_cases o dir sink with ⟨e', he', hfails⟩ | ⟨d, image, hok, -⟩
  · obtain rfl : e = e' := Except.error.inj (h.symm.trans he')
    exact hfails
  · cases h.symm.trans hok

/-- What the command writes, and the error that comes of it, are those of writing the lines one
after the other. -/
theorem run_of_prepare_ok (hparse : Options.parse args = .ok o) {d : Disassembler} {image : Text}
    (h : o.prepare dir = .ok (d, image)) (sink : Sink) :
    (run args dir sink).stdout =
        ofLines (sink.writeEach [] (d.lines (Program.split o.start image).words)).1 ∧
      (run args dir sink).error =
        (sink.writeEach [] (d.lines (Program.split o.start image).words)).2 ∧
      ∀ e, (Program.split o.start image).rest = some e → e.warning ∈ (run args dir sink).log := by
  obtain ⟨herror, hstdout, hlog⟩ := run_of_parse hparse dir sink
  rcases runOptions_cases o dir sink with ⟨e, he, -⟩ | ⟨d', image', hok, hwrite, hwarning⟩
  · cases h.symm.trans he
  · obtain ⟨rfl, rfl⟩ := Prod.mk.inj (Except.ok.inj (h.symm.trans hok))
    rw [Sink.write_eq_writeEach] at hwrite
    obtain ⟨hout, herr⟩ := Prod.mk.inj hwrite
    refine ⟨hstdout.trans hout, herror.trans herr, fun e he => ?_⟩
    exact hlog _ (hwarning e he) (by simp [LogRecord.isKept, Truncation.warning])

/-- Once all is prepared, only writing can fail. -/
theorem error_of_prepare_ok (hparse : Options.parse args = .ok o) {d : Disassembler} {image : Text}
    (h : o.prepare dir = .ok (d, image)) {sink : Sink} (hcap : sink.capacity = none) :
    (run args dir sink).error = none := by
  rw [(run_of_prepare_ok hparse h sink).2.1, Sink.writeEach_of_unlimited hcap]

/-- A run that ends without an error has prepared everything and written all lines. -/
theorem exists_prepare_of_run {sink : Sink} (h : (run args dir sink).error = none) :
    ∃ o d image, Options.parse args = .ok o ∧ o.prepare dir = .ok (d, image) ∧
      (run args dir sink).stdout = ofLines (d.lines (Program.split o.start image).words) := by
  rcases hparse : Options.parse args with e | o
  · rw [run, hparse] at h
    cases h
  rcases hprepare : o.prepare dir with e | ⟨d, image⟩
  · cases (run_of_prepare_error hparse hprepare sink).1.symm.trans h
  · obtain ⟨hout, herr, -⟩ := run_of_prepare_ok hparse hprepare sink
    have hall := Sink.writeEach_of_eq_none (herr.symm.trans h)
    exact ⟨o, d, image, rfl, hprepare, hout.trans (congrArg ofLines hall)⟩

end Run

namespace ListingState.Run

variable {d : Disassembler} {words : List CodeWord} {workers : Int} {as : List ListingAction}
  {s : ListingState}

/-- Unless somebody gives a listing up, its tasks can only end with all lines in order, however many
workers there are and however they take turns. -/
theorem result_eq_ok (hrun : Run d words workers (initial words.length false) as s)
    (hnever : .cancel ∉ as) {r : Except ListingError (List Text)} (hr : s.result = some r) :
    r = .ok (d.lines words) := by
  rcases (hrun.sound (sound_initial d words false)).result r hr with hok | ⟨-, hgiven⟩
  · exact hok
  · rcases hrun.cancelled_iff.mp hgiven with hgiven | hgiven
    · cases hgiven
    · exact absurd hgiven hnever

/-- Unless somebody gives a listing up, its tasks do get to all lines in order. -/
theorem exists_result_ok (hrun : Run d words workers (initial words.length false) as s)
    (hnever : .cancel ∉ as) :
    ∃ bs s', .cancel ∉ bs ∧ Run d words workers (initial words.length false) (as ++ bs) s' ∧
      s'.result = some (.ok (d.lines words)) := by
  obtain ⟨bs, s', r, hbs, hrun', hr⟩ := hrun.exists_result (sound_initial d words false)
  have hnever' : .cancel ∉ as ++ bs := by
    rw [List.mem_append, not_or]
    exact ⟨hnever, hbs⟩
  obtain rfl := hrun'.result_eq_ok hnever' hr
  exact ⟨bs, s', hbs, hrun', hr⟩

end ListingState.Run

/-- **All of the listing or none of it.** Where the output takes every line, a command line either
succeeds with the lines for all complete words of the program, a cut word at the end being logged
and no error, or it fails with an empty output. Where the output takes `n` lines and the listing
has more, the first `n` lines are written and the error is that of writing. Command lines whose
options differ only in the number of workers, the level of the log and the dump have the same
output and the same error; and unless they are given up, the tasks of however many workers come to
an end after so many steps, however they take turns, can always go on to a result until there is
one, and have just the lines that are written as their result. -/
theorem stdout_all_or_nothing (args : List Text) (dir : Directory) :
    (∀ sink, sink.capacity = none →
      (∃ o d image, Options.parse args = .ok o ∧ o.prepare dir = .ok (d, image) ∧
        dir o.program = some image ∧ (run args dir sink).error = none ∧
        (run args dir sink).stdout = ofLines (d.lines (Program.split o.start image).words) ∧
        ∀ e, (Program.split o.start image).rest = some e →
          e.warning ∈ (run args dir sink).log) ∨
      ∃ e, (run args dir sink).error = some e ∧ (run args dir sink).stdout = []) ∧
    (∀ sink n o d image, sink.capacity = some n → Options.parse args = .ok o →
      o.prepare dir = .ok (d, image) → n < (d.lines (Program.split o.start image).words).length →
        (run args dir sink).stdout =
          ofLines ((d.lines (Program.split o.start image).words).take n) ∧
        (run args dir sink).error = some (.write sink.failure) ∧
        (RunError.write sink.failure).message = "failed to write listing: " ++ sink.failure) ∧
    (∀ args' o o', Options.parse args = .ok o → Options.parse args' = .ok o' → o.Alike o' →
      ∀ sink, (run args dir sink).stdout = (run args' dir sink).stdout ∧
        (run args dir sink).error = (run args' dir sink).error) ∧
    ∀ o d image, Options.parse args = .ok o → o.prepare dir = .ok (d, image) →
      ∀ workers as s, ListingState.Run d (Program.split o.start image).words workers
        (.initial (Program.split o.start image).words.length false) as s → .cancel ∉ as →
      as.length ≤ (2 * chunkSize + 3) * chunkCount (Program.split o.start image).words.length + 2 ∧
      (∃ bs s', .cancel ∉ bs ∧ ListingState.Run d (Program.split o.start image).words workers
        (.initial (Program.split o.start image).words.length false) (as ++ bs) s' ∧
        s'.result = some (.ok (d.lines (Program.split o.start image).words))) ∧
      ∀ r, s.result = some r → r = .ok (d.lines (Program.split o.start image).words) := by
  refine ⟨fun sink hcap => ?_, fun sink n o d image hcap hparse hprepare hmore => ?_,
    fun args' o o' hparse hparse' halike sink => ?_, fun o d image _ _ workers as s hrun hnever =>
      ⟨hrun.length_le, hrun.exists_result_ok hnever, fun r hr => hrun.result_eq_ok hnever hr⟩⟩
  · rcases hparse : Options.parse args with e | o
    · refine .inr ⟨.options e, ?_⟩
      rw [run, hparse]
      exact ⟨rfl, rfl⟩
    · rcases hprepare : o.prepare dir with e | ⟨d, image⟩
      · exact .inr ⟨e, run_of_prepare_error hparse hprepare sink⟩
      · obtain ⟨hout, herr, hlog⟩ := run_of_prepare_ok hparse hprepare sink
        rw [Sink.writeEach_of_unlimited hcap] at hout herr
        have hprogram := Options.program_of_prepare hprepare
        exact .inl ⟨o, d, image, rfl, hprepare, hprogram, herr, hout, hlog⟩
  · obtain ⟨hout, herr, -⟩ := run_of_prepare_ok hparse hprepare sink
    rw [Sink.writeEach_of_limited hcap [] (Nat.zero_le n)] at hout herr
    rw [List.length_nil, Nat.zero_add, if_pos hmore] at herr
    exact ⟨hout, herr, rfl⟩
  · rcases hprepare : o.prepare dir with e | ⟨d, image⟩
    · obtain ⟨herr, hout⟩ := run_of_prepare_error hparse hprepare sink
      rw [Options.prepare_congr halike] at hprepare
      obtain ⟨herr', hout'⟩ := run_of_prepare_error hparse' hprepare sink
      exact ⟨hout.trans hout'.symm, herr.trans herr'.symm⟩
    · obtain ⟨hout, herr, -⟩ := run_of_prepare_ok hparse hprepare sink
      rw [Options.prepare_congr halike] at hprepare
      obtain ⟨hout', herr', -⟩ := run_of_prepare_ok hparse' hprepare sink
      rw [halike.start] at hout herr
      exact ⟨hout.trans hout'.symm, herr.trans herr'.symm⟩

/-- A program of two words and half a third, of which the output takes one line, whatever the
number of workers. -/
theorem stdout_all_or_nothing_full :
    let args : List Text := ["-mode", "table", "-table", "own.tbl", "own.bin"]
    let args' : List Text := "-j" :: "9" :: "-v" :: "-dump" :: args
    let image : Text := [0x01, 0x00, 0x73, 0x00, 0x00, 0x00, 0x13, 0x05]
    let dir : Directory := fun name =>
      if name = "own.bin" then some image
      else if name = "own.tbl" then some "\"#  none\", 000, imm[12:0] # a comment\n"
      else none
    let sink : Sink := ⟨some 1, "no space left"⟩
    (run args dir sink).error = some (.write "no space left") ∧
      (∃ ls, ls.length = 2 ∧ (run args dir {}).stdout = ofLines ls ∧
        (run args dir sink).stdout = ofLines (ls.take 1)) ∧
      (run args dir sink).stdout = (run args' dir sink).stdout := by
  intro args args' image dir sink
  let o : Options := ⟨{ mode := "table", table := "own.tbl" }, 0, "own.bin"⟩
  let o' : Options :=
    ⟨{ o.settings with workers := 9, dump := true, verbose := true }, 0, "own.bin"⟩
  have hparse : Options.parse args = .ok o := by decide +kernel
  have hparse' : Options.parse args' = .ok o' := by decide +kernel
  have hready : (compactTable o.settings dir).toOption.isSome = true := by decide +kernel
  obtain ⟨hall, hsome, hsame, -⟩ := stdout_all_or_nothing args dir
  obtain ⟨d, hprepare⟩ : ∃ d, o.prepare dir = .ok (d, image) :=
    ⟨_, Options.prepare_of_table rfl (eq_ok_get hready) rfl⟩
  have hlength : (d.lines (Program.split o.start image).words).length = 2 := by
    rw [Disassembler.lines, List.length_map]
    decide +kernel
  obtain ⟨hfirst, herror, -⟩ := hsome sink 1 o d image rfl hparse hprepare (by omega)
  refine ⟨herror, ⟨_, hlength, ?_, hfirst⟩, ?_⟩
  · rcases hall {} rfl with ⟨o₁, d₁, image₁, hparse₁, hprepare₁, -, -, hstdout, -⟩ | ⟨e, he, -⟩
    · obtain rfl := Except.ok.inj (hparse.symm.trans hparse₁)
      obtain ⟨rfl, rfl⟩ := Prod.mk.inj (Except.ok.inj (hprepare.symm.trans hprepare₁))
      exact hstdout
    · cases he.symm.trans (error_of_prepare_ok hparse hprepare rfl)
  · exact (hsame args' o o' hparse hparse' ⟨rfl, rfl, rfl, rfl, rfl⟩ sink).1

end Disassembly
