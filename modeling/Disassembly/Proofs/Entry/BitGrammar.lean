import Disassembly.Proofs.Entry.Quotes

/-!
# The grammar of bit lists

`BitList.Denotes` is the grammar of bit lists, level by level and without a word on how they are
read:

* `BitList.Index`: digits that denote a number up to 255, with white space around them;
* `BitList.IsRun`: the indices from one of them down to another, which is what a countdown gives
  (`BitList.isRun_countdown`);
* `BitList.Item`: an index, or two of them with a colon between them, which denote a run;
* `BitList.Denotes`: items with bars between them.

At every level a text is read exactly if the grammar has it, and to what it denotes there
(`BitList.readIndex_eq_ok_iff`, `BitList.readItem_eq_ok_iff`, `BitList.parse_eq_ok_iff`): neither a
colon nor a bar is a digit or white space, so a text is cut where the grammar has them. What is not
read is white space alone, or a fault of grammar (`BitList.cause_of_parse`).
-/

namespace Disassembly

open Text

/-! ## Lists read member by member -/

section Members

variable {ε α β : Type} {f : α → Except ε β}

theorem bind_eq_error_iff (x : Except ε α) (f : α → Except ε β) (e : ε) :
    (x >>= f) = .error e ↔ x = .error e ∨ ∃ a, x = .ok a ∧ f a = .error e := by
  cases x <;> simp [bind, Except.bind]

theorem mapM_eq_ok_iff (us : List α) (xs : List β) :
    us.mapM f = .ok xs ↔ List.Forall₂ (fun u x => f u = .ok x) us xs := by
  constructor
  · intro h
    induction us generalizing xs with
    | nil =>
      obtain rfl := Except.ok.inj h
      exact .nil
    | cons u us ih =>
      rw [List.mapM_cons, bind_eq_ok_iff] at h
      obtain ⟨x, hx, h⟩ := h
      obtain ⟨xs', hxs, h⟩ := (bind_eq_ok_iff _ _ _).mp h
      obtain rfl := Except.ok.inj h
      exact .cons hx (ih _ hxs)
  · intro h
    rw [mapM_of_forall₂ (g := id) h.flip fun _ _ _ hx => hx, List.map_id]

/-- If a list cannot be read, it is because of one of its members. -/
theorem exists_of_mapM_eq_error {us : List α} {e : ε} (h : us.mapM f = .error e) :
    ∃ u ∈ us, f u = .error e := by
  induction us with
  | nil => cases h
  | cons u us ih =>
    rw [List.mapM_cons, bind_eq_error_iff] at h
    rcases h with hu | ⟨x, -, h⟩
    · exact ⟨u, List.mem_cons_self, hu⟩
    rcases (bind_eq_error_iff _ _ _).mp h with hus | ⟨xs, -, h⟩
    · obtain ⟨u', hmem, hu'⟩ := ih hus
      exact ⟨u', List.mem_cons_of_mem u hmem, hu'⟩
    · cases h

end Members

/-! ## Indices -/

namespace BitList

/-- A text that denotes the index `n`: digits, with white space around them. -/
def Index (n : Nat) (u : Text) : Prop := n ≤ 255 ∧ ∃ t, IsNumeral 10 n t ∧ Padded t u

/-- An index is read exactly where there is one. -/
theorem readIndex_eq_ok_iff (list item : Text) (n : Nat) :
    readIndex list item = .ok n ↔ Index n item := by
  rw [readIndex, Entry.mapError_eq_ok_iff, readNumeral_eq_ok_iff (Nat.le_refl 10)]
  constructor
  · rintro ⟨hnumeral, hle⟩
    exact ⟨hle, item.trim, hnumeral, padded_trim item⟩
  · rintro ⟨hle, t, hnumeral, hpadded⟩
    rw [(trim_eq_iff (framed_of_isNumeral hnumeral) item).mpr hpadded]
    exact ⟨hnumeral, hle⟩

theorem cause_of_readIndex {list item : Text} {f : BitListFault}
    (h : readIndex list item = .error f) : f.cause = .grammar := by
  rw [readIndex] at h
  rcases hread : readNumeral 10 lastBitIndex item.trim with e | n
  · rw [hread] at h
    obtain rfl := Except.error.inj h
    rfl
  · rw [hread] at h
    cases h

theorem index_decimal {n : Nat} (hn : n ≤ 255) : Index n (decimal n) :=
  ⟨hn, _, isNumeral_decimal n, .refl _⟩

namespace Index

variable {n : Nat} {u : Text} (h : Index n u)
include h

/-- There is nothing but digits and white space in an index. -/
theorem not_mem {b : UInt8} (hsolid : isSolid b = true) (hdigit : isDigit b = false) : b ∉ u := by
  obtain ⟨-, t, hnumeral, hpadded⟩ := h
  refine hpadded.not_mem hsolid fun hmem => ?_
  cases hdigit.symm.trans (isDigit_of_isNumeral hnumeral b hmem)

theorem lt_size : n < UInt64.size := Nat.lt_of_le_of_lt h.1 (by decide)

theorem unique {m : Nat} (h' : Index m u) : n = m :=
  Except.ok.inj (((readIndex_eq_ok_iff [] u n).mpr h).symm.trans
    ((readIndex_eq_ok_iff [] u m).mpr h'))

theorem exists_digit : ∃ b ∈ u, isDigit b = true := by
  obtain ⟨-, t, hnumeral, before, after, rfl, -, -⟩ := h
  obtain ⟨⟨b, t', rfl, -⟩, -⟩ := framed_of_isNumeral hnumeral
  exact ⟨b, by simp, isDigit_of_isNumeral hnumeral b List.mem_cons_self⟩

end Index

/-! ## Runs -/

/-- The indices from `high` down to `low`: every one is less by one than the one before it. -/
structure IsRun (high low : Nat) (run : List UInt64) : Prop where
  first : run.head?.map UInt64.toNat = some high
  last : run.getLast?.map UInt64.toNat = some low
  steps : run.IsChain fun a b => a.toNat = b.toNat + 1

namespace IsRun

theorem singleton (d : UInt64) : IsRun d.toNat d.toNat [d] := ⟨rfl, rfl, .singleton d⟩

/-- A run goes on above its first index. -/
theorem cons {high low : Nat} {run : List UInt64} (h : IsRun high low run) {a : UInt64}
    (ha : a.toNat = high + 1) : IsRun (high + 1) low (a :: run) := by
  obtain ⟨hfirst, hlast, hsteps⟩ := h
  cases run with
  | nil => cases hfirst
  | cons b run =>
    obtain rfl : b.toNat = high := Option.some.inj hfirst
    refine ⟨congrArg some ha, ?_, List.isChain_cons_cons.mpr ⟨ha, hsteps⟩⟩
    rw [List.getLast?_cons_cons]
    exact hlast

/-- A run is its first index, or goes on below it. -/
theorem cases_cons {high low : Nat} {a : UInt64} {run : List UInt64}
    (h : IsRun high low (a :: run)) :
    a.toNat = high ∧ (run = [] ∧ low = high ∨ ∃ n, high = n + 1 ∧ IsRun n low run) := by
  obtain ⟨hfirst, hlast, hsteps⟩ := h
  obtain rfl : a.toNat = high := Option.some.inj hfirst
  cases run with
  | nil => exact ⟨rfl, .inl ⟨rfl, (Option.some.inj hlast).symm⟩⟩
  | cons b run =>
    obtain ⟨hstep, hsteps⟩ := List.isChain_cons_cons.mp hsteps
    rw [List.getLast?_cons_cons] at hlast
    exact ⟨rfl, .inr ⟨b.toNat, hstep, rfl, hlast, hsteps⟩⟩

theorem length_add {high low : Nat} {run : List UInt64} (h : IsRun high low run) :
    run.length + low = high + 1 := by
  induction run generalizing high with
  | nil => cases h.first
  | cons a run ih =>
    obtain ⟨-, ⟨rfl, rfl⟩ | ⟨n, rfl, hrest⟩⟩ := h.cases_cons
    · rw [List.length_singleton, Nat.add_comm]
    · have := ih hrest
      rw [List.length_cons]
      omega

theorem le {high low : Nat} {run : List UInt64} (h : IsRun high low run) : low ≤ high := by
  have hlength := h.length_add
  cases run with
  | nil => cases h.first
  | cons a run =>
    rw [List.length_cons] at hlength
    omega

/-- The two ends of a run say all of it. -/
theorem unique {high low : Nat} {run run' : List UInt64} (h : IsRun high low run)
    (h' : IsRun high low run') : run = run' := by
  induction run generalizing high run' with
  | nil => cases h.first
  | cons a run ih =>
    cases run' with
    | nil => cases h'.first
    | cons a' run' =>
      obtain ⟨ha, hrest⟩ := h.cases_cons
      obtain ⟨ha', hrest'⟩ := h'.cases_cons
      obtain rfl : a = a' := UInt64.toNat_inj.mp (ha.trans ha'.symm)
      rcases hrest with ⟨rfl, rfl⟩ | ⟨n, rfl, hrest⟩
      · rcases hrest' with ⟨rfl, -⟩ | ⟨n, rfl, hrest'⟩
        · rfl
        · exact absurd hrest'.le (Nat.not_succ_le_self n)
      · rcases hrest' with ⟨-, rfl⟩ | ⟨m, hm, hrest'⟩
        · exact absurd hrest.le (Nat.not_succ_le_self n)
        · obtain rfl := Nat.succ.inj hm
          rw [ih hrest hrest']

end IsRun

/-- The countdown comes to an end, and what it has gone through is the run. -/
theorem isRun_countdown {i bottom : UInt64} (h : bottom ≤ i) :
    IsRun i.toNat bottom.toNat (countdown i bottom) := by
  induction i using countdown.induct bottom with
  | case1 i ih =>
    rw [countdown]
    split
    · rename_i heq
      rw [heq]
      exact .singleton bottom
    · rename_i hne
      -- the last index is below this one, so the step does not wrap around
      have hlt : bottom.toNat < i.toNat := by
        have hle := UInt64.le_iff_toNat_le.mp h
        have hne' : bottom.toNat ≠ i.toNat := fun heq => hne (UInt64.toNat_inj.mp heq.symm)
        omega
      have hpred : (i - 1).toNat = i.toNat - 1 := by
        apply UInt64.toNat_sub_of_le
        exact UInt64.le_iff_toNat_le.mpr (Nat.lt_of_le_of_lt (Nat.zero_le _) hlt)
      have hrest := ih hne (UInt64.le_iff_toNat_le.mpr (by omega))
      rw [hpred] at hrest
      have hsucc : i.toNat = i.toNat - 1 + 1 := by omega
      rw [hsucc]
      exact hrest.cons hsucc

theorem countdown_eq_iff {high low : Nat} (hhigh : high < UInt64.size) (hle : low ≤ high)
    (run : List UInt64) : countdown (.ofNat high) (.ofNat low) = run ↔ IsRun high low run := by
  have hhigh' : (UInt64.ofNat high).toNat = high := UInt64.toNat_ofNat_of_lt' hhigh
  have hlow' : (UInt64.ofNat low).toNat = low :=
    UInt64.toNat_ofNat_of_lt' (Nat.lt_of_le_of_lt hle hhigh)
  have hrun : IsRun high low (countdown (.ofNat high) (.ofNat low)) := by
    rw [← hhigh', ← hlow', UInt64.ofNat_toNat, UInt64.ofNat_toNat]
    apply isRun_countdown
    rwa [UInt64.le_iff_toNat_le, hhigh', hlow']
  constructor
  · rintro rfl
    exact hrun
  · exact hrun.unique

/-! ## Items -/

/-- What an item of a bit list denotes. -/
inductive Item : Text → List UInt64 → Prop
  /-- a single index -/
  | single {u : Text} {d : UInt64} (h : Index d.toNat u) : Item u [d]
  /-- a run, by its first and its last index with a colon between them -/
  | range {top bottom : Text} {high low : Nat} {run : List UInt64} (htop : Index high top)
      (hbottom : Index low bottom) (hrun : IsRun high low run) : Item (top ++ 0x3A :: bottom) run

theorem readItem_eq (list : Text) {item top bottom : Text}
    (h : (cut? 0x3A item).getD (item, item) = (top, bottom)) :
    readItem list item = (readIndex list top >>= fun high => readIndex list bottom >>= fun low =>
      if high < low then .error (.ascending list high low)
      else .ok (countdown (.ofNat high) (.ofNat low))) := by
  rw [readItem, h]
  rfl

theorem readItem_of_ends {item top bottom : Text}
    (h : (cut? 0x3A item).getD (item, item) = (top, bottom)) (list : Text) (run : List UInt64) :
    readItem list item = .ok run ↔
      ∃ high low, Index high top ∧ Index low bottom ∧ IsRun high low run := by
  rw [readItem_eq list h, bind_eq_ok_iff]
  simp only [bind_eq_ok_iff, readIndex_eq_ok_iff]
  constructor
  · rintro ⟨high, hhigh, low, hlow, hrun⟩
    by_cases hlt : high < low
    · rw [if_pos hlt] at hrun
      cases hrun
    · rw [if_neg hlt] at hrun
      exact ⟨high, low, hhigh, hlow,
        (countdown_eq_iff hhigh.lt_size (Nat.not_lt.mp hlt) run).mp (Except.ok.inj hrun)⟩
  · rintro ⟨high, low, hhigh, hlow, hrun⟩
    refine ⟨high, hhigh, low, hlow, ?_⟩
    rw [if_neg (Nat.not_lt.mpr hrun.le), (countdown_eq_iff hhigh.lt_size hrun.le run).mpr hrun]

/-- An item is read exactly where there is one, and to the run that it denotes. -/
theorem readItem_eq_ok_iff (list item : Text) (run : List UInt64) :
    readItem list item = .ok run ↔ Item item run := by
  constructor
  · intro h
    rcases hcut : cut? 0x3A item with _ | ⟨top, bottom⟩
    · have hends : (cut? 0x3A item).getD (item, item) = (item, item) := by rw [hcut]; rfl
      obtain ⟨high, low, hhigh, hlow, hrun⟩ := (readItem_of_ends hends list run).mp h
      obtain rfl := hhigh.unique hlow
      have hself := UInt64.toNat_ofNat_of_lt' hhigh.lt_size
      rw [← hself] at hrun hhigh
      rw [hrun.unique (.singleton _)]
      exact .single hhigh
    · have hends : (cut? 0x3A item).getD (item, item) = (top, bottom) := by rw [hcut]; rfl
      obtain ⟨high, low, hhigh, hlow, hrun⟩ := (readItem_of_ends hends list run).mp h
      rw [(eq_of_cut? hcut).1]
      exact .range hhigh hlow hrun
  · intro h
    cases h with
    | @single _ d h =>
      have hcut := cut?_of_not_mem (h.not_mem (b := 0x3A) (by decide) (by decide))
      exact (readItem_of_ends (by rw [hcut]; rfl) list _).mpr
        ⟨d.toNat, d.toNat, h, h, .singleton d⟩
    | @range top bottom high low _ htop hbottom hrun =>
      have hcut := cut?_append (htop.not_mem (b := 0x3A) (by decide) (by decide)) bottom
      exact (readItem_of_ends (by rw [hcut]; rfl) list _).mpr
        ⟨high, low, htop, hbottom, hrun⟩

theorem cause_of_readItem {list item : Text} {f : BitListFault}
    (h : readItem list item = .error f) : f.cause = .grammar := by
  rw [readItem_eq list rfl, bind_eq_error_iff] at h
  rcases h with h | ⟨high, -, h⟩
  · exact cause_of_readIndex h
  rcases (bind_eq_error_iff _ _ _).mp h with h | ⟨low, -, h⟩
  · exact cause_of_readIndex h
  split at h
  · obtain rfl := Except.error.inj h
    rfl
  · cases h

namespace Item

variable {item : Text} {run : List UInt64} (h : Item item run)
include h

/-- There is nothing but digits, white space and colons in an item. -/
theorem not_mem {b : UInt8} (hsolid : isSolid b = true) (hdigit : isDigit b = false)
    (hcolon : b ≠ 0x3A) : b ∉ item := by
  cases h with
  | single h => exact h.not_mem hsolid hdigit
  | range htop hbottom _ =>
    rw [List.mem_append, List.mem_cons]
    rintro (hmem | hb | hmem)
    · exact htop.not_mem hsolid hdigit hmem
    · exact hcolon hb
    · exact hbottom.not_mem hsolid hdigit hmem

theorem exists_digit : ∃ b ∈ item, isDigit b = true := by
  cases h with
  | single h => exact h.exists_digit
  | range htop _ _ =>
    obtain ⟨b, hb, hdigit⟩ := htop.exists_digit
    exact ⟨b, List.mem_append_left _ hb, hdigit⟩

/-- An item denotes something, but not more than all indices that there are. -/
theorem length_run : 1 ≤ run.length ∧ run.length ≤ 256 := by
  cases h with
  | single h => simp
  | range htop _ hrun =>
    have hlength := hrun.length_add
    have hle := hrun.le
    have hhigh := htop.1
    omega

end Item

/-! ## Lists -/

/-- A bit list is one or more items with bars between them, and denotes what they denote one after
the other. -/
def Denotes (t : Text) (dest : List UInt64) : Prop :=
  ∃ items runs, items ≠ [] ∧ List.Forall₂ Item items runs ∧ t = joinWith "|" items ∧
    dest = runs.flatten

theorem denotes_iff (t : Text) (dest : List UInt64) :
    Denotes t dest ↔ ∃ items runs, items ≠ [] ∧ List.Forall₂ Item items runs ∧
      t = joinWith [0x7C] items ∧ dest = runs.flatten :=
  Iff.rfl

theorem Denotes.not_blank {t : Text} {dest : List UInt64} (h : Denotes t dest) : ¬ t.Blank := by
  obtain ⟨items, runs, hne, hitems, rfl, -⟩ := h
  cases hitems with
  | nil => contradiction
  | @cons item run items runs hitem _ =>
    obtain ⟨b, hb, hdigit⟩ := hitem.exists_digit
    obtain ⟨u, hu⟩ := exists_joinWith_cons (Text.ofString "|") item items
    rw [hu]
    exact fun hblank => hblank.not_mem (isSolid_of_isNameByte (isNameByte_of_isDigit hdigit))
      (List.mem_append_left u hb)

theorem Denotes.ne_nil {t : Text} {dest : List UInt64} (h : Denotes t dest) : dest ≠ [] := by
  obtain ⟨items, runs, hne, hitems, -, rfl⟩ := h
  cases hitems with
  | nil => contradiction
  | cons hitem _ =>
    have := hitem.length_run
    rw [← List.length_pos_iff, List.flatten_cons, List.length_append]
    omega

/-- There is a limit to what a byte of a bit list can denote. -/
theorem Denotes.length_le {t : Text} {dest : List UInt64} (h : Denotes t dest) :
    dest.length ≤ 256 * t.length := by
  obtain ⟨items, runs, -, hitems, rfl, rfl⟩ := (denotes_iff _ _).mp h
  rw [List.length_flatten]
  refine sum_le_mul_length_joinWith hitems.flip fun run _ item hitem => ?_
  obtain ⟨b, hb, -⟩ := hitem.exists_digit
  have hrun := hitem.length_run
  have hpos := List.length_pos_of_mem hb
  omega

/-- A bit list is read exactly if it follows the grammar, and to what it denotes. -/
theorem parse_eq_ok_iff (t : Text) (dest : List UInt64) :
    parse t = .ok dest ↔ Denotes t dest := by
  constructor
  · intro h
    rw [parse] at h
    split at h
    · cases h
    · rcases hitems : (pieces 0x7C t).mapM (readItem t) with f | runs
      · rw [hitems] at h
        cases h
      · rw [hitems] at h
        obtain rfl := Except.ok.inj h
        rw [mapM_eq_ok_iff] at hitems
        simp only [readItem_eq_ok_iff] at hitems
        exact ⟨_, runs, pieces_ne_nil _ _, hitems, (joinWith_pieces 0x7C t).symm, rfl⟩
  · intro h
    have hsolid : ¬ t.trim.isEmpty = true := by
      rw [List.isEmpty_iff, trim_eq_nil_iff]
      exact h.not_blank
    obtain ⟨items, runs, hne, hitems, rfl, rfl⟩ := (denotes_iff _ _).mp h
    have hbars : ∀ item ∈ items, 0x7C ∉ item := by
      intro item hmem
      obtain ⟨run, -, hitem⟩ := exists_mem_of_forall₂ hitems.flip item hmem
      exact hitem.not_mem (by decide) (by decide) (by decide)
    rw [parse, if_neg hsolid, pieces_joinWith hne hbars,
      (mapM_eq_ok_iff items runs).mpr (hitems.imp fun _ _ => (readItem_eq_ok_iff _ _ _).mpr)]
    rfl

theorem cause_of_parse {t : Text} {f : BitListFault} (h : parse t = .error f) :
    t.Blank ∧ f.cause = .emptyBits ∨ ¬ t.Blank ∧ f.cause = .grammar := by
  rw [← trim_eq_nil_iff, ← List.isEmpty_iff]
  rw [parse] at h
  split at h
  · rename_i hblank
    obtain rfl := Except.error.inj h
    exact .inl ⟨hblank, rfl⟩
  · rename_i hblank
    rcases hitems : (pieces 0x7C t).mapM (readItem t) with f' | runs
    · rw [hitems] at h
      obtain rfl := Except.error.inj h
      obtain ⟨item, -, hitem⟩ := exists_of_mapM_eq_error hitems
      exact .inr ⟨hblank, cause_of_readItem hitem⟩
    · rw [hitems] at h
      cases h

/-! ## Writing -/

/-- The items by which a part of a list of indices is written: a run by its first and its last
index, and any part by its indices one by one. -/
inductive WrittenRun : List UInt64 → List Text → Prop
  | range {high low : Nat} {run : List UInt64} (h : IsRun high low run) :
      WrittenRun run [decimal high ++ ":" ++ decimal low]
  | singles (run : List UInt64) : WrittenRun run (run.map fun d => decimal d.toNat)

theorem IsRun.exists_mem {high low : Nat} {run : List UInt64} (h : IsRun high low run) :
    (∃ d ∈ run, d.toNat = high) ∧ ∃ d ∈ run, d.toNat = low := by
  obtain ⟨a, ha, hhigh⟩ := Option.map_eq_some_iff.mp h.first
  obtain ⟨b, hb, hlow⟩ := Option.map_eq_some_iff.mp h.last
  exact ⟨⟨a, List.mem_of_mem_head? ha, hhigh⟩, ⟨b, List.mem_of_mem_getLast? hb, hlow⟩⟩

/-- What a part is written by denotes that part. -/
theorem WrittenRun.exists_items {run : List UInt64} {texts : List Text}
    (h : WrittenRun run texts) (hrun : ∀ d ∈ run, d.toNat ≤ 255) :
    ∃ runs, List.Forall₂ Item texts runs ∧ runs.flatten = run := by
  cases h with
  | @range high low _ h =>
    obtain ⟨⟨a, ha, rfl⟩, b, hb, rfl⟩ := h.exists_mem
    have hitem := Item.range (index_decimal (hrun a ha)) (index_decimal (hrun b hb)) h
    rw [← List.singleton_append, ← List.append_assoc] at hitem
    exact ⟨[run], .cons hitem .nil, by simp⟩
  | singles =>
    refine ⟨run.map fun d => [d], ?_, ?_⟩
    · rw [List.forall₂_map_left_iff, List.forall₂_map_right_iff, List.forall₂_same]
      exact fun d hd => .single (index_decimal (hrun d hd))
    · rw [← List.flatMap_def, List.flatMap_singleton']

theorem exists_items_of_written {runs : List (List UInt64)} {texts : List (List Text)}
    (h : List.Forall₂ WrittenRun runs texts) (hruns : ∀ d ∈ runs.flatten, d.toNat ≤ 255) :
    ∃ runs', List.Forall₂ Item texts.flatten runs' ∧ runs'.flatten = runs.flatten := by
  induction h with
  | nil => exact ⟨[], .nil, rfl⟩
  | cons hrun _ ih =>
    rw [List.flatten_cons, List.forall_mem_append] at hruns
    obtain ⟨head, hhead, hflat⟩ := hrun.exists_items hruns.1
    obtain ⟨tail, htail, hflat'⟩ := ih hruns.2
    refine ⟨head ++ tail, List.rel_append hhead htail, ?_⟩
    rw [List.flatten_append, hflat, hflat', List.flatten_cons]

/-- **Bit lists follow their grammar.** White space alone is an empty list, and nothing else is. A
text that follows the grammar is read to what it denotes, and any other is a fault of grammar. So a
list of indices, however it is cut into runs, is read back from the runs, each of them written by
its two ends or by all its indices. The countdown by which a range is read ends at its last index,
zero included, with all indices of the range and no others. -/
theorem parse_follows_grammar :
    (∀ t : Text,
      ((∃ f, parse t = .error f ∧ f.cause = .emptyBits) ↔ t.Blank) ∧
      (∀ dest, parse t = .ok dest ↔ Denotes t dest) ∧
      ((∃ f, parse t = .error f ∧ f.cause = .grammar) ↔
        ¬ t.Blank ∧ ¬ ∃ dest, Denotes t dest)) ∧
    (∀ (dest : List UInt64) (runs : List (List UInt64)) (texts : List (List Text)),
      dest ≠ [] → (∀ d ∈ dest, d.toNat ≤ 255) → runs.flatten = dest →
        List.Forall₂ WrittenRun runs texts → parse (joinWith "|" texts.flatten) = .ok dest) ∧
    ∀ i bottom : UInt64, bottom ≤ i → IsRun i.toNat bottom.toNat (countdown i bottom) := by
  refine ⟨fun t => ⟨⟨?_, ?_⟩, parse_eq_ok_iff t, ?_, ?_⟩, ?_, fun i bottom h => isRun_countdown h⟩
  · rintro ⟨f, hf, hcause⟩
    rcases cause_of_parse hf with ⟨hblank, -⟩ | ⟨-, hgrammar⟩
    · exact hblank
    · cases hcause.symm.trans hgrammar
  · intro hblank
    rcases hparse : parse t with f | dest
    · rcases cause_of_parse hparse with ⟨-, hcause⟩ | ⟨hnot, -⟩
      · exact ⟨f, rfl, hcause⟩
      · exact absurd hblank hnot
    · exact absurd hblank ((parse_eq_ok_iff t dest).mp hparse).not_blank
  · rintro ⟨f, hf, hcause⟩
    rcases cause_of_parse hf with ⟨-, hempty⟩ | ⟨hblank, -⟩
    · cases hcause.symm.trans hempty
    · refine ⟨hblank, ?_⟩
      rintro ⟨dest, hdest⟩
      cases hf.symm.trans ((parse_eq_ok_iff t dest).mpr hdest)
  · rintro ⟨hblank, hnone⟩
    rcases hparse : parse t with f | dest
    · rcases cause_of_parse hparse with ⟨hblank', -⟩ | ⟨-, hcause⟩
      · exact absurd hblank' hblank
      · exact ⟨f, rfl, hcause⟩
    · exact absurd ⟨dest, (parse_eq_ok_iff t dest).mp hparse⟩ hnone
  · rintro dest runs texts hne hdest rfl hwritten
    obtain ⟨runs', hitems, hflat⟩ := exists_items_of_written hwritten hdest
    refine (parse_eq_ok_iff _ _).mpr ⟨texts.flatten, runs', ?_, hitems, rfl, hflat.symm⟩
    intro hnil
    rw [hnil, List.forall₂_nil_left_iff] at hitems
    rw [← hflat, hitems] at hne
    exact hne rfl

example : parse "5 : 3|2:00|02:01" = .ok [5, 4, 3, 2, 1, 0, 2, 1] := by decide +kernel

end BitList

end Disassembly
