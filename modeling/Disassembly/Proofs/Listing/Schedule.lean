import Disassembly.Proofs.Listing.Tasks
import Mathlib.Algebra.Order.BigOperators.Group.List
import Mathlib.Algebra.Order.Ring.Nat

/-!
# The order of steps does not show in a listing

However the tasks of a listing take turns, and whenever the listing is given up, what comes of it is
the listing that is made line after line, or the report that it was given up.

* `ListingState.Sound` is the invariant: each task has filled the slots of its chunk up to its next
  line, a task that ended early has left a failure behind, and there is no failure unless the
  listing was given up. `ListingState.Sound.step` is its preservation, case by case.
* `ListingState.Untouched` is the invariant of a listing that was given up before its first step.
* `ListingState.work` bounds the steps that are left (`ListingState.Sound.work_lt`), and as long as
  there is no result there is a step (`ListingState.Sound.exists_step`), so that a result can always
  be reached (`ListingState.Run.exists_result`).
-/

namespace Disassembly

open ListingTask

/-! ## The invariant of a task -/

/-- The slot of a line holds the line. -/
def ListingState.Filled (d : Disassembler) (words : List CodeWord) (s : ListingState) (j : Nat) :
    Prop :=
  s.lines[j]? = (d.lines words)[j]?

namespace ListingTask

theorem getElem?_all_eq_some {count i : Nat} {t : ListingTask} (h : (all count)[i]? = some t) :
    i < chunkCount count ∧ t = ofChunk count i := by
  rw [all, List.getElem?_map, Option.map_eq_some_iff] at h
  obtain ⟨k, hk, rfl⟩ := h
  obtain ⟨hi, rfl⟩ := List.getElem?_eq_some_iff.mp hk
  rw [List.length_range] at hi
  rw [List.getElem_range]
  exact ⟨hi, rfl⟩

theorem getElem?_set_cases {ts : List ListingTask} {i j : Nat} {t u : ListingTask}
    (h : (ts.set i t)[j]? = some u) : (j = i ∧ u = t) ∨ ts[j]? = some u := by
  by_cases hij : i = j
  · subst hij
    rw [List.getElem?_set_self'] at h
    obtain ⟨_, -, rfl⟩ := Option.map_eq_some_iff.mp h
    exact .inl ⟨rfl, rfl⟩
  · rw [List.getElem?_set_ne hij] at h
    exact .inr h

/-- What has to hold for a task to be in its phase: it writes only if a line is left, fails only if
the listing was given up, and has ended with its last line or by failing. -/
def PhaseFits (s : ListingState) (t : ListingTask) : Prop :=
  match t.phase with
  | .waiting | .checking => True
  | .writing => t.next < t.stop
  | .failing => s.cancelled = true
  | .ended => t.next = t.stop ∨ s.failure.isSome = true

/-- A task at a place among the tasks of a listing is where it should be. -/
structure Sound (d : Disassembler) (words : List CodeWord) (s : ListingState) (i : Nat)
    (t : ListingTask) : Prop where
  /-- it has not left its chunk at the front -/
  first_le : i * chunkSize ≤ t.next
  /-- it has not left its chunk at the back -/
  next_le : t.next ≤ t.stop
  /-- its chunk ends where the next one starts, or with the listing -/
  stop_eq : t.stop = min (i * chunkSize + chunkSize) words.length
  /-- it has reason to be in its phase -/
  phase : t.PhaseFits s
  /-- it has filled the slots before its next line -/
  filled : ∀ j, i * chunkSize ≤ j → j < t.next → s.Filled d words j

end ListingTask

namespace ListingState

variable {d : Disassembler} {words : List CodeWord} {workers : Int} {s s' : ListingState}

/-- What holds of a listing and is never undone. -/
structure Extends (d : Disassembler) (words : List CodeWord) (s s' : ListingState) : Prop where
  /-- a listing that was given up stays so -/
  cancelled : s.cancelled = true → s'.cancelled = true
  /-- a failure stays -/
  failure : s.failure.isSome = true → s'.failure.isSome = true
  /-- a filled slot stays filled -/
  filled : ∀ j, s.Filled d words j → s'.Filled d words j

/-- Writing a line fills its slot. -/
theorem filled_set_self {w : CodeWord} {k : Nat} (hw : words[k]? = some w) {lines : List Text}
    (hk : k < lines.length) : (lines.set k (w.line (d.text w)))[k]? = (d.lines words)[k]? := by
  rw [List.getElem?_set_self hk, Disassembler.lines, List.getElem?_map, hw]
  rfl

/-- Writing a line leaves every filled slot filled, its own included. -/
theorem filled_set {w : CodeWord} {k : Nat} (hw : words[k]? = some w) {lines : List Text} {j : Nat}
    (hj : lines[j]? = (d.lines words)[j]?) :
    (lines.set k (w.line (d.text w)))[j]? = (d.lines words)[j]? := by
  by_cases hjk : k = j
  · subst hjk
    rw [Disassembler.lines, List.getElem?_map, hw] at hj
    obtain ⟨hlt, -⟩ := List.getElem?_eq_some_iff.mp hj
    exact filled_set_self hw hlt
  · rw [List.getElem?_set_ne hjk]
    exact hj

end ListingState

namespace ListingTask.Sound

open ListingState

variable {d : Disassembler} {words : List CodeWord} {s s' : ListingState} {i : Nat}
  {t : ListingTask}

theorem mono (h : t.Sound d words s i) (hs : Extends d words s s') : t.Sound d words s' i where
  first_le := h.first_le
  next_le := h.next_le
  stop_eq := h.stop_eq
  phase := by
    have hphase := h.phase
    unfold PhaseFits at hphase ⊢
    split at hphase
    · trivial
    · trivial
    · exact hphase
    · exact hs.cancelled hphase
    · exact hphase.imp_right hs.failure
  filled j hfirst hj := hs.filled j (h.filled j hfirst hj)

/-- A task with reason for another phase can change to it. -/
theorem setPhase (h : t.Sound d words s i) (phase : TaskPhase)
    (hphase : ({ t with phase := phase } : ListingTask).PhaseFits s) :
    ({ t with phase := phase } : ListingTask).Sound d words s i where
  first_le := h.first_le
  next_le := h.next_le
  stop_eq := h.stop_eq
  phase := hphase
  filled := h.filled

/-- A task that has filled the slot of its next line goes on to the line after it. -/
theorem setNext (h : t.Sound d words s i) (hlt : t.next < t.stop)
    (hnext : s.Filled d words t.next) :
    ({ t with next := t.next + 1, phase := .checking } : ListingTask).Sound d words s i where
  first_le := Nat.le_succ_of_le h.first_le
  next_le := hlt
  stop_eq := h.stop_eq
  phase := trivial
  filled j hfirst hj := by
    rcases Nat.lt_succ_iff_lt_or_eq.mp hj with hj | rfl
    · exact h.filled j hfirst hj
    · exact hnext

theorem lt_of_writing (h : t.Sound d words s i) (hphase : t.phase = .writing) :
    t.next < t.stop := by
  have := h.phase
  rwa [PhaseFits, hphase] at this

theorem cancelled_of_failing (h : t.Sound d words s i) (hphase : t.phase = .failing) :
    s.cancelled = true := by
  have := h.phase
  rwa [PhaseFits, hphase] at this

theorem done_of_ended (h : t.Sound d words s i) (hphase : t.phase = .ended) :
    t.next = t.stop ∨ s.failure.isSome = true := by
  have := h.phase
  rwa [PhaseFits, hphase] at this

end ListingTask.Sound

/-! ## The invariant of a listing -/

namespace ListingState

/-- A listing is where it should be. -/
structure Sound (d : Disassembler) (words : List CodeWord) (s : ListingState) : Prop where
  /-- there is a task for each chunk -/
  length_tasks : s.tasks.length = chunkCount words.length
  /-- there is a slot for each line -/
  length_lines : s.lines.length = words.length
  /-- the tasks are where they should be -/
  task : ∀ (i : Nat) (t : ListingTask), s.tasks[i]? = some t → t.Sound d words s i
  /-- there is a failure only if the listing was given up -/
  failure : ∀ e, s.failure = some e → e = .cancelled ∧ s.cancelled = true
  /-- the result is the whole listing, unless it was given up -/
  result : ∀ r, s.result = some r →
    r = .ok (d.lines words) ∨ r = .error .cancelled ∧ s.cancelled = true

variable {d : Disassembler} {words : List CodeWord} {workers : Int} {s s' : ListingState}
  {a : ListingAction}

theorem sound_initial (d : Disassembler) (words : List CodeWord) (cancelled : Bool) :
    (initial words.length cancelled).Sound d words where
  length_tasks := by simp [initial, ListingTask.all]
  length_lines := by simp [initial]
  task i t ht := by
    obtain ⟨hi, rfl⟩ := getElem?_all_eq_some ht
    refine ⟨Nat.le_refl _, ?_, rfl, trivial, ?_⟩
    · simp only [ofChunk, chunkCount, chunkSize] at hi ⊢
      omega
    · intro j hfirst hj
      exact absurd hj (Nat.not_lt.mpr hfirst)
  failure e he := by cases he
  result r hr := by cases hr

namespace Sound

theorem cancelled_of_givenUp (h : s.Sound d words) (hstop : s.givenUp = true) :
    s.cancelled = true := by
  rcases Bool.or_eq_true_iff.mp hstop with hcancelled | hfailure
  · exact hcancelled
  · obtain ⟨e, he⟩ := Option.isSome_iff_exists.mp hfailure
    exact (h.failure e he).2

/-- A step of one task leaves the others where they should be. -/
theorem setTask (h : s.Sound d words) {i : Nat} {t : ListingTask}
    (hs : Extends d words s s') (ht : t.Sound d words s' i)
    (htasks : s'.tasks = s.tasks.set i t) (hlines : s'.lines.length = s.lines.length)
    (hfailure : ∀ e, s'.failure = some e → e = .cancelled ∧ s'.cancelled = true)
    (hresult : s'.result = s.result) : s'.Sound d words where
  length_tasks := by rw [htasks, List.length_set, h.length_tasks]
  length_lines := by rw [hlines, h.length_lines]
  task j u hu := by
    rw [htasks] at hu
    rcases getElem?_set_cases hu with ⟨rfl, rfl⟩ | hu
    · exact ht
    · exact (h.task j u hu).mono hs
  failure := hfailure
  result r hr := by
    rw [hresult] at hr
    exact (h.result r hr).imp_right fun ⟨he, hc⟩ => ⟨he, hs.cancelled hc⟩

/-- A task can change to a phase that it has reason for. -/
theorem setPhase (h : s.Sound d words) {i : Nat} {t : ListingTask} (ht : s.tasks[i]? = some t)
    (phase : TaskPhase) (hphase : ({ t with phase := phase } : ListingTask).PhaseFits s) :
    (s.setTask i { t with phase := phase }).Sound d words := by
  have hs : Extends d words s (s.setTask i { t with phase := phase }) := ⟨id, id, fun _ => id⟩
  exact h.setTask hs (((h.task i t ht).setPhase phase hphase).mono hs) rfl rfl h.failure rfl

/-- A listing whose tasks have all ended without failure is complete. -/
theorem lines_eq (h : s.Sound d words) (hended : ∀ t ∈ s.tasks, t.phase = .ended)
    (hfailure : s.failure = none) : s.lines = d.lines words := by
  refine List.ext_getElem? fun j => ?_
  by_cases hj : j < words.length
  · -- the line belongs to the chunk that it falls into
    have hplace : j / chunkSize < s.tasks.length := by
      rw [h.length_tasks]
      simp only [chunkCount, chunkSize]
      omega
    have ht := List.getElem?_eq_getElem hplace
    have hsound := h.task _ _ ht
    have hdone := hsound.done_of_ended (hended _ (List.getElem_mem hplace))
    have hnext : s.tasks[j / chunkSize].next = s.tasks[j / chunkSize].stop := by
      rcases hdone with hnext | hsome
      · exact hnext
      · rw [hfailure] at hsome
        cases hsome
    refine hsound.filled j ?_ ?_
    · exact Nat.div_mul_le_self j chunkSize
    · rw [hnext, hsound.stop_eq]
      simp only [chunkSize]
      omega
  · rw [List.getElem?_eq_none (by rw [h.length_lines]; omega),
      List.getElem?_eq_none (by rw [Disassembler.lines, List.length_map]; omega)]

theorem outcome_cases (h : s.Sound d words) (hended : ∀ t ∈ s.tasks, t.phase = .ended) :
    s.outcome = .ok (d.lines words) ∨ s.outcome = .error .cancelled ∧ s.cancelled = true := by
  rcases hfailure : s.failure with _ | e
  · rw [outcome, hfailure, h.lines_eq hended hfailure]
    exact .inl rfl
  · obtain ⟨rfl, hcancelled⟩ := h.failure e hfailure
    rw [outcome, hfailure]
    exact .inr ⟨rfl, hcancelled⟩

/-- Every step leads from a sound state to a sound one. -/
theorem step (h : s.Sound d words) (hstep : Step d words workers s a s') : s'.Sound d words := by
  cases hstep with
  | cancel hresult hcancelled =>
    have hs : Extends d words s { s with cancelled := true } := ⟨fun _ => rfl, id, fun _ => id⟩
    exact ⟨h.length_tasks, h.length_lines, fun i t ht => (h.task i t ht).mono hs,
      fun e he => ⟨(h.failure e he).1, rfl⟩,
      fun r hr => (h.result r hr).imp_right fun ⟨he, _⟩ => ⟨he, rfl⟩⟩
  | start ht hphase hfirst hroom => exact h.setPhase ht .checking trivial
  | proceed ht hphase hleft hgo => exact h.setPhase ht .writing hleft
  | giveUp ht hphase hleft hstop => exact h.setPhase ht .failing (h.cancelled_of_givenUp hstop)
  | finish ht hphase hdone =>
    exact h.setPhase ht .ended (.inl (Nat.le_antisymm (h.task _ _ ht).next_le hdone))
  | @write i t w ht hphase hw =>
    have hlt : t.next < s.lines.length := by
      rw [h.length_lines]
      exact (List.getElem?_eq_some_iff.mp hw).1
    have hs : Extends d words s
        { s.setTask i { t with next := t.next + 1, phase := .checking } with
          lines := s.lines.set t.next (w.line (d.text w)) } :=
      ⟨id, id, fun j hj => filled_set hw hj⟩
    have ht' := ((h.task i t ht).mono hs).setNext ((h.task i t ht).lt_of_writing hphase)
      (filled_set_self hw hlt)
    exact h.setTask hs ht' rfl List.length_set h.failure rfl
  | @report i t ht hphase =>
    have hcancelled := (h.task i t ht).cancelled_of_failing hphase
    have hsome : (s.failure.or (some ListingError.cancelled)).isSome = true := by
      cases s.failure <;> rfl
    have hs : Extends d words s
        { s.setTask i { t with phase := .ended } with
          failure := s.failure.or (some ListingError.cancelled) } :=
      ⟨id, fun _ => hsome, fun _ => id⟩
    have ht' := ((h.task i t ht).mono hs).setPhase .ended (.inr hsome)
    refine h.setTask hs ht' rfl rfl (fun e he => ⟨?_, hcancelled⟩) rfl
    rcases Option.or_eq_some_iff.mp he with hfirst | ⟨-, hnew⟩
    · exact (h.failure e hfirst).1
    · exact (Option.some.inj hnew).symm
  | collect hresult hended =>
    refine ⟨h.length_tasks, h.length_lines,
      fun i t ht => (h.task i t ht).mono ⟨id, id, fun _ => id⟩, h.failure, fun r hr => ?_⟩
    obtain rfl := Option.some.inj hr
    exact h.outcome_cases hended

end Sound

/-! ## Giving up before the first step -/

/-- A listing that was given up before its first step: no task comes to write a line, so unless
there is nothing to list, a task fails. -/
structure Untouched (d : Disassembler) (words : List CodeWord) (s : ListingState) : Prop where
  /-- it was given up -/
  cancelled : s.cancelled = true
  /-- no task has got beyond its first line -/
  task : ∀ i t, s.tasks[i]? = some t → t.next = i * chunkSize ∧ t.phase ≠ .writing
  /-- there is no failure if there is nothing to list -/
  failure : s.failure.isSome = true → words ≠ []
  /-- the result is that of a listing given up from the start -/
  result : ∀ r, s.result = some r → r = listing d words true

theorem untouched_initial (d : Disassembler) (words : List CodeWord) :
    (initial words.length true).Untouched d words where
  cancelled := rfl
  task i t ht := by
    obtain ⟨-, rfl⟩ := getElem?_all_eq_some ht
    exact ⟨rfl, fun hphase => by cases hphase⟩
  failure h := by cases h
  result r hr := by cases hr

namespace Untouched

/-- A task that changes its phase otherwise than to write does not touch the listing. -/
theorem setTask (h : s.Untouched d words) {i : Nat} {t : ListingTask} (ht : s.tasks[i]? = some t)
    {phase : TaskPhase} (hphase : phase ≠ .writing) (hcancelled : s'.cancelled = s.cancelled)
    (htasks : s'.tasks = s.tasks.set i { t with phase := phase })
    (hfailure : s'.failure.isSome = true → words ≠ []) (hresult : s'.result = s.result) :
    s'.Untouched d words where
  cancelled := by rw [hcancelled, h.cancelled]
  task j u hu := by
    rw [htasks] at hu
    rcases getElem?_set_cases hu with ⟨rfl, rfl⟩ | hu
    · exact ⟨(h.task j t ht).1, hphase⟩
    · exact h.task j u hu
  failure := hfailure
  result r hr := by
    rw [hresult] at hr
    exact h.result r hr

/-- The first task cannot have ended without failing. -/
theorem outcome_eq (h : s.Untouched d words) (hsound : s.Sound d words)
    (hended : ∀ t ∈ s.tasks, t.phase = .ended) : s.outcome = listing d words true := by
  rcases hfailure : s.failure with _ | e
  · have hnil : words = [] := by
      by_contra hne
      have hpos : 0 < words.length := List.length_pos_iff.mpr hne
      have hplace : 0 < s.tasks.length := by
        rw [hsound.length_tasks]
        simp only [chunkCount, chunkSize]
        omega
      have ht := List.getElem?_eq_getElem hplace
      have hfirst := (h.task 0 _ ht).1
      have hstop := (hsound.task 0 _ ht).stop_eq
      rcases (hsound.task 0 _ ht).done_of_ended (hended _ (List.getElem_mem hplace)) with
        hdone | hsome
      · simp only [chunkSize] at hfirst hstop
        omega
      · rw [hfailure] at hsome
        cases hsome
    rw [outcome, hfailure, hsound.lines_eq hended hfailure, hnil]
    rfl
  · have hne : words ≠ [] := h.failure (by rw [hfailure]; rfl)
    obtain ⟨rfl, -⟩ := hsound.failure e hfailure
    rw [outcome, hfailure, listing]
    simp [hne]

theorem step (h : s.Untouched d words) (hsound : s.Sound d words)
    (hstep : Step d words workers s a s') : s'.Untouched d words := by
  have hstop : s.givenUp = true := by rw [givenUp, h.cancelled, Bool.true_or]
  cases hstep with
  | cancel hresult hcancelled => exact ⟨rfl, h.task, h.failure, h.result⟩
  | start ht hphase hfirst hroom => exact h.setTask ht (by decide) rfl rfl h.failure rfl
  | proceed ht hphase hleft hgo => exact absurd hstop (by rw [hgo]; decide)
  | giveUp ht hphase hleft hstop => exact h.setTask ht (by decide) rfl rfl h.failure rfl
  | finish ht hphase hdone => exact h.setTask ht (by decide) rfl rfl h.failure rfl
  | write ht hphase hw => exact absurd hphase (h.task _ _ ht).2
  | @report i t ht hphase =>
    refine h.setTask ht (by decide) rfl rfl (fun _ hnil => ?_) rfl
    have hlt := (List.getElem?_eq_some_iff.mp ht).1
    rw [hsound.length_tasks, hnil] at hlt
    exact absurd hlt (Nat.not_lt_zero i)
  | collect hresult hended =>
    refine ⟨h.cancelled, h.task, h.failure, fun r hr => ?_⟩
    obtain rfl := Option.some.inj hr
    exact h.outcome_eq hsound hended

end Untouched

end ListingState

/-! ## Every listing comes to an end -/

namespace ListingTask

/-- How many steps a task can still take: two for each line that is left, and one each to be
started, to see that it is done, and to report a failure. -/
def work (t : ListingTask) : Nat :=
  match t.phase with
  | .waiting => 2 * (t.stop - t.next) + 3
  | .checking => 2 * (t.stop - t.next) + 2
  | .writing => 2 * (t.stop - t.next) + 1
  | .failing => 1
  | .ended => 0

theorem sum_work_set {ts : List ListingTask} {i : Nat} {t : ListingTask} (h : ts[i]? = some t)
    (u : ListingTask) :
    ((ts.set i u).map work).sum + t.work = (ts.map work).sum + u.work := by
  induction ts generalizing i with
  | nil => cases h
  | cons v ts ih =>
    cases i with
    | zero =>
      obtain rfl : v = t := Option.some.inj h
      rw [List.set_cons_zero, List.map_cons, List.map_cons, List.sum_cons, List.sum_cons]
      omega
    | succ i =>
      have := ih h
      rw [List.set_cons_succ, List.map_cons, List.map_cons, List.sum_cons, List.sum_cons]
      omega

theorem sum_work_all_le (count : Nat) :
    ((all count).map work).sum ≤ (2 * chunkSize + 3) * chunkCount count := by
  have hle : ∀ n ∈ (all count).map work, n ≤ 2 * chunkSize + 3 := by
    intro n hn
    rw [all, List.map_map] at hn
    obtain ⟨i, -, rfl⟩ := List.mem_map.mp hn
    simp only [Function.comp_apply, work, ofChunk]
    omega
  have hsum := List.sum_le_card_nsmul _ _ hle
  rwa [List.length_map, all, List.length_map, List.length_range, Nat.nsmul_eq_mul,
    Nat.mul_comm] at hsum

end ListingTask

namespace ListingState

variable {d : Disassembler} {words : List CodeWord} {workers : Int} {s s' : ListingState}
  {a : ListingAction}

/-- How many steps a listing can still take. -/
def work (s : ListingState) : Nat :=
  (s.tasks.map ListingTask.work).sum + (if s.cancelled then 0 else 1) +
    (if s.result.isSome then 0 else 1)

theorem work_initial_le (count : Nat) (cancelled : Bool) :
    (initial count cancelled).work ≤ (2 * chunkSize + 3) * chunkCount count + 2 := by
  have hsum := sum_work_all_le count
  have hcancel : (if cancelled then 0 else 1) ≤ 1 := by split <;> decide
  calc
    (initial count cancelled).work =
        ((all count).map ListingTask.work).sum + (if cancelled then 0 else 1) + 1 := rfl
    _ ≤ (2 * chunkSize + 3) * chunkCount count + 2 := by omega

/-- A listing has less work before it when one of its tasks has. -/
theorem work_setTask_lt {i : Nat} {t u : ListingTask} (ht : s.tasks[i]? = some t)
    (hlt : u.work < t.work) (htasks : s'.tasks = s.tasks.set i u)
    (hcancelled : s'.cancelled = s.cancelled) (hresult : s'.result = s.result) :
    s'.work < s.work := by
  have hsum := sum_work_set ht u
  rw [work, work, htasks, hcancelled, hresult]
  omega

theorem Sound.work_lt (h : s.Sound d words) (hstep : Step d words workers s a s') :
    s'.work < s.work := by
  cases hstep with
  | cancel hresult hcancelled =>
    rw [work, work, hcancelled]
    simp
  | start ht hphase hfirst hroom =>
    exact work_setTask_lt ht (by simp [ListingTask.work, hphase]) rfl rfl rfl
  | proceed ht hphase hleft hgo =>
    exact work_setTask_lt ht (by simp [ListingTask.work, hphase]) rfl rfl rfl
  | giveUp ht hphase hleft hstop =>
    exact work_setTask_lt ht (by simp [ListingTask.work, hphase]) rfl rfl rfl
  | finish ht hphase hdone =>
    exact work_setTask_lt ht (by simp [ListingTask.work, hphase]) rfl rfl rfl
  | write ht hphase hw =>
    have hleft := (h.task _ _ ht).lt_of_writing hphase
    refine work_setTask_lt ht ?_ rfl rfl rfl
    simp only [ListingTask.work, hphase]
    omega
  | report ht hphase =>
    exact work_setTask_lt ht (by simp [ListingTask.work, hphase]) rfl rfl rfl
  | collect hresult hended =>
    rw [work, work, hresult]
    simp

/-- A task that has been started and has not ended can go on. -/
theorem Sound.exists_advance (h : s.Sound d words) {i : Nat} {t : ListingTask}
    (ht : s.tasks[i]? = some t) (hrunning : t.isRunning = true) :
    ∃ s', Step d words workers s (.advance i) s' := by
  cases hphase : t.phase with
  | waiting => simp [isRunning, hphase] at hrunning
  | ended => simp [isRunning, hphase] at hrunning
  | checking =>
    by_cases hleft : t.next < t.stop
    · cases hstop : s.givenUp with
      | false => exact ⟨_, .proceed ht hphase hleft hstop⟩
      | true => exact ⟨_, .giveUp ht hphase hleft hstop⟩
    · exact ⟨_, .finish ht hphase (Nat.not_lt.mp hleft)⟩
  | writing =>
    have hlt : t.next < words.length := by
      have hleft := (h.task i t ht).lt_of_writing hphase
      rw [(h.task i t ht).stop_eq] at hleft
      exact Nat.lt_of_lt_of_le hleft (Nat.min_le_right _ _)
    exact ⟨_, .write ht hphase (List.getElem?_eq_getElem hlt)⟩
  | failing => exact ⟨_, .report ht hphase⟩

/-- The first task that waits can be started when no task takes up a worker. -/
theorem exists_start (hidle : ∀ t ∈ s.tasks, t.isRunning = false)
    (hwaiting : ∃ t ∈ s.tasks, t.phase = .waiting) :
    ∃ s', Step d words workers s .start s' := by
  have hroom : workers ≤ 0 ∨ (s.running : Int) < workers := by
    have hnone : s.running = 0 := by
      rw [running, List.countP_eq_zero]
      intro t ht
      rw [hidle t ht]
      exact Bool.false_ne_true
    rw [hnone]
    omega
  obtain ⟨before, t, after, hsplit, hbefore, hphase⟩ : ∃ before t after,
      s.tasks = before ++ t :: after ∧ (∀ u ∈ before, u.phase ≠ .waiting) ∧
        t.phase = .waiting := by
    have hsome : (s.tasks.find? fun t => t.phase = .waiting).isSome = true :=
      List.find?_isSome.mpr (by simpa using hwaiting)
    obtain ⟨t, hfind⟩ := Option.isSome_iff_exists.mp hsome
    obtain ⟨hphase, before, after, hsplit, hbefore⟩ := List.find?_eq_some_iff_append.mp hfind
    exact ⟨before, t, after, hsplit, by simpa using hbefore, by simpa using hphase⟩
  have ht : s.tasks[before.length]? = some t := by
    rw [hsplit, List.getElem?_append_right (Nat.le_refl _), Nat.sub_self]
    rfl
  refine ⟨_, .start ht hphase ?_ hroom⟩
  rw [hsplit, List.take_left]
  exact hbefore

/-- As long as there is no result, there is a step, without anybody giving up. -/
theorem Sound.exists_step (h : s.Sound d words) (hresult : s.result = none) :
    ∃ a s', a ≠ .cancel ∧ Step d words workers s a s' := by
  by_cases hrunning : ∃ t ∈ s.tasks, t.isRunning = true
  · obtain ⟨t, hmem, hrunning⟩ := hrunning
    obtain ⟨i, ht⟩ := List.mem_iff_getElem?.mp hmem
    obtain ⟨s', hstep⟩ := h.exists_advance ht hrunning
    exact ⟨_, s', by simp, hstep⟩
  · have hidle : ∀ t ∈ s.tasks, t.isRunning = false := by
      intro t ht
      rw [Bool.eq_false_iff]
      exact fun hrun => hrunning ⟨t, ht, hrun⟩
    by_cases hwaiting : ∃ t ∈ s.tasks, t.phase = .waiting
    · obtain ⟨s', hstep⟩ := exists_start hidle hwaiting
      exact ⟨_, s', by simp, hstep⟩
    · have hended : ∀ t ∈ s.tasks, t.phase = .ended := by
        intro t ht
        have hidle := hidle t ht
        have hnot : t.phase ≠ .waiting := fun hphase => hwaiting ⟨t, ht, hphase⟩
        simpa [isRunning, hnot] using hidle
      exact ⟨_, _, by simp, .collect hresult hended⟩

/-! ## Whole runs -/

theorem Step.cancelled_iff (hstep : Step d words workers s a s') :
    s'.cancelled = true ↔ s.cancelled = true ∨ a = .cancel := by
  cases hstep <;> simp [setTask]

namespace Run

variable {s₀ : ListingState} {as : List ListingAction}

theorem sound (hrun : Run d words workers s₀ as s) (h₀ : s₀.Sound d words) : s.Sound d words := by
  induction hrun with
  | nil => exact h₀
  | snoc _ hstep ih => exact ih.step hstep

theorem untouched (hrun : Run d words workers s₀ as s) (h₀ : s₀.Sound d words)
    (hfirst : s₀.Untouched d words) : s.Untouched d words := by
  induction hrun with
  | nil => exact hfirst
  | snoc hrun hstep ih => exact ih.step (hrun.sound h₀) hstep

theorem cancelled_iff (hrun : Run d words workers s₀ as s) :
    s.cancelled = true ↔ s₀.cancelled = true ∨ .cancel ∈ as := by
  induction hrun with
  | nil => simp
  | @snoc as a _ _ _ hstep ih =>
    rw [hstep.cancelled_iff, ih, List.mem_append, List.mem_singleton, or_assoc,
      @eq_comm _ a]

theorem length_add_work_le (hrun : Run d words workers s₀ as s) (h₀ : s₀.Sound d words) :
    as.length + s.work ≤ s₀.work := by
  induction hrun with
  | nil => simp
  | snoc hrun hstep ih =>
    have hlt := (hrun.sound h₀).work_lt hstep
    rw [List.length_append, List.length_singleton]
    omega

theorem length_le {cancelled : Bool}
    (hrun : Run d words workers (initial words.length cancelled) as s) :
    as.length ≤ (2 * chunkSize + 3) * chunkCount words.length + 2 := by
  have hwork := hrun.length_add_work_le (sound_initial d words cancelled)
  have hbound := work_initial_le words.length cancelled
  omega

/-- Whatever has been done, a result can be reached without anybody giving up. -/
theorem exists_result {s : ListingState} {as : List ListingAction}
    (hrun : Run d words workers s₀ as s) (h₀ : s₀.Sound d words) :
    ∃ bs s' r, .cancel ∉ bs ∧ Run d words workers s₀ (as ++ bs) s' ∧ s'.result = some r := by
  cases hresult : s.result with
  | some r => exact ⟨[], s, r, List.not_mem_nil, by rwa [List.append_nil], hresult⟩
  | none =>
    obtain ⟨a, s₁, hne, hstep⟩ := (hrun.sound h₀).exists_step hresult
    -- each step leaves less work, so going on like this comes to an end
    have hless := (hrun.sound h₀).work_lt hstep
    obtain ⟨bs, s', r, hbs, hrun', hr⟩ := exists_result (hrun.snoc hstep) h₀
    refine ⟨a :: bs, s', r, ?_, ?_, hr⟩
    · rw [List.mem_cons, not_or]
      exact ⟨hne.symm, hbs⟩
    · rwa [List.append_assoc] at hrun'
termination_by s.work

end Run

/-- **The order of steps does not show in a listing.** For any number of workers, any order in which
the tasks take turns, and whenever the listing is given up, if at all: the steps come to an end, and
as long as there is no result there is a next one. The result is the list of all lines in order or
the report that the listing was given up, and never the latter if nobody gave it up; if it was given
up before the first step, it is what `listing` says. -/
theorem result_of_any_schedule (d : Disassembler) (words : List CodeWord) (workers : Int)
    (cancelled : Bool) {as : List ListingAction} {s : ListingState}
    (hrun : Run d words workers (initial words.length cancelled) as s) :
    as.length ≤ (2 * chunkSize + 3) * chunkCount words.length + 2 ∧
    (s.result = none → ∃ a s', a ≠ .cancel ∧ Step d words workers s a s') ∧
    ∀ r, s.result = some r →
      (r = .ok (words.map fun w => w.line (d.text w)) ∨ r = .error .cancelled) ∧
      (cancelled = false → .cancel ∉ as → r = listing d words false) ∧
      (cancelled = true → r = listing d words true) := by
  have h₀ := sound_initial d words cancelled
  have hsound := hrun.sound h₀
  refine ⟨hrun.length_le, hsound.exists_step, fun r hr => ⟨?_, ?_, ?_⟩⟩
  · exact (hsound.result r hr).imp_right And.left
  · intro hcancelled hnever
    rcases hsound.result r hr with rfl | ⟨-, hgiven⟩
    · rfl
    · rcases hrun.cancelled_iff.mp hgiven with hgiven | hgiven
      · rw [hcancelled] at hgiven
        cases hgiven
      · exact absurd hgiven hnever
  · rintro rfl
    exact (hrun.untouched h₀ (untouched_initial d words)).result r hr

/-- A listing of one line that is given up between the last look and the line. -/
theorem result_of_any_schedule_late :
    let d : Disassembler := ⟨fun _ => "c.nop", fun _ => "ecall"⟩
    let words : List CodeWord := [⟨0x100, 0x0001, 2⟩]
    ∃ s r, Run d words 1 (initial words.length false)
        [.start, .advance 0, .cancel, .advance 0, .advance 0, .collect] s ∧
      s.result = some r ∧
        (r = .ok (words.map fun w => w.line (d.text w)) ∨ r = .error .cancelled) := by
  intro d words
  have hstart : Run d words 1 (initial words.length false) [.start] _ :=
    Run.nil.snoc
      (.start (i := 0) (t := ⟨0, 1, .waiting⟩) (by decide) rfl (by simp) (.inr (by decide)))
  have hproceed := hstart.snoc
    (.proceed (i := 0) (t := ⟨0, 1, .checking⟩) (by decide) rfl (by decide) rfl)
  have hcancel := hproceed.snoc (.cancel rfl rfl)
  have hwrite := hcancel.snoc (.write (i := 0) (t := ⟨0, 1, .writing⟩) (by decide) rfl rfl)
  have hfinish := hwrite.snoc
    (.finish (i := 0) (t := ⟨1, 1, .checking⟩) (by decide) rfl (by decide))
  have hrun := hfinish.snoc (.collect rfl (by decide))
  exact ⟨_, _, hrun, rfl, ((result_of_any_schedule d words 1 false hrun).2.2 _ rfl).1⟩

end ListingState

end Disassembly
