import Disassembly.Listing

/-!
# Listings made by several tasks

The lines of a listing are made in chunks, each by a task of its own. Tasks are started in order, as
long as there is room for another worker, and then take turns in any order. Every line has its slot,
and a task fills the slots of its chunk from the first to the last; before each of them it looks
whether the listing was given up, by whoever asked for it or because another task has failed. When
all tasks have ended, the listing is what the slots hold, unless a task has failed.

`ListingState.Step` says what can happen next, and `ListingState.Run` what can happen in the course
of time.
-/

namespace Disassembly

/-! ## Tasks -/

/-- What a task does next. -/
inductive TaskPhase where
  /-- it has not been started -/
  | waiting
  /-- look whether the listing was given up, if there are lines left -/
  | checking
  /-- write a line -/
  | writing
  /-- report that the listing was given up -/
  | failing
  /-- nothing more -/
  | ended
  deriving DecidableEq

/-- A task, which makes the lines of a chunk. -/
structure ListingTask where
  /-- the next line -/
  next : Nat
  /-- the first line after its chunk -/
  stop : Nat
  /-- what it does next -/
  phase : TaskPhase
  deriving DecidableEq

namespace ListingTask

/-- How many lines a chunk has, unless it is the last one. -/
def chunkSize : Nat := 256

/-- How many chunks a listing of `count` lines has. -/
def chunkCount (count : Nat) : Nat := (count + (chunkSize - 1)) / chunkSize

/-- The task for the chunk at a place among those of a listing of `count` lines. -/
def ofChunk (count i : Nat) : ListingTask :=
  ⟨i * chunkSize, min (i * chunkSize + chunkSize) count, .waiting⟩

/-- The tasks for a listing of `count` lines. -/
def all (count : Nat) : List ListingTask := (List.range (chunkCount count)).map (ofChunk count)

/-- Whether a task takes up a worker. -/
def isRunning (t : ListingTask) : Bool := t.phase != .waiting && t.phase != .ended

end ListingTask

/-! ## The listing as a whole -/

/-- How far a listing has come. -/
structure ListingState where
  /-- the tasks in the order of their chunks -/
  tasks : List ListingTask
  /-- the slots for the lines -/
  lines : List Text
  /-- whether whoever asked for the listing gave it up -/
  cancelled : Bool
  /-- the first failure that a task has reported -/
  failure : Option ListingError := none
  /-- what came of the listing, if it is over -/
  result : Option (Except ListingError (List Text)) := none

/-- The steps of a listing. -/
inductive ListingAction where
  /-- whoever asked for the listing gives it up -/
  | cancel
  /-- the next task is started -/
  | start
  /-- the task at a place goes on -/
  | advance (i : Nat)
  /-- the lines are collected -/
  | collect
  deriving DecidableEq

namespace ListingState

/-- A listing of `count` lines before its first step; it may have been given up by then. -/
def initial (count : Nat) (cancelled : Bool) : ListingState where
  tasks := ListingTask.all count
  lines := List.replicate count []
  cancelled := cancelled

/-- How many tasks take up a worker. -/
def running (s : ListingState) : Nat := s.tasks.countP ListingTask.isRunning

/-- Whether the tasks are told to end. -/
def givenUp (s : ListingState) : Bool := s.cancelled || s.failure.isSome

/-- What comes of a listing whose tasks have all ended. -/
def outcome (s : ListingState) : Except ListingError (List Text) :=
  match s.failure with
  | some e => .error e
  | none => .ok s.lines

/-- The state with another task at a place. -/
def setTask (s : ListingState) (i : Nat) (t : ListingTask) : ListingState :=
  { s with tasks := s.tasks.set i t }

/-- What can happen next. A number of workers that is not positive sets no limit. -/
inductive Step (d : Disassembler) (words : List CodeWord) (workers : Int) :
    ListingState → ListingAction → ListingState → Prop where
  | cancel {s : ListingState} (hresult : s.result = none) (hcancelled : s.cancelled = false) :
      Step d words workers s .cancel { s with cancelled := true }
  | start {s : ListingState} {i : Nat} {t : ListingTask} (ht : s.tasks[i]? = some t)
      (hphase : t.phase = .waiting) (hfirst : ∀ u ∈ s.tasks.take i, u.phase ≠ .waiting)
      (hroom : workers ≤ 0 ∨ s.running < workers) :
      Step d words workers s .start (s.setTask i { t with phase := .checking })
  | proceed {s : ListingState} {i : Nat} {t : ListingTask} (ht : s.tasks[i]? = some t)
      (hphase : t.phase = .checking) (hleft : t.next < t.stop) (hgo : s.givenUp = false) :
      Step d words workers s (.advance i) (s.setTask i { t with phase := .writing })
  | giveUp {s : ListingState} {i : Nat} {t : ListingTask} (ht : s.tasks[i]? = some t)
      (hphase : t.phase = .checking) (hleft : t.next < t.stop) (hstop : s.givenUp = true) :
      Step d words workers s (.advance i) (s.setTask i { t with phase := .failing })
  | finish {s : ListingState} {i : Nat} {t : ListingTask} (ht : s.tasks[i]? = some t)
      (hphase : t.phase = .checking) (hdone : t.stop ≤ t.next) :
      Step d words workers s (.advance i) (s.setTask i { t with phase := .ended })
  | write {s : ListingState} {i : Nat} {t : ListingTask} {w : CodeWord} (ht : s.tasks[i]? = some t)
      (hphase : t.phase = .writing) (hw : words[t.next]? = some w) :
      Step d words workers s (.advance i)
        { s.setTask i { t with next := t.next + 1, phase := .checking } with
          lines := s.lines.set t.next (w.line (d.text w)) }
  | report {s : ListingState} {i : Nat} {t : ListingTask} (ht : s.tasks[i]? = some t)
      (hphase : t.phase = .failing) :
      Step d words workers s (.advance i)
        { s.setTask i { t with phase := .ended } with
          failure := s.failure.or (some .cancelled) }
  | collect {s : ListingState} (hresult : s.result = none)
      (hended : ∀ t ∈ s.tasks, t.phase = .ended) :
      Step d words workers s .collect { s with result := some s.outcome }

/-- What can happen from a state on, one step after the other. -/
inductive Run (d : Disassembler) (words : List CodeWord) (workers : Int) (s₀ : ListingState) :
    List ListingAction → ListingState → Prop where
  | nil : Run d words workers s₀ [] s₀
  | snoc {as : List ListingAction} {a : ListingAction} {s s' : ListingState}
      (hrun : Run d words workers s₀ as s) (hstep : Step d words workers s a s') :
      Run d words workers s₀ (as ++ [a]) s'

end ListingState

end Disassembly
