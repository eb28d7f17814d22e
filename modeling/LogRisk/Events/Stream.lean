import Mathlib.Data.List.Sort

/-!
# The event stream of a feature job

The rows of `feature_job_events` for one job, the copies of the event list that the
managers of several processes hold, and one client of one manager.  A paged job has no
copies: its event list is the table.
-/

namespace LogRisk.Events

structure Event (β : Type) where
  sequence : ℕ
  /-- The type, the time and the payload. -/
  body : β
deriving DecidableEq

variable {β : Type} [DecidableEq β]

instance : LawfulBEq (Event β) := inferInstance

section Table

variable (table : List (Event β))

/-- `COALESCE(MAX(sequence), -1) + 1`. -/
def nextSequence : ℕ := (table.map (·.sequence + 1)).foldr max 0

/-- `ORDER BY sequence`. -/
def ordered : List (Event β) := table.insertionSort fun e e' => e.sequence ≤ e'.sequence

/-- `ON CONFLICT(job_id, sequence) DO NOTHING`. -/
def insertRow (e : Event β) : List (Event β) :=
  if e.sequence ∈ table.map (·.sequence) then table else table ++ [e]

/-- The events of a review with the numbers that the table gives them. -/
def numbered (bodies : List β) : List (Event β) :=
  bodies.mapIdx fun offset body => ⟨nextSequence table + offset, body⟩

end Table

/-- The first number from `sequence` on that is not used, `fuel` being as many as there are. -/
def firstFree (used : List ℕ) : ℕ → ℕ → ℕ
  | 0, sequence => sequence
  | fuel + 1, sequence =>
      if sequence ∈ used then firstFree used fuel (sequence + 1) else sequence

/-- The loop of `save` over the incoming events. -/
structure Merge (β : Type) where
  merged : List (Event β)
  fingerprints : List (Event β)
  used : List ℕ
  next : ℕ

namespace Merge

def add (m : Merge β) (incoming : Event β) : Merge β :=
  if incoming ∈ m.fingerprints then m
  else
    let first := if incoming.sequence ∈ m.used then m.next else incoming.sequence
    let sequence := firstFree m.used m.used.length first
    { merged := m.merged ++ [⟨sequence, incoming.body⟩]
      fingerprints := incoming :: m.fingerprints
      used := sequence :: m.used
      next := max m.next (sequence + 1) }

def start (table : List (Event β)) : Merge β where
  merged := ordered table
  fingerprints := ordered table
  used := (ordered table).map (·.sequence)
  next := nextSequence table

end Merge

def mergedEvents (table incoming : List (Event β)) : List (Event β) :=
  (incoming.foldl Merge.add (Merge.start table)).merged

/-! ## Processes and a client -/

structure State (β : Type) where
  table : List (Event β) := []
  /-- The event list that a process holds. -/
  lists : ℕ → Option (List (Event β))
  cursor : ℕ := 0
  received : List (Event β) := []

namespace State

variable (s : State β)

def setList (p : ℕ) (events : Option (List (Event β))) : State β :=
  { s with lists := Function.update s.lists p events }

/-- `save` of an event list. -/
def save (p : ℕ) (events : List (Event β)) : State β :=
  let merged := mergedEvents s.table events
  { s.setList p (some merged) with table := merged.foldl insertRow s.table }

/-- `_job`: the list that a process holds, or the rows. -/
def job (p : ℕ) : List (Event β) := (s.lists p).getD (ordered s.table)

/-- An event of `_emit_locked` that takes its number from the list. -/
def emit (p : ℕ) (body : β) : State β :=
  let events := s.job p
  s.save p (events ++ [⟨events.length, body⟩])

/-- For a paged job the length may have been read some time before the row is inserted. -/
def emitPaged (read : ℕ) (body : β) : State β :=
  { s with table := insertRow s.table ⟨read, body⟩ }

/-- `append_review_event` through `_emit_locked`. -/
def emitReview (p : ℕ) (body : β) : State β :=
  let event : Event β := ⟨nextSequence s.table, body⟩
  { s.setList p (some (s.job p ++ [event])) with table := s.table ++ [event] }

/-- `_resolve_persisted_identity_locked`: a list that is loaded is extended. -/
def resolve (p : ℕ) (bodies : List β) : State β :=
  let events := numbered s.table bodies
  { s.setList p ((s.lists p).map (· ++ events)) with table := s.table ++ events }

/-- Rows that are written to a paged job. -/
def appendPaged (bodies : List β) : State β :=
  { s with table := s.table ++ numbered s.table bodies }

/-- `refresh_from_persistence` of a list that is not in use. -/
def refresh (p : ℕ) : State β :=
  match s.lists p with
  | none => s.setList p (some (ordered s.table))
  | some current =>
      if (ordered s.table).length ≤ current.length then s
      else s.setList p (some (ordered s.table))

/-- What the client is given, and its next cursor. -/
def deliver (page : List (Event β)) : State β :=
  match page.getLast? with
  | none => s
  | some last => { s with cursor := last.sequence + 1, received := s.received ++ page }

/-- `wait_for_events` of the manager that the client asks. -/
def wait (m : ℕ) : State β :=
  (s.setList m (some (s.job m))).deliver ((s.job m).drop s.cursor)

/-- The rows of one page: `LIMIT 200`. -/
def page (start stop : ℕ) : List (Event β) :=
  (ordered (s.table.filter fun e => start ≤ e.sequence ∧ e.sequence < stop)).take 200

/-- `wait_for_events` of a paged job. -/
def waitPaged : State β := s.deliver (s.page s.cursor (nextSequence s.table))

end State

inductive Action (β : Type) where
  | emit (p : ℕ) (body : β)
  | emitReview (p : ℕ) (body : β)
  | resolve (p : ℕ) (bodies : List β)
  | load (p : ℕ)
  | refresh (p : ℕ)
  | trim (p : ℕ)
  | wait

/-- A job whose event lists the processes hold; the client asks the process `m`. -/
def step (m : ℕ) (s : State β) : Action β → State β
  | .emit p body => s.emit p body
  | .emitReview p body => s.emitReview p body
  | .resolve p bodies => s.resolve p bodies
  | .load p => s.setList p (some (s.job p))
  | .refresh p => s.refresh p
  | .trim p => s.setList p none
  | .wait => s.wait m

inductive PagedAction (β : Type) where
  | emit (read : ℕ) (body : β)
  | review (bodies : List β)
  | wait

def stepPaged (s : State β) : PagedAction β → State β
  | .emit read body => s.emitPaged read body
  | .review bodies => s.appendPaged bodies
  | .wait => s.waitPaged

/-- The job as the process `p` has created it, and a client at cursor 0. -/
def created (p : ℕ) : State β where
  lists := Function.update (fun _ => none) p (some [])

end LogRisk.Events
