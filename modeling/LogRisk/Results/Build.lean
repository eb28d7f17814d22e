import LogRisk.Library.Paging
import LogRisk.Results.Tables
import LogRisk.Streaming.Store

/-!
# Building a generation

`build` is a transaction that looks for a generation, one for each page of windows,
one for each page of entities and a last one that calls the generation ready.  What a
worker carries from one to the next is how far it has read.
-/

namespace LogRisk.Results

open LogRisk.Library LogRisk.Library.Transaction LogRisk.Windows LogRisk.Streaming

variable {ν σ : Type}

/-- What a worker builds for. -/
structure Request where
  rulesHash : String
  evidence : PrefixEvidence
  leaseToken : String

/-! ## Windows -/

/-- The row a core is stored in under a key. -/
def resultWindow (rules : Rules σ) (canonical : Identity) (core : Window ν)
    (members : Multiset (Member ν)) : ResultWindow ν σ where
  canonical := canonical
  entityKey := entityKeyOf canonical
  count := core.count
  score := rules.score core
  core := core
  members := members

/-- A window folded into the rows of a generation. -/
def Repository.upsert (repository : Repository ν) (rules : Rules σ)
    (windows : Dict String (ResultWindow ν σ)) (w : Window ν) :
    BuildResult (Dict String (ResultWindow ν σ)) :=
  let windowKey := repository.digest w.identity
  match windows.get? windowKey with
  | none => return windows.set windowKey (resultWindow rules w.identity (core w) (members w))
  | some existing => do
      require (existing.canonical = w.identity) (.value "归约 key 哈希冲突")
      let merged := (mergeTemplateWindows [existing.core, core w]).headD (core w)
      return windows.set windowKey { existing with
        count := merged.count
        score := rules.score merged
        core := merged
        members := existing.members + members w }

/-- The loop over the rows of a page; a page ends before the row that exceeds its bytes. -/
def Repository.foldRows (repository : Repository ν) (rules : Rules σ)
    (windows : Dict String (ResultWindow ν σ)) (after : Position) (consumed : ℕ) :
    List (BatchWindow (Window ν)) → BuildResult (Dict String (ResultWindow ν σ) × Position)
  | [] => .ok (windows, after)
  | row :: rest => do
      let size := repository.size row.window
      require (size ≤ pageBytes) .budget
      if consumed ≠ 0 ∧ pageBytes < consumed + size then return (windows, after)
      else
        let windows ← repository.upsert rules windows row.window
        repository.foldRows rules windows (position row) (consumed + size) rest

/-! ## Transactions -/

namespace Tables

/-- A generation that is looked for, and one that is not there. -/
inductive Found where
  | ready (generation : String)
  | building (generation : String) (after : Position)

def setGeneration (t : Tables ν σ) (generation : String) (g : ResultGeneration ν σ) :
    Tables ν σ :=
  { t with generations := t.generations.set generation g }

/-- `ORDER BY generation LIMIT 1`. -/
def generationFor (t : Tables ν σ) (rulesHash : String) (frontier : SourceCursor) :
    Option (String × ResultGeneration ν σ) :=
  (Paging.ordered Prod.fst t.generations.entries).find? fun row =>
    row.2.rulesHash = rulesHash ∧ row.2.frontier = frontier

def newGeneration (rulesHash : String) (frontier : SourceCursor) : ResultGeneration ν σ where
  status := .building
  rulesHash := rulesHash
  frontier := frontier
  after := Position.start
  summary := none
  integrity := none
  windows := ∅
  entities := ∅

/-- A token that is given has to be that of the running task. -/
def Leased (t : Tables ν σ) (leaseToken : String) : Prop :=
  leaseToken ≠ "" → t.source.task.heldBy leaseToken

instance (t : Tables ν σ) (leaseToken : String) : Decidable (t.Leased leaseToken) :=
  inferInstanceAs (Decidable (_ → _))

/-- The first transaction; `generated` is the identifier of a new generation. -/
def begin (generated : String) (request : Request) (t : Tables ν σ) :
    BuildResult (Found × Tables ν σ) := do
  require (t.Leased request.leaseToken) (.value "结果构建前任务租约变化")
  let frontier := t.source.row.cursor
  match t.generationFor request.rulesHash frontier with
  | some (generation, old) =>
      if old.status = .ready then
        return (.ready generation, t.setGeneration generation { old with
          integrity := some (request.evidence.integrity request.leaseToken) })
      else return (.building generation old.after, t)
  | none =>
      require (t.generations.get? generated = none)
        (.value "UNIQUE constraint failed: streaming_result_generations")
      return (.building generated Position.start,
        t.setGeneration generated (newGeneration request.rulesHash frontier))

/-- A page of windows; no row behind `after` ends the loop. -/
def page (repository : Repository ν) (rules : Rules σ) (generation : String) (after : Position)
    (t : Tables ν σ) : BuildResult (Option Position × Tables ν σ) :=
  match Paging.page position after repository.pageRows t.source.batchWindows with
  | [] => return (none, t)
  | row :: rest => do
      let g ← orFail (t.generations.get? generation) (.value "FOREIGN KEY constraint failed")
      let (windows, after) ← repository.foldRows rules g.windows after 0 (row :: rest)
      return (some after, t.setGeneration generation { g with windows := windows, after := after })

/-- `SELECT entity_key, COUNT(*), MAX(score) … GROUP BY entity_key`. -/
def entityKeys (g : ResultGeneration ν σ) : List EntityKey :=
  (g.windows.values.map ResultWindow.entityKey).dedup

def windowsOf (g : ResultGeneration ν σ) (key : EntityKey) : List (ResultWindow ν σ) :=
  g.windows.values.filter fun row => row.entityKey = key

variable [LinearOrder σ]

def entityOf (rules : Rules σ) (g : ResultGeneration ν σ) (key : EntityKey) :
    Option (EntityScore σ) :=
  ((windowsOf g key).map ResultWindow.score).max?.map fun peak =>
    rules.entity peak (windowsOf g key).length

/-- The upsert of an entity. -/
def scoreEntity (rules : Rules σ) (g : ResultGeneration ν σ) (key : EntityKey) :
    ResultGeneration ν σ :=
  match entityOf rules g key with
  | none => g
  | some entity => { g with entities := g.entities.set key entity }

/-- A page of entities, and the text of the last of them. -/
def entityPage (repository : Repository ν) (rules : Rules σ) (generation : String)
    (after : String) (t : Tables ν σ) : Option String × Tables ν σ :=
  match t.generations.get? generation with
  | none => (none, t)
  | some g =>
      let keys := Paging.page repository.entityText after repository.pageRows (entityKeys g)
      match keys.getLast? with
      | none => (none, t)
      | some last => (some (repository.entityText last),
          t.setGeneration generation (keys.foldl (scoreEntity rules) g))

omit [LinearOrder σ] in
def summaryOf (g : ResultGeneration ν σ) : Summary where
  windows := g.windows.entries.length
  records := g.windows.total ResultWindow.count
  entities := g.entities.entries.length
  critical := (g.entities.values.filter fun e => e.level = .critical).length
  high := (g.entities.values.filter fun e => e.level = .high).length

/-- The last transaction. -/
def finish (generation : String) (frontier : SourceCursor) (request : Request) (t : Tables ν σ) :
    BuildResult (Unit × Tables ν σ) := do
  require (t.source.row.cursor = frontier) (.value "结果构建期间来源水位变化")
  require (t.Leased request.leaseToken) (.value "结果构建期间任务租约变化")
  require (t.source.commits.length = request.evidence.committedBatches)
    (.value "结果构建期间提交批次数变化")
  match t.generations.get? generation with
  | none => return ((), t)
  | some g => return ((), t.setGeneration generation { g with
      status := .ready
      summary := some (summaryOf g)
      integrity := some (request.evidence.integrity request.leaseToken) })

end Tables

end LogRisk.Results
