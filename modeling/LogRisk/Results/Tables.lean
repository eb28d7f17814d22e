import LogRisk.Windows.Merge
import LogRisk.Streaming.Task

/-!
# Result generations

A generation holds the windows of a task folded by identity, and a score for each
entity.  A stored window is split into a core, which is merged, and its members, which
are counted in rows of their own.
-/

namespace LogRisk.Results

open LogRisk.Library LogRisk.Windows LogRisk.Streaming

variable {ν σ : Type}

/-! ## Entities -/

/-- `canonical[:5]`. -/
structure EntityKey where
  windowStart : Option ℤ
  windowEnd : Option ℤ
  cluster : Option String
  entityType : EntityType
  entityId : String
deriving DecidableEq

def entityKeyOf (k : Identity) : EntityKey where
  windowStart := k.windowStart
  windowEnd := k.windowEnd
  cluster := k.cluster
  entityType := k.entityType
  entityId := k.entityId

/-! ## Scores -/

inductive Level where
  | low
  | medium
  | high
  | critical
deriving DecidableEq

/-- What the rules compute: `score_window` of a severity, a component, a template and a
count; `min(100, round(peak + bonus, 2))`; `level_of`. -/
structure Rules (σ : Type) where
  scoreWindow : Option String → Option String → Option String → ℕ → σ
  total : σ → ℕ → σ
  levelOf : σ → Level

def Rules.score (rules : Rules σ) (w : Window ν) : σ :=
  rules.scoreWindow w.severity w.component w.template w.count

/-- `min(10, max(0, n - 1) * 3)`. -/
def bonus (n : ℕ) : ℕ := min 10 ((n - 1) * 3)

structure EntityScore (σ : Type) where
  score : σ
  level : Level
deriving DecidableEq

def Rules.entity (rules : Rules σ) (peak : σ) (windows : ℕ) : EntityScore σ where
  score := rules.total peak (bonus windows)
  level := rules.levelOf (rules.total peak (bonus windows))

/-! ## Splitting a window -/

/-- A row of `streaming_result_window_members`. -/
inductive Member (ν : Type) where
  | affectedNamespace (value : String)
  | affectedPod (value : String)
  | entityKey (value : String)
  | entityRelation (value : Relation)
  | semanticTag (value : String)
  | semanticField (field : String) (value : ν)
  | typedParameter (field mask : String)

/-- `_split`, the core. -/
def core (w : Window ν) : Window ν :=
  { w with
    samples := []
    affectedNamespaces := ∅
    affectedPods := ∅
    entityKeys := ∅
    entityRelations := ∅
    semanticTags := ∅
    semanticFields := 0
    typedParameters := 0 }

/-- `_split`, the members, each as often as it is counted. -/
def members (w : Window ν) : Multiset (Member ν) :=
  w.affectedNamespaces.val.map .affectedNamespace + w.affectedPods.val.map .affectedPod +
    w.entityKeys.val.map .entityKey + w.entityRelations.val.map .entityRelation +
    w.semanticTags.val.map .semanticTag +
    w.semanticFields.map (fun f => .semanticField f.1 f.2) +
    w.typedParameters.map fun p => .typedParameter p.1 p.2

@[simp] theorem identity_core (w : Window ν) : (core w).identity = w.identity := rfl

/-! ## Rows -/

/-- The key of a row of `streaming_batch_windows`. -/
abbrev Position := String ×ₗ ℤ

def Position.start : Position := toLex ("", -1)

def position (row : BatchWindow (Window ν)) : Position := toLex (row.windowId, (row.itemIndex : ℤ))

structure ResultWindow (ν σ : Type) where
  canonical : Identity
  entityKey : EntityKey
  count : ℕ
  score : σ
  core : Window ν
  members : Multiset (Member ν)

structure Summary where
  windows : ℕ
  records : ℕ
  entities : ℕ
  critical : ℕ
  high : ℕ
deriving DecidableEq

/-- A row of `streaming_result_generations`, with the rows that belong to it. -/
structure ResultGeneration (ν σ : Type) where
  status : GenerationStatus
  rulesHash : String
  frontier : SourceCursor
  after : Position
  summary : Option Summary
  integrity : Option Integrity
  windows : Dict String (ResultWindow ν σ)
  entities : Dict EntityKey (EntityScore σ)

/-- The rows of one task. -/
structure Tables (ν σ : Type) where
  source : TaskTables (Window ν)
  generations : Dict String (ResultGeneration ν σ)

inductive BuildError where
  | budget
  | value (message : String)
deriving DecidableEq

abbrev BuildResult (α : Type) := Except BuildError α

/-- The hash of a canonical key, the text of an entity key, the bytes of a stored
window and the number of rows in a page. -/
structure Repository (ν : Type) where
  digest : Identity → String
  entityText : EntityKey → String
  size : Window ν → ℕ
  pageRows : ℕ
  entityText_injective : Function.Injective entityText
  entityText_ne_empty : ∀ key, entityText key ≠ ""
  pageRows_pos : 0 < pageRows

def pageBytes : ℕ := 2 * 1024 * 1024

end LogRisk.Results
