import LogRisk.Library.Checks
import LogRisk.Library.Layering
import LogRisk.Library.Paging
import LogRisk.Library.Value
import Mathlib.Algebra.Group.Nat.Defs

/-!
# The compiler of workflow definitions

`compile_workflow` reads an untyped definition in several passes: the sections, the budget, the
nodes one by one, their dependencies, and at last the layers.  What a definition says is stated
apart from the passes, and so is when it is accepted.
-/

namespace LogRisk.Agentic.Compiler

open LogRisk.Library LogRisk.Library.Transaction
open LogRisk.Library.Dict (assoc)
open LogRisk.Library.Layering (Graph Layered Path peel)

inductive Exn where
  /-- `AgenticError`. -/
  | agentic (message code : String)
  /-- `OverflowError`. -/
  | overflow
  /-- The loop over the layers did not end. -/
  | unfinished
deriving DecidableEq

/-- The readings of the language: `int` and `float` of a text, and `str`. -/
structure Host where
  int : String → Option ℤ
  float : String → Option Floating
  text : Value → String

structure WorkflowLimits where
  maxNodes : ℤ := 20
  maxConcurrency : ℤ := 4
  maxToolCalls : ℤ := 100
  maxTimeoutSeconds : ℚ := 3600
  maxAttempts : ℤ := 3

structure AgentRole where
  roleId : String
  allowedTools : List String
  maxSteps : ℕ
  maxToolCalls : ℕ
  timeoutSeconds : ℚ
deriving DecidableEq

/-- The roles in the order in which they are registered; a later one takes the place of an
earlier one with its identifier. -/
structure RoleRegistry where
  roles : List AgentRole

def RoleRegistry.get (registry : RoleRegistry) (roleId : String) : Option AgentRole :=
  registry.roles.reverse.find? (·.roleId = roleId)

structure WorkflowNodeDefinition where
  nodeId : String
  roleId : String
  dependsOn : List String
  allowedTools : List String
  maxSteps : ℕ
  maxToolCalls : ℕ
  timeoutSeconds : ℚ
deriving DecidableEq

structure WorkflowBudget where
  maxNodes : ℤ
  maxConcurrency : ℤ
  maxToolCalls : ℤ
  timeoutSeconds : Floating
deriving DecidableEq

structure CompiledWorkflow where
  schemaVersion : String
  name : String
  description : String
  nodes : List WorkflowNodeDefinition
  budget : WorkflowBudget
  maxAttempts : ℤ
  topologicalOrder : List String
  parallelLayers : List (List String)
deriving DecidableEq

/-! ## Numbers -/

def budgetInvalid : Exn := .agentic "工作流预算无效" "workflow_budget_invalid"

/-- `int(value)` under the handler of `TypeError` and `ValueError`. -/
def parseInt (H : Host) : Value → Except Exn ℤ
  | .bool b => .ok (if b then 1 else 0)
  | .int n => .ok n
  | .float (.finite q) => .ok (q.num.tdiv q.den)
  | .float (.infinite _) => .error .overflow
  | .str s => orFail (H.int s) budgetInvalid
  | _ => .error budgetInvalid

def positiveInt (H : Host) : Value → Except Exn ℤ
  | .bool _ => .error budgetInvalid
  | value => do
      let parsed ← parseInt H value
      require (0 < parsed) budgetInvalid
      return parsed

/-- Half a unit above the largest floating-point number: from here on integers overflow. -/
def floatBound : ℕ := 2 ^ 1024 - 2 ^ 970

/-- `float(value)` under the same handler. -/
def parseFloat (H : Host) : Value → Except Exn Floating
  | .bool b => .ok (.finite (if b then 1 else 0))
  | .int n => if floatBound ≤ n.natAbs then .error .overflow else .ok (.finite n)
  | .float x => .ok x
  | .str s => orFail (H.float s) budgetInvalid
  | _ => .error budgetInvalid

/-- `timeout <= 0 or timeout > limit`; no comparison holds of a value that is no number. -/
def outside (limit : ℚ) : Floating → Bool
  | .finite q => decide (q ≤ 0 ∨ limit < q)
  | .infinite _ => true
  | .nan => false

/-! ## Passes -/

def schemaInvalid (message : String) : Exn := .agentic message "workflow_schema_invalid"

/-- `set(d) == names`. -/
def HasKeys (d : Entries) (names : List String) : Prop :=
  (∀ key ∈ d.map Prod.fst, key ∈ names) ∧ ∀ name ∈ names, name ∈ d.map Prod.fst

instance (d : Entries) (names : List String) : Decidable (HasKeys d names) :=
  inferInstanceAs (Decidable (_ ∧ _))

/-- The value under a key that is known to be there. -/
def member (key : String) (d : Entries) : Value := (assoc key d).getD .null

def definitionKeys : List String :=
  ["schema_version", "name", "description", "nodes", "budget", "retry_policy"]

def budgetKeys : List String := ["max_nodes", "max_concurrency", "max_tool_calls", "timeout_seconds"]

def retryKeys : List String := ["max_attempts"]

def nodeKeys : List String := ["node_id", "role_id", "depends_on"]

/-- A definition in its sections. -/
structure Sections where
  definition : Entries
  rawNodes : List Value
  rawBudget : Entries
  retry : Entries

def sections (value : Value) : Except Exn Sections :=
  let invalid := schemaInvalid "工作流结构无效"
  match value with
  | .dict d => do
      require (HasKeys d definitionKeys) invalid
      match assoc "nodes" d, assoc "budget" d, assoc "retry_policy" d with
      | some (.list rawNodes), some (.dict rawBudget), some (.dict retry) =>
          require (rawNodes ≠ []) invalid
          require (HasKeys rawBudget budgetKeys ∧ HasKeys retry retryKeys) invalid
          return ⟨d, rawNodes, rawBudget, retry⟩
      | _, _, _ => .error invalid
  | _ => .error invalid

/-- The budget and the number of attempts. -/
def budgetOf (H : Host) (limits : WorkflowLimits) (s : Sections) :
    Except Exn (WorkflowBudget × ℤ) := do
  let maxNodes ← positiveInt H (member "max_nodes" s.rawBudget)
  let concurrency ← positiveInt H (member "max_concurrency" s.rawBudget)
  let maxToolCalls ← positiveInt H (member "max_tool_calls" s.rawBudget)
  let attempts ← positiveInt H (member "max_attempts" s.retry)
  let timeout ← parseFloat H (member "timeout_seconds" s.rawBudget)
  require (¬ (maxNodes < s.rawNodes.length ∨ limits.maxNodes < maxNodes ∨
      limits.maxConcurrency < concurrency ∨ s.rawNodes.length < concurrency ∨
      limits.maxToolCalls < maxToolCalls ∨ outside limits.maxTimeoutSeconds timeout = true ∨
      limits.maxAttempts < attempts))
    (.agentic "工作流预算超出平台限制" "workflow_budget_invalid")
  return (⟨maxNodes, concurrency, maxToolCalls, timeout⟩, attempts)

/-- `[a-z0-9][a-z0-9-]{0,63}`, matched to the end. -/
def isNodeId (s : String) : Bool :=
  let alnum (c : Char) := c.isLower || c.isDigit
  match s.toList with
  | [] => false
  | c :: cs => alnum c && cs.all (fun c => alnum c || c == '-') && decide (cs.length ≤ 63)

/-- One turn of the loop over the nodes, given the identifiers before. -/
def readNode (H : Host) (roles : RoleRegistry) (identifiers : List String) (raw : Value) :
    Except Exn WorkflowNodeDefinition :=
  let invalid := schemaInvalid "工作流节点结构无效"
  match raw with
  | .dict d => do
      require (HasKeys d nodeKeys) invalid
      match assoc "depends_on" d with
      | some (.list items) =>
          let nodeId := H.text (member "node_id" d)
          require (isNodeId nodeId = true) (schemaInvalid "工作流节点标识无效")
          require (nodeId ∉ identifiers) (.agentic "工作流节点重复" "workflow_node_duplicate")
          let role ← orFail (roles.get (H.text (member "role_id" d)))
            (.agentic "工作流角色未注册" "workflow_role_unknown")
          return ⟨nodeId, role.roleId, items.map H.text, role.allowedTools, role.maxSteps,
            role.maxToolCalls, role.timeoutSeconds⟩
      | _ => .error invalid
  | _ => .error invalid

def readNodes (H : Host) (roles : RoleRegistry) :
    List String → List Value → Except Exn (List WorkflowNodeDefinition)
  | _, [] => .ok []
  | identifiers, raw :: rest => do
      let node ← readNode H roles identifiers raw
      let nodes ← readNodes H roles (identifiers ++ [node.nodeId]) rest
      return node :: nodes

def cycleError : Exn := .agentic "工作流存在循环依赖" "workflow_cycle"

def checkDependencies (identifiers : List String) (node : WorkflowNodeDefinition) :
    Except Exn Unit := do
  require (¬ (node.nodeId ∈ node.dependsOn ∨ ¬ node.dependsOn.Nodup)) cycleError
  require (∀ dependency ∈ node.dependsOn, dependency ∈ identifiers)
    (.agentic "工作流依赖不存在" "workflow_dependency_unknown")

/-- `remaining`. -/
def remaining (nodes : List WorkflowNodeDefinition) : Graph String :=
  nodes.map fun node => (node.nodeId, node.dependsOn)

def orderHint (nodes : List WorkflowNodeDefinition) (nodeId : String) : ℕ :=
  (nodes.map WorkflowNodeDefinition.nodeId).idxOf nodeId

/-- The loop over the layers; every turn takes a node, so their number is fuel enough. -/
def layersOf (nodes : List WorkflowNodeDefinition) : Except Exn (List (List String)) :=
  match peel (Paging.ordered (orderHint nodes)) nodes.length (remaining nodes) with
  | .ok layers => .ok layers
  | .error .cycle => .error cycleError
  | .error .unfinished => .error .unfinished

def assemble (H : Host) (s : Sections) (budget : WorkflowBudget) (attempts : ℤ)
    (nodes : List WorkflowNodeDefinition) (layers : List (List String)) : CompiledWorkflow where
  schemaVersion := H.text (member "schema_version" s.definition)
  name := H.text (member "name" s.definition)
  description := H.text (member "description" s.definition)
  nodes := layers.flatten.filterMap fun nodeId => nodes.find? (·.nodeId = nodeId)
  budget := budget
  maxAttempts := attempts
  topologicalOrder := layers.flatten
  parallelLayers := layers

def compileWorkflow (H : Host) (roles : RoleRegistry) (limits : WorkflowLimits) (value : Value) :
    Except Exn CompiledWorkflow := do
  let s ← sections value
  let (budget, attempts) ← budgetOf H limits s
  let nodes ← readNodes H roles [] s.rawNodes
  nodes.forM (checkDependencies (nodes.map WorkflowNodeDefinition.nodeId))
  let layers ← layersOf nodes
  return assemble H s budget attempts nodes layers

/-! ## What a definition says -/

/-- A number, or a text that is read as one, taken as an integer towards zero. -/
inductive ReadsInt (H : Host) : Value → ℤ → Prop
  | int (n : ℤ) : ReadsInt H (.int n) n
  | float (q : ℚ) : ReadsInt H (.float (.finite q)) (q.num.tdiv q.den)
  | str {s : String} {n : ℤ} (h : H.int s = some n) : ReadsInt H (.str s) n

/-- A number, or a text that is read as one. -/
inductive ReadsFloat (H : Host) : Value → ℚ → Prop
  | int {n : ℤ} (h : n.natAbs < floatBound) : ReadsFloat H (.int n) n
  | float (q : ℚ) : ReadsFloat H (.float (.finite q)) q
  | str {s : String} {q : ℚ} (h : H.float s = some (.finite q)) : ReadsFloat H (.str s) q

structure NodeDefinition where
  nodeId : String
  roleId : String
  dependsOn : List String

/-- The shape of a node and what it says. -/
def ReadsNode (H : Host) (raw : Value) (x : NodeDefinition) : Prop :=
  ∃ d items, raw = .dict d ∧ HasKeys d nodeKeys ∧ assoc "depends_on" d = some (.list items) ∧
    x = ⟨H.text (member "node_id" d), H.text (member "role_id" d), items.map H.text⟩

structure WorkflowDefinition where
  nodes : List NodeDefinition
  maxNodes : ℤ
  maxConcurrency : ℤ
  maxToolCalls : ℤ
  timeoutSeconds : ℚ
  maxAttempts : ℤ

def WorkflowDefinition.identifiers (x : WorkflowDefinition) : List String :=
  x.nodes.map NodeDefinition.nodeId

def WorkflowDefinition.graph (x : WorkflowDefinition) : Graph String :=
  x.nodes.map fun node => (node.nodeId, node.dependsOn)

/-- A document has the sections of a definition. -/
structure Shape (value : Value) (s : Sections) : Prop where
  document : value = .dict s.definition
  keys : HasKeys s.definition definitionKeys
  nodes : assoc "nodes" s.definition = some (.list s.rawNodes)
  budget : assoc "budget" s.definition = some (.dict s.rawBudget)
  retry : assoc "retry_policy" s.definition = some (.dict s.retry)
  nonempty : s.rawNodes ≠ []
  budgetKeys : HasKeys s.rawBudget budgetKeys
  retryKeys : HasKeys s.retry retryKeys

/-- A well-formed document and the definition it is. -/
structure Denotes (H : Host) (value : Value) (s : Sections) (x : WorkflowDefinition) : Prop where
  shape : Shape value s
  nodes : List.Forall₂ (ReadsNode H) s.rawNodes x.nodes
  maxNodes : ReadsInt H (member "max_nodes" s.rawBudget) x.maxNodes
  maxConcurrency : ReadsInt H (member "max_concurrency" s.rawBudget) x.maxConcurrency
  maxToolCalls : ReadsInt H (member "max_tool_calls" s.rawBudget) x.maxToolCalls
  timeoutSeconds : ReadsFloat H (member "timeout_seconds" s.rawBudget) x.timeoutSeconds
  maxAttempts : ReadsInt H (member "max_attempts" s.retry) x.maxAttempts

/-- Identifiers, roles and dependencies are in order, and the budget is positive and within the
limits. -/
structure Sound (roles : RoleRegistry) (limits : WorkflowLimits) (x : WorkflowDefinition) :
    Prop where
  identifiers : x.identifiers.Nodup
  nodeIds : ∀ node ∈ x.nodes, isNodeId node.nodeId = true
  roles : ∀ node ∈ x.nodes, ∃ role ∈ roles.roles, role.roleId = node.roleId
  known : ∀ node ∈ x.nodes, ∀ dependency ∈ node.dependsOn, dependency ∈ x.identifiers
  other : ∀ node ∈ x.nodes, node.nodeId ∉ node.dependsOn
  once : ∀ node ∈ x.nodes, node.dependsOn.Nodup
  acyclic : Layering.Acyclic x.graph
  maxNodes : 0 < x.maxNodes ∧ x.maxNodes ≤ limits.maxNodes
  maxConcurrency : 0 < x.maxConcurrency ∧ x.maxConcurrency ≤ limits.maxConcurrency
  maxToolCalls : 0 < x.maxToolCalls ∧ x.maxToolCalls ≤ limits.maxToolCalls
  timeoutSeconds : 0 < x.timeoutSeconds ∧ x.timeoutSeconds ≤ limits.maxTimeoutSeconds
  maxAttempts : 0 < x.maxAttempts ∧ x.maxAttempts ≤ limits.maxAttempts

/-- The budget fits the nodes there are. -/
def Fits (x : WorkflowDefinition) : Prop :=
  x.nodes.length ≤ x.maxNodes ∧ x.maxConcurrency ≤ x.nodes.length

/-- The outcome orders the nodes: each comes behind all it depends on, and in the layer that the
longest path of dependencies to it tells. -/
structure Arranged (x : WorkflowDefinition) (w : CompiledWorkflow) : Prop where
  order : w.topologicalOrder = w.parallelLayers.flatten
  nodes : w.nodes.map WorkflowNodeDefinition.nodeId = w.topologicalOrder
  perm : w.topologicalOrder.Perm x.identifiers
  nonempty : ∀ layer ∈ w.parallelLayers, layer ≠ []
  behind : ∀ before nodeId after, w.topologicalOrder = before ++ nodeId :: after →
    ∀ dependency, Layering.Waits x.graph nodeId dependency → dependency ∈ before
  layer : ∀ nodeId i, (∃ layer, w.parallelLayers[i]? = some layer ∧ nodeId ∈ layer) ↔
    IsGreatest { k | Path x.graph k nodeId } i

/-- The timeout is a number: `True` and what is no number are left open. -/
def TimeoutIsNumber (H : Host) (value : Value) : Prop :=
  ∀ s, Shape value s → (∀ b, member "timeout_seconds" s.rawBudget ≠ .bool b) ∧
    parseFloat H (member "timeout_seconds" s.rawBudget) ≠ .ok .nan

/-! ## The passes and what they accept -/

section Passes

variable {H : Host} {roles : RoleRegistry} {limits : WorkflowLimits} {value : Value}

theorem parseInt_eq_ok {v : Value} (hbool : ∀ b, v ≠ .bool b) {n : ℤ} :
    parseInt H v = .ok n ↔ ReadsInt H v n := by
  constructor
  · intro h
    cases v with
    | bool b => exact absurd rfl (hbool b)
    | int m =>
      obtain rfl := Except.ok.inj h
      exact .int m
    | float x =>
      cases x with
      | finite q =>
        obtain rfl := Except.ok.inj h
        exact .float q
      | infinite negative => cases h
      | nan => cases h
    | str t => exact .str (orFail_eq_ok.mp h)
    | null => cases h
    | list items => cases h
    | dict entries => cases h
  · intro h
    cases h with
    | int => rfl
    | float => rfl
    | str h => exact orFail_eq_ok.mpr h

theorem positiveInt_eq_ok {v : Value} {n : ℤ} :
    positiveInt H v = .ok n ↔ ReadsInt H v n ∧ 0 < n := by
  by_cases hbool : ∃ b, v = .bool b
  · obtain ⟨b, rfl⟩ := hbool
    constructor
    · intro h
      cases h
    · rintro ⟨h, -⟩
      cases h
  · have hno : ∀ b, v ≠ .bool b := fun b hb => hbool ⟨b, hb⟩
    have hunfold : positiveInt H v = (do
        let parsed ← parseInt H v
        require (0 < parsed) budgetInvalid
        return parsed) := by
      cases v with
      | bool b => exact absurd rfl (hno b)
      | _ => rfl
    rw [hunfold]
    simp only [bind_eq_ok, parseInt_eq_ok hno, require_eq_ok, exists_const, pure_eq_ok]
    constructor
    · rintro ⟨m, hreads, hpos, rfl⟩
      exact ⟨hreads, hpos⟩
    · rintro ⟨hreads, hpos⟩
      exact ⟨n, hreads, hpos, rfl⟩

theorem parseFloat_int (H : Host) (n : ℤ) :
    parseFloat H (.int n) =
      if floatBound ≤ n.natAbs then .error .overflow else .ok (.finite n) := rfl

theorem parseFloat_eq_ok {v : Value} (hbool : ∀ b, v ≠ .bool b) {q : ℚ} :
    parseFloat H v = .ok (.finite q) ↔ ReadsFloat H v q := by
  constructor
  · intro h
    cases v with
    | bool b => exact absurd rfl (hbool b)
    | int n =>
      rw [parseFloat_int] at h
      split at h
      · cases h
      · rename_i hsmall
        cases h
        exact .int (not_le.mp hsmall)
    | float x =>
      cases h
      exact .float q
    | str t => exact .str (orFail_eq_ok.mp h)
    | null => cases h
    | list items => cases h
    | dict entries => cases h
  · intro h
    cases h with
    | int h => rw [parseFloat_int, if_neg (not_le.mpr h)]
    | float => rfl
    | str h => exact orFail_eq_ok.mpr h

theorem sections_eq_ok {s : Sections} : sections value = .ok s ↔ Shape value s := by
  constructor
  · intro h
    unfold sections at h
    split at h
    · rename_i d
      obtain ⟨hkeys, h⟩ := require_bind_eq_ok.mp h
      split at h
      · rename_i rawNodes rawBudget retry hnodes hbudget hretry
        obtain ⟨hne, h⟩ := require_bind_eq_ok.mp h
        obtain ⟨hboth, h⟩ := require_bind_eq_ok.mp h
        obtain rfl := pure_eq_ok.mp h
        exact ⟨rfl, hkeys, hnodes, hbudget, hretry, hne, hboth.1, hboth.2⟩
      · cases h
    · cases h
  · rintro ⟨rfl, hkeys, hnodes, hbudget, hretry, hne, hbudgetKeys, hretryKeys⟩
    simp only [sections, hnodes, hbudget, hretry]
    rw [require_of hkeys, require_of hne, require_of ⟨hbudgetKeys, hretryKeys⟩]
    rfl

/-- A document has one shape. -/
theorem Shape.unique {s s' : Sections} (h : Shape value s) (h' : Shape value s') : s = s' :=
  Except.ok.inj ((sections_eq_ok.mpr h).symm.trans (sections_eq_ok.mpr h'))

theorem outside_eq_false {limit : ℚ} {x : Floating} :
    outside limit x = false ↔ x = .nan ∨ ∃ q, x = .finite q ∧ 0 < q ∧ q ≤ limit := by
  cases x with
  | finite q =>
    simp only [outside, decide_eq_false_iff_not, not_or, reduceCtorEq, false_or,
      Floating.finite.injEq, exists_eq_left']
    rw [Rat.not_le, Rat.not_lt]
  | infinite negative => simp [outside]
  | nan => simp [outside]

theorem budgetOf_eq_ok {s : Sections} {budget : WorkflowBudget} {attempts : ℤ} :
    budgetOf H limits s = .ok (budget, attempts) ↔
      (positiveInt H (member "max_nodes" s.rawBudget) = .ok budget.maxNodes ∧
        positiveInt H (member "max_concurrency" s.rawBudget) = .ok budget.maxConcurrency ∧
        positiveInt H (member "max_tool_calls" s.rawBudget) = .ok budget.maxToolCalls ∧
        positiveInt H (member "max_attempts" s.retry) = .ok attempts ∧
        parseFloat H (member "timeout_seconds" s.rawBudget) = .ok budget.timeoutSeconds) ∧
      s.rawNodes.length ≤ budget.maxNodes ∧ budget.maxNodes ≤ limits.maxNodes ∧
      budget.maxConcurrency ≤ limits.maxConcurrency ∧
      budget.maxConcurrency ≤ s.rawNodes.length ∧ budget.maxToolCalls ≤ limits.maxToolCalls ∧
      outside limits.maxTimeoutSeconds budget.timeoutSeconds = false ∧
      attempts ≤ limits.maxAttempts := by
  unfold budgetOf
  simp only [bind_eq_ok, require_eq_ok, exists_const, pure_eq_ok, not_or, not_lt,
    Bool.not_eq_true]
  constructor
  · rintro ⟨a, ha, b, hb, c, hc, d, hd, t, ht, hlimits, heq⟩
    obtain ⟨rfl, rfl⟩ := Prod.mk.inj heq
    exact ⟨⟨ha, hb, hc, hd, ht⟩, hlimits⟩
  · rintro ⟨⟨ha, hb, hc, hd, ht⟩, hlimits⟩
    exact ⟨_, ha, _, hb, _, hc, _, hd, _, ht, hlimits, rfl⟩

/-! ### Nodes -/

theorem get_eq_some {roleId : String} {role : AgentRole} (h : roles.get roleId = some role) :
    role ∈ roles.roles ∧ role.roleId = roleId :=
  ⟨List.mem_reverse.mp (List.mem_of_find?_eq_some h), by simpa using List.find?_some h⟩

theorem exists_get {roleId : String} (h : ∃ role ∈ roles.roles, role.roleId = roleId) :
    ∃ role, roles.get roleId = some role := by
  obtain ⟨role, hmem, hrole⟩ := h
  apply Option.isSome_iff_exists.mp
  unfold RoleRegistry.get
  rw [List.find?_isSome]
  exact ⟨role, List.mem_reverse.mpr hmem, decide_eq_true hrole⟩

/-- The node that a definition and a role make. -/
def nodeOf (x : NodeDefinition) (role : AgentRole) : WorkflowNodeDefinition :=
  ⟨x.nodeId, role.roleId, x.dependsOn, role.allowedTools, role.maxSteps, role.maxToolCalls,
    role.timeoutSeconds⟩

theorem readNode_eq_ok {identifiers : List String} {raw : Value} {node : WorkflowNodeDefinition} :
    readNode H roles identifiers raw = .ok node ↔
      ∃ x role, ReadsNode H raw x ∧ isNodeId x.nodeId = true ∧ x.nodeId ∉ identifiers ∧
        roles.get x.roleId = some role ∧ node = nodeOf x role := by
  constructor
  · intro h
    unfold readNode at h
    split at h
    · rename_i d
      obtain ⟨hkeys, h⟩ := require_bind_eq_ok.mp h
      split at h
      · rename_i items hitems
        obtain ⟨hid, h⟩ := require_bind_eq_ok.mp h
        obtain ⟨hnew, h⟩ := require_bind_eq_ok.mp h
        obtain ⟨role, hrole, h⟩ := orFail_bind_eq_ok.mp h
        exact ⟨_, role, ⟨d, items, rfl, hkeys, hitems, rfl⟩, hid, hnew, hrole,
          (pure_eq_ok.mp h).symm⟩
      · cases h
    · cases h
  · rintro ⟨x, role, ⟨d, items, rfl, hkeys, hitems, rfl⟩, hid, hnew, hrole, rfl⟩
    simp only [readNode, hitems]
    rw [require_of hkeys, require_of hid, require_of hnew, hrole]
    rfl

/-- What a run of the loop over the nodes has checked. -/
structure Checked (roles : RoleRegistry) (identifiers : List String) (xs : List NodeDefinition) :
    Prop where
  nodup : (xs.map NodeDefinition.nodeId).Nodup
  fresh : ∀ x ∈ xs, x.nodeId ∉ identifiers
  nodeIds : ∀ x ∈ xs, isNodeId x.nodeId = true
  roles : ∀ x ∈ xs, ∃ role ∈ roles.roles, role.roleId = x.roleId

theorem Checked.cons {identifiers : List String} {x : NodeDefinition} {xs : List NodeDefinition}
    (hid : isNodeId x.nodeId = true) (hnew : x.nodeId ∉ identifiers)
    (hrole : ∃ role ∈ roles.roles, role.roleId = x.roleId)
    (h : Checked roles (identifiers ++ [x.nodeId]) xs) : Checked roles identifiers (x :: xs) where
  nodup := by
    rw [List.map_cons, List.nodup_cons]
    refine ⟨fun hmem => ?_, h.nodup⟩
    obtain ⟨y, hy, heq⟩ := List.mem_map.mp hmem
    apply h.fresh y hy
    simp [heq]
  fresh := by
    intro y hy
    rcases List.mem_cons.mp hy with rfl | hy
    · exact hnew
    · exact fun hmem => h.fresh y hy (List.mem_append_left _ hmem)
  nodeIds := List.forall_mem_cons.mpr ⟨hid, h.nodeIds⟩
  roles := List.forall_mem_cons.mpr ⟨hrole, h.roles⟩

theorem Checked.tail {identifiers : List String} {x : NodeDefinition} {xs : List NodeDefinition}
    (h : Checked roles identifiers (x :: xs)) : Checked roles (identifiers ++ [x.nodeId]) xs where
  nodup := (List.nodup_cons.mp h.nodup).2
  fresh := by
    intro y hy hmem
    rcases List.mem_append.mp hmem with hold | hx
    · exact h.fresh y (List.mem_cons_of_mem x hy) hold
    · apply (List.nodup_cons.mp h.nodup).1
      rw [← List.mem_singleton.mp hx]
      exact List.mem_map_of_mem hy
  nodeIds := fun y hy => h.nodeIds y (List.mem_cons_of_mem x hy)
  roles := fun y hy => h.roles y (List.mem_cons_of_mem x hy)

/-- A node has the identifier and the dependencies of its definition. -/
def Realizes (x : NodeDefinition) (node : WorkflowNodeDefinition) : Prop :=
  node.nodeId = x.nodeId ∧ node.dependsOn = x.dependsOn

theorem readNodes_spec {identifiers : List String} {raws : List Value}
    {nodes : List WorkflowNodeDefinition} (h : readNodes H roles identifiers raws = .ok nodes) :
    ∃ xs, List.Forall₂ (ReadsNode H) raws xs ∧ Checked roles identifiers xs ∧
      List.Forall₂ Realizes xs nodes := by
  induction raws generalizing identifiers nodes with
  | nil =>
    obtain rfl := Except.ok.inj h
    exact ⟨[], .nil, ⟨List.nodup_nil, by simp, by simp, by simp⟩, .nil⟩
  | cons raw raws ih =>
    obtain ⟨node, hnode, h⟩ := bind_eq_ok.mp h
    obtain ⟨rest, hrest, h⟩ := bind_eq_ok.mp h
    obtain rfl := pure_eq_ok.mp h
    obtain ⟨x, role, hreads, hid, hnew, hrole, rfl⟩ := readNode_eq_ok.mp hnode
    obtain ⟨xs, hxs, hchecked, hrealizes⟩ := ih hrest
    exact ⟨x :: xs, .cons hreads hxs, .cons hid hnew ⟨role, get_eq_some hrole⟩ hchecked,
      .cons ⟨rfl, rfl⟩ hrealizes⟩

theorem exists_readNodes {identifiers : List String} {raws : List Value} {xs : List NodeDefinition}
    (hreads : List.Forall₂ (ReadsNode H) raws xs) (h : Checked roles identifiers xs) :
    ∃ nodes, readNodes H roles identifiers raws = .ok nodes ∧ List.Forall₂ Realizes xs nodes := by
  induction hreads generalizing identifiers with
  | nil => exact ⟨[], rfl, .nil⟩
  | @cons raw x raws xs hraw _ ih =>
    obtain ⟨role, hrole⟩ := exists_get (h.roles x List.mem_cons_self)
    have hnode : readNode H roles identifiers raw = .ok (nodeOf x role) :=
      readNode_eq_ok.mpr ⟨x, role, hraw, h.nodeIds x List.mem_cons_self,
        h.fresh x List.mem_cons_self, hrole, rfl⟩
    obtain ⟨nodes, hnodes, hrealizes⟩ := ih h.tail
    refine ⟨nodeOf x role :: nodes, ?_, .cons ⟨rfl, rfl⟩ hrealizes⟩
    unfold readNodes
    exact bind_eq_ok.mpr ⟨_, hnode, bind_eq_ok.mpr ⟨_, hnodes, rfl⟩⟩

theorem Realizes.map {β : Type} {xs : List NodeDefinition} {nodes : List WorkflowNodeDefinition}
    (h : List.Forall₂ Realizes xs nodes) (f : String → List String → β) :
    nodes.map (fun node => f node.nodeId node.dependsOn) =
      xs.map fun x => f x.nodeId x.dependsOn := by
  induction h with
  | nil => rfl
  | cons hxy _ ih => rw [List.map_cons, List.map_cons, ih, hxy.1, hxy.2]

theorem Realizes.forall_iff {xs : List NodeDefinition} {nodes : List WorkflowNodeDefinition}
    (h : List.Forall₂ Realizes xs nodes) (P : String → List String → Prop) :
    (∀ node ∈ nodes, P node.nodeId node.dependsOn) ↔ ∀ x ∈ xs, P x.nodeId x.dependsOn := by
  induction h with
  | nil => simp
  | cons hxy _ ih => rw [List.forall_mem_cons, List.forall_mem_cons, ih, hxy.1, hxy.2]

theorem checkDependencies_eq_ok {identifiers : List String} {node : WorkflowNodeDefinition} :
    checkDependencies identifiers node = .ok () ↔
      node.nodeId ∉ node.dependsOn ∧ node.dependsOn.Nodup ∧
        ∀ dependency ∈ node.dependsOn, dependency ∈ identifiers := by
  unfold checkDependencies
  rw [require_bind_eq_ok, require_eq_ok, not_or, not_not, and_assoc]

/-! ### Layers -/

variable {x : WorkflowDefinition} {nodes : List WorkflowNodeDefinition}

theorem remaining_eq (h : List.Forall₂ Realizes x.nodes nodes) : remaining nodes = x.graph :=
  Realizes.map h Prod.mk

theorem nodeIds_eq (h : List.Forall₂ Realizes x.nodes nodes) :
    nodes.map WorkflowNodeDefinition.nodeId = x.identifiers :=
  Realizes.map h fun nodeId _ => nodeId

theorem graph_nodes : Layering.nodes x.graph = x.identifiers := by
  unfold Layering.nodes WorkflowDefinition.graph WorkflowDefinition.identifiers
  rw [List.map_map]
  rfl

theorem graph_wellFormed (hnodup : x.identifiers.Nodup)
    (hknown : ∀ node ∈ x.nodes, ∀ dependency ∈ node.dependsOn, dependency ∈ x.identifiers) :
    Layering.WellFormed x.graph where
  nodup := by
    rw [graph_nodes]
    exact hnodup
  closed := by
    rintro a b ⟨targets, hmem, hb⟩
    obtain ⟨node, hnode, heq⟩ := List.mem_map.mp hmem
    obtain ⟨rfl, rfl⟩ := Prod.mk.inj heq
    rw [graph_nodes]
    exact hknown node hnode b hb

theorem length_remaining (nodes : List WorkflowNodeDefinition) :
    (remaining nodes).length = nodes.length := List.length_map ..

theorem layersOf_eq_ok {layers : List (List String)} :
    layersOf nodes = .ok layers ↔
      peel (Paging.ordered (orderHint nodes)) nodes.length (remaining nodes) = .ok layers := by
  unfold layersOf
  split <;> simp_all

theorem layersOf_ne_unfinished (nodes : List WorkflowNodeDefinition) :
    layersOf nodes ≠ .error .unfinished := by
  have hfinishes := Layering.peel_finishes (g := remaining nodes)
    (Paging.ordered_perm (orderHint nodes)) (length_remaining nodes).le
  unfold layersOf
  split
  · simp
  · simp [cycleError]
  · rename_i h
    exact absurd h hfinishes

/-- Every node of a layer is found under its identifier. -/
theorem map_find {order : List String}
    (horder : ∀ nodeId ∈ order, nodeId ∈ nodes.map WorkflowNodeDefinition.nodeId) :
    (order.filterMap fun nodeId => nodes.find? (·.nodeId = nodeId)).map
      WorkflowNodeDefinition.nodeId = order := by
  induction order with
  | nil => rfl
  | cons nodeId order ih =>
    obtain ⟨node, hnode, hid⟩ := List.mem_map.mp (horder nodeId List.mem_cons_self)
    have hfind : ∃ found, nodes.find? (·.nodeId = nodeId) = some found := by
      apply Option.isSome_iff_exists.mp
      rw [List.find?_isSome]
      exact ⟨node, hnode, decide_eq_true hid⟩
    obtain ⟨found, hfound⟩ := hfind
    have hfoundId : found.nodeId = nodeId := by simpa using List.find?_some hfound
    rw [List.filterMap_cons_some (by exact hfound), List.map_cons, hfoundId,
      ih fun id hmem => horder id (List.mem_cons_of_mem nodeId hmem)]

end Passes

/-! ## The whole compilation -/

section Compile

variable {H : Host} {roles : RoleRegistry} {limits : WorkflowLimits} {value : Value}
  {s : Sections} {x : WorkflowDefinition}

theorem compileWorkflow_eq_ok {w : CompiledWorkflow} :
    compileWorkflow H roles limits value = .ok w ↔ ∃ s budget attempts nodes layers,
      Shape value s ∧ budgetOf H limits s = .ok (budget, attempts) ∧
      readNodes H roles [] s.rawNodes = .ok nodes ∧
      (∀ node ∈ nodes,
        checkDependencies (nodes.map WorkflowNodeDefinition.nodeId) node = .ok ()) ∧
      layersOf nodes = .ok layers ∧ w = assemble H s budget attempts nodes layers := by
  unfold compileWorkflow
  constructor
  · intro h
    obtain ⟨s, hshape, h⟩ := bind_eq_ok.mp h
    obtain ⟨⟨budget, attempts⟩, hbudget, h⟩ := bind_eq_ok.mp h
    obtain ⟨nodes, hnodes, h⟩ := bind_eq_ok.mp h
    obtain ⟨⟨⟩, hchecks, h⟩ := bind_eq_ok.mp h
    obtain ⟨layers, hlayers, h⟩ := bind_eq_ok.mp h
    exact ⟨s, budget, attempts, nodes, layers, sections_eq_ok.mp hshape, hbudget, hnodes,
      forM_eq_ok.mp hchecks, hlayers, (pure_eq_ok.mp h).symm⟩
  · rintro ⟨s, budget, attempts, nodes, layers, hshape, hbudget, hnodes, hchecks, hlayers, rfl⟩
    exact bind_eq_ok.mpr ⟨s, sections_eq_ok.mpr hshape, bind_eq_ok.mpr ⟨_, hbudget,
      bind_eq_ok.mpr ⟨_, hnodes, bind_eq_ok.mpr ⟨(), forM_eq_ok.mpr hchecks,
        bind_eq_ok.mpr ⟨_, hlayers, rfl⟩⟩⟩⟩⟩

/-- The second pass over the nodes, said of their definitions. -/
theorem checks_iff {nodes : List WorkflowNodeDefinition}
    (h : List.Forall₂ Realizes x.nodes nodes) :
    (∀ node ∈ nodes,
        checkDependencies (nodes.map WorkflowNodeDefinition.nodeId) node = .ok ()) ↔
      ∀ node ∈ x.nodes, node.nodeId ∉ node.dependsOn ∧ node.dependsOn.Nodup ∧
        ∀ dependency ∈ node.dependsOn, dependency ∈ x.identifiers := by
  simp only [checkDependencies_eq_ok, nodeIds_eq h]
  exact Realizes.forall_iff h fun nodeId dependsOn => nodeId ∉ dependsOn ∧ dependsOn.Nodup ∧
    ∀ dependency ∈ dependsOn, dependency ∈ x.identifiers

theorem layersOf_iff {nodes : List WorkflowNodeDefinition}
    (h : List.Forall₂ Realizes x.nodes nodes) (hg : Layering.WellFormed x.graph) :
    (∃ layers, layersOf nodes = .ok layers) ↔ Layering.Acyclic x.graph := by
  simp only [layersOf_eq_ok]
  rw [remaining_eq h]
  apply Layering.peel_ok_iff (Paging.ordered_perm _) hg
  rw [← remaining_eq h, length_remaining]

theorem arranged_of_layers {nodes : List WorkflowNodeDefinition} {layers : List (List String)}
    {budget : WorkflowBudget} {attempts : ℤ} (h : List.Forall₂ Realizes x.nodes nodes)
    (hg : Layering.WellFormed x.graph) (hlayers : layersOf nodes = .ok layers) :
    Arranged x (assemble H s budget attempts nodes layers) := by
  rw [layersOf_eq_ok, remaining_eq h] at hlayers
  have hlayered := Layering.layered_of_peel (Paging.ordered_perm _) hg hlayers
  have hperm : layers.flatten.Perm x.identifiers := by
    rw [← graph_nodes]
    exact hlayered.perm
  refine ⟨rfl, ?_, hperm, hlayered.nonempty, ?_, fun nodeId i => hlayered.mem_iff i⟩
  · apply map_find
    intro nodeId hmem
    rw [nodeIds_eq h]
    exact hperm.mem_iff.mp hmem
  · intro before nodeId after hsplit dependency hwaits
    exact hlayered.behind hsplit dependency hwaits

/-- What a compilation that goes through has read is a sound definition that fits. -/
theorem sound_of_ok {w : CompiledWorkflow} (hnumber : TimeoutIsNumber H value)
    (h : compileWorkflow H roles limits value = .ok w) :
    ∃ s x, Denotes H value s x ∧ Sound roles limits x ∧ Fits x ∧ Arranged x w := by
  obtain ⟨s, budget, attempts, nodes, layers, hshape, hbudget, hnodes, hchecks, hlayers, rfl⟩ :=
    compileWorkflow_eq_ok.mp h
  obtain ⟨xs, hreads, hchecked, hrealizes⟩ := readNodes_spec hnodes
  obtain ⟨⟨ha, hb, hc, hd, ht⟩, hlength, hmax, hconcurrency, hfew, hcalls, hinside, hattempts⟩ :=
    budgetOf_eq_ok.mp hbudget
  obtain ⟨ha, hapos⟩ := positiveInt_eq_ok.mp ha
  obtain ⟨hb, hbpos⟩ := positiveInt_eq_ok.mp hb
  obtain ⟨hc, hcpos⟩ := positiveInt_eq_ok.mp hc
  obtain ⟨hd, hdpos⟩ := positiveInt_eq_ok.mp hd
  obtain ⟨hbool, hnan⟩ := hnumber s hshape
  have htimeout : ∃ q, budget.timeoutSeconds = .finite q ∧ 0 < q ∧ q ≤ limits.maxTimeoutSeconds := by
    rcases outside_eq_false.mp hinside with heq | hq
    · rw [heq] at ht
      exact absurd ht hnan
    · exact hq
  obtain ⟨q, hq, hqpos, hqle⟩ := htimeout
  rw [hq, parseFloat_eq_ok hbool] at ht
  have hcount : s.rawNodes.length = xs.length := hreads.length_eq
  rw [hcount] at hlength hfew
  let x : WorkflowDefinition :=
    ⟨xs, budget.maxNodes, budget.maxConcurrency, budget.maxToolCalls, q, attempts⟩
  have hdependencies := (checks_iff (x := x) hrealizes).mp hchecks
  have hg : Layering.WellFormed x.graph :=
    graph_wellFormed hchecked.nodup fun node hnode => (hdependencies node hnode).2.2
  refine ⟨s, x, ⟨hshape, hreads, ha, hb, hc, ht, hd⟩, ?_, ⟨hlength, hfew⟩,
    arranged_of_layers hrealizes hg hlayers⟩
  exact {
    identifiers := hchecked.nodup
    nodeIds := hchecked.nodeIds
    roles := hchecked.roles
    known := fun node hnode => (hdependencies node hnode).2.2
    other := fun node hnode => (hdependencies node hnode).1
    once := fun node hnode => (hdependencies node hnode).2.1
    acyclic := (layersOf_iff hrealizes hg).mp ⟨layers, hlayers⟩
    maxNodes := ⟨hapos, hmax⟩
    maxConcurrency := ⟨hbpos, hconcurrency⟩
    maxToolCalls := ⟨hcpos, hcalls⟩
    timeoutSeconds := ⟨hqpos, hqle⟩
    maxAttempts := ⟨hdpos, hattempts⟩ }

theorem ok_of_sound (hnumber : TimeoutIsNumber H value) (hdenotes : Denotes H value s x)
    (hsound : Sound roles limits x) (hfits : Fits x) :
    ∃ w, compileWorkflow H roles limits value = .ok w := by
  have hcount : s.rawNodes.length = x.nodes.length := hdenotes.nodes.length_eq
  obtain ⟨hbool, -⟩ := hnumber s hdenotes.shape
  have hchecked : Checked roles [] x.nodes :=
    ⟨hsound.identifiers, fun _ _ => List.not_mem_nil, hsound.nodeIds, hsound.roles⟩
  obtain ⟨nodes, hnodes, hrealizes⟩ := exists_readNodes hdenotes.nodes hchecked
  have hbudget : budgetOf H limits s = .ok
      (⟨x.maxNodes, x.maxConcurrency, x.maxToolCalls, .finite x.timeoutSeconds⟩, x.maxAttempts) := by
    refine budgetOf_eq_ok.mpr ⟨⟨?_, ?_, ?_, ?_, ?_⟩, ?_, hsound.maxNodes.2,
      hsound.maxConcurrency.2, ?_, hsound.maxToolCalls.2, ?_, hsound.maxAttempts.2⟩
    · exact positiveInt_eq_ok.mpr ⟨hdenotes.maxNodes, hsound.maxNodes.1⟩
    · exact positiveInt_eq_ok.mpr ⟨hdenotes.maxConcurrency, hsound.maxConcurrency.1⟩
    · exact positiveInt_eq_ok.mpr ⟨hdenotes.maxToolCalls, hsound.maxToolCalls.1⟩
    · exact positiveInt_eq_ok.mpr ⟨hdenotes.maxAttempts, hsound.maxAttempts.1⟩
    · exact (parseFloat_eq_ok hbool).mpr hdenotes.timeoutSeconds
    · rw [hcount]
      exact hfits.1
    · rw [hcount]
      exact hfits.2
    · exact outside_eq_false.mpr (.inr ⟨_, rfl, hsound.timeoutSeconds⟩)
  have hg : Layering.WellFormed x.graph := graph_wellFormed hsound.identifiers hsound.known
  have hchecks := (checks_iff hrealizes).mpr fun node hnode =>
    ⟨hsound.other node hnode, hsound.once node hnode, hsound.known node hnode⟩
  obtain ⟨layers, hlayers⟩ := (layersOf_iff hrealizes hg).mpr hsound.acyclic
  exact ⟨_, compileWorkflow_eq_ok.mpr
    ⟨s, _, _, nodes, layers, hdenotes.shape, hbudget, hnodes, hchecks, hlayers, rfl⟩⟩

/-! ### The loop ends -/

section Ends

def Ended (e : Exn) : Prop := e ≠ .unfinished

theorem ended_agentic (message code : String) : Ended (.agentic message code) := by
  intro h
  cases h

theorem ends_positiveInt (v : Value) : Raises Ended (positiveInt H v) := by
  have hinvalid : Ended budgetInvalid := ended_agentic _ _
  have hint : Raises Ended (parseInt H v) := by
    unfold parseInt
    split
    · exact .pure _
    · exact .pure _
    · exact .pure _
    · apply Raises.error
      intro h
      cases h
    · exact .orFail hinvalid
    · exact .error hinvalid
  unfold positiveInt
  split
  · exact .error hinvalid
  · exact hint.bind fun _ _ => (Raises.require hinvalid).bind fun _ _ => .pure _

theorem ends_parseFloat (v : Value) : Raises Ended (parseFloat H v) := by
  have hinvalid : Ended budgetInvalid := ended_agentic _ _
  cases v with
  | bool b => exact .pure _
  | int n =>
    rw [parseFloat_int]
    split
    · apply Raises.error
      intro h
      cases h
    · exact .pure _
  | float y => exact .pure _
  | str t => exact .orFail hinvalid
  | null => exact .error hinvalid
  | list items => exact .error hinvalid
  | dict entries => exact .error hinvalid

theorem ends_sections : Raises Ended (sections value) := by
  have hinvalid : Ended (schemaInvalid "工作流结构无效") := ended_agentic _ _
  unfold sections
  split
  · refine (Raises.require hinvalid).bind fun _ _ => ?_
    split
    · refine (Raises.require hinvalid).bind fun _ _ => ?_
      exact (Raises.require hinvalid).bind fun _ _ => .pure _
    · exact .error hinvalid
  · exact .error hinvalid

theorem ends_budgetOf : Raises Ended (budgetOf H limits s) := by
  unfold budgetOf
  refine (ends_positiveInt _).bind fun _ _ => ?_
  refine (ends_positiveInt _).bind fun _ _ => ?_
  refine (ends_positiveInt _).bind fun _ _ => ?_
  refine (ends_positiveInt _).bind fun _ _ => ?_
  refine (ends_parseFloat _).bind fun _ _ => ?_
  exact (Raises.require (ended_agentic _ _)).bind fun _ _ => .pure _

theorem ends_readNode (identifiers : List String) (raw : Value) :
    Raises Ended (readNode H roles identifiers raw) := by
  have hinvalid : Ended (schemaInvalid "工作流节点结构无效") := ended_agentic _ _
  unfold readNode
  split
  · refine (Raises.require hinvalid).bind fun _ _ => ?_
    split
    · refine (Raises.require (ended_agentic _ _)).bind fun _ _ => ?_
      refine (Raises.require (ended_agentic _ _)).bind fun _ _ => ?_
      exact (Raises.orFail (ended_agentic _ _)).bind fun _ _ => .pure _
    · exact .error hinvalid
  · exact .error hinvalid

theorem ends_readNodes (identifiers : List String) (raws : List Value) :
    Raises Ended (readNodes H roles identifiers raws) := by
  induction raws generalizing identifiers with
  | nil => exact .pure _
  | cons raw raws ih =>
    refine (ends_readNode identifiers raw).bind fun _ _ => ?_
    exact (ih _).bind fun _ _ => .pure _

theorem ends_compileWorkflow : Raises Ended (compileWorkflow H roles limits value) := by
  unfold compileWorkflow
  refine ends_sections.bind fun s _ => ?_
  refine ends_budgetOf.bind fun _ _ => ?_
  refine (ends_readNodes _ _).bind fun nodes _ => ?_
  refine (Raises.forM fun node _ => ?_).bind fun _ _ => ?_
  · exact (Raises.require (ended_agentic _ _)).bind fun _ _ => .require (ended_agentic _ _)
  · refine Raises.bind (fun e he => ?_) fun _ _ => .pure _
    rintro rfl
    exact layersOf_ne_unfinished nodes he

end Ends

/-- A definition whose timeout is a number is compiled just where it is sound and fits its
budget; the outcome is arranged in layers, and the loop over them always ends. -/
theorem compiles_iff_sound (H : Host) (roles : RoleRegistry) (limits : WorkflowLimits)
    (value : Value) (hnumber : TimeoutIsNumber H value) :
    ((∃ w, compileWorkflow H roles limits value = .ok w) ↔
      ∃ s x, Denotes H value s x ∧ Sound roles limits x ∧ Fits x) ∧
    (∀ w, compileWorkflow H roles limits value = .ok w →
      ∃ s x, Denotes H value s x ∧ Arranged x w) ∧
    compileWorkflow H roles limits value ≠ .error .unfinished := by
  refine ⟨⟨?_, ?_⟩, ?_, ?_⟩
  · rintro ⟨w, hw⟩
    obtain ⟨s, x, hdenotes, hsound, hfits, -⟩ := sound_of_ok hnumber hw
    exact ⟨s, x, hdenotes, hsound, hfits⟩
  · rintro ⟨s, x, hdenotes, hsound, hfits⟩
    exact ok_of_sound hnumber hdenotes hsound hfits
  · intro w hw
    obtain ⟨s, x, hdenotes, -, -, harranged⟩ := sound_of_ok hnumber hw
    exact ⟨s, x, hdenotes, harranged⟩
  · intro h
    exact ends_compileWorkflow _ h rfl

end Compile

/-! ## Two definitions -/

/-- No text is a number, and a text is its own. -/
def plainHost : Host where
  int := fun _ => none
  float := fun _ => none
  text
    | .str s => s
    | _ => ""

def specialist : RoleRegistry := ⟨[⟨"evidence_specialist", [], 3, 4, 120⟩]⟩

def nodeNamed (nodeId : String) (dependsOn : List String) : Value :=
  .dict [("node_id", .str nodeId), ("role_id", .str "evidence_specialist"),
    ("depends_on", .list (dependsOn.map .str))]

def sectionsOf (concurrency : ℤ) (nodes : List Value) : Sections where
  definition := [("schema_version", .str "1.0"), ("name", .str "n"), ("description", .str "d"),
    ("nodes", .list nodes),
    ("budget", .dict [("max_nodes", .int 6), ("max_concurrency", .int concurrency),
      ("max_tool_calls", .int 18), ("timeout_seconds", .int 300)]),
    ("retry_policy", .dict [("max_attempts", .int 2)])]
  rawNodes := nodes
  rawBudget := [("max_nodes", .int 6), ("max_concurrency", .int concurrency),
    ("max_tool_calls", .int 18), ("timeout_seconds", .int 300)]
  retry := [("max_attempts", .int 2)]

def definitionOf (concurrency : ℤ) (nodes : List Value) : Value :=
  .dict (sectionsOf concurrency nodes).definition

theorem shape_definitionOf (concurrency : ℤ) {nodes : List Value} (hne : nodes ≠ []) :
    Shape (definitionOf concurrency nodes) (sectionsOf concurrency nodes) where
  document := rfl
  keys := by unfold sectionsOf HasKeys definitionKeys; simp
  nodes := rfl
  budget := rfl
  retry := rfl
  nonempty := hne
  budgetKeys := by unfold sectionsOf HasKeys budgetKeys; simp
  retryKeys := by unfold sectionsOf HasKeys retryKeys; simp

theorem timeoutIsNumber_definitionOf (concurrency : ℤ) {nodes : List Value} (hne : nodes ≠ []) :
    TimeoutIsNumber plainHost (definitionOf concurrency nodes) := by
  intro s hs
  obtain rfl := hs.unique (shape_definitionOf concurrency hne)
  have htimeout : member "timeout_seconds" (sectionsOf concurrency nodes).rawBudget = .int 300 := rfl
  rw [htimeout, parseFloat_int]
  constructor
  · intro b h
    cases h
  · split <;> simp

/-- Two nodes, the second behind the first. -/
theorem compiles_two_nodes :
    (∃ s x, Denotes plainHost
        (definitionOf 2 [nodeNamed "evidence" [], nodeNamed "feature" ["evidence"]]) s x ∧
      Sound specialist {} x ∧ Fits x) ∧
    ((compileWorkflow plainHost specialist {}
        (definitionOf 2 [nodeNamed "evidence" [], nodeNamed "feature" ["evidence"]])).toOption.map
      CompiledWorkflow.parallelLayers) = some [["evidence"], ["feature"]] := by
  have hlayers : ((compileWorkflow plainHost specialist {}
      (definitionOf 2 [nodeNamed "evidence" [], nodeNamed "feature" ["evidence"]])).toOption.map
      CompiledWorkflow.parallelLayers) = some [["evidence"], ["feature"]] := by decide +kernel
  obtain ⟨w, hw, -⟩ := Option.map_eq_some_iff.mp hlayers
  exact ⟨(compiles_iff_sound plainHost specialist {} _
    (timeoutIsNumber_definitionOf 2 (List.cons_ne_nil _ _))).1.mp ⟨w, eq_ok_of_toOption hw⟩, hlayers⟩

/-- A sound definition of one node that asks for two at a time is refused. -/
theorem wide_definition_refused :
    (∃ s x, Denotes plainHost (definitionOf 2 [nodeNamed "evidence" []]) s x ∧
      Sound specialist {} x) ∧
    compileWorkflow plainHost specialist {} (definitionOf 2 [nodeNamed "evidence" []]) =
      .error (.agentic "工作流预算超出平台限制" "workflow_budget_invalid") := by
  constructor
  · refine ⟨sectionsOf 2 [nodeNamed "evidence" []],
      ⟨[⟨"evidence", "evidence_specialist", []⟩], 6, 2, 18, 300, 2⟩, ?_, ?_⟩
    · refine ⟨shape_definitionOf 2 (List.cons_ne_nil _ _), .cons ?_ .nil, .int 6, .int 2, .int 18,
        .int ?_, .int 2⟩
      · exact ⟨_, [], rfl, by unfold HasKeys nodeKeys; simp, rfl, rfl⟩
      · unfold floatBound
        decide +kernel
    · have hgraph : ∀ a b, ¬ Layering.Waits [("evidence", ([] : List String))] a b := by
        rintro a b ⟨targets, hmem, hb⟩
        rw [List.mem_singleton] at hmem
        obtain ⟨rfl, rfl⟩ := Prod.mk.inj hmem
        cases hb
      refine ⟨by decide, by decide, by decide, by decide, by decide, by decide, ?_, by decide,
        by decide, by decide, by decide +kernel, by decide⟩
      intro a hcycle
      obtain ⟨b, hwaits, -⟩ := Relation.TransGen.head'_iff.mp hcycle
      exact hgraph a b hwaits
  · decide +kernel

end LogRisk.Agentic.Compiler
