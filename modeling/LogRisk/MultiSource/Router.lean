import LogRisk.Library.IsoTime
import LogRisk.Library.Text
import Mathlib.Data.List.Sort
import Mathlib.Data.Rat.Defs

/-!
# Routing of records to entities

The entities that a record names, under the names that the aliases give them, and the keys
of a template window: those of its route and those that it brings along.
-/

namespace LogRisk.MultiSource

open LogRisk.Library

/-- Case folding, digests and times. -/
structure Host where
  casefold : String → String
  casefold_empty : casefold "" = ""
  casefold_default : casefold "default" = "default"
  /-- The digest that identities are named by, without collisions. -/
  digest : String → String
  digest_injective : Function.Injective digest
  fromIso : String → Option IsoTime
  isoformat : IsoTime → String

theorem id_empty : id "" = "" := rfl

theorem id_default : id "default" = "default" := rfl

/-- For every type of entity, names with the names they stand for. -/
abbrev Aliases : Type := String → List (String × String)

structure Relation where
  fromKey : String
  relation : String
  toKey : String
deriving DecidableEq

/-- A template of a risk entity; a member that is null is an empty text. -/
structure Template where
  members : String → Option String
  count : Option ℤ := none
  entityKeys : List String := []
  entityRelations : List Relation := []

/-- `template.get(name) or ""`. -/
def Template.get (template : Template) (name : String) : String := (template.members name).getD ""

/-- `template.setdefault(name, value)`. -/
def Template.setDefault (template : Template) (name value : String) : Template :=
  { template with members := fun name' =>
      if name' = name then some ((template.members name).getD value) else template.members name' }

/-- `a or b` of texts. -/
def orElse (a b : String) : String := if a.isEmpty then b else a

section Routing

variable (host : Host) (aliases : Aliases)

def clean (value : String) : Option String :=
  let text := host.casefold (Text.strip value)
  if text.isEmpty then none else some text

/-- The value of a dictionary that the pairs make up. -/
def lookupLast (pairs : List (Option String × Option String)) (key : String) : Option String :=
  (pairs.reverse.find? fun pair => decide (pair.1 = some key)).bind (·.2)

/-- The name of an entity in a record, under its alias. -/
def rawName (record : Template) (entityType : String) : Option String :=
  (clean host (record.get entityType)).map fun value =>
    (lookupLast ((aliases entityType).map fun pair => (clean host pair.1, clean host pair.2))
      value).getD value

def entityOrder : List String := ["node", "namespace", "pod", "container", "device"]

/-- A pod is named within its namespace. -/
def identifier (record : Template) (entityType : String) : Option String :=
  (rawName host aliases record entityType).map fun value =>
    match rawName host aliases record "namespace" with
    | some space => if entityType = "pod" then space ++ "/" ++ value else value
    | none => value

def clusterOf (record : Template) : String := (clean host (record.get "cluster")).getD "default"

def entityKey (cluster entityType entityId : String) : String :=
  cluster ++ "/" ++ entityType ++ "/" ++ entityId

structure Route where
  cluster : String
  entityKeys : List String
  relations : List Relation

def relationKinds : List (String × String × String) :=
  [("container", "belongs_to", "pod"), ("pod", "belongs_to", "namespace"), ("pod", "runs_on", "node"),
    ("device", "attached_to", "node")]

/-- The key of an entity that the record names. -/
def keyOf (record : Template) (entityType : String) : Option String :=
  (identifier host aliases record entityType).map fun id =>
    entityKey (clusterOf host record) entityType id

def namedKeys (record : Template) : List String :=
  entityOrder.filterMap (keyOf host aliases record)

def namedRelations (record : Template) : List Relation :=
  relationKinds.filterMap fun kind =>
    match keyOf host aliases record kind.1, keyOf host aliases record kind.2.2 with
    | some source, some target => some ⟨source, kind.2.1, target⟩
    | _, _ => none

/-- Nothing where the record names no entity. -/
def routeEntities (record : Template) : Option Route :=
  if (namedKeys host aliases record).isEmpty then none
  else some {
    cluster := clusterOf host record
    entityKeys := namedKeys host aliases record
    relations := namedRelations host aliases record }

/-- `key.split("/", 2)`, where there are three parts. -/
def splitKey (key : String) : Option (String × String × String) :=
  let (cluster, rest) := key.toList.span (· ≠ '/')
  let (entityType, rest') := (rest.drop 1).span (· ≠ '/')
  if rest.isEmpty ∨ rest'.isEmpty then none
  else some (String.ofList cluster, String.ofList entityType, String.ofList (rest'.drop 1))

def canonicalKey (key : String) : Option String :=
  (splitKey key).map fun parts =>
    let folded := host.casefold parts.2.2
    let pairs := (aliases parts.2.1).map fun pair =>
      (some (host.casefold (Text.strip pair.1)), some (host.casefold (Text.strip pair.2)))
    entityKey (host.casefold parts.1) parts.2.1 ((lookupLast pairs folded).getD folded)

def Relation.isFull (relation : Relation) : Bool :=
  !relation.fromKey.isEmpty && !relation.relation.isEmpty && !relation.toKey.isEmpty

def Template.existingKeys (template : Template) : List String :=
  template.entityKeys.filter fun key => !key.isEmpty

/-- A key that the template brings along, in its canonical form. -/
def canonicalIn (template : Template) (key : String) : String :=
  if key ∈ template.existingKeys then (canonicalKey host aliases key).getD key else key

/-- The relations of the route and of the template, each of them once. -/
def mergedRelations (template : Template) (relations : List Relation) : List Relation :=
  let renamed := (relations ++ template.entityRelations).map fun relation =>
    { relation with
      fromKey := canonicalIn host aliases template relation.fromKey
      toKey := canonicalIn host aliases template relation.toKey }
  (renamed.filter Relation.isFull).reverse.dedup.reverse

/-- `_window_route`: also the keys and relations that the template brings along. -/
def windowRoute (template : Template) : Option Route :=
  (routeEntities host aliases template).map fun route =>
    if template.existingKeys.isEmpty then route
    else { route with
      entityKeys := (route.entityKeys ++
        template.existingKeys.filterMap (canonicalKey host aliases)).dedup.insertionSort (· ≤ ·)
      relations := mergedRelations host aliases template route.relations }

end Routing

end LogRisk.MultiSource
