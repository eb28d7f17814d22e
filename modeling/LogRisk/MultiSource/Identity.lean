import LogRisk.MultiSource.Observations

/-!
# The names of observations

An observation is named by the members of its template, joined by a bar, while its window
may be the one of its entity: windows without times of their own are told apart by nothing,
and a bar within a member may stand for the one between two.  Where neither happens, windows
that differ are stored under different names.
-/

namespace LogRisk.MultiSource

open LogRisk.Library

variable (host : Host) (aliases : Aliases)

/-- A call of `ingest_risk_entities`. -/
structure Ingestion where
  sourceJobId : String
  entities : List RiskEntity

/-- What tells observations apart. -/
structure Facts where
  sourceJobId : String
  cluster : String
  windowStart : String
  windowEnd : String
  templateHash : String
  entityKeys : List String
deriving DecidableEq

def Window.facts (w : Window) : Facts where
  sourceJobId := w.sourceJobId
  cluster := w.route.cluster
  windowStart := w.windowStart
  windowEnd := w.windowEnd
  templateHash := w.template.get "template_hash"
  entityKeys := w.route.entityKeys.insertionSort (· ≤ ·)

def Observation.facts (row : Observation) : Facts where
  sourceJobId := row.sourceJobId
  cluster := row.cluster
  windowStart := row.windowStart
  windowEnd := row.windowEnd
  templateHash := row.templateHash
  entityKeys := row.entityKeys.insertionSort (· ≤ ·)

/-- The template windows that calls have ingested. -/
def allWindows (calls : List Ingestion) : List (RiskEntity × Window) :=
  calls.flatMap fun call => windows host aliases call.sourceJobId call.entities

/-- The table after calls. -/
def table (calls : List Ingestion) : Observations :=
  calls.foldl (fun t call => save t (ingested host aliases call.sourceJobId call.entities)) ∅

/-- Windows are neither merged nor changed by being ingested again. -/
structure Distinguished (calls : List Ingestion) : Prop where
  stored : ∀ w ∈ allWindows host aliases calls, ∃ row,
    (table host aliases calls).get? (w.2.id host) = some row ∧ row.facts = w.2.facts
  apart : ∀ w ∈ allWindows host aliases calls, ∀ w' ∈ allWindows host aliases calls,
    w.2.facts ≠ w'.2.facts → w.2.id host ≠ w'.2.id host
  again : ∀ call, (table host aliases (calls ++ [call, call])).entries =
    (table host aliases (calls ++ [call])).entries

/-- The members of a window that its name is made of. -/
def Window.parts (w : Window) : List String :=
  identityParts w.sourceJobId w.template w.route.entityKeys

/-- No member holds the bar that members are joined by, and windows with the same members fall
back to the same times. -/
structure Unambiguous (calls : List Ingestion) : Prop where
  separated : ∀ w ∈ allWindows host aliases calls, ∀ part ∈ w.2.parts, '|' ∉ part.toList
  fallback : ∀ w ∈ allWindows host aliases calls, ∀ w' ∈ allWindows host aliases calls,
    w.2.parts = w'.2.parts → w.2.windowStart = w'.2.windowStart ∧ w.2.windowEnd = w'.2.windowEnd

variable {host} {aliases} {calls : List Ingestion}

/-! ## Names and facts -/

theorem windowRoute_cluster {template : Template} {route : Route}
    (h : windowRoute host aliases template = some route) :
    route.cluster = clusterOf host template := by
  obtain ⟨found, hfound, rfl⟩ := Option.map_eq_some_iff.mp h
  have hcluster : found.cluster = clusterOf host template := by
    unfold routeEntities at hfound
    split at hfound
    · cases hfound
    · rw [← Option.some.inj hfound]
  split
  · exact hcluster
  · exact hcluster

theorem windowOf_some {sourceJobId : String} {entity : RiskEntity} {source : Template} {w : Window}
    (h : windowOf host aliases sourceJobId entity source = some w) :
    w.sourceJobId = sourceJobId ∧ w.template = inherited entity source ∧
      windowRoute host aliases w.template = some w.route ∧ parseTime host w.windowStart = some w.start := by
  unfold windowOf at h
  obtain ⟨route, hroute, h⟩ := Option.bind_eq_some_iff.mp h
  obtain ⟨_, _, h⟩ := Option.bind_eq_some_iff.mp h
  obtain ⟨start, hstart, h⟩ := Option.bind_eq_some_iff.mp h
  obtain ⟨_, _, h⟩ := Option.bind_eq_some_iff.mp h
  obtain rfl := Option.some.inj h
  exact ⟨rfl, rfl, hroute, hstart⟩

/-- The cluster is what its text in the name makes it. -/
theorem clusterOf_orElse (template : Template) :
    clusterOf host template = (clean host (orElse (template.get "cluster") "default")).getD "default" := by
  unfold clusterOf orElse
  split
  · rename_i hempty
    rw [String.isEmpty_iff.mp hempty]
    unfold clean
    rw [show Text.strip "default" = "default" by decide +kernel, host.casefold_default,
      show Text.strip "" = "" by decide +kernel, host.casefold_empty]
    rfl
  · rfl

theorem exists_of_mem_allWindows {w : RiskEntity × Window} (h : w ∈ allWindows host aliases calls) :
    ∃ call ∈ calls, ∃ source, windowOf host aliases call.sourceJobId w.1 source = some w.2 := by
  obtain ⟨call, hcall, hw⟩ := List.mem_flatMap.mp h
  obtain ⟨entity, _, hw⟩ := List.mem_flatMap.mp hw
  obtain ⟨window, hwindow, rfl⟩ := List.mem_map.mp hw
  obtain ⟨source, _, hsource⟩ := List.mem_filterMap.mp hwindow
  exact ⟨call, hcall, source, hsource⟩

/-- Windows with the same members and times have the same facts. -/
theorem facts_of_parts {w w' : RiskEntity × Window} (hw : w ∈ allWindows host aliases calls)
    (hw' : w' ∈ allWindows host aliases calls) (hparts : w.2.parts = w'.2.parts)
    (hstart : w.2.windowStart = w'.2.windowStart) (hend : w.2.windowEnd = w'.2.windowEnd) :
    w.2.facts = w'.2.facts := by
  obtain ⟨_, _, _, hsource⟩ := exists_of_mem_allWindows hw
  obtain ⟨_, _, _, hsource'⟩ := exists_of_mem_allWindows hw'
  obtain ⟨_, _, hroute, _⟩ := windowOf_some hsource
  obtain ⟨_, _, hroute', _⟩ := windowOf_some hsource'
  obtain ⟨hjob, hparts⟩ := List.cons.inj hparts
  obtain ⟨hcluster, hparts⟩ := List.cons.inj hparts
  obtain ⟨_, hparts⟩ := List.cons.inj hparts
  obtain ⟨_, hparts⟩ := List.cons.inj hparts
  obtain ⟨hhash, hkeys⟩ := List.cons.inj hparts
  have hclusters : w.2.route.cluster = w'.2.route.cluster := by
    rw [windowRoute_cluster hroute, windowRoute_cluster hroute', clusterOf_orElse, clusterOf_orElse,
      hcluster]
  exact Facts.mk.injEq .. |>.mpr ⟨hjob, hclusters, hstart, hend, hhash, hkeys⟩

theorem parts_of_id (h : Unambiguous host aliases calls) {w w' : RiskEntity × Window}
    (hw : w ∈ allWindows host aliases calls) (hw' : w' ∈ allWindows host aliases calls)
    (hid : w.2.id host = w'.2.id host) : w.2.parts = w'.2.parts := by
  have hdigest := host.digest_injective ((String.append_right_inj "observation-").mp hid)
  exact Text.intercalate_injective '|' (h.separated w hw) (h.separated w' hw')
    (List.cons_ne_nil _ _) (List.cons_ne_nil _ _) hdigest

theorem facts_of_id (h : Unambiguous host aliases calls) {w w' : RiskEntity × Window}
    (hw : w ∈ allWindows host aliases calls) (hw' : w' ∈ allWindows host aliases calls)
    (hid : w.2.id host = w'.2.id host) : w.2.facts = w'.2.facts := by
  have hparts := parts_of_id h hw hw' hid
  obtain ⟨hstart, hend⟩ := h.fallback w hw w' hw' hparts
  exact facts_of_parts hw hw' hparts hstart hend

/-! ## The table -/

/-- The observations that calls have saved, one after the other. -/
def allObservations (host : Host) (aliases : Aliases) (calls : List Ingestion) : List Observation :=
  (allWindows host aliases calls).map fun w => observe host w.1 w.2

theorem table_eq (calls : List Ingestion) :
    table host aliases calls = save ∅ (allObservations host aliases calls) := by
  have hfold : ∀ (t : Observations) (calls : List Ingestion),
      calls.foldl (fun t call => save t (ingested host aliases call.sourceJobId call.entities)) t =
        save t (allObservations host aliases calls) := by
    intro t calls
    induction calls generalizing t with
    | nil => rfl
    | cons call calls ih =>
        rw [List.foldl_cons, ih]
        unfold save allObservations allWindows ingested
        rw [List.flatMap_cons, List.map_append, Dict.groupFold_append]
  exact hfold ∅ calls

/-- What is written over an observation leaves the facts that it is named by. -/
theorem facts_update {row new : Observation} (h : row.facts = new.facts) :
    (row.update new).facts = new.facts := by
  obtain ⟨hjob, hcluster, hstart, hend, hhash, _⟩ := Facts.mk.injEq .. |>.mp h
  exact Facts.mk.injEq .. |>.mpr ⟨hjob, hcluster, hstart, hend, hhash, rfl⟩

/-- Observations with the same facts leave an observation with these. -/
theorem facts_foldSome {facts : Facts} {observations : List Observation} {row : Option Observation}
    (hall : ∀ o ∈ observations, o.facts = facts) (hrow : ∀ r, row = some r → r.facts = facts)
    {r : Observation} (h : Dict.foldSome upsert row observations = some r) : r.facts = facts := by
  induction observations generalizing row with
  | nil => exact hrow r h
  | cons o observations ih =>
      refine ih (fun o' ho' => hall o' (List.mem_cons_of_mem o ho')) (fun r' hr' => ?_) h
      rw [← Option.some.inj hr']
      have ho := hall o List.mem_cons_self
      unfold upsert
      split
      · exact ho
      · rename_i row'
        rw [facts_update ((hrow row' rfl).trans ho.symm)]
        exact ho

theorem foldSome_isSome {observations : List Observation} (h : observations ≠ [])
    (row : Option Observation) : (Dict.foldSome upsert row observations).isSome := by
  induction observations generalizing row with
  | nil => exact absurd rfl h
  | cons o rest ih =>
      rw [Dict.foldSome_cons]
      cases rest with
      | nil => rfl
      | cons o' rest => exact ih (List.cons_ne_nil o' rest) _

theorem stored_of_mem (h : Unambiguous host aliases calls) {w : RiskEntity × Window}
    (hw : w ∈ allWindows host aliases calls) : ∃ row,
      (table host aliases calls).get? (w.2.id host) = some row ∧ row.facts = w.2.facts := by
  have hmem : observe host w.1 w.2 ∈ (allObservations host aliases calls).filter fun o =>
      decide (o.observationId = w.2.id host) :=
    List.mem_filter.mpr ⟨List.mem_map.mpr ⟨w, hw, rfl⟩, decide_eq_true rfl⟩
  have hget : (table host aliases calls).get? (w.2.id host) = Dict.foldSome upsert none
      ((allObservations host aliases calls).filter fun o =>
        decide (o.observationId = w.2.id host)) := by
    rw [table_eq, save, Dict.get?_groupFold, Dict.get?_empty]
  obtain ⟨row, hrow⟩ := Option.isSome_iff_exists.mp
    (foldSome_isSome (List.ne_nil_of_mem hmem) none)
  refine ⟨row, hget.trans hrow, facts_foldSome (fun o ho => ?_) (fun _ hr => by cases hr) hrow⟩
  obtain ⟨ho, hid⟩ := List.mem_filter.mp ho
  obtain ⟨w', hw', rfl⟩ := List.mem_map.mp ho
  exact facts_of_id h hw' hw (of_decide_eq_true hid)

/-! ## Ingesting again -/

/-- Once the last of the observations has been written, writing all of them changes nothing. -/
theorem foldSome_update (row : Observation) {observations : List Observation}
    (h : observations ≠ []) : Dict.foldSome upsert (some row) observations =
      some (row.update (observations.getLast h)) := by
  induction observations generalizing row with
  | nil => exact absurd rfl h
  | cons o rest ih =>
      rw [Dict.foldSome_cons]
      cases rest with
      | nil => rfl
      | cons o' rest => exact ih (row.update o) (List.cons_ne_nil o' rest)

theorem update_last {row : Option Observation} {observations : List Observation}
    (h : observations ≠ []) {r : Observation}
    (hr : Dict.foldSome upsert row observations = some r) : r.update (observations.getLast h) = r := by
  cases row with
  | some row =>
      rw [foldSome_update row h] at hr
      rw [← Option.some.inj hr]
      rfl
  | none =>
      cases observations with
      | nil => exact absurd rfl h
      | cons o rest =>
          rw [Dict.foldSome_cons] at hr
          cases rest with
          | nil =>
              rw [← Option.some.inj hr]
              rfl
          | cons o' rest =>
              have hlast := foldSome_update o (List.cons_ne_nil o' rest)
              rw [← Option.some.inj (hlast.symm.trans hr)]
              rfl

theorem foldSome_twice (row : Option Observation) (observations : List Observation) :
    Dict.foldSome upsert (Dict.foldSome upsert row observations) observations =
      Dict.foldSome upsert row observations := by
  by_cases h : observations = []
  · rw [h]
    rfl
  · obtain ⟨r, hr⟩ := Option.isSome_iff_exists.mp (foldSome_isSome h row)
    rw [hr, foldSome_update r h, update_last h hr]

theorem save_twice (t : Observations) (observations : List Observation) :
    save (save t observations) observations = save t observations := by
  refine Dict.ext_get? (Dict.keys_groupFold_of_mem fun o ho => ?_) fun k => ?_
  · exact Dict.mem_keys_groupFold.mpr (.inr ⟨o, ho, rfl⟩)
  · unfold save
    rw [Dict.get?_groupFold, Dict.get?_groupFold, foldSome_twice]

/-- Where no name is ambiguous, windows that differ are stored under names that differ, and
ingesting windows again changes nothing. -/
theorem observations_distinguished (host : Host) (aliases : Aliases)
    (calls : { calls : List Ingestion // Unambiguous host aliases calls }) :
    Distinguished host aliases calls.val where
  stored _ hw := stored_of_mem calls.property hw
  apart _ hw _ hw' hfacts hid := hfacts (facts_of_id calls.property hw hw' hid)
  again call := by
    unfold table
    rw [List.foldl_append, List.foldl_append]
    exact congrArg Dict.entries (save_twice _ _)

/-! ## Two windows without times of their own -/

namespace Overwritten

/-- Digests that are the texts themselves. -/
def plain : Host where
  casefold := id
  casefold_empty := id_empty
  casefold_default := id_default
  digest := id
  digest_injective := Function.injective_id
  fromIso _ := some default
  isoformat _ := ""

def template : Template where
  members name := if name = "node" then some "n" else if name = "template_hash" then some "h" else none

/-- Two risk entities with one template, each with times of its own. -/
def call : Ingestion where
  sourceJobId := "j"
  entities :=
    [{ windowStart := "10:00", windowEnd := "10:05", topTemplates := [template] },
      { windowStart := "11:00", windowEnd := "11:05", topTemplates := [template] }]

theorem starts : (allWindows plain (fun _ => []) [call]).map
    (fun w => (w.2.id plain, w.2.windowStart)) =
      [("observation-j|default|||h|default/node/n", "10:00"),
        ("observation-j|default|||h|default/node/n", "11:00")] := by
  decide +kernel

end Overwritten

theorem windows_merged : ¬ ∀ (host : Host) (aliases : Aliases) (calls : List Ingestion),
    Distinguished host aliases calls := by
  intro h
  have hapart := (h Overwritten.plain (fun _ => []) [Overwritten.call]).apart
  have hmem : ∀ x ∈ [("observation-j|default|||h|default/node/n", "10:00"),
      ("observation-j|default|||h|default/node/n", "11:00")],
      ∃ w ∈ allWindows Overwritten.plain (fun _ => []) [Overwritten.call],
        (w.2.id Overwritten.plain, w.2.windowStart) = x := by
    intro x hx
    rw [← Overwritten.starts] at hx
    exact List.mem_map.mp hx
  obtain ⟨w, hw, hwx⟩ := hmem _ List.mem_cons_self
  obtain ⟨w', hw', hwx'⟩ := hmem _ (List.mem_cons_of_mem _ List.mem_cons_self)
  obtain ⟨hid, hstart⟩ := Prod.mk.inj hwx
  obtain ⟨hid', hstart'⟩ := Prod.mk.inj hwx'
  refine hapart w hw w' hw' (fun hfacts => ?_) (hid.trans hid'.symm)
  have hsame : w.2.windowStart = w'.2.windowStart := congrArg Facts.windowStart hfacts
  rw [hstart, hstart'] at hsame
  exact absurd hsame (by decide)

end LogRisk.MultiSource
