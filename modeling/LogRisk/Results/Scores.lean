import LogRisk.Library.Partition
import LogRisk.Results.Workers

/-!
# Scores in memory

`score_risk_entities` groups merged windows by entity and scores each group.  A
generation that has folded the same windows has the same rows, so its groups have the
same sizes and the same peaks.
-/

namespace LogRisk.Results

open LogRisk.Library LogRisk.Library.Transaction LogRisk.Windows LogRisk.Streaming

variable {ν σ : Type}

/-! ## Merging cores -/

theorem core_merged (a b : Window ν) : core (a.merged b) = (core a).merged (core b) := by
  simp [core, Window.merged]

theorem get?_mergedWindows_core (ws : List (Window ν)) (k : Identity) :
    (mergedWindows (ws.map core)).get? k = ((mergedWindows ws).get? k).map core := by
  induction ws using List.reverseRecOn with
  | nil => rfl
  | append_singleton ws w ih =>
      rw [List.map_append, List.map_singleton, get?_mergedWindows_append,
        get?_mergedWindows_append, identity_core, ih]
      by_cases hk : w.identity = k
      · rw [if_pos hk, if_pos hk]
        cases (mergedWindows ws).get? k with
        | none => rfl
        | some m => exact congrArg some (core_merged m w).symm
      · rw [if_neg hk, if_neg hk]

/-! ## Rows and merged windows -/

/-- What a window is known by, how often it was seen and how it is scored. -/
structure Outline (σ : Type) where
  identity : Identity
  count : ℕ
  score : σ

def ResultWindow.outline (row : ResultWindow ν σ) : Outline σ :=
  ⟨row.canonical, row.count, row.score⟩

def outlineOf (rules : Rules σ) (w : Window ν) : Outline σ := ⟨w.identity, w.count, rules.score w⟩

variable {repository : Repository ν} {rules : Rules σ}

theorem Folded.row_spec {ws : List (Window ν)} {windows : Dict String (ResultWindow ν σ)}
    (h : Folded repository rules ws windows) {key : String} {row : ResultWindow ν σ}
    (hrow : windows.get? key = some row) :
    key = repository.digest row.canonical ∧ row.entityKey = entityKeyOf row.canonical ∧
      ∃ m, (mergedWindows ws).get? row.canonical = some m ∧ row.outline = outlineOf rules m := by
  obtain ⟨w, hw, rfl⟩ := h.known key row hrow
  rw [h.row w hw] at hrow
  have hcanonical := canonical_rowFor hrow
  obtain ⟨c, hc, rfl⟩ := Option.map_eq_some_iff.mp hrow
  rw [get?_mergedWindows_core] at hc
  obtain ⟨m, hm, rfl⟩ := Option.map_eq_some_iff.mp hc
  refine ⟨rfl, rfl, m, hm, ?_⟩
  unfold ResultWindow.outline outlineOf
  rw [identity_mergedWindows hm]
  rfl

theorem nodup_outlines {ws : List (Window ν)} {windows : Dict String (ResultWindow ν σ)}
    (h : Folded repository rules ws windows) :
    (windows.values.map ResultWindow.outline).Nodup := by
  have hkeys : windows.entries.map (fun entry => repository.digest entry.2.canonical) =
      windows.keys := by
    refine List.map_congr_left fun entry hentry => ?_
    exact (h.row_spec (Dict.get?_eq_some.mpr hentry)).1.symm
  have hnodup := windows.nodup
  refine List.Nodup.of_map (fun o => repository.digest o.identity) ?_
  unfold Dict.values
  rw [List.map_map, List.map_map]
  show (windows.entries.map fun entry => repository.digest entry.2.canonical).Nodup
  rw [hkeys]
  exact hnodup

theorem nodup_mergedOutlines (rules : Rules σ) (ws : List (Window ν)) :
    ((mergeTemplateWindows ws).map (outlineOf rules)).Nodup := by
  have hkeys : (mergedWindows ws).entries.map (fun entry => entry.2.identity) =
      (mergedWindows ws).keys := by
    refine List.map_congr_left fun entry hentry => ?_
    exact identity_mergedWindows (Dict.get?_eq_some.mpr hentry)
  refine List.Nodup.of_map Outline.identity ?_
  unfold mergeTemplateWindows Dict.values
  rw [List.map_map, List.map_map]
  show ((mergedWindows ws).entries.map fun entry => entry.2.identity).Nodup
  rw [hkeys]
  exact (mergedWindows ws).nodup

/-- The rows of a generation are the windows merged in memory. -/
theorem outlines_perm {ws : List (Window ν)} {windows : Dict String (ResultWindow ν σ)}
    (h : Folded repository rules ws windows) :
    (windows.values.map ResultWindow.outline).Perm
      ((mergeTemplateWindows ws).map (outlineOf rules)) := by
  rw [List.perm_ext_iff_of_nodup (nodup_outlines h) (nodup_mergedOutlines rules ws)]
  intro o
  constructor
  · intro ho
    obtain ⟨row, hrow, rfl⟩ := List.mem_map.mp ho
    obtain ⟨key, hkey⟩ := Dict.mem_values.mp hrow
    obtain ⟨-, -, m, hm, houtline⟩ := h.row_spec hkey
    rw [houtline]
    exact List.mem_map_of_mem (Dict.mem_values.mpr ⟨_, hm⟩)
  · intro ho
    obtain ⟨m, hm, rfl⟩ := List.mem_map.mp ho
    have hget := mem_mergeTemplateWindows.mp hm
    have hany : ∃ w ∈ ws, w.identity = m.identity := by
      by_contra hnone
      have habsent : ∀ w ∈ ws, w.identity ≠ m.identity := fun w hw hk => hnone ⟨w, hw, hk⟩
      rw [get?_mergedWindows_eq_none.mpr habsent] at hget
      cases hget
    obtain ⟨w, hw, hk⟩ := hany
    have hrow := h.row w hw
    unfold rowFor at hrow
    rw [get?_mergedWindows_core, hk, hget] at hrow
    exact List.mem_map.mpr ⟨_, Dict.mem_values.mpr ⟨_, hrow⟩, rfl⟩

/-! ## Groups -/

section Scores

variable [LinearOrder σ]

/-- `score_risk_entities`: for each entity its score and level, the highest first. -/
def scoreRiskEntities (rules : Rules σ) (windows : List (Window ν)) :
    List (EntityKey × EntityScore σ) :=
  let groups := Dict.groupBy (fun w : Window ν => entityKeyOf w.identity) windows
  (groups.entries.filterMap fun group =>
      ((group.2.insertionSort fun a b => rules.score b ≤ rules.score a).head?).map fun top =>
        (group.1, rules.entity (rules.score top) group.2.length)).insertionSort
    fun a b => b.2.score ≤ a.2.score

theorem score_head?_insertionSort (rules : Rules σ) (items : List (Window ν)) :
    ((items.insertionSort fun a b => rules.score b ≤ rules.score a).head?).map rules.score =
      (items.map rules.score).max? := by
  letI : Std.Total fun a b : Window ν => rules.score b ≤ rules.score a :=
    ⟨fun a b => le_total (rules.score b) (rules.score a)⟩
  letI : IsTrans (Window ν) fun a b : Window ν => rules.score b ≤ rules.score a :=
    ⟨fun _ _ _ hab hbc => le_trans hbc hab⟩
  have hperm := List.perm_insertionSort (fun a b => rules.score b ≤ rules.score a) items
  have hsorted := List.pairwise_insertionSort (fun a b => rules.score b ≤ rules.score a) items
  generalize items.insertionSort (fun a b => rules.score b ≤ rules.score a) = sorted at hperm hsorted
  cases sorted with
  | nil =>
      rw [List.nil_perm.mp hperm]
      rfl
  | cons top rest =>
      refine (List.max?_eq_some_iff.mpr ⟨?_, fun score hscore => ?_⟩).symm
      · exact List.mem_map_of_mem (hperm.mem_iff.mp List.mem_cons_self)
      · obtain ⟨w, hw, rfl⟩ := List.mem_map.mp hscore
        rcases List.mem_cons.mp (hperm.mem_iff.mpr hw) with rfl | hrest
        · exact le_rfl
        · exact (List.pairwise_cons.mp hsorted).1 w hrest

/-- The score of an entity from the outlines of its windows. -/
def entityOfOutlines (rules : Rules σ) (outlines : List (Outline σ)) (key : EntityKey) :
    Option (EntityScore σ) :=
  let own := outlines.filter fun o => decide (entityKeyOf o.identity = key)
  (own.map Outline.score).max?.map fun peak => rules.entity peak own.length

theorem entityOfOutlines_perm {l l' : List (Outline σ)} (h : l.Perm l') (key : EntityKey) :
    entityOfOutlines rules l key = entityOfOutlines rules l' key := by
  have hown := h.filter fun o => decide (entityKeyOf o.identity = key)
  unfold entityOfOutlines
  dsimp only
  rw [max?_perm (hown.map Outline.score), hown.length_eq]

/-- Entities in memory. -/
theorem mem_scoreRiskEntities {windows : List (Window ν)} {key : EntityKey} {e : EntityScore σ} :
    (key, e) ∈ scoreRiskEntities rules windows ↔
      entityOfOutlines rules (windows.map (outlineOf rules)) key = some e := by
  have hown : (windows.map (outlineOf rules)).filter (fun o => decide (entityKeyOf o.identity = key)) =
      (windows.filter fun w => decide (entityKeyOf w.identity = key)).map (outlineOf rules) := by
    rw [List.filter_map]
    rfl
  have hvalue : entityOfOutlines rules (windows.map (outlineOf rules)) key =
      (((windows.filter fun w => decide (entityKeyOf w.identity = key)).insertionSort
        fun a b => rules.score b ≤ rules.score a).head?).map fun top => rules.entity
          (rules.score top) (windows.filter fun w => decide (entityKeyOf w.identity = key)).length := by
    unfold entityOfOutlines
    dsimp only
    rw [hown, List.map_map, List.length_map]
    show ((List.map rules.score _).max?).map _ = _
    rw [← score_head?_insertionSort, Option.map_map]
    rfl
  unfold scoreRiskEntities
  rw [(List.perm_insertionSort _ _).mem_iff, List.mem_filterMap, hvalue]
  constructor
  · rintro ⟨⟨key', items⟩, hgroup, hitem⟩
    obtain ⟨top, htop, hpair⟩ := Option.map_eq_some_iff.mp hitem
    obtain ⟨rfl, rfl⟩ := Prod.mk.inj hpair
    have hitems := Dict.get?_groupBy (Dict.get?_eq_some.mpr hgroup)
    dsimp only at htop hitems
    rw [← hitems, htop]
    rfl
  · intro h
    obtain ⟨top, htop, rfl⟩ := Option.map_eq_some_iff.mp h
    have hmem := (List.perm_insertionSort _ _).mem_iff.mp (List.mem_of_head? htop)
    obtain ⟨hwindow, hkey⟩ := List.mem_filter.mp hmem
    have hin : key ∈ (Dict.groupBy (fun w : Window ν => entityKeyOf w.identity) windows).keys :=
      Dict.mem_keys_groupBy.mpr ⟨top, hwindow, of_decide_eq_true hkey⟩
    obtain ⟨items, hitems⟩ := Dict.mem_keys.mp hin
    refine ⟨(key, items), Dict.get?_eq_some.mp hitems, ?_⟩
    rw [Dict.get?_groupBy hitems, htop]
    rfl

/-- A generation scores an entity as `score_risk_entities` does. -/
theorem entityOf_eq {ws : List (Window ν)} {g : ResultGeneration ν σ}
    (h : Folded repository rules ws g.windows) (key : EntityKey) :
    Tables.entityOf rules g key =
      entityOfOutlines rules ((mergeTemplateWindows ws).map (outlineOf rules)) key := by
  rw [← entityOfOutlines_perm (outlines_perm h)]
  have hown : (g.windows.values.map ResultWindow.outline).filter
        (fun o => decide (entityKeyOf o.identity = key)) =
      (Tables.windowsOf g key).map ResultWindow.outline := by
    rw [List.filter_map]
    unfold Tables.windowsOf
    congr 1
    refine List.filter_congr fun row hrow => ?_
    obtain ⟨k, hk⟩ := Dict.mem_values.mp hrow
    rw [(h.row_spec hk).2.1]
    rfl
  unfold entityOfOutlines
  dsimp only
  rw [hown, List.map_map, List.length_map]
  rfl

end Scores

end LogRisk.Results
