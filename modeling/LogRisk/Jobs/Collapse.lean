import Mathlib.Algebra.Order.Field.Rat
import LogRisk.Library.Text
import LogRisk.Library.TopCounts
import LogRisk.Library.Value

/-!
# Collapsing the windows of an entity

The risk entities of a document come one for each window.  They are collapsed to one for each
entity id: the window is widened, the data of the window with the higher score are taken, and the
templates are merged, the ten with the highest counts kept.  A window that comes later is merged
with what was kept, so a template that was cut off comes back without its earlier counts; and an
id may stand for entities of several clusters.
-/

namespace LogRisk.Jobs

open LogRisk.Library LogRisk.Library.Text LogRisk.Library.Dict LogRisk.Library.Paging
  LogRisk.Library.TopCounts

/-! ## Templates -/

/-- A template of a window.  Missing texts are empty; one of the three fingerprints is given. -/
structure Template where
  templateFingerprint : String
  templateHash : String
  templateInstanceHash : String
  component : String
  category : String
  count : ℕ
  firstSeen : String
  lastSeen : String
  identified : strip templateFingerprint ≠ "" ∨ strip templateHash ≠ "" ∨
    strip templateInstanceHash ≠ ""

/-- `a or b`, for texts. -/
def orText (a b : String) : String := if a = "" then b else a

def templateIdentity (t : Template) : String ×ₗ String ×ₗ String :=
  toLex (orText (orText (strip t.templateFingerprint) (strip t.templateHash))
      (strip t.templateInstanceHash),
    toLex (t.component, t.category))

/-- `min` or `max` of the texts that are there. -/
def pickText (pick : String → String → String) (a b : String) : String :=
  if a = "" then b else if b = "" then a else pick a b

/-- A template that is there, with one of the same identity merged into it. -/
def addTemplate (target template : Template) : Template :=
  { target with
    count := target.count + template.count
    firstSeen := pickText min target.firstSeen template.firstSeen
    lastSeen := pickText max target.lastSeen template.lastSeen }

def counted : Counted Template (String ×ₗ String ×ₗ String) where
  key := templateIdentity
  count := Template.count
  add := addTemplate
  key_add := fun _ _ => rfl
  count_add := fun _ _ => rfl

def mergeTemplates (current incoming : List Template) : List Template :=
  top counted 10 (current ++ incoming)

/-! ## Entities -/

/-- A window of a risk entity.  The attributes are the entries that have no field here; a missing
text is empty. -/
structure RiskEntity where
  windowStart : String
  windowEnd : String
  riskScore : ℚ
  riskLevel : String
  topTemplates : List Template
  affectedEntities : List String
  attributes : Dict String Value

/-- `str`, which leaves texts as they are. -/
structure Texts where
  str : Value → String
  str_text : ∀ s, str (.str s) = s

/-- The entries that are merged on their own. -/
def mergedKeys : List String :=
  ["window_start", "window_end", "risk_score", "risk_level", "top_templates", "affected_entities"]

/-- The entries of the preferred entity, over those that are there. -/
def overlay (base preferred : Dict String Value) : Dict String Value :=
  preferred.entries.foldl (fun d e => if e.1 ∈ mergedKeys then d else d.set e.1 e.2) base

/-- `level_rank.get(level, -1)`. -/
def levelRank (level : String) : ℤ :=
  match level with
  | "low" => 0
  | "medium" => 1
  | "high" => 2
  | "critical" => 3
  | _ => -1

/-- The set of the texts that are there, in order. -/
def mergeAffected (current source : List String) : List String :=
  ordered id ((current ++ source).filter fun name => name ≠ "").dedup

def mergeEntity (current source : RiskEntity) : RiskEntity where
  windowStart := pickText min current.windowStart source.windowStart
  windowEnd := pickText max current.windowEnd source.windowEnd
  riskScore := max current.riskScore source.riskScore
  riskLevel :=
    if levelRank source.riskLevel > levelRank current.riskLevel then source.riskLevel
    else current.riskLevel
  topTemplates := mergeTemplates current.topTemplates source.topTemplates
  affectedEntities := mergeAffected current.affectedEntities source.affectedEntities
  attributes := overlay current.attributes
    (if source.riskScore > current.riskScore then source else current).attributes

namespace Texts

variable (texts : Texts)

/-- `str(source.get(key) or "")`. -/
def field (key : String) (e : RiskEntity) : String :=
  texts.str (Value.orElse (e.attributes.get? key) (.str ""))

def entityId (e : RiskEntity) : String := texts.field "entity_id" e

/-- The first window of an id. -/
def firstWindow (e : RiskEntity) : RiskEntity :=
  { e with attributes := e.attributes.set "entity_id" (.str (texts.entityId e)) }

def collapseStep (current : Option RiskEntity) (source : RiskEntity) : RiskEntity :=
  match current with
  | none => texts.firstWindow source
  | some current => mergeEntity current source

def collapsed (entities : List RiskEntity) : Dict String RiskEntity :=
  groupFold texts.entityId texts.collapseStep ∅ entities

def collapseRiskEntities (entities : List RiskEntity) : List RiskEntity :=
  ordered (fun e => toLex (OrderDual.toDual e.riskScore, texts.entityId e))
    (texts.collapsed entities).values

/-- Cluster, type and id. -/
def identity (e : RiskEntity) : String × String × String :=
  (texts.field "cluster" e, texts.field "entity_type" e, texts.entityId e)

/-- The windows of an id. -/
def windows (id : String) (entities : List RiskEntity) : List RiskEntity :=
  entities.filter fun e => decide (texts.entityId e = id)

/-! ## What a merge does to the fields -/

variable {texts}

theorem get?_overlay (base preferred : Dict String Value) {key : String} (hkey : key ∉ mergedKeys) :
    (overlay base preferred).get? key = (preferred.get? key).or (base.get? key) := by
  have hfold : ∀ (entries : List (String × Value)) (d : Dict String Value),
      (entries.map Prod.fst).Nodup →
        (entries.foldl (fun d e => if e.1 ∈ mergedKeys then d else d.set e.1 e.2) d).get? key =
          (assoc key entries).or (d.get? key) := by
    intro entries
    induction entries with
    | nil => exact fun _ _ => rfl
    | cons e rest ih =>
        intro d hnodup
        obtain ⟨hnot, hrest⟩ := List.nodup_cons.mp hnodup
        rw [List.foldl_cons, ih _ hrest, assoc]
        by_cases he : e.1 = key
        · rw [if_neg (he ▸ hkey), if_pos he, ← he, get?_set_self, assoc_eq_none.mpr hnot]
          rfl
        · rw [if_neg he]
          split
          · rfl
          · rw [get?_set_of_ne he]
  exact hfold preferred.entries base preferred.nodup

/-- A field that is the same in both entities is the same in the merged one. -/
theorem field_mergeEntity {key text : String} (hkey : key ∉ mergedKeys) {current source : RiskEntity}
    (hcurrent : texts.field key current = text) (hsource : texts.field key source = text) :
    texts.field key (mergeEntity current source) = text := by
  have hpreferred : texts.field key
      (if source.riskScore > current.riskScore then source else current) = text := by
    split
    · exact hsource
    · exact hcurrent
  unfold field at *
  show texts.str (Value.orElse ((overlay _ _).get? key) _) = text
  rw [get?_overlay _ _ hkey]
  cases hget : (if source.riskScore > current.riskScore then source else current).attributes.get?
      key with
  | none => exact hcurrent
  | some value =>
      rw [hget] at hpreferred
      exact hpreferred

theorem field_firstWindow (key : String) (e : RiskEntity) :
    texts.field key (texts.firstWindow e) = texts.field key e := by
  unfold field firstWindow
  by_cases hkey : "entity_id" = key
  · subst hkey
    have hstr : ∀ s, texts.str (Value.orElse (some (.str s)) (.str "")) = s := by
      intro s
      rw [Value.orElse_some]
      split
      · exact texts.str_text s
      · rename_i hempty
        have hs : s = "" := by simpa [Value.truthy] using hempty
        rw [hs, texts.str_text]
    rw [get?_set_self, hstr]
    rfl
  · rw [get?_set_of_ne hkey]

/-- A field that all windows of a fold have in common. -/
theorem field_foldSome {key text : String} (hkey : key ∉ mergedKeys) {rows : List RiskEntity}
    (hrows : ∀ e ∈ rows, texts.field key e = text) {current : Option RiskEntity}
    (hcurrent : ∀ e, current = some e → texts.field key e = text) {e : RiskEntity}
    (h : foldSome texts.collapseStep current rows = some e) : texts.field key e = text := by
  induction rows generalizing current with
  | nil => exact hcurrent e h
  | cons row rows ih =>
      refine ih (fun x hx => hrows x (List.mem_cons_of_mem row hx)) (fun x hx => ?_) h
      have hrow := hrows row List.mem_cons_self
      rw [← Option.some.inj hx]
      cases current with
      | none => exact (field_firstWindow key row).trans hrow
      | some c => exact field_mergeEntity hkey (hcurrent c rfl) hrow

/-- The templates are those of the first window, the others merged one after the other. -/
theorem topTemplates_foldSome_some {c e : RiskEntity} {rows : List RiskEntity}
    (h : foldSome texts.collapseStep (some c) rows = some e) :
    e.topTemplates = (rows.map RiskEntity.topTemplates).foldl
      (fun kept xs => top counted 10 (kept ++ xs)) c.topTemplates := by
  induction rows generalizing c with
  | nil =>
      cases h
      rfl
  | cons row rows ih => exact ih h

theorem topTemplates_foldSome {e : RiskEntity} {rows : List RiskEntity}
    (h : foldSome texts.collapseStep none rows = some e) :
    e.topTemplates = run counted 10 (rows.map RiskEntity.topTemplates) := by
  cases rows with
  | nil => cases h
  | cons row rows => exact topTemplates_foldSome_some (c := texts.firstWindow row) h

/-! ## One for each id -/

theorem mem_collapse {entities : List RiskEntity} {e : RiskEntity} :
    e ∈ texts.collapseRiskEntities entities ↔
      ∃ id, foldSome texts.collapseStep none (texts.windows id entities) = some e := by
  unfold collapseRiskEntities
  rw [mem_ordered, mem_values]
  refine exists_congr fun id => ?_
  unfold collapsed
  rw [get?_groupFold]
  rfl

theorem entityId_of_mem_windows {id : String} {entities : List RiskEntity} {e : RiskEntity}
    (h : e ∈ texts.windows id entities) : texts.entityId e = id := by
  simpa using (List.mem_filter.mp h).2

theorem entityId_of_foldSome {id : String} {entities : List RiskEntity} {e : RiskEntity}
    (h : foldSome texts.collapseStep none (texts.windows id entities) = some e) :
    texts.entityId e = id :=
  field_foldSome (by decide) (fun _ hx => entityId_of_mem_windows hx) (fun _ hx => by cases hx) h

theorem foldSome_of_mem {entities : List RiskEntity} {e : RiskEntity}
    (h : e ∈ texts.collapseRiskEntities entities) :
    foldSome texts.collapseStep none (texts.windows (texts.entityId e) entities) = some e := by
  obtain ⟨id, hid⟩ := mem_collapse.mp h
  rw [entityId_of_foldSome hid]
  exact hid

/-- Every id that comes in comes out. -/
theorem exists_collapsed {entities : List RiskEntity} {w : RiskEntity} (hw : w ∈ entities) :
    ∃ e ∈ texts.collapseRiskEntities entities, texts.entityId e = texts.entityId w := by
  have hkey : texts.entityId w ∈ (texts.collapsed entities).keys :=
    mem_keys_groupFold.mpr (.inr ⟨w, hw, rfl⟩)
  obtain ⟨e, he⟩ := mem_keys.mp hkey
  refine ⟨e, mem_ordered.mpr (mem_values.mpr ⟨_, he⟩), ?_⟩
  unfold collapsed at he
  rw [get?_groupFold] at he
  exact entityId_of_foldSome he

theorem windows_ne_nil {entities : List RiskEntity} {e : RiskEntity}
    (h : e ∈ texts.collapseRiskEntities entities) :
    texts.windows (texts.entityId e) entities ≠ [] := by
  intro hnil
  have hfold := foldSome_of_mem h
  rw [hnil] at hfold
  cases hfold

theorem nodup_collapse (entities : List RiskEntity) :
    ((texts.collapseRiskEntities entities).map texts.entityId).Nodup := by
  have hkeys : (texts.collapsed entities).values.map texts.entityId =
      (texts.collapsed entities).keys := by
    unfold values keys
    rw [List.map_map]
    refine List.map_congr_left fun entry hentry => ?_
    have hget : (texts.collapsed entities).get? entry.1 = some entry.2 := get?_eq_some.mpr hentry
    unfold collapsed at hget
    rw [get?_groupFold] at hget
    exact entityId_of_foldSome hget
  refine ((ordered_perm _ _).map texts.entityId).nodup_iff.mpr ?_
  rw [hkeys]
  exact (texts.collapsed entities).nodup

/-! ## Nothing lost and nothing mixed up -/

variable (texts)

/-- One entity for each cluster, type and id, with the first ten of all its templates and what
they count together. -/
structure Correct (entities : List RiskEntity) : Prop where
  identities : ((texts.collapseRiskEntities entities).map texts.identity).Perm
    (entities.map texts.identity).dedup
  templates : ∀ e ∈ texts.collapseRiskEntities entities,
    Exact counted 10
      ((entities.filter fun w => decide (texts.identity w = texts.identity e)).map
        RiskEntity.topTemplates).flatten e.topTemplates

/-- In whatever order the entities are supplied, with the same templates and counts. -/
structure Complete (entities : List RiskEntity) : Prop where
  correct : ∀ supplied, supplied.Perm entities → texts.Correct supplied
  unordered : ∀ supplied, supplied.Perm entities → ∀ e ∈ texts.collapseRiskEntities entities,
    ∀ e' ∈ texts.collapseRiskEntities supplied, texts.identity e' = texts.identity e →
      (e.topTemplates.map fun t => (templateIdentity t, t.count)).Perm
        (e'.topTemplates.map fun t => (templateIdentity t, t.count))

/-- No id stands for entities of several clusters or types. -/
def Distinguished (entities : List RiskEntity) : Prop :=
  ∀ a ∈ entities, ∀ b ∈ entities, texts.entityId a = texts.entityId b →
    texts.identity a = texts.identity b

/-- No merge cuts off a template that belongs to the ten of its entity; windows that are not
merged have at most ten templates, each once. -/
def NothingForgotten (entities : List RiskEntity) : Prop :=
  ∀ w ∈ entities,
    Keeps counted 10 ((texts.windows (texts.entityId w) entities).map RiskEntity.topTemplates)

variable {texts}

theorem identity_of_collapsed {entities : List RiskEntity} (h : texts.Distinguished entities)
    {e w : RiskEntity} (he : e ∈ texts.collapseRiskEntities entities) (hw : w ∈ entities)
    (hid : texts.entityId w = texts.entityId e) : texts.identity e = texts.identity w := by
  have hwindows : ∀ x ∈ texts.windows (texts.entityId e) entities,
      texts.identity x = texts.identity w := by
    intro x hx
    exact h x (List.mem_of_mem_filter hx) w hw ((entityId_of_mem_windows hx).trans hid.symm)
  have hfield : ∀ key text, key ∉ mergedKeys →
      (∀ x, texts.identity x = texts.identity w → texts.field key x = text) →
      texts.field key e = text := by
    intro key text hkey htext
    exact field_foldSome hkey (fun x hx => htext x (hwindows x hx)) (fun _ hx => by cases hx)
      (foldSome_of_mem he)
  unfold identity
  rw [hfield "cluster" _ (by decide) fun x hx => congrArg Prod.fst hx,
    hfield "entity_type" _ (by decide) fun x hx => congrArg (fun i => i.2.1) hx, hid]
  rfl

theorem identities_of_distinguished {entities : List RiskEntity}
    (h : texts.Distinguished entities) :
    ((texts.collapseRiskEntities entities).map texts.identity).Perm
      (entities.map texts.identity).dedup := by
  have hnodup : ((texts.collapseRiskEntities entities).map texts.identity).Nodup := by
    have hids := @nodup_collapse texts entities
    rw [List.Nodup, List.pairwise_map] at hids ⊢
    exact hids.imp fun hne heq => hne (congrArg (fun i => i.2.2) heq)
  refine (List.perm_ext_iff_of_nodup hnodup (List.nodup_dedup _)).mpr fun i => ?_
  rw [List.mem_dedup, List.mem_map, List.mem_map]
  constructor
  · rintro ⟨e, he, rfl⟩
    obtain ⟨w, hw⟩ := List.exists_mem_of_ne_nil _ (windows_ne_nil he)
    have hentity := List.mem_of_mem_filter hw
    exact ⟨w, hentity, (identity_of_collapsed h he hentity (entityId_of_mem_windows hw)).symm⟩
  · rintro ⟨w, hw, rfl⟩
    obtain ⟨e, he, hid⟩ := exists_collapsed hw
    exact ⟨e, he, identity_of_collapsed h he hw hid.symm⟩

theorem distinguished_of_identities {entities : List RiskEntity}
    (h : ((texts.collapseRiskEntities entities).map texts.identity).Perm
      (entities.map texts.identity).dedup) : texts.Distinguished entities := by
  have hmem : ∀ w ∈ entities, ∃ e ∈ texts.collapseRiskEntities entities,
      texts.identity e = texts.identity w := by
    intro w hw
    have hin := h.mem_iff.mpr (List.mem_dedup.mpr (List.mem_map_of_mem hw))
    exact List.mem_map.mp hin
  intro a ha b hb hid
  obtain ⟨e, he, hea⟩ := hmem a ha
  obtain ⟨e', he', heb⟩ := hmem b hb
  have hsame : texts.entityId e = texts.entityId e' := by
    have hea' : texts.entityId e = texts.entityId a := congrArg (fun i => i.2.2) hea
    have heb' : texts.entityId e' = texts.entityId b := congrArg (fun i => i.2.2) heb
    rw [hea', hid, heb']
  have heq : e = e' := List.inj_on_of_nodup_map (nodup_collapse entities) he he' hsame
  rw [← hea, ← heb, heq]

theorem windows_eq_filter {entities : List RiskEntity} (h : texts.Distinguished entities)
    {e : RiskEntity} (he : e ∈ texts.collapseRiskEntities entities) :
    texts.windows (texts.entityId e) entities =
      entities.filter fun w => decide (texts.identity w = texts.identity e) := by
  refine List.filter_congr fun w hw => decide_eq_decide.mpr ⟨fun hid => ?_, fun hid => ?_⟩
  · exact (identity_of_collapsed h he hw hid).symm
  · exact congrArg (fun i => i.2.2) hid

theorem templates_exact_iff {entities : List RiskEntity} {e : RiskEntity}
    (he : e ∈ texts.collapseRiskEntities entities) :
    Exact counted 10
        ((texts.windows (texts.entityId e) entities).map RiskEntity.topTemplates).flatten
        e.topTemplates ↔
      Keeps counted 10
        ((texts.windows (texts.entityId e) entities).map RiskEntity.topTemplates) := by
  rw [topTemplates_foldSome (foldSome_of_mem he)]
  apply exact_run_iff
  rw [Ne, List.map_eq_nil_iff]
  exact windows_ne_nil he

theorem correct_iff {entities : List RiskEntity} :
    texts.Correct entities ↔ texts.Distinguished entities ∧ texts.NothingForgotten entities := by
  constructor
  · rintro ⟨hidentities, htemplates⟩
    have hdistinguished := distinguished_of_identities hidentities
    refine ⟨hdistinguished, fun w hw => ?_⟩
    obtain ⟨e, he, hid⟩ := exists_collapsed hw
    rw [← hid]
    refine (templates_exact_iff he).mp ?_
    rw [windows_eq_filter hdistinguished he]
    exact htemplates e he
  · rintro ⟨hdistinguished, hforgotten⟩
    refine ⟨identities_of_distinguished hdistinguished, fun e he => ?_⟩
    rw [← windows_eq_filter hdistinguished he]
    refine (templates_exact_iff he).mpr ?_
    obtain ⟨w, hw⟩ := List.exists_mem_of_ne_nil _ (windows_ne_nil he)
    rw [← entityId_of_mem_windows hw]
    exact hforgotten w (List.mem_of_mem_filter hw)

/-- Exact results do not depend on the order. -/
theorem unordered_of_correct {entities supplied : List RiskEntity}
    (hperm : supplied.Perm entities) (hentities : texts.Correct entities)
    (hsupplied : texts.Correct supplied) {e e' : RiskEntity}
    (he : e ∈ texts.collapseRiskEntities entities)
    (he' : e' ∈ texts.collapseRiskEntities supplied) (hid : texts.identity e' = texts.identity e) :
    (e.topTemplates.map fun t => (templateIdentity t, t.count)).Perm
      (e'.topTemplates.map fun t => (templateIdentity t, t.count)) := by
  have hexact := hsupplied.templates e' he'
  rw [hid] at hexact
  exact Exact.perm counted (((hperm.symm.filter _).map _).flatten) (hentities.templates e he) hexact

/-! ## When collapsing is complete -/

end Texts

/-! ## A template that is cut off -/

def plainTexts : Texts where
  str := fun v => match v with
    | .str s => s
    | _ => ""
  str_text := fun _ => rfl

def templateOf (hash : String) (count : ℕ) (h : strip hash ≠ "") : Template :=
  ⟨hash, "", "", "kubelet", "node", count, "", "", .inl h⟩

def windowOf (templates : List Template) : RiskEntity where
  windowStart := ""
  windowEnd := ""
  riskScore := 60
  riskLevel := "high"
  topTemplates := templates
  affectedEntities := []
  attributes := (((∅ : Dict String Value).set "cluster" (.str "prod")).set "entity_type"
    (.str "node")).set "entity_id" (.str "node-1")

/-- A window with ten templates, each counted five times. -/
def crowded : RiskEntity := windowOf
  [templateOf "a" 5 (by decide), templateOf "b" 5 (by decide), templateOf "c" 5 (by decide),
    templateOf "d" 5 (by decide), templateOf "e" 5 (by decide), templateOf "f" 5 (by decide),
    templateOf "g" 5 (by decide), templateOf "h" 5 (by decide), templateOf "i" 5 (by decide),
    templateOf "j" 5 (by decide)]

/-- A window with one template more, counted four times. -/
def recurring : RiskEntity := windowOf [templateOf "x" 4 (by decide)]

end LogRisk.Jobs
