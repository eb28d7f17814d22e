import LogRisk.RiskSemantics.Extraction
import LogRisk.RiskSemantics.RuleStore

/-!
# Stored rules

What holds of the content of every version in every run: it has been validated, it is known by
the id of its row, and no mapping in it has a key twice.
-/

namespace LogRisk.RiskSemantics.Documents

open LogRisk.Library LogRisk.Library.Value LogRisk.Library.Transaction
open LogRisk.Library.Dict (assoc)

variable {host : Host} {now : String}

/-! ## No key twice -/

theorem distinctItems_iff {l : List Value} : DistinctItems l ↔ ∀ v ∈ l, Distinct v := by
  induction l with
  | nil => exact ⟨fun _ v hv => absurd hv List.not_mem_nil, fun _ => trivial⟩
  | cons v rest ih =>
      rw [List.forall_mem_cons, ← ih]
      exact Iff.rfl

theorem distinct_pairOf {v : Value} {e : String × Value} (hv : Distinct v)
    (h : pairOf host v = .ok e) : Distinct e.2 := by
  unfold pairOf at h
  split at h
  · rename_i key value
    obtain ⟨k, -, h⟩ := bind_eq_ok.mp h
    cases pure_eq_ok.mp h
    exact hv.2.1
  · split at h
    · cases pure_eq_ok.mp h
      exact trivial
    · cases h
  · cases pure_eq_ok.mp h
    exact trivial
  · cases h

theorem distinct_toDict {v : Value} {d : Entries} (hv : Distinct v) (h : toDict host v = .ok d) :
    DistinctEntries d := by
  unfold toDict at h
  split at h
  · cases pure_eq_ok.mp h
    exact hv
  · rename_i l
    obtain ⟨pairs, hpairs, h⟩ := bind_eq_ok.mp h
    cases pure_eq_ok.mp h
    refine DistinctEntries.update trivial fun e he => ?_
    obtain ⟨v, hzip, hv'⟩ := exists_of_mem_results (mapM_eq_ok.mp hpairs) he
    exact distinct_pairOf (distinctItems_iff.mp hv v (List.of_mem_zip hzip).1) hv'
  · split at h
    · cases pure_eq_ok.mp h
      exact trivial
    · cases h
  · cases h

theorem distinct_orElse {o : Option Value} {fallback : Value} (ho : ∀ v, o = some v → Distinct v)
    (hfallback : Distinct fallback) : Distinct (orElse o fallback) := by
  unfold orElse
  split
  · split
    · exact ho _ rfl
    · exact hfallback
  · exact hfallback

theorem distinct_normalizer {e : String × Normalizer} (he : e ∈ normalizers host)
    {o : Option Value} {w : Value} (ho : ∀ v, o = some v → Distinct v) (h : e.2 o = .ok w) :
    Distinct w := by
  have hdict : ∀ {w : Value}, normalDict host o = .ok w → Distinct w := by
    intro w hw
    obtain ⟨d, hd, hw⟩ := bind_eq_ok.mp hw
    cases pure_eq_ok.mp hw
    have hempty : Distinct (.dict []) := trivial
    exact distinct_toDict (distinct_orElse ho hempty) hd
  have hint : ∀ {fallback : ℤ} {w : Value}, normalInt host fallback o = .ok w → Distinct w := by
    intro fallback w hw
    obtain ⟨n, -, hw⟩ := bind_eq_ok.mp hw
    cases pure_eq_ok.mp hw
    exact trivial
  simp only [normalizers, List.mem_cons, List.not_mem_nil, or_false] at he
  rcases he with rfl | rfl | rfl | rfl | rfl | rfl | rfl | rfl | rfl | rfl
  · cases pure_eq_ok.mp h
    exact trivial
  · exact hint h
  · cases pure_eq_ok.mp h
    exact trivial
  · cases pure_eq_ok.mp h
    cases o with
    | none => exact trivial
    | some v => exact ho v rfl
  · exact hdict h
  · exact hdict h
  · exact hdict h
  · exact hdict h
  · obtain ⟨tags, -, hw⟩ := bind_eq_ok.mp h
    cases pure_eq_ok.mp hw
    refine distinctItems_iff.mpr fun v hv => ?_
    obtain ⟨s, -, rfl⟩ := List.mem_map.mp hv
    exact trivial
  · exact hint h

theorem distinct_validated {rule added : Entries} (hrule : DistinctEntries rule)
    (h : additions host rule = .ok added) : DistinctEntries (update rule added) := by
  refine hrule.update fun f hf => ?_
  obtain ⟨filled, rfl, hfilled⟩ := additions_ok h
  rcases List.mem_append.mp hf with horigin | hf
  · simp only [origin, List.mem_cons, List.not_mem_nil, or_false] at horigin
    rcases horigin with rfl | rfl | rfl
    · exact trivial
    · exact trivial
    · exact trivial
  · obtain ⟨e, hzip, hmember⟩ := exists_of_mem_results hfilled hf
    obtain ⟨w, hw, rfl⟩ := normalMember_ok.mp hmember
    exact distinct_normalizer (List.of_mem_zip hzip).1 (fun v hv => hrule.value hv) hw

/-! ## Checks of the body -/

/-- The checks of a rule that do not look at where it comes from. -/
structure CheckedBody (host : Host) (rule : Entries) : Prop where
  names : checkNames host rule = .ok ()
  patterns : checkPatterns host rule = .ok ()
  classification : checkClassification host rule = .ok ()
  dedup : checkDedup host rule = .ok ()

theorem checkRule_eq_ok {rule : Entries} :
    checkRule host rule = .ok () ↔ CheckedBody host rule ∧ checkOrigin host rule = .ok () := by
  rw [checkRule_ok]
  constructor
  · rintro ⟨hnames, horigin, hpatterns, hclass, hdedup⟩
    exact ⟨⟨hnames, hpatterns, hclass, hdedup⟩, horigin⟩
  · rintro ⟨⟨hnames, hpatterns, hclass, hdedup⟩, horigin⟩
    exact ⟨hnames, horigin, hpatterns, hclass, hdedup⟩

def bodyKeys : List String :=
  ["id", "display_name", "domain", "category", "risk_type", "match", "classification", "dedup"]

theorem notWritten_of_body {k : String} (hk : k ∈ bodyKeys) : k ∉ writtenKeys := by
  simp only [bodyKeys, List.mem_cons, List.not_mem_nil, or_false] at hk
  rcases hk with rfl | rfl | rfl | rfl | rfl | rfl | rfl | rfl
  all_goals simp [writtenKeys]

theorem textOf_congr {key fallback : String} {rule rule' : Entries}
    (h : assoc key rule = assoc key rule') :
    textOf host key fallback rule = textOf host key fallback rule' := by
  unfold textOf
  rw [h]

theorem ruleId_congr {rule rule' : Entries} (h : assoc "id" rule = assoc "id" rule') :
    ruleId rule = ruleId rule' := by
  unfold ruleId textAt
  rw [h]

/-- The checks read the members of the body only. -/
theorem CheckedBody.congr {rule rule' : Entries} (h : ∀ k ∈ bodyKeys, assoc k rule = assoc k rule')
    (hrule : CheckedBody host rule) : CheckedBody host rule' := by
  obtain ⟨hnames, hpatterns, hclass, hdedup⟩ := hrule
  refine ⟨?_, ?_, ?_, ?_⟩
  · rw [checkNames_ok] at hnames ⊢
    have hname : ∀ field ∈ requiredNames,
        textOf host field "" rule = textOf host field "" rule' := by
      intro field hfield
      refine textOf_congr (h field ?_)
      simp only [requiredNames, bodyKeys, List.mem_cons, List.not_mem_nil, or_false] at hfield ⊢
      tauto
    rw [ruleId_congr (h "id" (by simp [bodyKeys])),
      hname "risk_type" (by simp [requiredNames])] at hnames
    exact ⟨hnames.1, fun field hfield => hname field hfield ▸ hnames.2.1 field hfield, hnames.2.2⟩
  · unfold checkPatterns at hpatterns ⊢
    rwa [patternsOf, h "match" (by simp [bodyKeys])] at hpatterns
  · unfold checkClassification at hclass ⊢
    rwa [h "classification" (by simp [bodyKeys])] at hclass
  · unfold checkDedup at hdedup ⊢
    rwa [h "dedup" (by simp [bodyKeys])] at hdedup

/-! ## Contents of versions -/

structure Stored (host : Host) (id : String) (c : Entries) : Prop where
  distinct : DistinctEntries c
  named : assoc "id" c = some (.str id)
  body : CheckedBody host c
  schema : assoc "schema_version" c = some (.str "risk_semantic_rule_v1")
  sourced : ∃ s ∈ sources, assoc "source" c = some (.str s)
  normal : Normal host c

theorem ruleId_of_named {id : String} {c : Entries} (h : assoc "id" c = some (.str id)) :
    ruleId c = id := by
  unfold ruleId textAt
  rw [h]

theorem named_of_names {rule : Entries} (h : checkNames host rule = .ok ()) :
    assoc "id" rule = some (.str (ruleId rule)) := by
  have hid := (checkNames_ok.mp h).1
  unfold ruleId textAt at hid ⊢
  split at hid
  · rename_i s hs
    rw [hs]
  · cases hid

theorem stored_of_validated (raw : Value) {c : Entries} (hraw : Distinct raw)
    (h : validateRule host raw = .ok c) : Stored host (ruleId c) c := by
  obtain ⟨rule, added, rfl, hcheck, hadded, rfl⟩ := validateRule_ok h
  obtain ⟨hbody, horigin⟩ := checkRule_eq_ok.mp hcheck
  have hsame : ∀ k ∈ bodyKeys, assoc k rule = assoc k (update rule added) := fun k hk =>
    (assoc_validated_other hadded (notWritten_of_body hk)).symm
  have hbody' := hbody.congr hsame
  refine ⟨distinct_validated hraw hadded, named_of_names hbody'.names, hbody', ?_, ?_,
    normal_validated hadded⟩
  · exact assoc_validated_origin hadded (f := ("schema_version", .str "risk_semantic_rule_v1"))
      (by simp [origin])
  · refine ⟨sourceOf host rule, ?_, ?_⟩
    · unfold checkOrigin at horigin
      exact demand_eq_ok.mp (check_bind_eq_ok.mp horigin).1
    · exact assoc_validated_origin hadded (f := ("source", .str (sourceOf host rule)))
        (by simp [origin])

/-! ## The store -/

structure Sound (host : Host) (db : Db) : Prop where
  versions : ∀ id v c, db.versions id v = some c → Stored host id c
  current : ∀ id row, db.rules.get? id = some row →
    db.versions id row.currentVersion = some row.content
  sourced : ∀ id row, db.rules.get? id = some row → row.source ∈ sources
  positive : ∀ id row, db.rules.get? id = some row → 1 ≤ row.currentVersion

variable {db db' : Db} {id : String}

theorem Sound.content (h : Sound host db) {row : Row} (hrow : db.rules.get? id = some row) :
    Stored host id row.content := h.versions id _ _ (h.current id row hrow)

variable (db) in
theorem get?_write (row : Row) (id' : String) :
    (db.write id row).rules.get? id' = if id = id' then some row else db.rules.get? id' :=
  Dict.get?_set ..

theorem Sound.write (h : Sound host db) {row : Row} (hstored : Stored host id row.content)
    (hsource : row.source ∈ sources) (hpositive : 1 ≤ row.currentVersion) :
    Sound host (db.write id row) := by
  have hrow : ∀ id' row', (db.write id row).rules.get? id' = some row' →
      (id' = id ∧ row' = row) ∨ id' ≠ id ∧ db.rules.get? id' = some row' := by
    intro id' row' hget
    rw [get?_write] at hget
    split at hget
    · rename_i heq
      exact .inl ⟨heq.symm, (Option.some.inj hget).symm⟩
    · rename_i hne
      exact .inr ⟨Ne.symm hne, hget⟩
  refine ⟨fun id' v c hc => ?_, fun id' row' hget => ?_, fun id' row' hget => ?_,
    fun id' row' hget => ?_⟩
  · simp only [Db.write] at hc
    split at hc
    · rename_i heq
      rw [heq.1, ← Option.some.inj hc]
      exact hstored
    · exact h.versions id' v c hc
  · rcases hrow id' row' hget with ⟨rfl, rfl⟩ | ⟨hne, hold⟩
    · simp [Db.write]
    · simp only [Db.write]
      rw [if_neg fun heq => hne heq.1]
      exact h.current id' row' hold
  · rcases hrow id' row' hget with ⟨rfl, rfl⟩ | ⟨-, hold⟩
    · exact hsource
    · exact h.sourced id' row' hold
  · rcases hrow id' row' hget with ⟨rfl, rfl⟩ | ⟨-, hold⟩
    · exact hpositive
    · exact h.positive id' row' hold

/-- A row whose content, version and source stay. -/
theorem Sound.setRow (h : Sound host db) {row row' : Row} (hrow : db.rules.get? id = some row)
    (hcontent : row'.content = row.content) (hversion : row'.currentVersion = row.currentVersion)
    (hsource : row'.source = row.source) : Sound host (db.setRow id row') := by
  have hcases : ∀ id' new, (db.setRow id row').rules.get? id' = some new →
      ∃ old, db.rules.get? id' = some old ∧ new.content = old.content ∧
        new.currentVersion = old.currentVersion ∧ new.source = old.source := by
    intro id' new hget
    have hset : (db.setRow id row').rules.get? id' = if id = id' then some row' else
        db.rules.get? id' := Dict.get?_set ..
    rw [hset] at hget
    split at hget
    · rename_i heq
      subst heq
      rw [← Option.some.inj hget]
      exact ⟨row, hrow, hcontent, hversion, hsource⟩
    · exact ⟨new, hget, rfl, rfl, rfl⟩
  refine ⟨h.versions, fun id' new hget => ?_, fun id' new hget => ?_, fun id' new hget => ?_⟩
  · obtain ⟨old, hold, hc, hv, -⟩ := hcases id' new hget
    rw [hc, hv]
    exact h.current id' old hold
  · obtain ⟨old, hold, -, -, hs⟩ := hcases id' new hget
    rw [hs]
    exact h.sourced id' old hold
  · obtain ⟨old, hold, -, hv, -⟩ := hcases id' new hget
    rw [hv]
    exact h.positive id' old hold

theorem getRow_eq_ok {row : Row} : db.getRow id = .ok row ↔ db.rules.get? id = some row :=
  orFail_eq_ok

theorem distinct_optional (o : Option String) : Distinct (optional o) := by
  cases o with
  | none => exact trivial
  | some s => exact trivial

theorem Stored.distinct_rule {row : Row} (h : Stored host id row.content) :
    DistinctEntries (row.rule id) := by
  refine h.distinct.update fun e he => ?_
  simp only [Row.columns, List.mem_cons, List.not_mem_nil, or_false] at he
  rcases he with rfl | rfl | rfl | rfl | rfl | rfl | rfl | rfl | rfl
  · exact trivial
  · exact trivial
  · exact distinct_optional _
  · exact trivial
  · exact trivial
  · exact trivial
  · exact trivial
  · exact trivial
  · exact trivial

theorem textAt_source {c : Entries} (h : ∃ s ∈ sources, assoc "source" c = some (.str s)) :
    textAt "source" c ∈ sources := by
  obtain ⟨s, hs, hsource⟩ := h
  unfold textAt
  rw [hsource]
  exact hs

theorem insert_ok {rule : Entries} (h : insert host now rule db = .ok db') :
    ∃ snapshot overrideOf, validateRule host (.dict rule) = .ok snapshot ∧
      db.rules.get? (ruleId snapshot) = none ∧
      db.reference (ruleId snapshot) snapshot = .ok overrideOf ∧
      db' = db.write (ruleId snapshot) (.inserted host now overrideOf snapshot) := by
  unfold insert at h
  obtain ⟨snapshot, hvalid, h⟩ := bind_eq_ok.mp h
  obtain ⟨hnew, h⟩ := require_bind_eq_ok.mp h
  obtain ⟨overrideOf, hreference, h⟩ := bind_eq_ok.mp h
  exact ⟨snapshot, overrideOf, hvalid, Option.isNone_iff_eq_none.mp hnew, hreference,
    (pure_eq_ok.mp h).symm⟩

theorem Sound.insert (hsound : Sound host db) {rule : Entries} (hrule : DistinctEntries rule)
    (h : insert host now rule db = .ok db') : Sound host db' := by
  obtain ⟨snapshot, overrideOf, hvalid, -, -, rfl⟩ := insert_ok h
  have hstored := stored_of_validated (.dict rule) hrule hvalid
  exact hsound.write hstored (textAt_source hstored.sourced) (le_refl _)

theorem updateRule_ok {changes : Entries} {expected : ℤ}
    (h : updateRule host now id changes expected db = .ok db') :
    ∃ row updated, db.rules.get? id = some row ∧ row.source ≠ "builtin" ∧
      row.currentVersion = expected ∧ validateRule host (.dict (draft row id changes)) = .ok updated ∧
      db' = db.write id (row.updated host now (row.currentVersion + 1) updated) := by
  unfold updateRule at h
  obtain ⟨row, hrow, h⟩ := bind_eq_ok.mp h
  obtain ⟨hsource, h⟩ := require_bind_eq_ok.mp h
  obtain ⟨hversion, h⟩ := require_bind_eq_ok.mp h
  obtain ⟨updated, hvalid, h⟩ := bind_eq_ok.mp h
  exact ⟨row, updated, getRow_eq_ok.mp hrow, hsource, hversion, hvalid, (pure_eq_ok.mp h).symm⟩

/-- Validation keeps the id. -/
theorem assoc_id_validated {rule c : Entries} (h : validateRule host (.dict rule) = .ok c) :
    assoc "id" c = assoc "id" rule := by
  obtain ⟨rule', added, heq, -, hadded, rfl⟩ := validateRule_ok h
  cases heq
  exact assoc_validated_other hadded (by simp [writtenKeys])

theorem assoc_update_nodup {base changes : Entries} {k : String} {v : Value}
    (hnodup : (changes.map Prod.fst).Nodup) (h : (k, v) ∈ changes) :
    assoc k (update base changes) = some v := by
  rw [assoc_update hnodup, (Dict.assoc_eq_some hnodup).mpr h]
  rfl

theorem assoc_update_other {base changes : Entries} {k : String}
    (hnodup : (changes.map Prod.fst).Nodup) (hk : k ∉ changes.map Prod.fst) :
    assoc k (update base changes) = assoc k base := by
  rw [assoc_update hnodup, Dict.assoc_eq_none.mpr hk]
  rfl

theorem nodup_columns (row : Row) (id : String) : ((row.columns id).map Prod.fst).Nodup := by
  simp [Row.columns]

theorem assoc_rule_source (row : Row) (id : String) :
    assoc "source" (row.rule id) = some (.str row.source) :=
  assoc_update_nodup (nodup_columns row id) (by simp [Row.columns])

theorem assoc_rule_other {row : Row} {k : String} (hk : k ∉ (row.columns id).map Prod.fst) :
    assoc k (row.rule id) = assoc k row.content :=
  assoc_update_other (nodup_columns row id) hk

theorem sourceOf_of_some {rule : Entries} {s : String} (h : assoc "source" rule = some (.str s))
    (hs : s ∈ sources) : sourceOf host rule = s := by
  have hnonempty : s.isEmpty = false := by
    simp only [sources, List.mem_cons, List.not_mem_nil, or_false] at hs
    rcases hs with rfl | rfl | rfl | rfl
    all_goals decide
  unfold sourceOf textOf
  rw [h, orElse_some, if_pos (by simp [truthy, hnonempty])]
  rfl

variable (host) in
theorem writtenKeys_cases {k : String} (hk : k ∈ writtenKeys) :
    k = "schema_version" ∨ k = "source" ∨ k = "status" ∨ ∃ e ∈ normalizers host, e.1 = k := by
  simp only [writtenKeys, List.mem_cons, List.not_mem_nil, or_false] at hk
  simp only [normalizers, List.mem_cons, List.not_mem_nil, or_false, exists_eq_or_imp]
  tauto

theorem nodup_draftKeys (id : String) (version : ℤ) : (List.map Prod.fst
    ([("id", .str id), ("version", .int version), ("status", .str "draft")] : Entries)).Nodup := by
  simp

theorem assoc_draft_id (row : Row) (id : String) (changes : Entries) :
    assoc "id" (draft row id changes) = some (.str id) :=
  assoc_update_nodup (nodup_draftKeys _ _) (by simp)

theorem distinct_draft {row : Row} {changes : Entries} (hrow : Stored host id row.content)
    (hchanges : DistinctEntries changes) : DistinctEntries (draft row id changes) := by
  refine DistinctEntries.update (DistinctEntries.merge hchanges hrow.distinct_rule) fun e he => ?_
  simp only [List.mem_cons, List.not_mem_nil, or_false] at he
  rcases he with rfl | rfl | rfl
  · exact trivial
  · exact trivial
  · exact trivial

theorem Sound.updateRule (hsound : Sound host db) {changes : Entries} {expected : ℤ}
    (hchanges : DistinctEntries changes)
    (h : updateRule host now id changes expected db = .ok db') : Sound host db' := by
  obtain ⟨row, updated, hrow, -, -, hvalid, rfl⟩ := updateRule_ok h
  have hstored := stored_of_validated (.dict (draft row id changes))
    (distinct_draft (hsound.content hrow) hchanges) hvalid
  have hid : ruleId updated = id := by
    refine ruleId_of_named ?_
    rw [assoc_id_validated hvalid, assoc_draft_id]
  rw [hid] at hstored
  refine hsound.write hstored (hsound.sourced id row hrow) ?_
  have hpositive := hsound.positive id row hrow
  simp only [Row.updated]
  omega

theorem distinct_restoration {row : Row} {target : Entries} (h : DistinctEntries target) :
    DistinctEntries (restoration row id target) := by
  refine h.update fun e he => ?_
  simp only [List.mem_cons, List.not_mem_nil, or_false] at he
  rcases he with rfl | rfl | rfl
  · exact trivial
  · exact trivial
  · exact trivial

theorem rollback_ok {target expected : ℤ} {confirmed : Bool}
    (h : rollback host now id target expected confirmed db = .ok db') :
    ∃ row content, db.rules.get? id = some row ∧ row.currentVersion = expected ∧
      db.versions id target = some content ∧
      updateRule host now id (restoration row id content) row.currentVersion db = .ok db' := by
  unfold rollback at h
  obtain ⟨-, h⟩ := require_bind_eq_ok.mp h
  obtain ⟨row, hrow, h⟩ := bind_eq_ok.mp h
  obtain ⟨hversion, h⟩ := require_bind_eq_ok.mp h
  obtain ⟨content, hcontent, h⟩ := bind_eq_ok.mp h
  exact ⟨row, content, getRow_eq_ok.mp hrow, hversion, orFail_eq_ok.mp hcontent, h⟩

theorem Sound.rollback (hsound : Sound host db) {target expected : ℤ} {confirmed : Bool}
    (h : rollback host now id target expected confirmed db = .ok db') : Sound host db' := by
  obtain ⟨row, content, -, -, hcontent, h⟩ := rollback_ok h
  exact hsound.updateRule (distinct_restoration (hsound.versions id target content hcontent).distinct) h

variable (host now) in
theorem importItems_cases (item : Value) (rest : List Value) (db : Db) :
    (∃ db', importItem host now item db = .ok db' ∧
        importItems host now (item :: rest) db = importItems host now rest db') ∨
      ∃ e, importItem host now item db = .error e ∧
        importItems host now (item :: rest) db = (db, some e) := by
  rw [importItems]
  cases importItem host now item db with
  | ok db' => exact .inl ⟨db', rfl, rfl⟩
  | error e => exact .inr ⟨e, rfl, rfl⟩

theorem DistinctEntries.filter {d : Entries} (h : DistinctEntries d) (p : String × Value → Bool) :
    DistinctEntries (d.filter p) := by
  induction d with
  | nil => exact trivial
  | cons e rest ih =>
      rw [List.filter_cons]
      split
      · refine ⟨fun hmem => h.1 ?_, h.2.1, ih h.2.2⟩
        exact (List.filter_sublist.map Prod.fst).subset hmem
      · exact ih h.2.2

theorem importItem_ok {item : Value} (h : importItem host now item db = .ok db') :
    ∃ rule, importedRule host item = .ok rule ∧ insert host now rule db = .ok db' := by
  unfold importItem at h
  exact bind_eq_ok.mp h

theorem distinct_importedRule {item : Value} {rule : Entries} (hitem : Distinct item)
    (h : importedRule host item = .ok rule) : DistinctEntries rule := by
  unfold importedRule at h
  obtain ⟨d, hd, h⟩ := bind_eq_ok.mp h
  cases pure_eq_ok.mp h
  refine DistinctEntries.filter ((distinct_toDict hitem hd).update fun e he => ?_) _
  simp only [List.mem_cons, List.not_mem_nil, or_false] at he
  rcases he with rfl | rfl | rfl
  · exact trivial
  · exact trivial
  · exact trivial

theorem Sound.importItems (hsound : Sound host db) {l : List Value} (hl : DistinctItems l) :
    Sound host (importItems host now l db).1 := by
  induction l generalizing db with
  | nil => exact hsound
  | cons item rest ih =>
      rcases importItems_cases host now item rest db with
        ⟨db', hitem, heq⟩ | ⟨e, hitem, heq⟩
      · rw [heq]
        obtain ⟨rule, hrule, hinsert⟩ := importItem_ok hitem
        exact ih (hsound.insert (distinct_importedRule hl.1 hrule) hinsert) hl.2
      · rw [heq]
        exact hsound

theorem distinct_bundleRules {payload : Value} {l : List Value} (hpayload : Distinct payload)
    (h : bundleRules payload = some l) : DistinctItems l := by
  unfold bundleRules at h
  split at h
  · rename_i d
    split at h
    · rename_i l' hl
      cases h
      exact DistinctEntries.value (d := d) hpayload hl
    · cases h
  · cases h

theorem Sound.importBundle (hsound : Sound host db) {payload : Value} (hpayload : Distinct payload) :
    Sound host (importBundle host now payload db).1 := by
  unfold Documents.importBundle
  split
  · rename_i l hl
    exact hsound.importItems (distinct_bundleRules hpayload hl)
  · exact hsound

/-! ## Runs -/

/-- A snapshot of the catalogue differs from the rule in its version and its status. -/
theorem assoc_seedSnapshot {rule : Entries} {version : ℤ} {k : String} (hversion : k ≠ "version")
    (hstatus : k ≠ "status") (henabled : k ≠ "enabled") :
    assoc k (seedSnapshot rule version) = assoc k rule := by
  unfold seedSnapshot seedContent
  rw [assoc_update (by simp), assoc_update (by simp)]
  simp [assoc, Ne.symm hversion, Ne.symm hstatus, Ne.symm henabled]

theorem stored_seedSnapshot {rule : Entries} (h : Stored host id rule) {version : ℤ}
    (hversion : 1 ≤ version) : Stored host id (seedSnapshot rule version) := by
  have hbody : ∀ k ∈ bodyKeys, assoc k rule = assoc k (seedSnapshot rule version) := by
    intro k hk
    have hnot := notWritten_of_body hk
    simp only [writtenKeys, List.mem_cons, List.not_mem_nil, or_false, not_or] at hnot
    exact (assoc_seedSnapshot hnot.2.2.2.2.1 hnot.2.2.1 hnot.2.2.2.1).symm
  refine ⟨?_, ?_, h.body.congr hbody, ?_, ?_, ?_⟩
  · refine DistinctEntries.update (DistinctEntries.update h.distinct fun e he => ?_) fun e he => ?_
    · simp only [List.mem_cons, List.not_mem_nil, or_false] at he
      rcases he with rfl | rfl
      · exact trivial
      · exact trivial
    · rw [List.mem_singleton.mp he]
      exact trivial
  · rw [← hbody "id" (by simp [bodyKeys])]
    exact h.named
  · rw [assoc_seedSnapshot (by simp) (by simp) (by simp)]
    exact h.schema
  · rw [assoc_seedSnapshot (by simp) (by simp) (by simp)]
    exact h.sourced
  · intro e he
    by_cases hkey : e.1 = "version" ∨ e.1 = "enabled"
    · have hcase : e = ("enabled", normalBool) ∨ e = ("version", normalInt host 1) := by
        simp only [normalizers, List.mem_cons, List.not_mem_nil, or_false] at he
        rcases he with rfl | rfl | rfl | rfl | rfl | rfl | rfl | rfl | rfl | rfl
        · exact .inl rfl
        · exact .inr rfl
        all_goals simp at hkey
      rcases hcase with rfl | rfl
      · refine ⟨some (.bool true), .bool true, rfl, ?_⟩
        unfold seedSnapshot seedContent
        rw [assoc_update (by simp), assoc_update (by simp)]
        rfl
      · refine ⟨some (.int version), .int version, ?_, ?_⟩
        · show normalInt host 1 (some (.int version)) = _
          unfold normalInt
          rw [orElse, if_pos (by simp [truthy]; omega)]
          rfl
        · unfold seedSnapshot
          rw [assoc_update (by simp)]
          rfl
    · have hstatus : e.1 ≠ "status" := by
        simp only [normalizers, List.mem_cons, List.not_mem_nil, or_false] at he
        rcases he with rfl | rfl | rfl | rfl | rfl | rfl | rfl | rfl | rfl | rfl
        all_goals simp
      obtain ⟨o, w, hw, hsome⟩ := h.normal e he
      refine ⟨o, w, hw, ?_⟩
      rw [assoc_seedSnapshot (fun heq => hkey (.inl heq)) hstatus fun heq => hkey (.inr heq)]
      exact hsome

theorem Sound.seedBuiltin (hsound : Sound host db) {rule : Entries}
    (hrule : Stored host (ruleId rule) rule) : Sound host (seedBuiltin host now db rule) := by
  unfold Documents.seedBuiltin
  split
  · exact hsound.write (stored_seedSnapshot hrule (le_refl 1)) (by simp [Row.seeded, sources])
      (le_refl _)
  · rename_i row hrow
    split
    · exact hsound
    · have hpositive := hsound.positive _ row hrow
      refine hsound.write (stored_seedSnapshot hrule ?_) (hsound.sourced _ row hrow) ?_
      · omega
      · simp only [Row.reseeded]
        omega

theorem Sound.seedBuiltins (hsound : Sound host db) {rules : List Entries}
    (hrules : ∀ rule ∈ rules, ∃ raw, Distinct raw ∧ validateRule host raw = .ok rule) :
    Sound host (seedBuiltins host now rules db) := by
  unfold Documents.seedBuiltins
  induction rules generalizing db with
  | nil => exact hsound
  | cons rule rest ih =>
      obtain ⟨raw, hraw, hvalid⟩ := hrules rule List.mem_cons_self
      exact ih (hsound.seedBuiltin (stored_of_validated _ hraw hvalid))
        fun r hr => hrules r (List.mem_cons_of_mem rule hr)

theorem Sound.createRule (hsound : Sound host db) {payload : Entries}
    (hpayload : DistinctEntries payload) (h : createRule host now payload db = .ok db') :
    Sound host db' := by
  refine hsound.insert (hpayload.update fun e he => ?_) h
  simp only [List.mem_cons, List.not_mem_nil, or_false] at he
  rcases he with rfl | rfl | rfl | rfl
  · exact trivial
  · exact trivial
  · exact trivial
  · exact trivial

theorem Sound.createOverride (hsound : Sound host db) {builtinId : String} {changes : Entries}
    (hchanges : DistinctEntries changes)
    (h : createOverride host now builtinId changes db = .ok db') : Sound host db' := by
  unfold Documents.createOverride at h
  obtain ⟨builtin, hbuiltin, h⟩ := bind_eq_ok.mp h
  obtain ⟨-, h⟩ := require_bind_eq_ok.mp h
  have hstored := hsound.content (getRow_eq_ok.mp hbuiltin)
  refine hsound.insert (DistinctEntries.update
    (DistinctEntries.merge hchanges hstored.distinct_rule) fun e he => ?_) h
  simp only [List.mem_cons, List.not_mem_nil, or_false] at he
  rcases he with rfl | rfl | rfl | rfl | rfl | rfl
  · exact trivial
  · exact trivial
  · exact trivial
  · exact trivial
  · exact trivial
  · exact trivial

/-- Publishing and disabling write a row with the content, the version and the source it had. -/
theorem Sound.publish (hsound : Sound host db) {expected : ℤ} {confirmed : Bool}
    (h : publish host now id expected confirmed db = .ok db') : Sound host db' := by
  unfold Documents.publish at h
  obtain ⟨-, h⟩ := require_bind_eq_ok.mp h
  obtain ⟨row, hrow, h⟩ := bind_eq_ok.mp h
  obtain ⟨-, h⟩ := require_bind_eq_ok.mp h
  obtain ⟨_, -, h⟩ := bind_eq_ok.mp h
  obtain ⟨_, -, h⟩ := bind_eq_ok.mp h
  obtain ⟨-, h⟩ := require_bind_eq_ok.mp h
  cases pure_eq_ok.mp h
  exact hsound.setRow (getRow_eq_ok.mp hrow) rfl rfl rfl

theorem Sound.disable (hsound : Sound host db) {expected : ℤ} {confirmed : Bool}
    (h : disable now id expected confirmed db = .ok db') : Sound host db' := by
  unfold Documents.disable at h
  obtain ⟨-, h⟩ := require_bind_eq_ok.mp h
  obtain ⟨row, hrow, h⟩ := bind_eq_ok.mp h
  obtain ⟨-, h⟩ := require_bind_eq_ok.mp h
  obtain ⟨-, h⟩ := require_bind_eq_ok.mp h
  cases pure_eq_ok.mp h
  exact hsound.setRow (getRow_eq_ok.mp hrow) rfl rfl rfl

theorem Sound.restoreDefault (hsound : Sound host db) {builtinId : String} {expected : ℤ}
    {confirmed : Bool} (h : restoreDefault now builtinId expected confirmed db = .ok db') :
    Sound host db' := by
  unfold Documents.restoreDefault at h
  obtain ⟨-, h⟩ := require_bind_eq_ok.mp h
  obtain ⟨⟨id, row⟩, hrow, h⟩ := bind_eq_ok.mp h
  obtain ⟨-, h⟩ := require_bind_eq_ok.mp h
  cases pure_eq_ok.mp h
  have hmem := List.mem_of_find?_eq_some (orFail_eq_ok.mp hrow)
  exact hsound.setRow (Dict.get?_eq_some.mpr hmem) rfl rfl rfl

theorem delete_ne_ok {confirmed : Bool} {operator reason : String} :
    delete id confirmed operator reason db ≠ .ok db' := by
  intro h
  unfold Documents.delete at h
  obtain ⟨_, -, h⟩ := bind_eq_ok.mp h
  obtain ⟨-, h⟩ := require_bind_eq_ok.mp h
  obtain ⟨-, h⟩ := require_bind_eq_ok.mp h
  cases h

theorem sound_committed (hsound : Sound host db) {outcome : Except Failure Db}
    (h : ∀ db', outcome = .ok db' → Sound host db') : Sound host (committed db outcome) := by
  unfold committed
  split
  · exact h _ rfl
  · exact hsound

/-- Every request keeps what is stored sound. -/
theorem Sound.handle (hsound : Sound host db) {request : Request}
    (hrequest : request.WellFormed host) : Sound host (handle host now db request) := by
  cases request with
  | createRule payload => exact sound_committed hsound fun _ h => hsound.createRule hrequest h
  | createOverride builtinId changes =>
      exact sound_committed hsound fun _ h => hsound.createOverride hrequest h
  | updateRule id changes expected =>
      exact sound_committed hsound fun _ h => hsound.updateRule hrequest h
  | publish id expected confirmed => exact sound_committed hsound fun _ h => hsound.publish h
  | restoreDefault builtinId expected confirmed =>
      exact sound_committed hsound fun _ h => hsound.restoreDefault h
  | rollback id target expected confirmed =>
      exact sound_committed hsound fun _ h => hsound.rollback h
  | disable id expected confirmed => exact sound_committed hsound fun _ h => hsound.disable h
  | delete id confirmed operator reason =>
      exact sound_committed hsound fun _ h => absurd h delete_ne_ok
  | importBundle payload => exact hsound.importBundle hrequest
  | seedBuiltins rules => exact hsound.seedBuiltins hrequest

theorem sound_empty : Sound host {} where
  versions := fun _ _ _ h => nomatch h
  current := fun _ _ h => nomatch h
  sourced := fun _ _ h => nomatch h
  positive := fun _ _ h => nomatch h

theorem sound_of_reachable (h : (service host).Reachable db) : Sound host db := by
  refine h.invariant ?_ ?_
  · rintro db rfl
    exact sound_empty
  · rintro db _ hsound ⟨now, request, hrequest, rfl⟩
    exact hsound.handle hrequest

/-! ## A store with one rule -/

theorem distinct_codeRule : DistinctEntries codeRule := by
  simp [codeRule, DistinctEntries, Distinct, DistinctItems]

def codeDb : Db := handle wordHost "t1" {} (.createRule codeRule)

theorem reachable_codeDb : (service wordHost).Reachable codeDb := by
  have hstart : (service wordHost).Reachable {} := .init rfl
  exact hstart.step ⟨"t1", .createRule codeRule, distinct_codeRule, rfl⟩

end LogRisk.RiskSemantics.Documents
