import LogRisk.RiskSemantics.Soundness

/-!
# Transfer of bundles

An import inserts one rule after the other.  `Accepts` says which items it inserts, from the ids
that are known when it comes to them: it is what a round trip through a bundle and the effect
of an import that fails depend on.
-/

namespace LogRisk.RiskSemantics.Documents

open LogRisk.Library LogRisk.Library.Value LogRisk.Library.Transaction
open LogRisk.Library.Dict (assoc)

variable {host : Host} {now : String} {db db' : Db} {id : String}

/-! ## Items that are accepted -/

/-- The rule that a snapshot overrides, if any, is itself or one that is known. -/
def Refers (known : String → Prop) (id : String) (snapshot : Entries) : Prop :=
  match assoc "override_of" snapshot with
  | none => True
  | some .null => True
  | some (.str s) => s = id ∨ known s
  | some _ => False

/-- An item that validation accepts as `snapshot`, under a new id. -/
structure Accepts (host : Host) (known : String → Prop) (item : Value) (snapshot : Entries) :
    Prop where
  valid : ∃ rule, importedRule host item = .ok rule ∧ validateRule host (.dict rule) = .ok snapshot
  fresh : ¬ known (ruleId snapshot)
  refers : Refers known (ruleId snapshot) snapshot

/-- All items are accepted, each with the ids of those before it known. -/
def AllAccepted (host : Host) : (String → Prop) → List Value → Prop
  | _, [] => True
  | known, item :: rest => ∃ snapshot, Accepts host known item snapshot ∧
      AllAccepted host (fun s => s = ruleId snapshot ∨ known s) rest

def Db.Knows (db : Db) (s : String) : Prop := (db.rules.get? s).isSome

variable (db) in
theorem knows_write (row : Row) (s : String) :
    (db.write id row).Knows s ↔ s = id ∨ db.Knows s := by
  unfold Db.Knows
  rw [get?_write]
  split
  · rename_i heq
    exact ⟨fun _ => .inl heq.symm, fun _ => rfl⟩
  · rename_i hne
    exact ⟨.inr, fun h => h.resolve_left (Ne.symm hne)⟩

theorem reference_ok {snapshot : Entries} :
    (∃ overrideOf, db.reference id snapshot = .ok overrideOf) ↔ Refers db.Knows id snapshot := by
  have refused : ∀ {failure : Failure}, (∃ overrideOf,
      (Except.error failure : Except Failure (Option String)) = .ok overrideOf) ↔ False := by
    intro failure
    constructor
    · rintro ⟨_, h⟩
      cases h
    · exact False.elim
  unfold Db.reference Refers Db.Knows
  generalize assoc "override_of" snapshot = o
  cases o with
  | none => exact ⟨fun _ => trivial, fun _ => ⟨_, rfl⟩⟩
  | some v =>
      cases v with
      | null => exact ⟨fun _ => trivial, fun _ => ⟨_, rfl⟩⟩
      | str s =>
          dsimp only
          split
          · rename_i h
            exact ⟨fun _ => h, fun _ => ⟨_, rfl⟩⟩
          · rename_i h
            constructor
            · rintro ⟨_, hok⟩
              cases hok
            · intro h'
              exact absurd h' h
      | bool b => exact refused
      | int n => exact refused
      | float x => exact refused
      | list l => exact refused
      | dict d => exact refused

/-- An item goes in exactly when it is accepted. -/
theorem importItem_iff {item : Value} :
    importItem host now item db = .ok db' ↔ ∃ snapshot overrideOf,
      Accepts host db.Knows item snapshot ∧ db.reference (ruleId snapshot) snapshot = .ok overrideOf ∧
        db' = db.write (ruleId snapshot) (.inserted host now overrideOf snapshot) := by
  constructor
  · intro h
    obtain ⟨rule, hrule, hinsert⟩ := importItem_ok h
    obtain ⟨snapshot, overrideOf, hvalid, hnew, hreference, rfl⟩ := insert_ok hinsert
    refine ⟨snapshot, overrideOf, ⟨⟨rule, hrule, hvalid⟩, ?_, reference_ok.mp ⟨_, hreference⟩⟩,
      hreference, rfl⟩
    unfold Db.Knows
    rw [hnew]
    exact Bool.false_ne_true
  · rintro ⟨snapshot, overrideOf, ⟨⟨rule, hrule, hvalid⟩, hfresh, -⟩, hreference, rfl⟩
    unfold importItem insert
    simp only [hrule, hvalid, hreference, bind, Except.bind, pure, Except.pure]
    rw [require_of]
    exact Option.isNone_iff_eq_none.mpr (Option.not_isSome_iff_eq_none.mp hfresh)

variable (now) in
theorem exists_importItem {item : Value} {snapshot : Entries}
    (h : Accepts host db.Knows item snapshot) : ∃ overrideOf,
      db.reference (ruleId snapshot) snapshot = .ok overrideOf ∧
      importItem host now item db =
        .ok (db.write (ruleId snapshot) (.inserted host now overrideOf snapshot)) := by
  obtain ⟨overrideOf, hreference⟩ := reference_ok.mpr h.refers
  exact ⟨overrideOf, hreference, importItem_iff.mpr ⟨snapshot, overrideOf, h, hreference, rfl⟩⟩

theorem Accepts.unique {known : String → Prop} {item : Value} {s t : Entries}
    (hs : Accepts host known item s) (ht : Accepts host known item t) : s = t := by
  obtain ⟨rule, hrule, hvalid⟩ := hs.valid
  obtain ⟨rule', hrule', hvalid'⟩ := ht.valid
  cases hrule.symm.trans hrule'
  exact Except.ok.inj (hvalid.symm.trans hvalid')

theorem knows_eq_write (row : Row) :
    (db.write id row).Knows = fun s => s = id ∨ db.Knows s := funext fun s =>
  propext (knows_write db row s)

/-- An import raises nothing exactly when all items are accepted. -/
theorem importItems_iff {l : List Value} :
    (importItems host now l db).2 = none ↔ AllAccepted host db.Knows l := by
  induction l generalizing db with
  | nil => exact ⟨fun _ => trivial, fun _ => rfl⟩
  | cons item rest ih =>
      rcases importItems_cases host now item rest db with
        ⟨db', hitem, heq⟩ | ⟨e, hitem, heq⟩
      · obtain ⟨snapshot, overrideOf, haccepts, -, rfl⟩ := importItem_iff.mp hitem
        rw [heq, ih, knows_eq_write]
        refine ⟨fun h => ⟨snapshot, haccepts, h⟩, fun ⟨other, hother, h⟩ => ?_⟩
        rw [haccepts.unique hother]
        exact h
      · rw [heq]
        refine ⟨fun h => (nomatch h), fun ⟨snapshot, haccepts, _⟩ => ?_⟩
        obtain ⟨overrideOf, -, hok⟩ := exists_importItem now haccepts
        rw [hitem] at hok
        cases hok

/-! ## Imports that fail -/

variable (host now) in
/-- What has been inserted stays. -/
theorem importItems_knows (l : List Value) {s : String} (h : db.Knows s) :
    (importItems host now l db).1.Knows s := by
  induction l generalizing db with
  | nil => exact h
  | cons item rest ih =>
      rcases importItems_cases host now item rest db with
        ⟨db', hitem, heq⟩ | ⟨e, hitem, heq⟩
      · obtain ⟨snapshot, overrideOf, -, -, rfl⟩ := importItem_iff.mp hitem
        rw [heq]
        exact ih ((knows_write db _ s).mpr (.inr h))
      · rw [heq]
        exact h

/-- The first item is refused, or all of them are accepted. -/
def FailsFirst (host : Host) (known : String → Prop) (l : List Value) : Prop :=
  ∀ first rest, l = first :: rest → (∃ snapshot, Accepts host known first snapshot) →
    AllAccepted host known l

theorem atomic_importItems {l : List Value} :
    ((importItems host now l db).2 ≠ none → (importItems host now l db).1.rules = db.rules) ↔
      FailsFirst host db.Knows l := by
  constructor
  · rintro h first rest rfl ⟨snapshot, haccepts⟩
    by_contra hall
    have hrules := h fun hnone => hall (importItems_iff.mp hnone)
    obtain ⟨overrideOf, -, hok⟩ := exists_importItem now haccepts
    have hstep : importItems host now (first :: rest) db =
        importItems host now rest (db.write (ruleId snapshot) (.inserted host now overrideOf snapshot)) := by
      rw [importItems, hok]
    have hknows := importItems_knows host now rest
      ((knows_write db (.inserted host now overrideOf snapshot) (ruleId snapshot)).mpr (.inl rfl))
    rw [← hstep] at hknows
    unfold Db.Knows at hknows
    rw [hrules] at hknows
    exact haccepts.fresh hknows
  · intro h hraises
    cases l with
    | nil => rfl
    | cons first rest =>
        rcases importItems_cases host now first rest db with
          ⟨db', hitem, heq⟩ | ⟨e, hitem, heq⟩
        · obtain ⟨snapshot, overrideOf, haccepts, -, -⟩ := importItem_iff.mp hitem
          exact absurd (importItems_iff.mpr (h first rest rfl ⟨snapshot, haccepts⟩)) hraises
        · rw [heq]

/-- An import that raises leaves the rules alone exactly when it fails with its first item; a
payload that is no bundle has none. -/
theorem atomic_importBundle {payload : Value} :
    ((importBundle host now payload db).2 ≠ none →
        (importBundle host now payload db).1.rules = db.rules) ↔
      FailsFirst host db.Knows ((bundleRules payload).getD []) := by
  unfold importBundle
  cases bundleRules payload with
  | some l => exact atomic_importItems
  | none => exact ⟨fun _ first rest h => (nomatch h), fun _ _ => rfl⟩

/-! ## Exported rules -/

/-- What a transfer does not keep. -/
def untransferred : List String :=
  ["source", "status", "enabled", "version", "created_at", "updated_at", "content_hash"]

/-- Equal in every field that a transfer keeps; a missing field is one that is null. -/
def SameContent (c d : Entries) : Prop :=
  ∀ k, k ∉ untransferred → (assoc k c).getD .null = (assoc k d).getD .null

/-- Every rule of `db` that is not built in is in `db'` with the same content. -/
def Recreated (db db' : Db) : Prop :=
  ∀ id row, db.rules.get? id = some row → row.source ≠ "builtin" →
    ∃ row', db'.rules.get? id = some row' ∧ SameContent (row'.rule id) (row.rule id)

/-- No id is known, and a rule that overrides one overrides itself or one that is known by then. -/
def Transferable : (String → Prop) → List (String × Row) → Prop
  | _, [] => True
  | known, e :: rest => ¬ known e.1 ∧ (∀ s, e.2.overrideOf = some s → s = e.1 ∨ known s) ∧
      Transferable (fun s => s = e.1 ∨ known s) rest

theorem assoc_erase (keys : List String) (d : Entries) (k : String) :
    assoc k (erase keys d) = if k ∈ keys then none else assoc k d := by
  unfold erase
  induction d with
  | nil => simp [assoc]
  | cons e rest ih =>
      obtain ⟨key, value⟩ := e
      rw [List.filter_cons]
      by_cases hkey : key ∈ keys
      · rw [if_neg (by simpa using hkey), ih]
        by_cases hk : k ∈ keys
        · rw [if_pos hk, if_pos hk]
        · have hne : key ≠ k := fun heq => hk (heq ▸ hkey)
          simp [assoc, hne]
      · rw [if_pos (by simpa using hkey)]
        by_cases heq : key = k
        · subst heq
          simp [assoc, hkey]
        · simpa [assoc, heq] using ih

/-- The rule that an exported rule is imported as. -/
def transferRule (row : Row) (id : String) : Entries :=
  erase ["content_hash", "created_at", "updated_at"]
    (update (row.rule id) [("source", .str "imported"), ("status", .str "draft"),
      ("enabled", .bool true)])

theorem importedRule_exported (row : Row) (id : String) :
    importedRule host (.dict (row.rule id)) = .ok (transferRule row id) := rfl

theorem assoc_transferRule {row : Row} {k : String} (hk : k ∉ untransferred) :
    assoc k (transferRule row id) = assoc k (row.rule id) := by
  simp only [untransferred, List.mem_cons, List.not_mem_nil, or_false, not_or] at hk
  unfold transferRule
  rw [assoc_erase, if_neg (by simp [hk]), assoc_update (by simp)]
  simp [assoc, Ne.symm hk.1, Ne.symm hk.2.1, Ne.symm hk.2.2.1]

section Exported

variable {row : Row}

theorem body_transferRule (hrow : Stored host id row.content) :
    CheckedBody host (transferRule row id) := by
  refine hrow.body.congr fun k hk => ?_
  have hother : k ∉ untransferred := by
    simp only [bodyKeys, List.mem_cons, List.not_mem_nil, or_false] at hk
    rcases hk with rfl | rfl | rfl | rfl | rfl | rfl | rfl | rfl
    all_goals simp [untransferred]
  rw [assoc_transferRule hother]
  by_cases hid : k = "id"
  · subst hid
    rw [hrow.named]
    exact (assoc_update_nodup (nodup_columns row id) (by simp [Row.columns])).symm
  · refine (assoc_rule_other ?_).symm
    simp only [bodyKeys, List.mem_cons, List.not_mem_nil, or_false] at hk
    rcases hk with rfl | rfl | rfl | rfl | rfl | rfl | rfl | rfl
    · exact absurd rfl hid
    all_goals simp [Row.columns]

theorem origin_transferRule : checkOrigin host (transferRule row id) = .ok () := by
  have hsource : assoc "source" (transferRule row id) = some (.str "imported") := by
    unfold transferRule
    rw [assoc_erase, if_neg (by simp), assoc_update (by simp)]
    rfl
  have hstatus : assoc "status" (transferRule row id) = some (.str "draft") := by
    unfold transferRule
    rw [assoc_erase, if_neg (by simp), assoc_update (by simp)]
    rfl
  have himported : "imported" ∈ sources := by simp [sources]
  unfold checkOrigin
  rw [check_bind_eq_ok, demand_eq_ok, demand_eq_ok, sourceOf_of_some hsource himported]
  refine ⟨himported, ?_⟩
  unfold statusOf textOf
  rw [hstatus, orElse_some]
  simp [truthy, text, statuses]

/-- What a normalizer makes of a field of an exported rule: the field itself, but for a priority
of zero. -/
theorem normal_transferRule (hrow : Stored host id row.content) {e : String × Normalizer}
    (he : e ∈ normalizers host) (hkept : e.1 ∉ untransferred) :
    ∃ v w, assoc e.1 row.content = some v ∧ e.2 (assoc e.1 (transferRule row id)) = .ok w ∧
      ((e.1 = "priority" ∧ v = .int 0 ∧ w = .int 100) ∨
        (e.1 = "priority" → v ≠ .int 0) ∧ w = v) := by
  obtain ⟨o, v, hv, hsome⟩ := hrow.normal e he
  have hcolumn : e.1 ∉ (row.columns id).map Prod.fst := by
    simp only [normalizers, List.mem_cons, List.not_mem_nil, or_false] at he
    rcases he with rfl | rfl | rfl | rfl | rfl | rfl | rfl | rfl | rfl | rfl
    · exact absurd (by simp [untransferred]) hkept
    · exact absurd (by simp [untransferred]) hkept
    all_goals simp [Row.columns]
  rw [assoc_transferRule hkept, assoc_rule_other hcolumn, hsome]
  by_cases hzero : e.1 = "priority" ∧ v = .int 0
  · refine ⟨v, .int 100, rfl, ?_, .inl ⟨hzero.1, hzero.2, rfl⟩⟩
    obtain ⟨hpriority, rfl⟩ := hzero
    have hcase : e = ("priority", normalInt host 100) := by
      simp only [normalizers, List.mem_cons, List.not_mem_nil, or_false] at he
      rcases he with rfl | rfl | rfl | rfl | rfl | rfl | rfl | rfl | rfl | rfl
      all_goals first | rfl | simp at hpriority
    rw [hcase]
    rfl
  · refine ⟨v, v, rfl, ?_, .inr ⟨fun hpriority hv0 => hzero ⟨hpriority, hv0⟩, rfl⟩⟩
    refine normalizer_again he hv fun hcase hv0 => ?_
    rcases hcase with hversion | hpriority
    · exact hkept (by simp [untransferred, hversion])
    · exact hzero ⟨hpriority, hv0⟩

theorem additions_transferRule (hrow : Stored host id row.content)
    (hpositive : 1 ≤ row.currentVersion) :
    ∃ added, additions host (transferRule row id) = .ok added := by
  have hmembers : ∃ filled,
      (normalizers host).mapM (normalMember (transferRule row id)) = .ok filled := by
    refine mapM_isOk_iff.mpr fun e he => ?_
    by_cases hkept : e.1 ∈ untransferred
    · have hcases : e = ("enabled", normalBool) ∨ e = ("version", normalInt host 1) := by
        simp only [normalizers, List.mem_cons, List.not_mem_nil, or_false] at he
        rcases he with rfl | rfl | rfl | rfl | rfl | rfl | rfl | rfl | rfl | rfl
        · exact .inl rfl
        · exact .inr rfl
        all_goals simp [untransferred] at hkept
      rcases hcases with rfl | rfl
      · exact ⟨_, normalMember_ok.mpr ⟨_, rfl, rfl⟩⟩
      · have hversion : assoc "version" (transferRule row id) = some (.int row.currentVersion) := by
          unfold transferRule
          rw [assoc_erase, if_neg (by simp), assoc_update_other (by simp) (by simp)]
          exact assoc_update_nodup (nodup_columns row id) (by simp [Row.columns])
        refine ⟨("version", .int row.currentVersion), normalMember_ok.mpr ⟨_, ?_, rfl⟩⟩
        rw [hversion]
        show normalInt host 1 _ = _
        unfold normalInt
        rw [orElse_some, if_pos (by simp [truthy]; omega)]
        rfl
    · obtain ⟨v, w, -, hw, -⟩ := normal_transferRule hrow he hkept
      exact ⟨(e.1, w), normalMember_ok.mpr ⟨w, hw, rfl⟩⟩
  obtain ⟨filled, hfilled⟩ := hmembers
  refine ⟨origin host (transferRule row id) ++ filled, ?_⟩
  unfold additions
  rw [hfilled]
  rfl

/-- An exported rule passes validation; its content stays, but for a priority of zero. -/
theorem validate_transferRule (hrow : Stored host id row.content)
    (hpositive : 1 ≤ row.currentVersion) :
    ∃ snapshot, validateRule host (.dict (transferRule row id)) = .ok snapshot ∧
      (∀ k, k ∉ untransferred → (k = "priority" → assoc k row.content ≠ some (.int 0)) →
        assoc k snapshot = assoc k (row.rule id)) ∧
      (assoc "priority" row.content = some (.int 0) →
        assoc "priority" snapshot = some (.int 100)) := by
  obtain ⟨added, hadded⟩ := additions_transferRule hrow hpositive
  refine ⟨_, validateRule_dict
    (checkRule_eq_ok.mpr ⟨body_transferRule hrow, origin_transferRule⟩) hadded, fun k hk hzero => ?_,
    fun hzero => ?_⟩
  · by_cases hwritten : k ∈ writtenKeys
    · by_cases hschema : k = "schema_version"
      · subst hschema
        rw [assoc_validated_origin hadded (f := ("schema_version", .str "risk_semantic_rule_v1"))
          (by simp [origin]), assoc_rule_other (by simp [Row.columns]), hrow.schema]
      obtain ⟨e, he, rfl⟩ : ∃ e ∈ normalizers host, e.1 = k := by
        rcases writtenKeys_cases host hwritten with h | h | h | h
        · exact absurd h hschema
        · exact absurd (by simp [untransferred, h]) hk
        · exact absurd (by simp [untransferred, h]) hk
        · exact h
      have hcolumn : e.1 ∉ (row.columns id).map Prod.fst := by
        simp only [normalizers, List.mem_cons, List.not_mem_nil, or_false] at he
        rcases he with rfl | rfl | rfl | rfl | rfl | rfl | rfl | rfl | rfl | rfl
        · exact absurd (by simp [untransferred]) hk
        · exact absurd (by simp [untransferred]) hk
        all_goals simp [Row.columns]
      obtain ⟨v, w, hv, hw, hcases⟩ := normal_transferRule hrow he hk
      obtain ⟨w', hw', hnew⟩ := assoc_validated hadded he
      rw [hw] at hw'
      cases hw'
      rw [hnew, assoc_rule_other hcolumn, hv]
      rcases hcases with ⟨hpriority, rfl, -⟩ | ⟨-, rfl⟩
      · exact absurd hv (hzero hpriority)
      · rfl
    · rw [assoc_validated_other hadded hwritten, assoc_transferRule hk]
  · have hmem : ("priority", normalInt host 100) ∈ normalizers host := by simp [normalizers]
    obtain ⟨v, w, hv, hw, hcases⟩ := normal_transferRule hrow hmem (by simp [untransferred])
    obtain ⟨w', hw', hnew⟩ := assoc_validated hadded hmem
    rw [hw] at hw'
    cases hw'
    rcases hcases with ⟨-, -, rfl⟩ | ⟨hnonzero, -⟩
    · exact hnew
    · exact absurd (Option.some.inj (hv.symm.trans hzero)) (hnonzero rfl)

theorem assoc_rule_column (e : String × Value) (he : e ∈ row.columns id) :
    assoc e.1 (row.rule id) = some e.2 := assoc_update_nodup (nodup_columns row id) he

theorem reference_optional {snapshot : Entries} {o o' : Option String}
    (h : assoc "override_of" snapshot = some (optional o))
    (hreference : db.reference id snapshot = .ok o') : o' = o := by
  unfold Db.reference at hreference
  rw [h] at hreference
  cases o with
  | none => exact (pure_eq_ok.mp hreference).symm
  | some s =>
      simp only [optional] at hreference
      split at hreference
      · exact (pure_eq_ok.mp hreference).symm
      · cases hreference

theorem refers_optional {known : String → Prop} {snapshot : Entries} {o : Option String}
    (h : assoc "override_of" snapshot = some (optional o)) :
    Refers known id snapshot ↔ ∀ s, o = some s → s = id ∨ known s := by
  unfold Refers
  rw [h]
  cases o with
  | none => exact ⟨fun _ s hs => (nomatch hs), fun _ => trivial⟩
  | some s =>
      simp only [optional, Option.some.injEq, forall_eq']

/-- The content of the rule that an exported rule is inserted as. -/
theorem sameContent_inserted {snapshot : Entries}
    (hkept : ∀ k, k ∉ untransferred → (k = "priority" → assoc k row.content ≠ some (.int 0)) →
      assoc k snapshot = assoc k (row.rule id))
    (hzero : assoc "priority" row.content = some (.int 0) →
      assoc "priority" snapshot = some (.int 100)) :
    SameContent ((Row.inserted host now row.overrideOf snapshot).rule id) (row.rule id) ↔
      assoc "priority" row.content ≠ some (.int 0) := by
  have hother : ∀ {k : String}, k ∉ (row.columns id).map Prod.fst →
      assoc k ((Row.inserted host now row.overrideOf snapshot).rule id) = assoc k snapshot :=
    fun hk => assoc_rule_other hk
  constructor
  · intro hsame hpriority
    have hfield := hsame "priority" (by simp [untransferred])
    rw [hother (by simp [Row.columns]), hzero hpriority, assoc_rule_other (by simp [Row.columns]),
      hpriority] at hfield
    cases hfield
  · intro hpriority k hk
    by_cases hcolumn : k ∈ (row.columns id).map Prod.fst
    · have hcases : k = "id" ∨ k = "override_of" := by
        simp only [Row.columns, untransferred, List.map_cons, List.map_nil, List.mem_cons,
          List.not_mem_nil, or_false] at hcolumn hk
        tauto
      rcases hcases with rfl | rfl
      · rw [assoc_rule_column ("id", .str id) (by simp [Row.columns]),
          assoc_rule_column ("id", .str id) (by simp [Row.columns])]
      · rw [assoc_rule_column ("override_of", optional row.overrideOf)
          (by simp [Row.columns, Row.inserted]),
          assoc_rule_column ("override_of", optional row.overrideOf) (by simp [Row.columns])]
    · rw [hother hcolumn, hkept k hk fun h => h ▸ hpriority]

end Exported

variable (now db) in
/-- An exported rule goes in exactly when its id is new and what it overrides is known; its
content is then the one that was exported, but for a priority of zero. -/
theorem importItem_exported {row : Row} (hrow : Stored host id row.content)
    (hpositive : 1 ≤ row.currentVersion) :
    ((∃ db', importItem host now (.dict (row.rule id)) db = .ok db') ↔
        ¬ db.Knows id ∧ ∀ s, row.overrideOf = some s → s = id ∨ db.Knows s) ∧
      ∀ db', importItem host now (.dict (row.rule id)) db = .ok db' →
        ∃ row', db' = db.write id row' ∧
          (SameContent (row'.rule id) (row.rule id) ↔
            assoc "priority" row.content ≠ some (.int 0)) := by
  obtain ⟨snapshot, hvalid, hkept, hzero⟩ := validate_transferRule hrow hpositive
  have hid : ruleId snapshot = id := by
    refine ruleId_of_named ?_
    rw [hkept "id" (by simp [untransferred]) (by simp)]
    exact assoc_rule_column ("id", .str id) (by simp [Row.columns])
  have hoverride : assoc "override_of" snapshot = some (optional row.overrideOf) := by
    rw [hkept "override_of" (by simp [untransferred]) (by simp)]
    exact assoc_rule_column ("override_of", optional row.overrideOf) (by simp [Row.columns])
  have hunique : ∀ {s : Entries}, Accepts host db.Knows (.dict (row.rule id)) s → s = snapshot := by
    intro s hs
    obtain ⟨rule, hrule, hs⟩ := hs.valid
    rw [importedRule_exported] at hrule
    cases hrule
    exact Except.ok.inj (hs.symm.trans hvalid)
  refine ⟨⟨?_, ?_⟩, ?_⟩
  · rintro ⟨db', h⟩
    obtain ⟨s, overrideOf, haccepts, -, -⟩ := importItem_iff.mp h
    obtain rfl := hunique haccepts
    exact ⟨hid ▸ haccepts.fresh, (refers_optional hoverride).mp (hid ▸ haccepts.refers)⟩
  · rintro ⟨hfresh, hrefers⟩
    have haccepts : Accepts host db.Knows (.dict (row.rule id)) snapshot :=
      ⟨⟨_, importedRule_exported row id, hvalid⟩, hid.symm ▸ hfresh,
        hid.symm ▸ (refers_optional hoverride).mpr hrefers⟩
    obtain ⟨overrideOf, -, hok⟩ := exists_importItem now haccepts
    exact ⟨_, hok⟩
  · intro db' h
    obtain ⟨s, overrideOf, haccepts, hreference, rfl⟩ := importItem_iff.mp h
    obtain rfl := hunique haccepts
    obtain rfl := reference_optional hoverride hreference
    rw [hid]
    exact ⟨_, rfl, sameContent_inserted hkept hzero⟩

variable (host now) in
theorem importItems_get? (l : List Value) {s : String} {row : Row}
    (h : db.rules.get? s = some row) : (importItems host now l db).1.rules.get? s = some row := by
  induction l generalizing db with
  | nil => exact h
  | cons item rest ih =>
      rcases importItems_cases host now item rest db with
        ⟨db', hitem, heq⟩ | ⟨e, hitem, heq⟩
      · obtain ⟨snapshot, overrideOf, haccepts, -, rfl⟩ := importItem_iff.mp hitem
        rw [heq]
        refine ih ((get?_write _ _ s).trans ?_)
        rw [if_neg]
        · exact h
        · rintro rfl
          exact haccepts.fresh (by unfold Db.Knows; rw [h]; rfl)
      · rw [heq]
        exact h

/-- Exported rules are recreated, one after the other, exactly when none is known, those that
they override are known by then, and no priority is zero. -/
theorem importItems_exported {l : List (String × Row)}
    (hl : ∀ e ∈ l, Stored host e.1 e.2.content ∧ 1 ≤ e.2.currentVersion) :
    ((importItems host now (l.map fun e => .dict (e.2.rule e.1)) db).2 = none ∧
        ∀ e ∈ l, ∃ row', (importItems host now (l.map fun e => .dict (e.2.rule e.1)) db).1.rules.get?
          e.1 = some row' ∧ SameContent (row'.rule e.1) (e.2.rule e.1)) ↔
      Transferable db.Knows l ∧ ∀ e ∈ l, assoc "priority" e.2.content ≠ some (.int 0) := by
  induction l generalizing db with
  | nil => simp [importItems, Transferable]
  | cons e rest ih =>
      obtain ⟨hstored, hpositive⟩ := hl e List.mem_cons_self
      obtain ⟨haccepted, hinserted⟩ :=
        importItem_exported now db hstored hpositive
      have hrest := fun db => @ih db fun e' he' => hl e' (List.mem_cons_of_mem e he')
      rw [List.map_cons, List.forall_mem_cons, List.forall_mem_cons]
      rcases importItems_cases host now (.dict (e.2.rule e.1))
        (rest.map fun e => .dict (e.2.rule e.1)) db with ⟨db', hitem, heq⟩ | ⟨failure, hitem, heq⟩
      · obtain ⟨row', rfl, hsame⟩ := hinserted db' hitem
        have hfirst := importItems_get? host now (rest.map fun e => .dict (e.2.rule e.1))
          ((get?_write db row' e.1).trans (if_pos rfl))
        have hknown := haccepted.mp ⟨_, hitem⟩
        have hboth := hrest (db.write e.1 row')
        rw [knows_eq_write] at hboth
        rw [heq, hfirst, Transferable]
        simp only [Option.some.injEq, exists_eq_left', hsame]
        constructor
        · rintro ⟨hnone, hpriority, hothers⟩
          obtain ⟨htransferable, hpriorities⟩ := hboth.mp ⟨hnone, hothers⟩
          exact ⟨⟨hknown.1, hknown.2, htransferable⟩, hpriority, hpriorities⟩
        · rintro ⟨⟨-, -, htransferable⟩, hpriority, hpriorities⟩
          obtain ⟨hnone, hothers⟩ := hboth.mpr ⟨htransferable, hpriorities⟩
          exact ⟨hnone, hpriority, hothers⟩
      · rw [heq]
        constructor
        · rintro ⟨hnone, -⟩
          cases hnone
        · intro h
          obtain ⟨db', hok⟩ := haccepted.mpr ⟨h.1.1, h.1.2.1⟩
          rw [hitem] at hok
          cases hok

theorem mem_exportedRows {e : String × Row} :
    e ∈ exportedRows db ↔ db.rules.get? e.1 = some e.2 ∧ e.2.source ≠ "builtin" := by
  unfold exportedRows rowsInOrder
  rw [List.mem_filter, List.mem_mergeSort, Dict.get?_eq_some, decide_eq_true_eq]

/-- The two halves of a transfer, for every store that a run ends in: a bundle recreates the
rules in another store exactly when none of them is known there, each of them overrides only
what is known by then, and no priority is zero; and an import that raises leaves the rules alone
exactly when it fails with its first item. -/
theorem transfer_iff (h : (service host).Reachable db) :
    (∀ (target : Db) (now now' : String),
      ((importBundle host now (exportBundle now' db) target).2 = none ∧
          Recreated db (importBundle host now (exportBundle now' db) target).1) ↔
        Transferable target.Knows (exportedRows db) ∧
          ∀ e ∈ exportedRows db, assoc "priority" e.2.content ≠ some (.int 0)) ∧
    ∀ (payload : Value) (now : String),
      ((importBundle host now payload db).2 ≠ none →
          (importBundle host now payload db).1.rules = db.rules) ↔
        FailsFirst host db.Knows ((bundleRules payload).getD []) := by
  refine ⟨fun target now now' => ?_, fun payload now => atomic_importBundle⟩
  have hsound := sound_of_reachable h
  have hbundle : importBundle host now (exportBundle now' db) target =
      importItems host now ((exportedRows db).map fun e => .dict (e.2.rule e.1)) target := rfl
  have hl : ∀ e ∈ exportedRows db, Stored host e.1 e.2.content ∧ 1 ≤ e.2.currentVersion := by
    intro e he
    have hrow := (mem_exportedRows.mp he).1
    exact ⟨hsound.content hrow, hsound.positive e.1 e.2 hrow⟩
  rw [hbundle, ← importItems_exported hl]
  refine and_congr_right fun _ => ⟨fun hall e he => ?_, fun hall id row hrow huser => ?_⟩
  · obtain ⟨hrow, huser⟩ := mem_exportedRows.mp he
    exact hall e.1 e.2 hrow huser
  · exact hall (id, row) (mem_exportedRows.mpr ⟨hrow, huser⟩)

theorem code_transfer :
    (∀ (target : Db) (now now' : String),
      ((importBundle wordHost now (exportBundle now' codeDb) target).2 = none ∧
          Recreated codeDb (importBundle wordHost now (exportBundle now' codeDb) target).1) ↔
        Transferable target.Knows (exportedRows codeDb) ∧
          ∀ e ∈ exportedRows codeDb, assoc "priority" e.2.content ≠ some (.int 0)) ∧
    ∀ (payload : Value) (now : String),
      ((importBundle wordHost now payload codeDb).2 ≠ none →
          (importBundle wordHost now payload codeDb).1.rules = codeDb.rules) ↔
        FailsFirst wordHost codeDb.Knows ((bundleRules payload).getD []) :=
  transfer_iff reachable_codeDb

/-- A bundle whose second item is refused. -/
def brokenBundle : Value := .dict [("rules", .list [.dict codeRule, .dict []])]

/-- The rule of the first item is there although the import has raised. -/
theorem broken_bundle_inserts : ¬ ∀ (host : Host) (db : Db), (service host).Reachable db →
    (∀ (target : Db), (∀ id row, target.rules.get? id = some row → row.source = "builtin") →
      ∀ now now', (importBundle host now (exportBundle now' db) target).2 = none ∧
        Recreated db (importBundle host now (exportBundle now' db) target).1) ∧
    ∀ (payload : Value) (now : String), (importBundle host now payload db).2 ≠ none →
      (importBundle host now payload db).1.rules = db.rules := by
  intro h
  have hraises : (importBundle wordHost "t1" brokenBundle {}).2.isSome = true := by decide +kernel
  have hinserted : ((importBundle wordHost "t1" brokenBundle {}).1.rules.get? "user.code").isSome =
      true := by decide +kernel
  have hsame := (h wordHost {} (.init rfl)).2 brokenBundle "t1"
    (Option.isSome_iff_ne_none.mp hraises)
  rw [hsame] at hinserted
  cases hinserted

end LogRisk.RiskSemantics.Documents
