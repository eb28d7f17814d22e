import LogRisk.Governance.History
import LogRisk.Approval.Validity

/-!
# Rules stay valid

A row whose columns agree with its JSON is read as a valid rule if the JSON is well
formed.  Approvals of fit features keep rows so, and so does governance, except for a
rollback to another feature type: a commit does not write that column.
-/

namespace LogRisk.Governance

open LogRisk.Library LogRisk.Library.Text LogRisk.Library.Transaction LogRisk.Approval

variable {μ : Type}

/-- Every rule that is read is valid. -/
def Valid (R : RuleResolver μ) (db : Database) : Prop :=
  ∀ rule ∈ readLocked R db, hasFormat R .validV2 rule = true

/-! ## Rows that agree with their JSON -/

structure SoundRow (R : RuleResolver μ) (ruleId : String) (row : Row) : Prop where
  ruleId : row.ruleJson.ruleId = ruleId
  intact : row.ruleJson.integrityErrors = []
  json : row.ruleJson.schemaVersion = v2SchemaVersion
  formed : WellFormed R (lifecycle row)
  schemaVersion : row.schemaVersion = v2SchemaVersion
  signature : row.signature = row.ruleJson.signature
  featureType : row.featureType = row.ruleJson.featureType
  problemCode : row.problemCode = some row.ruleJson.problemCode
  approvalKey : row.approvalKey = some row.ruleJson.approvalKey
  fromSafe : FromSafe R row.ruleJson

theorem strip_v2SchemaVersion : strip v2SchemaVersion = v2SchemaVersion := by decide +kernel

theorem v2SchemaVersion_ne_empty : v2SchemaVersion ≠ "" := by decide

theorem v2SchemaVersion_ne_legacy : v2SchemaVersion ≠ legacySchemaVersion := by decide

theorem mismatch_self (text error : String) : mismatch text text error = [] := by
  unfold mismatch
  rw [complaint_eq_nil, Bool.and_eq_false_iff]
  exact .inr (decide_eq_false (not_not_intro rfl))

section Rows

variable {R : RuleResolver μ} {ruleId : String} {row : Row}

theorem schemaVersion_lifecycle (h : row.ruleJson.schemaVersion = v2SchemaVersion) :
    (lifecycle row).schemaVersion = v2SchemaVersion := by
  unfold lifecycle
  dsimp only
  rw [h, strip_v2SchemaVersion, if_neg]
  exact fun hno => v2SchemaVersion_ne_empty hno.1

theorem sameIdentity_lifecycle (h : row.ruleJson.schemaVersion = v2SchemaVersion) :
    SameIdentity (lifecycle row) row.ruleJson :=
  ⟨⟨rfl, rfl, rfl, rfl, rfl, rfl, rfl⟩, rfl, rfl, rfl, rfl, rfl,
    (schemaVersion_lifecycle h).trans h.symm⟩

/-- The columns of the row tell nothing else than its JSON. -/
theorem SoundRow.projectionErrors (h : SoundRow R ruleId row) :
    projectionErrors (lifecycle row) ruleId row = [] := by
  have hid : (lifecycle row).ruleId = ruleId := h.ruleId
  have hsignature : (lifecycle row).signature = row.signature := h.signature.symm
  have htype : (lifecycle row).featureType = row.featureType := h.featureType.symm
  have hcode : some (lifecycle row).problemCode = row.problemCode := h.problemCode.symm
  have hkey : some (lifecycle row).approvalKey = row.approvalKey := h.approvalKey.symm
  unfold Governance.projectionErrors
  dsimp only
  rw [schemaVersion_lifecycle h.json, h.schemaVersion, strip_v2SchemaVersion, hid, hsignature, htype,
    ← hcode, ← hkey, mismatch_self, mismatch_self, mismatch_self,
    if_neg fun hno => v2SchemaVersion_ne_empty hno.1, if_neg v2SchemaVersion_ne_legacy, if_pos rfl]
  simp only [List.append_nil, List.append_eq_nil_iff, complaint_eq_nil, Option.getD_some,
    decide_eq_false_iff_not, not_not, and_self]

theorem SoundRow.kind (h : SoundRow R ruleId row) : (classifyRow R ruleId row).kind = .validV2 := by
  have hschema := schemaVersion_lifecycle h.json
  unfold classifyRow
  dsimp only
  rw [h.projectionErrors, if_neg]
  · refine classifyWith_validV2_iff.mpr ⟨?_, ?_, validateV2Rule_eq_nil_iff.mpr h.formed⟩
    · rw [List.eraseDups_nil, List.append_nil]
      exact h.intact
    · rw [hschema, strip_v2SchemaVersion]
  · rw [hschema, strip_v2SchemaVersion]
    exact fun hno => v2SchemaVersion_ne_empty hno.1

theorem SoundRow.valid (hlaws : Lawful R) (h : SoundRow R ruleId row) :
    hasFormat R .validV2 (hydratePersistedRule R ruleId row) = true := by
  have hschema : (hydratePersistedRule R ruleId row).schemaVersion = v2SchemaVersion :=
    schemaVersion_lifecycle h.json
  refine hasFormat_validV2_iff.mpr ⟨?_, ?_, ?_⟩
  · unfold hydratePersistedRule
    dsimp only
    rw [h.kind, if_neg (by decide)]
    exact h.intact
  · rw [hschema, strip_v2SchemaVersion]
  · exact h.formed.sameIdentity hlaws ⟨⟨rfl, rfl, rfl, rfl, rfl, rfl, rfl⟩, rfl, rfl, rfl, rfl, rfl, rfl⟩
      h.formed.ruleId h.formed.signature h.formed.status h.formed.currentVersion

theorem eraseDups_ne_nil {errors : List String} (h : errors ≠ []) : errors.eraseDups ≠ [] := by
  obtain ⟨error, rest, rfl⟩ := List.exists_cons_of_ne_nil h
  rw [List.eraseDups_cons]
  exact List.cons_ne_nil _ _

/-- Errors found before make a rule malformed. -/
theorem classifyWith_of_found {rule : Rule} {found : List String} (h : found ≠ []) :
    (classifyWith R rule found).kind = .malformedV2 ∧
      (classifyWith R rule found).integrityErrors ≠ [] := by
  unfold classifyWith
  dsimp only
  by_cases hlegacy : strip rule.schemaVersion = legacySchemaVersion
  · rw [if_pos hlegacy, if_neg h]
    exact ⟨rfl, eraseDups_ne_nil h⟩
  · rw [if_neg hlegacy, if_neg fun hboth => h (List.append_eq_nil_iff.mp hboth.2).1]
    exact ⟨rfl, eraseDups_ne_nil (List.append_ne_nil_of_left_ne_nil h _)⟩

theorem mismatch_ne_nil {json column error : String} (hjson : strip json ≠ "")
    (hcolumn : strip column ≠ "") (hne : strip json ≠ strip column) :
    mismatch json column error ≠ [] := by
  unfold mismatch
  rw [decide_eq_true hjson, decide_eq_true hcolumn, decide_eq_true hne]
  exact List.cons_ne_nil _ _

theorem projectionErrors_of_type {rule : Rule} (hjson : strip rule.featureType ≠ "")
    (hcolumn : strip row.featureType ≠ "") (hne : strip rule.featureType ≠ strip row.featureType) :
    projectionErrors rule ruleId row ≠ [] := by
  intro hnil
  unfold projectionErrors at hnil
  simp only [List.append_eq_nil_iff] at hnil
  exact mismatch_ne_nil hjson hcolumn hne hnil.1.2

/-- A row whose feature type is not that of its JSON is not read as a valid rule. -/
theorem hasFormat_of_type (hjson : strip row.ruleJson.featureType ≠ "")
    (hcolumn : strip row.featureType ≠ "")
    (hne : strip row.ruleJson.featureType ≠ strip row.featureType) :
    hasFormat R .validV2 (hydratePersistedRule R ruleId row) = false := by
  have hprojection : projectionErrors (lifecycle row) ruleId row ≠ [] :=
    projectionErrors_of_type hjson hcolumn hne
  have hclass : (classifyRow R ruleId row).kind = .malformedV2 ∧
      (classifyRow R ruleId row).integrityErrors ≠ [] := by
    unfold classifyRow
    exact classifyWith_of_found (List.append_ne_nil_of_right_ne_nil _ (eraseDups_ne_nil hprojection))
  refine Bool.eq_false_of_not_eq_true fun hvalid => hclass.2 ?_
  have hintact := (hasFormat_validV2_iff.mp hvalid).1
  unfold hydratePersistedRule at hintact
  dsimp only at hintact
  rw [if_pos hclass.1] at hintact
  exact hintact

/-- A row whose columns are those of a well-formed rule. -/
theorem soundRow_of_formed (hlaws : Lawful R) (rule : Rule) (hjson : row.ruleJson = rule)
    (hformed : WellFormed R rule) (hfrom : FromSafe R rule) (hintact : rule.integrityErrors = [])
    (hid : rule.ruleId = ruleId) (hstatus : row.status ∈ ruleStatuses)
    (hversion : 1 ≤ row.currentVersion) (hschema : row.schemaVersion = v2SchemaVersion)
    (hsignature : row.signature = rule.signature) (htype : row.featureType = rule.featureType)
    (hprojection : row.problemCode = some rule.problemCode ∧ row.approvalKey = some rule.approvalKey) :
    SoundRow R ruleId row := by
  subst hjson
  refine ⟨hid, hintact, hformed.schemaVersion, ?_, hschema, hsignature, htype, hprojection.1,
    hprojection.2, hfrom⟩
  exact hformed.sameIdentity hlaws (sameIdentity_lifecycle hformed.schemaVersion) hformed.ruleId
    hformed.signature hstatus hversion

theorem projection_of_wellFormed {rule : Rule} (h : WellFormed R rule) :
    projection R rule = (some rule.problemCode, some rule.approvalKey) := by
  refine projection_of_v2 ?_
  rw [h.schemaVersion, strip_v2SchemaVersion]
  exact v2SchemaVersion_ne_legacy

theorem wellFormed_publicRule (hlaws : Lawful R) {rule : Rule} (h : WellFormed R rule) :
    WellFormed R (publicRule rule) :=
  h.sameIdentity hlaws ⟨⟨rfl, rfl, rfl, rfl, rfl, rfl, rfl⟩, rfl, rfl, rfl, rfl, rfl, rfl⟩
    h.ruleId h.signature h.status h.currentVersion

/-- A row that a rule is saved in. -/
theorem SoundRow.saved (hlaws : Lawful R) {rule : Rule} (old : Option Row) (hformed : WellFormed R rule)
    (hfrom : FromSafe R rule) (hstatus : rule.status = "active") :
    SoundRow R rule.ruleId (savedRow R (publicRule rule) old) := by
  have hpublic := wellFormed_publicRule hlaws hformed
  refine soundRow_of_formed hlaws (publicRule rule) rfl hpublic hfrom rfl rfl ?_ ?_ ?_ rfl rfl ?_
  · show firstGiven rule.status "active" ∈ ruleStatuses
    rw [hstatus]
    decide
  · show 1 ≤ if rule.currentVersion = 0 then 1 else rule.currentVersion
    split
    · exact le_refl 1
    · exact hformed.currentVersion
  · show strip rule.schemaVersion = _
    rw [hformed.schemaVersion, strip_v2SchemaVersion]
  · unfold savedRow
    rw [projection_of_wellFormed hpublic]
    exact ⟨rfl, rfl⟩

/-- A row that a version is committed in; it keeps its signature and its feature type. -/
theorem SoundRow.committed (hlaws : Lawful R) {rule : Rule}
    (hformed : WellFormed R rule) (hfrom : FromSafe R rule) (hid : rule.ruleId = ruleId)
    (hsignature : rule.signature = row.signature) (htype : rule.featureType = row.featureType)
    (version : ℕ) (hversion : 1 ≤ version) (createdAt : String) :
    SoundRow R ruleId (committedRow R row rule version createdAt) := by
  have hcommitted : WellFormed R (committedRule rule version createdAt) :=
    hformed.sameIdentity hlaws ⟨⟨rfl, rfl, rfl, rfl, rfl, rfl, rfl⟩, rfl, rfl, rfl, rfl, rfl, rfl⟩
      hformed.ruleId hformed.signature hformed.status hversion
  refine soundRow_of_formed hlaws (committedRule rule version createdAt) rfl hcommitted hfrom
    rfl hid hformed.status hversion hformed.schemaVersion hsignature.symm htype.symm ?_
  unfold committedRow
  rw [projection_of_wellFormed hformed]
  exact ⟨rfl, rfl⟩

/-- A row that a reuse is counted in. -/
theorem SoundRow.reused (hlaws : Lawful R) (h : SoundRow R ruleId row) (now : String) :
    SoundRow R ruleId
      { row with ruleJson := reusedRule (hydratePersistedRule R ruleId row) now } := by
  have hread : WellFormed R (reusedRule (hydratePersistedRule R ruleId row) now) :=
    h.formed.sameIdentity hlaws ⟨⟨rfl, rfl, rfl, rfl, rfl, rfl, rfl⟩, rfl, rfl, rfl, rfl, rfl, rfl⟩
      h.formed.ruleId h.formed.signature h.formed.status h.formed.currentVersion
  exact soundRow_of_formed hlaws (reusedRule (hydratePersistedRule R ruleId row) now) rfl hread
    h.fromSafe rfl h.ruleId h.formed.status h.formed.currentVersion h.schemaVersion h.signature
    h.featureType ⟨h.problemCode, h.approvalKey⟩

end Rows

/-! ## Runs -/

/-- The rows agree with their JSON and no version has lost its format. -/
structure Sound (R : RuleResolver μ) (db : Database) : Prop where
  rows : ∀ ruleId row, db.approvedRules.get? ruleId = some row → SoundRow R ruleId row
  versions : ∀ key version, db.ruleVersions.get? key = some version →
    version.ruleJson.schemaVersion = v2SchemaVersion ∧ FromSafe R version.ruleJson

theorem sound_empty (R : RuleResolver μ) : Sound R ∅ :=
  ⟨fun _ _ h => (by cases h), fun _ _ h => (by cases h)⟩

/-- An approved feature is fit for a rule, and a new rule matched by its templates replaces
none; a rollback goes back to a rule of the type the row was saved with.  No rule is
committed or repaired from outside. -/
def Fitting (R : RuleResolver μ) (db : Database) : Call μ → Prop
  | .upsertFeature _ feature => Fit R feature ∧
      (R.safeToGroup feature = false → existingRule R feature (readLocked R db) = none →
        predecessorRule R feature (readLocked R db) = none)
  | .recordReuse _ _ => True
  | .changeStatus _ => True
  | .rollback request => ∀ row version, db.approvedRules.get? request.ruleId = some row →
      db.ruleVersions.get? (request.ruleId, request.targetVersion) = some version →
      version.ruleJson.featureType = row.featureType
  | .commitVersion _ _ => False
  | .repairLegacyImport _ _ _ => False

section Runs

variable {R : RuleResolver μ} {db next : Database} {rule returned : Rule} {row : Row}

/-- A version of the second format is gone back to as it is, if it is valid. -/
theorem valid_of_normalize {snapshot : Rule} (hschema : rule.schemaVersion = v2SchemaVersion)
    (h : normalizeLegacyRuleVersion R rule = .ok snapshot) :
    snapshot = rule ∧ hasFormat R .validV2 rule = true := by
  unfold normalizeLegacyRuleVersion at h
  dsimp only at h
  rw [hschema, strip_v2SchemaVersion, if_neg v2SchemaVersion_ne_legacy, if_pos rfl] at h
  obtain ⟨hvalid, h⟩ := require_bind_eq_ok.mp h
  exact ⟨(pure_eq_ok.mp h).symm, hvalid⟩

theorem Sound.valid (hlaws : Lawful R) (h : Sound R db) : Valid R db := by
  intro rule hrule
  obtain ⟨ruleId, hget⟩ := mem_readLocked.mp hrule
  obtain ⟨row, hrow, rfl⟩ := getRule_eq_some.mp hget
  exact (h.rows ruleId row hrow).valid hlaws

/-- A call that writes one row and at most one version. -/
theorem Sound.write (h : Sound R db) {ruleId : String} (key : String × ℕ) (version : Version)
    (hrows : next.approvedRules = db.approvedRules.set ruleId row)
    (hversions : next.ruleVersions = db.ruleVersions ∨
      next.ruleVersions = db.ruleVersions.set key version)
    (hrow : SoundRow R ruleId row) (hjson : version.ruleJson.schemaVersion = v2SchemaVersion)
    (hfrom : FromSafe R version.ruleJson) : Sound R next := by
  constructor
  · intro other found hfound
    rw [hrows, Dict.get?_set] at hfound
    split at hfound
    · rename_i heq
      rw [← heq, ← Option.some.inj hfound]
      exact hrow
    · exact h.rows other found hfound
  · intro other found hfound
    rcases hversions with hsame | hset
    · rw [hsame] at hfound
      exact h.versions other found hfound
    · rw [hset, Dict.get?_set] at hfound
      split at hfound
      · rw [← Option.some.inj hfound]
        exact ⟨hjson, hfrom⟩
      · exact h.versions other found hfound

theorem Sound.saved (hlaws : Lawful R) (h : Sound R db) (hsaved : Saved R rule db next row)
    (hformed : WellFormed R rule) (hfrom : FromSafe R rule) (hstatus : rule.status = "active") :
    Sound R next := by
  obtain ⟨version, hjson, hversions⟩ := hsaved.versions
  refine h.write (rule.ruleId, row.currentVersion) version hsaved.rows ?_ ?_ ?_ ?_
  · split at hversions
    · exact .inl hversions
    · exact .inr hversions
  · rw [hsaved.row_eq]
    exact SoundRow.saved hlaws _ hformed hfrom hstatus
  · rw [hjson]
    exact hformed.schemaVersion
  · rw [hjson]
    exact hfrom

theorem Sound.committed (hlaws : Lawful R) (h : Sound R db) {change : Change}
    (hcommitted : Committed R rule change db next row) (hformed : WellFormed R rule)
    (hfrom : FromSafe R rule) (hsignature : rule.signature = row.signature)
    (htype : rule.featureType = row.featureType) : Sound R next := by
  obtain ⟨version, hjson, hversions⟩ := hcommitted.versions
  refine h.write _ _ hcommitted.rows (.inr hversions) ?_ ?_ ?_
  · exact SoundRow.committed hlaws hformed hfrom rfl hsignature htype _ (Nat.le_add_left 1 _) _
  · rw [hjson]
    exact hformed.schemaVersion
  · rw [hjson]
    exact hfrom

/-- What an approval of a fit feature saves is well formed. -/
theorem wellFormed_of_approving (hlaws : Lawful R) (h : Sound R db) {moment : Moment}
    {feature : Feature μ} (hfitting : Fitting R db (.upsertFeature moment feature))
    (happroving : Approving R moment feature (readLocked R db) rule true) :
    WellFormed R rule ∧ FromSafe R rule ∧ rule.status = "active" := by
  obtain ⟨hfit, hpredecessor⟩ := hfitting
  cases happroving with
  | updated baseSignature hsignature hexisting hformat =>
      rename_i existing
      obtain ⟨hdigest, htemplates⟩ := exists_digest_ruleSignature hsignature
      obtain ⟨text, htext⟩ := exists_digest_chosenSignature (readLocked R db)
        (firstGiven existing.approvalKey (approvalIdentity R.toResolver feature).approvalKey)
        (some existing) hdigest
      rw [htext]
      obtain ⟨hmem, -, hvalid⟩ := existingRule_spec hexisting hformat
      have hfrom : FromSafe R existing := by
        obtain ⟨ruleId, hget⟩ := mem_readLocked.mp hmem
        obtain ⟨old, hold, rfl⟩ := getRule_eq_some.mp hget
        exact (h.rows ruleId old hold).fromSafe
      have hwritten : WrittenFor R feature (updatedRule R moment feature existing (R.sha256 text)) :=
        writtenFor_updatedRule existing (R.sha256 text)
      have hevidence : SameEvidence (updatedRule R moment feature existing (R.sha256 text))
          (draft R feature) := sameEvidence_updatedRule existing (R.sha256 text)
      have hkeyed : Keyed R feature (updatedRule R moment feature existing (R.sha256 text)) :=
        keyed_updatedRule hlaws (R.sha256 text) hexisting hformat hfrom
      have hupdates := updates_updatedRule R moment feature existing (R.sha256 text)
      generalize updatedRule R moment feature existing (R.sha256 text) = updated at *
      refine ⟨wellFormed_of_keyed hlaws hfit hwritten hevidence hkeyed htemplates
        hupdates.schemaVersion ?_ ?_ hupdates.status ?_, fromSafe_of_written hwritten,
        hupdates.status⟩
      · rw [hupdates.ruleId]
        exact (wellFormed_of_validV2 hvalid).ruleId
      · rw [hupdates.signature]
        exact strip_digest hlaws text
      · rw [hupdates.currentVersion]
        exact le_trans (le_max_left 1 _) (Nat.le_add_right _ _)
  | created baseSignature hsignature hfree hnone =>
      obtain ⟨hdigest, htemplates⟩ := exists_digest_ruleSignature hsignature
      obtain ⟨text, htext⟩ := exists_digest_chosenSignature (readLocked R db)
        (newApprovalKey R feature (readLocked R db) (predecessorRule R feature (readLocked R db))) none
        hdigest
      have hwritten : WrittenFor R feature (createdRule R moment feature (readLocked R db)
          baseSignature) := writtenFor_createdRule baseSignature
      have hkeyed : Keyed R feature (createdRule R moment feature (readLocked R db) baseSignature) :=
        keyed_createdRule hlaws baseSignature fun hsafe => hpredecessor hsafe hnone
      have hid : strip (createdRule R moment feature (readLocked R db) baseSignature).ruleId ≠ "" :=
        strip_ruleId_createdRule baseSignature
      refine ⟨wellFormed_of_keyed hlaws hfit hwritten (sameEvidence_newRule _ _ _ _) hkeyed htemplates
        rfl hid ?_ rfl (le_refl 1), fromSafe_of_written hwritten, rfl⟩
      show strip (chosenSignature R (readLocked R db) baseSignature _ none) ≠ ""
      rw [htext]
      exact strip_digest hlaws text

theorem sound_perform (hlaws : Lawful R) (h : Sound R db) {call : Call μ} (hfitting : Fitting R db call)
    (hcall : perform R db call = .ok (returned, next)) : Sound R next := by
  cases call with
  | upsertFeature moment feature =>
      rcases saved_of_upsertFeature hcall with rfl | ⟨rule, row, happroving, hsaved⟩
      · exact h
      · obtain ⟨hformed, hfrom, hstatus⟩ := wellFormed_of_approving hlaws h hfitting happroving
        exact h.saved hlaws hsaved hformed hfrom hstatus
  | recordReuse ruleId now =>
      obtain ⟨row, hreused⟩ := reused_of_recordReuse hcall
      have hrow := (h.rows ruleId row hreused.found).reused hlaws now
      refine ⟨fun other found hfound => ?_, fun key version hversion => ?_⟩
      · rw [hreused.rows, Dict.get?_set] at hfound
        split at hfound
        · rename_i heq
          rw [← heq, ← Option.some.inj hfound]
          exact hrow
        · exact h.rows other found hfound
      · rw [hreused.versions] at hversion
        exact h.versions key version hversion
  | changeStatus change =>
      obtain ⟨current, hcurrent, hstatus, record, -, hcommit⟩ := commitVersion_of_changeStatus hcall
      obtain ⟨row, hcommitted⟩ := committed_of_commitVersion hcommit
      obtain ⟨old, hold, rfl⟩ := getRule_eq_some.mp hcurrent
      have hsound := h.rows _ old hold
      have hformed := wellFormed_of_validV2 (hsound.valid hlaws)
      have hfound := hcommitted.found
      have hid : (statusSnapshot change.status
        (hydratePersistedRule R change.ruleId old)).ruleId = change.ruleId := hsound.ruleId
      rw [hid, hold, Option.some.injEq] at hfound
      subst hfound
      refine h.committed hlaws hcommitted ?_ hsound.fromSafe hsound.signature.symm
        hsound.featureType.symm
      exact hformed.sameIdentity hlaws ⟨⟨rfl, rfl, rfl, rfl, rfl, rfl, rfl⟩, rfl, rfl, rfl, rfl, rfl, rfl⟩
        hformed.ruleId hformed.signature hstatus hformed.currentVersion
  | rollback request =>
      obtain ⟨current, target, snapshot, hcurrent, htarget, hsnapshot, record, -, hcommit⟩ :=
        commitVersion_of_rollback hcall
      obtain ⟨row, hcommitted⟩ := committed_of_commitVersion hcommit
      obtain ⟨old, hold, rfl⟩ := getRule_eq_some.mp hcurrent
      have hsound := h.rows _ old hold
      have hformed := wellFormed_of_validV2 (hsound.valid hlaws)
      have hfound := hcommitted.found
      have hid : (rollbackSnapshot snapshot
        (hydratePersistedRule R request.ruleId old)).ruleId = request.ruleId := hsound.ruleId
      rw [hid, hold, Option.some.injEq] at hfound
      subst hfound
      obtain ⟨hjson, hfrom⟩ := h.versions _ target htarget
      -- A version of the second format is only gone back to if it is valid.
      obtain ⟨rfl, htargetValid⟩ := valid_of_normalize hjson hsnapshot
      have htargetFormed := wellFormed_of_validV2 htargetValid
      refine h.committed hlaws hcommitted ?_ hfrom hsound.signature.symm
        (hfitting old target hold htarget)
      exact htargetFormed.sameIdentity hlaws
        ⟨⟨rfl, rfl, rfl, rfl, rfl, rfl, rfl⟩, rfl, rfl, rfl, rfl, rfl, rfl⟩
        hformed.ruleId hformed.signature htargetFormed.status htargetFormed.currentVersion
  | commitVersion rule change => exact hfitting.elim
  | repairLegacyImport ruleId operator now => exact hfitting.elim

theorem sound_act (hlaws : Lawful R) (h : Sound R db) {call : Call μ} (hfitting : Fitting R db call) :
    Sound R (act R db call) :=
  settled_induction h fun _ _ hcall => sound_perform hlaws h hfitting hcall

/-- Along a run of fitting calls every rule that is read is valid. -/
theorem validity_preserved (hlaws : Lawful R) {calls : List (Call μ)}
    (hrun : Along (act R) (Fitting R) ∅ calls) :
    Along (act R) (fun db call => Valid R (act R db call)) ∅ calls :=
  Along.of_invariant (fun _ _ hdb hfitting => sound_act hlaws hdb hfitting)
    (fun _ _ hdb hfitting => (sound_act hlaws hdb hfitting).valid hlaws) (sound_empty R) hrun

/-- A rollback to another type than the row has leaves a rule that is not valid. -/
theorem rollback_breaks_validity (hlaws : Lawful R) (h : Sound R db) (request : Rollback) {target : Version}
    (hrow : db.approvedRules.get? request.ruleId = some row)
    (htarget : db.ruleVersions.get? (request.ruleId, request.targetVersion) = some target)
    (htype : strip target.ruleJson.featureType ≠ "" ∧ strip row.featureType ≠ "" ∧
      strip target.ruleJson.featureType ≠ strip row.featureType)
    (hcall : rollback R request db = .ok (returned, next)) : ¬ Valid R next := by
  obtain ⟨current, found, snapshot, hcurrent, hfound, hsnapshot, record, -, hcommit⟩ :=
    commitVersion_of_rollback hcall
  obtain ⟨old, hcommitted⟩ := committed_of_commitVersion hcommit
  obtain ⟨read, hread, rfl⟩ := getRule_eq_some.mp hcurrent
  rw [hrow, Option.some.injEq] at hread
  subst hread
  rw [htarget, Option.some.injEq] at hfound
  subst hfound
  have hid : (rollbackSnapshot snapshot
    (hydratePersistedRule R request.ruleId row)).ruleId = request.ruleId := (h.rows _ row hrow).ruleId
  have hold := hcommitted.found
  rw [hid, hrow, Option.some.injEq] at hold
  subst hold
  obtain ⟨rfl, -⟩ := valid_of_normalize (h.versions _ target htarget).1 hsnapshot
  intro hvalid
  have hget : next.approvedRules.get? request.ruleId = some (committedRow R row
      (rollbackSnapshot target.ruleJson (hydratePersistedRule R request.ruleId row))
      (row.currentVersion + 1) record.createdAt) := by
    rw [hcommitted.rows, hid, Dict.get?_set_self]
  have hmem := hvalid _ (mem_readLocked.mpr ⟨request.ruleId, getRule_eq_some.mpr ⟨_, hget, rfl⟩⟩)
  refine Bool.false_ne_true (Eq.trans (Eq.symm ?_) hmem)
  exact hasFormat_of_type htype.1 htype.2.1 htype.2.2

end Runs

/-! ## A rule approved under two types -/

/-- Stands in for the digest: the text in digits and small letters. -/
def wordDigest (text : String) : String :=
  String.ofList ('0' :: text.toList.map fun c => if isWordChar c then c else '0')

/-- The classifier finds the exhausted address pool in every feature. -/
def ipExhaustion : RuleResolver Unit where
  semanticResolverEnabled := true
  sha256 := wordDigest
  removeIpLiterals := id
  normalizeProblemCode code := if code = "" then none else some code
  collectProblemCodes _ := ["kubernetes.cni.ip_exhaustion"]
  selectPrimaryProblemCode := List.head?
  resolveProblem _ := ⟨some "kubernetes.cni.ip_exhaustion", true⟩
  resolveCode _ _ := ⟨some "kubernetes.cni.ip_exhaustion", true⟩
  resolveRule _ := ⟨some "kubernetes.cni.ip_exhaustion", true⟩

theorem lawful_ipExhaustion : Lawful ipExhaustion where
  digest text := by
    have hdigest : (ipExhaustion.sha256 text).toList =
        '0' :: text.toList.map fun c => if isWordChar c then c else '0' := String.toList_ofList
    have hzero : isWordChar '0' = true := by decide
    refine ⟨fun hempty => ?_, fun c hc => ?_⟩
    · rw [hempty] at hdigest
      cases hdigest
    · rw [hdigest, List.mem_cons, List.mem_map] at hc
      rcases hc with rfl | ⟨letter, -, rfl⟩
      · exact hzero
      · split
        · assumption
        · exact hzero
  normalCode feature := by
    have hcode : ipExhaustion.problemCode feature = "kubernetes.cni.ip_exhaustion" := rfl
    have hgiven : "kubernetes.cni.ip_exhaustion" ≠ "" := by decide
    rw [hcode]
    refine ⟨hgiven, ?_⟩
    show (if "kubernetes.cni.ip_exhaustion" = "" then none else some _) = some _
    exact if_neg hgiven
  safeCode _ _ _ := rfl
  keepsCode feature rule _ hcode _ := rfl
  readsEvidence _ _ _ := rfl

/-- The exhausted address pool, under a type of the evaluator's choice. -/
def cniFeature (featureType : String) : Feature Unit where
  featureType := featureType
  title := "CNI IP 地址耗尽"
  summary := "CNI 地址池没有可用 IP。"
  importance := "high"
  tags := ["cni"]
  selectionReason := "CNI 模板命中地址耗尽语义。"
  components := []
  component := ""
  sourceTemplates := [⟨"", "hash-cni-kubelet", "network", "kubelet", none⟩]
  templateSignatures := []
  templateHashes := []
  anchorSignatures := []
  supportingSignatures := []
  evaluatorFailed := false
  schemaVersion := ""
  approvalKey := ""
  canonicalApprovalKey := ""
  problemResolved := true
  matchMode := some .semantic
  lineage := []
  evidence := ()

section Cni

variable {featureType : String}

theorem safeToGroup_cniFeature : ipExhaustion.safeToGroup (cniFeature featureType) = true := rfl

theorem isLegacyFeature_cniFeature (identity : Identity) :
    isLegacyFeature (cniFeature featureType) identity = false := by
  have hversion : strip (cniFeature featureType).schemaVersion = "" := by
    show strip "" = ""
    decide
  have hresolved : (cniFeature featureType).problemResolved = true ∧
    (cniFeature featureType).matchMode.isSome = true := ⟨rfl, rfl⟩
  unfold isLegacyFeature
  dsimp only
  rw [hversion, if_neg (by decide), if_neg (by decide), if_neg (by decide), if_pos hresolved]

theorem fit_cniFeature (htype : normalizeFeatureType featureType ≠ "unknown_feature") :
    Fit ipExhaustion (cniFeature featureType) where
  knownType := htype
  components component hcomponent := by
    have hscope : componentScope (cniFeature featureType) = ["kubelet"] := by
      have hnil : lowered [] = [] := rfl
      unfold componentScope
      show (if lowered [] ≠ [] then _ else if "" ≠ "" then _ else
        sortedSet (lowered ["kubelet"])) = _
      rw [hnil, if_neg (not_not_intro rfl), if_neg (not_not_intro rfl), lowered_component,
        sortedSet_singleton]
    rw [hscope, List.mem_singleton] at hcomponent
    rw [hcomponent]
    decide
  anchors anchor hanchor := by
    have hnone : ipExhaustion.anchorSignatures (cniFeature featureType) = [] := by
      have hnil : ipExhaustion.canonicalTexts [] = [] := rfl
      unfold Resolver.anchorSignatures
      show (if ipExhaustion.canonicalTexts [] ≠ [] then _ else
        if ipExhaustion.safeToGroup (cniFeature featureType) = true then [] else _) = _
      rw [hnil, if_neg (not_not_intro rfl), safeToGroup_cniFeature, if_pos rfl]
    rw [hnone] at hanchor
    exact absurd hanchor List.not_mem_nil
  templateSet hdanger := by
    rw [safeToGroup_cniFeature] at hdanger
    cases hdanger
  semantic _ := rfl

variable (featureType) in
theorem ruleSignature_cniFeature (htype : strip featureType ≠ "") :
    ∃ signature, ruleSignature ipExhaustion.toResolver (cniFeature featureType).featureType
      (cniFeature featureType).sourceTemplates = .ok signature := by
  have htemplates : templatePairs (cniFeature featureType).sourceTemplates ≠ [] := by
    have hstrip : strip "hash-cni-kubelet" = "hash-cni-kubelet" := by decide
    show templatePairs (pluginFeature "hash-cni-kubelet").sourceTemplates ≠ []
    rw [templatePairs_pluginFeature hstrip (by decide)]
    exact List.cons_ne_nil _ _
  unfold ruleSignature
  exact ⟨_, require_bind_eq_ok.mpr ⟨htype, require_bind_eq_ok.mpr ⟨htemplates, rfl⟩⟩⟩

end Cni

section Only

variable {R : RuleResolver μ} {db : Database} {rule : Rule} {moment : Moment} {feature : Feature μ}

theorem takenBy_of_only {α : Type} [DecidableEq α] {ruleId : String} {column : Row → α} {value : α}
    (honly : ∀ other row, db.approvedRules.get? other = some row → other = ruleId) :
    takenBy db ruleId column value = false := by
  unfold takenBy
  rw [List.any_eq_false]
  intro entry hentry
  rw [honly entry.1 entry.2 (Dict.get?_eq_some.mpr hentry), decide_eq_false (not_not_intro rfl),
    Bool.false_and]
  exact Bool.false_ne_true

/-- Nothing stands against saving a rule that has the tables for itself. -/
theorem saved_of_only
    (honly : ∀ other row, db.approvedRules.get? other = some row → other = rule.ruleId)
    (hformed : WellFormed R rule)
    (happroved : approvedRule R moment feature (readLocked R db) = .ok (rule, true)) :
    ∃ row, Saved R rule db (act R db (.upsertFeature moment feature)) row := by
  have hschema : strip (publicRule rule).schemaVersion ≠ "" := by
    show strip rule.schemaVersion ≠ ""
    rw [hformed.schemaVersion, strip_v2SchemaVersion]
    exact v2SchemaVersion_ne_empty
  have hwrite : ∃ next, writeLocked R rule db = .ok next :=
    ⟨_, require_bind_eq_ok.mpr ⟨hschema, require_bind_eq_ok.mpr ⟨takenBy_of_only honly,
      require_bind_eq_ok.mpr ⟨.inr (takenBy_of_only honly), rfl⟩⟩⟩⟩
  obtain ⟨next, hnext⟩ := hwrite
  obtain ⟨row, hsaved⟩ := saved_of_writeLocked hnext
  refine ⟨row, ?_⟩
  unfold act
  rw [show perform R db (.upsertFeature moment feature) = .ok (publicRule rule, next) from
    upsertFeature_of_writeLocked happroved hnext, settled_ok]
  exact hsaved

/-- A rule of the second format that is well formed and whole is valid. -/
theorem valid_of_wellFormed (hformed : WellFormed R rule) (hintact : rule.integrityErrors = []) :
    hasFormat R .validV2 rule = true := by
  refine hasFormat_validV2_iff.mpr ⟨hintact, ?_, hformed⟩
  rw [hformed.schemaVersion, strip_v2SchemaVersion]

theorem not_malformed_of_valid (h : hasFormat R .validV2 rule = true) :
    hasFormat R .malformedV2 rule = false := by
  unfold hasFormat
  rw [kind_of_hasFormat h]
  rfl

theorem not_occupies_of_valid (hvalid : Valid R db) (baseSignature : String) :
    (readLocked R db).find? (occupies R feature baseSignature) = none := by
  refine List.find?_eq_none.mpr fun rule hrule => ?_
  unfold occupies
  rw [not_malformed_of_valid (hvalid rule hrule), Bool.false_and]
  exact Bool.false_ne_true

/-- Nothing stands against a rollback to a valid version at the expected one. -/
theorem rollback_of_only (hlaws : Lawful R) (hsound : Sound R db) (request : Rollback) {row : Row}
    {target : Version} (hrow : db.approvedRules.get? request.ruleId = some row)
    (honly : ∀ other row, db.approvedRules.get? other = some row → other = request.ruleId)
    (htarget : db.ruleVersions.get? (request.ruleId, request.targetVersion) = some target)
    (hvalid : hasFormat R .validV2 target.ruleJson = true)
    (hgiven : request.confirmed = true ∧ strip request.operator ≠ "" ∧ strip request.reason ≠ "")
    (hexpected : row.currentVersion = request.expectedVersion)
    (hfresh : (request.ruleId, row.currentVersion + 1) ∉ db.ruleVersions.keys) :
    ∃ returned next, rollback R request db = .ok (returned, next) := by
  have hread : getRule R db request.ruleId = some (hydratePersistedRule R request.ruleId row) :=
    getRule_eq_some.mpr ⟨row, hrow, rfl⟩
  have hschema := (wellFormed_of_validV2 hvalid).schemaVersion
  have hnormal : normalizeLegacyRuleVersion R target.ruleJson = .ok target.ruleJson := by
    unfold normalizeLegacyRuleVersion
    dsimp only
    rw [hschema, strip_v2SchemaVersion, if_neg v2SchemaVersion_ne_legacy, if_pos rfl]
    exact require_bind_eq_ok.mpr ⟨hvalid, rfl⟩
  have hid : (hydratePersistedRule R request.ruleId row).ruleId = request.ruleId :=
    (hsound.rows _ row hrow).ruleId
  have hcurrent := wellFormed_of_validV2 ((hsound.rows _ row hrow).valid hlaws)
  have hformed := wellFormed_of_validV2 hvalid
  have hsnapshot : hasFormat R .malformedV2
      (rollbackSnapshot target.ruleJson (hydratePersistedRule R request.ruleId row)) = false := by
    refine not_malformed_of_valid (valid_of_wellFormed ?_ (hasFormat_validV2_iff.mp hvalid).1)
    exact hformed.sameIdentity hlaws ⟨⟨rfl, rfl, rfl, rfl, rfl, rfl, rfl⟩, rfl, rfl, rfl, rfl, rfl, rfl⟩
      hcurrent.ruleId hcurrent.signature hformed.status hformed.currentVersion
  generalize hydratePersistedRule R request.ruleId row = current at *
  have hcommit (record : Change) (hrecord : record.expectedVersion = request.expectedVersion) :
      ∃ result, commitVersion R (rollbackSnapshot target.ruleJson current) record db = .ok result := by
    have hsame : (rollbackSnapshot target.ruleJson current).ruleId = request.ruleId := hid
    generalize rollbackSnapshot target.ruleJson current = snapshot at *
    unfold commitVersion
    refine ⟨_, orFail_bind_eq_ok.mpr ⟨row, by rw [hsame, hrow], require_bind_eq_ok.mpr
      ⟨hexpected.trans hrecord.symm, require_bind_eq_ok.mpr ⟨hsnapshot, require_bind_eq_ok.mpr
        ⟨.inr (takenBy_of_only ?_), require_bind_eq_ok.mpr ⟨?_, rfl⟩⟩⟩⟩⟩⟩
    · rw [hsame]
      exact honly
    · rw [hsame]
      exact hfresh
  obtain ⟨⟨returned, next⟩, hresult⟩ := hcommit
    { expectedVersion := request.expectedVersion
      changeType := "rolled_back"
      reason := strip request.reason
      operator := strip request.operator
      createdAt := request.createdAt } rfl
  refine ⟨returned, next, ?_⟩
  unfold rollback
  exact require_bind_eq_ok.mpr ⟨hgiven.1, require_bind_eq_ok.mpr ⟨hgiven.2.1,
    require_bind_eq_ok.mpr ⟨hgiven.2.2, orFail_bind_eq_ok.mpr ⟨current, hread,
      orFail_bind_eq_ok.mpr ⟨target, htarget, bind_eq_ok.mpr ⟨target.ruleJson, hnormal,
        require_bind_eq_ok.mpr ⟨not_malformed_of_valid hvalid, hresult⟩⟩⟩⟩⟩⟩⟩

end Only

section TwoTypes

variable {featureType : String} {db : Database}

theorem identityKey_cniFeature (featureType : String) :
    (approvalIdentity ipExhaustion.toResolver (cniFeature featureType)).approvalKey =
      codeKey ipExhaustion.toResolver "kubernetes.cni.ip_exhaustion" :=
  identityKey_of_safe lawful_ipExhaustion safeToGroup_cniFeature

/-- The first approval. -/
theorem approvedRule_cniFeature_nil (moment : Moment) {signature : String}
    (hsignature : ruleSignature ipExhaustion.toResolver (cniFeature featureType).featureType
      (cniFeature featureType).sourceTemplates = .ok signature) :
    approvedRule ipExhaustion moment (cniFeature featureType) [] =
      .ok (createdRule ipExhaustion moment (cniFeature featureType) [] signature, true) := by
  have hnone : existingRule ipExhaustion (cniFeature featureType) [] = none :=
    Option.eq_none_iff_forall_not_mem.mpr fun rule hrule =>
      absurd (mem_of_existingRule hrule) List.not_mem_nil
  unfold approvedRule
  refine bind_eq_ok.mpr ⟨signature, hsignature, ?_⟩
  dsimp only
  rw [List.find?_nil, hnone]
  rfl

/-- The approval under another type finds the rule by its key. -/
theorem approvedRule_cniFeature (moment : Moment) {signature : String}
    (hsignature : ruleSignature ipExhaustion.toResolver (cniFeature featureType).featureType
      (cniFeature featureType).sourceTemplates = .ok signature)
    (hvalid : Valid ipExhaustion db) {existing : Rule}
    (honly : ∀ rule ∈ readLocked ipExhaustion db, rule = existing)
    (hmem : existing ∈ readLocked ipExhaustion db) (hactive : isActive existing = true)
    (hmode : existing.matchMode = some .semantic)
    (hkey : existing.approvalKey = codeKey ipExhaustion.toResolver "kubernetes.cni.ip_exhaustion") :
    ∃ text, approvedRule ipExhaustion moment (cniFeature featureType) (readLocked ipExhaustion db) =
      .ok (updatedRule ipExhaustion moment (cniFeature featureType) existing text, true) := by
  have hsemantic : (approvalIdentity ipExhaustion.toResolver (cniFeature featureType)).matchMode =
    .semantic := rfl
  have hexact : v2ExactFeatureMatch ipExhaustion existing (cniFeature featureType)
      (approvalIdentity ipExhaustion.toResolver (cniFeature featureType)) = true := by
    have hfiled : FiledUnder ipExhaustion (cniFeature featureType) existing :=
      .inl (hkey.trans (identityKey_cniFeature featureType).symm)
    unfold v2ExactFeatureMatch
    rw [hvalid existing hmem, Bool.not_true, if_neg Bool.false_ne_true,
      if_neg (keys_of_filedUnder hfiled), hmode, hsemantic]
    exact decide_eq_true rfl
  have hfound : existingRule ipExhaustion (cniFeature featureType) (readLocked ipExhaustion db) =
      some existing := by
    cases hcases : existingRule ipExhaustion (cniFeature featureType) (readLocked ipExhaustion db) with
    | some found => rw [honly found (mem_of_existingRule hcases)]
    | none =>
        have hmatch := existingRule_eq_none.mp hcases existing hmem
        unfold activeRuleMatches at hmatch
        dsimp only at hmatch
        rw [isLegacyFeature_cniFeature, if_neg Bool.false_ne_true, hactive, hvalid existing hmem,
          hexact] at hmatch
        cases hmatch
  refine ⟨chosenSignature ipExhaustion (readLocked ipExhaustion db) signature (firstGiven
    existing.approvalKey (approvalIdentity ipExhaustion.toResolver (cniFeature featureType)).approvalKey)
    (some existing), ?_⟩
  unfold approvedRule
  refine bind_eq_ok.mpr ⟨signature, hsignature, ?_⟩
  dsimp only
  rw [not_occupies_of_valid hvalid, hfound]
  dsimp only
  rw [isLegacyFeature_cniFeature, if_neg Bool.false_ne_true]
  rfl

end TwoTypes

def cniRuleId : String :=
  approvalRuleId (codeKey ipExhaustion.toResolver "kubernetes.cni.ip_exhaustion")

def secondOfJanuary : Moment := ⟨"2026-01-02T00:00:00+00:00", "2026-02-01T00:00:00+00:00"⟩

def twoTypes : List (Call Unit) :=
  [.upsertFeature firstOfJanuary (cniFeature "cni_network_failure"),
    .upsertFeature secondOfJanuary (cniFeature "network_failure")]

def backToTheFirst : Rollback where
  ruleId := cniRuleId
  targetVersion := 1
  expectedVersion := 2
  confirmed := true
  operator := "operator"
  reason := "wrong type"
  createdAt := "2026-01-03T00:00:00+00:00"

theorem normalizeFeatureType_cni : normalizeFeatureType "cni_network_failure" =
    "cni_network_failure" := by decide +kernel

theorem normalizeFeatureType_network : normalizeFeatureType "network_failure" =
    "network_failure" := by decide +kernel

/-- A feature resolved safely is fit for a rule whatever rules there are. -/
theorem fitting_cniFeature (featureType : String) (moment : Moment) (db : Database)
    (htype : normalizeFeatureType featureType ≠ "unknown_feature") :
    Fitting ipExhaustion db (.upsertFeature moment (cniFeature featureType)) := by
  refine ⟨fit_cniFeature htype, fun hdanger => ?_⟩
  rw [safeToGroup_cniFeature] at hdanger
  cases hdanger

/-- Both approvals leave a valid rule. -/
theorem twoTypes_valid : Along (act ipExhaustion)
    (fun db call => Valid ipExhaustion (act ipExhaustion db call)) ∅ twoTypes := by
  refine validity_preserved lawful_ipExhaustion ⟨fitting_cniFeature _ _ _ ?_, fitting_cniFeature _ _ _ ?_,
    trivial⟩
  · rw [normalizeFeatureType_cni]
    decide
  · rw [normalizeFeatureType_network]
    decide

/-- The state after the approvals: one row of the second type, whose first version is of
the first. -/
structure AfterTwoTypes (db : Database) (row : Row) (first : Version) : Prop where
  sound : Sound ipExhaustion db
  found : db.approvedRules.get? cniRuleId = some row
  only : ∀ other row, db.approvedRules.get? other = some row → other = cniRuleId
  featureType : row.featureType = "network_failure"
  currentVersion : row.currentVersion = 2
  version : db.ruleVersions.get? (cniRuleId, 1) = some first
  firstType : first.ruleJson.featureType = "cni_network_failure"
  firstValid : hasFormat ipExhaustion .validV2 first.ruleJson = true
  fresh : (cniRuleId, 3) ∉ db.ruleVersions.keys

/-- The state after the first approval. -/
structure AfterOneType (db : Database) (rule : Rule) (row : Row) : Prop where
  sound : Sound ipExhaustion db
  formed : WellFormed ipExhaustion rule
  ruleId : rule.ruleId = cniRuleId
  featureType : rule.featureType = "cni_network_failure"
  approvalKey : rule.approvalKey = codeKey ipExhaustion.toResolver "kubernetes.cni.ip_exhaustion"
  matchMode : rule.matchMode = some .semantic
  saved : Saved ipExhaustion rule ∅ db row
  currentVersion : row.currentVersion = 1
  status : row.status = "active"

theorem after_first_type : ∃ rule row, AfterOneType (act ipExhaustion ∅
    (.upsertFeature firstOfJanuary (cniFeature "cni_network_failure"))) rule row := by
  have hfitting := fitting_cniFeature "cni_network_failure" firstOfJanuary ∅ (by
    rw [normalizeFeatureType_cni]
    decide)
  obtain ⟨signature, hsignature⟩ := ruleSignature_cniFeature "cni_network_failure" (by decide)
  have happroved : approvedRule ipExhaustion firstOfJanuary (cniFeature "cni_network_failure")
      (readLocked ipExhaustion ∅) = _ := approvedRule_cniFeature_nil firstOfJanuary hsignature
  have hwritten : WrittenFor ipExhaustion (cniFeature "cni_network_failure")
      (createdRule ipExhaustion firstOfJanuary (cniFeature "cni_network_failure") [] signature) :=
    writtenFor_createdRule signature
  have hpredecessor : predecessorRule ipExhaustion (cniFeature "cni_network_failure") [] = none := by
    unfold predecessorRule
    exact preferredRule_eq_none.mpr rfl
  have hid : (createdRule ipExhaustion firstOfJanuary (cniFeature "cni_network_failure") []
      signature).ruleId = cniRuleId := by
    unfold cniRuleId
    rw [← identityKey_cniFeature "cni_network_failure"]
    rfl
  have hkey : (createdRule ipExhaustion firstOfJanuary (cniFeature "cni_network_failure") []
      signature).approvalKey = codeKey ipExhaustion.toResolver "kubernetes.cni.ip_exhaustion" := by
    show newApprovalKey ipExhaustion (cniFeature "cni_network_failure") []
      (predecessorRule ipExhaustion (cniFeature "cni_network_failure") []) = _
    rw [hpredecessor, ← identityKey_cniFeature "cni_network_failure"]
    exact storageKey_of_safe safeToGroup_cniFeature
  have hversion : (createdRule ipExhaustion firstOfJanuary (cniFeature "cni_network_failure") []
      signature).currentVersion = 1 := rfl
  generalize createdRule ipExhaustion firstOfJanuary (cniFeature "cni_network_failure") []
    signature = rule at *
  obtain ⟨hformed, -, hstatus⟩ := wellFormed_of_approving lawful_ipExhaustion (sound_empty _) hfitting
    (approving_of_approvedRule happroved)
  obtain ⟨row, hsaved⟩ := saved_of_only (fun _ _ h => by cases h) hformed happroved
  have hrow := hsaved.row_eq
  refine ⟨rule, row, sound_act lawful_ipExhaustion (sound_empty _) hfitting, hformed, hid, ?_, hkey,
    hwritten.matchMode, hsaved, ?_, ?_⟩
  · rw [hwritten.featureType]
    exact normalizeFeatureType_cni
  · rw [hrow]
    show (if rule.currentVersion = 0 then 1 else rule.currentVersion) = 1
    rw [hversion]
    rfl
  · rw [hrow]
    show firstGiven rule.status "active" = "active"
    rw [hstatus]
    decide

theorem after_two_types {db : Database} {rule : Rule} {row : Row} (h : AfterOneType db rule row) :
    ∃ row first, AfterTwoTypes (act ipExhaustion db
      (.upsertFeature secondOfJanuary (cniFeature "network_failure"))) row first := by
  have hfitting := fitting_cniFeature "network_failure" secondOfJanuary db (by
    rw [normalizeFeatureType_network]
    decide)
  obtain ⟨signature, hsignature⟩ := ruleSignature_cniFeature "network_failure" (by decide)
  have hget (other : String) (found : Row) (hfound : db.approvedRules.get? other = some found) :
      other = cniRuleId ∧ found = row := by
    rw [h.saved.rows, Dict.get?_set] at hfound
    split at hfound
    · rename_i heq
      exact ⟨heq.symm.trans h.ruleId, (Option.some.inj hfound).symm⟩
    · cases hfound
  have hrow : db.approvedRules.get? cniRuleId = some row := by
    rw [h.saved.rows, h.ruleId, Dict.get?_set_self]
  have hjson : row.ruleJson = publicRule rule := by
    rw [h.saved.row_eq]
    rfl
  -- The one rule that is read is the first one.
  have honly (found : Rule) (hfound : found ∈ readLocked ipExhaustion db) :
      found = hydratePersistedRule ipExhaustion cniRuleId row := by
    obtain ⟨ruleId, hread⟩ := mem_readLocked.mp hfound
    obtain ⟨old, hold, rfl⟩ := getRule_eq_some.mp hread
    obtain ⟨rfl, rfl⟩ := hget ruleId old hold
    rfl
  have hmem : hydratePersistedRule ipExhaustion cniRuleId row ∈ readLocked ipExhaustion db :=
    mem_readLocked.mpr ⟨cniRuleId, getRule_eq_some.mpr ⟨row, hrow, rfl⟩⟩
  have hexistingId : (hydratePersistedRule ipExhaustion cniRuleId row).ruleId = cniRuleId := by
    rw [ruleId_hydrate, hjson]
    exact h.ruleId
  have hexistingType : (hydratePersistedRule ipExhaustion cniRuleId row).featureType =
      "cni_network_failure" := by
    show row.ruleJson.featureType = _
    rw [hjson]
    exact h.featureType
  have hexistingVersion : (hydratePersistedRule ipExhaustion cniRuleId row).currentVersion = 1 :=
    h.currentVersion
  have hexistingMode : (hydratePersistedRule ipExhaustion cniRuleId row).matchMode =
      some .semantic := by
    show row.ruleJson.matchMode = _
    rw [hjson]
    exact h.matchMode
  have hexistingKey : (hydratePersistedRule ipExhaustion cniRuleId row).approvalKey =
      codeKey ipExhaustion.toResolver "kubernetes.cni.ip_exhaustion" := by
    show row.ruleJson.approvalKey = _
    rw [hjson]
    exact h.approvalKey
  have hexistingActive : isActive (hydratePersistedRule ipExhaustion cniRuleId row) = true :=
    isActive_of_status h.status
  generalize hydratePersistedRule ipExhaustion cniRuleId row = existing at *
  obtain ⟨text, happroved⟩ := approvedRule_cniFeature secondOfJanuary hsignature
    (h.sound.valid lawful_ipExhaustion) honly hmem hexistingActive hexistingMode hexistingKey
  have hwritten : WrittenFor ipExhaustion (cniFeature "network_failure") (updatedRule ipExhaustion
      secondOfJanuary (cniFeature "network_failure") existing text) :=
    writtenFor_updatedRule existing text
  have hupdates := updates_updatedRule ipExhaustion secondOfJanuary (cniFeature "network_failure")
    existing text
  generalize updatedRule ipExhaustion secondOfJanuary (cniFeature "network_failure") existing text =
    updated at *
  have htype : updated.featureType = "network_failure" :=
    hwritten.featureType.trans normalizeFeatureType_network
  have hid : updated.ruleId = cniRuleId := hupdates.ruleId.trans hexistingId
  have hversion : updated.currentVersion = 2 := by
    have hdiffer : versionedFields existing ≠ versionedFields updated := by
      intro hsame
      have htypes := congrArg Rule.featureType hsame
      have htypes : existing.featureType = updated.featureType := htypes
      rw [hexistingType, htype] at htypes
      exact absurd htypes (by decide)
    rw [hupdates.currentVersion, hexistingVersion, if_neg hdiffer, max_self]
  obtain ⟨hformed, -, -⟩ := wellFormed_of_approving lawful_ipExhaustion h.sound hfitting
    (approving_of_approvedRule happroved)
  obtain ⟨second, hsaved⟩ := saved_of_only
    (fun other found hfound => (hget other found hfound).1.trans hid.symm) hformed happroved
  have hsecond := hsaved.row_eq
  have hcurrent : second.currentVersion = 2 := by
    rw [hsecond]
    show (if updated.currentVersion = 0 then 1 else updated.currentVersion) = 2
    rw [hversion]
    rfl
  obtain ⟨first, hfirstJson, hfirst⟩ := h.saved.versions
  have hnew : (rule.ruleId, row.currentVersion) ∉ (∅ : Database).ruleVersions.keys := List.not_mem_nil
  rw [if_neg hnew, h.ruleId, h.currentVersion] at hfirst
  have hfirstGet : db.ruleVersions.get? (cniRuleId, 1) = some first := by
    rw [hfirst, Dict.get?_set_self]
  refine ⟨second, first, sound_act lawful_ipExhaustion h.sound hfitting, ?_, ?_, ?_, hcurrent, ?_, ?_,
    ?_, ?_⟩
  · rw [hsaved.rows, hid, Dict.get?_set_self]
  · intro other found hfound
    rw [hsaved.rows, Dict.get?_set] at hfound
    split at hfound
    · rename_i heq
      exact heq.symm.trans hid
    · exact (hget other found hfound).1
  · rw [hsecond]
    exact htype
  · exact kept_of_saved hsaved hfirstGet
  · rw [hfirstJson]
    exact h.featureType
  · rw [hfirstJson]
    exact valid_of_wellFormed (wellFormed_publicRule lawful_ipExhaustion h.formed) rfl
  · obtain ⟨written, -, hversions⟩ := hsaved.versions
    have hkeys : (cniRuleId, 3) ∉ db.ruleVersions.keys := by
      rw [hfirst]
      intro hmem
      rcases Dict.mem_keys_alter.mp hmem with hmem | hmem
      · exact absurd hmem List.not_mem_nil
      · exact absurd (Prod.mk.inj hmem).2 (by decide)
    rw [hversions, hcurrent]
    split
    · exact hkeys
    · intro hmem
      rcases Dict.mem_keys_alter.mp hmem with hmem | hmem
      · exact hkeys hmem
      · exact absurd (Prod.mk.inj hmem).2 (by decide)

/-- Going back to the first version leaves the second type in the column, and a rule that is
read as malformed. -/
theorem rollback_over_types_breaks_validity : ¬ Along (act ipExhaustion)
    (fun db call => Valid ipExhaustion (act ipExhaustion db call)) ∅
    (twoTypes ++ [.rollback backToTheFirst]) := by
  rintro ⟨-, -, hvalid, -⟩
  obtain ⟨rule, row, hone⟩ := after_first_type
  obtain ⟨second, first, htwo⟩ := after_two_types hone
  obtain ⟨returned, next, hcall⟩ := rollback_of_only lawful_ipExhaustion htwo.sound
    backToTheFirst htwo.found htwo.only htwo.version htwo.firstValid
    ⟨rfl, by decide +kernel, by decide +kernel⟩ htwo.currentVersion (htwo.currentVersion ▸ htwo.fresh)
  refine rollback_breaks_validity lawful_ipExhaustion htwo.sound backToTheFirst htwo.found
    htwo.version ?_ hcall ?_
  · rw [htwo.firstType, htwo.featureType]
    decide
  · have hperform : perform ipExhaustion (act ipExhaustion (act ipExhaustion ∅
        (.upsertFeature firstOfJanuary (cniFeature "cni_network_failure")))
        (.upsertFeature secondOfJanuary (cniFeature "network_failure"))) (.rollback backToTheFirst) =
        .ok (returned, next) := hcall
    unfold act at hvalid
    unfold act at hperform
    rw [hperform, settled_ok] at hvalid
    exact hvalid

end LogRisk.Governance
