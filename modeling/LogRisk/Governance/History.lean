import LogRisk.Governance.Writes
import LogRisk.Approval.Distinct

/-!
# The history of a rule

The versions of a rule run from one to its current version, a stored version never
changes, and the latest one has the content of the row.  A call under a version that is
not current writes nothing.
-/

namespace LogRisk.Governance

open LogRisk.Library LogRisk.Library.Text LogRisk.Library.Transaction LogRisk.Approval

variable {μ : Type}

/-! ## Content -/

/-- All of a rule but its reuse counters and the time of its last update. -/
def content (rule : Rule) : Rule :=
  { rule with
    updatedAt := ""
    reuseCount := 0
    lastReusedAt := none
    integrityErrors := [] }

@[simp] theorem content_publicRule (rule : Rule) : content (publicRule rule) = content rule := rfl

@[simp] theorem content_reusedRule (rule : Rule) (now : String) :
    content (reusedRule rule now) = content rule := rfl

/-- Two rules with the same content in all that an approval looks at, and the rest. -/
theorem content_eq_of_versionedFields {a b : Rule} (h : versionedFields a = versionedFields b)
    (hid : a.ruleId = b.ruleId) (happroved : a.approvedAt = b.approvedAt)
    (hcreated : a.createdAt = b.createdAt) (hschema : a.schemaVersion = b.schemaVersion)
    (hstatus : a.status = b.status) (hreview : a.nextReviewAt = b.nextReviewAt)
    (hversion : a.currentVersion = b.currentVersion) (hextra : a.extra = b.extra) :
    content a = content b := by
  cases a
  cases b
  simp only [versionedFields, Rule.mk.injEq] at h
  simp only [content, Rule.mk.injEq]
  simp_all only [and_self]

/-- The format column stands in for a format the JSON lacks. -/
def Unversioned (rule : Rule) (row : Row) : Prop :=
  strip rule.schemaVersion = "" ∧ row.schemaVersion = legacySchemaVersion ∧
    hasV2IdentityMarkers rule = false

theorem not_unversioned {rule : Rule} {row : Row} (h : row.schemaVersion = rule.schemaVersion) :
    ¬ Unversioned rule row := by
  rintro ⟨hblank, hlegacy, -⟩
  rw [← h, hlegacy] at hblank
  exact absurd hblank (by decide)

/-- What a row whose columns agree with its JSON is read as. -/
theorem content_hydrate {R : RuleResolver μ} {ruleId : String} {row : Row} (rule : Rule)
    (hjson : row.ruleJson = rule) (hschema : ¬ Unversioned rule row)
    (hstatus : row.status = rule.status) (hversion : row.currentVersion = rule.currentVersion)
    (hreview : row.nextReviewAt = rule.nextReviewAt) (happroved : row.approvedAt = rule.approvedAt)
    (hcreated : rule.createdAt = "" → rule.approvedAt = "") :
    content (hydratePersistedRule R ruleId row) = content rule := by
  have hschema' : (lifecycle row).schemaVersion = rule.schemaVersion := by
    unfold lifecycle
    dsimp only
    rw [hjson]
    exact if_neg hschema
  have hcreated' : firstGiven rule.createdAt rule.approvedAt = rule.createdAt := by
    unfold firstGiven
    split
    · rename_i hempty
      rw [hempty, hcreated hempty]
    · rfl
  unfold content hydratePersistedRule
  dsimp only
  rw [hschema']
  unfold lifecycle
  dsimp only
  rw [hjson, hstatus, hversion, hreview, happroved, hcreated']

/-! ## Consistent tables -/

structure Consistent (R : RuleResolver μ) (db : Database) : Prop where
  ruleIds : ∀ ruleId row, db.approvedRules.get? ruleId = some row → row.ruleJson.ruleId = ruleId
  positive : ∀ ruleId row, db.approvedRules.get? ruleId = some row → 1 ≤ row.currentVersion
  contiguous : ∀ ruleId row, db.approvedRules.get? ruleId = some row →
    ∀ n, (ruleId, n) ∈ db.ruleVersions.keys ↔ 1 ≤ n ∧ n ≤ row.currentVersion
  owned : ∀ ruleId n, (ruleId, n) ∈ db.ruleVersions.keys → ruleId ∈ db.approvedRules.keys
  latest : ∀ ruleId row version, db.approvedRules.get? ruleId = some row →
    db.ruleVersions.get? (ruleId, row.currentVersion) = some version →
      content version.ruleJson = content (hydratePersistedRule R ruleId row)

theorem consistent_empty (R : RuleResolver μ) : Consistent R ∅ := by
  refine ⟨?_, ?_, ?_, ?_, ?_⟩ <;> intro ruleId row
  · exact fun h => by cases h
  · exact fun h => by cases h
  · exact fun h => by cases h
  · exact fun h => absurd h List.not_mem_nil
  · exact fun _ h => by cases h

section Write

variable {R : RuleResolver μ} {db next : Database} {ruleId : String} {row : Row}

/-- A call that writes one row and versions of that row only. -/
theorem Consistent.write (h : Consistent R db)
    (hrows : next.approvedRules = db.approvedRules.set ruleId row)
    (hid : row.ruleJson.ruleId = ruleId) (hpositive : 1 ≤ row.currentVersion)
    (hothers : ∀ other n, other ≠ ruleId →
      next.ruleVersions.get? (other, n) = db.ruleVersions.get? (other, n))
    (hcontiguous : ∀ n, (ruleId, n) ∈ next.ruleVersions.keys ↔ 1 ≤ n ∧ n ≤ row.currentVersion)
    (hlatest : ∀ version, next.ruleVersions.get? (ruleId, row.currentVersion) = some version →
      content version.ruleJson = content (hydratePersistedRule R ruleId row)) :
    Consistent R next := by
  have hget (other : String) (found : Row) (hfound : next.approvedRules.get? other = some found) :
      other = ruleId ∧ found = row ∨ other ≠ ruleId ∧ db.approvedRules.get? other = some found := by
    rw [hrows, Dict.get?_set] at hfound
    split at hfound
    · rename_i heq
      exact .inl ⟨heq.symm, (Option.some.inj hfound).symm⟩
    · rename_i hne
      exact .inr ⟨Ne.symm hne, hfound⟩
  have hkeys (other : String) (n : ℕ) (hne : other ≠ ruleId) :
      (other, n) ∈ next.ruleVersions.keys ↔ (other, n) ∈ db.ruleVersions.keys := by
    rw [← Dict.isSome_get?, ← Dict.isSome_get?, hothers other n hne]
  constructor
  · intro other found hfound
    rcases hget other found hfound with ⟨rfl, rfl⟩ | ⟨-, hold⟩
    · exact hid
    · exact h.ruleIds other found hold
  · intro other found hfound
    rcases hget other found hfound with ⟨rfl, rfl⟩ | ⟨-, hold⟩
    · exact hpositive
    · exact h.positive other found hold
  · intro other found hfound n
    rcases hget other found hfound with ⟨rfl, rfl⟩ | ⟨hne, hold⟩
    · exact hcontiguous n
    · rw [hkeys other n hne]
      exact h.contiguous other found hold n
  · intro other n hmem
    rw [hrows]
    refine Dict.mem_keys_alter.mpr ?_
    by_cases hne : other = ruleId
    · exact .inr hne
    · exact .inl (h.owned other n ((hkeys other n hne).mp hmem))
  · intro other found version hfound hversion
    rcases hget other found hfound with ⟨rfl, rfl⟩ | ⟨hne, hold⟩
    · exact hlatest version hversion
    · rw [hothers other _ hne] at hversion
      exact h.latest other found version hold hversion

/-- The next version is written together with the row. -/
theorem Consistent.newVersion (h : Consistent R db) {version : Version}
    (hrows : next.approvedRules = db.approvedRules.set ruleId row)
    (hversions : next.ruleVersions = db.ruleVersions.set (ruleId, row.currentVersion) version)
    (hid : row.ruleJson.ruleId = ruleId) (hpositive : 1 ≤ row.currentVersion)
    (hbefore : ∀ n, (ruleId, n) ∈ db.ruleVersions.keys ↔ 1 ≤ n ∧ n < row.currentVersion)
    (hcontent : content version.ruleJson = content (hydratePersistedRule R ruleId row)) :
    Consistent R next := by
  refine h.write hrows hid hpositive (fun other n hne => ?_) (fun n => ?_) fun found hfound => ?_
  · rw [hversions, Dict.get?_set_of_ne fun heq => hne (Prod.mk.inj heq).1.symm]
  · rw [hversions]
    refine Dict.mem_keys_alter.trans ?_
    rw [hbefore, Prod.mk.injEq]
    constructor
    · rintro (⟨hone, hlt⟩ | ⟨-, rfl⟩)
      · exact ⟨hone, hlt.le⟩
      · exact ⟨hpositive, le_refl _⟩
    · rintro ⟨hone, hle⟩
      rcases hle.lt_or_eq with hlt | rfl
      · exact .inl ⟨hone, hlt⟩
      · exact .inr ⟨rfl, rfl⟩
  · rw [hversions, Dict.get?_set_self, Option.some.injEq] at hfound
    rw [← hfound, hcontent]

/-- The row is written under its current version. -/
theorem Consistent.sameVersion (h : Consistent R db) {old : Row}
    (hold : db.approvedRules.get? ruleId = some old)
    (hrows : next.approvedRules = db.approvedRules.set ruleId row)
    (hversions : next.ruleVersions = db.ruleVersions) (hid : row.ruleJson.ruleId = ruleId)
    (hversion : row.currentVersion = old.currentVersion)
    (hcontent : content (hydratePersistedRule R ruleId row) =
      content (hydratePersistedRule R ruleId old)) : Consistent R next := by
  refine h.write hrows hid ?_ (fun other n _ => by rw [hversions]) (fun n => ?_) fun found hfound => ?_
  · rw [hversion]
    exact h.positive ruleId old hold
  · rw [hversions, hversion]
    exact h.contiguous ruleId old hold n
  · rw [hversions, hversion] at hfound
    rw [hcontent]
    exact h.latest ruleId old found hold hfound

end Write

/-! ## Orderly calls -/

/-- A snapshot has the approval time of the row and names its creation time. -/
structure Dated (rule : Rule) (row : Row) : Prop where
  approvedAt : rule.approvedAt = row.approvedAt
  createdAt : rule.createdAt = "" → rule.approvedAt = ""

/-- A feature that gets a rule of its own finds a free id; a rule that is matched with a
feature that has nothing new for it has no key that would be dropped; a snapshot committed
from outside is dated as its row. -/
def Orderly (R : RuleResolver μ) (db : Database) : Call μ → Prop
  | .upsertFeature moment feature =>
      (existingRule R feature (readLocked R db) = none → IdFree R feature (readLocked R db)) ∧
        ∀ existing, existingRule R feature (readLocked R db) = some existing →
          versionedFields existing =
            versionedFields (updatedRule R moment feature existing existing.signature) →
          existing.createdAt ≠ "" ∧ existing.extra = []
  | .commitVersion rule _ => ∀ row, db.approvedRules.get? rule.ruleId = some row → Dated rule row
  | _ => True

section Keep

variable {R : RuleResolver μ} {db next : Database} {rule : Rule} {row : Row}

theorem Consistent.committed (h : Consistent R db) {change : Change}
    (hcommitted : Committed R rule change db next row) (hdated : Dated rule row) :
    Consistent R next := by
  obtain ⟨version, hjson, hversions⟩ := hcommitted.versions
  refine h.newVersion hcommitted.rows hversions rfl (Nat.le_add_left 1 _) (fun n => ?_) ?_
  · exact (h.contiguous rule.ruleId row hcommitted.found n).trans
      (and_congr_right fun _ => Nat.lt_succ_iff.symm)
  · rw [hjson]
    symm
    refine content_hydrate (committedRule rule (row.currentVersion + 1) change.createdAt)
      ?_ (not_unversioned ?_) ?_ ?_ ?_ hdated.approvedAt.symm hdated.createdAt
    all_goals unfold committedRow committedRule publicRule; dsimp only

theorem dated_hydrate {ruleId : String} (hdate : rule.approvedAt = row.approvedAt)
    (hcreated : rule.createdAt = (hydratePersistedRule R ruleId row).createdAt) : Dated rule row := by
  refine ⟨hdate, fun hempty => ?_⟩
  rw [hdate]
  exact createdAt_hydrate_eq_empty (hcreated.symm.trans hempty)

theorem Consistent.reused (h : Consistent R db) {ruleId now : String}
    (hreused : Reused R ruleId now db next row) : Consistent R next := by
  refine h.sameVersion hreused.found hreused.rows hreused.versions
    (h.ruleIds ruleId row hreused.found) rfl ?_
  have hcreated (hempty : (hydratePersistedRule R ruleId row).createdAt = "") :
      row.approvedAt = "" := createdAt_hydrate_eq_empty hempty
  rw [← content_reusedRule (hydratePersistedRule R ruleId row) now]
  refine content_hydrate _ ?_ ?_ ?_ ?_ ?_ ?_ hcreated
  case refine_2 =>
    -- Reading the row again finds the format the JSON was given before.
    rintro ⟨hblank, hlegacy, hmarkers⟩
    have hsame : hasV2IdentityMarkers (reusedRule (hydratePersistedRule R ruleId row) now) =
        hasV2IdentityMarkers row.ruleJson := by
      unfold hasV2IdentityMarkers reusedRule publicRule hydratePersistedRule lifecycle
      dsimp only
    rw [hsame] at hmarkers
    unfold reusedRule publicRule hydratePersistedRule lifecycle at hblank
    dsimp only at hblank
    split at hblank
    · exact absurd hblank (by decide)
    · rename_i hno
      exact hno ⟨hblank, hlegacy, hmarkers⟩
  all_goals rfl

/-- The id of a rule that is read is its key. -/
theorem Consistent.ruleId_of_getRule (h : Consistent R db) {ruleId : String}
    (hrule : getRule R db ruleId = some rule) : rule.ruleId = ruleId := by
  obtain ⟨row, hrow, rfl⟩ := getRule_eq_some.mp hrule
  exact h.ruleIds ruleId row hrow

theorem Consistent.get?_of_mem (h : Consistent R db) (hmem : rule ∈ readLocked R db) :
    ∃ row, db.approvedRules.get? rule.ruleId = some row ∧
      hydratePersistedRule R rule.ruleId row = rule := by
  obtain ⟨ruleId, hrule⟩ := mem_readLocked.mp hmem
  rw [h.ruleId_of_getRule hrule]
  exact getRule_eq_some.mp hrule

theorem Consistent.get?_eq_none (h : Consistent R db) {ruleId : String}
    (hfree : ruleId ∉ (readLocked R db).map Rule.ruleId) : db.approvedRules.get? ruleId = none := by
  cases hrow : db.approvedRules.get? ruleId with
  | none => rfl
  | some row =>
      have hrule : getRule R db ruleId = some (hydratePersistedRule R ruleId row) :=
        getRule_eq_some.mpr ⟨row, hrow, rfl⟩
      refine absurd ?_ hfree
      rw [← h.ruleId_of_getRule hrule]
      exact List.mem_map_of_mem (mem_readLocked.mpr ⟨ruleId, hrule⟩)

/-- A new rule under a free id. -/
theorem Consistent.created (h : Consistent R db) (hsaved : Saved R rule db next row)
    (hfree : rule.ruleId ∉ (readLocked R db).map Rule.ruleId) (hversion : rule.currentVersion = 1)
    (hstatus : rule.status = "active") (hcreated : rule.createdAt = rule.approvedAt) :
    Consistent R next := by
  have hnone := h.get?_eq_none hfree
  have hrow : row = savedRow R (publicRule rule) none := by
    rw [hsaved.row_eq, hnone]
  have hcurrent : row.currentVersion = 1 := by
    rw [hrow]
    show (if rule.currentVersion = 0 then 1 else rule.currentVersion) = 1
    rw [hversion]
    rfl
  have habsent (n : ℕ) : (rule.ruleId, n) ∉ db.ruleVersions.keys := fun hmem =>
    Dict.get?_eq_none.mp hnone (h.owned _ _ hmem)
  obtain ⟨version, hjson, hversions⟩ := hsaved.versions
  rw [if_neg (habsent _)] at hversions
  refine h.newVersion hsaved.rows hversions (by rw [hrow]; rfl) hcurrent.ge (fun n => ?_) ?_
  · rw [hcurrent]
    refine iff_of_false (habsent n) fun hn => ?_
    omega
  · rw [hjson]
    refine (content_hydrate (publicRule rule) (by rw [hrow]; rfl) (fun hno => ?_) ?_ ?_
      (by rw [hrow]; rfl) (by rw [hrow]; rfl) fun hempty => ?_).symm
    · exact hsaved.schemaVersion hno.1
    · rw [hrow]
      show firstGiven rule.status "active" = rule.status
      rw [hstatus]
      rfl
    · rw [hcurrent]
      exact hversion.symm
    · exact hcreated.symm.trans hempty

/-- A rule that is brought up to date. -/
theorem Consistent.updated (h : Consistent R db) {existing : Rule} {old : Row}
    (hold : db.approvedRules.get? rule.ruleId = some old)
    (hexisting : hydratePersistedRule R rule.ruleId old = existing)
    (hsaved : Saved R rule db next row) (happroved : rule.approvedAt = existing.approvedAt)
    (hstatus : rule.status = "active") (hcreated : rule.createdAt = "" → rule.approvedAt = "")
    (hversion : rule.currentVersion = existing.currentVersion ∧ content rule = content existing ∨
      rule.currentVersion = existing.currentVersion + 1) : Consistent R next := by
  have hrow : row = savedRow R (publicRule rule) (some old) := by rw [hsaved.row_eq, hold]
  have hpositive := h.positive rule.ruleId old hold
  have hbefore : existing.currentVersion = old.currentVersion := by
    rw [← hexisting]
    rfl
  have hcurrent : row.currentVersion = rule.currentVersion := by
    rw [hrow]
    show (if rule.currentVersion = 0 then 1 else rule.currentVersion) = rule.currentVersion
    rw [if_neg]
    rcases hversion with ⟨hsame, -⟩ | hnext
    · omega
    · omega
  have hcontent : content (hydratePersistedRule R rule.ruleId row) = content rule := by
    refine content_hydrate (publicRule rule) (by rw [hrow]; rfl) (fun hno => ?_) ?_ hcurrent
      (by rw [hrow]; rfl) ?_ hcreated
    · exact hsaved.schemaVersion hno.1
    · rw [hrow]
      show firstGiven rule.status "active" = rule.status
      rw [hstatus]
      rfl
    · rw [hrow]
      show old.approvedAt = rule.approvedAt
      rw [happroved, ← hexisting]
      rfl
  obtain ⟨version, hjson, hversions⟩ := hsaved.versions
  rcases hversion with ⟨hsame, hsameContent⟩ | hnext
  · have hmem : (rule.ruleId, row.currentVersion) ∈ db.ruleVersions.keys := by
      rw [h.contiguous rule.ruleId old hold]
      omega
    rw [if_pos hmem] at hversions
    refine h.sameVersion hold hsaved.rows hversions (by rw [hrow]; rfl) (by omega) ?_
    rw [hcontent, hsameContent, ← hexisting]
  · have hmem : (rule.ruleId, row.currentVersion) ∉ db.ruleVersions.keys := by
      rw [h.contiguous rule.ruleId old hold]
      omega
    rw [if_neg hmem] at hversions
    refine h.newVersion hsaved.rows hversions (by rw [hrow]; rfl) (by omega) (fun n => ?_) ?_
    · rw [h.contiguous rule.ruleId old hold]
      refine and_congr_right fun _ => ?_
      omega
    · rw [hjson, hcontent]
      rfl

end Keep

/-! ## Runs -/

/-- The rule a call is about and the version it expects it at. -/
def Call.expects : Call μ → Option (String × ℕ)
  | .commitVersion rule change => some (rule.ruleId, change.expectedVersion)
  | .changeStatus change => some (change.ruleId, change.expectedVersion)
  | .rollback request => some (request.ruleId, request.expectedVersion)
  | _ => none

/-- The tables are consistent after the call, every stored version is as it was, and an
expected version that is not the current one makes the call fail. -/
structure Recorded (R : RuleResolver μ) (db : Database) (call : Call μ) : Prop where
  consistent : Consistent R (act R db call)
  kept : ∀ key version, db.ruleVersions.get? key = some version →
    (act R db call).ruleVersions.get? key = some version
  stale : ∀ ruleId expected row, call.expects = some (ruleId, expected) →
    db.approvedRules.get? ruleId = some row → row.currentVersion ≠ expected →
      (∃ error, perform R db call = .error error) ∧ act R db call = db

section Runs

variable {R : RuleResolver μ} {db next : Database} {rule returned : Rule} {row : Row}

theorem kept_of_committed {change : Change} (h : Committed R rule change db next row)
    {key : String × ℕ} {version : Version} (hversion : db.ruleVersions.get? key = some version) :
    next.ruleVersions.get? key = some version := by
  obtain ⟨written, -, hversions⟩ := h.versions
  rw [hversions, Dict.get?_set_of_ne, hversion]
  rintro rfl
  exact h.fresh (Dict.mem_keys_of_get? hversion)

theorem kept_of_saved (h : Saved R rule db next row) {key : String × ℕ} {version : Version}
    (hversion : db.ruleVersions.get? key = some version) :
    next.ruleVersions.get? key = some version := by
  obtain ⟨written, -, hversions⟩ := h.versions
  rw [hversions]
  split
  · exact hversion
  · rename_i hfresh
    rw [Dict.get?_set_of_ne, hversion]
    rintro rfl
    exact hfresh (Dict.mem_keys_of_get? hversion)

/-- Governance commits a rule it has read, with the dates of its row. -/
theorem dated_of_getRule (h : Consistent R db) {ruleId : String} {current : Rule}
    (hcurrent : getRule R db ruleId = some current) (hid : rule.ruleId = current.ruleId)
    (happroved : rule.approvedAt = current.approvedAt)
    (hcreated : rule.createdAt = current.createdAt) (found : Row)
    (hfound : db.approvedRules.get? rule.ruleId = some found) : Dated rule found := by
  obtain ⟨old, hold, rfl⟩ := getRule_eq_some.mp hcurrent
  rw [hid, h.ruleId_of_getRule hcurrent, hold] at hfound
  cases hfound
  exact dated_hydrate happroved hcreated

/-- An approval that has nothing new for a rule leaves its content alone. -/
theorem updatedRule_cases {moment : Moment} {feature : Feature μ}
    {existing : Rule} (signature : String)
    (horderly : Orderly R db (.upsertFeature moment feature))
    (hexisting : existingRule R feature (readLocked R db) = some existing)
    (hformat : isLegacyFeature feature (approvalIdentity R.toResolver feature) = false) :
    (updatedRule R moment feature existing signature).currentVersion = existing.currentVersion ∧
        content (updatedRule R moment feature existing signature) = content existing ∨
      (updatedRule R moment feature existing signature).currentVersion =
        existing.currentVersion + 1 := by
  obtain ⟨-, hactive, hvalid⟩ := existingRule_spec hexisting hformat
  have hschema := (wellFormed_of_validV2 hvalid).schemaVersion
  have hpositive := (wellFormed_of_validV2 hvalid).currentVersion
  have hupdates := updates_updatedRule R moment feature existing signature
  generalize hrule : updatedRule R moment feature existing signature = rule at hupdates ⊢
  have hversion := hupdates.currentVersion
  rw [max_eq_right hpositive] at hversion
  by_cases hsame : versionedFields existing = versionedFields rule
  · rw [if_pos hsame] at hversion
    have hsignature : signature = existing.signature := by
      rw [← hupdates.signature]
      exact (signature_eq_of_versionedFields hsame).symm
    have hnothing : versionedFields existing =
        versionedFields (updatedRule R moment feature existing existing.signature) := by
      rw [← hsignature, hrule]
      exact hsame
    obtain ⟨hcreated, hextra⟩ := horderly.2 existing hexisting hnothing
    have hfirst (other : String) : firstGiven existing.createdAt other = existing.createdAt :=
      if_neg hcreated
    refine .inl ⟨hversion, content_eq_of_versionedFields hsame.symm hupdates.ruleId
      hupdates.approvedAt ?_ (hupdates.schemaVersion.trans hschema.symm)
      (hupdates.status.trans (status_eq_active hvalid hactive).symm) hupdates.nextReviewAt hversion
      (hupdates.extra.trans hextra.symm)⟩
    rw [hupdates.createdAt, hfirst, hfirst]
  · rw [if_neg hsame] at hversion
    exact .inr hversion

/-- A call that succeeds commits a version, saves a rule, counts a reuse or writes nothing;
what it commits is dated as its row. -/
theorem consistent_perform (h : Consistent R db) {call : Call μ} (horderly : Orderly R db call)
    (hcall : perform R db call = .ok (returned, next)) : Consistent R next := by
  have hcommit {rule : Rule} {change : Change}
      (hdated : ∀ row, db.approvedRules.get? rule.ruleId = some row → Dated rule row)
      (hcommitted : commitVersion R rule change db = .ok (returned, next)) : Consistent R next := by
    obtain ⟨row, hrow⟩ := committed_of_commitVersion hcommitted
    exact h.committed hrow (hdated row hrow.found)
  cases call with
  | upsertFeature moment feature =>
      rcases saved_of_upsertFeature hcall with rfl | ⟨rule, row, happroving, hsaved⟩
      · exact h
      · cases happroving with
        | updated baseSignature hsignature hexisting hformat =>
            rename_i existing
            generalize chosenSignature R (readLocked R db) baseSignature
              (firstGiven existing.approvalKey (approvalIdentity R.toResolver feature).approvalKey)
              (some existing) = signature at hsaved
            obtain ⟨old, hold, hread⟩ := h.get?_of_mem (mem_of_existingRule hexisting)
            have hcases := updatedRule_cases signature horderly hexisting hformat
            have hupdates := updates_updatedRule R moment feature existing signature
            generalize updatedRule R moment feature existing signature = rule at hupdates hcases hsaved
            rw [← hupdates.ruleId] at hold hread
            refine h.updated hold hread hsaved hupdates.approvedAt hupdates.status (fun hempty => ?_)
              hcases
            rw [hupdates.createdAt] at hempty
            rw [hupdates.approvedAt]
            exact (firstGiven_eq_empty (firstGiven_eq_empty hempty).1).2
        | created baseSignature hsignature hfree hnone =>
            refine h.created hsaved ?_ rfl rfl rfl
            exact newRuleId_notMem_iff.mpr (horderly.1 hnone)
  | recordReuse ruleId now =>
      obtain ⟨row, hreused⟩ := reused_of_recordReuse hcall
      exact h.reused hreused
  | commitVersion rule change => exact hcommit horderly hcall
  | changeStatus change =>
      obtain ⟨current, hcurrent, -, record, -, hcommitted⟩ := commitVersion_of_changeStatus hcall
      refine hcommit ?_ hcommitted
      exact dated_of_getRule h hcurrent rfl rfl rfl
  | rollback request =>
      obtain ⟨current, target, snapshot, hcurrent, -, -, record, -, hcommitted⟩ :=
        commitVersion_of_rollback hcall
      refine hcommit ?_ hcommitted
      exact dated_of_getRule h hcurrent rfl rfl rfl
  | repairLegacyImport ruleId operator now =>
      obtain ⟨current, hcurrent, record, hcommitted⟩ := commitVersion_of_repair hcall
      refine hcommit ?_ hcommitted
      exact dated_of_getRule h hcurrent rfl rfl rfl

/-- No call touches a stored version. -/
theorem kept_perform {call : Call μ} (hcall : perform R db call = .ok (returned, next))
    {key : String × ℕ} {version : Version} (hversion : db.ruleVersions.get? key = some version) :
    next.ruleVersions.get? key = some version := by
  have hcommit {rule : Rule} {change : Change}
      (hcommitted : commitVersion R rule change db = .ok (returned, next)) :
      next.ruleVersions.get? key = some version := by
    obtain ⟨row, hrow⟩ := committed_of_commitVersion hcommitted
    exact kept_of_committed hrow hversion
  cases call with
  | upsertFeature moment feature =>
      rcases saved_of_upsertFeature hcall with rfl | ⟨rule, row, -, hsaved⟩
      · exact hversion
      · exact kept_of_saved hsaved hversion
  | recordReuse ruleId now =>
      obtain ⟨row, hreused⟩ := reused_of_recordReuse hcall
      rw [hreused.versions, hversion]
  | commitVersion rule change => exact hcommit hcall
  | changeStatus change =>
      obtain ⟨current, -, -, record, -, hcommitted⟩ := commitVersion_of_changeStatus hcall
      exact hcommit hcommitted
  | rollback request =>
      obtain ⟨current, target, snapshot, -, -, -, record, -, hcommitted⟩ :=
        commitVersion_of_rollback hcall
      exact hcommit hcommitted
  | repairLegacyImport ruleId operator now =>
      obtain ⟨current, -, record, hcommitted⟩ := commitVersion_of_repair hcall
      exact hcommit hcommitted

/-- A call that expects a version goes through at that version only. -/
theorem expected_of_perform (h : Consistent R db) {call : Call μ} {ruleId : String} {expected : ℕ}
    (hexpects : call.expects = some (ruleId, expected))
    (hrow : db.approvedRules.get? ruleId = some row)
    (hcall : perform R db call = .ok (returned, next)) : row.currentVersion = expected := by
  have hcommit {rule : Rule} {change : Change} (hid : rule.ruleId = ruleId)
      (hexpected : change.expectedVersion = expected)
      (hcommitted : commitVersion R rule change db = .ok (returned, next)) :
      row.currentVersion = expected := by
    obtain ⟨found, hfound⟩ := committed_of_commitVersion hcommitted
    have hsame := hfound.found
    rw [hid, hrow, Option.some.injEq] at hsame
    rw [hsame, hfound.expected, hexpected]
  cases call with
  | upsertFeature moment feature => cases hexpects
  | recordReuse ruleId now => cases hexpects
  | repairLegacyImport ruleId operator now => cases hexpects
  | commitVersion rule change =>
      cases hexpects
      exact hcommit rfl rfl hcall
  | changeStatus change =>
      cases hexpects
      obtain ⟨current, hcurrent, -, record, hrecord, hcommitted⟩ := commitVersion_of_changeStatus hcall
      have hid : current.ruleId = change.ruleId := h.ruleId_of_getRule hcurrent
      refine hcommit ?_ hrecord hcommitted
      exact hid
  | rollback request =>
      cases hexpects
      obtain ⟨current, target, snapshot, hcurrent, -, -, record, hrecord, hcommitted⟩ :=
        commitVersion_of_rollback hcall
      have hid : current.ruleId = request.ruleId := h.ruleId_of_getRule hcurrent
      refine hcommit ?_ hrecord hcommitted
      exact hid

theorem consistent_act (h : Consistent R db) {call : Call μ} (horderly : Orderly R db call) :
    Consistent R (act R db call) :=
  settled_induction h fun _ _ hcall => consistent_perform h horderly hcall

theorem recorded_of_orderly (h : Consistent R db) {call : Call μ} (horderly : Orderly R db call) :
    Recorded R db call := by
  refine ⟨consistent_act h horderly, fun key version hversion => ?_, ?_⟩
  · exact settled_induction (P := fun after => after.ruleVersions.get? key = some version) hversion
      fun _ _ hcall => kept_perform hcall hversion
  · intro ruleId expected row hexpects hrow hstale
    cases hcall : perform R db call with
    | ok result =>
        exact absurd (expected_of_perform h hexpects hrow hcall) hstale
    | error error =>
        refine ⟨⟨error, rfl⟩, ?_⟩
        unfold act
        rw [hcall, settled_error]

/-- Along a run of orderly calls the history of every rule is kept. -/
theorem history_recorded (h : Consistent R db) {calls : List (Call μ)}
    (hrun : Along (act R) (Orderly R) db calls) : Along (act R) (Recorded R) db calls :=
  Along.of_invariant (fun _ _ hdb horderly => consistent_act hdb horderly)
    (fun _ _ hdb horderly => recorded_of_orderly hdb horderly) h hrun

end Runs

/-- A rule is approved, disabled, and asked to be disabled at the version it had before. -/
def disabledTwice : List (Call Unit) :=
  let disable : StatusChange :=
    { ruleId := approvalRuleId
        (approvalIdentity generalFailure.toResolver (pluginFeature "h1")).approvalKey
      status := "disabled"
      expectedVersion := 1
      operator := "operator"
      reason := "noise"
      createdAt := "2026-01-02T00:00:00+00:00" }
  [.upsertFeature firstOfJanuary (pluginFeature "h1"), .changeStatus disable, .changeStatus disable]

theorem disabledTwice_recorded :
    Along (act generalFailure) (Recorded generalFailure) ∅ disabledTwice := by
  refine history_recorded (consistent_empty _) ⟨⟨fun _ => .inl List.not_mem_nil, ?_⟩, trivial,
    trivial, trivial⟩
  intro existing hexisting
  exact absurd (mem_of_existingRule hexisting) List.not_mem_nil

/-! ## A rule overwritten by a new one -/

/-- A row left by the approval of one of the features that differ in their template. -/
structure PluginRow (h : String) (row : Row) : Prop where
  rule : FromPlugin h row.ruleJson
  signature : row.signature = pluginSignature h
  approvalKey : row.approvalKey = some (pluginKey h)
  status : row.status = "active"
  currentVersion : row.currentVersion = 1

/-- No stored rule was written for the template. -/
def ApartRows (h : String) (db : Database) : Prop :=
  ∀ ruleId row, db.approvedRules.get? ruleId = some row →
    ∃ h', Written h' ∧ h' ≠ h ∧ PluginRow h' row

theorem fromPlugin_hydrate {h ruleId : String} {row : Row} (hrow : PluginRow h row) :
    FromPlugin h (hydratePersistedRule generalFailure ruleId row) :=
  ⟨hrow.rule.approvalKey, hrow.rule.canonicalApprovalKey, hrow.rule.signature, hrow.status⟩

theorem apart_readLocked {h : String} {db : Database} (hrows : ApartRows h db) :
    Apart h (readLocked generalFailure db) := by
  intro rule hrule
  obtain ⟨ruleId, hget⟩ := mem_readLocked.mp hrule
  obtain ⟨row, hrow, rfl⟩ := getRule_eq_some.mp hget
  obtain ⟨h', hw', hne, hplugin⟩ := hrows ruleId row hrow
  exact ⟨h', hw', hne, fromPlugin_hydrate hplugin⟩

theorem takenBy_eq_false {α : Type} [DecidableEq α] {db : Database} {ruleId : String}
    {column : Row → α} {value : α}
    (h : ∀ other row, db.approvedRules.get? other = some row → column row ≠ value) :
    takenBy db ruleId column value = false := by
  unfold takenBy
  rw [List.any_eq_false]
  intro entry hentry
  have hget : db.approvedRules.get? entry.1 = some entry.2 := Dict.get?_eq_some.mpr hentry
  rw [decide_eq_false (h entry.1 entry.2 hget), Bool.and_false]
  exact Bool.false_ne_true

/-- What the approval of a feature leaves whose template no stored rule was written for. -/
structure Stored (h : String) (db next : Database) (rule : Rule) (row : Row) : Prop where
  ruleId : rule.ruleId =
    newRuleId generalFailure (pluginFeature h) (readLocked generalFailure db) none (pluginKey h)
  signature : rule.signature = pluginSignature h
  plugin : PluginRow h row
  json : row.ruleJson = publicRule rule
  saved : Saved generalFailure rule db next row
  after : act generalFailure db (.upsertFeature firstOfJanuary (pluginFeature h)) = next

theorem stored_pluginFeature {h : String} (hw : Written h) (db : Database)
    (hrows : ApartRows h db) : ∃ next rule row, Stored h db next rule row := by
  have hapart := apart_readLocked hrows
  have hexisting : existingRule generalFailure (pluginFeature h) (readLocked generalFailure db) =
      none := existingRule_eq_none.mpr (activeRuleMatches_of_apart hw hapart)
  have hfind : (readLocked generalFailure db).find?
      (occupies generalFailure (pluginFeature h) (pluginSignature h)) = none :=
    List.find?_eq_none.mpr fun rule hrule => by
      rw [occupies_of_apart hw hapart rule hrule]
      exact Bool.false_ne_true
  have happroved : approvedRule generalFailure firstOfJanuary (pluginFeature h)
      (readLocked generalFailure db) = .ok (createdRule generalFailure firstOfJanuary
        (pluginFeature h) (readLocked generalFailure db) (pluginSignature h), true) := by
    unfold approvedRule
    refine bind_eq_ok.mpr ⟨_, hw.signature, ?_⟩
    dsimp only
    rw [hfind, hexisting]
    rfl
  rw [createdRule_pluginFeature hw hapart] at happroved
  have hfrom : FromPlugin h (newRule generalFailure firstOfJanuary (pluginFeature h) none
    (newRuleId generalFailure (pluginFeature h) (readLocked generalFailure db) none (pluginKey h))
    (pluginKey h) (pluginSignature h)) := fromPlugin_newRule firstOfJanuary _
  generalize hrule : newRule generalFailure firstOfJanuary (pluginFeature h) none
    (newRuleId generalFailure (pluginFeature h) (readLocked generalFailure db) none (pluginKey h))
    (pluginKey h) (pluginSignature h) = rule at happroved hfrom
  have hschema : strip rule.schemaVersion = v2SchemaVersion := by
    have hfield : rule.schemaVersion = v2SchemaVersion := by
      rw [← hrule]
      rfl
    rw [hfield]
    decide +kernel
  have hversion : rule.currentVersion = 1 := by
    rw [← hrule]
    rfl
  have hnewId : rule.ruleId = newRuleId generalFailure (pluginFeature h)
      (readLocked generalFailure db) none (pluginKey h) := by
    rw [← hrule]
    rfl
  have hkey : projection generalFailure (publicRule rule) =
      (some rule.problemCode, some rule.approvalKey) := by
    refine projection_of_v2 ?_
    show strip rule.schemaVersion ≠ _
    rw [hschema]
    decide
  have hplugin (old : Option Row) : PluginRow h (savedRow generalFailure (publicRule rule) old) := by
    refine ⟨⟨hfrom.approvalKey, hfrom.canonicalApprovalKey, hfrom.signature, hfrom.status⟩,
      hfrom.signature, ?_, ?_, ?_⟩
    · unfold savedRow
      rw [hkey, hfrom.approvalKey]
    · unfold savedRow publicRule
      dsimp only
      rw [hfrom.status]
      decide
    · unfold savedRow publicRule
      dsimp only
      rw [hversion]
      rfl
  have hwrite : ∃ next, writeLocked generalFailure rule db = .ok next := by
    have hrow := hplugin (db.approvedRules.get? rule.ruleId)
    generalize hsavedRow : savedRow generalFailure (publicRule rule)
      (db.approvedRules.get? rule.ruleId) = row at hrow
    have hsignature : takenBy db rule.ruleId Row.signature row.signature = false := by
      refine takenBy_eq_false fun other found hfound => ?_
      obtain ⟨h', hw', hne, hother⟩ := hrows other found hfound
      rw [hother.signature, hrow.signature]
      exact fun heq => hne (pluginSignature_inj heq hw'.nonempty hw.nonempty)
    have happroval : takenBy db rule.ruleId Row.approvalKey row.approvalKey = false := by
      refine takenBy_eq_false fun other found hfound => ?_
      obtain ⟨h', -, hne, hother⟩ := hrows other found hfound
      rw [hother.approvalKey, hrow.approvalKey]
      exact fun heq => hne (pluginKey_inj (Option.some.inj heq))
    have hblank : strip (publicRule rule).schemaVersion ≠ "" := by
      show strip rule.schemaVersion ≠ ""
      rw [hschema]
      decide
    rw [← hsavedRow] at hsignature happroval
    exact ⟨_, require_bind_eq_ok.mpr ⟨hblank, require_bind_eq_ok.mpr ⟨hsignature,
      require_bind_eq_ok.mpr ⟨.inr happroval, rfl⟩⟩⟩⟩
  obtain ⟨next, hnext⟩ := hwrite
  obtain ⟨row, hsaved⟩ := saved_of_writeLocked hnext
  have hrow := hsaved.row_eq
  refine ⟨next, rule, row, hnewId, hfrom.signature, hrow ▸ hplugin _, by rw [hrow]; rfl, hsaved, ?_⟩
  have hcall : perform generalFailure db (.upsertFeature firstOfJanuary (pluginFeature h)) =
      .ok (publicRule rule, next) := upsertFeature_of_writeLocked happroved hnext
  unfold act
  rw [hcall, settled_ok]

/-- The rows after the approval of a feature. -/
theorem Stored.get? {h ruleId : String} {db next : Database} {rule : Rule} {row found : Row}
    (hstored : Stored h db next rule row) (hfound : next.approvedRules.get? ruleId = some found) :
    ruleId = rule.ruleId ∧ found = row ∨ db.approvedRules.get? ruleId = some found := by
  rw [hstored.saved.rows, Dict.get?_set] at hfound
  split at hfound
  · rename_i heq
    exact .inl ⟨heq.symm, (Option.some.inj hfound).symm⟩
  · exact .inr hfound

theorem mem_ruleIds {db : Database} {ruleId : String} (row : Row)
    (hrow : db.approvedRules.get? ruleId = some row) (hid : row.ruleJson.ruleId = ruleId) :
    ruleId ∈ (readLocked generalFailure db).map Rule.ruleId :=
  List.mem_map.mpr ⟨_, mem_readLocked.mpr ⟨ruleId, getRule_eq_some.mpr ⟨row, hrow, rfl⟩⟩, hid⟩

/-- The three approvals that give two rules one id. -/
def threeApprovals : List (Call Unit) :=
  ["h1", "h2", "h3"].map fun h => .upsertFeature firstOfJanuary (pluginFeature h)

/-- The third rule takes the row of the second, whose first version stays. -/
theorem third_approval_breaks_the_history :
    ¬ Along (act generalFailure) (Recorded generalFailure) ∅ threeApprovals := by
  intro hrecorded
  have h1 : Written "h1" := written (by decide) (by decide) (by decide)
  have h2 : Written "h2" := written (by decide) (by decide) (by decide)
  have h3 : Written "h3" := written (by decide) (by decide) (by decide)
  obtain ⟨db1, rule1, row1, hstored1⟩ := stored_pluginFeature h1 ∅
    fun ruleId row hrow => by cases hrow
  obtain ⟨db2, rule2, row2, hstored2⟩ := stored_pluginFeature h2 db1
    fun ruleId row hrow => by
      rcases hstored1.get? hrow with ⟨-, rfl⟩ | hrow
      · exact ⟨"h1", h1, by decide, hstored1.plugin⟩
      · cases hrow
  obtain ⟨db3, rule3, row3, hstored3⟩ := stored_pluginFeature h3 db2
    fun ruleId row hrow => by
      rcases hstored2.get? hrow with ⟨-, rfl⟩ | hrow
      · exact ⟨"h2", h2, by decide, hstored2.plugin⟩
      · rcases hstored1.get? hrow with ⟨-, rfl⟩ | hrow
        · exact ⟨"h1", h1, by decide, hstored1.plugin⟩
        · cases hrow
  -- The first rule has the id derived from the identity, the other two the one after it.
  have hid1 := hstored1.ruleId
  have hid2 := hstored2.ruleId
  have hid3 := hstored3.ruleId
  have hrow1 : db1.approvedRules.get? rule1.ruleId = some row1 := by
    rw [hstored1.saved.rows, Dict.get?_set_self]
  have hbase1 : rule1.ruleId ∈ (readLocked generalFailure db1).map Rule.ruleId :=
    mem_ruleIds row1 hrow1 (by rw [hstored1.json]; rfl)
  have hempty : (readLocked generalFailure ∅).map Rule.ruleId = [] := rfl
  rw [newRuleId_pluginFeature, hempty, if_neg List.not_mem_nil] at hid1
  rw [newRuleId_pluginFeature, if_pos (hid1 ▸ hbase1)] at hid2
  have hbase2 : rule1.ruleId ∈ (readLocked generalFailure db2).map Rule.ruleId := by
    by_cases hsame : rule2.ruleId = rule1.ruleId
    · refine mem_ruleIds row2 ?_ (by rw [hstored2.json, ← hsame]; rfl)
      rw [hstored2.saved.rows, hsame, Dict.get?_set_self]
    · refine mem_ruleIds row1 ?_ (by rw [hstored1.json]; rfl)
      rw [hstored2.saved.rows, Dict.get?_set_of_ne hsame, hrow1]
  rw [newRuleId_pluginFeature, if_pos (hid1 ▸ hbase2), ← hid2] at hid3
  have hrow2 : db2.approvedRules.get? rule2.ruleId = some row2 := by
    rw [hstored2.saved.rows, Dict.get?_set_self]
  have hrow3 : db3.approvedRules.get? rule2.ruleId = some row3 := by
    rw [hstored3.saved.rows, hid3, Dict.get?_set_self]
  obtain ⟨-, hsecond, hthird, -⟩ := hrecorded
  rw [hstored1.after] at hsecond hthird
  rw [hstored2.after] at hthird
  have hdb2 : Consistent generalFailure db2 := hstored2.after ▸ hsecond.consistent
  have hdb3 : Consistent generalFailure db3 := hstored3.after ▸ hthird.consistent
  have hmem : (rule2.ruleId, 1) ∈ db2.ruleVersions.keys := by
    rw [hdb2.contiguous _ row2 hrow2, hstored2.plugin.currentVersion]
    omega
  obtain ⟨version, hversion⟩ := Dict.mem_keys.mp hmem
  have hkept : db3.ruleVersions.get? (rule2.ruleId, 1) = some version :=
    hstored3.after ▸ hthird.kept _ version hversion
  rw [← hstored2.plugin.currentVersion] at hversion
  rw [← hstored3.plugin.currentVersion] at hkept
  have hcontent := (hdb2.latest _ row2 version hrow2 hversion).symm.trans
    (hdb3.latest _ row3 version hrow3 hkept)
  have hfields := congrArg Rule.signature hcontent
  have hsignature : row2.ruleJson.signature = row3.ruleJson.signature := hfields
  rw [hstored2.plugin.rule.signature, hstored3.plugin.rule.signature] at hsignature
  exact absurd (pluginSignature_inj hsignature h2.nonempty h3.nonempty) (by decide)

end LogRisk.Governance
