import LogRisk.RiskSemantics.Calls

/-!
# Published rules and their samples

A publisher tests the rule that it has read, and its transaction then publishes whatever
the table holds.  Where no later version of the rule is stored by then, the table still
holds the content that was tested, under the version that the publisher expected.
-/

namespace LogRisk.RiskSemantics

open LogRisk.Library LogRisk.Library.Transaction

variable (host : Host)

/-- Every published rule that is not built in passes its own samples. -/
def Tested (db : Db) : Prop :=
  ∀ id row, db.rules.get? id = some row → row.source ≠ .builtin → row.status = .published →
    (test host row.content).valid = true

/-- No later version of a rule is stored than the one its publisher has read. -/
def Undisturbed : Action → Db → Prop
  | .publish id current, db => ∀ v, current.version < v → db.versions id v = none
  | .seedBuiltins _, _ => False
  | _, _ => True

/-- Whoever may publish a rule next finds it at the version that the call expects. -/
def PublishesExpected (permits : Action → Db → Prop)
    (c : Pool Caller Action Action.Answer Exn Unit Db) : Prop :=
  ∀ k id current next, (k, .act (.publish id current) next) ∈ c.threads →
    permits (.publish id current) c.state →
      ∀ row, c.state.rules.get? id = some row → k = .publish id row.currentVersion true

/-- The current version of every rule is the last of its stored versions. -/
structure Inv (db : Db) : Prop where
  current : ∀ id row, db.rules.get? id = some row →
    db.versions id row.currentVersion = some row.content
  newest : ∀ id row v, db.rules.get? id = some row → row.currentVersion < v →
    db.versions id v = none
  unused : ∀ id v, db.rules.get? id = none → db.versions id v = none

/-- A stored version stays as it is. -/
def Grows (db db' : Db) : Prop :=
  ∀ id v content, db.versions id v = some content → db'.versions id v = some content

theorem Grows.refl (db : Db) : Grows db db := fun _ _ _ => id

theorem Grows.trans {db db' db'' : Db} (h : Grows db db') (h' : Grows db' db'') : Grows db db'' :=
  fun id v content hv => h' id v content (h id v content hv)

variable {host} {db db' : Db} {id : String} {row : Row}

/-! ## Transactions -/

/-- A row with a version that is later than all stored ones. -/
theorem Inv.write (h : Inv db) (hfresh : ∀ v, row.currentVersion ≤ v → db.versions id v = none) :
    Inv (db.write id row) ∧ Grows db (db.write id row) := by
  refine ⟨⟨fun id' row' hrow' => ?_, fun id' row' v hrow' hv => ?_, fun id' v hrow' => ?_⟩,
    fun id' v content hv => ?_⟩
  · rw [get?_write] at hrow'
    rw [write_versions]
    split at hrow'
    · rename_i hid
      rw [← Option.some.inj hrow', if_pos ⟨hid.symm, rfl⟩]
    · rename_i hid
      rw [if_neg fun hboth => hid hboth.1.symm]
      exact h.current id' row' hrow'
  · rw [get?_write] at hrow'
    rw [write_versions]
    split at hrow'
    · rename_i hid
      rw [← Option.some.inj hrow'] at hv
      rw [if_neg fun hboth => by omega, ← hid]
      exact hfresh v hv.le
    · rename_i hid
      rw [if_neg fun hboth => hid hboth.1.symm]
      exact h.newest id' row' v hrow' hv
  · rw [get?_write] at hrow'
    split at hrow'
    · cases hrow'
    · rename_i hid
      rw [write_versions, if_neg fun hboth => hid hboth.1.symm]
      exact h.unused id' v hrow'
  · rw [write_versions, if_neg]
    · exact hv
    · rintro ⟨rfl, rfl⟩
      rw [hfresh _ le_rfl] at hv
      cases hv

/-- A row that differs only in its status. -/
theorem Inv.setRow (h : Inv db) {row' : Row} (hrow : db.rules.get? id = some row)
    (hversion : row'.currentVersion = row.currentVersion) (hcontent : row'.content = row.content) :
    Inv (db.setRow id row') := by
  refine ⟨fun id' x hx => ?_, fun id' x v hx hv => ?_, fun id' v hx => ?_⟩
  · rw [get?_setRow] at hx
    split at hx
    · rename_i hid
      rw [← Option.some.inj hx, hversion, hcontent, ← hid]
      exact h.current id row hrow
    · exact h.current id' x hx
  · rw [get?_setRow] at hx
    split at hx
    · rename_i hid
      rw [← Option.some.inj hx, hversion] at hv
      rw [← hid]
      exact h.newest id row v hrow hv
    · exact h.newest id' x v hx hv
  · rw [get?_setRow] at hx
    split at hx
    · cases hx
    · exact h.unused id' v hx

theorem inv_insert {snapshot : Rule} (h : Inv db) (hinsert : db.insert snapshot = .ok db') :
    Inv db' ∧ Grows db db' := by
  obtain ⟨hnew, _, rfl⟩ := insert_ok hinsert
  exact h.write fun v _ => h.unused _ v hnew

theorem inv_update {expected : ℤ} {updated : Rule} (h : Inv db) (hlater : expected < updated.version)
    (hupdate : db.update id expected updated = .ok db') : Inv db' ∧ Grows db db' := by
  obtain ⟨row, hrow, rfl, rfl⟩ := update_ok hupdate
  exact h.write fun v hv => h.newest id row v hrow (lt_of_lt_of_le hlater hv)

theorem inv_setStatus (id : String) (status : Status) (enabled : Bool) (h : Inv db) :
    Inv (db.setStatus id status enabled) ∧ Grows db (db.setStatus id status enabled) := by
  rcases setStatus_cases db id status enabled with ⟨_, hsame⟩ | ⟨row, hrow, hset⟩
  · rw [hsame]
    exact ⟨h, .refl db⟩
  · rw [hset]
    exact ⟨h.setRow hrow rfl rfl, fun _ _ _ => fun h => h⟩

theorem inv_seed {rule : Rule} (h : Inv db) : Inv (db.seed rule) := by
  unfold Db.seed
  split
  · rename_i hnew
    exact (h.write fun v _ => h.unused _ v hnew).1
  · rename_i row hrow
    split
    · exact h
    · refine (h.write fun v hv => h.newest _ row v hrow ?_).1
      exact Int.lt_of_add_one_le hv

/-- A tested rule is written, or one that is not published. -/
theorem tested_of_get? (h : Tested host db)
    (hget : ∀ id', db'.rules.get? id' = if id = id' then some row else db.rules.get? id')
    (hrow : row.source ≠ .builtin → row.status = .published →
      (test host row.content).valid = true) : Tested host db' := by
  intro id' row' hrow' hsource hstatus
  rw [hget] at hrow'
  split at hrow'
  · obtain rfl := Option.some.inj hrow'
    exact hrow hsource hstatus
  · exact h id' row' hrow' hsource hstatus

theorem tested_setStatus {status : Status} {enabled : Bool} (h : Tested host db)
    (hrow : status = .published → ∀ row, db.rules.get? id = some row →
      (test host row.content).valid = true) : Tested host (db.setStatus id status enabled) := by
  rcases setStatus_cases db id status enabled with ⟨_, hsame⟩ | ⟨row, hget, hset⟩
  · rw [hsame]
    exact h
  · rw [hset]
    exact tested_of_get? h (get?_setRow db _ _) fun _ hstatus => hrow hstatus row hget

/-! ## Publishers beside others -/

/-- A publisher holds a content of the rule, stored under the version it expects, that passes. -/
def Guarantees (host : Host) (k : Caller) : Action → Db → Prop
  | .publish id current, db =>
      k = .publish id current.version true ∧ ∃ content,
        db.versions id current.version = some content ∧ (test host content).valid = true
  | a, _ => Sent host k a

def publishing (host : Host) : Contract Caller Action Action.Answer Exn Unit Db where
  inv db := Inv db ∧ Tested host db
  beside _ _ := True
  rely _ := Grows
  guar k a db _ _ := Guarantees host k a db
  good _ _ _ := True
  bad _ _ _ := True

/-- Where no later version is stored, the rule still has the content that was tested. -/
theorem current_of_undisturbed {current : Rule} {content : Rule} (h : Inv db)
    (hpermits : Undisturbed (.publish id current) db)
    (hcontent : db.versions id current.version = some content)
    (hrow : db.rules.get? id = some row) :
    row.currentVersion = current.version ∧ row.content = content := by
  have hcurrent := h.current id row hrow
  have hversion : row.currentVersion = current.version := by
    apply le_antisymm
    · by_contra hlater
      rw [hpermits _ (not_le.mp hlater)] at hcurrent
      cases hcurrent
    · by_contra hlater
      rw [h.newest id row _ hrow (not_le.mp hlater)] at hcontent
      cases hcontent
  rw [hversion, hcontent] at hcurrent
  exact ⟨hversion, (Option.some.inj hcurrent).symm⟩

theorem guarantees_of_sent {k : Caller} (hk : ∀ id expected confirmed, k ≠ .publish id expected confirmed)
    {a : Action} (h : Sent host k a) (db : Db) : Guarantees host k a db := by
  cases a with
  | publish id current =>
      obtain ⟨expected, confirmed, rfl⟩ := h
      exact absurd rfl (hk id expected confirmed)
  | _ => exact h

/-- The rule has been read with a content that is stored under its version. -/
def HasRead (id : String) (current : Rule) (db : Db) : Prop :=
  ∃ row : Row, current = row.rule id ∧ db.versions id row.currentVersion = some row.content

theorem upholds_getRule {permits : Action → Db → Prop} (k : Caller) (id : String) (db : Db) :
    (Service.getRule id).Upholds Grows
      (fun a s r s' => (Inv s ∧ Tested host s) ∧ (workers host permits).does k a s r s')
      (fun a s _ _ => Guarantees host k a s) (HasRead id) (fun _ _ => True) db := by
  refine Program.upholds_call_bind fun t _ r t' hr => ⟨trivial, ?_⟩
  obtain ⟨⟨hinv, _⟩, _, hr⟩ := hr
  obtain ⟨rfl, rfl⟩ := Prod.mk.inj hr
  cases hrow : t'.rules.get? id with
  | none => exact Program.upholds_throw fun _ _ => trivial
  | some row =>
      exact Program.upholds_pure fun u hu => ⟨row, rfl, hu _ _ _ (hinv.current id row hrow)⟩

theorem meets_publish (id : String) (expected : ℤ) (confirmed : Bool) (db : Db) :
    (publishing host).Meets (workers host Undisturbed) (.publish id expected confirmed)
      (entry host (.publish id expected confirmed)) db := by
  refine Program.Upholds.bind Grows.refl ?_
  unfold Service.publish
  split
  · exact Program.upholds_throw fun _ _ => trivial
  rename_i hconfirmed
  refine Program.Upholds.bind Grows.refl ((upholds_getRule _ id db).mono (fun current t hread => ?_)
    fun _ _ _ => trivial)
  split
  · exact Program.upholds_throw fun _ _ => trivial
  rename_i hversion
  split
  · exact Program.upholds_throw fun _ _ => trivial
  rename_i rule hvalid
  split
  · exact Program.upholds_throw fun _ _ => trivial
  rename_i htest
  refine Program.upholds_call_bind fun u hu r u' hr => ⟨?_, ?_⟩
  · obtain ⟨row, rfl, hstored⟩ := hread
    have hsame : test host rule = test host row.content := by
      rw [(validateRule_ok hvalid).1]
      rfl
    refine ⟨?_, row.content, hu _ _ _ hstored, hsame ▸ not_not.mp htest⟩
    rw [not_not.mp hconfirmed, not_not.mp hversion]
  · obtain ⟨_, _, hr⟩ := hr
    obtain ⟨rfl, rfl⟩ := Prod.mk.inj hr
    exact (upholds_getRule _ id _).mono (fun _ _ _ => Program.upholds_pure fun _ _ => trivial)
      fun _ _ _ => trivial

theorem meets_entry (k : Caller) (db : Db) :
    (publishing host).Meets (workers host Undisturbed) k (entry host k) db := by
  by_cases hk : ∀ id expected confirmed, k ≠ .publish id expected confirmed
  · exact (uses_entry k).upholds (fun _ _ _ h => h)
      (fun a s _ _ ha h _ => ⟨guarantees_of_sent hk ha s, h⟩) trivial
  · obtain ⟨id, expected, confirmed, rfl⟩ : ∃ id expected confirmed,
        k = .publish id expected confirmed := by
      by_contra hnone
      exact hk fun id expected confirmed h => hnone ⟨id, expected, confirmed, h⟩
    exact meets_publish id expected confirmed db

theorem act_sound {k : Caller} {a : Action} {r : Except Exn a.Answer} (hinv : Inv db)
    (htested : Tested host db) (hdoes : (workers host Undisturbed).does k a db r db')
    (hguar : Guarantees host k a db) : (Inv db' ∧ Tested host db') ∧ Grows db db' := by
  obtain ⟨hpermits, hdoes⟩ := hdoes
  have hsame : db' = db → (Inv db' ∧ Tested host db') ∧ Grows db db' := by
    rintro rfl
    exact ⟨⟨hinv, htested⟩, .refl _⟩
  cases a with
  | getRule id => exact hsame (Prod.mk.inj hdoes).2
  | getVersion id version => exact hsame (Prod.mk.inj hdoes).2
  | overrideRow builtinId => exact hsame (Prod.mk.inj hdoes).2
  | insert snapshot =>
      rcases commit_cases hdoes with h | hinsert
      · exact hsame h
      · obtain ⟨hinv', hgrows⟩ := inv_insert hinv hinsert
        obtain ⟨_, _, rfl⟩ := insert_ok hinsert
        refine ⟨⟨hinv', tested_of_get? htested (get?_write db _ _) fun _ hstatus => ?_⟩, hgrows⟩
        have hdraft : snapshot.status = .draft := hguar.1
        cases hdraft.symm.trans hstatus
  | update id expected updated =>
      rcases commit_cases hdoes with h | hupdate
      · exact hsame h
      · obtain ⟨hinv', hgrows⟩ := inv_update hinv hguar.1 hupdate
        obtain ⟨row, _, _, rfl⟩ := update_ok hupdate
        refine ⟨⟨hinv', tested_of_get? htested (get?_write db _ _) fun _ hstatus => ?_⟩, hgrows⟩
        cases hstatus
  | publish id current =>
      obtain rfl := (Prod.mk.inj hdoes).2
      obtain ⟨hinv', hgrows⟩ := inv_setStatus id .published true hinv
      obtain ⟨_, content, hcontent, htest⟩ := hguar
      refine ⟨⟨hinv', tested_setStatus htested fun _ row hrow => ?_⟩, hgrows⟩
      rw [(current_of_undisturbed hinv hpermits hcontent hrow).2]
      exact htest
  | disable id =>
      obtain rfl := (Prod.mk.inj hdoes).2
      obtain ⟨hinv', hgrows⟩ := inv_setStatus id .disabled false hinv
      exact ⟨⟨hinv', tested_setStatus htested fun h => by cases h⟩, hgrows⟩
  | delete id => exact hsame ((commit_cases hdoes).elim (fun h => h) delete_ok)
  | seedBuiltins rules => exact hpermits.elim

theorem publishing_sound : (publishing host).Sound (workers host Undisturbed) where
  refl _ := Grows.refl
  trans _ _ _ _ := Grows.trans
  start k _ db db' hinv h := by
    rw [show db' = db from h]
    exact ⟨hinv, fun _ _ => ⟨trivial, trivial, .refl db⟩, meets_entry k db⟩
  act _ _ _ _ _ hinv hdoes hguar := by
    obtain ⟨hinv', hgrows⟩ := act_sound hinv.1 hinv.2 hdoes hguar
    exact ⟨hinv', fun _ _ => hgrows⟩
  finish _ _ db _ _ hinv h _ := by
    rw [h.2]
    exact ⟨hinv, fun _ _ => .refl db, fun _ hp => by rw [h.1] at hp; cases hp⟩
  die _ db db' hinv h := by
    rw [show db' = db from h]
    exact ⟨hinv, fun _ _ => .refl db⟩

/-- The catalogue leaves built-in rules only. -/
theorem seeded_inv (builtins : List Rule) : Inv (Db.seedBuiltins {} builtins) ∧
    ∀ id row, (Db.seedBuiltins {} builtins).rules.get? id = some row → row.source = .builtin := by
  have hseed : ∀ (rules : List Rule) (db : Db), Inv db →
      (∀ id row, db.rules.get? id = some row → row.source = .builtin) →
      Inv (rules.foldl Db.seed db) ∧
        ∀ id row, (rules.foldl Db.seed db).rules.get? id = some row → row.source = .builtin := by
    intro rules
    induction rules with
    | nil => exact fun db hinv hsource => ⟨hinv, hsource⟩
    | cons rule rules ih =>
        intro db hinv hsource
        refine ih _ (inv_seed hinv) fun id row hrow => ?_
        unfold Db.seed at hrow
        split at hrow
        · rw [get?_write] at hrow
          split at hrow
          · rw [← Option.some.inj hrow]
            rfl
          · exact hsource id row hrow
        · rename_i old hold
          split at hrow
          · exact hsource id row hrow
          · rw [get?_write] at hrow
            split at hrow
            · rw [← Option.some.inj hrow]
              exact hsource _ old hold
            · exact hsource id row hrow
  have hempty : Inv {} :=
    ⟨fun _ _ h => (by cases h), fun _ _ _ h => (by cases h), fun _ _ _ => rfl⟩
  exact hseed builtins {} hempty fun _ _ h => by cases h

theorem started_holds (builtins : List Rule) :
    (publishing host).Holds (workers host Undisturbed) (started builtins) := by
  obtain ⟨hinv, hsource⟩ := seeded_inv builtins
  exact Contract.holds_idle ⟨hinv, fun id row hrow hother _ => absurd (hsource id row hrow) hother⟩

/-- Where every publisher finds no later version than it has read, what is published has passed
its samples, at the version that was expected. -/
theorem published_tested (host : Host) (builtins : List Rule)
    (c : (workers host Undisturbed).Reachable (started builtins)) :
    Tested host c.val.state ∧ PublishesExpected Undisturbed c.val := by
  have hholds := (started_holds builtins).reachable publishing_sound c
  refine ⟨hholds.inv.2, fun k id current next hmem hpermits row hrow => ?_⟩
  obtain ⟨⟨hk, content, hcontent, _⟩, _⟩ := hholds.meets _ hmem _ (.refl _) (.ok ())
    (c.val.state.publish id) ⟨hholds.inv, hpermits, rfl⟩
  rw [show k = _ from hk, (current_of_undisturbed hholds.inv.1 hpermits hcontent hrow).1]

/-! ## An update between test and publication -/

namespace Squeezed

/-- A pattern finds itself only. -/
def literals : Host where
  compileError _ := none
  search pattern text := if pattern = text then some {} else none
  int _ := none

def rule : Rule where
  id := "user.a"
  displayName := "a"
  domain := "a"
  category := "a"
  riskType := "a.b"
  source := .user
  status := .draft
  enabled := true
  version := 1
  messageRegex := ["x"]
  defaultSeverity := "low"
  baseScore := 0
  confidence := 0
  keyFields := []
  windowSeconds := 1
  positives := ["x"]

/-- The publisher reads, the update commits, the publisher publishes. -/
def finished : Pool Caller Action Action.Answer Exn Unit Db :=
  [.inl (.createRule rule), .inr 0, .inl (.publish "user.a" 1 true), .inr 1,
    .inl (.updateRule "user.a" { messageRegex := some ["y"] } 1), .inr 2, .inr 2, .inr 1].foldl
    (System.scene (entry literals) fun _ => ask) (started [])

theorem published : (finished.state.rules.get? "user.a").map
    (fun row => (row.source, row.status, (test literals row.content).valid)) =
      some (.user, .published, false) := by
  decide +kernel

end Squeezed

theorem published_untested : ¬ ∀ (host : Host) (builtins : List Rule)
    (c : (workers host fun _ _ => True).Reachable (started builtins)), Tested host c.val.state := by
  intro h
  have htested := h Squeezed.literals []
    ⟨Squeezed.finished, System.run_scenes (fun _ _ _ => ⟨trivial, rfl⟩) _ _⟩
  obtain ⟨row, hrow, hpublished⟩ := Option.map_eq_some_iff.mp Squeezed.published
  obtain ⟨hsource, hstatus, hvalid⟩ := Prod.mk.inj hpublished |>.imp_right Prod.mk.inj
  have hpassed := htested "user.a" row hrow (by rw [hsource]; decide) hstatus
  rw [hvalid] at hpassed
  cases hpassed

end LogRisk.RiskSemantics
