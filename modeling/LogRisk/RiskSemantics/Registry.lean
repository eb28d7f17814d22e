import LogRisk.RiskSemantics.Calls
import Mathlib.Data.Prod.Lex
import Mathlib.Data.String.Basic

/-!
# The registry of effective rules

`reload` leaves out the built-in rules that are overridden and keeps every override.  An
override may name any rule, and any number of them may name the same one.  Where no rule
that overrides a built-in one comes into force beside another such rule, and no override
of a built-in rule is itself a built-in rule that is overridden, exactly one rule stands
for every built-in rule in force.
-/

namespace LogRisk.RiskSemantics

open LogRisk.Library LogRisk.Library.Transaction

def Source.text : Source → String
  | .builtin => "builtin"
  | .user => "user"
  | .imported => "imported"
  | .aiCandidate => "ai_candidate"

def Row.inForce (row : Row) : Bool := decide (row.status = .published) && row.enabled

/-- The rule that a row overrides; an empty text stands for none. -/
def Row.overrides (row : Row) : Option String := row.overrideOf.filter fun id => !id.isEmpty

/-- `list_rules`. -/
def Db.listRules (db : Db) : List (String × Row) :=
  db.rules.entries.insertionSort fun a b =>
    toLex (a.2.source.text, a.1) ≤ toLex (b.2.source.text, b.1)

/-- A rule in force overrides the rule. -/
def overridden (rows : List (String × Row)) (id : String) : Bool :=
  rows.any fun entry => entry.2.inForce && decide (entry.2.overrides = some id)

def selected (rows : List (String × Row)) (entry : String × Row) : Bool :=
  entry.2.inForce && !(decide (entry.2.source = .builtin) && overridden rows entry.1) &&
    (entry.2.overrides.isSome || decide (entry.2.source = .builtin) ||
      decide (entry.2.source = .user) || decide (entry.2.source = .imported))

/-- By priority, overrides first, then by identifier. -/
def sortKey (rule : Rule) : ℤ ×ₗ ℕ ×ₗ String :=
  toLex (if rule.priority = 0 then 100 else rule.priority,
    toLex (if rule.overrideOf.all (·.isEmpty) then 1 else 0, rule.id))

def reload (host : Host) (db : Db) : Except Exn (List Rule) := do
  let rows := db.listRules
  let effective ← (rows.filter (selected rows)).mapM fun entry =>
    validateRule host (entry.2.rule entry.1)
  return effective.insertionSort fun a b => sortKey a ≤ sortKey b

/-- The rule applies to a record and one of its patterns is found. -/
def hits (host : Host) (record : Record) (rule : Rule) : Bool :=
  applies rule record && (firstMatch host rule (matchingMessage record)).isSome

/-- What a rule makes of a record that it hits. -/
def classified (host : Host) (record : Record) (rule : Rule) : Except Exn SemanticEvent :=
  match firstMatch host rule (matchingMessage record) with
  | none => throw unclassified
  | some m => event host rule m (matchingMessage record)

/-! ## What the registry promises -/

/-- The rule stands for a rule: it is the rule, or overrides it. -/
def standsFor (id : String) (rule : Rule) : Bool :=
  decide (rule.id = id ∨ rule.overrideOf = some id)

structure Registered (host : Host) (db : Db) (rules : List Rule) : Prop where
  /-- One rule stands for a built-in rule in force: itself or an override. -/
  builtin : ∀ id row, db.rules.get? id = some row → row.source = .builtin → row.inForce = true →
    ∃ rule, rules.filter (standsFor id) = [rule]
  inForce : ∀ rule ∈ rules, rule.status = .published ∧ rule.enabled = true
  /-- A record is classified by the first of the rules that hit it. -/
  first : ∀ record rule, rule ∈ rules → hits host record rule = true →
    (∀ other ∈ rules, hits host record other = true → sortKey rule ≤ sortKey other) →
    matchRules host record rules = classified host record rule
  none : ∀ record, (∀ rule ∈ rules, hits host record rule = false) →
    matchRules host record rules = throw unclassified
  /-- The order in which the rules were created does not matter. -/
  order : ∀ db' : Db, db'.rules.entries.Perm db.rules.entries → reload host db' = .ok rules

/-! ## The condition -/

/-- A rule in force overrides the rule. -/
def Db.Overrides (db : Db) (other id : String) : Prop :=
  ∃ row, db.rules.get? other = some row ∧ row.inForce = true ∧ row.overrides = some id

def Db.IsBuiltin (db : Db) (id : String) : Prop :=
  ∃ row, db.rules.get? id = some row ∧ row.source = .builtin

/-- An override of a built-in rule comes into force alone, over a rule that is not itself such an
override; where it counts as built in, nothing overrides it. -/
structure Admits (db : Db) (id : String) (row : Row) (target : String) : Prop where
  alone : ∀ other, db.Overrides other target → other = id
  flat : ∀ row', db.rules.get? target = some row' → row'.inForce = true →
    ∀ target', row'.overrides = some target' → ¬ db.IsBuiltin target'
  last : row.source = .builtin → target ≠ id ∧ ∀ other, ¬ db.Overrides other id

def ComesIntoForce (db : Db) (id : String) : Prop :=
  ∀ row target, db.rules.get? id = some row → row.overrides = some target →
    db.IsBuiltin target → Admits db id row target

def SeedsIntoForce (db : Db) : List Rule → Prop
  | [] => True
  | rule :: rules => ComesIntoForce db rule.id ∧ SeedsIntoForce (db.seed rule) rules

/-- No second override of a built-in rule comes into force, and no chain of them. -/
def Exclusive : Action → Db → Prop
  | .publish id _, db => ComesIntoForce db id
  | .seedBuiltins rules, db => SeedsIntoForce db rules
  | _, _ => True

/-- What the condition keeps true of the table. -/
structure Standing (host : Host) (db : Db) : Prop where
  checked : ∀ id row, db.rules.get? id = some row → checkRule host (row.rule id) = .ok ()
  refers : ∀ id row target, db.rules.get? id = some row → row.overrides = some target →
    db.rules.get? target ≠ none
  single : ∀ id, db.IsBuiltin id → ∀ a b, db.Overrides a id → db.Overrides b id → a = b
  last : ∀ id row target, db.rules.get? id = some row → row.inForce = true →
    row.source = .builtin → row.overrides = some target → db.IsBuiltin target →
    ∀ other, ¬ db.Overrides other id

variable {host : Host} {db db' : Db} {id : String} {row : Row}

/-! ## Transactions -/

theorem overrides_iff
    (hget : ∀ id', db'.rules.get? id' = if id = id' then some row else db.rules.get? id')
    {other target : String} : db'.Overrides other target ↔
      (other = id ∧ row.inForce = true ∧ row.overrides = some target) ∨
        (other ≠ id ∧ db.Overrides other target) := by
  unfold Db.Overrides
  rw [hget]
  by_cases hother : id = other
  · rw [if_pos hother]
    constructor
    · rintro ⟨_, hrow, hforce, htarget⟩
      obtain rfl := Option.some.inj hrow
      exact .inl ⟨hother.symm, hforce, htarget⟩
    · rintro (⟨_, hforce, htarget⟩ | ⟨hne, _⟩)
      · exact ⟨row, rfl, hforce, htarget⟩
      · exact absurd hother.symm hne
  · rw [if_neg hother]
    constructor
    · exact fun h => .inr ⟨Ne.symm hother, h⟩
    · rintro (⟨heq, _⟩ | ⟨_, h⟩)
      · exact absurd heq.symm hother
      · exact h

/-- A row is written: where it was there before, it overrides what it did; where it comes into
force, it may. -/
theorem Standing.write (h : Standing host db)
    (hget : ∀ id', db'.rules.get? id' = if id = id' then some row else db.rules.get? id')
    (hchecked : checkRule host (row.rule id) = .ok ())
    (hrefers : ∀ target, row.overrides = some target → target = id ∨ db.rules.get? target ≠ none)
    (hsame : ∀ old, db.rules.get? id = some old →
      row.source = old.source ∧ row.overrides = old.overrides)
    (hnew : db.rules.get? id = none → row.inForce = true → row.overrides = none)
    (hforce : row.inForce = true → ∀ target, row.overrides = some target → db.IsBuiltin target →
      Admits db id row target) : Standing host db' := by
  -- a rule that something refers to is built in afterwards only if it was before
  have hbuiltin : ∀ target, db.rules.get? target ≠ none → db'.IsBuiltin target →
      db.IsBuiltin target := by
    rintro target hsome ⟨found, hfound, hsource⟩
    rw [hget] at hfound
    split at hfound
    · rename_i hid
      subst hid
      obtain ⟨old, hold⟩ := Option.ne_none_iff_exists'.mp hsome
      obtain rfl := Option.some.inj hfound
      exact ⟨old, hold, (hsame old hold).1 ▸ hsource⟩
    · exact ⟨found, hfound, hsource⟩
  have hold : ∀ target, row.inForce = true → row.overrides = some target →
      db.rules.get? target ≠ none := by
    intro target hrow htarget
    rcases hrefers target htarget with rfl | hsome
    · intro hnone
      rw [hnew hnone hrow] at htarget
      cases htarget
    · exact hsome
  have hpointed : ∀ a target, db.Overrides a target → db.rules.get? target ≠ none := by
    rintro a target ⟨found, hfound, -, htarget⟩
    exact h.refers a found target hfound htarget
  refine ⟨fun id' row' hrow' => ?_, fun id' row' target hrow' htarget => ?_,
    fun target htarget a b ha hb => ?_, fun id' row' target hrow' hin hsource htarget hbuilt => ?_⟩
  · rw [hget] at hrow'
    split at hrow'
    · rename_i hid
      subst hid
      exact Option.some.inj hrow' ▸ hchecked
    · exact h.checked id' row' hrow'
  · rw [hget] at hrow'
    rw [hget]
    split
    · exact Option.some_ne_none _
    · rename_i hother
      split at hrow'
      · obtain rfl := Option.some.inj hrow'
        exact (hrefers target htarget).resolve_left (Ne.symm hother)
      · exact h.refers id' row' target hrow' htarget
  · rcases (overrides_iff hget).mp ha with ⟨rfl, hin, hrow⟩ | ⟨hane, ha⟩
    · rcases (overrides_iff hget).mp hb with ⟨rfl, _, _⟩ | ⟨_, hb⟩
      · rfl
      · exact ((hforce hin target hrow (hbuiltin target (hold target hin hrow) htarget)).alone b hb).symm
    · have hwas := hbuiltin target (hpointed a target ha) htarget
      rcases (overrides_iff hget).mp hb with ⟨rfl, hin, hrow⟩ | ⟨_, hb⟩
      · exact (hforce hin target hrow hwas).alone a ha
      · exact h.single target hwas a b ha hb
  · intro other hover
    rw [hget] at hrow'
    split at hrow'
    · rename_i hid
      subst hid
      obtain rfl := Option.some.inj hrow'
      have hadmits := hforce hin target htarget (hbuiltin target (hold target hin htarget) hbuilt)
      obtain ⟨hself, hlast⟩ := hadmits.last hsource
      rcases (overrides_iff hget).mp hover with ⟨_, _, hover⟩ | ⟨_, hover⟩
      · exact hself (Option.some.inj (htarget.symm.trans hover))
      · exact hlast other hover
    · have hwas := hbuiltin target (h.refers id' row' target hrow' htarget) hbuilt
      rcases (overrides_iff hget).mp hover with ⟨_, hforced, hover⟩ | ⟨_, hover⟩
      · exact (hforce hforced id' hover ⟨row', hrow', hsource⟩).flat row' hrow' hin target htarget hwas
      · exact h.last id' row' target hrow' hin hsource htarget hwas other hover

theorem inForce_of_status (h : row.status ≠ .published) : row.inForce = false := by
  unfold Row.inForce
  rw [decide_eq_false h]
  rfl

theorem standing_insert {snapshot : Rule} (h : Standing host db) (hdraft : snapshot.status = .draft)
    (hchecked : checkRule host snapshot = .ok ()) (hinsert : db.insert snapshot = .ok db') :
    Standing host db' := by
  obtain ⟨hnew, hrefers, rfl⟩ := insert_ok hinsert
  have hidle : (Row.inserted snapshot).inForce = false :=
    inForce_of_status (by rw [show (Row.inserted snapshot).status = .draft from hdraft]; decide)
  refine h.write (get?_write db _ _) hchecked (fun target htarget => ?_)
    (fun old hold => by rw [hnew] at hold; cases hold) (fun _ hin => ?_) fun hin => ?_
  · obtain ⟨htarget, _⟩ := Option.filter_eq_some_iff.mp htarget
    change snapshot.overrideOf = some target at htarget
    unfold Db.refers at hrefers
    rw [htarget, Option.all_some, Bool.or_eq_true, beq_iff_eq, Option.isSome_iff_ne_none] at hrefers
    exact hrefers
  · rw [hidle] at hin
    cases hin
  · rw [hidle] at hin
    cases hin

theorem standing_update {expected : ℤ} {updated : Rule} (h : Standing host db)
    (hid : updated.id = id) (hchecked : checkRule host updated = .ok ())
    (hupdate : db.update id expected updated = .ok db') : Standing host db' := by
  obtain ⟨row, hrow, _, rfl⟩ := update_ok hupdate
  subst hid
  have hidle : (row.update updated).inForce = false := inForce_of_status (by
    change Status.draft ≠ .published
    decide)
  refine h.write (get?_write db _ _) hchecked
    (fun target htarget => .inr (h.refers _ row target hrow htarget))
    (fun old hold => ?_) (fun hnone => by rw [hrow] at hnone; cases hnone) fun hin => ?_
  · obtain rfl := Option.some.inj (hrow.symm.trans hold)
    exact ⟨rfl, rfl⟩
  · rw [hidle] at hin
    cases hin

theorem standing_setStatus (id : String) {status : Status} {enabled : Bool} (h : Standing host db)
    (hforce : status = .published → ComesIntoForce db id) :
    Standing host (db.setStatus id status enabled) := by
  rcases setStatus_cases db id status enabled with ⟨_, hsame⟩ | ⟨row, hrow, hset⟩
  · rw [hsame]
    exact h
  · rw [hset]
    refine h.write (get?_setRow db _ _) (h.checked id row hrow)
      (fun target htarget => .inr (h.refers _ row target hrow htarget))
      (fun old hold => ?_) (fun hnone => by rw [hrow] at hnone; cases hnone)
      fun hin target htarget hbuiltin => ?_
    · obtain rfl := Option.some.inj (hrow.symm.trans hold)
      exact ⟨rfl, rfl⟩
    · have hpublished : status = .published := by
        unfold Row.inForce at hin
        exact of_decide_eq_true (Bool.and_eq_true_iff.mp hin).1
      obtain ⟨halone, hflat, hlast⟩ := hforce hpublished row target hrow htarget hbuiltin
      exact ⟨halone, hflat, hlast⟩

theorem standing_seed {rule : Rule} (h : Standing host db)
    (hchecked : checkRule host rule = .ok ()) (hforce : ComesIntoForce db rule.id) :
    Standing host (db.seed rule) := by
  unfold Db.seed
  split
  · rename_i hnew
    exact h.write (get?_write db _ _) hchecked (fun target htarget => by cases htarget)
      (fun old hold => by rw [hnew] at hold; cases hold) (fun _ _ => rfl)
      fun _ target htarget => by cases htarget
  · rename_i row hrow
    split
    · exact h
    · refine h.write (get?_write db _ _) hchecked
        (fun target htarget => .inr (h.refers _ row target hrow htarget)) (fun old hold => ?_)
        (fun hnone => by rw [hrow] at hnone; cases hnone) fun _ target htarget hbuiltin => ?_
      · obtain rfl := Option.some.inj (hrow.symm.trans hold)
        exact ⟨rfl, rfl⟩
      · obtain ⟨halone, hflat, hlast⟩ := hforce row target hrow htarget hbuiltin
        exact ⟨halone, hflat, hlast⟩

theorem standing_seedBuiltins {rules : List Rule} (h : Standing host db)
    (hchecked : ∀ rule ∈ rules, checkRule host rule = .ok ()) (hforce : SeedsIntoForce db rules) :
    Standing host (db.seedBuiltins rules) := by
  unfold Db.seedBuiltins
  induction rules generalizing db with
  | nil => exact h
  | cons rule rules ih =>
      exact ih (standing_seed h (hchecked rule List.mem_cons_self) hforce.1)
        (fun r hr => hchecked r (List.mem_cons_of_mem rule hr)) hforce.2

theorem act_standing {k : Caller} {a : Action} {r : Except Exn a.Answer} (hsent : Sent host k a)
    (h : Standing host db) (hdoes : Exclusive a db ∧ (r, db') = ask a db) : Standing host db' := by
  obtain ⟨hpermits, hdoes⟩ := hdoes
  have hsame : db' = db → Standing host db' := by
    rintro rfl
    exact h
  cases a with
  | getRule id => exact hsame (Prod.mk.inj hdoes).2
  | getVersion id version => exact hsame (Prod.mk.inj hdoes).2
  | overrideRow builtinId => exact hsame (Prod.mk.inj hdoes).2
  | insert snapshot =>
      exact (commit_cases hdoes).elim hsame (standing_insert h hsent.1 hsent.2)
  | update id expected updated =>
      exact (commit_cases hdoes).elim hsame (standing_update h hsent.2.1 hsent.2.2)
  | publish id current =>
      obtain rfl := (Prod.mk.inj hdoes).2
      exact standing_setStatus id h fun _ => hpermits
  | disable id =>
      obtain rfl := (Prod.mk.inj hdoes).2
      exact standing_setStatus id h fun hstatus => by cases hstatus
  | delete id => exact hsame ((commit_cases hdoes).elim (fun h => h) delete_ok)
  | seedBuiltins rules =>
      obtain rfl := (Prod.mk.inj hdoes).2
      exact standing_seedBuiltins h hsent hpermits

/-- No rule yet and no call. -/
def unstarted : Pool Caller Action Action.Answer Exn Unit Db := ⟨{}, []⟩

theorem reachable_standing (c : (workers host Exclusive).Reachable unstarted) :
    Standing host c.val.state := by
  have hempty : Standing host {} := ⟨fun _ _ h => (by cases h), fun _ _ _ h => (by cases h),
    fun _ ⟨_, h, _⟩ => (by cases h), fun _ _ _ h => (by cases h)⟩
  have hact : ∀ k a db r db', Sent host k a → Standing host db →
      (workers host Exclusive).does k a db r db' → Standing host db' :=
    fun _ _ _ _ _ hsent h hdoes => act_standing hsent h hdoes
  exact System.unrestricted_inv uses_entry hact c.property hempty

/-! ## Reloading -/

/-- Listing the rules does not depend on the order of the table. -/
theorem listRules_perm (h : db'.rules.entries.Perm db.rules.entries) :
    db'.listRules = db.listRules := by
  unfold Db.listRules
  have hsorted := fun l => List.pairwise_insertionSort (fun a b : String × Row =>
    toLex (a.2.source.text, a.1) ≤ toLex (b.2.source.text, b.1)) l
  refine List.Perm.eq_of_pairwise (fun a b ha hb hab hba => ?_) (hsorted _) (hsorted _)
    (((List.perm_insertionSort _ _).trans h).trans (List.perm_insertionSort _ _).symm)
  have hkeys : toLex (a.2.source.text, a.1) = toLex (b.2.source.text, b.1) := le_antisymm hab hba
  have hname : a.1 = b.1 := (Prod.mk.inj (toLex_inj.mp hkeys)).2
  have ha : a ∈ db.rules.entries := h.mem_iff.mp ((List.mem_insertionSort _).mp ha)
  have hb : b ∈ db.rules.entries := (List.mem_insertionSort _).mp hb
  exact Prod.ext hname (Option.some.inj
    ((Dict.get?_eq_some.mpr ha).symm.trans (hname ▸ Dict.get?_eq_some.mpr hb)))

theorem mem_listRules : (id, row) ∈ db.listRules ↔ db.rules.get? id = some row := by
  unfold Db.listRules
  rw [List.mem_insertionSort, Dict.get?_eq_some]

/-- The rules that are effective, before they are sorted. -/
def effectiveRules (db : Db) : List Rule :=
  (db.listRules.filter (selected db.listRules)).map fun entry => normalized (entry.2.rule entry.1)

theorem reload_eq (h : Standing host db) :
    reload host db = .ok ((effectiveRules db).insertionSort fun a b => sortKey a ≤ sortKey b) := by
  have hmap : (db.listRules.filter (selected db.listRules)).mapM
      (fun entry => validateRule host (entry.2.rule entry.1)) = .ok (effectiveRules db) := by
    rw [mapM_eq_ok, effectiveRules, List.forall₂_map_right_iff, List.forall₂_same]
    intro entry hentry
    have hrow := mem_listRules.mp (List.mem_filter.mp hentry).1
    unfold validateRule
    rw [h.checked _ _ hrow]
    rfl
  exact bind_eq_ok.mpr ⟨_, hmap, rfl⟩

theorem overridden_iff : overridden db.listRules id = true ↔ ∃ other, db.Overrides other id := by
  unfold overridden Db.Overrides
  rw [List.any_eq_true]
  constructor
  · rintro ⟨⟨other, row⟩, hmem, hrow⟩
    obtain ⟨hin, htarget⟩ := Bool.and_eq_true_iff.mp hrow
    exact ⟨other, row, mem_listRules.mp hmem, hin, of_decide_eq_true htarget⟩
  · rintro ⟨other, row, hrow, hin, htarget⟩
    exact ⟨(other, row), mem_listRules.mpr hrow, Bool.and_eq_true_iff.mpr ⟨hin, decide_eq_true htarget⟩⟩

theorem selected_iff {entry : String × Row} : selected db.listRules entry = true ↔
    entry.2.inForce = true ∧
      (entry.2.source = .builtin → ∀ other, ¬ db.Overrides other entry.1) ∧
      (entry.2.overrides.isSome ∨ entry.2.source ≠ .aiCandidate) := by
  have hsource : (entry.2.overrides.isSome || decide (entry.2.source = .builtin) ||
      decide (entry.2.source = .user) || decide (entry.2.source = .imported)) = true ↔
        (entry.2.overrides.isSome ∨ entry.2.source ≠ .aiCandidate) := by
    cases entry.2.source <;> simp
  unfold selected
  rw [Bool.and_eq_true, Bool.and_eq_true, Bool.not_eq_true', Bool.and_eq_false_iff,
    decide_eq_false_iff_not, ← Bool.not_eq_true (overridden _ _), overridden_iff, not_exists, hsource,
    and_assoc, imp_iff_not_or]

/-- What singles out one rule of the table selects its entry. -/
theorem filter_listRules {q : String × Row → Bool} (hrow : db.rules.get? id = some row)
    (hq : ∀ id' row', db.rules.get? id' = some row' → (q (id', row') = true ↔ id' = id)) :
    db.listRules.filter q = [(id, row)] := by
  have hentries : db.rules.entries.filter q = [(id, row)] := by
    have hkey : db.rules.entries.filter q = db.rules.entries.filter fun e => decide (e.1 = id) := by
      refine List.filter_congr fun e he => ?_
      rw [Bool.eq_iff_iff, decide_eq_true_iff]
      exact hq e.1 e.2 (Dict.get?_eq_some.mpr he)
    rw [hkey, Dict.filter_entries_key, hrow]
    rfl
  rw [← List.perm_singleton, ← hentries]
  exact (List.perm_insertionSort _ _).filter q

theorem id_nonempty {rule : Rule} (h : checkRule host rule = .ok ()) : rule.id.isEmpty = false := by
  have hid : isRuleId rule.id = true := by
    by_contra hnot
    unfold checkRule at h
    rw [if_pos hnot] at h
    cases h
  rw [Bool.eq_false_iff]
  intro hempty
  rw [String.isEmpty_iff.mp hempty] at hid
  exact absurd hid (by decide)

theorem overrides_of_overrideOf (hid : id.isEmpty = false) (h : row.overrideOf = some id) :
    row.overrides = some id := by
  unfold Row.overrides
  rw [h, Option.filter_some, if_pos]
  rw [hid]
  rfl

theorem overrideOf_of_overrides (h : row.overrides = some id) : row.overrideOf = some id :=
  (Option.filter_eq_some_iff.mp h).1

/-- The one rule that stands for a built-in rule in force. -/
theorem stands_alone (h : Standing host db) (hrow : db.rules.get? id = some row)
    (hsource : row.source = .builtin) (hin : row.inForce = true) :
    ∃ entry, db.listRules.filter (fun entry => selected db.listRules entry &&
      standsFor id (normalized (entry.2.rule entry.1))) = [entry] := by
  have hid : id.isEmpty = false := id_nonempty (h.checked id row hrow)
  have hstands : ∀ id' row', standsFor id (normalized (Row.rule row' id')) = true ↔
      id' = id ∨ row'.overrideOf = some id := fun _ _ => decide_eq_true_iff
  by_cases hover : ∃ other, db.Overrides other id
  · obtain ⟨other, hother⟩ := hover
    obtain ⟨row', hrow', hin', htarget⟩ := hother
    refine ⟨(other, row'), filter_listRules hrow' fun id₂ row₂ hrow₂ => ?_⟩
    rw [Bool.and_eq_true, selected_iff, hstands]
    constructor
    · rintro ⟨⟨hin₂, hfree, _⟩, rfl | hoverride⟩
      · obtain rfl := Option.some.inj (hrow.symm.trans hrow₂)
        exact absurd ⟨row', hrow', hin', htarget⟩ (hfree hsource other)
      · exact h.single id ⟨row, hrow, hsource⟩ _ _
          ⟨row₂, hrow₂, hin₂, overrides_of_overrideOf hid hoverride⟩ ⟨row', hrow', hin', htarget⟩
    · rintro rfl
      obtain rfl := Option.some.inj (hrow'.symm.trans hrow₂)
      exact ⟨⟨hin', fun hbuiltin => h.last _ row' id hrow' hin' hbuiltin htarget ⟨row, hrow, hsource⟩,
        .inl (by rw [htarget]; rfl)⟩, .inr (overrideOf_of_overrides htarget)⟩
  · refine ⟨(id, row), filter_listRules hrow fun id₂ row₂ hrow₂ => ?_⟩
    rw [Bool.and_eq_true, selected_iff, hstands]
    constructor
    · rintro ⟨⟨hin₂, _, _⟩, rfl | hoverride⟩
      · rfl
      · exact absurd ⟨id₂, row₂, hrow₂, hin₂, overrides_of_overrideOf hid hoverride⟩ hover
    · rintro rfl
      obtain rfl := Option.some.inj (hrow.symm.trans hrow₂)
      exact ⟨⟨hin, fun _ other hother => hover ⟨other, hother⟩,
        .inr (by rw [hsource]; decide)⟩, .inl rfl⟩

theorem filter_effectiveRules (p : Rule → Bool) :
    ((effectiveRules db).insertionSort fun a b => sortKey a ≤ sortKey b).filter p |>.Perm
      ((db.listRules.filter fun entry => selected db.listRules entry &&
        p (normalized (entry.2.rule entry.1))).map fun entry => normalized (entry.2.rule entry.1)) := by
  refine ((List.perm_insertionSort _ _).filter p).trans (List.Perm.of_eq ?_)
  unfold effectiveRules
  rw [List.filter_map, List.filter_filter]
  refine congrArg (List.map _) (List.filter_congr fun entry _ => ?_)
  exact Bool.and_comm _ _

/-! ## Matching -/

theorem matchRules_none {record : Record} {rules : List Rule}
    (h : ∀ rule ∈ rules, hits host record rule = false) :
    matchRules host record rules = throw unclassified := by
  induction rules with
  | nil => rfl
  | cons rule rules ih =>
      have hrest := ih fun r hr => h r (List.mem_cons_of_mem rule hr)
      have hrule := h rule List.mem_cons_self
      unfold hits at hrule
      unfold matchRules
      split
      · exact hrest
      · rename_i happlies
        rw [not_not.mp happlies, Bool.true_and] at hrule
        rw [Option.not_isSome_iff_eq_none.mp (Bool.eq_false_iff.mp hrule)]
        exact hrest

/-- The first rule of a list that hits a record classifies it. -/
theorem matchRules_first {record : Record} {before after : List Rule} {rule : Rule}
    (hbefore : ∀ r ∈ before, hits host record r = false) (hrule : hits host record rule = true) :
    matchRules host record (before ++ rule :: after) = classified host record rule := by
  induction before with
  | nil =>
      obtain ⟨happlies, hfound⟩ := Bool.and_eq_true_iff.mp hrule
      change matchRules host record (rule :: after) = _
      unfold matchRules classified
      rw [if_neg (not_not.mpr happlies)]
      cases hm : firstMatch host rule (matchingMessage record) with
      | none =>
          rw [hm] at hfound
          cases hfound
      | some m => rfl
  | cons r before ih =>
      have hrest := ih fun r' hr' => hbefore r' (List.mem_cons_of_mem r hr')
      have hr := hbefore r List.mem_cons_self
      unfold hits at hr
      rw [List.cons_append]
      unfold matchRules
      split
      · exact hrest
      · rename_i happlies
        rw [not_not.mp happlies, Bool.true_and] at hr
        rw [Option.not_isSome_iff_eq_none.mp (Bool.eq_false_iff.mp hr)]
        exact hrest

theorem mem_effectiveRules {rule : Rule} (h : rule ∈ effectiveRules db) :
    ∃ row, db.rules.get? rule.id = some row ∧ rule = normalized (row.rule rule.id) ∧
      row.inForce = true := by
  obtain ⟨⟨id, row⟩, hmem, rfl⟩ := List.mem_map.mp h
  obtain ⟨hmem, hselected⟩ := List.mem_filter.mp hmem
  exact ⟨row, mem_listRules.mp hmem, rfl, (selected_iff.mp hselected).1⟩

theorem eq_of_sortKey {rule rule' : Rule} (h : rule ∈ effectiveRules db)
    (h' : rule' ∈ effectiveRules db) (hkey : sortKey rule = sortKey rule') : rule = rule' := by
  have hid : rule.id = rule'.id :=
    (Prod.mk.inj (toLex_inj.mp (Prod.mk.inj (toLex_inj.mp hkey)).2)).2
  obtain ⟨row, hrow, hrule, _⟩ := mem_effectiveRules h
  obtain ⟨row', hrow', hrule', _⟩ := mem_effectiveRules h'
  rw [hid] at hrow hrule
  obtain rfl := Option.some.inj (hrow.symm.trans hrow')
  exact hrule.trans hrule'.symm

/-- Of sorted rules, the first that hits a record is the least. -/
theorem matchRules_least {record : Record} {rule : Rule}
    (hrule : rule ∈ effectiveRules db) (hhits : hits host record rule = true)
    (hleast : ∀ other ∈ effectiveRules db, hits host record other = true →
      sortKey rule ≤ sortKey other) :
    matchRules host record
      ((effectiveRules db).insertionSort fun a b => sortKey a ≤ sortKey b) =
        classified host record rule := by
  have hmem : ∀ r, r ∈ (effectiveRules db).insertionSort (fun a b => sortKey a ≤ sortKey b) ↔
      r ∈ effectiveRules db := fun _ => List.mem_insertionSort _
  have hsorted := List.pairwise_insertionSort (fun a b => sortKey a ≤ sortKey b) (effectiveRules db)
  generalize (effectiveRules db).insertionSort (fun a b => sortKey a ≤ sortKey b) = rules at *
  cases hfind : rules.find? (hits host record) with
  | none =>
      have hmiss := List.find?_eq_none.mp hfind rule ((hmem rule).mpr hrule)
      exact absurd hhits hmiss
  | some found =>
      obtain ⟨hfound, before, after, rfl, hbefore⟩ := List.find?_eq_some_iff_append.mp hfind
      have hfirst : sortKey found ≤ sortKey rule := by
        rcases List.mem_append.mp ((hmem rule).mpr hrule) with hin | hin
        · have hmiss := hbefore rule hin
          rw [hhits] at hmiss
          cases hmiss
        · rcases List.mem_cons.mp hin with rfl | hin
          · exact le_rfl
          · exact (List.pairwise_cons.mp (List.pairwise_append.mp hsorted).2.1).1 rule hin
      have heffective : found ∈ effectiveRules db :=
        (hmem found).mp (List.mem_append_right before List.mem_cons_self)
      have hsame : rule = found :=
        eq_of_sortKey hrule heffective (le_antisymm (hleast found heffective hfound) hfirst)
      rw [hsame]
      exact matchRules_first (fun r hr => by simpa using hbefore r hr) hfound

/-! ## The registry of every reachable table -/

theorem registered_of_standing (h : Standing host db) :
    Registered host db ((effectiveRules db).insertionSort fun a b => sortKey a ≤ sortKey b) where
  builtin id row hrow hsource hin := by
    obtain ⟨entry, hentry⟩ := stands_alone h hrow hsource hin
    have hperm : (((effectiveRules db).insertionSort fun a b => sortKey a ≤ sortKey b).filter
        (standsFor id)).Perm _ := filter_effectiveRules (standsFor id)
    rw [hentry, List.map_singleton] at hperm
    exact ⟨_, List.perm_singleton.mp hperm⟩
  inForce rule hrule := by
    obtain ⟨row, _, hrule, hin⟩ := mem_effectiveRules ((List.mem_insertionSort _).mp hrule)
    obtain ⟨hstatus, henabled⟩ := Bool.and_eq_true_iff.mp hin
    rw [hrule]
    exact ⟨of_decide_eq_true hstatus, henabled⟩
  first record rule hrule hhits hleast :=
    matchRules_least ((List.mem_insertionSort _).mp hrule) hhits fun other hother =>
      hleast other ((List.mem_insertionSort _).mpr hother)
  none _ hnone := matchRules_none hnone
  order db' hperm := by
    have hsame : reload host db' = reload host db := by
      unfold reload
      rw [listRules_perm hperm]
    rw [hsame, reload_eq h]

/-- Where no second override of a built-in rule comes into force, and no chain of overrides,
reloading leaves one rule for every built-in rule. -/
theorem reachable_registered (host : Host) (c : (workers host Exclusive).Reachable unstarted) :
    ∃ rules, reload host c.val.state = .ok rules ∧ Registered host c.val.state rules :=
  have h := reachable_standing c
  ⟨_, reload_eq h, registered_of_standing h⟩

/-! ## Two overrides of one rule -/

namespace Doubled

/-- Every pattern finds itself only. -/
def literals : Host where
  compileError _ := none
  search pattern text := if pattern = text then some {} else none
  int _ := none

def ruleOf (id : String) (overrideOf : Option String) : Rule where
  id := id
  displayName := "a"
  domain := "a"
  category := "a"
  riskType := "a.b"
  source := .user
  status := .draft
  enabled := true
  version := 1
  overrideOf := overrideOf
  messageRegex := ["x"]
  defaultSeverity := "low"
  baseScore := 0
  confidence := 0
  keyFields := []
  windowSeconds := 1
  positives := ["x"]

/-- The catalogue has one rule, which two created rules override. -/
def finished : Pool Caller Action Action.Answer Exn Unit Db :=
  [.inl (.start [ruleOf "builtin.a" none]), .inr 0,
    .inl (.createRule (ruleOf "user.b" (some "builtin.a"))), .inr 1,
    .inl (.createRule (ruleOf "user.c" (some "builtin.a"))), .inr 2,
    .inl (.publish "user.b" 1 true), .inr 3, .inr 3,
    .inl (.publish "user.c" 1 true), .inr 4, .inr 4].foldl
    (System.scene (entry literals) fun _ => ask) unstarted

def effective : List Rule :=
  match reload literals finished.state with
  | .ok rules => rules
  | .error _ => []

theorem both_effective : (effective.filter (standsFor "builtin.a")).map (·.id) =
    ["user.b", "user.c"] := by
  decide +kernel

theorem in_force : (finished.state.rules.get? "builtin.a").map
    (fun row => (row.source, row.inForce)) = some (.builtin, true) := by
  decide +kernel

end Doubled

theorem two_overrides : ¬ ∀ (host : Host) (c : (workers host fun _ _ => True).Reachable unstarted)
    (rules : List Rule), reload host c.val.state = .ok rules →
      Registered host c.val.state rules := by
  intro h
  have hreload : reload Doubled.literals Doubled.finished.state = .ok Doubled.effective := by
    unfold Doubled.effective
    cases hrules : reload Doubled.literals Doubled.finished.state with
    | ok rules => rfl
    | error e =>
        have hboth := Doubled.both_effective
        unfold Doubled.effective at hboth
        rw [hrules] at hboth
        cases hboth
  have hregistered := h Doubled.literals
    ⟨Doubled.finished, System.run_scenes (fun _ _ _ => ⟨trivial, rfl⟩) _ _⟩ _ hreload
  obtain ⟨row, hrow, hbuiltin⟩ := Option.map_eq_some_iff.mp Doubled.in_force
  obtain ⟨hsource, hin⟩ := Prod.mk.inj hbuiltin
  obtain ⟨rule, hone⟩ := hregistered.builtin "builtin.a" row hrow hsource hin
  have hboth := Doubled.both_effective
  rw [hone, List.map_singleton] at hboth
  exact absurd (congrArg List.length hboth) (by simp)

end LogRisk.RiskSemantics
