import LogRisk.Library.Pages
import LogRisk.Results.Overlap
import LogRisk.Results.Scores

/-!
# Reading a generation

A generation that is ready is read in pages: its entities, each with the members of its
templates, its windows, and the members of one window.  A page is cut by rows and by bytes, and
a reader goes on behind the key of the last row it was given.
-/

namespace LogRisk.Results

open LogRisk.Library LogRisk.Library.Transaction LogRisk.Library.Paging LogRisk.Windows
open LogRisk.Streaming

variable {ν σ : Type}

/-! ## Rows -/

/-- The `kind` a member is stored under. -/
def Member.kind : Member ν → String
  | .affectedNamespace _ => "affected_namespaces"
  | .affectedPod _ => "affected_pods"
  | .entityKey _ => "entity_keys"
  | .entityRelation _ => "entity_relations"
  | .semanticTag _ => "semantic_tags"
  | .semanticField _ _ => "semantic_fields"
  | .typedParameter _ _ => "typed_parameters"

/-- A row of `streaming_result_windows`. -/
structure WindowRow (ν : Type) where
  windowKey : String
  entityKey : EntityKey
  core : Window ν

/-- A row of `streaming_result_window_members`. -/
structure MemberRow (ν : Type) where
  windowKey : String
  memberKey : String
  member : Member ν
  count : ℕ

/-- A row of `streaming_result_entities`; a template comes with the key of its window. -/
structure EntityRow (ν σ : Type) where
  key : EntityKey
  score : σ
  level : Level
  topTemplates : List (String × Window ν)
  summary : String

/-- The tables of a generation, with their primary keys; the key of a window is a digest. -/
structure StoredGeneration (ν σ : Type) where
  status : GenerationStatus
  entities : List (EntityRow ν σ)
  windows : List (WindowRow ν)
  members : List (MemberRow ν)
  entities_nodup : (entities.map EntityRow.key).Nodup
  windows_nodup : (windows.map WindowRow.windowKey).Nodup
  members_nodup : (members.map fun r => (r.windowKey, r.member.kind, r.memberKey)).Nodup
  windowKey_ne_empty : ∀ row ∈ windows, row.windowKey ≠ ""

structure Reference where
  taskId : String
  generation : String
deriving DecidableEq

abbrev ResultDatabase (ν σ : Type) := Reference → Option (StoredGeneration ν σ)

/-! ## What a reader is given -/

structure EntityItem (ν σ : Type) where
  key : EntityKey
  score : σ
  level : Level
  topTemplates : List (Window ν)
  affectedEntities : List String
  summary : String

inductive FactItem (ν : Type) where
  | window (core : Window ν) (windowKey : String) (membersRef : Reference × String)
  | member (kind : String) (value : Member ν) (count : ℕ)

inductive ReadError where
  | budget (message : String)
  | value (message : String)
deriving DecidableEq

abbrev ReadResult (α : Type) := Except ReadError α

/-- The texts that values are stored and sent as, and the bytes that a page may hold. -/
structure Reader (ν σ : Type) where
  entityText : EntityKey → String
  windowText : Window ν → String
  memberText : Member ν → String
  entityItemText : EntityItem ν σ → String
  factText : FactItem ν → String
  pageBytes : ℕ
  entityText_injective : Function.Injective entityText
  entityText_ne_empty : ∀ key, entityText key ≠ ""

/-- `PAGE_ROWS`. -/
def pageRows : ℕ := 100

/-- `max(1, min(int(limit), PAGE_ROWS))`. -/
def pageLimit (limit : ℤ) : ℕ := (max 1 (min limit pageRows)).toNat

theorem pageLimit_pos (limit : ℤ) : 0 < pageLimit limit := by
  unfold pageLimit
  omega

/-! ## Members -/

namespace Member

def namespaceValue : Member ν → Option String
  | .affectedNamespace value => some value
  | _ => none

def podValue : Member ν → Option String
  | .affectedPod value => some value
  | _ => none

def entityKeyValue : Member ν → Option String
  | .entityKey value => some value
  | _ => none

def relationValue : Member ν → Option Relation
  | .entityRelation value => some value
  | _ => none

def tagValue : Member ν → Option String
  | .semanticTag value => some value
  | _ => none

def fieldValue : Member ν → Option (String × ν)
  | .semanticField field value => some (field, value)
  | _ => none

def parameterValue : Member ν → Option (String × String)
  | .typedParameter field mask => some (field, mask)
  | _ => none

end Member

/-- A member put back into its window. -/
def addMember (w : Window ν) (count : ℕ) : Member ν → Window ν
  | .affectedNamespace value => { w with affectedNamespaces := insert value w.affectedNamespaces }
  | .affectedPod value => { w with affectedPods := insert value w.affectedPods }
  | .entityKey value => { w with entityKeys := insert value w.entityKeys }
  | .entityRelation value => { w with entityRelations := insert value w.entityRelations }
  | .semanticTag value => { w with semanticTags := insert value w.semanticTags }
  | .semanticField field value =>
      { w with semanticFields := w.semanticFields + Multiset.replicate count (field, value) }
  | .typedParameter field mask =>
      { w with typedParameters := w.typedParameters + Multiset.replicate count (field, mask) }

/-- `ORDER BY kind, member_key`. -/
def memberPosition (row : MemberRow ν) : String ×ₗ String := toLex (row.member.kind, row.memberKey)

namespace StoredGeneration

def membersOf (t : StoredGeneration ν σ) (windowKey : String) : List (MemberRow ν) :=
  t.members.filter fun row => row.windowKey = windowKey

/-- The pods of the windows of an entity, `SELECT DISTINCT`. -/
def podsOf (t : StoredGeneration ν σ) (key : EntityKey) : List String :=
  ((t.windows.filter fun w => w.entityKey = key).flatMap fun w =>
    (t.membersOf w.windowKey).filterMap fun row => row.member.podValue).dedup

end StoredGeneration

namespace Reader

/-- The loop of `_hydrate`: the rows read, their bytes and the window so far. -/
def hydrateRows (reader : Reader ν σ) (count used : ℕ) (window : Window ν) :
    List (MemberRow ν) → ReadResult (Window ν)
  | [] => .ok window
  | row :: rest => do
      let used := used + (reader.memberText row.member).utf8ByteSize
      require (count + 1 ≤ 10000 ∧ used ≤ reader.pageBytes)
        (.budget "单窗口成员超过物化预算；完整成员仍保留")
      reader.hydrateRows (count + 1) used (addMember window row.count row.member) rest

/-- `_hydrate`. -/
def hydrate (reader : Reader ν σ) (t : StoredGeneration ν σ) (template : String × Window ν) :
    ReadResult (Window ν) :=
  let rows := (ordered memberPosition (t.membersOf template.1)).take 10001
  reader.hydrateRows 0 (reader.windowText template.2).utf8ByteSize template.2 rows

/-- The loop of `_entity_pods`. -/
def podRows (reader : Reader ν σ) (result : List String) (used : ℕ) :
    List String → ReadResult (List String)
  | [] => .ok result
  | pod :: rest => do
      let used := used + (reader.memberText (.affectedPod pod)).utf8ByteSize
      require (result.length < 10000 ∧ used ≤ reader.pageBytes)
        (.budget "单实体成员超过物化预算；请分页读取成员")
      reader.podRows (result ++ [pod]) used rest

/-- `_entity_pods`. -/
def entityPods (reader : Reader ν σ) (t : StoredGeneration ν σ) (key : EntityKey) :
    ReadResult (List String) :=
  let pods := ordered (fun pod => reader.memberText (.affectedPod pod)) (t.podsOf key)
  reader.podRows [] 0 (pods.take 10001)

/-- A row of the entities, with what belongs to it. -/
def entityItem (reader : Reader ν σ) (t : StoredGeneration ν σ) (row : EntityRow ν σ) :
    ReadResult (EntityItem ν σ) := do
  let topTemplates ← row.topTemplates.mapM (reader.hydrate t)
  let affectedEntities ← reader.entityPods t row.key
  return { key := row.key
           score := row.score
           level := row.level
           topTemplates := topTemplates
           affectedEntities := affectedEntities
           summary := row.summary }

/-! ## Pages -/

/-- `_validate`. -/
def validate (database : ResultDatabase ν σ) (reference : Reference) :
    ReadResult (StoredGeneration ν σ) := do
  let t ← orFail (database reference) (.value "结果引用尚未完成或不存在")
  require (t.status = .ready) (.value "结果引用尚未完成或不存在")
  return t

def entityBytes (reader : Reader ν σ) (item : EntityItem ν σ) : ℕ :=
  (reader.entityItemText item).utf8ByteSize

def factBytes (reader : Reader ν σ) (item : FactItem ν) : ℕ := (reader.factText item).utf8ByteSize

/-- `ORDER BY entity_key`. -/
def entityPosition (reader : Reader ν σ) (row : EntityRow ν σ) : String := reader.entityText row.key

/-- `entities`. -/
def entities (reader : Reader ν σ) (database : ResultDatabase ν σ) (reference : Reference)
    (limit : ℤ) (after : String) : ReadResult (List (EntityItem ν σ) × Option String) := do
  let t ← validate database reference
  readPage reader.entityPosition (reader.entityItem t) reader.entityBytes reader.pageBytes
    (.budget "单实体超过结果响应预算") after (pageLimit limit) t.entities

def windowItem (reference : Reference) (row : WindowRow ν) : ReadResult (FactItem ν) :=
  .ok (.window row.core row.windowKey (reference, row.windowKey))

def memberItem (row : MemberRow ν) : ReadResult (FactItem ν) :=
  .ok (.member row.member.kind row.member row.count)

/-- `last_key` of a member. -/
def memberCursor (position : String ×ₗ String) : String :=
  (ofLex position).1 ++ ":" ++ (ofLex position).2

/-- `after.split(":", 1) if ":" in after else ("", "")`. -/
def memberAfter (after : String) : String ×ₗ String :=
  if ':' ∈ after.toList then
    toLex (String.ofList (after.toList.takeWhile (· ≠ ':')),
      String.ofList ((after.toList.dropWhile (· ≠ ':')).drop 1))
  else toLex ("", "")

/-- `facts`. -/
def facts (reader : Reader ν σ) (database : ResultDatabase ν σ) (reference : Reference)
    (collection : String) (windowKey : Option String) (limit : ℤ) (after : String) :
    ReadResult (List (FactItem ν) × Option String) := do
  let t ← validate database reference
  if collection = "windows" then
    readPage WindowRow.windowKey (windowItem reference) reader.factBytes reader.pageBytes
      (.budget "单事实超过分页字节预算") after (pageLimit limit) t.windows
  else
    match collection, given windowKey with
    | "members", some windowKey => do
        let (items, next) ← readPage memberPosition memberItem reader.factBytes reader.pageBytes
          (.budget "单事实超过分页字节预算") (memberAfter after) (pageLimit limit)
          (t.membersOf windowKey)
        return (items, next.map memberCursor)
    | _, _ => .error (.value "未知结果集合")

end Reader

/-! ## What was split is put together again -/

/-- All members put back at once. -/
def addMembers (w : Window ν) (ms : Multiset (Member ν)) : Window ν :=
  { w with
    affectedNamespaces := w.affectedNamespaces ∪ (ms.filterMap Member.namespaceValue).toFinset
    affectedPods := w.affectedPods ∪ (ms.filterMap Member.podValue).toFinset
    entityKeys := w.entityKeys ∪ (ms.filterMap Member.entityKeyValue).toFinset
    entityRelations := w.entityRelations ∪ (ms.filterMap Member.relationValue).toFinset
    semanticTags := w.semanticTags ∪ (ms.filterMap Member.tagValue).toFinset
    semanticFields := w.semanticFields + ms.filterMap Member.fieldValue
    typedParameters := w.typedParameters + ms.filterMap Member.parameterValue }

@[simp] theorem addMembers_zero (w : Window ν) : addMembers w 0 = w := by
  simp [addMembers]

theorem addMembers_add (w : Window ν) (a b : Multiset (Member ν)) :
    addMembers (addMembers w a) b = addMembers w (a + b) := by
  simp [addMembers, Multiset.filterMap_add, Finset.union_assoc, add_assoc]

/-- The values of equal members. -/
theorem filterMap_replicate {α β : Type} (f : α → Option β) (n : ℕ) (a : α) :
    (Multiset.replicate n a).filterMap f = ((f a).map (Multiset.replicate n)).getD 0 := by
  induction n with
  | zero => cases hf : f a <;> rfl
  | succ n ih =>
      rw [Multiset.replicate_succ]
      cases hf : f a with
      | none => rw [Multiset.filterMap_cons_none a _ hf, ih, hf]; rfl
      | some b =>
          rw [Multiset.filterMap_cons_some f a _ hf, ih, hf]
          exact (Multiset.replicate_succ b n).symm

theorem union_replicate {α : Type} [DecidableEq α] {count : ℕ} (hcount : count ≠ 0) (a : α)
    (s : Finset α) : s ∪ (Multiset.replicate count a).toFinset = insert a s := by
  ext b
  simp [hcount]

theorem addMember_eq (w : Window ν) {count : ℕ} (hcount : count ≠ 0) (m : Member ν) :
    addMember w count m = addMembers w (Multiset.replicate count m) := by
  cases m <;>
    simp only [addMember, addMembers, filterMap_replicate, Member.namespaceValue, Member.podValue,
      Member.entityKeyValue, Member.relationValue, Member.tagValue, Member.fieldValue,
      Member.parameterValue, Option.map_some, Option.map_none, Option.getD_some, Option.getD_none,
      Multiset.toFinset_zero, Finset.union_empty, add_zero, union_replicate hcount]

/-- The members of a window fill its core up to the window, but for the samples. -/
theorem addMembers_core (w : Window ν) :
    addMembers (core w) (members w) = { w with samples := [] } := by
  have hmap : ∀ {α β : Type} (f : α → Member ν) (g : Member ν → Option β) (s : Multiset α),
      (s.map f).filterMap g = s.filterMap fun a => g (f a) :=
    fun f g s => Multiset.filterMap_map f g s
  have hnone : ∀ {α β : Type} (s : Multiset α), s.filterMap (fun _ => (none : Option β)) = 0 :=
    fun s => Multiset.eq_zero_of_forall_notMem (by simp [Multiset.mem_filterMap])
  simp [addMembers, core, members, hmap, hnone, Member.namespaceValue, Member.podValue,
    Member.entityKeyValue, Member.relationValue, Member.tagValue, Member.fieldValue,
    Member.parameterValue]

/-- Windows filled and then merged are filled with what both are. -/
theorem addMembers_merged (a b : Window ν) (s s' : Multiset (Member ν)) :
    addMembers (a.merged b) (s + s') = (addMembers a s).merged (addMembers b s') := by
  simp [addMembers, Window.merged, Multiset.filterMap_add, Finset.union_left_comm,
    add_add_add_comm]

/-- The core of an identity with the members of all its windows is their merge. -/
theorem addMembers_membersOf {ws : List (Window ν)} {k : Identity} {w : Window ν}
    (h : (mergedWindows ws).get? k = some w) :
    addMembers (core w) (membersOf k ws) = { w with samples := [] } := by
  induction ws using List.reverseRecOn generalizing w with
  | nil => cases h
  | append_singleton ws v ih =>
      rw [get?_mergedWindows_append] at h
      rw [membersOf_append]
      by_cases hk : v.identity = k
      · rw [if_pos hk] at h ⊢
        cases hold : (mergedWindows ws).get? k with
        | none =>
            rw [hold] at h
            obtain rfl : v = w := Option.some.inj h
            rw [membersOf_eq_zero (get?_mergedWindows_eq_none.mp hold), zero_add, addMembers_core]
        | some u =>
            rw [hold] at h
            obtain rfl : u.merged v = w := Option.some.inj h
            rw [core_merged, addMembers_merged, ih hold, addMembers_core]
            rfl
      · rw [if_neg hk] at h ⊢
        rw [add_zero, ih h]

/-- The members that rows count. -/
def counted (rows : List (MemberRow ν)) : Multiset (Member ν) :=
  (rows.map fun row => Multiset.replicate row.count row.member).sum

/-- The rows of a window count its members, each in a row or in several. -/
structure StoredGeneration.StoresMembers (t : StoredGeneration ν σ) (windowKey : String)
    (members : Multiset (Member ν)) : Prop where
  positive : ∀ row ∈ t.membersOf windowKey, row.count ≠ 0
  counted_eq : counted (t.membersOf windowKey) = members

/-- The answer to a window whose members exceed the budget. -/
def exceeded : ReadError := .budget "单窗口成员超过物化预算；完整成员仍保留"

namespace Reader

/-- Further rows, after `count` rows and `used` bytes, stay within the budget. -/
def Within (reader : Reader ν σ) (count used : ℕ) (rows : List (MemberRow ν)) : Prop :=
  rows = [] ∨ (count + rows.length ≤ 10000 ∧
    used + (rows.map fun row => (reader.memberText row.member).utf8ByteSize).sum ≤ reader.pageBytes)

theorem within_cons (reader : Reader ν σ) {count used : ℕ} {row : MemberRow ν}
    {rest : List (MemberRow ν)} :
    reader.Within count used (row :: rest) ↔
      (count + 1 ≤ 10000 ∧ used + (reader.memberText row.member).utf8ByteSize ≤ reader.pageBytes) ∧
        reader.Within (count + 1) (used + (reader.memberText row.member).utf8ByteSize) rest := by
  cases rest with
  | nil => simp [Within]
  | cons next rest =>
      simp only [Within, reduceCtorEq, false_or, List.length_cons, List.map_cons, List.sum_cons]
      omega

theorem hydrateRows_eq (reader : Reader ν σ) {rows : List (MemberRow ν)}
    (hcounts : ∀ row ∈ rows, row.count ≠ 0) (count used : ℕ) (window : Window ν) :
    (reader.Within count used rows →
      reader.hydrateRows count used window rows = .ok (addMembers window (counted rows))) ∧
    (¬reader.Within count used rows →
      reader.hydrateRows count used window rows = .error exceeded) := by
  induction rows generalizing count used window with
  | nil => exact ⟨fun _ => congrArg Except.ok (addMembers_zero window).symm, fun h => absurd (.inl rfl) h⟩
  | cons row rest ih =>
      rw [within_cons, hydrateRows]
      obtain ⟨hok, herror⟩ := ih (fun r hr => hcounts r (List.mem_cons_of_mem row hr)) (count + 1)
        (used + (reader.memberText row.member).utf8ByteSize) (addMember window row.count row.member)
      by_cases hfits : count + 1 ≤ 10000 ∧
          used + (reader.memberText row.member).utf8ByteSize ≤ reader.pageBytes
      · rw [require_of hfits]
        refine ⟨fun h => (hok h.2).trans ?_, fun h => herror fun hrest => h ⟨hfits, hrest⟩⟩
        rw [addMember_eq window (hcounts row List.mem_cons_self), addMembers_add]
        rfl
      · rw [require_of_not hfits]
        exact ⟨fun h => absurd h.1 hfits, fun _ => rfl⟩

theorem within_perm (reader : Reader ν σ) {count used : ℕ} {rows rows' : List (MemberRow ν)}
    (h : rows.Perm rows') : reader.Within count used rows ↔ reader.Within count used rows' := by
  unfold Within
  rw [h.length_eq, (h.map _).sum_eq, ← List.length_eq_zero_iff, ← List.length_eq_zero_iff, h.length_eq]

/-- One row above the limit is enough to find that the limit is exceeded. -/
theorem within_take (reader : Reader ν σ) {used : ℕ} (rows : List (MemberRow ν)) :
    reader.Within 0 used (rows.take 10001) ↔ reader.Within 0 used rows := by
  by_cases hlength : rows.length ≤ 10001
  · rw [List.take_of_length_le hlength]
  · have htaken : (rows.take 10001).length = 10001 := List.length_take_of_le (by omega)
    unfold Within
    rw [← List.length_eq_zero_iff, ← List.length_eq_zero_iff]
    omega

/-- What is read back of a row that windows were folded into is the merge of those windows. -/
theorem hydrate_folded (reader : Reader ν σ) {repository : Repository ν} {rules : Rules σ}
    {ws : List (Window ν)} {windows : Dict String (ResultWindow ν σ)}
    (hfold : repository.foldWindows rules ws = .ok windows) {key : String} {row : ResultWindow ν σ}
    (hrow : windows.get? key = some row) {t : StoredGeneration ν σ} {windowKey : String}
    (hstores : t.StoresMembers windowKey row.members) :
    ∃ merged, (mergedWindows ws).get? row.canonical = some merged ∧
      (reader.Within 0 (reader.windowText row.core).utf8ByteSize (t.membersOf windowKey) →
        reader.hydrate t (windowKey, row.core) = .ok { merged with samples := [] }) ∧
      (¬reader.Within 0 (reader.windowText row.core).utf8ByteSize (t.membersOf windowKey) →
        reader.hydrate t (windowKey, row.core) = .error exceeded) := by
  have hfolded := folded_foldWindows hfold
  obtain ⟨w, hw, rfl⟩ := hfolded.known key row hrow
  rw [hfolded.row w hw] at hrow
  have hcanonical := canonical_rowFor hrow
  obtain ⟨c, hc, rfl⟩ := Option.map_eq_some_iff.mp hrow
  rw [get?_mergedWindows_core] at hc
  obtain ⟨merged, hmerged, rfl⟩ := Option.map_eq_some_iff.mp hc
  refine ⟨merged, hmerged, ?_⟩
  set rows := ordered memberPosition (t.membersOf windowKey) with hrows
  have hperm : rows.Perm (t.membersOf windowKey) := ordered_perm memberPosition _
  have hpositive : ∀ row ∈ rows.take 10001, row.count ≠ 0 := fun row hrow =>
    hstores.positive row (hperm.mem_iff.mp (List.mem_of_mem_take hrow))
  have hcounted : counted rows = membersOf w.identity ws :=
    ((hperm.map _).sum_eq).trans hstores.counted_eq
  obtain ⟨hok, herror⟩ := reader.hydrateRows_eq hpositive 0
    (reader.windowText (core merged)).utf8ByteSize (core merged)
  rw [within_take, reader.within_perm hperm] at hok herror
  refine ⟨fun hfits => (hok hfits).trans ?_, herror⟩
  have hall : rows.take 10001 = rows := by
    rw [List.take_eq_self_iff, hperm.length_eq]
    obtain hnil | ⟨hlength, -⟩ := hfits
    · rw [hnil]
      exact Nat.zero_le _
    · omega
  rw [hall, hcounted, addMembers_membersOf hmerged]

end Reader

section Runs

variable [LinearOrder σ] {repository : Repository ν} {rules : Rules σ}
  {source : TaskTables (Window ν)} (hkeys : (source.batchWindows.map position).Nodup)
  {actions : List Action} (hstored : Along (act repository rules) UpToDate (State.initial source) actions)
  {generation : String} {g : ResultGeneration ν σ}
  (hg : (exec (act repository rules) (State.initial source) actions).tables.generations.get?
    generation = some g) (hready : g.status = .ready)

include hkeys hstored hg hready

theorem foldedOnce_exec : FoldedOnce repository rules source.batchWindows g := by
  have hexact := (coordinated_exec (coordinated_initial source hkeys) hstored).exact generation g hg
  rw [items_exec] at hexact
  exact hexact.foldedOnce hready

/-- Whoever builds, crashes and takes over: what is read back of a row of a ready generation is
the merge of all committed windows of its identity, and is refused only when its members exceed
the budget. -/
theorem ready_reads_back {key : String} {row : ResultWindow ν σ}
    (hrow : g.windows.get? key = some row) (reader : Reader ν σ) {t : StoredGeneration ν σ}
    {windowKey : String} (hstores : t.StoresMembers windowKey row.members) :
    ∃ merged, (mergedWindows (committedWindows source.batchWindows)).get? row.canonical = some merged ∧
      (reader.Within 0 (reader.windowText row.core).utf8ByteSize (t.membersOf windowKey) →
        reader.hydrate t (windowKey, row.core) = .ok { merged with samples := [] }) ∧
      (¬reader.Within 0 (reader.windowText row.core).utf8ByteSize (t.membersOf windowKey) →
        reader.hydrate t (windowKey, row.core) = .error exceeded) :=
  reader.hydrate_folded (foldedOnce_exec hkeys hstored hg hready).windows hrow hstores

end Runs

/-! ## Complete pages -/

/-- The answer to a reference that is not that of a ready generation. -/
def refused : ReadError := .value "结果引用尚未完成或不存在"

namespace Reader

theorem validate_eq_ok {database : ResultDatabase ν σ} {reference : Reference}
    {t : StoredGeneration ν σ} (ht : database reference = some t) (hready : t.status = .ready) :
    validate database reference = .ok t := by
  rw [validate, ht]
  show (require (t.status = .ready) refused >>= fun _ => _) = _
  rw [require_of hready]
  rfl

theorem validate_eq_error {database : ResultDatabase ν σ} {reference : Reference}
    (h : ∀ t, database reference = some t → t.status ≠ .ready) :
    validate database reference = .error refused := by
  rw [validate]
  cases ht : database reference with
  | none => rfl
  | some t =>
      have hstatus := h t ht
      show (require (t.status = .ready) refused >>= fun _ => _) = _
      rw [require_of_not hstatus]
      rfl

theorem memberAfter_memberCursor {kind : String} (hkind : ':' ∉ kind.toList) (memberKey : String) :
    memberAfter (memberCursor (toLex (kind, memberKey))) = toLex (kind, memberKey) := by
  have htext : (memberCursor (toLex (kind, memberKey))).toList =
      kind.toList ++ ':' :: memberKey.toList := by
    show (kind ++ ":" ++ memberKey).toList = _
    rw [String.toList_append, String.toList_append, List.append_assoc]
    rfl
  have hbefore : ∀ c ∈ kind.toList, decide (c ≠ ':') = true := by
    intro c hc
    rw [decide_eq_true_iff]
    rintro rfl
    exact hkind hc
  rw [memberAfter, htext, if_pos (by simp), List.takeWhile_append_of_pos hbefore,
    List.dropWhile_append_of_pos hbefore]
  simp [String.ofList_toList]

theorem colon_notMem_kind (m : Member ν) : ':' ∉ m.kind.toList := by
  cases m <;> (rw [Member.kind]; decide)

theorem kind_ne_empty (m : Member ν) : m.kind ≠ "" := by
  cases m <;> (rw [Member.kind]; decide)

theorem empty_lt {s : String} (hs : s ≠ "") : "" < s :=
  lt_of_le_of_ne (Text.empty_le s) (Ne.symm hs)

/-- A generation that is ready is read completely, whatever the limit is. -/
structure ReadsAll (reader : Reader ν σ) (database : ResultDatabase ν σ) (reference : Reference)
    (limit : ℤ) (t : StoredGeneration ν σ) : Prop where
  entities : (∀ row ∈ t.entities,
      Admitted (reader.entityItem t) reader.entityBytes reader.pageBytes row) →
    ∀ fuel, t.entities.length < fuel → ∃ items,
      follow (reader.entities database reference limit) fuel "" = .ok (some items) ∧
      Enumerates reader.entityPosition t.entities
        (fun row item => reader.entityItem t row = .ok item) items
  windows : (∀ row ∈ t.windows,
      Admitted (windowItem reference) reader.factBytes reader.pageBytes row) →
    ∀ windowKey fuel, t.windows.length < fuel → ∃ items,
      follow (reader.facts database reference "windows" windowKey limit) fuel "" =
        .ok (some items) ∧
      Enumerates WindowRow.windowKey t.windows
        (fun row item => windowItem reference row = .ok item) items
  members : ∀ windowKey, windowKey ≠ "" → (∀ row ∈ t.membersOf windowKey,
      Admitted memberItem reader.factBytes reader.pageBytes row) →
    ∀ fuel, (t.membersOf windowKey).length < fuel → ∃ items,
      follow (reader.facts database reference "members" (some windowKey) limit) fuel "" =
        .ok (some items) ∧
      Enumerates memberPosition (t.membersOf windowKey)
        (fun row item => memberItem row = .ok item) items

variable {reader : Reader ν σ} {database : ResultDatabase ν σ} {reference : Reference}
variable {t : StoredGeneration ν σ}

theorem map_page_id {α ε : Type} (x : Except ε (List α × Option String)) :
    (x.map fun page => (page.1, page.2.map id)) = x := by
  cases x with
  | error e => rfl
  | ok page => rw [Except.map, Option.map_id_fun, id]

theorem nodup_entityPosition (reader : Reader ν σ) (t : StoredGeneration ν σ) :
    (t.entities.map reader.entityPosition).Nodup := by
  have hmap : t.entities.map reader.entityPosition =
      (t.entities.map EntityRow.key).map reader.entityText := by
    rw [List.map_map]
    rfl
  rw [hmap]
  exact t.entities_nodup.map reader.entityText_injective

theorem nodup_memberPosition (t : StoredGeneration ν σ) (windowKey : String) :
    ((t.membersOf windowKey).map memberPosition).Nodup := by
  have hkeys : ((t.membersOf windowKey).map
      fun r => (r.windowKey, r.member.kind, r.memberKey)).Nodup :=
    t.members_nodup.sublist (List.filter_sublist.map _)
  have hsame : (t.membersOf windowKey).map (fun r => (r.windowKey, r.member.kind, r.memberKey)) =
      ((t.membersOf windowKey).map memberPosition).map fun p => (windowKey, ofLex p) := by
    rw [List.map_map]
    refine List.map_congr_left fun r hr => ?_
    have hkey : r.windowKey = windowKey := by simpa using (List.mem_filter.mp hr).2
    rw [hkey]
    rfl
  rw [hsame] at hkeys
  exact hkeys.of_map _

theorem entities_complete (ht : database reference = some t) (hready : t.status = .ready)
    (limit : ℤ) (hrows : ∀ row ∈ t.entities,
      Admitted (reader.entityItem t) reader.entityBytes reader.pageBytes row) {fuel : ℕ}
    (hfuel : t.entities.length < fuel) :
    ∃ items, follow (reader.entities database reference limit) fuel "" = .ok (some items) ∧
      Enumerates reader.entityPosition t.entities
        (fun row item => reader.entityItem t row = .ok item) items := by
  refine enumerates_of_readPage id id (.budget "单实体超过结果响应预算")
    (nodup_entityPosition reader t) (fun _ _ => rfl) (pageLimit_pos limit) hrows ?_ ?_ hfuel
  · intro after
    rw [entities, validate_eq_ok ht hready]
    exact (map_page_id _).symm
  · exact fun row _ => empty_lt (reader.entityText_ne_empty row.key)

theorem windows_complete (ht : database reference = some t) (hready : t.status = .ready)
    (limit : ℤ) (hrows : ∀ row ∈ t.windows,
      Admitted (windowItem reference) reader.factBytes reader.pageBytes row)
    (windowKey : Option String) {fuel : ℕ} (hfuel : t.windows.length < fuel) :
    ∃ items, follow (reader.facts database reference "windows" windowKey limit) fuel "" =
        .ok (some items) ∧
      Enumerates WindowRow.windowKey t.windows
        (fun row item => windowItem reference row = .ok item) items := by
  refine enumerates_of_readPage id id (.budget "单事实超过分页字节预算")
    t.windows_nodup (fun _ _ => rfl) (pageLimit_pos limit) hrows ?_ ?_ hfuel
  · intro after
    rw [facts, validate_eq_ok ht hready]
    exact (map_page_id _).symm
  · exact fun row hrow => empty_lt (t.windowKey_ne_empty row hrow)

theorem members_complete (ht : database reference = some t) (hready : t.status = .ready)
    (limit : ℤ) {windowKey : String} (hkey : windowKey ≠ "") (hrows : ∀ row ∈ t.membersOf windowKey,
      Admitted memberItem reader.factBytes reader.pageBytes row)
    {fuel : ℕ} (hfuel : (t.membersOf windowKey).length < fuel) :
    ∃ items, follow (reader.facts database reference "members" (some windowKey) limit) fuel "" =
        .ok (some items) ∧
      Enumerates memberPosition (t.membersOf windowKey)
        (fun row item => memberItem row = .ok item) items := by
  refine enumerates_of_readPage memberAfter memberCursor (.budget "单事实超过分页字节预算")
    (nodup_memberPosition t windowKey) ?_ (pageLimit_pos limit) hrows ?_ ?_ hfuel
  · exact fun row _ => memberAfter_memberCursor (colon_notMem_kind row.member) row.memberKey
  · intro after
    have hgiven : given (some windowKey) = some windowKey := by simp [given, hkey]
    rw [facts, validate_eq_ok ht hready]
    have hother : ¬"members" = "windows" := by decide
    simp only [hgiven]
    rw [show ∀ f : StoredGeneration ν σ → ReadResult (List (FactItem ν) × Option String),
      (Except.ok t >>= f) = f t from fun f => rfl, if_neg hother]
    cases readPage memberPosition memberItem reader.factBytes reader.pageBytes
      (.budget "单事实超过分页字节预算") (memberAfter after) (pageLimit limit)
      (t.membersOf windowKey) <;> rfl
  · intro row _
    show toLex ("", "") < toLex (row.member.kind, row.memberKey)
    exact Prod.Lex.left _ _ (empty_lt (kind_ne_empty row.member))

theorem readsAll (ht : database reference = some t) (hready : t.status = .ready) (limit : ℤ) :
    reader.ReadsAll database reference limit t where
  entities hrows _ hfuel := entities_complete ht hready limit hrows hfuel
  windows hrows windowKey _ hfuel := windows_complete ht hready limit hrows windowKey hfuel
  members _ hkey hrows _ hfuel := members_complete ht hready limit hkey hrows hfuel

end Reader

/-! ## Two entities on two pages -/

def memberJson : Member Unit → Json
  | .affectedNamespace value => .str value
  | .affectedPod value => .str value
  | .entityKey value => .str value
  | .entityRelation value => .obj [("from", .str value.fromKey), ("relation", .str value.relation),
      ("to", .str value.toKey)]
  | .semanticTag value => .str value
  | .semanticField field _ => .obj [("field", .str field), ("value", .null)]
  | .typedParameter field mask => .obj [("field", .str field), ("typed_mask", .str mask)]

/-- The fields that tell the windows of the example apart. -/
def windowJson (w : Window Unit) : Json :=
  .obj [("component", textJson w.component), ("count", .num w.count),
    ("template", textJson w.template), ("template_hash", textJson w.templateHash)]

def referenceJson (reference : Reference) : List (String × Json) :=
  [("generation", .str reference.generation), ("task_id", .str reference.taskId)]

/-- Pages of the given bytes. -/
def jsonReader (bytes : ℕ) : Reader Unit ℕ where
  entityText key := Json.dumps key.json
  windowText w := Json.dumps (windowJson w)
  memberText m := Json.dumps (memberJson m)
  entityItemText item := Json.dumps (.obj [
    ("affected_entities", .arr (item.affectedEntities.map .str)),
    ("entity_id", .str item.key.entityId), ("risk_score", .num item.score),
    ("summary", .str item.summary), ("top_templates", .arr (item.topTemplates.map windowJson))])
  factText
    | .window w windowKey membersRef => Json.dumps (.obj [("core", windowJson w),
        ("members_ref", .obj (referenceJson membersRef.1 ++ [("window_key", .str membersRef.2)])),
        ("window_key", .str windowKey)])
    | .member kind value count => Json.dumps (.obj [("count", .num count), ("kind", .str kind),
        ("value", memberJson value)])
  pageBytes := bytes
  entityText_injective := EntityKey.dumps_injective
  entityText_ne_empty := (textual bytes : Repository Unit).entityText_ne_empty

def entityRow (entityId windowKey : String) : EntityRow Unit ℕ where
  key := ⟨none, none, some "c", .node, entityId⟩
  score := 1
  level := .low
  topTemplates := [(windowKey, failedOnce)]
  summary := "s"

def twoEntities : StoredGeneration Unit ℕ where
  status := .ready
  entities := [entityRow "n" "w1", entityRow "m" "w2"]
  windows := [⟨"w1", (entityRow "n" "w1").key, failedOnce⟩, ⟨"w2", (entityRow "m" "w2").key, failedOnce⟩]
  members := [⟨"w1", "k2", .affectedPod "p2", 1⟩, ⟨"w1", "k1", .affectedPod "p1", 1⟩,
    ⟨"w2", "k1", .semanticTag "t", 1⟩]
  entities_nodup := by decide
  windows_nodup := by decide
  members_nodup := by decide
  windowKey_ne_empty := by decide

def storedTwo : ResultDatabase Unit ℕ := fun reference =>
  if reference = ⟨"t", "g"⟩ then some twoEntities else none

/-- The window of the example, with a pod it was seen on. -/
def failedOn (pod : String) : Window Unit := { failedOnce with affectedPods := {pod} }

/-- A batch of two windows, which are folded into one row. -/
def committedTwo : TaskTables (Window Unit) :=
  { committedOnce with batchWindows := [⟨"b", 0, failedOn "p2"⟩, ⟨"b", 1, failedOn "p1"⟩] }

/-- The pods of two windows come back in the window they were folded into, by a builder that
took over. -/
theorem ready_reads_back_two :
    ∃ g row, (exec (act (textual 512) countRules) (State.initial committedTwo)
        takenOver).tables.generations.get? "g" = some g ∧ g.status = .ready ∧
      g.windows.get? ((textual 512 : Repository Unit).digest failedOnce.identity) = some row ∧
      (jsonReader 300).hydrate twoEntities ("w1", row.core) =
        .ok { (failedOn "p2").merged (failedOn "p1") with samples := [] } := by
  have hrun : ((exec (act (textual 512) countRules) (State.initial committedTwo)
      takenOver).tables.generations.get? "g").map ResultGeneration.status = some .ready := by
    decide +kernel
  obtain ⟨g, hg, hready⟩ := Option.map_eq_some_iff.mp hrun
  have hkeys : (committedTwo.batchWindows.map position).Nodup := by decide +kernel
  have hstored : Along (act (textual 512) countRules) UpToDate (State.initial committedTwo) takenOver := by
    decide +kernel
  have hwindows : committedWindows committedTwo.batchWindows = [failedOn "p2", failedOn "p1"] := rfl
  have hfold := (foldedOnce_exec hkeys hstored hg hready).windows
  rw [hwindows] at hfold
  have hrow := (folded_foldWindows hfold).row (failedOn "p2") List.mem_cons_self
  have hrow := hrow.trans (rowFor_append_self countRules [failedOn "p2"] (failedOn "p1"))
  have hstores : twoEntities.StoresMembers "w1"
      (membersOf failedOnce.identity [failedOn "p2"] + members (failedOn "p1")) := ⟨by decide, rfl⟩
  obtain ⟨merged, hmerged, hok, -⟩ :=
    ready_reads_back hkeys hstored hg hready hrow (jsonReader 300) hstores
  obtain rfl : (failedOn "p2").merged (failedOn "p1") = merged :=
    Option.some.inj (Eq.trans rfl hmerged)
  exact ⟨g, _, hg, hready, hrow, hok (.inr (by decide +kernel))⟩

theorem admitted_of_decide {α β ε : Type} {render : α → Except ε β} {size : β → ℕ} {budget : ℕ}
    {row : α} (h : ((render row).toOption.map fun item => decide (size item ≤ budget)) = some true) :
    Admitted render size budget row := by
  cases hrender : render row with
  | error e =>
      rw [hrender] at h
      cases h
  | ok item =>
      rw [hrender] at h
      exact ⟨item, hrender, of_decide_eq_true (Option.some.inj h)⟩

example : ((jsonReader 300).entities storedTwo ⟨"t", "g"⟩ 2 "").toOption.map
    (fun page => (page.1.map fun item => (item.key.entityId, item.affectedEntities), page.2)) =
      some ([("m", [])], some ((jsonReader 300).entityText (entityRow "m" "w2").key)) := by
  decide +kernel

end LogRisk.Results
