import LogRisk.Library.Base64
import LogRisk.Library.Checks
import LogRisk.Library.JsonText
import LogRisk.Library.Text
import LogRisk.Library.Value

/-!
# Filters and cursors of the ledger views

A request names its filters in an untyped mapping.  What is left of it after normalization is
the same for every page; a cursor carries a digest of it, so that it continues one query only.
-/

namespace LogRisk.Analytics

open LogRisk.Library LogRisk.Library.Transaction
open LogRisk.Library.Dict (assoc)

/-! ## Outside the views -/

/-- What `datetime.fromisoformat` makes of a text, and the time in UTC. -/
inductive ParsedTime where
  | invalid
  | naive
  | utc (text : String)

/-- A JSON value that is no container. -/
def IsScalar : Json → Prop
  | .arr _ => False
  | .obj _ => False
  | _ => True

/-- `hashlib`, `json.loads`, `datetime.fromisoformat` and `int` of a text of digits. -/
structure Host where
  sha256 : String → String
  loads : String → Option Json
  parseTime : String → ParsedTime
  digits : String → Option ℕ
  sha256_injective : Function.Injective sha256
  loads_dumps : ∀ fields : List (String × Json), (fields.map Prod.fst).Nodup →
    (∀ f ∈ fields, IsScalar f.2) → loads (Json.dumps (.obj fields)) = some (.obj fields)

inductive Failure where
  | analytics (message code : String)
  | database (message : String)
deriving DecidableEq

abbrev Outcome (α : Type) := Except Failure α

/-- `OperationalAnalyticsError(message)`. -/
def invalid (message : String) : Failure := .analytics message "invalid_filters"

/-! ## Filters -/

inductive TimeBasis where
  | activity
  | completedRunCohort
deriving DecidableEq

def TimeBasis.name : TimeBasis → String
  | activity => "activity"
  | completedRunCohort => "completed_run_cohort"

/-- The public filters of a normalized request. -/
structure Filters where
  environment : String
  scopeKey : Option String
  fromTime : Option String
  toTime : Option String
  timeBasis : TimeBasis
  provider : Option String
  model : Option String
  pageSize : ℕ
deriving DecidableEq

structure Normalized where
  filters : Filters
  cursor : Option String
deriving DecidableEq

def filterKeys : List String :=
  ["environment", "scope_key", "from", "to", "time_basis", "provider", "model", "page_size",
    "cursor"]

def environments : List String := ["production", "local-test", "all"]

def defaultEnvironment : String := "production"

def defaultPageSize : ℕ := 50

def maxPageSize : ℕ := 200

/-- `_filter_text`. -/
def filterText (field : String) : Option Value → Outcome (Option String)
  | none => return none
  | some .null => return none
  | some (.str value) => do
      let text := Text.strip value
      require (text ≠ "") (invalid (field ++ " 不能为空"))
      require (text.length ≤ 256) (invalid (field ++ " 过长"))
      return some text
  | some _ => .error (invalid (field ++ " 必须是字符串"))

/-- `_parse_timestamp`. -/
def parseTimestamp (host : Host) (field : String) : Option Value → Outcome (Option String)
  | none => return none
  | some .null => return none
  | some (.str value) => do
      let text := Text.strip value
      require (text ≠ "") (.analytics (field ++ " 不能为空") "invalid_timestamp")
      match host.parseTime text with
      | .invalid => .error (.analytics (field ++ " 时间格式无效") "invalid_timestamp")
      | .naive => .error (.analytics (field ++ " 必须包含时区") "invalid_timestamp")
      | .utc instant => return some instant
  | some _ => .error (.analytics (field ++ " 时间格式无效") "invalid_timestamp")

/-- `_page_size`. -/
def pageSize (host : Host) (value : Option Value) : Outcome ℕ :=
  let wrong := invalid "page_size 必须是正整数"
  let bounded (n : ℤ) : Outcome ℕ := do
    require (1 ≤ n ∧ n ≤ maxPageSize) (invalid "page_size 必须在 1 到 200 之间")
    return n.toNat
  match value with
  | none => return defaultPageSize
  | some .null => return defaultPageSize
  | some (.int n) => bounded n
  | some (.str s) => do
      let n ← orFail (host.digits s) wrong
      bounded n
  | some _ => .error wrong

def environmentOf (value : Option Value) : Outcome String :=
  match value.getD (.str defaultEnvironment) with
  | .null => return defaultEnvironment
  | .str s => do
      require (s ∈ environments) (invalid "environment 无效")
      return s
  | _ => .error (invalid "environment 无效")

def timeBasisOf (value : Option Value) : Outcome TimeBasis :=
  match value.getD (.str "activity") with
  | .null => return .activity
  | .str "activity" => return .activity
  | .str "completed_run_cohort" => return .completedRunCohort
  | _ => .error (invalid "time_basis 无效")

def invalidCursor : Failure := .analytics "cursor 无效" "invalid_cursor"

/-- A cursor is a text of at most so many characters. -/
def cursorLimit : ℕ := 4096

def cursorOf : Option Value → Outcome (Option String)
  | none => return none
  | some .null => return none
  | some (.str cursor) => do
      require (cursor ≠ "" ∧ cursor.length ≤ cursorLimit) invalidCursor
      return some cursor
  | some _ => .error invalidCursor

/-- The keys of a request that are no filters. -/
def unknownKeys (source : Entries) : List String :=
  ((source.map Prod.fst).filter fun key => key ∉ filterKeys).mergeSort fun a b => a ≤ b

/-- `from` before `to`, where both are given. -/
def Ordered : Option String → Option String → Prop
  | some fromTime, some toTime => fromTime < toTime
  | _, _ => True

instance : ∀ a b, Decidable (Ordered a b)
  | some a, some b => inferInstanceAs (Decidable (a < b))
  | none, _ => isTrue (by unfold Ordered; trivial)
  | some _, none => isTrue (by unfold Ordered; trivial)

/-- `normalize_filters` of a mapping, without the digest. -/
def normalizeFilters (host : Host) (source : Entries) : Outcome Normalized := do
  require (unknownKeys source = [])
    (invalid ("analytics filters 包含未知字段: " ++ ", ".intercalate (unknownKeys source)))
  let environment ← environmentOf (assoc "environment" source)
  let scopeKey ← filterText "scope_key" (assoc "scope_key" source)
  let timeBasis ← timeBasisOf (assoc "time_basis" source)
  let provider ← filterText "provider" (assoc "provider" source)
  let model ← filterText "model" (assoc "model" source)
  let fromTime ← parseTimestamp host "from" (assoc "from" source)
  let toTime ← parseTimestamp host "to" (assoc "to" source)
  require (Ordered fromTime toTime) (.analytics "from 必须早于 to" "invalid_time_range")
  let cursor ← cursorOf (assoc "cursor" source)
  let size ← pageSize host (assoc "page_size" source)
  return { filters := ⟨environment, scopeKey, fromTime, toTime, timeBasis, provider, model, size⟩
           cursor := cursor }

/-! ## Digests -/

def textJson : Option String → Json
  | none => .null
  | some text => .str text

/-- The payload of `_filter_digest`. -/
def Filters.fields (f : Filters) : List (String × Json) :=
  [("environment", .str f.environment), ("scope_key", textJson f.scopeKey),
    ("from", textJson f.fromTime), ("to", textJson f.toTime),
    ("time_basis", .str f.timeBasis.name), ("provider", textJson f.provider),
    ("model", textJson f.model), ("page_size", .num f.pageSize)]

def filterDigest (host : Host) (f : Filters) : String :=
  host.sha256 (Json.canonical (.obj f.fields))

/-! ## Cursors -/

def cursorVersion : ℤ := 1

def cursorFields (host : Host) (f : Filters) (timestamp itemId : String) : List (String × Json) :=
  [("filter_digest", .str (filterDigest host f)), ("id", .str itemId),
    ("timestamp", .str timestamp), ("version", .num cursorVersion)]

/-- `_make_cursor`. -/
def makeCursor (host : Host) (f : Filters) (timestamp itemId : String) : String :=
  String.ofList (Base64.encode (Base64.utf8
    (Json.canonical (.obj (cursorFields host f timestamp itemId)))))

/-- `payload.get("version") == _CURSOR_VERSION`; a Boolean is a number. -/
def isVersion : Json → Bool
  | .num n => n = cursorVersion
  | .bool b => b
  | _ => false

/-- The text of a cursor, read as JSON. -/
def decodeCursor (host : Host) (cursor : String) : Option Json := do
  let bytes ← Base64.decode cursor.toList
  let text ← Base64.fromUtf8 bytes
  host.loads text

/-- A text, where the value is one. -/
def text? : Json → Option String
  | .str s => some s
  | _ => none

/-- What continues another query. -/
def otherQuery : Failure := .analytics "cursor 与当前筛选条件不匹配" "invalid_cursor"

/-- `_cursor_payload`. -/
def cursorPayload (host : Host) (f : Filters) (cursor : String) : Outcome (String × String) := do
  let payload ← orFail (decodeCursor host cursor) invalidCursor
  match payload with
  | .obj fields => do
      require (isVersion (Json.field "version" fields) = true)
        (.analytics "cursor 版本无效" "invalid_cursor")
      require (text? (Json.field "filter_digest" fields) = some (filterDigest host f)) otherQuery
      match text? (Json.field "timestamp" fields), text? (Json.field "id" fields) with
      | some timestamp, some itemId => do
          require (timestamp ≠ "" ∧ itemId ≠ "")
            (.analytics "cursor 排序位置无效" "invalid_cursor")
          return (timestamp, itemId)
      | _, _ => .error (.analytics "cursor 排序位置无效" "invalid_cursor")
  | _ => .error (.analytics "cursor 版本无效" "invalid_cursor")

/-! ## A cursor and its query -/

theorem textJson_injective : Function.Injective textJson := by
  intro a b h
  cases a <;> cases b <;> simp_all [textJson]

/-- Filters are told apart by their payload. -/
theorem fields_injective {f g : Filters}
    (h : Json.sorted (.obj f.fields) = Json.sorted (.obj g.fields)) : f = g := by
  have hfield := Json.field_eq_of_sorted h
  have htext : ∀ key a b, Json.field key f.fields = textJson a →
      Json.field key g.fields = textJson b → a = b := by
    intro key a b ha hb
    have hsame := hfield key
    rw [ha, hb] at hsame
    refine textJson_injective ?_
    cases a <;> cases b <;> simpa [textJson, Json.sorted] using hsame
  obtain ⟨environment, scopeKey, fromTime, toTime, timeBasis, provider, model, size⟩ := f
  obtain ⟨environment', scopeKey', fromTime', toTime', timeBasis', provider', model', size'⟩ := g
  have henvironment := htext "environment" (some environment) (some environment') rfl rfl
  have hscope := htext "scope_key" scopeKey scopeKey' rfl rfl
  have hfrom := htext "from" fromTime fromTime' rfl rfl
  have hto := htext "to" toTime toTime' rfl rfl
  have hbasis := htext "time_basis" (some timeBasis.name) (some timeBasis'.name) rfl rfl
  have hprovider := htext "provider" provider provider' rfl rfl
  have hmodel := htext "model" model model' rfl rfl
  have hsize : size = size' := by
    have hsame := hfield "page_size"
    change Json.sorted (.num size) = Json.sorted (.num size') at hsame
    simpa [Json.sorted] using hsame
  have hname : timeBasis = timeBasis' := by
    cases timeBasis <;> cases timeBasis' <;> simp [TimeBasis.name] at hbasis ⊢
  rw [Option.some.inj henvironment, hscope, hfrom, hto, hname, hprovider, hmodel, hsize]

theorem filterDigest_injective (host : Host) : Function.Injective (filterDigest host) :=
  fun _ _ h => fields_injective (Json.sorted_eq_of_canonical (host.sha256_injective h))

theorem sorted_cursorFields (host : Host) (f : Filters) (timestamp itemId : String) :
    Json.sorted (.obj (cursorFields host f timestamp itemId)) =
      .obj (cursorFields host f timestamp itemId) := by
  have hid : "filter_digest" ≤ "id" := by decide
  have htimestamp : "id" ≤ "timestamp" := by decide
  have hversion : "timestamp" ≤ "version" := by decide
  simp [cursorFields, Json.sorted, Json.sortedFields, Json.insertField, hid, htimestamp, hversion]

/-- A cursor is read as what it was made of. -/
theorem decodeCursor_makeCursor (host : Host) (f : Filters) (timestamp itemId : String) :
    decodeCursor host (makeCursor host f timestamp itemId) =
      some (.obj (cursorFields host f timestamp itemId)) := by
  have hloads : host.loads (Json.canonical (.obj (cursorFields host f timestamp itemId))) =
      some (.obj (cursorFields host f timestamp itemId)) := by
    have htext : Json.canonical (.obj (cursorFields host f timestamp itemId)) =
        Json.dumps (.obj (cursorFields host f timestamp itemId)) := by
      rw [Json.canonical, Json.canonicalChars, sorted_cursorFields, Json.dumps]
    rw [htext]
    refine host.loads_dumps _ (by simp [cursorFields]) fun field hfield => ?_
    simp only [cursorFields, List.mem_cons, List.not_mem_nil, or_false] at hfield
    rcases hfield with rfl | rfl | rfl | rfl <;> trivial
  rw [decodeCursor, makeCursor, String.toList_ofList, Base64.decode_encode]
  generalize Json.canonical (.obj (cursorFields host f timestamp itemId)) = encoded at hloads ⊢
  simp only [Option.bind_eq_bind, Option.bind_some, Base64.fromUtf8_utf8, hloads]

/-- What is checked of a cursor that a view has issued. -/
theorem cursorPayload_issued (host : Host) (f g : Filters) (timestamp itemId : String) :
    cursorPayload host g (makeCursor host f timestamp itemId) = (do
      require (filterDigest host f = filterDigest host g) otherQuery
      require (timestamp ≠ "" ∧ itemId ≠ "") (.analytics "cursor 排序位置无效" "invalid_cursor")
      return (timestamp, itemId)) := by
  have hversion : isVersion (Json.field "version" (cursorFields host f timestamp itemId)) = true :=
    rfl
  have hdigest : text? (Json.field "filter_digest" (cursorFields host f timestamp itemId)) =
      some (filterDigest host f) := rfl
  have htimestamp : text? (Json.field "timestamp" (cursorFields host f timestamp itemId)) =
      some timestamp := rfl
  have hid : text? (Json.field "id" (cursorFields host f timestamp itemId)) = some itemId := rfl
  rw [cursorPayload, decodeCursor_makeCursor]
  generalize cursorFields host f timestamp itemId = fields at *
  simp only [orFail, bind, Except.bind, hversion, hdigest, htimestamp, hid, require_of,
    Option.some.injEq]

theorem cursorPayload_makeCursor (host : Host) (f : Filters) {timestamp itemId : String}
    (htimestamp : timestamp ≠ "") (hid : itemId ≠ "") :
    cursorPayload host f (makeCursor host f timestamp itemId) = .ok (timestamp, itemId) := by
  rw [cursorPayload_issued, require_of rfl, require_of ⟨htimestamp, hid⟩]
  rfl

/-- A cursor is refused by every other query. -/
theorem cursorPayload_other (host : Host) {f g : Filters} (h : f ≠ g) (timestamp itemId : String) :
    cursorPayload host g (makeCursor host f timestamp itemId) = .error otherQuery := by
  rw [cursorPayload_issued, require_of_not ((filterDigest_injective host).ne h)]
  rfl

end LogRisk.Analytics
