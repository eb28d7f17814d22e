import LogRisk.Library.Dict
import LogRisk.Library.Text
import LogRisk.Library.Transaction

/-!
# The prompt registry

Prompts are kept in two tables: a template with its current version, and all versions under
(prompt, number).  Four writers number the versions: the seed from the prompt directory, an update,
the import of a candidate, and the import of an old history file.
-/

namespace LogRisk.Prompts

open LogRisk.Library LogRisk.Library.Text LogRisk.Library.Transaction

inductive PromptError
  | valueError (text : String)
  | fileNotFound (text : String)
  | integrityError (text : String)
deriving DecidableEq, Repr

/-- What the registry takes from the language: the digest of a text, and its lower case. -/
structure PromptHost where
  sha256 : String → String
  sha256_injective : Function.Injective sha256
  lower : String → String

/-! ## The contract of a feature prompt -/

def featureOutputFields : List String :=
  ["feature_type", "title", "summary", "importance", "template_hashes", "components", "tags",
    "selection_reason"]

def singleFeatureConstraints : List String :=
  ["one coherent abnormal pattern", "different failure semantics"]

def Occurs (part text : String) : Prop := part.toList <:+: text.toList

instance (part text : String) : Decidable (Occurs part text) :=
  inferInstanceAs (Decidable (part.toList <:+: text.toList))

/-- Whether the whole text stands in a fence. -/
def Fenced (text : String) : Prop :=
  "```".toList <+: (strip text).toList ∧ "```".toList <:+ (strip text).toList

instance (text : String) : Decidable (Fenced text) :=
  inferInstanceAs (Decidable (_ ∧ _))

def validateFeaturePromptContract (H : PromptHost) (content : String) : Except PromptError Unit := do
  let missing := featureOutputFields.filter fun field => ¬ Occurs field content
  require (missing = [])
    (.valueError ("feature_extract Prompt 缺少必填输出字段: " ++ String.intercalate ", " missing))
  require (Occurs "lowercase_snake_case" content)
    (.valueError "feature_extract Prompt 必须要求 feature_type 使用 lowercase_snake_case")
  require (∀ item ∈ singleFeatureConstraints, Occurs item (H.lower content))
    (.valueError ("feature_extract Prompt 必须约束 one coherent abnormal pattern 和 " ++
      "different failure semantics"))
  require (¬ Fenced content)
    (.valueError "feature_extract Prompt 不能整体包裹在 Markdown 代码围栏中")

/-! ## Tables -/

structure TemplateRow where
  analysisType : String
  currentVersion : ℕ
deriving DecidableEq, Repr

structure VersionRow where
  promptId : String
  version : ℕ
  content : String
  contentSha256 : String
deriving DecidableEq, Repr

structure PromptTables where
  templates : Dict String TemplateRow := .empty
  versions : List VersionRow := []

/-- A prompt as the registry returns it. -/
structure PromptTemplate where
  promptId : String
  content : String
  sha256 : String
  analysisType : String
  version : ℕ
deriving DecidableEq, Repr

def versionsOf (T : PromptTables) (promptId : String) : List VersionRow :=
  T.versions.filter fun row => row.promptId = promptId

/-- The template with the row of its current version. -/
def current (T : PromptTables) (promptId : String) : Option (TemplateRow × VersionRow) :=
  (T.templates.get? promptId).bind fun template =>
    ((versionsOf T promptId).find? fun row => row.version = template.currentVersion).map
      (template, ·)

def insertTemplate (T : PromptTables) (promptId : String) (row : TemplateRow) :
    Except PromptError PromptTables := do
  require (T.templates.get? promptId = none)
    (.integrityError "UNIQUE constraint failed: prompt_templates.prompt_id")
  pure { T with templates := T.templates.set promptId row }

def insertVersion (T : PromptTables) (row : VersionRow) : Except PromptError PromptTables := do
  require (∀ stored ∈ T.versions, (stored.promptId, stored.version) ≠ (row.promptId, row.version))
    (.integrityError
      "UNIQUE constraint failed: prompt_versions.prompt_id, prompt_versions.version")
  pure { T with versions := T.versions ++ [row] }

def setCurrentVersion (T : PromptTables) (promptId : String) (version : ℕ) : PromptTables :=
  { T with
    templates := T.templates.mapEntries fun k row =>
      if k = promptId then { row with currentVersion := version } else row }

/-! ## Reading -/

def load (T : PromptTables) (promptId : String) : Except PromptError PromptTemplate :=
  match current T promptId with
  | none => .error (.fileNotFound ("prompt not found: " ++ promptId))
  | some (template, row) =>
      .ok ⟨promptId, row.content, row.contentSha256, template.analysisType, template.currentVersion⟩

def loadByHash (T : PromptTables) (promptId sha256 : String) : Except PromptError PromptTemplate :=
  match T.templates.get? promptId,
    (versionsOf T promptId).find? fun row => row.contentSha256 = sha256 with
  | some template, some row =>
      .ok ⟨promptId, row.content, row.contentSha256, template.analysisType, row.version⟩
  | _, _ => .error (.fileNotFound ("prompt snapshot not found: " ++ promptId ++ "@" ++ sha256))

/-! ## The seed -/

structure PromptMeta where
  promptId : String
  analysisType : Option String
deriving DecidableEq, Repr

def PromptMeta.type (entry : PromptMeta) : String :=
  match entry.analysisType with
  | none => "feature_extract"
  | some text => if text = "" then "feature_extract" else text

/-- The configuration and the directory that a registry is constructed over, files by stem and in
path order. -/
structure PromptDirectory where
  prompts : List PromptMeta
  files : List (String × String)

def PromptDirectory.configured (dir : PromptDirectory) : List PromptMeta :=
  match dir.prompts.filter fun entry => entry.promptId ≠ "" with
  | [] => dir.files.map fun file => ⟨file.1, none⟩
  | entries => entries

def PromptDirectory.readText (dir : PromptDirectory) (stem : String) : Option String :=
  (dir.files.find? fun file => file.1 = stem).map Prod.snd

def nextVersion (T : PromptTables) (promptId : String) : ℕ :=
  ((versionsOf T promptId).map VersionRow.version).foldr max 0 + 1

variable (H : PromptHost)

/-- Writes a version and makes it the current one. -/
def addVersion (T : PromptTables) (promptId : String) (version : ℕ) (content : String) :
    Except PromptError PromptTables := do
  let T ← insertVersion T ⟨promptId, version, content, H.sha256 content⟩
  pure (setCurrentVersion T promptId version)

/-- Writes a template with its first version. -/
def addTemplate (T : PromptTables) (promptId analysisType content : String) :
    Except PromptError PromptTables := do
  let T ← insertTemplate T promptId ⟨analysisType, 1⟩
  insertVersion T ⟨promptId, 1, content, H.sha256 content⟩

/-- A stored feature prompt that breaks the contract is replaced by the file. -/
def repairPrompt (T : PromptTables) (promptId stored content : String) :
    Except PromptError PromptTables :=
  match validateFeaturePromptContract H stored with
  | .ok _ => .ok T
  | .error _ => addVersion H T promptId (nextVersion T promptId) content

def storePrompt (T : PromptTables) (entry : PromptMeta) (content : String) :
    Except PromptError PromptTables :=
  match current T entry.promptId with
  | none => addTemplate H T entry.promptId entry.type content
  | some (_, row) =>
      if entry.type = "feature_extract" then repairPrompt H T entry.promptId row.content content
      else .ok T

def checkContract (analysisType content : String) : Except PromptError Unit :=
  if analysisType = "feature_extract" then validateFeaturePromptContract H content else .ok ()

def seedPrompt (dir : PromptDirectory) (T : PromptTables) (entry : PromptMeta) :
    Except PromptError PromptTables := do
  let content ← orFail (dir.readText entry.promptId) (.fileNotFound (entry.promptId ++ ".md"))
  let _ ← checkContract H entry.type content
  storePrompt H T entry content

def seed (dir : PromptDirectory) (T : PromptTables) : Except PromptError PromptTables :=
  dir.configured.foldlM (seedPrompt H dir) T

/-! ## Update and candidates -/

def update (T : PromptTables) (promptId content : String) :
    Except PromptError (PromptTemplate × PromptTables) := do
  require (strip content ≠ "") (.valueError "prompt content must be non-empty")
  let row ← orFail (T.templates.get? promptId) (.fileNotFound ("prompt not found: " ++ promptId))
  let _ ← checkContract H row.analysisType content
  let T ← addVersion H T promptId (row.currentVersion + 1) content
  let prompt ← load T promptId
  pure (prompt, T)

/-- A new candidate, or the one there is. -/
def storeCandidate (T : PromptTables) (promptId content : String) :
    Except PromptError PromptTables :=
  match current T promptId with
  | some (_, row) => do
      require (row.contentSha256 = H.sha256 content) (.valueError "候选 Prompt ID 已存在不同内容")
      pure T
  | none => addTemplate H T promptId "feature_extract" content

def createCandidate (T : PromptTables) (promptId content : String) :
    Except PromptError (PromptTemplate × PromptTables) := do
  require (strip content ≠ "") (.valueError "prompt content must be non-empty")
  let _ ← validateFeaturePromptContract H content
  let T ← storeCandidate H T promptId content
  let prompt ← load T promptId
  pure (prompt, T)

/-! ## The import of a history file -/

/-- An entry of `prompt_versions.json`, newest first there. -/
structure HistoryItem where
  content : Option String
  sha256 : Option String
deriving DecidableEq, Repr

def HistoryItem.text (item : HistoryItem) : String := item.content.getD ""

def HistoryItem.digest (item : HistoryItem) : String :=
  match item.sha256 with
  | none => H.sha256 item.text
  | some text => if text = "" then H.sha256 item.text else text

def importedRows (promptId : String) (versions : List HistoryItem) : List VersionRow :=
  (versions.reverse.zipIdx 1).map fun numbered =>
    ⟨promptId, numbered.2, numbered.1.text, numbered.1.digest H⟩

def importVersions (T : PromptTables) (history : String × List HistoryItem) :
    Except PromptError PromptTables :=
  match current T history.1 with
  | none => .ok T
  | some (_, row) => do
      let kept := { T with versions := T.versions.filter fun row => row.promptId ≠ history.1 }
      let written ← (importedRows H history.1 history.2).foldlM insertVersion kept
      let number := history.2.length + 1
      let written ← insertVersion written ⟨history.1, number, row.content, row.contentSha256⟩
      pure (setCurrentVersion written history.1 number)

def importHistory (T : PromptTables) (history : Dict String (List HistoryItem)) :
    Except PromptError PromptTables :=
  history.entries.foldlM (importVersions H) T

end LogRisk.Prompts
