import LogRisk.Problems.Codes

/-!
# Resolving a feature to one problem

The catalogue of patterns over the text of a template, the selection of the
templates a feature rests on, and the decision of one problem code from their
patterns and from structured codes.
-/

namespace LogRisk.Problems

open Library
open Library.Text
open Approval (stripped sortedSet)

inductive Source where
  | structuredSemantic
  | selectedTemplatePattern
  | featureTypeHint
  | deterministicKeyword
  | fallback
deriving DecidableEq

inductive Confidence where
  | high
  | medium
  | low
deriving DecidableEq

structure ProblemResolution where
  problemCode : Option String
  confidence : Confidence
  semanticSafe : Bool
  ambiguity : Bool
  evidenceSource : Source
  matchedRule : Option String
  supportingCodes : List String
  subtype : Option String
  missingSelectedIds : List String
  unresolvedSelectedIds : List String
deriving DecidableEq

/-- Nothing was found. -/
def nothing : ProblemResolution where
  problemCode := none
  confidence := .low
  semanticSafe := false
  ambiguity := false
  evidenceSource := .fallback
  matchedRule := none
  supportingCodes := []
  subtype := none
  missingSelectedIds := []
  unresolvedSelectedIds := []

structure Match where
  code : String
  source : Source
  confidence : Confidence
  matchedRule : Option String
  subtype : Option String
deriving DecidableEq

/-! ## Templates and features -/

structure Template where
  templateHash : String
  templateFingerprint : String
  template : Option String
  pattern : Option String
  category : Option String
  component : Option String
  structured : Structured

/-- An entry of a list of templates that is no mapping is `none`. -/
structure Feature where
  featureType : String
  title : String
  summary : String
  selectionReason : String
  importance : String
  tags : List String
  components : List String
  templateHashes : List String
  sourceTemplates : List (Option Template)
  templateSignatures : List (Option Template)
  topTemplates : List (Option Template)
  structured : Structured

/-- The entity a feature is resolved with: none, the feature itself, or one with its own
templates. -/
inductive Context where
  | none
  | itself
  | entity (topTemplates : List (Option Template))

/-! ## The catalogue -/

/-- What the catalogue reads of one text: `found` searches it, and `stats` has been
searched without the exact message of a cache miss. -/
structure Scan where
  found : String → Bool
  cni : Bool
  stats : Bool
  notFound : Bool
  image : Bool

def cniPattern : String :=
  "\\bcni(?:\\b|_)|network[-\\s]+plugin|networkplugin|" ++
  "network\\s+(?:config(?:uration)?|setup)|" ++
  "network\\s+(?:for|in|on)\\s+(?:the\\s+)?(?:pod\\s+)?sandbox|" ++
  "(?:pod\\s+)?sandbox[-\\s]+(?:network|cni)|" ++
  "network\\s+calico/k8s-pod-network\\b|" ++
  "workloadendpoint|网络配置|网络插件|网络.\x7b0,20\x7d沙箱|沙箱.\x7b0,20\x7d网络"

def statsOperationPattern : String :=
  "failed\\s+to\\s+get\\s+(?:system\\s+)?container\\s+(?:stats|statistics|info)" ++
  "|system\\s+container\\s+stats" ++
  "|container\\s+stats" ++
  "|recentstats"

def containerNotFoundPattern : String :=
  "(?:unknown|no such|does not exist|not found)\\s+container" ++
  "|container\\s+(?:is\\s+)?(?:unknown|not found|does not exist)"

def cacheMissPattern : String :=
  "recentstats\\s+unable\\s+to\\s+find\\s+data\\s+in\\s+memory\\s+cache\\b"

def Scan.of (host : Host) (text : String) : Scan where
  found := fun pattern => host.search pattern text
  cni := host.search cniPattern text
  stats := host.searchIgnoreCase statsOperationPattern (host.erase cacheMissPattern text)
  notFound := host.searchIgnoreCase containerNotFoundPattern text
  image := host.search "image|registry|manifest|pull" text

structure Branch where
  code : String
  rule : String
  subtype : Option String
  taken : Scan → Bool

/-- Every branch that names a problem, in the order of the source: one list is one chain
of `if` and `elif`. -/
def catalogue : List (List Branch) :=
  [[⟨"kubernetes.runtime.container_stop_timeout", "container_stop_timeout_v1", none, fun scan =>
      scan.found "stopcontainer|killcontainer|container.\x7b0,100\x7dtermination\\s+failed" &&
      scan.found "failed|error" &&
      scan.found "context\\s+deadline\\s+exceeded|operation\\s+timeout"⟩],
   [⟨"kubernetes.runtime.memory_limit_invalid", "memory_limit_invalid_v1", none, fun scan =>
      scan.found "createcontainer|container\\s+start\\s+failed" &&
      scan.found "error.\x7b0,80\x7dminimum\\s+memory\\s+limit\\s+allowed\\s+is"⟩],
   [⟨"kubernetes.runtime.resource_update_busy", "resource_update_busy_v1", none, fun scan =>
      scan.found "updatecontainerresources|failed\\s+to\\s+update\\s+container" &&
      scan.found "failed\\s+to\\s+write[^\\n]+device\\s+or\\s+resource\\s+busy"⟩],
   [⟨"kubernetes.runtime.container_removal_in_progress",
     "container_removal_in_progress_v1", none, fun scan =>
      scan.found "removecontainer[^\\n]+failed" &&
      scan.found "removal\\s+of\\s+container[^\\n]+already\\s+in\\s+progress"⟩],
   [⟨"kubernetes.runtime.sandbox_stop_failure", "sandbox_stop_failure_v1", none, fun scan =>
      scan.found "failed\\s+to\\s+stop\\s+sandbox\\b"⟩],
   [⟨"kubernetes.kubelet.manifest_path_missing", "manifest_path_missing_v1", none, fun scan =>
      scan.found
        ("unable\\s+to\\s+read\\s+config\\s+path\\s+[\\\"\x27]?" ++
         "/etc/kubernetes/manifests[\\\"\x27]?\\s+path\\s+does\\s+not\\s+exist")⟩],
   [⟨"kubernetes.pod.prestop_hook_failure", "prestop_hook_failure_v1", none, fun scan =>
      scan.found "prestop\\s+hook\\s+for\\s+container[^\\n]+failed\\s+command"⟩],
   [⟨"linux.cgroup.device_missing", "cgroup_device_missing_v1", none, fun scan =>
      scan.found
        ("readstring\\s+failed\\s+to\\s+read[^\\n]+(?:<k8s_cgroup>|" ++
         "/sys/fs/cgroup/)[^\\n]+no\\s+such\\s+device")⟩],
   [⟨"kubernetes.cni.workload_endpoint_not_found",
     "cni_workload_endpoint_not_found_v2", none, fun scan =>
      scan.found
        ("workload[-_ ]?endpoint(?:\\s+<\\*>)?\\s*(?:was\\s+)?(?:not found|" ++
         "does not exist)|" ++
         "workloadendpoint\\.crd\\.projectcalico\\.org\\s+\"[^\"\\n]+\"\\s+(?:not found|" ++
         "does not exist)|(?:no such|missing)\\s+workload[-_ ]?endpoint")⟩],
   [⟨"kubernetes.cni.delete_not_supported", "cni_delete_not_supported_v1", none, fun scan =>
      scan.cni &&
      scan.found
        ("(?:delete|deletion|del).\x7b0,50\x7d(?:not supported|unsupported|" ++
         "not implemented)|(?:not supported|unsupported|" ++
         "not implemented).\x7b0,50\x7d(?:delete|deletion)")⟩],
   [⟨"kubernetes.cni.ip_exhaustion", "cni_ip_exhaustion_v1", none, fun scan =>
      scan.cni &&
      scan.found
        ("no[ _-]*(?:(?:enough|free)\\s+)?ips?|ip(?:v4)?\\s*(?:address|" ++
         "地址)?\\s*(?:exhaust|deplet|耗尽)|地址\\s*耗尽")⟩],
   [⟨"kubernetes.cni.config_error", "cni_config_error_v1", none, fun scan =>
      scan.cni &&
      scan.found
        ("(?:config(?:uration)?\\s*(?:syntax\\s*)?(?:error|invalid|failed)|" ++
         "invalid\\s+(?:cni|network)|syntax\\s+error|配置.*(?:语法|错误))")⟩],
   [⟨"kubernetes.runtime.container_stats_failure",
     "container_stats_failure_v2", some "container_not_found", fun scan =>
      scan.stats && scan.notFound⟩,
    ⟨"kubernetes.runtime.container_stats_failure", "container_stats_failure_v2", none, fun scan =>
      scan.stats⟩,
    ⟨"kubernetes.runtime.container_not_found", "container_not_found_v1", none, fun scan =>
      scan.notFound⟩],
   [⟨"kubernetes.runtime.cadvisor_cache_miss", "cadvisor_cache_miss_v1", none, fun scan =>
      scan.found
        ("(?:unable\\s+to\\s+find|not found|missing).\x7b0,45\x7d(?:data|stats|" ++
         "statistics).\x7b0,25\x7d(?:memory\\s+)?cache|(?:cadvisor|" ++
         "recentstats).\x7b0,60\x7d(?:cache|missing|not found)|(?:cache miss|" ++
         "missing from memory cache)")⟩],
   [⟨"kubernetes.pod.crash_loop", "crash_loop_v1", none, fun scan =>
      scan.found
        ("crashloopbackoff|crashloop|back[- ]off\\s+restarting\\s+failed\\s+container|" ++
         "restarting\\s+failed\\s+container")⟩],
   [⟨"kubernetes.volume.subpath_cleanup_failure",
     "volume_subpath_cleanup_v1", some "volume_subpath", fun scan =>
      scan.found
        ("error\\s+cleaning\\s+subpath\\s+mounts?\\b|" ++
         "failed\\s+to\\s+clean(?:\\s+up)?\\s+(?:the\\s+)?(?:volume\\s+)?subpath|" ++
         "(?:volume\\s+)?subpath.\x7b0,45\x7d(?:cleanup|clean\\s*up|remove|delete)")⟩,
    ⟨"kubernetes.kubelet.orphaned_pod_residual",
     "orphaned_pod_residual_v1", some "volume_subpath", fun scan =>
      scan.found "volume\\s+subpaths?\\s+still\\s+present"⟩,
    ⟨"kubernetes.kubelet.orphaned_pod_residual",
     "orphaned_pod_residual_v1", some "directory_not_empty", fun scan =>
      scan.found "(?:pod|volume).\x7b0,40\x7ddirectory\\s+not\\s+empty"⟩,
    ⟨"kubernetes.kubelet.orphaned_pod_residual",
     "orphaned_pod_residual_v1", some "volume_path", fun scan =>
      scan.found "orphaned\\s+pod|volume\\s+paths?\\s+still\\s+present"⟩],
   [⟨"kubernetes.volume.unmount_failure", "volume_unmount_v1", none, fun scan =>
      scan.found
        ("(?:failed\\s+to\\s+)?unmount(?:ing)?\\s+(?:the\\s+)?volume|unmountvolume|" ++
         "volume.\x7b0,30\x7dunmount")⟩],
   [⟨"kubernetes.image.gc_failure", "image_gc_failure_v1", none, fun scan =>
      scan.found
        ("image\\s+(?:garbage\\s+collection|gc)|(?:failed|" ++
         "failure)\\s+to\\s+(?:garbage\\s+collect|gc)\\s+images?|" ++
         "garbage\\s+collect(?:ion)?\\s+failed")⟩],
   [⟨"kubernetes.image.pull_unauthorized", "image_pull_unauthorized_v1", none, fun scan =>
      scan.image &&
      scan.found
        ("unauthori[sz]ed|authentication\\s+required|pull\\s+access\\s+denied|" ++
         "not\\s+authorized|access\\s+denied|\\b401\\b")⟩],
   [⟨"kubernetes.image.pull_not_found", "image_pull_not_found_v1", none, fun scan =>
      scan.image &&
      scan.found
        ("manifest\\s+unknown|repository\\s+does\\s+not\\s+exist|" ++
         "unknown\\s+artifact\\s+[^\\n]+\\s+not found|name\\s+unknown|" ++
         "image.\x7b0,40\x7d(?:not found|does not exist)|(?:not found|" ++
         "does not exist).\x7b0,40\x7dimage")⟩],
   [⟨"kubernetes.image.pull_transport_failure", "image_pull_transport_v1", none, fun scan =>
      scan.image &&
      scan.found
        ("connection\\s+reset|connection\\s+refused|timed?\\s*out|timeout|transport|tls|" ++
         "dial\\s+tcp|no\\s+route\\s+to\\s+host|network\\s+is\\s+unreachable|" ++
         "i/o\\s+timeout|unexpected\\s+eof|(?:get|" ++
         "head)\\s+https?\\s*:?\\s*//\\S+\\s+eof\\b")⟩],
   [⟨"kubernetes.kubelet.checkpoint_resource_not_found",
     "checkpoint_resource_not_found_v1", none, fun scan =>
      scan.found
        ("checkpoint.\x7b0,60\x7d(?:resource\\s+)?(?:not found|does not exist|missing)|" ++
         "resource\\s+allocation\\s+not found\\s+in\\s+checkpoint\\s+store|(?:resource|" ++
         "checkpoint).\x7b0,30\x7dno such")⟩],
   [⟨"kubernetes.runtime.exec_process_still_running",
     "exec_process_still_running_v1", none, fun scan =>
      scan.found
        ("(?:exec|session).\x7b0,80\x7d(?:process|command).\x7b0,40\x7dstill\\s+running|" ++
         "process.\x7b0,50\x7dstill\\s+running.\x7b0,50\x7d(?:exec|session)|" ++
         "exec\\s+session.\x7b0,50\x7d(?:ended|finished).\x7b0,50\x7drunning")⟩],
   [⟨"kubernetes.runtime.filesystem_stats_path_missing",
     "filesystem_stats_path_missing_v1", none, fun scan =>
      scan.found
        ("failed\\s+to\\s+collect\\s+filesystem\\s+stats[^\\n]*could not stat[^\\n]*" ++
         "no such file or directory|(?:filesystem|file\\s+system).\x7b0,70\x7d(?:stat|" ++
         "stats).\x7b0,70\x7d(?:path.\x7b0,20\x7d(?:missing|not found|does not exist)|" ++
         "no such file)|(?:failed\\s+to\\s+get|" ++
         "get).\x7b0,30\x7dfilesystem\\s+stats.\x7b0,60\x7d(?:path|no such|not found)")⟩],
   [⟨"linux.memory.oom", "linux_oom_v1", none, fun scan =>
      scan.found "\\boom\\b|out\\s+of\\s+memory|memory\\s+(?:exhaust|deplet)|内存.*(?:耗尽|不足|溢出)"⟩]]

/-- The wrappers, tried where no branch named a concrete problem. -/
def wrappers : List Branch :=
  [⟨"kubernetes.cni.plugin_failure", "cni_plugin_failure_wrapper_v1", none, fun scan =>
      scan.cni &&
      scan.found
        ("(?:plugin|network).\x7b0,40\x7d(?:failed|failure|error)|(?:failed|failure|" ++
         "error).\x7b0,40\x7d(?:plugin|network)")⟩,
   ⟨"kubernetes.runtime.pod_sandbox_failure", "pod_sandbox_failure_wrapper_v1", none, fun scan =>
      scan.found "pod\\s*sandbox|podsandbox|沙箱" &&
      scan.found "failed|failure|error|失败|错误"⟩,
   ⟨"kubernetes.image.pull_failure", "image_pull_failure_wrapper_v1", none, fun scan =>
      scan.image &&
      scan.found "imagepullbackoff|failed\\s+to\\s+pull\\s+image|image\\s+pull"⟩]

def Branch.matched (branch : Branch) : Match where
  code := branch.code
  source := .selectedTemplatePattern
  confidence := .high
  matchedRule := some branch.rule
  subtype := branch.subtype

/-- The match of the first branch of a chain that is taken. -/
def firstTaken (scan : Scan) (chain : List Branch) : Option Match :=
  (chain.find? (·.taken scan)).map Branch.matched

def keepNew (kept : List Match) (item : Match) : List Match :=
  if kept.any fun other => other.code = item.code ∧ other.source = item.source ∧
      other.matchedRule = item.matchedRule
  then kept else kept ++ [item]

/-- The first match of each code, source and rule. -/
def uniqueMatches (found : List Match) : List Match := found.foldl keepNew []

/-- `_combined_template_text`. -/
def combinedTemplateText (row : Template) : String :=
  " ".intercalate ([row.template, row.pattern, row.category, row.component].filterMap id)

def scanMatches (scan : Scan) : List Match :=
  let direct := catalogue.filterMap (firstTaken scan)
  if direct.any fun item => isConcrete item.code then direct
  else direct ++ (firstTaken scan wrappers).toList

def textMatches (host : Host) (text : String) : List Match :=
  uniqueMatches (scanMatches (Scan.of host (host.lower (host.nfkc text))))

/-- `_template_matches`. -/
def templateMatches (host : Host) (row : Template) : List Match :=
  textMatches host (combinedTemplateText row)

/-! ## One template -/

/-- `_codes`, as a set. -/
def codes (found : List Match) : List String :=
  sortedSet ((found.map Match.code).filter fun code =>
    !isUnknown code && !hasPrefix "logrisk.".toList code.toList)

def concrete (found : List Match) : List String := (codes found).filter isConcrete

/-- `_resolution`. -/
def resolution (found : List Match) (semanticSafe ambiguity : Bool)
    (missing unresolved : List String) : ProblemResolution :=
  let values := uniqueMatches found
  if ambiguity || decide (1 < (concrete values).length) then
    { nothing with
      confidence := (values.head?.map Match.confidence).getD .low
      ambiguity := true
      evidenceSource := (values.head?.map Match.source).getD .fallback
      supportingCodes := concrete values
      missingSelectedIds := missing
      unresolvedSelectedIds := unresolved }
  else match values, (concrete values).head?.or (codes values).head? with
    | first :: _, some code =>
        let item := (values.find? (·.code = code)).getD first
        { problemCode := some code
          confidence := item.confidence
          semanticSafe := semanticSafe && !(concrete values).isEmpty && !isGeneric code
          ambiguity := false
          evidenceSource := item.source
          matchedRule := item.matchedRule
          supportingCodes := codes values
          subtype := item.subtype
          missingSelectedIds := missing
          unresolvedSelectedIds := unresolved }
    | _, _ => { nothing with missingSelectedIds := missing, unresolvedSelectedIds := unresolved }

def resolveSelectedTemplate (host : Host) (row : Template) : ProblemResolution :=
  let found := templateMatches host row
  let sure := found.filter (isConcrete ·.code)
  if sure = [] then
    let generic := found.filter (isGeneric ·.code)
    if generic = [] then nothing else resolution generic false false [] []
  else if 1 < (sortedSet (sure.map Match.code)).length then resolution sure false true [] []
  else resolution sure true false [] []

/-! ## Selection -/

def Template.ids (row : Template) : List String :=
  stripped [row.templateHash, row.templateFingerprint]

def Template.hasText (row : Template) : Bool :=
  row.template.getD "" ≠ "" || row.pattern.getD "" ≠ ""

/-- `_selected_ids`, as a set. -/
def selectedIds (feature : Feature) : List String := stripped feature.templateHashes

def sourceIds (sources : List Template) : List String := sources.flatMap Template.ids

def chosen (selected : List String) (row : Template) : Bool :=
  [strip row.templateHash, strip row.templateFingerprint].any selected.contains

/-- `selected_evidence_sources` without the two sets of identifiers. -/
def selectedEvidenceSources (feature : Feature) (context : Context) : List Template :=
  let selected := selectedIds feature
  let pick (rows : List (Option Template)) : List Template :=
    rows.reduceOption.filter (chosen selected)
  if feature.sourceTemplates ≠ [] then
    if selected = [] then feature.sourceTemplates.reduceOption else pick feature.sourceTemplates
  else if feature.templateSignatures ≠ [] then
    if selected = [] then feature.templateSignatures.reduceOption
    else pick feature.templateSignatures
  else match context with
    | .none => []
    | .itself => feature.topTemplates.reduceOption
    | .entity topTemplates => if selected = [] then [] else pick topTemplates

/-- `_selected_template_coverage`. -/
def covered (selected : List String) (sources : List Template) : Bool :=
  !sources.isEmpty && (selected.isEmpty || selected.all (sourceIds sources).contains)

/-- The two results of `_selection_diagnostics`. -/
def missingIds (selected : List String) (sources : List Template) : List String :=
  sortedSet (selected.filter fun id => !(sourceIds sources).contains id)

def unresolvedIds (host : Host) (selected : List String) (sources : List Template) : List String :=
  let wanted := if selected = [] then sourceIds sources else selected
  sortedSet (sources.flatMap fun row =>
    if !row.hasText || !(resolveSelectedTemplate host row).semanticSafe then
      row.ids.filter wanted.contains
    else [])

/-! ## One feature -/

def structuredMatch (code : String) : Match where
  code := code
  source := .structuredSemantic
  confidence := .high
  matchedRule := some "structured_problem_code"
  subtype := none

def structuredMatches (host : Host) (feature : Feature) (sources : List Template) : List Match :=
  let found := feature.structured.codes host ++ sources.flatMap (·.structured.codes host)
  uniqueMatches ((found.filter fun code => isConcrete code || isGeneric code).map structuredMatch)

def selectedMatches (host : Host) (sources : List Template) : List Match :=
  uniqueMatches (sources.flatMap (templateMatches host))

def hinted (source : Source) (item : Match) : Match where
  code := item.code
  source := source
  confidence := .medium
  matchedRule := item.matchedRule
  subtype := none

def featureTypeMatches (host : Host) (feature : Feature) : List Match :=
  match (normalizeCode host feature.featureType).filter fun code =>
      isConcrete code || isGeneric code with
  | some code => [⟨code, .featureTypeHint, .medium, some "feature_type_hint", none⟩]
  | none =>
      if strip feature.featureType = "" then []
      else uniqueMatches ((textMatches host feature.featureType).map (hinted .featureTypeHint))

def given (texts : List String) : List String := texts.filter (strip · ≠ "")

def textHintMatches (host : Host) (feature : Feature) : List Match :=
  let text := " ".intercalate (given [feature.title, feature.summary, feature.selectionReason])
  let tags := " ".intercalate (given feature.tags)
  let all := if tags = "" then text else text ++ " " ++ tags
  if strip all = "" then [] else (textMatches host all).map (hinted .deterministicKeyword)

/-- Every template on its own is a safe and sure problem of the table. -/
def eachResolved (host : Host) (sources : List Template) : Bool :=
  (sources.map (resolveSelectedTemplate host)).all fun result =>
    result.semanticSafe && !result.ambiguity && result.confidence = .high &&
    result.problemCode.any concreteCodes.contains

/-- What is left where no evidence carries a concrete code: hints, which are never safe. -/
def resolveHints (host : Host) (feature : Feature) (structured selected : List Match) :
    ProblemResolution :=
  let typeHints := featureTypeMatches host feature
  let textHints := textHintMatches host feature
  match [typeHints, textHints].find? (·.any (isConcrete ·.code)) with
  | some hints => resolution hints false false [] []
  | none =>
      match [selected, structured, typeHints, textHints].find? (· ≠ []) with
      | some generic => resolution generic false false [] []
      | none => nothing

def resolveEvidence (host : Host) (feature : Feature) (selectedIds : List String)
    (sources : List Template) (structured selected : List Match) : ProblemResolution :=
  let missing := missingIds selectedIds sources
  let unresolved := unresolvedIds host selectedIds sources
  if concrete structured ≠ [] ∧ concrete selected ≠ [] ∧
      concrete structured ≠ concrete selected then
    resolution (structured.filter (isConcrete ·.code) ++ selected.filter (isConcrete ·.code))
      false true missing unresolved
  else if selectedIds ≠ [] then
    if covered selectedIds sources && missing.isEmpty && unresolved.isEmpty &&
        eachResolved host sources then
      resolution selected true false [] []
    else if concrete selected ≠ [] then resolution selected false false missing unresolved
    else if concrete structured ≠ [] then resolution structured false false missing unresolved
    else resolution (if selected ≠ [] then selected else structured) false false missing unresolved
  else if sources.any Template.hasText &&
      (covered selectedIds sources && unresolved.isEmpty && eachResolved host sources) then
    resolution selected true false [] []
  else if sources.any Template.hasText && concrete selected ≠ [] then
    resolution selected false false [] unresolved
  else if sources.any Template.hasText && concrete structured ≠ [] then
    resolution structured false false [] unresolved
  else if concrete structured ≠ [] then resolution structured true false [] []
  else if concrete selected ≠ [] then resolution selected true false [] []
  else resolveHints host feature structured selected

def resolveProblem (host : Host) (feature : Feature) (context : Context) : ProblemResolution :=
  let sources := selectedEvidenceSources feature context
  resolveEvidence host feature (selectedIds feature) sources
    (structuredMatches host feature sources) (selectedMatches host sources)

end LogRisk.Problems
