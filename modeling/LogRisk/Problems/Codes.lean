import LogRisk.Approval.Identity
import LogRisk.Approval.IpLiterals

/-!
# Problem codes

The codes the resolver knows, how a text is normalised to one of them, and the
structured members a code is collected from.
-/

namespace LogRisk.Problems

open Library
open Library.Text
open Approval (removeIpLiterals isWordChar stripped sortedSet)

/-- Regular expressions and Unicode, under the names the source uses them by. -/
structure Host where
  /-- `re.search(pattern, text) is not None`. -/
  search : String → String → Bool
  /-- `re.compile(pattern, re.I).search(text) is not None`. -/
  searchIgnoreCase : String → String → Bool
  /-- `re.sub(pattern, "", text)`. -/
  erase : String → String → String
  /-- `unicodedata.normalize("NFKC", value)`. -/
  nfkc : String → String
  /-- `str.lower`. -/
  lower : String → String

/-! ## The tables -/

def unknownCodes : List String :=
  ["unknown",
   "unknown_cause",
   "unknown_problem",
   "unknown_problem_code",
   "unknown_problem_code",
   "unknown.problem",
   "unclassified",
   "unclassified_cause",
   "unclassified_problem",
   "unclassified_problem_code"]

def genericCodes : List String :=
  ["kubernetes.cni.network_failure",
   "kubernetes.cni.plugin_failure",
   "kubernetes.image.pull_failure",
   "kubernetes.runtime.generic_failure",
   "kubernetes.runtime.pod_sandbox_failure",
   "runtime.failure",
   "runtime.sandbox_failure"]

def aliases : List (String × String) :=
  [("cni_no_ip", "kubernetes.cni.ip_exhaustion"),
   ("cni_no_enough_ip", "kubernetes.cni.ip_exhaustion"),
   ("cni_no_enough_ips", "kubernetes.cni.ip_exhaustion"),
   ("cni_ip_exhaustion", "kubernetes.cni.ip_exhaustion"),
   ("cni_ip_address_exhaustion", "kubernetes.cni.ip_exhaustion"),
   ("cni_address_exhaustion", "kubernetes.cni.ip_exhaustion"),
   ("kubernetes_cni_no_enough_ips", "kubernetes.cni.ip_exhaustion"),
   ("kubernetes_cni_ip_exhaustion", "kubernetes.cni.ip_exhaustion"),
   ("runtime_cni_ip_exhaustion", "kubernetes.cni.ip_exhaustion"),
   ("cni_config_syntax_error", "kubernetes.cni.config_error"),
   ("cni_network_config_error", "kubernetes.cni.config_error"),
   ("cni_network_failure", "kubernetes.cni.plugin_failure"),
   ("runtime_cni_setup_failed", "kubernetes.cni.plugin_failure"),
   ("kubernetes_cni_plugin_failure", "kubernetes.cni.plugin_failure"),
   ("runtime_sandbox_create_failed", "kubernetes.runtime.pod_sandbox_failure"),
   ("k8s_node_memory_pressure", "kubernetes.node.memory_pressure"),
   ("runtime_sandbox_failure", "kubernetes.runtime.pod_sandbox_failure"),
   ("pod_sandbox_failure", "kubernetes.runtime.pod_sandbox_failure"),
   ("container_stats_failure", "kubernetes.runtime.container_stats_failure"),
   ("container_not_found", "kubernetes.runtime.container_not_found"),
   ("crash_loop", "kubernetes.pod.crash_loop"),
   ("crashloopbackoff", "kubernetes.pod.crash_loop"),
   ("orphaned_pod_residual", "kubernetes.kubelet.orphaned_pod_residual"),
   ("volume_subpath_cleanup_failure", "kubernetes.volume.subpath_cleanup_failure"),
   ("volume_unmount_failure", "kubernetes.volume.unmount_failure"),
   ("image_pull_transport_failure", "kubernetes.image.pull_transport_failure"),
   ("image_pull_unauthorized", "kubernetes.image.pull_unauthorized"),
   ("image_pull_not_found", "kubernetes.image.pull_not_found"),
   ("image_gc_failure", "kubernetes.image.gc_failure"),
   ("cni_workload_endpoint_not_found", "kubernetes.cni.workload_endpoint_not_found"),
   ("cni_delete_not_supported", "kubernetes.cni.delete_not_supported"),
   ("checkpoint_resource_not_found", "kubernetes.kubelet.checkpoint_resource_not_found"),
   ("exec_process_still_running", "kubernetes.runtime.exec_process_still_running"),
   ("cadvisor_cache_miss", "kubernetes.runtime.cadvisor_cache_miss"),
   ("filesystem_stats_path_missing", "kubernetes.runtime.filesystem_stats_path_missing"),
   ("linux_oom", "linux.memory.oom")]

def concreteCodes : List String :=
  ["kubernetes.cni.config_error",
   "kubernetes.cni.delete_not_supported",
   "kubernetes.cni.ip_exhaustion",
   "kubernetes.cni.workload_endpoint_not_found",
   "kubernetes.image.gc_failure",
   "kubernetes.image.pull_not_found",
   "kubernetes.image.pull_transport_failure",
   "kubernetes.image.pull_unauthorized",
   "kubernetes.kubelet.checkpoint_resource_not_found",
   "kubernetes.kubelet.orphaned_pod_residual",
   "kubernetes.node.memory_pressure",
   "kubernetes.pod.crash_loop",
   "kubernetes.runtime.cadvisor_cache_miss",
   "kubernetes.runtime.container_not_found",
   "kubernetes.runtime.container_stats_failure",
   "kubernetes.runtime.exec_process_still_running",
   "kubernetes.runtime.filesystem_stats_path_missing",
   "kubernetes.runtime.container_stop_timeout",
   "kubernetes.runtime.memory_limit_invalid",
   "kubernetes.runtime.resource_update_busy",
   "kubernetes.runtime.container_removal_in_progress",
   "kubernetes.runtime.sandbox_stop_failure",
   "kubernetes.kubelet.manifest_path_missing",
   "kubernetes.pod.prestop_hook_failure",
   "linux.cgroup.device_missing",
   "kubernetes.volume.subpath_cleanup_failure",
   "kubernetes.volume.unmount_failure",
   "linux.memory.oom"]

/-! ## Normalisation -/

/-- `re.findall(r"[a-z0-9]+", text)`, joined by `_`. -/
def joinedTokens (text : List Char) : List Char :=
  ['_'].intercalate ((text.splitOnP (!isWordChar ·)).filter (· ≠ []))

/-- `_alias_key`: a run of other characters becomes one `_`, and none is left at the ends. -/
def aliasKey (host : Host) (value : String) : String :=
  String.ofList (joinedTokens (host.lower (strip value)).toList)

/-- The segments between `.`, `/` and `:`, each with its tokens joined, joined by `.`. -/
def dottedChars (text : List Char) : List Char :=
  let segments := text.splitOnP fun c => c = '.' || c = '/' || c = ':'
  ['.'].intercalate ((segments.map joinedTokens).filter (· ≠ []))

def dottedCode (text : String) : String := String.ofList (dottedChars text.toList)

/-- `_normalize_code` with its table of aliases. -/
def normalizeWith (aliases : List (String × String)) (host : Host) (value : String) :
    Option String :=
  if strip value = "" then none
  else
    let text := removeIpLiterals (host.lower (strip (host.nfkc value)))
    match aliases.lookup (aliasKey host text) with
    | some code => some code
    | none => if dottedCode text = "" then none else some (dottedCode text)

/-- `_normalize_code`. -/
def normalizeCode (host : Host) (value : String) : Option String :=
  normalizeWith aliases host value

/-! ## Kinds of codes -/

def hasPrefix (mark text : List Char) : Bool := mark.isPrefixOf text

def isUnknown (code : String) : Bool :=
  unknownCodes.contains code ||
  (hasPrefix "unknown.".toList code.toList || hasPrefix "unclassified.".toList code.toList) ||
  (code.toList.splitOn '.').any fun segment =>
    (segment = "unknown".toList || segment = "unclassified".toList) ||
    (hasPrefix "unknown_".toList segment || hasPrefix "unclassified_".toList segment)

def isGeneric (code : String) : Bool := genericCodes.contains code

def isConcrete (code : String) : Bool :=
  code ≠ "" && code.toList.contains '.' && concreteCodes.contains code && !isUnknown code &&
  !hasPrefix "logrisk.".toList code.toList && !isGeneric code

theorem mem_concreteCodes {code : String} (h : isConcrete code = true) : code ∈ concreteCodes := by
  unfold isConcrete at h
  simp only [Bool.and_eq_true, List.contains_iff_mem] at h
  exact h.1.1.1.2

theorem known_of_isConcrete {code : String} (h : isConcrete code = true) :
    isUnknown code = false ∧ hasPrefix "logrisk.".toList code.toList = false := by
  unfold isConcrete at h
  simp only [Bool.and_eq_true, Bool.not_eq_true'] at h
  exact ⟨h.1.1.2, h.1.2⟩

theorem not_generic_of_isConcrete {code : String} (h : isConcrete code = true) :
    isGeneric code = false := by
  unfold isConcrete at h
  simp only [Bool.and_eq_true, Bool.not_eq_true'] at h
  exact h.2

/-! ## Structured members -/

/-- The members `_structured_codes` looks into, in its order. -/
def codeKeys : List String :=
  ["problem_code",
   "problemCode",
   "problem_codes",
   "risk_type",
   "cause",
   "root_cause",
   "root_cause_code",
   "risk_semantic",
   "semantic_fields"]

def textCodes (host : Host) (value : String) : List String :=
  match normalizeCode host value with
  | none => []
  | some code =>
      if code.toList.contains '.' || (aliases.map Prod.snd).contains code then [code] else []

mutual

/-- `_structured_codes`. -/
def structuredCodes (host : Host) : Json → List String
  | .str value => textCodes host value
  | .arr items => structuredItems host items
  | .obj fields =>
      codeKeys.flatMap fun key => ((structuredFields host fields).lookup key).getD []
  | .null => []
  | .bool _ => []
  | .num _ => []

def structuredItems (host : Host) : List Json → List String
  | [] => []
  | item :: items => structuredCodes host item ++ structuredItems host items

def structuredFields (host : Host) : List (String × Json) → List (String × List String)
  | [] => []
  | (key, value) :: fields => (key, structuredCodes host value) :: structuredFields host fields

end

/-- The members of a feature or of a template that may hold a code, `null` where one
is missing. -/
structure Structured where
  problemCode : Json
  camelProblemCode : Json
  riskType : Json
  cause : Json
  riskSemantic : Json
  semanticFields : Json

def Structured.none : Structured := ⟨.null, .null, .null, .null, .null, .null⟩

def Structured.values (members : Structured) : List Json :=
  [members.problemCode, members.camelProblemCode, members.riskType, members.cause,
   members.riskSemantic, members.semanticFields]

def Structured.codes (host : Host) (members : Structured) : List String :=
  members.values.flatMap (structuredCodes host)

theorem Structured.codes_none (host : Host) : Structured.none.codes host = [] := by
  simp [Structured.codes, Structured.values, Structured.none, structuredCodes]

end LogRisk.Problems
