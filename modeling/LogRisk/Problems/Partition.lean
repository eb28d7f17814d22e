import LogRisk.Library.Partition
import LogRisk.Problems.Safety

/-!
# Parting a feature by the problems of its templates

The templates a feature selects are grouped by the code each resolves to, and every
group becomes a feature of its own.
-/

namespace LogRisk.Problems

open Library
open Library.Text
open Approval (stripped sortedSet mem_sortedSet firstGiven)

/-! ## Presentation -/

structure ProblemPresentation where
  featureType : String
  title : String
  tags : List String

def problemPresentations : List (String × ProblemPresentation) :=
  [("kubernetes.runtime.container_stop_timeout",
    ⟨"container_stop_timeout", "容器停止超时日志", ["容器运行时", "停止超时"]⟩),
   ("kubernetes.runtime.memory_limit_invalid",
    ⟨"container_memory_limit_invalid", "容器内存限制配置无效日志", ["容器运行时", "内存限制配置"]⟩),
   ("kubernetes.runtime.resource_update_busy",
    ⟨"container_resource_update_busy", "容器资源更新写入忙日志", ["容器运行时", "资源更新"]⟩),
   ("kubernetes.runtime.container_removal_in_progress",
    ⟨"container_removal_in_progress", "容器移除操作正在进行日志", ["容器运行时", "移除冲突"]⟩),
   ("kubernetes.runtime.sandbox_stop_failure",
    ⟨"sandbox_stop_failure", "Pod 沙箱停止失败日志", ["容器运行时", "沙箱停止"]⟩),
   ("kubernetes.kubelet.manifest_path_missing",
    ⟨"kubelet_manifest_path_missing", "Kubelet 静态清单目录缺失日志", ["Kubelet", "清单目录缺失"]⟩),
   ("kubernetes.pod.prestop_hook_failure",
    ⟨"container_prestop_hook_failure", "容器 preStop 钩子执行失败日志", ["Kubernetes", "preStop"]⟩),
   ("linux.cgroup.device_missing",
    ⟨"cgroup_device_missing", "Cgroup 读取设备不存在日志", ["Linux", "Cgroup"]⟩),
   ("kubernetes.cni.config_error",
    ⟨"cni_config_error", "CNI 网络配置错误日志", ["CNI", "配置错误"]⟩),
   ("kubernetes.cni.delete_not_supported",
    ⟨"cni_delete_not_supported", "CNI 删除操作不支持日志", ["CNI", "删除不支持"]⟩),
   ("kubernetes.cni.ip_exhaustion",
    ⟨"cni_ip_exhaustion", "CNI IP 地址耗尽日志", ["CNI", "IP 耗尽"]⟩),
   ("kubernetes.cni.workload_endpoint_not_found",
    ⟨"cni_workload_endpoint_not_found", "CNI 工作负载端点不存在日志", ["CNI", "端点不存在"]⟩),
   ("kubernetes.image.gc_failure",
    ⟨"image_gc_failure", "容器镜像垃圾回收失败日志", ["容器镜像", "垃圾回收失败"]⟩),
   ("kubernetes.image.pull_not_found",
    ⟨"image_pull_not_found", "容器镜像不存在日志", ["容器镜像", "镜像不存在"]⟩),
   ("kubernetes.image.pull_transport_failure",
    ⟨"image_pull_transport_failure", "容器镜像传输失败日志", ["容器镜像", "传输失败"]⟩),
   ("kubernetes.image.pull_unauthorized",
    ⟨"image_pull_unauthorized", "容器镜像拉取未授权日志", ["容器镜像", "未授权"]⟩),
   ("kubernetes.kubelet.checkpoint_resource_not_found",
    ⟨"kubelet_checkpoint_resource_not_found", "Kubelet 检查点资源不存在日志", ["Kubelet", "检查点资源不存在"]⟩),
   ("kubernetes.kubelet.orphaned_pod_residual",
    ⟨"kubelet_orphaned_pod_residual", "Kubelet 孤立 Pod 残留日志", ["Kubelet", "孤立 Pod"]⟩),
   ("kubernetes.node.memory_pressure",
    ⟨"node_memory_pressure", "Kubernetes 节点内存压力日志", ["Kubernetes", "内存压力"]⟩),
   ("kubernetes.pod.crash_loop",
    ⟨"kubelet_pod_crash_loop", "容器反复启动失败日志", ["Kubernetes", "CrashLoop"]⟩),
   ("kubernetes.runtime.cadvisor_cache_miss",
    ⟨"runtime_cadvisor_cache_miss", "容器运行时监控缓存未命中日志", ["容器运行时", "监控缓存"]⟩),
   ("kubernetes.runtime.container_not_found",
    ⟨"kubelet_container_not_found", "容器运行时目标容器不存在日志", ["容器运行时", "容器不存在"]⟩),
   ("kubernetes.runtime.container_stats_failure",
    ⟨"kubelet_container_stats_failure", "容器统计信息获取失败日志", ["容器运行时", "统计获取失败"]⟩),
   ("kubernetes.runtime.exec_process_still_running",
    ⟨"runtime_exec_process_still_running", "容器执行进程仍在运行日志", ["容器运行时", "执行进程"]⟩),
   ("kubernetes.runtime.filesystem_stats_path_missing",
    ⟨"runtime_filesystem_stats_path_missing", "容器文件系统统计路径缺失日志", ["容器运行时", "文件系统统计"]⟩),
   ("kubernetes.volume.subpath_cleanup_failure",
    ⟨"volume_subpath_cleanup_failure", "卷子路径清理失败日志", ["Kubernetes", "卷清理失败"]⟩),
   ("kubernetes.volume.unmount_failure",
    ⟨"volume_unmount_failure", "卷卸载失败日志", ["Kubernetes", "卷卸载失败"]⟩),
   ("linux.memory.oom",
    ⟨"linux_memory_oom", "Linux 内存耗尽日志", ["Linux", "OOM"]⟩)]

def problemPresentation (problemCode : String) : Option ProblemPresentation :=
  problemPresentations.lookup problemCode

def unresolvedPresentation : ProblemPresentation :=
  ⟨"unresolved_template_evidence", "未完全解析的日志证据（待复核）", ["日志证据", "待复核"]⟩

/-! ## Grouping -/

/-- `by_hash`: the last template of a hash. -/
def byHash (topTemplates : List (Option Template)) (hash : String) : Option Template :=
  topTemplates.reduceOption.reverse.find? (·.templateHash = hash)

/-- The selected hashes that have a template, with it. -/
def hashedTemplates (topTemplates : List (Option Template)) (feature : Feature) :
    List (String × Template) :=
  feature.templateHashes.filterMap fun hash => (byHash topTemplates hash).map (hash, ·)

def unresolvedCode : String := "unresolved"

/-- The code a template is grouped under. -/
def groupCode (host : Host) (row : Template) : String :=
  let result := resolveSelectedTemplate host row
  match result.problemCode with
  | none => unresolvedCode
  | some code =>
      if code = "" || result.confidence ≠ .high || !result.semanticSafe || result.ambiguity ||
          !concreteCodes.contains code || (problemPresentation code).isNone then unresolvedCode
      else code

/-- The feature is kept in one piece. -/
def keepsWhole (enabled : Bool) (topTemplates : List (Option Template)) (feature : Feature) : Bool :=
  let sources := hashedTemplates topTemplates feature
  !enabled || sources.length ≠ feature.templateHashes.length || feature.templateHashes.isEmpty ||
  !decide feature.templateHashes.Nodup ||
  feature.components.any fun component =>
    !(sources.map fun source => source.2.component.getD "").contains component

/-- The groups, under their codes. -/
def semanticGroups (host : Host) (topTemplates : List (Option Template)) (feature : Feature) :
    Dict String (List (String × Template)) :=
  Dict.groupBy (fun source => groupCode host source.2) (hashedTemplates topTemplates feature)

/-! ## Children -/

def childComponents (selected : List (String × Template)) : List String :=
  sortedSet (stripped (selected.map fun source => source.2.component.getD ""))

def childSummary (code title : String) (selected : List (String × Template)) : String :=
  let components := firstGiven ("、".intercalate (childComponents selected)) "相关组件"
  if code = unresolvedCode then
    components ++ " 的 " ++ toString selected.length ++
      " 个所选模板尚不能确定单一异常类别，需人工复核。"
  else
    "检测到 " ++ components ++ " 中与“" ++ title ++ "”一致的异常证据，" ++
      "当前候选引用 " ++ toString selected.length ++ " 个脱敏模板。"

def selectionReason (code : String) : String :=
  if code = unresolvedCode then "所选模板的异常类别尚未完全解析，保留完整证据供人工复核。"
  else "该候选由语义解析器根据模型选中的脱敏证据模板按单一异常语义拆分生成。"

def child (feature : Feature) (code : String) (selected : List (String × Template)) : Feature :=
  let presentation := (problemPresentation code).getD unresolvedPresentation
  { featureType := presentation.featureType
    title := presentation.title
    summary := childSummary code presentation.title selected
    selectionReason := selectionReason code
    importance := feature.importance
    tags := presentation.tags
    components := childComponents selected
    templateHashes := selected.map Prod.fst
    sourceTemplates := []
    templateSignatures := []
    topTemplates := []
    structured := Structured.none }

def partitionFeatureBySemantics (host : Host) (enabled : Bool)
    (topTemplates : List (Option Template)) (feature : Feature) : List Feature :=
  if keepsWhole enabled topTemplates feature then [feature]
  else (semanticGroups host topTemplates feature).entries.map fun group =>
    child feature group.1 group.2

/-! ## One child -/

variable {host : Host} {topTemplates : List (Option Template)} {feature : Feature} {code : String}
variable {selected : List (String × Template)}

/-- Nothing about a template speaks against the code. -/
def Clear (host : Host) (row : Template) (code : String) : Prop :=
  row.hasText = true ∧ ResolvesTo host row code ∧
  ∀ other ∈ row.structured.codes host, isConcrete other = true → other = code

theorem mem_stripped {items : List String} {id : String} :
    id ∈ stripped items ↔ (∃ item ∈ items, strip item = id) ∧ id ≠ "" := by
  unfold stripped
  rw [List.mem_filter, List.mem_map, decide_eq_true_eq]

theorem chosen_iff {items : List String} {row : Template} :
    chosen (stripped items) row = true ↔ ∃ id ∈ row.ids, id ∈ stripped items := by
  unfold chosen Template.ids
  rw [List.any_eq_true]
  simp only [List.contains_iff_mem]
  constructor
  · rintro ⟨id, hid, hmem⟩
    refine ⟨id, mem_stripped.mpr ⟨?_, (mem_stripped.mp hmem).2⟩, hmem⟩
    simpa [eq_comm] using hid
  · rintro ⟨id, hid, hmem⟩
    obtain ⟨hid, -⟩ := mem_stripped.mp hid
    exact ⟨id, by simpa [eq_comm] using hid, hmem⟩

theorem mem_of_byHash {hash : String} {row : Template} (h : byHash topTemplates hash = some row) :
    row ∈ topTemplates.reduceOption ∧ row.templateHash = hash := by
  unfold byHash at h
  have hsame := List.find?_some h
  exact ⟨List.mem_reverse.mp (List.mem_of_find?_eq_some h), of_decide_eq_true hsame⟩

theorem mem_hashedTemplates {source : String × Template} :
    source ∈ hashedTemplates topTemplates feature ↔
      source.1 ∈ feature.templateHashes ∧ byHash topTemplates source.1 = some source.2 := by
  unfold hashedTemplates
  rw [List.mem_filterMap]
  constructor
  · rintro ⟨hash, hhash, hsource⟩
    obtain ⟨row, hrow, rfl⟩ := Option.map_eq_some_iff.mp hsource
    exact ⟨hhash, hrow⟩
  · rintro ⟨hhash, hrow⟩
    exact ⟨source.1, hhash, by rw [hrow]; rfl⟩

/-- The templates the child of a group is resolved from. -/
def childSources (topTemplates : List (Option Template)) (selected : List (String × Template)) :
    List Template :=
  topTemplates.reduceOption.filter (chosen (stripped (selected.map Prod.fst)))

theorem mem_childSources {row : Template} : row ∈ childSources topTemplates selected ↔
    row ∈ topTemplates.reduceOption ∧
      ∃ source ∈ selected, strip source.1 ≠ "" ∧ strip source.1 ∈ row.ids := by
  unfold childSources
  rw [List.mem_filter, chosen_iff]
  refine and_congr_right fun _ => ?_
  simp only [mem_stripped, List.mem_map]
  constructor
  · rintro ⟨id, hid, ⟨item, ⟨source, hsource, rfl⟩, rfl⟩, hblank⟩
    exact ⟨source, hsource, hblank, hid⟩
  · rintro ⟨source, hsource, hblank, hid⟩
    exact ⟨strip source.1, hid, ⟨source.1, ⟨source, hsource, rfl⟩, rfl⟩, hblank⟩

theorem resolveProblem_child :
    resolveProblem host (child feature code selected) (.entity topTemplates) =
      resolveEvidence host (child feature code selected) (stripped (selected.map Prod.fst))
        (if stripped (selected.map Prod.fst) = [] then [] else childSources topTemplates selected)
        (structuredMatches host (child feature code selected)
          (if stripped (selected.map Prod.fst) = [] then []
          else childSources topTemplates selected))
        (selectedMatches host
          (if stripped (selected.map Prod.fst) = [] then []
          else childSources topTemplates selected)) := rfl

theorem mem_child_structured {sources : List Template} {other : String} :
    other ∈ concrete (structuredMatches host (child feature code selected) sources) ↔
      (∃ row ∈ sources, other ∈ row.structured.codes host) ∧ isConcrete other = true := by
  have hnone : (child feature code selected).structured.codes host = [] := Structured.codes_none host
  rw [mem_concrete_structuredMatches, hnone]
  refine and_congr_left fun _ => ?_
  exact ⟨fun h => h.resolve_left List.not_mem_nil, .inr⟩

/-- A child without an identifier is resolved from nothing. -/
theorem unsafe_child (hids : stripped (selected.map Prod.fst) = []) :
    (resolveProblem host (child feature code selected) (.entity topTemplates)).semanticSafe = false := by
  rw [resolveProblem_child, hids, if_pos rfl, Bool.eq_false_iff]
  intro hsafe
  obtain ⟨-, ⟨hcomplete, -⟩ | ⟨-, -, ⟨hsome, -⟩ | ⟨-, hresult⟩⟩⟩ := resolveEvidence_of_safe hsafe
  · exact hcomplete.exists_row rfl
  · obtain ⟨other, hother⟩ := List.exists_mem_of_ne_nil _ hsome
    obtain ⟨⟨row, hrow, -⟩, -⟩ := mem_child_structured.mp hother
    exact List.not_mem_nil hrow
  · rw [hresult] at hsafe
    obtain ⟨-, -, found, hfound⟩ := resolution_safe.mp hsafe
    have hmem : found ∈ concrete (selectedMatches host []) := by
      rw [hfound]
      exact List.mem_singleton_self _
    obtain ⟨row, hrow, -⟩ := mem_concrete_selectedMatches.mp hmem
    exact List.not_mem_nil hrow

theorem stripped_eq_nil : stripped (selected.map Prod.fst) = [] ↔
    ¬ ∃ source ∈ selected, strip source.1 ≠ "" := by
  rw [List.eq_nil_iff_forall_not_mem]
  simp only [mem_stripped, List.mem_map, not_exists, not_and]
  constructor
  · intro h source hsource hblank
    exact h _ ⟨_, ⟨source, hsource, rfl⟩, rfl⟩ hblank
  · rintro h id ⟨item, ⟨source, hsource, rfl⟩, rfl⟩
    exact h source hsource

theorem complete_childSources
    (hselected : ∀ source ∈ selected, source ∈ hashedTemplates topTemplates feature)
    (hsome : ∃ source ∈ selected, strip source.1 ≠ "")
    (hclear : ∀ row ∈ childSources topTemplates selected, Clear host row code) :
    Complete host (stripped (selected.map Prod.fst)) (childSources topTemplates selected) := by
  have hrow : ∀ source ∈ selected, strip source.1 ≠ "" →
      ∃ row ∈ childSources topTemplates selected, strip source.1 ∈ row.ids := by
    intro source hsource hblank
    obtain ⟨hmem, hhash⟩ := mem_of_byHash (mem_hashedTemplates.mp (hselected source hsource)).2
    have hid : strip source.1 ∈ source.2.ids := by
      refine mem_stripped.mpr ⟨⟨source.2.templateHash, List.mem_cons_self, ?_⟩, hblank⟩
      rw [hhash]
    exact ⟨source.2, mem_childSources.mpr ⟨hmem, source, hsource, hblank, hid⟩, hid⟩
  refine ⟨?_, ?_, fun row hmem _ => (hclear row hmem).1, fun row hmem => (hclear row hmem).2.1.1⟩
  · obtain ⟨source, hsource, hblank⟩ := hsome
    obtain ⟨row, hmem, -⟩ := hrow source hsource hblank
    exact List.ne_nil_of_mem hmem
  · intro id hid
    obtain ⟨⟨item, hitem, rfl⟩, hblank⟩ := mem_stripped.mp hid
    obtain ⟨source, hsource, rfl⟩ := List.mem_map.mp hitem
    exact hrow source hsource hblank

/-- The child of a group resolves to the code exactly where one of its hashes is not blank
and every template with such a hash is clear. -/
theorem child_resolves
    (hselected : ∀ source ∈ selected, source ∈ hashedTemplates topTemplates feature) :
    ((resolveProblem host (child feature code selected) (.entity topTemplates)).semanticSafe = true ∧
      (resolveProblem host (child feature code selected) (.entity topTemplates)).problemCode =
        some code) ↔
    (∃ source ∈ selected, strip source.1 ≠ "") ∧
      ∀ row ∈ childSources topTemplates selected, Clear host row code := by
  by_cases hids : stripped (selected.map Prod.fst) = []
  · rw [unsafe_child hids]
    constructor
    · rintro ⟨hsafe, -⟩
      cases hsafe
    · rintro ⟨hsome, -⟩
      exact absurd hsome (stripped_eq_nil.mp hids)
  have hsome : ∃ source ∈ selected, strip source.1 ≠ "" :=
    not_not.mp fun h => hids (stripped_eq_nil.mpr h)
  rw [resolveProblem_child, if_neg hids, resolveEvidence_selected hids]
  constructor
  · rintro ⟨hcomplete, hpatterns, hstructured⟩
    refine ⟨hsome, fun row hrow => ⟨?_, hcomplete.resolvesTo hpatterns row hrow, ?_⟩⟩
    · obtain ⟨-, source, hsource, hblank, hid⟩ := mem_childSources.mp hrow
      refine hcomplete.text row hrow ⟨_, hid, ?_⟩
      unfold wantedIds
      rw [if_neg hids]
      exact mem_stripped.mpr ⟨⟨source.1, List.mem_map_of_mem hsource, rfl⟩, hblank⟩
    · intro other hother hconcrete
      exact hstructured other (mem_child_structured.mpr ⟨⟨row, hrow, hother⟩, hconcrete⟩)
  · rintro ⟨-, hclear⟩
    have hcomplete := complete_childSources hselected hsome hclear
    refine ⟨hcomplete, concrete_eq_singleton.mpr ⟨?_, ?_⟩, ?_⟩
    · obtain ⟨row, hrow⟩ := List.exists_mem_of_ne_nil _ hcomplete.exists_row
      refine mem_concrete_selectedMatches.mpr ⟨row, hrow, ?_⟩
      rw [resolvesTo_iff.mp (hclear row hrow).2.1]
      exact List.mem_singleton_self _
    · intro other hother
      obtain ⟨row, hrow, hmem⟩ := mem_concrete_selectedMatches.mp hother
      rw [resolvesTo_iff.mp (hclear row hrow).2.1] at hmem
      exact List.mem_singleton.mp hmem
    · intro other hother
      obtain ⟨⟨row, hrow, hmem⟩, hconcrete⟩ := mem_child_structured.mp hother
      exact (hclear row hrow).2.2 other hmem hconcrete

/-! ## The children together -/

variable {enabled : Bool}

theorem map_fst_hashedTemplates
    (h : (hashedTemplates topTemplates feature).length = feature.templateHashes.length) :
    (hashedTemplates topTemplates feature).map Prod.fst = feature.templateHashes := by
  have hsublist : ((hashedTemplates topTemplates feature).map Prod.fst).Sublist
      feature.templateHashes := by
    unfold hashedTemplates
    generalize feature.templateHashes = hashes
    induction hashes with
    | nil => exact List.Sublist.refl _
    | cons hash hashes ih =>
        rw [List.filterMap_cons]
        cases byHash topTemplates hash with
        | none => exact ih.cons hash
        | some row => exact ih.cons_cons hash
  exact hsublist.eq_of_length (by rw [List.length_map, h])

theorem keepsWhole_eq_false (h : keepsWhole enabled topTemplates feature = false) :
    (hashedTemplates topTemplates feature).map Prod.fst = feature.templateHashes ∧
      feature.templateHashes.Nodup := by
  unfold keepsWhole at h
  dsimp only at h
  simp only [Bool.or_eq_false_iff, decide_eq_false_iff_not, not_not, Bool.not_eq_false',
    decide_eq_true_eq] at h
  exact ⟨map_fst_hashedTemplates h.1.1.1.2, h.1.2⟩

theorem entries_hashes {groups : Dict String (List (String × Template))} :
    (groups.entries.map fun group => child feature group.1 group.2).map (·.templateHashes) =
      groups.values.map (List.map Prod.fst) := by
  unfold Dict.values
  rw [List.map_map, List.map_map]
  rfl

theorem group_subset {group : String × List (String × Template)}
    (h : group ∈ (semanticGroups host topTemplates feature).entries) :
    group.2 = (hashedTemplates topTemplates feature).filter fun source =>
      decide (groupCode host source.2 = group.1) :=
  Dict.get?_groupBy (Dict.get?_eq_some.mpr h)

theorem hashes_disjoint : ((semanticGroups host topTemplates feature).values.map
    (List.map Prod.fst)).Pairwise List.Disjoint := by
  rw [List.pairwise_map]
  refine (partition_groupBy _ _).disjoint.imp_of_mem fun {c c'} hc hc' hdisjoint hash hin hin' => ?_
  obtain ⟨source, hsource, rfl⟩ := List.mem_map.mp hin
  obtain ⟨source', hsource', hsame⟩ := List.mem_map.mp hin'
  have hsublist := (partition_groupBy (fun source : String × Template => groupCode host source.2)
    (hashedTemplates topTemplates feature)).sublist
  have hrow := (mem_hashedTemplates.mp ((hsublist c hc).mem hsource)).2
  have hrow' := (mem_hashedTemplates.mp ((hsublist c' hc').mem hsource')).2
  rw [hsame, hrow, Option.some.injEq] at hrow'
  have heq : source' = source := Prod.ext hsame hrow'.symm
  exact hdisjoint hsource (heq ▸ hsource')

/-- The children share out the hashes of the feature in its order, and each child of a known
problem resolves to the code of its group. -/
structure Parted (host : Host) (enabled : Bool) (topTemplates : List (Option Template))
    (feature : Feature) : Prop where
  hashes : ((partitionFeatureBySemantics host enabled topTemplates feature).flatMap
    (·.templateHashes)).Perm feature.templateHashes
  disjoint : ((partitionFeatureBySemantics host enabled topTemplates feature).map
    (·.templateHashes)).Pairwise List.Disjoint
  order : ∀ part ∈ partitionFeatureBySemantics host enabled topTemplates feature,
    part.templateHashes.Sublist feature.templateHashes
  resolves : keepsWhole enabled topTemplates feature = false →
    ∀ group ∈ (semanticGroups host topTemplates feature).entries, group.1 ≠ unresolvedCode →
      (resolveProblem host (child feature group.1 group.2) (.entity topTemplates)).semanticSafe =
        true ∧
      (resolveProblem host (child feature group.1 group.2) (.entity topTemplates)).problemCode =
        some group.1

theorem partition_hashes (host : Host) (enabled : Bool) (topTemplates : List (Option Template))
    (feature : Feature) :
    ((partitionFeatureBySemantics host enabled topTemplates feature).flatMap
      (·.templateHashes)).Perm feature.templateHashes ∧
    ((partitionFeatureBySemantics host enabled topTemplates feature).map
      (·.templateHashes)).Pairwise List.Disjoint ∧
    ∀ part ∈ partitionFeatureBySemantics host enabled topTemplates feature,
      part.templateHashes.Sublist feature.templateHashes := by
  unfold partitionFeatureBySemantics
  split
  · refine ⟨by simp, List.pairwise_singleton _ _, fun part hpart => ?_⟩
    rw [List.mem_singleton.mp hpart]
  rename_i hwhole
  obtain ⟨hall, -⟩ := keepsWhole_eq_false (Bool.eq_false_iff.mpr hwhole)
  refine ⟨?_, ?_, ?_⟩
  · rw [List.flatMap_def, entries_hashes, ← List.map_flatten]
    have hperm := (flatten_groupBy_perm (fun source : String × Template => groupCode host source.2)
      (hashedTemplates topTemplates feature)).map Prod.fst
    rw [hall] at hperm
    exact hperm
  · rw [entries_hashes]
    exact hashes_disjoint
  · intro part hpart
    obtain ⟨group, hgroup, rfl⟩ := List.mem_map.mp hpart
    have hsublist : (group.2.map Prod.fst).Sublist
        ((hashedTemplates topTemplates feature).map Prod.fst) := by
      rw [group_subset hgroup]
      exact List.filter_sublist.map _
    rw [hall] at hsublist
    exact hsublist

/-- Every template with the hash of a known problem is clear, and one hash of each known
problem is not blank. -/
def Separable (host : Host) (enabled : Bool) (topTemplates : List (Option Template))
    (feature : Feature) : Prop :=
  keepsWhole enabled topTemplates feature = false →
    ∀ source ∈ hashedTemplates topTemplates feature,
      groupCode host source.2 ≠ unresolvedCode →
        (∃ other ∈ hashedTemplates topTemplates feature,
          groupCode host other.2 = groupCode host source.2 ∧ strip other.1 ≠ "") ∧
        (strip source.1 ≠ "" → ∀ row ∈ topTemplates.reduceOption, strip source.1 ∈ row.ids →
          Clear host row (groupCode host source.2))

theorem mem_group {group : String × List (String × Template)}
    (h : group ∈ (semanticGroups host topTemplates feature).entries) {source : String × Template} :
    source ∈ group.2 ↔ source ∈ hashedTemplates topTemplates feature ∧
      groupCode host source.2 = group.1 := by
  rw [group_subset h, List.mem_filter, decide_eq_true_eq]

theorem exists_group (host : Host) {source : String × Template}
    (h : source ∈ hashedTemplates topTemplates feature) :
    ∃ selected, (groupCode host source.2, selected) ∈
      (semanticGroups host topTemplates feature).entries := by
  have hkey : groupCode host source.2 ∈ (semanticGroups host topTemplates feature).keys :=
    Dict.mem_keys_groupBy.mpr ⟨source, h, rfl⟩
  obtain ⟨selected, hget⟩ := Dict.mem_keys.mp hkey
  exact ⟨selected, Dict.get?_eq_some.mp hget⟩

/-- Where the children of known problems resolve, the templates of each are clear. -/
theorem Parted.clear (hparted : Parted host enabled topTemplates feature)
    (hwhole : keepsWhole enabled topTemplates feature = false) {source : String × Template}
    (hsource : source ∈ hashedTemplates topTemplates feature)
    (hknown : groupCode host source.2 ≠ unresolvedCode) :
    (∃ other ∈ hashedTemplates topTemplates feature,
      groupCode host other.2 = groupCode host source.2 ∧ strip other.1 ≠ "") ∧
    (strip source.1 ≠ "" → ∀ row ∈ topTemplates.reduceOption, strip source.1 ∈ row.ids →
      Clear host row (groupCode host source.2)) := by
  obtain ⟨selected, hselected⟩ := exists_group host hsource
  have hresolves := hparted.resolves hwhole _ hselected hknown
  rw [child_resolves fun other hother => ((mem_group hselected).mp hother).1] at hresolves
  obtain ⟨⟨other, hother, hblank⟩, hclear⟩ := hresolves
  obtain ⟨hfound, hsame⟩ := (mem_group hselected).mp hother
  refine ⟨⟨other, hfound, hsame, hblank⟩, fun hnonblank row hrow hid => ?_⟩
  exact hclear row (mem_childSources.mpr
    ⟨hrow, source, (mem_group hselected).mpr ⟨hsource, rfl⟩, hnonblank, hid⟩)

theorem parted_iff (host : Host) (enabled : Bool) (topTemplates : List (Option Template))
    (feature : Feature) :
    Parted host enabled topTemplates feature ↔ Separable host enabled topTemplates feature := by
  constructor
  · exact fun hparted hwhole source hsource hknown => hparted.clear hwhole hsource hknown
  · intro hseparable
    obtain ⟨hhashes, hdisjoint, horder⟩ := partition_hashes host enabled topTemplates feature
    refine ⟨hhashes, hdisjoint, horder, fun hwhole group hmem hknown => ?_⟩
    rw [child_resolves fun source hsource => ((mem_group hmem).mp hsource).1]
    constructor
    · obtain ⟨source, hsource⟩ := List.exists_mem_of_ne_nil _
        ((partition_groupBy _ _).nonempty group.2 (List.mem_map_of_mem hmem))
      obtain ⟨hfound, hcode⟩ := (mem_group hmem).mp hsource
      obtain ⟨⟨other, hother, hsame, hblank⟩, -⟩ := hseparable hwhole source hfound (hcode ▸ hknown)
      exact ⟨other, (mem_group hmem).mpr ⟨hother, hsame.trans hcode⟩, hblank⟩
    · intro row hrow
      obtain ⟨hin, source, hsource, hblank, hid⟩ := mem_childSources.mp hrow
      obtain ⟨hfound, hcode⟩ := (mem_group hmem).mp hsource
      have hclear := (hseparable hwhole source hfound (hcode ▸ hknown)).2 hblank row hin hid
      rw [hcode] at hclear
      exact hclear

/-! ## A conflict inside one template -/

def conflictingTemplate : Template :=
  { crashLoopTemplate with
    structured := { Structured.none with
      riskSemantic := .obj [("risk_type", .str "linux_oom")] } }

def conflictingFeature : Feature := { bareFeature with templateHashes := ["h1"] }

/-- The text of a template puts it under one problem, its risk semantic speaks of another. -/
theorem conflict_not_parted :
    ¬ Parted crashLoopHost true [some conflictingTemplate] conflictingFeature := by
  intro hparted
  have hsource : ("h1", conflictingTemplate) ∈
      hashedTemplates [some conflictingTemplate] conflictingFeature := List.mem_singleton_self _
  have hcode : groupCode crashLoopHost conflictingTemplate = "kubernetes.pod.crash_loop" := by
    decide +kernel
  have hknown : groupCode crashLoopHost conflictingTemplate ≠ unresolvedCode := by
    rw [hcode]
    decide
  obtain ⟨-, hclear⟩ := hparted.clear (by decide +kernel) hsource hknown
  have hother : "linux.memory.oom" ∈ conflictingTemplate.structured.codes crashLoopHost := by
    decide +kernel
  have hsame := (hclear (by decide +kernel) conflictingTemplate (List.mem_singleton_self _)
    (by decide +kernel)).2.2 _ hother (by decide +kernel)
  rw [hcode] at hsame
  exact absurd hsame (by decide)

end LogRisk.Problems
