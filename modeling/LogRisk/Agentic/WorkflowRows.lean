import LogRisk.Agentic.Workflow
import LogRisk.Library.Transaction
import Mathlib.Algebra.GroupWithZero.Nat
import Mathlib.Algebra.BigOperators.Group.List.Basic
import Mathlib.Data.List.Nodup

/-!
# What transactions do to the rows of a workflow

A transaction changes one row and tells of it in an event, or it changes rows quietly.  Either
way rows only grow, and completed rows stay as they are.  From this follow what is settled about
claimed nodes and that the events recount the rows.
-/

namespace LogRisk.Agentic.Workflow

open LogRisk.Library LogRisk.Library.Transaction

variable {V : Type}

/-! ## Rows that grow -/

structure Node.Grows (n m : Node V) : Prop where
  nodeId : m.nodeId = n.nodeId
  dependencies : m.dependencies = n.dependencies
  attempt : n.attempt ≤ m.attempt
  completed : n.status = .completed → m = n

theorem Node.Grows.refl (n : Node V) : n.Grows n := ⟨rfl, rfl, le_rfl, fun _ => rfl⟩

theorem Node.Grows.trans {n m o : Node V} (h : n.Grows m) (h' : m.Grows o) : n.Grows o where
  nodeId := h'.nodeId.trans h.nodeId
  dependencies := h'.dependencies.trans h.dependencies
  attempt := h.attempt.trans h'.attempt
  completed hn := by
    obtain rfl := h.completed hn
    exact h'.completed hn

/-- The rows stay where they are and grow. -/
def Db.Grows (s t : Db V) : Prop := List.Forall₂ Node.Grows s.nodes t.nodes

section Grows

variable {s t u : Db V}

theorem Db.Grows.refl (s : Db V) : s.Grows s := List.forall₂_same.mpr fun n _ => .refl n

theorem Db.Grows.trans (h : s.Grows t) (h' : t.Grows u) : s.Grows u := by
  unfold Db.Grows at h h' ⊢
  generalize s.nodes = ns, t.nodes = ms, u.nodes = os at h h'
  induction h generalizing os with
  | nil =>
      cases h'
      exact .nil
  | cons hnm _ ih =>
      cases h' with
      | cons hmo hrest => exact .cons (hnm.trans hmo) (ih _ hrest)

theorem Db.grows_of_map {g : Node V → Node V} (h : t.nodes = s.nodes.map g)
    (hg : ∀ n ∈ s.nodes, n.Grows (g n)) : s.Grows t := by
  unfold Db.Grows
  rw [h, List.forall₂_map_right_iff]
  exact List.forall₂_same.mpr hg

theorem Db.Grows.ids (h : s.Grows t) : t.nodes.map (·.nodeId) = s.nodes.map (·.nodeId) := by
  unfold Db.Grows at h
  generalize s.nodes = ns, t.nodes = ms at h
  induction h with
  | nil => rfl
  | cons hnm _ ih => rw [List.map_cons, List.map_cons, hnm.nodeId, ih]

theorem Db.Grows.forth (h : s.Grows t) {n : Node V} (hn : n ∈ s.nodes) :
    ∃ m ∈ t.nodes, n.Grows m := by
  obtain ⟨hlength, hall⟩ := List.forall₂_iff_get.mp h
  obtain ⟨i, hi, rfl⟩ := List.getElem_of_mem hn
  exact ⟨_, List.getElem_mem (hlength ▸ hi), hall i hi (hlength ▸ hi)⟩

theorem Db.Grows.back (h : s.Grows t) {m : Node V} (hm : m ∈ t.nodes) :
    ∃ n ∈ s.nodes, n.Grows m := by
  obtain ⟨hlength, hall⟩ := List.forall₂_iff_get.mp h
  obtain ⟨i, hi, rfl⟩ := List.getElem_of_mem hm
  exact ⟨_, List.getElem_mem (hlength ▸ hi), hall i (hlength ▸ hi) hi⟩

theorem Db.Grows.mem (h : s.Grows t) {n : Node V} (hn : n ∈ s.nodes) (hdone : n.status = .completed) :
    n ∈ t.nodes := by
  obtain ⟨m, hm, hgrows⟩ := h.forth hn
  exact hgrows.completed hdone ▸ hm

/-! ## What a node depends on -/

/-- All that a list of dependencies names is completed. -/
def Db.Done (db : Db V) (dependencies : List String) : Prop :=
  ∀ d ∈ dependencies, ∃ m ∈ db.nodes, m.nodeId = d ∧ m.status = .completed

theorem Db.Done.grows {dependencies : List String} (h : s.Done dependencies) (hst : s.Grows t) :
    t.Done dependencies := by
  intro d hd
  obtain ⟨m, hm, hid, hdone⟩ := h d hd
  exact ⟨m, hst.mem hm hdone, hid, hdone⟩

theorem eq_of_nodeId (hids : (s.nodes.map (·.nodeId)).Nodup) {n m : Node V} (hn : n ∈ s.nodes)
    (hm : m ∈ s.nodes) (h : n.nodeId = m.nodeId) : n = m :=
  List.inj_on_of_nodup_map hids hn hm h

/-- What completed dependencies have left does not change any more. -/
theorem dependencyArtifacts_grows {dependencies : List String}
    (hids : (s.nodes.map (·.nodeId)).Nodup) (hdone : s.Done dependencies) (h : s.Grows t) :
    t.dependencyArtifacts dependencies = s.dependencyArtifacts dependencies := by
  have hnamed : ∀ n ∈ s.nodes, n.nodeId ∈ dependencies → n.status = .completed := by
    intro n hn hmem
    obtain ⟨m, hm, hid, hcompleted⟩ := hdone n.nodeId hmem
    rwa [eq_of_nodeId hids hn hm hid.symm]
  unfold Db.dependencyArtifacts
  unfold Db.Grows at h
  generalize s.nodes = ns, t.nodes = ms at h hnamed
  induction h with
  | nil => rfl
  | @cons n m _ _ hnm _ ih =>
      have hrest := ih fun k hk => hnamed k (List.mem_cons_of_mem n hk)
      by_cases hmem : n.nodeId ∈ dependencies
      · obtain rfl := hnm.completed (hnamed n List.mem_cons_self hmem)
        simp only [List.filter_cons, hmem, decide_true, if_true, List.map_cons, hrest]
      · have hm : m.nodeId ∉ dependencies := hnm.nodeId ▸ hmem
        simp only [List.filter_cons, hmem, hm, decide_false, Bool.false_eq_true, if_false, hrest]

end Grows

/-! ## What a transaction can do -/

/-- The row of a node before and after, with the event that is written and the calls it adds. -/
structure RowChange (n m : Node V) (kind : EventKind) (used : ℕ) : Prop where
  nodeId : m.nodeId = n.nodeId
  dependencies : m.dependencies = n.dependencies
  unfinished : n.status ≠ .completed
  used : m.usedToolCalls = n.usedToolCalls + used
  attempt : m.attempt = n.attempt + if kind = .node .running then 1 else 0
  completed : m.status = .completed ↔ kind = .node .completed
  claimed : m.status ≠ .pending → n.status ≠ .pending ∨ kind = .node .running

/-- A row that neither is claimed nor finishes. -/
structure Quiet (n m : Node V) : Prop where
  nodeId : m.nodeId = n.nodeId
  dependencies : m.dependencies = n.dependencies
  used : m.usedToolCalls = n.usedToolCalls
  attempt : m.attempt = n.attempt
  kept : n.status = .completed → m = n
  completed : m.status = .completed → n.status = .completed
  claimed : m.status ≠ .pending → n.status ≠ .pending

theorem Quiet.refl (n : Node V) : Quiet n n := ⟨rfl, rfl, rfl, rfl, fun _ => rfl, id, id⟩

/-- The events that tell of a row. -/
def counted (kind : EventKind) : Prop := kind = .node .running ∨ kind = .node .completed

def Db.FreshKey (db : Db V) (e : Event) : Prop := ∀ key, e.key = some key → db.hasKey key = false

inductive Change (a : Act V) (s : Db V) : Db V → Prop
  /-- One row changes, and an event is written of it. -/
  | one {run : Run} {row : Node V} {f : Node V → Node V} {kind : EventKind} {used : ℕ}
      {key : Option String} (hrow : row ∈ s.nodes) (h : RowChange row (f row) kind used)
      (hused : run.usedToolCalls = s.run.usedToolCalls + used)
      (hkey : s.FreshKey ⟨kind, some row.nodeId, key⟩)
      (hclaim : kind = .node .running → a = .claimNode row.nodeId) :
      Change a s ⟨run, s.nodes.map fun n => if n.nodeId = row.nodeId then f n else n,
        s.events ++ [⟨kind, some row.nodeId, key⟩]⟩
  | quiet {run : Run} {g : Node V → Node V} {es : List Event} (hg : ∀ n ∈ s.nodes, Quiet n (g n))
      (hused : run.usedToolCalls = s.run.usedToolCalls)
      (hes : es = [] ∨ ∃ e, es = [e] ∧ ¬ counted e.kind ∧ s.FreshKey e) :
      Change a s ⟨run, s.nodes.map g, s.events ++ es⟩

section Change

variable {a : Act V} {s t : Db V}

theorem Change.nothing (a : Act V) (s : Db V) : Change a s s := by
  have h : Change a s ⟨s.run, s.nodes.map id, s.events ++ []⟩ :=
    .quiet (fun n _ => .refl n) rfl (.inl rfl)
  rwa [List.map_id, List.append_nil] at h

/-- Where one row is changed, a row is that one or another as it was. -/
theorem mem_changed (hids : (s.nodes.map (·.nodeId)).Nodup) {row : Node V} (hrow : row ∈ s.nodes)
    {f : Node V → Node V} {m : Node V}
    (hm : m ∈ s.nodes.map fun n => if n.nodeId = row.nodeId then f n else n) :
    m = f row ∨ m ∈ s.nodes ∧ m.nodeId ≠ row.nodeId := by
  obtain ⟨n, hn, rfl⟩ := List.mem_map.mp hm
  by_cases hid : n.nodeId = row.nodeId
  · rw [if_pos hid, eq_of_nodeId hids hn hrow hid]
    exact .inl rfl
  · rw [if_neg hid]
    exact .inr ⟨hn, hid⟩

theorem updateNode_ok {nodeId : String} {expected : List NodeStatus} {f : Node V → Node V}
    (hids : (s.nodes.map (·.nodeId)).Nodup) (h : s.updateNode nodeId expected f = .ok t) :
    ∃ row ∈ s.nodes, row.nodeId = nodeId ∧ row.status ∈ expected ∧
      t = { s with nodes := s.nodes.map fun n => if n.nodeId = nodeId then f n else n } := by
  unfold Db.updateNode at h
  split at h
  · rename_i hany
    obtain ⟨row, hrow, hmatch⟩ := List.any_eq_true.mp hany
    obtain ⟨hid, hstatus⟩ := (Bool.and_eq_true _ _).mp hmatch
    have hid := of_decide_eq_true hid
    have hstatus := of_decide_eq_true hstatus
    refine ⟨row, hrow, hid, hstatus, ?_⟩
    cases h
    congr 1
    apply List.map_congr_left
    intro n hn
    by_cases hn' : n.nodeId = nodeId
    · obtain rfl := eq_of_nodeId hids hn hrow (hn'.trans hid.symm)
      simp [hn', hstatus]
    · simp [hn']
  · cases h

theorem freshKey_none (kind : EventKind) (nodeId : Option String) :
    s.FreshKey ⟨kind, nodeId, none⟩ := by
  intro key h
  cases h

theorem freshKey_of_any {key : Option String} (h : ¬ key.any s.hasKey = true) (kind : EventKind)
    (nodeId : Option String) : s.FreshKey ⟨kind, nodeId, key⟩ := by
  intro k hk
  cases hk
  exact Bool.eq_false_iff.mpr h

theorem transitionRun_change {status : RunStatus} {allowedFrom : List RunStatus}
    {key : Option String} (h : s.transitionRun status allowedFrom key = .ok t) : Change a s t := by
  unfold Db.transitionRun at h
  split at h
  · cases h
    exact .nothing a s
  · rename_i hnew
    split at h
    · cases h
      have hchange : Change a s
          ⟨{ s.run with status, stateVersion := s.run.stateVersion + 1 }, s.nodes.map id,
            s.events ++ [{ kind := .run status, key }]⟩ :=
        .quiet (fun n _ => .refl n) rfl
          (.inr ⟨_, rfl, by simp [counted], freshKey_of_any hnew _ _⟩)
      rwa [List.map_id] at hchange
    · cases h

theorem claimNode_change (hids : (s.nodes.map (·.nodeId)).Nodup) {nodeId : String}
    (h : s.claimNode nodeId = .ok t) : Change (.claimNode nodeId) s t := by
  obtain ⟨db, hdb, ht⟩ := bind_eq_ok.mp h
  obtain rfl := Except.ok.inj ht
  obtain ⟨row, hrow, rfl, hstatus, rfl⟩ := updateNode_ok hids hdb
  have hpending : row.status = .pending := List.mem_singleton.mp hstatus
  refine .one hrow (?_ : RowChange row _ (.node .running) 0) rfl (freshKey_none _ _) fun _ => rfl
  exact ⟨rfl, rfl, by simp [hpending], rfl, by simp, by simp, fun _ => .inr rfl⟩

theorem attachChildRun_change (nodeId child : String) :
    Change a s (s.attachChildRun nodeId child) := by
  have hquiet : ∀ n ∈ s.nodes, Quiet n (if n.nodeId = nodeId && decide (n.status = .running) then
      { n with childAgentRunId := some child } else n) := by
    intro n _
    split
    · rename_i hn
      have hrunning : n.status = .running := by simpa using ((Bool.and_eq_true _ _).mp hn).2
      exact ⟨rfl, rfl, rfl, rfl, by simp [hrunning], id, id⟩
    · exact .refl n
  have h : Change a s ⟨s.run, (s.attachChildRun nodeId child).nodes, s.events ++ []⟩ :=
    .quiet hquiet rfl (.inl rfl)
  rwa [List.append_nil] at h

def finished : List NodeStatus := [.completed, .failed, .cancelled]

theorem finishNode_change (hids : (s.nodes.map (·.nodeId)).Nodup) {nodeId : String}
    {status : NodeStatus} {used : ℕ} {result : Option (Summary V)} {errorCode : Option String}
    (hstatus : status ∈ finished) (h : s.finishNode nodeId status used result errorCode = .ok t) :
    Change a s t := by
  obtain ⟨db, hdb, ht⟩ := bind_eq_ok.mp h
  obtain rfl := Except.ok.inj ht
  obtain ⟨row, hrow, rfl, hrunning, rfl⟩ := updateNode_ok hids hdb
  have hrunning : row.status = .running := List.mem_singleton.mp hrunning
  have hother : status ≠ .running := by
    rintro rfl
    revert hstatus
    decide
  refine .one hrow (?_ : RowChange row _ (.node status) used) rfl (freshKey_none _ _)
    fun hkind => ?_
  · exact ⟨rfl, rfl, by simp [hrunning], rfl, by simp [hother], by simp, fun _ => by simp [hrunning]⟩
  · exact absurd (EventKind.node.inj hkind) hother

theorem requeueNode_change (hids : (s.nodes.map (·.nodeId)).Nodup) {nodeId : String}
    (h : s.requeueNode nodeId = .ok t) : Change a s t := by
  obtain ⟨db, hdb, ht⟩ := bind_eq_ok.mp h
  obtain rfl := Except.ok.inj ht
  obtain ⟨row, hrow, rfl, hrunning, rfl⟩ := updateNode_ok hids hdb
  have hrunning : row.status = .running := List.mem_singleton.mp hrunning
  refine .one hrow (?_ : RowChange row _ (.node .pending) 0) rfl (freshKey_none _ _)
    fun hkind => ?_
  · exact ⟨rfl, rfl, by simp [hrunning], rfl, by simp, by simp, fun h => absurd rfl h⟩
  · exact absurd (EventKind.node.inj hkind) (by decide)

theorem resetNode_change (hids : (s.nodes.map (·.nodeId)).Nodup) {reserved : String → Bool}
    {nodeId : String} {key : Option String} (h : s.resetNode reserved nodeId key = .ok t) :
    Change a s t := by
  unfold Db.resetNode at h
  split at h
  · cases h
    exact .nothing a s
  · rename_i hnew
    obtain ⟨db, hdb, ht⟩ := bind_eq_ok.mp h
    obtain rfl := Except.ok.inj ht
    obtain ⟨row, hrow, rfl, hstatus, rfl⟩ := updateNode_ok hids hdb
    have hopen : row.status ≠ .completed := by
      intro hdone
      rw [hdone] at hstatus
      revert hstatus
      decide
    refine .one hrow (?_ : RowChange row _ .retryQueued 0) rfl (freshKey_of_any hnew _ _)
      fun hkind => ?_
    · exact ⟨rfl, rfl, hopen, rfl, by simp [Db.backToQueue],
        by simp [Db.backToQueue], fun h => absurd rfl h⟩
    · cases hkind

theorem recover_change (reserved : String → Bool) : Change a s (s.recover reserved) := by
  refine .quiet (fun n _ => ?_) rfl (.inr ⟨_, rfl, by simp [counted], freshKey_none _ _⟩)
  split
  · rename_i hrunning
    exact ⟨rfl, rfl, rfl, rfl, by simp [hrunning], by simp [Db.backToQueue], fun h => absurd rfl h⟩
  · exact .refl n

end Change

/-! ## What a change preserves -/

theorem RowChange.grows {n m : Node V} {kind : EventKind} {used : ℕ} (h : RowChange n m kind used) :
    n.Grows m :=
  ⟨h.nodeId, h.dependencies, by rw [h.attempt]; omega, fun hn => absurd hn h.unfinished⟩

theorem Quiet.grows {n m : Node V} (h : Quiet n m) : n.Grows m :=
  ⟨h.nodeId, h.dependencies, h.attempt.ge, h.kept⟩

section Preserved

variable {a : Act V} {s t : Db V}

theorem Change.grows (hids : (s.nodes.map (·.nodeId)).Nodup) (h : Change a s t) : s.Grows t := by
  cases h with
  | one hrow h =>
      apply Db.grows_of_map rfl
      intro n hn
      split
      · rename_i hid
        obtain rfl := eq_of_nodeId hids hn hrow hid
        exact h.grows
      · exact .refl n
  | quiet hg => exact Db.grows_of_map rfl fun n hn => (hg n hn).grows

/-- What is settled about the rows of a run. -/
structure Settled (db : Db V) : Prop where
  ids : (db.nodes.map (·.nodeId)).Nodup
  claimed : ∀ n ∈ db.nodes, n.status ≠ .pending → 0 < n.attempt
  done : ∀ n ∈ db.nodes, 0 < n.attempt → db.Done n.dependencies

theorem Settled.change (h : Settled s) (hchange : Change a s t)
    (hclaim : ∀ nodeId, a = .claimNode nodeId → ∀ n ∈ s.nodes, n.nodeId = nodeId →
      s.Done n.dependencies) : Settled t := by
  have hgrows := hchange.grows h.ids
  refine ⟨hgrows.ids ▸ h.ids, ?_, ?_⟩
  · cases hchange with
    | @one _ row f kind used _ hrow hrowChange =>
        intro m hm hstatus
        rcases mem_changed h.ids hrow hm with rfl | ⟨hm, -⟩
        · rw [hrowChange.attempt]
          rcases hrowChange.claimed hstatus with hclaimed | hkind
          · have hpos := h.claimed row hrow hclaimed
            omega
          · rw [if_pos hkind]
            omega
        · exact h.claimed m hm hstatus
    | @quiet _ g _ hg =>
        intro m hm hstatus
        obtain ⟨n, hn, rfl⟩ := List.mem_map.mp hm
        rw [(hg n hn).attempt]
        exact h.claimed n hn ((hg n hn).claimed hstatus)
  · have hkept : ∀ n ∈ s.nodes, ∀ m, n.Grows m → 0 < n.attempt → t.Done m.dependencies := by
      intro n hn m hnm hpos
      rw [hnm.dependencies]
      exact (h.done n hn hpos).grows hgrows
    cases hchange with
    | @one _ row f kind used _ hrow hrowChange _ _ hkind =>
        intro m hm hpos
        rcases mem_changed h.ids hrow hm with rfl | ⟨hm, -⟩
        · rw [hrowChange.attempt] at hpos
          split at hpos
          · rename_i hrunning
            rw [hrowChange.dependencies]
            exact (hclaim _ (hkind hrunning) row hrow rfl).grows hgrows
          · exact hkept row hrow _ hrowChange.grows hpos
        · exact hkept m hm m (.refl m) hpos
    | @quiet _ g _ hg =>
        intro m hm hpos
        obtain ⟨n, hn, rfl⟩ := List.mem_map.mp hm
        rw [(hg n hn).attempt] at hpos
        exact hkept n hn _ (hg n hn).grows hpos

end Preserved

/-! ## Events -/

def Db.count (db : Db V) (kind : EventKind) (nodeId : String) : ℕ :=
  db.events.countP fun e => e.kind = kind ∧ e.nodeId = some nodeId

/-- The events tell how often each node was claimed and that it was completed at most once, the
calls of the run are those of its nodes, and no key was used twice. -/
structure Recounts (db : Db V) : Prop where
  attempts : ∀ n ∈ db.nodes, n.attempt = db.count (.node .running) n.nodeId
  completions : ∀ n ∈ db.nodes,
    db.count (.node .completed) n.nodeId = if n.status = .completed then 1 else 0
  used : db.run.usedToolCalls = (db.nodes.map (·.usedToolCalls)).sum
  keys : (db.events.filterMap (·.key)).Nodup

/-- A sum over rows of which one changes. -/
theorem sum_update {nodes : List (Node V)} (hids : (nodes.map (·.nodeId)).Nodup) {row : Node V}
    (hrow : row ∈ nodes) {f : Node V → Node V} {used : ℕ}
    (hused : (f row).usedToolCalls = row.usedToolCalls + used) :
    ((nodes.map fun n => if n.nodeId = row.nodeId then f n else n).map (·.usedToolCalls)).sum =
      (nodes.map (·.usedToolCalls)).sum + used := by
  induction nodes with
  | nil => cases hrow
  | cons n rest ih =>
      rw [List.map_cons, List.nodup_cons] at hids
      simp only [List.map_cons, List.sum_cons]
      rcases List.mem_cons.mp hrow with rfl | hrow
      · have hother : (rest.map fun n => if n.nodeId = row.nodeId then f n else n) = rest := by
          conv_rhs => rw [← List.map_id rest]
          apply List.map_congr_left
          intro m hm
          apply if_neg
          intro heq
          exact hids.1 (heq ▸ List.mem_map_of_mem hm)
        rw [if_pos rfl, hused, hother]
        omega
      · have hne : n.nodeId ≠ row.nodeId := by
          intro heq
          exact hids.1 (heq ▸ List.mem_map_of_mem hrow)
        rw [if_neg hne, ih hids.2 hrow]
        omega

section Preserved

variable {a : Act V} {s t : Db V}

theorem keys_append {e : Event} (h : (s.events.filterMap (·.key)).Nodup) (hfresh : s.FreshKey e) :
    ((s.events ++ [e]).filterMap (·.key)).Nodup := by
  rw [List.filterMap_append]
  cases hkey : e.key with
  | none => simpa [hkey] using h
  | some key =>
      have hnew : ∀ e' ∈ s.events, e'.key ≠ some key := by
        intro e' he' heq
        have hno := List.any_eq_false.mp (hfresh key hkey) e' he'
        simp [heq] at hno
      simp only [List.filterMap_cons, hkey, List.filterMap_nil, List.nodup_append, List.nodup_cons,
        List.not_mem_nil, not_false_eq_true, List.nodup_nil, and_true, List.mem_singleton,
        forall_eq]
      refine ⟨h, trivial, fun k hk hsame => ?_⟩
      obtain ⟨e', he', hk'⟩ := List.mem_filterMap.mp hk
      exact hnew e' he' (hk'.trans (congrArg some hsame))

theorem count_append {run : Run} {nodes : List (Node V)} (e : Event) (kind : EventKind)
    (nodeId : String) : (⟨run, nodes, s.events ++ [e]⟩ : Db V).count kind nodeId =
      s.count kind nodeId + if e.kind = kind ∧ e.nodeId = some nodeId then 1 else 0 := by
  unfold Db.count
  rw [List.countP_append, List.countP_singleton]
  simp

theorem count_quiet {run : Run} {nodes : List (Node V)} {es : List Event}
    (hes : es = [] ∨ ∃ e, es = [e] ∧ ¬ counted e.kind ∧ s.FreshKey e) {kind : EventKind}
    (hkind : counted kind) (nodeId : String) :
    (⟨run, nodes, s.events ++ es⟩ : Db V).count kind nodeId = s.count kind nodeId := by
  rcases hes with rfl | ⟨e, rfl, hother, -⟩
  · rw [List.append_nil]
    rfl
  · rw [count_append, if_neg]
    · rfl
    · rintro ⟨rfl, -⟩
      exact hother hkind

theorem Recounts.change (h : Recounts s) (hids : (s.nodes.map (·.nodeId)).Nodup)
    (hchange : Change a s t) : Recounts t := by
  cases hchange with
  | @one run row f kind used key hrow hrowChange hused hkey _ =>
      -- a row of another node has neither changed nor been told of
      have hother : ∀ n : Node V, n.nodeId ≠ row.nodeId → ∀ kind',
          (⟨run, s.nodes.map fun n => if n.nodeId = row.nodeId then f n else n,
            s.events ++ [⟨kind, some row.nodeId, key⟩]⟩ : Db V).count kind' n.nodeId =
              s.count kind' n.nodeId := by
        intro n hne kind'
        rw [count_append, if_neg]
        · rfl
        · rintro ⟨-, hsame⟩
          exact hne (Option.some.inj hsame).symm
      refine ⟨?_, ?_, ?_, keys_append h.keys hkey⟩
      · intro m hm
        rcases mem_changed hids hrow hm with rfl | ⟨hm, hid⟩
        · rw [hrowChange.nodeId, hrowChange.attempt, h.attempts row hrow, count_append]
          simp
        · rw [hother m hid]
          exact h.attempts m hm
      · intro m hm
        rcases mem_changed hids hrow hm with rfl | ⟨hm, hid⟩
        · rw [hrowChange.nodeId, count_append, h.completions row hrow, if_neg hrowChange.unfinished]
          simp [hrowChange.completed]
        · rw [hother m hid]
          exact h.completions m hm
      · rw [hused, h.used]
        exact (sum_update hids hrow hrowChange.used).symm
  | @quiet run g es hg hused hes =>
      refine ⟨?_, ?_, ?_, ?_⟩
      · intro m hm
        obtain ⟨n, hn, rfl⟩ := List.mem_map.mp hm
        rw [(hg n hn).nodeId, (hg n hn).attempt, count_quiet hes (.inl rfl)]
        exact h.attempts n hn
      · intro m hm
        obtain ⟨n, hn, rfl⟩ := List.mem_map.mp hm
        rw [(hg n hn).nodeId, count_quiet hes (.inr rfl), h.completions n hn]
        by_cases hdone : n.status = .completed
        · rw [(hg n hn).kept hdone]
        · rw [if_neg hdone, if_neg fun hm => hdone ((hg n hn).completed hm)]
      · rw [hused, h.used, List.map_map]
        congr 1
        apply List.map_congr_left
        intro n hn
        exact (hg n hn).used.symm
      · rcases hes with rfl | ⟨e, rfl, -, hfresh⟩
        · rw [List.append_nil]
          exact h.keys
        · exact keys_append h.keys hfresh

end Preserved

end LogRisk.Agentic.Workflow
