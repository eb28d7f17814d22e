import LogRisk.Results.Build
import LogRisk.Windows.Batches

/-!
# What the pages fold

However a list of windows is cut into pages, a generation holds one row for each
identity: the row of the merged core, with the members of all windows of the identity.
-/

namespace LogRisk.Results

open LogRisk.Library LogRisk.Library.Transaction LogRisk.Windows LogRisk.Streaming

variable {ν σ : Type}

/-- All windows folded, one after the other. -/
def Repository.foldWindows (repository : Repository ν) (rules : Rules σ) (ws : List (Window ν)) :
    BuildResult (Dict String (ResultWindow ν σ)) :=
  ws.foldlM (repository.upsert rules) ∅

/-- No two identities of the windows have one digest. -/
def Repository.Separates (repository : Repository ν) (ws : List (Window ν)) : Prop :=
  ∀ w ∈ ws, ∀ v ∈ ws, repository.digest w.identity = repository.digest v.identity →
    w.identity = v.identity

/-! ## Merging cores -/

theorem mergeTemplateWindows_pair {a b : Window ν} (h : a.identity = b.identity) :
    mergeTemplateWindows [a, b] = [a.merged b] := by
  have hentries : (mergedWindows [a, b]).entries = [(a.identity, a.merged b)] := by
    show Dict.alterEntries b.identity _ [(a.identity, a)] = _
    rw [Dict.alterEntries, if_pos h]
    rfl
  unfold mergeTemplateWindows Dict.values
  rw [hentries]
  rfl

/-- The core of an identity after a further window. -/
theorem get?_mergedWindows_append (ws : List (Window ν)) (w : Window ν) (k : Identity) :
    (mergedWindows (ws ++ [w])).get? k =
      if w.identity = k then some (mergeStep ((mergedWindows ws).get? k) w)
      else (mergedWindows ws).get? k := by
  unfold mergedWindows
  rw [Dict.groupFold_append, Dict.groupFold_cons, Dict.groupFold_nil, Dict.get?_alter]
  by_cases h : w.identity = k
  · rw [if_pos h, if_pos h, h]
  · rw [if_neg h, if_neg h]

/-! ## The row of an identity -/

def membersOf (k : Identity) (ws : List (Window ν)) : Multiset (Member ν) :=
  ((ws.filter fun w => decide (w.identity = k)).map members).sum

/-- The row windows of an identity are folded into. -/
def rowFor (rules : Rules σ) (ws : List (Window ν)) (k : Identity) : Option (ResultWindow ν σ) :=
  ((mergedWindows (ws.map core)).get? k).map fun c => resultWindow rules k c (membersOf k ws)

theorem membersOf_append (k : Identity) (ws : List (Window ν)) (w : Window ν) :
    membersOf k (ws ++ [w]) = membersOf k ws + if w.identity = k then members w else 0 := by
  unfold membersOf
  rw [List.filter_append, List.map_append, List.sum_append]
  by_cases h : w.identity = k
  · rw [if_pos h, List.filter_cons_of_pos (by simpa using h)]
    simp
  · rw [if_neg h, List.filter_cons_of_neg (by simpa using h)]
    simp

theorem rowFor_append_of_ne {rules : Rules σ} {ws : List (Window ν)} {w : Window ν} {k : Identity}
    (h : w.identity ≠ k) : rowFor rules (ws ++ [w]) k = rowFor rules ws k := by
  unfold rowFor
  rw [List.map_append, List.map_singleton, get?_mergedWindows_append, identity_core, if_neg h,
    membersOf_append, if_neg h, add_zero]

theorem rowFor_append_self (rules : Rules σ) (ws : List (Window ν)) (w : Window ν) :
    rowFor rules (ws ++ [w]) w.identity = some (resultWindow rules w.identity
      (mergeStep ((mergedWindows (ws.map core)).get? w.identity) (core w))
      (membersOf w.identity ws + members w)) := by
  unfold rowFor
  rw [List.map_append, List.map_singleton, get?_mergedWindows_append, identity_core, if_pos rfl,
    membersOf_append, if_pos rfl]
  rfl

theorem get?_mergedWindows_eq_none {ws : List (Window ν)} {k : Identity} :
    (mergedWindows ws).get? k = none ↔ ∀ w ∈ ws, w.identity ≠ k := by
  unfold mergedWindows
  rw [Dict.get?_eq_none, Dict.mem_keys_groupFold, not_or, not_exists]
  constructor
  · intro h w hw hk
    exact h.2 w ⟨hw, hk⟩
  · intro h
    exact ⟨by simp, fun w hw => h w hw.1 hw.2⟩

theorem membersOf_eq_zero {ws : List (Window ν)} {k : Identity} (h : ∀ w ∈ ws, w.identity ≠ k) :
    membersOf k ws = 0 := by
  unfold membersOf
  rw [List.filter_eq_nil_iff.mpr fun w hw hk => h w hw (of_decide_eq_true hk)]
  rfl

theorem canonical_rowFor {rules : Rules σ} {ws : List (Window ν)} {k : Identity}
    {row : ResultWindow ν σ} (h : rowFor rules ws k = some row) : row.canonical = k := by
  obtain ⟨c, -, rfl⟩ := Option.map_eq_some_iff.mp h
  rfl

/-! ## Folding -/

theorem upsert_cases {repository : Repository ν} {rules : Rules σ}
    {windows windows' : Dict String (ResultWindow ν σ)} {w : Window ν}
    (h : repository.upsert rules windows w = .ok windows') :
    (windows.get? (repository.digest w.identity) = none ∧
      windows' = windows.set (repository.digest w.identity)
        (resultWindow rules w.identity (core w) (members w))) ∨
    ∃ existing, windows.get? (repository.digest w.identity) = some existing ∧
      existing.canonical = w.identity ∧
      windows' = windows.set (repository.digest w.identity) { existing with
        count := ((mergeTemplateWindows [existing.core, core w]).headD (core w)).count
        score := rules.score ((mergeTemplateWindows [existing.core, core w]).headD (core w))
        core := (mergeTemplateWindows [existing.core, core w]).headD (core w)
        members := existing.members + members w } := by
  unfold Repository.upsert at h
  dsimp only at h
  cases hold : windows.get? (repository.digest w.identity) with
  | none =>
      rw [hold] at h
      exact Or.inl ⟨rfl, (pure_eq_ok.mp h).symm⟩
  | some existing =>
      rw [hold] at h
      obtain ⟨hcanonical, h⟩ := require_bind_eq_ok.mp h
      exact Or.inr ⟨existing, rfl, hcanonical, (pure_eq_ok.mp h).symm⟩

/-- The rows are those of the identities of the windows, each under its digest. -/
structure Folded (repository : Repository ν) (rules : Rules σ) (ws : List (Window ν))
    (windows : Dict String (ResultWindow ν σ)) : Prop where
  row : ∀ w ∈ ws, windows.get? (repository.digest w.identity) = rowFor rules ws w.identity
  known : ∀ key row, windows.get? key = some row → ∃ w ∈ ws, repository.digest w.identity = key

theorem Folded.empty (repository : Repository ν) (rules : Rules σ) :
    Folded repository rules [] ∅ :=
  ⟨fun w hw => absurd hw (by simp), fun key row h => by cases h⟩

variable {repository : Repository ν} {rules : Rules σ}

/-- One further window. -/
theorem Folded.upsert {ws : List (Window ν)} {windows windows' : Dict String (ResultWindow ν σ)}
    {w : Window ν} (h : Folded repository rules ws windows)
    (hupsert : repository.upsert rules windows w = .ok windows') :
    Folded repository rules (ws ++ [w]) windows' := by
  -- The row written is the row of the identity, and no other identity has its digest.
  have hset : windows' = windows.set (repository.digest w.identity)
        (resultWindow rules w.identity
          (mergeStep ((mergedWindows (ws.map core)).get? w.identity) (core w))
          (membersOf w.identity ws + members w)) ∧
      ∀ v ∈ ws, repository.digest v.identity = repository.digest w.identity →
        v.identity = w.identity := by
    rcases upsert_cases hupsert with ⟨hnone, rfl⟩ | ⟨existing, hold, hcanonical, rfl⟩
    · have hfree : ∀ v ∈ ws, repository.digest v.identity ≠ repository.digest w.identity := by
        intro v hv hdigest
        have hrow := h.row v hv
        rw [hdigest, hnone] at hrow
        have hmerged := get?_mergedWindows_eq_none.mp (Option.map_eq_none_iff.mp hrow.symm)
        exact hmerged (core v) (List.mem_map_of_mem hv) rfl
      have hne : ∀ v ∈ ws, v.identity ≠ w.identity :=
        fun v hv hk => hfree v hv (congrArg repository.digest hk)
      refine ⟨?_, fun v hv hdigest => absurd hdigest (hfree v hv)⟩
      have hcores : ∀ c ∈ ws.map core, c.identity ≠ w.identity := by
        intro c hc
        obtain ⟨v, hv, rfl⟩ := List.mem_map.mp hc
        exact hne v hv
      rw [get?_mergedWindows_eq_none.mpr hcores, membersOf_eq_zero hne, zero_add]
      rfl
    · have hsame : ∀ v ∈ ws, repository.digest v.identity = repository.digest w.identity →
          v.identity = w.identity := by
        intro v hv hdigest
        have hrow := h.row v hv
        rw [hdigest, hold] at hrow
        exact (canonical_rowFor hrow.symm).symm.trans hcanonical
      obtain ⟨v, hv, hdigest⟩ := h.known _ _ hold
      have hrow := h.row v hv
      rw [hdigest, hold, hsame v hv hdigest] at hrow
      obtain ⟨c, hc, rfl⟩ := Option.map_eq_some_iff.mp hrow.symm
      refine ⟨?_, hsame⟩
      have hpair := mergeTemplateWindows_pair (a := c) (b := core w) (identity_mergedWindows hc)
      rw [hc]
      show Dict.set windows _ { resultWindow rules w.identity c (membersOf w.identity ws) with
        count := ((mergeTemplateWindows [c, core w]).headD (core w)).count
        score := rules.score ((mergeTemplateWindows [c, core w]).headD (core w))
        core := (mergeTemplateWindows [c, core w]).headD (core w)
        members := membersOf w.identity ws + members w } = _
      rw [hpair]
      rfl
  obtain ⟨rfl, hsame⟩ := hset
  constructor
  · intro v hv
    by_cases hk : w.identity = v.identity
    · rw [← hk, Dict.get?_set_self, rowFor_append_self]
    · rw [rowFor_append_of_ne hk]
      have hv' : v ∈ ws := by
        rcases List.mem_append.mp hv with hv | hv
        · exact hv
        · exact absurd (congrArg Window.identity (List.mem_singleton.mp hv)).symm hk
      rw [Dict.get?_set_of_ne fun hdigest => hk (hsame v hv' hdigest.symm).symm]
      exact h.row v hv'
  · intro key row hrow
    by_cases hkey : repository.digest w.identity = key
    · exact ⟨w, by simp, hkey⟩
    · rw [Dict.get?_set_of_ne hkey] at hrow
      obtain ⟨v, hv, hdigest⟩ := h.known key row hrow
      exact ⟨v, List.mem_append_left _ hv, hdigest⟩

theorem foldWindows_append (ws vs : List (Window ν)) :
    repository.foldWindows rules (ws ++ vs) =
      (repository.foldWindows rules ws >>= fun windows => vs.foldlM (repository.upsert rules) windows) := by
  unfold Repository.foldWindows
  exact List.foldlM_append

theorem folded_foldWindows {ws : List (Window ν)} {windows : Dict String (ResultWindow ν σ)}
    (h : repository.foldWindows rules ws = .ok windows) : Folded repository rules ws windows := by
  induction ws using List.reverseRecOn generalizing windows with
  | nil =>
      obtain rfl := pure_eq_ok.mp h
      exact Folded.empty repository rules
  | append_singleton ws w ih =>
      rw [foldWindows_append] at h
      obtain ⟨before, hbefore, h⟩ := bind_eq_ok.mp h
      obtain ⟨after, hupsert, h⟩ := bind_eq_ok.mp h
      obtain rfl := pure_eq_ok.mp h
      exact (ih hbefore).upsert hupsert

/-- Where digests keep identities apart, every window is folded. -/
theorem exists_foldWindows {ws : List (Window ν)} (hseparates : repository.Separates ws) :
    ∃ windows, repository.foldWindows rules ws = .ok windows := by
  induction ws using List.reverseRecOn with
  | nil => exact ⟨∅, rfl⟩
  | append_singleton ws w ih =>
      obtain ⟨windows, hwindows⟩ := ih fun v hv u hu =>
        hseparates v (List.mem_append_left _ hv) u (List.mem_append_left _ hu)
      have hupsert : ∃ windows', repository.upsert rules windows w = .ok windows' := by
        unfold Repository.upsert
        dsimp only
        cases hold : windows.get? (repository.digest w.identity) with
        | none => exact ⟨_, rfl⟩
        | some existing =>
            have hfolded := folded_foldWindows hwindows
            obtain ⟨v, hv, hdigest⟩ := hfolded.known _ _ hold
            have hk : v.identity = w.identity :=
              hseparates v (List.mem_append_left _ hv) w (by simp) hdigest
            have hrow := hfolded.row v hv
            rw [hdigest, hold, hk] at hrow
            have hcanonical : existing.canonical = w.identity := canonical_rowFor hrow.symm
            exact ⟨_, require_bind_eq_ok.mpr ⟨hcanonical, rfl⟩⟩
      obtain ⟨windows', hwindows'⟩ := hupsert
      refine ⟨windows', ?_⟩
      rw [foldWindows_append, hwindows]
      show (repository.upsert rules windows w >>= fun windows => pure windows) = _
      rw [hwindows']
      rfl

/-! ## Pages -/

/-- A page folds the rows it reads up to some point, the first one at least. -/
theorem foldRows_cases {windows windows' : Dict String (ResultWindow ν σ)}
    {after after' : Position} {consumed : ℕ} {rows : List (BatchWindow (Window ν))}
    (h : repository.foldRows rules windows after consumed rows = .ok (windows', after')) :
    ∃ taken rest, rows = taken ++ rest ∧
      (taken.map BatchWindow.window).foldlM (repository.upsert rules) windows = .ok windows' ∧
      after' = (taken.getLast?.map position).getD after ∧
      (consumed = 0 → rows ≠ [] → taken ≠ []) := by
  induction rows generalizing windows after consumed with
  | nil =>
      cases h
      exact ⟨[], [], rfl, rfl, rfl, fun _ hne => absurd rfl hne⟩
  | cons row rows ih =>
      unfold Repository.foldRows at h
      obtain ⟨hsize, h⟩ := require_bind_eq_ok.mp h
      by_cases hfull : consumed ≠ 0 ∧ pageBytes < consumed + repository.size row.window
      · rw [if_pos hfull] at h
        cases h
        exact ⟨[], row :: rows, rfl, rfl, rfl, fun hzero => absurd hzero hfull.1⟩
      · rw [if_neg hfull] at h
        obtain ⟨folded, hupsert, h⟩ := bind_eq_ok.mp h
        obtain ⟨taken, rest, rfl, hfold, hafter, -⟩ := ih h
        refine ⟨row :: taken, rest, rfl, ?_, ?_, fun _ _ => List.cons_ne_nil _ _⟩
        · rw [List.map_cons, List.foldlM_cons, hupsert]
          exact hfold
        · rw [hafter, List.getLast?_cons]
          cases taken.getLast? <;> rfl

/-- A page does not fail where its windows are small enough and can be folded. -/
theorem exists_foldRows {windows windows' : Dict String (ResultWindow ν σ)}
    {rows : List (BatchWindow (Window ν))} (hsize : ∀ row ∈ rows, repository.size row.window ≤ pageBytes)
    (hfold : (rows.map BatchWindow.window).foldlM (repository.upsert rules) windows = .ok windows')
    (after : Position) (consumed : ℕ) :
    ∃ r, repository.foldRows rules windows after consumed rows = .ok r := by
  induction rows generalizing windows after consumed with
  | nil => exact ⟨_, rfl⟩
  | cons row rows ih =>
      have hrow := hsize row List.mem_cons_self
      unfold Repository.foldRows
      by_cases hfull : consumed ≠ 0 ∧ pageBytes < consumed + repository.size row.window
      · exact ⟨(windows, after), require_bind_eq_ok.mpr ⟨hrow, if_pos hfull⟩⟩
      · rw [List.map_cons, List.foldlM_cons] at hfold
        obtain ⟨folded, hupsert, hfold⟩ := bind_eq_ok.mp hfold
        obtain ⟨r, hr⟩ := ih (fun row' h' => hsize row' (List.mem_cons_of_mem _ h')) hfold
          (position row) (consumed + repository.size row.window)
        refine ⟨r, require_bind_eq_ok.mpr ⟨hrow, (if_neg hfull).trans ?_⟩⟩
        exact bind_eq_ok.mpr ⟨folded, hupsert, hr⟩

end LogRisk.Results
