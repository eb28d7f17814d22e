import LogRisk.Ledger.UsageOrder

/-!
# Finishing a call in every order

The calls of `finish_call` for one row merge the normalized usages.  Their order matters exactly
where a total is contested; an observation that has been merged once changes nothing any more.
-/

namespace LogRisk.Ledger

open LogRisk.Library LogRisk.Library.Transaction

/-! ## Reports of one call -/

/-- A usage as it is reported, and the time on the clock when it is. -/
structure Report where
  usage : Json
  now : String

def finishStep (target : TerminalStatus) (row : CallRow) (r : Report) : Result CallRow :=
  finishCall r.now row target r.usage none none

/-- All reports with one status, on the row of a call that has been prepared or started. -/
def reportAll (started : Bool) (target : TerminalStatus) (reports : List Report) : Result CallRow :=
  reports.foldlM (finishStep target) (CallRow.fresh started)

def usages (reports : List Report) : List Usage := reports.map fun r => normalizeUsage r.usage

/-- Every order gives the same counts and quality, or every order is rejected as a conflict. -/
def OrderIndependent (started : Bool) (target : TerminalStatus) (reports : List Report) : Prop :=
  (∃ outcome : (TokenField → Option ℕ) × UsageQuality, ∀ order, order.Perm reports →
    ∃ row, reportAll started target order = .ok row ∧
      (row.usage.tokens, row.usageQuality) = outcome) ∨
  ∀ order, order.Perm reports →
    ∃ message, reportAll started target order = .error (.conflict message)

/-- A report that has been merged leaves the row as it is when it comes again. -/
def Repeatable (started : Bool) (target : TerminalStatus) (reports : List Report) : Prop :=
  ∀ order, order.Perm reports → ∀ row, reportAll started target order = .ok row →
    ∀ r ∈ reports, ∀ now, finishCall now row target r.usage none none = .ok row

/-! ## One report -/

theorem not_contradicts_none {α : Type} (x : Option α) : ¬ contradicts x none := by
  rintro ⟨_, _, _, h, _⟩
  cases h

theorem finishCall_eq {row : CallRow} {target : TerminalStatus} (now : String) (usage : Json)
    (hadmits : row.status.admits target = true) :
    finishCall now row target usage none none =
      (mergeUsage row.usage (normalizeUsage usage)).map fun merged =>
        ⟨.finished target, merged, qualityOf merged, row.errorCode,
          row.finishedAt.or (some now)⟩ := by
  unfold finishCall
  rw [require_of hadmits]
  cases hmerge : mergeUsage row.usage (normalizeUsage usage) with
  | error e => rfl
  | ok merged =>
      show (do
        require (¬ contradicts row.errorCode none) _
        require (¬ contradicts row.finishedAt none) _
        _) = _
      rw [require_of (not_contradicts_none _), require_of (not_contradicts_none _)]
      show Except.ok _ = Except.ok _
      rw [Option.or_none]
      rfl

/-! ## All reports -/

/-- The row shows the merged usages. -/
structure Shows (target : TerminalStatus) (row : CallRow) : Prop where
  admits : row.status.admits target = true
  quality : row.usageQuality = qualityOf row.usage

theorem shows_fresh (started : Bool) (target : TerminalStatus) :
    Shows target (CallRow.fresh started) := by
  constructor
  · cases started <;> rfl
  · rfl

theorem shows_finished (target : TerminalStatus) (merged : Usage) (errorCode finishedAt : Option String) :
    Shows target ⟨.finished target, merged, qualityOf merged, errorCode, finishedAt⟩ :=
  ⟨decide_eq_true rfl, rfl⟩

theorem foldlM_finishStep {target : TerminalStatus} {reports : List Report} {row : CallRow}
    (hrow : Shows target row) :
    (∀ s, (usages reports).foldlM mergeUsage row.usage = .ok s →
      ∃ row', reports.foldlM (finishStep target) row = .ok row' ∧ row'.usage = s ∧
        Shows target row') ∧
    ∀ e, (usages reports).foldlM mergeUsage row.usage = .error e →
      reports.foldlM (finishStep target) row = .error e := by
  induction reports generalizing row with
  | nil =>
      refine ⟨fun s h => ⟨row, rfl, pure_eq_ok.mp h, hrow⟩, fun e h => by cases h⟩
  | cons r reports ih =>
      have hstep := finishCall_eq r.now r.usage hrow.admits
      unfold usages
      rw [List.map_cons, List.foldlM_cons, List.foldlM_cons]
      unfold finishStep
      rw [hstep]
      cases hmerge : mergeUsage row.usage (normalizeUsage r.usage) with
      | error e => exact ⟨fun s h => (by cases h), fun e' h => (by cases h; rfl)⟩
      | ok merged => exact ih (shows_finished target merged _ _)

theorem reportAll_ok {started : Bool} {target : TerminalStatus} {reports : List Report} {s : Usage}
    (h : mergeAll (usages reports) = .ok s) :
    ∃ row, reportAll started target reports = .ok row ∧ row.usage = s ∧ Shows target row :=
  (foldlM_finishStep (shows_fresh started target)).1 s h

theorem reportAll_error {started : Bool} {target : TerminalStatus} {reports : List Report}
    {e : LedgerError} (h : mergeAll (usages reports) = .error e) :
    reportAll started target reports = .error e :=
  (foldlM_finishStep (shows_fresh started target)).2 e h

theorem mergeAll_of_reportAll {started : Bool} {target : TerminalStatus} {reports : List Report}
    {row : CallRow} (h : reportAll started target reports = .ok row) :
    mergeAll (usages reports) = .ok row.usage ∧ Shows target row := by
  cases hrun : mergeAll (usages reports) with
  | ok s =>
      obtain ⟨row', hrow', rfl, hshows⟩ := @reportAll_ok started target reports s hrun
      obtain rfl := Except.ok.inj (h.symm.trans hrow')
      exact ⟨rfl, hshows⟩
  | error e =>
      rw [@reportAll_error started target reports e hrun] at h
      cases h

/-- After the first report the row has its status and its time. -/
theorem finished_of_reportAll {started : Bool} {target : TerminalStatus} {reports : List Report}
    {row : CallRow} (hne : reports ≠ []) (h : reportAll started target reports = .ok row) :
    row.status = .finished target ∧ ∃ time, row.finishedAt = some time := by
  induction reports using List.reverseRecOn with
  | nil => exact absurd rfl hne
  | append_singleton reports r _ =>
      unfold reportAll at h
      rw [List.foldlM_append, bind_eq_ok] at h
      obtain ⟨before, hbefore, hlast⟩ := h
      have hshows := (mergeAll_of_reportAll hbefore).2
      rw [List.foldlM_cons, bind_eq_ok] at hlast
      obtain ⟨after, hafter, hlast⟩ := hlast
      obtain rfl := pure_eq_ok.mp hlast
      unfold finishStep at hafter
      rw [finishCall_eq r.now r.usage hshows.admits] at hafter
      cases hmerge : mergeUsage before.usage (normalizeUsage r.usage) with
      | error e =>
          rw [hmerge] at hafter
          cases hafter
      | ok merged =>
          rw [hmerge] at hafter
          obtain rfl := Except.ok.inj hafter
          refine ⟨rfl, ?_⟩
          cases htime : before.finishedAt with
          | none => exact ⟨r.now, rfl⟩
          | some time => exact ⟨time, rfl⟩

/-! ## Once more -/

theorem usage_ext {s s' : Usage} (htokens : s.tokens = s'.tokens)
    (hinvalid : s.invalid = true ↔ s'.invalid = true) : s = s' := by
  obtain ⟨tokens, invalid⟩ := s
  obtain ⟨tokens', invalid'⟩ := s'
  obtain rfl : tokens = tokens' := htokens
  obtain rfl : invalid = invalid' := Bool.eq_iff_iff.mpr hinvalid
  rfl

theorem Summary.merge_self {us : List Usage} {s u : Usage} (h : Summary us s) (hu : u ∈ us) :
    mergeUsage s u = .ok s := by
  have hcontains : ∀ f x, u.tokens f = some x → s.tokens f = some x :=
    fun f x hx => h.contains f x ⟨u, hu, hx⟩
  have hor : ∀ f, (s.tokens f).or (u.tokens f) = s.tokens f := by
    intro f
    cases hs : s.tokens f with
    | some x => rfl
    | none =>
        cases hx : u.tokens f with
        | none => rfl
        | some x => exact absurd (hs.symm.trans (hcontains f x hx)) (by simp)
  have hother : ∀ f, f ≠ .totalTokens → (Ledger.combine s u).tokens f = s.tokens f := fun f hf =>
    (combine_tokens s u hf).trans (hor f)
  refine mergeUsage_eq_ok.mpr ⟨?_, (usage_ext ?_ ?_).symm⟩
  · rintro f ⟨x, y, hx, hy, hne⟩
    exact hne (Option.some.inj (hx.symm.trans (hcontains f y hy)))
  · funext f
    by_cases hf : f = .totalTokens
    · subst hf
      refine Option.ext fun t => ?_
      rw [combine_total, hor]
      refine or_iff_left ?_
      rintro ⟨hnone, i, o, hi, ho, -, hle⟩
      rw [hother .inputTokens (by decide)] at hi
      rw [hother .outputTokens (by decide)] at ho
      exact absurd (h.missing hnone.1 i o hi ho) (not_lt.mpr hle)
    · exact hother f hf
  · rw [combine_invalid]
    refine or_iff_left_of_imp ?_
    rintro (hinvalid | ⟨hnone, i, o, hi, ho, hlarge⟩)
    · exact h.invalid.mpr (.inl ⟨u, hu, hinvalid⟩)
    · rw [hother .inputTokens (by decide)] at hi
      rw [hother .outputTokens (by decide)] at ho
      refine h.invalid.mpr (.inr ⟨us, i, o, List.prefix_rfl, h.silent hnone.1, ?_, ?_, hlarge⟩)
      · exact h.reported _ (by decide) i hi
      · exact h.reported _ (by decide) o ho

theorem repeatable (started : Bool) (target : TerminalStatus) (reports : List Report) :
    Repeatable started target reports := by
  intro order hperm row hrow r hr now
  have hr' : r ∈ order := hperm.mem_iff.mpr hr
  obtain ⟨hmerged, hshows⟩ := mergeAll_of_reportAll hrow
  obtain ⟨hstatus, time, htime⟩ := finished_of_reportAll (List.ne_nil_of_mem hr') hrow
  have hself := (summary_of_mergeAll hmerged).merge_self
    (List.mem_map_of_mem (f := fun r : Report => normalizeUsage r.usage) hr')
  rw [finishCall_eq now r.usage hshows.admits, hself]
  obtain ⟨status, usage, quality, errorCode, finishedAt⟩ := row
  obtain rfl : status = .finished target := hstatus
  obtain rfl : finishedAt = some time := htime
  obtain rfl : quality = qualityOf usage := hshows.quality
  rfl

/-! ## Reported totals -/

theorem readTokens_le {value : Option Json} {n : ℕ} (h : (readTokens value).1 = some n) :
    n ≤ maxInt64 := by
  unfold readTokens at h
  split at h
  · cases h
  · cases h
  · split at h
    · rename_i hbound
      have heq := Option.some.inj h
      omega
    · cases h
  · cases h

theorem normalizeUsage_total_le {value : Json} {t : ℕ}
    (h : (normalizeUsage value).tokens .totalTokens = some t) : t ≤ maxInt64 := by
  unfold normalizeUsage at h
  split at h
  · cases h
  · rename_i fields
    simp only at h
    split at h
    · rename_i hmissing
      have hnone : (readTokens (usageAlias fields .totalTokens)).1 = none := by
        rw [Option.isNone_iff_eq_none.mp hmissing]
        rfl
      obtain ⟨i, o, -, -, rfl, hle⟩ := (deriveTotal_total _ hnone t).mp h
      exact hle
    · exact readTokens_le h
  · cases h

theorem usages_total_le (reports : List Report) (t : ℕ)
    (h : Knows .totalTokens t (usages reports)) : t ≤ maxInt64 := by
  obtain ⟨u, hu, ht⟩ := h
  obtain ⟨r, -, rfl⟩ := List.mem_map.mp hu
  exact normalizeUsage_total_le ht

/-! ## Orders of reports -/

/-- An order of the usages comes from an order of the reports. -/
theorem exists_order {reports : List Report} {us : List Usage} (h : us.Perm (usages reports)) :
    ∃ order, order.Perm reports ∧ usages order = us := by
  have hcomp : Relation.Comp (fun us order => us = usages order) List.Perm us reports := by
    unfold usages
    rw [List.eq_map_comp_perm]
    exact h
  obtain ⟨order, heq, hperm⟩ := hcomp
  exact ⟨order, hperm, heq.symm⟩

theorem orderIndependent_iff_independent {started : Bool} {target : TerminalStatus}
    {reports : List Report} :
    OrderIndependent started target reports ↔ Independent (usages reports) := by
  constructor
  · rintro (⟨outcome, hall⟩ | hnone)
    · refine .inl ⟨outcome, fun us hus => ?_⟩
      obtain ⟨order, hperm, rfl⟩ := exists_order hus
      obtain ⟨row, hrow, houtcome⟩ := hall order hperm
      obtain ⟨hmerged, hshows⟩ := mergeAll_of_reportAll hrow
      exact ⟨row.usage, hmerged, hshows.quality ▸ houtcome⟩
    · refine .inr fun us hus => ?_
      obtain ⟨order, hperm, rfl⟩ := exists_order hus
      obtain ⟨message, hmessage⟩ := hnone order hperm
      refine mergeAll_error ?_
      rintro ⟨s, hs⟩
      obtain ⟨row, hrow, -⟩ := @reportAll_ok started target order s hs
      rw [hmessage] at hrow
      cases hrow
  · rintro (⟨outcome, hall⟩ | hnone)
    · refine .inl ⟨outcome, fun order hperm => ?_⟩
      obtain ⟨s, hs, houtcome⟩ := hall _ (hperm.map _)
      obtain ⟨row, hrow, rfl, hshows⟩ := @reportAll_ok started target order s hs
      exact ⟨row, hrow, hshows.quality ▸ houtcome⟩
    · refine .inr fun order hperm => ?_
      obtain ⟨message, hmessage⟩ := hnone _ (hperm.map _)
      exact ⟨message, reportAll_error hmessage⟩

/-- The order of the reports of a call does not matter, and repeating one changes nothing, exactly
when no field is reported with two values and yet a total is contested. -/
theorem finishCall_order_iff (started : Bool) (target : TerminalStatus) (reports : List Report) :
    OrderIndependent started target reports ∧ Repeatable started target reports ↔
      ¬ (Agreeing (usages reports) ∧ Contested (usages reports)) := by
  rw [and_iff_left (repeatable started target reports), orderIndependent_iff_independent]
  exact independent_iff (usages_total_le reports)

/-! ## A contested total -/

def inputReport : Report := ⟨.obj [("input_tokens", .num 1)], "t1"⟩

def outputReport : Report := ⟨.obj [("output_tokens", .num 2)], "t2"⟩

def totalReport : Report := ⟨.obj [("total_tokens", .num 5)], "t3"⟩

/-- The total is accepted when it comes first, and rejected when it comes last. -/
theorem total_contested :
    ¬ (OrderIndependent true .succeeded [inputReport, outputReport, totalReport] ∧
      Repeatable true .succeeded [inputReport, outputReport, totalReport]) := by
  rintro ⟨hindependent, -⟩
  have hlast : (reportAll true .succeeded
      [inputReport, outputReport, totalReport]).toOption.isSome = false := by decide +kernel
  have hfirst : (reportAll true .succeeded
      [totalReport, inputReport, outputReport]).toOption.isSome = true := by decide +kernel
  have hperm : [totalReport, inputReport, outputReport].Perm
      [inputReport, outputReport, totalReport] :=
    (List.Perm.swap _ _ _).trans ((List.Perm.swap _ _ _).cons _)
  rcases hindependent with ⟨outcome, hall⟩ | hnone
  · obtain ⟨row, hrow, -⟩ := hall _ (List.Perm.refl _)
    rw [hrow] at hlast
    cases hlast
  · obtain ⟨message, hmessage⟩ := hnone _ hperm
    rw [hmessage] at hfirst
    cases hfirst

end LogRisk.Ledger
