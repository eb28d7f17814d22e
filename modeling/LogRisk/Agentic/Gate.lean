import LogRisk.Agentic.System
import LogRisk.Library.History

/-!
# The evaluator gate

A tool that writes candidates is executed only with a feature whose fingerprint an
earlier `evaluate_candidate` of the same run has passed, under the same evidence and
evaluator version.  The executions rebuild what has passed from the artifacts, so the
artifacts are certified along with the log.
-/

namespace LogRisk.Agentic

open LogRisk.Library Program LogRisk.Agentic.Runtime

variable {V α β : Type} (rt : Runtime V)

/-- An evaluation of a feature with this fingerprint has passed. -/
def EvaluationPassed (log : List (Dispatch V)) (fingerprint evidenceHash : String) : Prop :=
  ∃ stepId feature output,
    .tool stepId "evaluate_candidate" ⟨some feature⟩ evidenceHash (.ok output) ∈ log ∧
    rt.canonicalFingerprint feature = fingerprint ∧ output.passed = true ∧
    output.fingerprint = some fingerprint ∧ output.evidenceHash = some evidenceHash ∧
    output.evaluatorVersion = some evaluatorVersion

/-- What must have happened before an entry of the log. -/
def Gated (before : List (Dispatch V)) : Dispatch V → Prop
  | .tool _ toolName arguments evidenceHash _ =>
      ∀ tool, rt.tools.get toolName = some tool → tool.writesCandidate = true →
        ∃ feature, arguments.feature = some feature ∧
          EvaluationPassed rt before (rt.canonicalFingerprint feature) evidenceHash
  | _ => True

/-- An artifact from which a passed evaluation is rebuilt has one in the log. -/
def Certified (log : List (Dispatch V)) (a : ArtifactRow V) : Prop :=
  a.type = .evaluation → ∀ evidenceHash fingerprint,
    rt.evaluationFingerprint a.payload evidenceHash = some fingerprint →
    a.fingerprint = some fingerprint → EvaluationPassed rt log fingerprint evidenceHash

structure GateInv (w : World V) : Prop where
  log : Preceded (Gated rt) w.log
  artifacts : ∀ a ∈ w.db.artifacts, Certified rt w.log a

/-- What an action of any caller guarantees. -/
def gateGuar : (a : Action V) → World V → Except Exn a.Answer → World V → Prop
  | .execute stepId toolName arguments evidenceHash, w, _, _ =>
      ∀ result, Gated rt w.log (.tool stepId toolName arguments evidenceHash result)
  | .addArtifact a _, w, _, _ => Certified rt w.log a
  | _, _, _, _ => True

def gateContract : Contract Caller (Action V) Action.Answer Exn Unit (World V) where
  inv := GateInv rt
  beside _ _ := True
  rely _ w w' := w.log <+: w'.log
  guar _ := gateGuar rt
  good _ _ _ := True
  bad _ _ _ := True

variable {rt}

/-! ## Logs that grow -/

theorem EvaluationPassed.mono {log log' : List (Dispatch V)} (hlog : log <+: log')
    {fingerprint evidenceHash : String} (h : EvaluationPassed rt log fingerprint evidenceHash) :
    EvaluationPassed rt log' fingerprint evidenceHash := by
  obtain ⟨stepId, feature, output, hmem, hrest⟩ := h
  exact ⟨stepId, feature, output, hlog.subset hmem, hrest⟩

theorem Certified.mono {log log' : List (Dispatch V)} (hlog : log <+: log') {a : ArtifactRow V}
    (h : Certified rt log a) : Certified rt log' a :=
  fun htype evidenceHash fingerprint hfp ha => (h htype evidenceHash fingerprint hfp ha).mono hlog

theorem Gated.mono {log log' : List (Dispatch V)} (hlog : log <+: log') {d : Dispatch V}
    (h : Gated rt log d) : Gated rt log' d := by
  cases d with
  | tool stepId toolName arguments evidenceHash result =>
      intro tool htool hwrites
      obtain ⟨feature, hfeature, hpassed⟩ := h tool htool hwrites
      exact ⟨feature, hfeature, hpassed.mono hlog⟩
  | reserved _ => trivial
  | plan _ => trivial

/-! ## The actions keep the invariant -/

/-- Only `add_artifact` adds artifacts. -/
theorem Commits.artifacts {a : Action V} {db db' : RunDb V} (h : Commits a db db')
    {x : ArtifactRow V} (hx : x ∈ db'.artifacts) :
    x ∈ db.artifacts ∨ ∃ precondition, a = .addArtifact x precondition := by
  cases h with
  | transition h =>
      rcases RunDb.transition_ok h with rfl | ⟨_, rfl⟩
      · exact .inl hx
      · exact .inl hx
  | reserve h =>
      obtain ⟨_, _, rfl⟩ := RunDb.reserveModelPlanning_ok h
      exact .inl hx
  | addContextStep h =>
      obtain ⟨_, _, _, rfl⟩ := RunDb.addContextStep_ok h
      exact .inl hx
  | replacePlan h =>
      obtain ⟨_, rfl, _⟩ := RunDb.replacePlan_ok h
      exact .inl (List.mem_filter.mp hx).1
  | appendEvent => exact .inl hx
  | startStep h =>
      obtain ⟨_, rfl⟩ := RunDb.updateStep_ok h
      exact .inl hx
  | finishStep h =>
      obtain ⟨_, rfl⟩ := RunDb.updateStep_ok h
      exact .inl hx
  | recordToolCall h =>
      rcases RunDb.recordToolCall_ok h with rfl | ⟨_, rfl⟩
      · exact .inl hx
      · exact .inl hx
  | @addArtifact _ _ a p h =>
      rw [RunDb.addArtifact_ok h] at hx
      rcases List.mem_append.mp hx with hx | hx
      · exact .inl hx
      · exact .inr ⟨p, by rw [List.mem_singleton.mp hx]⟩
  | recoverRun h =>
      obtain ⟨_, rfl⟩ := RunDb.recoverRun_ok h
      left
      rcases db.blockUncertainPlanning_cases with hblock | hblock
      · rw [hblock] at hx
        split at hx <;> exact hx
      · rw [hblock] at hx
        split at hx <;> exact hx
  | recoverActiveRuns =>
      left
      unfold RunDb.recoverActiveRuns at hx
      split at hx
      · split at hx
        · rcases db.blockUncertainPlanning_cases with hblock | hblock
          · rw [hblock] at hx
            exact hx
          · rw [hblock] at hx
            exact hx
        · exact hx
      · exact hx

theorem GateInv.perform {k : Caller} {a : Action V} {w w' : World V} {r : Except Exn a.Answer}
    (hw : GateInv rt w) (h : perform k a w r w') (hguar : gateGuar rt a w r w') :
    GateInv rt w' := by
  have hlog := log_extended h
  refine ⟨?_, fun x hx => ?_⟩
  · rcases perform_log h with hsame | ⟨d, hd, hlog⟩
    · rw [hsame]
      exact hw.log
    · rw [hlog]
      refine hw.log.append ?_
      cases a <;> cases d <;> simp only [Action.Records] at hd
      · trivial
      · trivial
      · obtain ⟨rfl, rfl, rfl, rfl⟩ := hd
        exact hguar _
  · rcases perform_db h with hdb | hcommit
    · exact (hw.artifacts x (by rw [← hdb]; exact hx)).mono hlog
    · rcases hcommit.artifacts hx with hold | ⟨precondition, rfl⟩
      · exact (hw.artifacts x hold).mono hlog
      · exact Certified.mono hlog hguar

/-! ## Parts that touch neither the tools that write nor the evaluations -/

/-- The actions that need no evaluation. -/
def Ungated (rt : Runtime V) : Action V → Prop
  | .execute _ toolName _ _ => ∀ tool, rt.tools.get toolName = some tool → tool.writesCandidate = false
  | .addArtifact a _ => a.type ≠ .evaluation
  | _ => True

theorem ungated_reading : Reading (Ungated rt) where
  getRun := trivial
  monotonic := trivial
  parentStatus := trivial
  currentEvidenceHash := trivial
  check _ := trivial
  transition _ _ _ _ := trivial
  startStep _ := trivial
  failStep _ := trivial
  appendEvent _ := trivial
  addArtifact _ _ h := h
  addContextStep _ := trivial
  completeStep _ := trivial
  recordToolCall _ := trivial
  execute _ toolName _ _ h := rt.tools.readOnly toolName h

theorem ungated_quiet (rt : Runtime V) : Quiet (Ungated rt) := ungated_reading.toQuiet

theorem Ungated.guar {a : Action V} (h : Ungated rt a) {w w' : World V}
    {r : Except Exn a.Answer} : gateGuar rt a w r w' := by
  cases a <;> try exact trivial
  · exact fun htype => absurd htype h
  · intro result tool htool hwrites
    rw [h tool htool] at hwrites
    cases hwrites

/-- What a program of the run upholds. -/
abbrev Gates (rt : Runtime V) (k : Caller) (good : α → World V → Prop)
    (bad : Exn → World V → Prop) (p : Exec V α) (w : World V) : Prop :=
  p.Upholds (fun w w' : World V => w.log <+: w'.log)
    (fun a w r w' => GateInv rt w ∧ True ∧ perform k a w r w') (gateGuar rt) good bad w

def anyhow {α : Type} (_ : α) (_ : World V) : Prop := True

variable {k : Caller} {w : World V}

theorem gates_refl (w : World V) : w.log <+: w.log := List.prefix_refl _

theorem gates_bind {p : Exec V α} {f : α → Exec V β} {mid : α → World V → Prop}
    {good : β → World V → Prop} (hp : Gates rt k mid anyhow p w)
    (hf : ∀ x t, w.log <+: t.log → mid x t → Gates rt k good anyhow (f x) t) :
    Gates rt k good anyhow (p >>= f) w := by
  have hframe := Upholds.frame (fun t : World V => w.log <+: t.log)
    (fun _ _ _ _ h => log_extended h.2.2) (fun _ _ h hs => hs.trans h) hp (List.prefix_refl _)
  exact Upholds.bind gates_refl (hframe.mono (fun x t h => hf x t h.2 h.1) fun _ _ h => h.1)

theorem ungated_gates {p : Exec V α} (hp : p.Uses (Ungated rt)) :
    Gates rt k anyhow anyhow p w :=
  hp.upholds (fun _ _ _ h => h) (fun _ _ _ _ ha _ _ => ⟨ha.guar, trivial⟩) trivial

/-- A part that needs no evaluation, and what follows it. -/
theorem ungated_bind {p : Exec V α} {f : α → Exec V β} {good : β → World V → Prop}
    (hp : p.Uses (Ungated rt))
    (hf : ∀ x t, w.log <+: t.log → Gates rt k good anyhow (f x) t) :
    Gates rt k good anyhow (p >>= f) w :=
  gates_bind (ungated_gates hp) fun x t ht _ => hf x t ht

theorem gates_pure {x : α} {good : α → World V → Prop} (h : ∀ t, w.log <+: t.log → good x t) :
    Gates rt k good anyhow (pure x) w := upholds_pure h

theorem gates_throw {e : Exn} {good : α → World V → Prop} :
    Gates rt k good anyhow (throw e) w := upholds_throw fun _ _ => trivial

/-! ## Steps -/

/-- The tool of a step may be executed. -/
def Admitted (rt : Runtime V) (evidenceHash : String) (step : StepRow V) (w : World V) : Prop :=
  ∀ result, Gated rt w.log (.tool step.stepId step.toolName step.arguments evidenceHash result)

/-- The tool of a step has returned. -/
def Obtained (evidenceHash : String) (step : StepRow V) (output : Output V) (w : World V) : Prop :=
  .tool step.stepId step.toolName step.arguments evidenceHash (.ok output) ∈ w.log

/-- Every fingerprint that an execution has noted as passed is one. -/
def Known (rt : Runtime V) (evidenceHash : String) (passed : List String) (w : World V) : Prop :=
  ∀ fingerprint ∈ passed, EvaluationPassed rt w.log fingerprint evidenceHash

variable {evidenceHash : String} {step : StepRow V} {allowedTools : List String} {started : ℤ}

theorem Admitted.stable (w w' : World V) (hlog : w.log <+: w'.log)
    (h : Admitted rt evidenceHash step w) : Admitted rt evidenceHash step w' :=
  fun result => (h result).mono hlog

theorem Known.stable {passed : List String} (w w' : World V) (hlog : w.log <+: w'.log)
    (h : Known rt evidenceHash passed w) : Known rt evidenceHash passed w' :=
  fun fingerprint hmem => (h fingerprint hmem).mono hlog

theorem Obtained.stable {output : Output V} (w w' : World V) (hlog : w.log <+: w'.log)
    (h : Obtained evidenceHash step output w) : Obtained evidenceHash step output w' :=
  hlog.subset h

theorem gates_executeTool (h : Admitted rt evidenceHash step w) :
    Gates rt k (Obtained evidenceHash step) (fun _ => Admitted rt evidenceHash step)
      (rt.executeTool allowedTools step.stepId step.toolName step.arguments evidenceHash) w := by
  unfold Runtime.executeTool
  split
  · exact upholds_throw fun t ht => h.stable w t ht
  · split
    · exact upholds_throw fun t ht => h.stable w t ht
    · intro t ht r t' hr
      have hadmitted := h.stable w t ht
      have hrecorded : t'.log =
          t.log ++ [.tool step.stepId step.toolName step.arguments evidenceHash r] :=
        congrArg World.log hr.2.2
      refine ⟨hadmitted, ?_⟩
      cases r with
      | ok output =>
          intro u hu
          refine hu.subset ?_
          rw [hrecorded]
          exact List.mem_append_right _ List.mem_cons_self
      | error e =>
          intro u hu
          refine Admitted.stable t u (List.IsPrefix.trans ?_ hu) hadmitted
          rw [hrecorded]
          exact List.prefix_append _ _

/-- What both passes of the retry loop give. -/
abbrev Returned (evidenceHash : String) (step : StepRow V) (found : Output V × ℕ) (w : World V) :
    Prop :=
  Obtained evidenceHash step found.1 w

theorem gates_attemptTool {tool : AgentTool} {attempt retryIndex : ℕ}
    {again : Exec V (Output V × ℕ)} (h : Admitted rt evidenceHash step w)
    (hagain : ∀ t, Admitted rt evidenceHash step t →
      Gates rt k (Returned evidenceHash step) anyhow again t) :
    Gates rt k (Returned evidenceHash step) anyhow
      (rt.attemptTool allowedTools evidenceHash started step tool attempt retryIndex again) w := by
  have hq := ungated_quiet rt
  have hfail : ∀ (code : Exn) (t : World V), Gates rt k (Returned evidenceHash step) anyhow
      (do
        Runtime.finishStep step.stepId .failed
        throw code) t :=
    fun code t => ungated_bind (hq.uses_finishStep trivial) fun _ _ _ => gates_throw
  unfold Runtime.attemptTool
  refine ungated_bind (uses_ask hq.getRun) fun latest t₁ h₁ => ?_
  split
  · exact hfail _ _
  refine ungated_bind (uses_isLate hq _ _ _) fun late t₂ h₂ => ?_
  split
  · exact hfail _ _
  refine ungated_bind (uses_ask hq.monotonic) fun _ t₃ h₃ => ?_
  refine ungated_bind (uses_ask (hq.appendEvent _)) fun _ t₄ h₄ => ?_
  have hadmitted := h.stable _ _ (((h₁.trans h₂).trans h₃).trans h₄)
  refine Upholds.tryCatch gates_refl ?_
  refine Upholds.bind gates_refl ((gates_executeTool hadmitted).mono ?_ ?_)
  · intro output t hout
    exact upholds_pure fun u hu => hout.stable t u hu
  · intro e t h
    refine ungated_bind (hq.uses_recordToolCall trivial) fun _ t₅ h₅ => ?_
    refine ungated_bind (uses_ask (hq.appendEvent _)) fun _ t₆ h₆ => ?_
    split
    · refine ungated_bind (uses_ask (hq.appendEvent _)) fun _ t₇ h₇ => ?_
      exact hagain t₇ (h.stable _ _ ((h₅.trans h₆).trans h₇))
    · exact hfail e _

/-- A noted fingerprint of a completed evaluation was passed by it. -/
theorem EvaluationPassed.of_output {output : Output V} {fingerprint hash : String}
    (htool : step.toolName = "evaluate_candidate")
    (hfeature : step.arguments.feature.map rt.canonicalFingerprint = some fingerprint)
    (heval : rt.evaluationFingerprint output evidenceHash = some fingerprint)
    (hhash : rt.evaluationFingerprint output hash = some fingerprint)
    (hout : Obtained evidenceHash step output w) :
    EvaluationPassed rt w.log fingerprint hash := by
  have hread : ∀ h, rt.evaluationFingerprint output h = some fingerprint →
      output.passed = true ∧ output.fingerprint = some fingerprint ∧
        output.evidenceHash = some h ∧ output.evaluatorVersion = some evaluatorVersion := by
    intro h heval
    unfold Runtime.evaluationFingerprint at heval
    split at heval
    · split at heval
      · rename_i found hpass
        rw [← Option.some.inj heval]
        exact hpass
      · cases heval
    · cases heval
  obtain ⟨hpass, hfp, hown, hversion⟩ := hread _ heval
  obtain ⟨_, _, hother, _⟩ := hread _ hhash
  have hsame : evidenceHash = hash := Option.some.inj (hown.symm.trans hother)
  subst hsame
  obtain ⟨feature, hsome, hcanon⟩ := Option.map_eq_some_iff.mp hfeature
  refine ⟨step.stepId, feature, output, ?_, hcanon, hpass, hfp, hown, hversion⟩
  have hargs : step.arguments = ⟨some feature⟩ := by
    cases hstep : step.arguments with
    | mk f =>
        rw [hstep] at hsome
        exact congrArg Arguments.mk hsome
  rw [← hargs, ← htool]
  exact hout

theorem gates_settle {tool : AgentTool} {output : Output V} {passed : List String}
    (hout : Obtained evidenceHash step output w) (hknown : Known rt evidenceHash passed w) :
    Gates rt k (Known rt evidenceHash) anyhow
      (rt.settle evidenceHash step tool output passed) w := by
  have hq := ungated_quiet rt
  have hplain : ∀ (a : ArtifactRow V), a.type ≠ .evaluation → ∀ t, Known rt evidenceHash passed t →
      Gates rt k (Known rt evidenceHash) anyhow (do
        addArtifact a
        return passed) t := fun a ha t hknown =>
    ungated_bind (uses_ask (hq.addArtifact a _ ha)) fun _ t' h =>
      gates_pure fun u hu => hknown.stable t u (h.trans hu)
  unfold Runtime.settle
  dsimp only
  split
  · -- the artifact carries a fingerprint only where the evaluation has passed for it
    rename_i htool
    refine upholds_call_bind fun t ht r t' hr => ?_
    have hlog := ht.trans (log_extended hr.2.2)
    have hpassed : ∀ hash fingerprint,
        rt.evaluationFingerprint output evidenceHash =
          step.arguments.feature.map rt.canonicalFingerprint →
        step.arguments.feature.map rt.canonicalFingerprint = some fingerprint →
        rt.evaluationFingerprint output hash = some fingerprint →
        EvaluationPassed rt w.log fingerprint hash := by
      intro hash fingerprint heval hfeature hhash
      exact EvaluationPassed.of_output htool hfeature (heval.trans hfeature) hhash hout
    refine ⟨?_, ?_⟩
    · intro _ hash fingerprint hhash hfp
      split at hfp
      · rename_i heval
        exact (hpassed hash fingerprint heval hfp hhash).mono ht
      · cases hfp
    · cases r with
      | error e => exact fun _ _ => trivial
      | ok x =>
          refine upholds_pure fun u hu => ?_
          split
          · rename_i heval
            intro fingerprint hmem
            rcases List.mem_append.mp hmem with hmem | hmem
            · have hfeature := Option.mem_toList.mp hmem
              exact (hpassed evidenceHash fingerprint heval hfeature
                (heval.trans hfeature)).mono (hlog.trans hu)
            · exact (hknown fingerprint hmem).mono (hlog.trans hu)
          · exact hknown.stable w u (hlog.trans hu)
  · split
    · exact hplain _ (by simp) w hknown
    · split
      · exact ungated_bind (uses_ask (hq.check _)) fun _ t h =>
          hplain _ (by simp) t (hknown.stable w t h)
      · exact gates_pure fun u hu => hknown.stable w u hu

theorem gates_performStep {current : RunDb V} {tool : AgentTool} {passed : List String}
    (hadmitted : Admitted rt evidenceHash step w) (hknown : Known rt evidenceHash passed w) :
    Gates rt k (Known rt evidenceHash) anyhow
      (rt.performStep allowedTools evidenceHash started current step tool passed) w := by
  have hq := ungated_quiet rt
  unfold Runtime.performStep
  refine ungated_bind (hq.uses_startStep _) fun row t₁ h₁ => ?_
  -- the second pass falls out of the loop only by raising
  refine gates_bind (gates_attemptTool (hadmitted.stable _ _ h₁) fun u hu =>
    gates_attemptTool hu fun _ _ => gates_throw) fun found t₂ h₂ hout => ?_
  refine ungated_bind (uses_ask hq.monotonic) fun now t₃ h₃ => ?_
  split
  · refine ungated_bind (hq.uses_recordToolCall trivial) fun _ _ _ => ?_
    refine ungated_bind (hq.uses_finishStep trivial) fun _ _ _ => ?_
    exact ungated_bind (uses_ask (hq.appendEvent _)) fun _ _ _ => gates_throw
  · refine ungated_bind (hq.uses_recordToolCall trivial) fun _ t₄ h₄ => ?_
    have hlog := (((h₁.trans h₂).trans h₃).trans h₄)
    refine gates_bind (gates_settle (hout.stable _ _ (h₃.trans h₄)) (hknown.stable _ _ hlog))
      fun passed t₅ _ hpassed => ?_
    refine ungated_bind (hq.uses_finishStep trivial) fun _ t₆ h₆ => ?_
    refine ungated_bind (uses_ask (hq.appendEvent _)) fun _ t₇ h₇ => ?_
    exact gates_pure fun u hu => hpassed.stable _ _ ((h₆.trans h₇).trans hu)

/-- The gate before a tool that writes a candidate. -/
theorem gates_executeStep {current : RunDb V} {passed : List String}
    (hknown : Known rt evidenceHash passed w) :
    Gates rt k (Known rt evidenceHash) anyhow
      (rt.executeStep allowedTools evidenceHash started current step passed) w := by
  have hq := ungated_quiet rt
  unfold Runtime.executeStep
  refine ungated_bind (uses_ask hq.monotonic) fun now t₁ h₁ => ?_
  split
  · exact gates_throw
  split
  · exact gates_throw
  rename_i tool htool
  split
  · exact gates_throw
  split
  · rename_i hwrites
    split
    · exact gates_throw
    · rename_i hopen
      obtain ⟨fingerprint, hfp, hmem⟩ := (Option.any_eq_true _ _).mp (not_not.mp hopen)
      obtain ⟨feature, hfeature, hcanon⟩ := Option.map_eq_some_iff.mp hfp
      refine ungated_bind (uses_ask hq.currentEvidenceHash) fun _ t₂ h₂ => ?_
      refine ungated_bind (uses_ask (hq.check _)) fun _ t₃ h₃ => ?_
      have hknown := hknown.stable _ _ ((h₁.trans h₂).trans h₃)
      refine gates_performStep (fun result _ _ _ => ⟨feature, hfeature, ?_⟩) hknown
      rw [hcanon]
      exact hknown fingerprint (of_decide_eq_true hmem)
  · rename_i hreads
    refine gates_performStep (fun result tool' htool' hwrites => ?_) (hknown.stable _ _ h₁)
    rw [htool] at htool'
    rw [← Option.some.inj htool'] at hwrites
    exact absurd hwrites hreads

theorem gates_executeSteps {steps : List (StepRow V)} {passed : List String}
    (hknown : Known rt evidenceHash passed w) :
    Gates rt k anyhow anyhow
      (rt.executeSteps allowedTools evidenceHash started steps passed) w := by
  have hq := ungated_quiet rt
  induction steps generalizing passed w with
  | nil => exact ungated_gates (hq.uses_transition (by decide) _ _)
  | cons step rest ih =>
      unfold Runtime.executeSteps
      refine ungated_bind (uses_ask hq.getRun) fun current t₁ h₁ => ?_
      split
      · exact gates_pure fun _ _ => trivial
      · split
        · exact ih (hknown.stable _ _ h₁)
        · refine gates_bind (gates_executeStep (hknown.stable _ _ h₁)) fun passed t₂ _ hpassed => ?_
          exact ih hpassed

/-! ## Executions -/

/-- The artifacts of a run as it was read. -/
def Read (rt : Runtime V) (run : RunDb V) (w : World V) : Prop :=
  ∀ a ∈ run.artifacts, Certified rt w.log a

theorem Read.stable {run : RunDb V} (w w' : World V) (hlog : w.log <+: w'.log)
    (h : Read rt run w) : Read rt run w' :=
  fun a ha => (h a ha).mono hlog

theorem gates_getRun : Gates rt k (Read rt) anyhow (getRun : Exec V (RunDb V)) w := by
  intro t ht r t' hr
  have hinv := hr.1
  obtain ⟨hr, hw⟩ : r = .ok t.db ∧ t' = t := hr.2.2
  subst hr hw
  exact ⟨trivial, fun u hu => Read.stable _ u hu hinv.artifacts⟩

theorem gates_transition {status : RunStatus} (hstatus : status ≠ .queued)
    {allowedFrom : List RunStatus} {errorCode : Option ErrorCode} :
    Gates rt k (Read rt) anyhow
      (Runtime.transition status allowedFrom errorCode none : Exec V (RunDb V)) w :=
  ungated_bind (uses_ask (ungated_reading.transition _ _ _ hstatus)) fun _ _ _ => gates_getRun

/-- What the artifacts show as passed has passed. -/
theorem Read.known {run : RunDb V} (h : Read rt run w) :
    Known rt evidenceHash (rt.passedEvaluations run.artifacts evidenceHash) w := by
  intro fingerprint hmem
  obtain ⟨a, ha, hsome⟩ := List.mem_filterMap.mp hmem
  split at hsome
  · cases hsome
  · rename_i htype
    split at hsome
    · rename_i found heval
      split at hsome
      · rename_i hfp
        rw [← Option.some.inj hsome]
        exact h a ha (not_not.mp (not_or.mp htype).1) evidenceHash found heval hfp
      · cases hsome
    · cases hsome

theorem gates_withOpinion {run : RunDb V} (hrun : Read rt run w) :
    Gates rt k (Read rt) anyhow (withOpinion run) w := by
  have hq := ungated_quiet rt
  have hreload : Gates rt k (Read rt) anyhow (reloaded run) w := by
    unfold reloaded
    split
    · exact gates_getRun
    · exact gates_pure fun t ht => hrun.stable w t ht
  unfold withOpinion
  refine gates_bind hreload fun run t₁ h₁ hrun => ?_
  split
  · exact gates_throw
  · exact ungated_bind (uses_ask (hq.check _)) fun _ t₂ h₂ =>
      gates_pure fun u hu => hrun.stable _ _ (h₂.trans hu)

theorem gates_executePlan {expert : Bool} {run : RunDb V} (hrun : Read rt run w) :
    Gates rt k anyhow anyhow (rt.executePlan expert run evidenceHash started) w := by
  have hopinion : Gates rt k (Read rt) anyhow (checkOpinion expert run) w := by
    unfold checkOpinion
    split
    · exact gates_withOpinion hrun
    · exact gates_pure fun t ht => hrun.stable w t ht
  unfold Runtime.executePlan
  refine gates_bind hopinion fun run t₁ _ hrun => ?_
  have hrunning : Gates rt k (Read rt) anyhow (enterRunning run) t₁ := by
    unfold enterRunning
    split
    · exact gates_transition (by decide)
    · exact gates_pure fun t ht => hrun.stable _ t ht
  exact gates_bind hrunning fun run t₂ _ hrun => gates_executeSteps hrun.known

theorem gates_replacePlan {plan : AgentPlan V} {preserveContext : Bool} :
    Gates rt k (Read rt) anyhow (Runtime.replacePlan plan preserveContext) w :=
  ungated_bind (uses_ask trivial) fun _ _ _ => gates_getRun

theorem gates_expertPlan {run : RunDb V} :
    Gates rt k (Read rt) anyhow (rt.expertPlan run evidenceHash started) w := by
  have hreads : Reading (Ungated rt) := ungated_reading
  have hq := hreads.toQuiet
  unfold Runtime.expertPlan
  refine ungated_bind (hreads.uses_expertContext rt _ _ _) fun _ _ _ => ?_
  refine ungated_bind (uses_ask (hq.check _)) fun _ _ _ => ?_
  refine ungated_bind (hq.uses_checkActive _) fun _ _ _ => ?_
  refine ungated_bind (uses_ask trivial) fun plan _ _ => ?_
  refine ungated_bind (hq.uses_checkActive _) fun _ _ _ => ?_
  refine ungated_bind (uses_ask hq.currentEvidenceHash) fun _ _ _ => ?_
  refine ungated_bind (uses_ask (hq.check _)) fun _ _ _ => ?_
  refine ungated_bind (uses_ask (hq.check _)) fun _ _ _ => ?_
  refine gates_bind gates_replacePlan fun run t₁ _ hrun => ?_
  refine ungated_bind (uses_ask (hq.addArtifact _ _ (by simp))) fun _ t₂ h₂ => ?_
  refine ungated_bind (uses_ask (hq.appendEvent _)) fun _ t₃ h₃ => ?_
  exact gates_pure fun u hu => hrun.stable _ _ ((h₂.trans h₃).trans hu)

theorem gates_plainPlan : Gates rt k (Read rt) anyhow (plainPlan : Exec V (RunDb V)) w := by
  have hq := ungated_quiet rt
  unfold plainPlan
  refine ungated_bind (uses_ask trivial) fun plan _ _ => ?_
  refine gates_bind gates_replacePlan fun run t₁ _ hrun => ?_
  refine ungated_bind (uses_ask (hq.appendEvent _)) fun _ t₂ h₂ => ?_
  exact gates_pure fun u hu => hrun.stable _ _ (h₂.trans hu)

theorem gates_planning {expert : Bool} {run : RunDb V} (hrun : Read rt run w) :
    Gates rt k (fun ready w => ∀ run, ready = some run → Read rt run w) anyhow
      (rt.planning expert run evidenceHash started) w := by
  have hsome : ∀ {p : Exec V (RunDb V)} {t : World V}, Gates rt k (Read rt) anyhow p t →
      Gates rt k (fun ready w => ∀ run, ready = some run → Read rt run w) anyhow
        (some <$> p) t := fun hp =>
    gates_bind hp fun run t _ hrun => gates_pure fun u hu _ h =>
      Option.some.inj h ▸ hrun.stable t u hu
  unfold Runtime.planning
  split
  · have henter : Gates rt k anyhow anyhow (enterPlanning run) w := by
      unfold enterPlanning
      split
      · exact ungated_gates ((ungated_quiet rt).uses_transition (by decide) _ _)
      · exact gates_pure fun _ _ => trivial
    refine gates_bind henter fun run t₁ _ _ => ?_
    split
    · refine ungated_bind (uses_ask trivial) fun reserved t₂ _ => ?_
      split
      · exact hsome gates_expertPlan
      · exact gates_pure fun _ _ _ h => by cases h
    · exact hsome gates_plainPlan
  · exact gates_pure fun t ht _ h => Option.some.inj h ▸ hrun.stable w t ht

theorem gates_executeBody {run : RunDb V} (hrun : Read rt run w) :
    Gates rt k anyhow anyhow (rt.executeBody run started) w := by
  have hq := ungated_quiet rt
  unfold Runtime.executeBody
  refine ungated_bind (uses_ask (hq.check _)) fun _ t₁ h₁ => ?_
  refine ungated_bind (uses_ask hq.currentEvidenceHash) fun current t₂ h₂ => ?_
  refine ungated_bind (uses_ask (hq.check _)) fun _ t₃ h₃ => ?_
  dsimp only
  split
  · exact gates_throw
  · refine gates_bind (gates_planning (hrun.stable _ _ ((h₁.trans h₂).trans h₃)))
      fun ready t₄ _ hready => ?_
    cases ready with
    | none => exact ungated_gates (uses_ask hq.getRun)
    | some run => exact gates_executePlan (hready run rfl)

theorem gates_execute : Gates rt k anyhow anyhow rt.execute w := by
  have hq := ungated_quiet rt
  unfold Runtime.execute
  refine gates_bind gates_getRun fun run t₁ _ hrun => ?_
  split
  · exact gates_pure fun _ _ => trivial
  · refine ungated_bind (uses_ask hq.monotonic) fun now t₂ h₂ => ?_
    exact Upholds.tryCatch gates_refl ((gates_executeBody (hrun.stable _ _ h₂)).mono
      (fun _ _ h => h) fun e t _ => ungated_gates (hq.uses_failureHandler e))

theorem gates_entry : Gates rt k anyhow anyhow (entry rt k) w := by
  cases k with
  | execute n => exact gates_bind gates_execute fun _ _ _ _ => gates_pure fun _ _ => trivial
  | resume key =>
      refine ungated_bind ?_ fun _ _ _ => gates_pure fun _ _ => trivial
      exact (uses_ask trivial).bind fun _ => (uses_ask trivial).bind fun _ => uses_ask trivial
  | pause key | cancel key | markDispatchFailed code | recoverRun =>
      refine ungated_bind ?_ fun _ _ _ => gates_pure fun _ _ => trivial
      exact (uses_ask trivial).bind fun _ => uses_ask trivial
  | recoverActiveRuns => exact ungated_gates (uses_ask trivial)

theorem gateContract_sound : (gateContract rt).Sound (freeSystem rt) where
  refl _ w := List.prefix_refl _
  trans _ _ _ _ h h' := h.trans h'
  start k ks w w' hinv h := by
    have hsame := start_same h
    refine ⟨⟨?_, ?_⟩, fun _ _ => ⟨trivial, trivial, ?_⟩, gates_entry⟩
    · rw [hsame.2]
      exact hinv.log
    · rw [hsame.1, hsame.2]
      exact hinv.artifacts
    · change w.log <+: w'.log
      rw [hsame.2]
  act k a w r w' hinv h hguar := ⟨hinv.perform h.2 hguar, fun _ _ => log_extended h.2⟩
  finish k r w next w' hinv h _ := by
    obtain ⟨rfl, rfl⟩ := h
    exact ⟨hinv, fun _ _ => List.prefix_refl _, fun _ h => by cases h⟩
  die gone w w' hinv h := by
    subst h
    exact ⟨hinv, fun _ _ => List.prefix_refl _⟩

theorem created_gateInv (request : AgentRunRequest) :
    GateInv rt ({ db := createRun request } : World V) :=
  ⟨preceded_nil, fun a ha => absurd ha List.not_mem_nil⟩

/-- Whenever a tool that writes candidates is executed, an evaluation of a feature with the
same fingerprint, under the same evidence and evaluator version, has passed before. -/
theorem candidate_evaluated (rt : Runtime V) (request : AgentRunRequest)
    (c : (freeSystem rt).Reachable (createdPool request)) :
    Preceded (Gated rt) c.val.state.log :=
  ((Contract.holds_idle (created_gateInv request)).reachable gateContract_sound c).inv.log

end LogRisk.Agentic
