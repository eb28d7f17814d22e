import LogRisk.Benchmark.Runs
import Mathlib.Data.List.Dedup

/-!
# Ended runs

Where no execution starts beside another and the row is written only as it was read, a
status that ends the run stays.  In any case a completed run has the results of its
cases, and one execution stays within its budget of model calls.
-/

namespace LogRisk.Benchmark

open LogRisk.Library Program

variable {B : Bench} {quiet : Bool} {k : Caller}

/-! ## Case ids -/

/-- The ids that the results of these cases are stored under. -/
def storedIds : List Case → ℕ → List String
  | [], _ => []
  | case :: rest, index => Text.strip (case.id index) :: storedIds rest (index + 1)

def Bench.ids (B : Bench) : List String := storedIds B.selected 1

theorem length_storedIds (cases : List Case) (index : ℕ) :
    (storedIds cases index).length = cases.length := by
  induction cases generalizing index with
  | nil => rfl
  | cons case rest ih => exact congrArg (· + 1) (ih (index + 1))

/-! ## The contract -/

/-- What the tables keep: results of the run's cases, all of them once it is completed. -/
structure Inv (B : Bench) (s : State) : Prop where
  results : ∀ id ∈ s.results.keys, id ∈ B.ids
  completed : s.row.status = .completed → ∀ id ∈ B.ids, id ∈ s.results.keys
  seen : ∀ k, s.seen k ≤ s.row.version

/-- What a caller relies on: every write has a new version, results stay; and of those
beside an execution only a cancellation writes the status. -/
structure Rely (quiet : Bool) (k : Caller) (s t : State) : Prop where
  seen : t.seen k = s.seen k
  version : s.row.version ≤ t.row.version
  status : t.row.version = s.row.version → t.row.status = s.row.status
  results : ∀ id ∈ s.results.keys, id ∈ t.results.keys
  alone : quiet = true → k.isWorker = true →
    t.row.status = s.row.status ∨ t.row.status = .cancelled

theorem Rely.refl (quiet : Bool) (k : Caller) (s : State) : Rely quiet k s s :=
  ⟨rfl, le_rfl, fun _ => rfl, fun _ h => h, fun _ _ => .inl rfl⟩

theorem Rely.trans {s t u : State} (h : Rely quiet k s t) (h' : Rely quiet k t u) :
    Rely quiet k s u := by
  refine ⟨h'.seen.trans h.seen, h.version.trans h'.version, fun hversion => ?_,
    fun id hid => h'.results id (h.results id hid), fun hquiet hworker => ?_⟩
  · have hst := h.version
    have htu := h'.version
    rw [h'.status (by omega), h.status (by omega)]
  · rcases h'.alone hquiet hworker with hsame | hcancelled
    · rw [hsame]
      exact h.alone hquiet hworker
    · exact .inr hcancelled

/-- What the actions of a caller guarantee. -/
def Guar (B : Bench) (quiet : Bool) (k : Caller) :
    (a : Act) → State → Except BenchmarkError (Ans a) → State → Prop
  | .addCaseResult caseId _, _, _, _ => caseId ∈ B.ids
  | .updateRun u, s, _, _ =>
      (u.status = .completed → ∀ id ∈ B.ids, id ∈ s.results.keys) ∧
        (quiet = true → s.row.status.terminal = false) ∧
        (k.isWorker = false → u.status = .cancelled)
  | _, _, _, _ => True

def contract (B : Bench) (quiet : Bool) : Contract Caller Act Ans BenchmarkError Unit State where
  inv := Inv B
  beside j k := j ≠ k ∧ (quiet = true → j.isWorker = true → k.isWorker = false)
  rely := Rely quiet
  guar := Guar B quiet
  good _ _ _ := True
  bad _ _ _ := True

/-- What an action leaves, given its guarantee. -/
theorem does_sound {a : Act} {s s' : State} {r : Except BenchmarkError (Ans a)} (hinv : Inv B s)
    (hdoes : does B k a s r s') (hguar : Guar B quiet k a s r s') :
    Inv B s' ∧ ∀ j, (contract B quiet).beside k j → Rely quiet j s s' := by
  have hfails : ∀ {α : Type} {r : Except BenchmarkError α}, Fails s r s' →
      Inv B s' ∧ ∀ j, (contract B quiet).beside k j → Rely quiet j s s' := by
    rintro α r ⟨-, rfl⟩
    exact ⟨hinv, fun j _ => .refl quiet j s'⟩
  cases a with
  | getRun =>
      obtain ⟨-, rfl⟩ | hfail := hdoes
      · refine ⟨⟨hinv.results, hinv.completed, fun j => ?_⟩, fun j hj => ?_⟩
        · by_cases heq : j = k
          · subst heq
            exact (Function.update_self j s.row.version s.seen).le
          · exact (Function.update_of_ne heq s.row.version s.seen).le.trans (hinv.seen j)
        · exact ⟨Function.update_of_ne hj.1.symm _ _, le_rfl, fun _ => rfl, fun _ h => h,
            fun _ _ => .inl rfl⟩
      · exact hfails hfail
  | getSuite =>
      obtain ⟨-, rfl⟩ | hfail := hdoes
      · exact ⟨hinv, fun j _ => .refl quiet j s'⟩
      · exact hfails hfail
  | updateRun u =>
      obtain ⟨-, -, rfl⟩ | hfail := hdoes
      · obtain ⟨hcompleted, -, hcancels⟩ := hguar
        refine ⟨⟨hinv.results, hcompleted, fun j => (hinv.seen j).trans (Nat.le_succ _)⟩,
          fun j hj => ⟨rfl, Nat.le_succ _, ?_, fun _ h => h, ?_⟩⟩
        · intro hversion
          exact absurd hversion (Nat.succ_ne_self _)
        · intro hquiet hworker
          cases hk : k.isWorker with
          | false => exact .inr (hcancels hk)
          | true => cases (hj.2 hquiet hk).symm.trans hworker
      · exact hfails hfail
  | addCaseResult caseId result =>
      obtain ⟨-, -, rfl⟩ | hfail := hdoes
      · refine ⟨⟨fun id hid => ?_, fun h id hid => ?_, hinv.seen⟩,
          fun j _ => ⟨rfl, le_rfl, fun _ => rfl, fun id hid => ?_, fun _ _ => .inl rfl⟩⟩
        · rcases Dict.mem_keys_alter.mp hid with hold | rfl
          · exact hinv.results id hold
          · exact hguar
        · exact Dict.mem_keys_alter.mpr (.inl (hinv.completed h id hid))
        · exact Dict.mem_keys_alter.mpr (.inl hid)
      · exact hfails hfail
  | extract case =>
      obtain ⟨-, rfl⟩ := hdoes
      exact ⟨hinv, fun j _ => .refl quiet j s'⟩

/-! ## What a program keeps -/

/-- A part of the program of a caller, under its contract. -/
def Keeps (B : Bench) (quiet : Bool) (k : Caller) {α : Type} (good : α → State → Prop)
    (bad : BenchmarkError → State → Prop) (p : Work α) (s : State) : Prop :=
  p.Upholds (Rely quiet k) (fun a s r s' => Inv B s ∧ (system B quiet).does k a s r s')
    (Guar B quiet k) good bad s

theorem Keeps.bind {α β : Type} {p : Work α} {f : α → Work β} {mid : α → State → Prop}
    {good : β → State → Prop} {bad : BenchmarkError → State → Prop} {s : State}
    (hp : Keeps B quiet k mid bad p s) (hf : ∀ x t, mid x t → Keeps B quiet k good bad (f x) t) :
    Keeps B quiet k good bad (p >>= f) s :=
  Upholds.bind (Rely.refl quiet k) (hp.mono hf fun _ _ h => h)

/-- No execution has completed or failed the run. -/
def Unended (quiet : Bool) (s : State) : Prop :=
  quiet = true → s.row.status ≠ .completed ∧ s.row.status ≠ .failed

/-- An execution at work: these results are stored. -/
structure Busy (quiet : Bool) (stored : List String) (s : State) : Prop where
  unended : Unended quiet s
  stored : ∀ id ∈ stored, id ∈ s.results.keys

/-- The status that was read, unless the row has been written since. -/
structure Read (k : Caller) (status : RunStatus) (s : State) : Prop where
  le : s.seen k ≤ s.row.version
  status : s.seen k = s.row.version → s.row.status = status

theorem Read.stable {status : RunStatus} {s t : State} (h : Read k status s)
    (ht : Rely quiet k s t) : Read k status t := by
  have hle := h.le
  have hseen := ht.seen
  have hversion := ht.version
  refine ⟨by omega, fun heq => ?_⟩
  rw [ht.status (by omega)]
  exact h.status (by omega)

variable {n : ℕ} {stored : List String} {s : State}

theorem Unended.stable {t : State} (h : Unended quiet s) (ht : Rely quiet (.worker n) s t) :
    Unended quiet t := by
  intro hquiet
  rcases ht.alone hquiet rfl with hsame | hcancelled
  · rw [hsame]
    exact h hquiet
  · rw [hcancelled]
    decide

theorem Busy.stable {t : State} (h : Busy quiet stored s) (ht : Rely quiet (.worker n) s t) :
    Busy quiet stored t :=
  ⟨h.unended.stable ht, fun id hid => ht.results id (h.stored id hid)⟩

/-! ## Actions of an execution -/

theorem does_error {a : Act} {e : BenchmarkError} {t' : State}
    (h : does B k a s (.error e) t') : t' = s := by
  cases a with
  | getRun =>
      obtain ⟨hok, -⟩ | hfail := h
      · cases hok
      · exact hfail.2
  | getSuite =>
      obtain ⟨hok, -⟩ | hfail := h
      · cases hok
      · exact hfail.2
  | updateRun u =>
      obtain ⟨-, hok, -⟩ | hfail := h
      · cases hok
      · exact hfail.2
  | addCaseResult caseId result =>
      obtain ⟨-, hok, -⟩ | hfail := h
      · cases hok
      · exact hfail.2
  | extract case =>
      obtain ⟨⟨answer, hok⟩, -⟩ := h
      cases hok

/-- An action of an execution, where what is known is stable. -/
theorem keeps_act {a : Act} {P : State → Prop} {good : Ans a → State → Prop}
    (hP : ∀ {s t}, P s → Rely quiet (.worker n) s t → P t)
    (hguar : ∀ t r t', P t → Inv B t → (system B quiet).does (.worker n) a t r t' →
      Guar B quiet (.worker n) a t r t')
    (hgood : ∀ t x t', P t → Inv B t → does B (.worker n) a t (.ok x) t' →
      ∀ u, Rely quiet (.worker n) t' u → good x u) (hs : P s) :
    Keeps B quiet (.worker n) good (fun _ => P) (Program.call a : Work (Ans a)) s := by
  intro t ht r t' hr
  have hPt := hP hs ht
  refine ⟨hguar t r t' hPt hr.1 hr.2, ?_⟩
  cases r with
  | ok x => exact hgood t x t' hPt hr.1 hr.2.1
  | error e =>
      intro u hu
      rw [does_error hr.2.1] at hu
      exact hP hPt hu

theorem keeps_getRun (h : Busy quiet stored s) :
    Keeps B quiet (.worker n)
      (fun row t => Busy quiet stored t ∧ Read (.worker n) row.status t)
      (fun _ => Busy quiet stored) getRun s := by
  refine keeps_act (fun h ht => h.stable ht) (fun _ _ _ _ _ _ => trivial) ?_ h
  intro t row t' hbusy hinv hdoes u hu
  obtain ⟨hrow, rfl⟩ | ⟨⟨e, he⟩, -⟩ := hdoes
  · obtain rfl := Except.ok.inj hrow
    have hread : Read (.worker n) t.row.status
        { t with seen := Function.update t.seen (.worker n) t.row.version } :=
      ⟨(Function.update_self (Caller.worker n) t.row.version t.seen).le, fun _ => rfl⟩
    have hbusy' : Busy quiet stored
        { t with seen := Function.update t.seen (.worker n) t.row.version } :=
      ⟨hbusy.unended, hbusy.stored⟩
    exact ⟨hbusy'.stable hu, hread.stable hu⟩
  · cases he

theorem keeps_extract {case : Case} (h : Busy quiet stored s) :
    Keeps B quiet (.worker n) (fun _ => Busy quiet stored) (fun _ => Busy quiet stored)
      (extract case) s := by
  refine keeps_act (fun h ht => h.stable ht) (fun _ _ _ _ _ _ => trivial) ?_ h
  intro t answer t' hbusy hinv hdoes u hu
  obtain ⟨-, rfl⟩ := hdoes
  exact hbusy.stable hu

theorem keeps_addCaseResult {caseId : String} {result : Evaluation} (hid : caseId ∈ B.ids)
    (h : Busy quiet stored s) :
    Keeps B quiet (.worker n) (fun _ => Busy quiet (caseId :: stored)) (fun _ => Busy quiet stored)
      (addCaseResult caseId result) s := by
  refine keeps_act (fun h ht => h.stable ht) (fun _ _ _ _ _ _ => hid) ?_ h
  intro t answer t' hbusy hinv hdoes u hu
  obtain ⟨-, -, rfl⟩ | ⟨⟨e, he⟩, -⟩ := hdoes
  · have hbusy' : Busy quiet (caseId :: stored)
        { t with results := t.results.set caseId result } := by
      refine ⟨hbusy.unended, fun id hmem => Dict.mem_keys_alter.mpr ?_⟩
      rcases List.mem_cons.mp hmem with rfl | hmem
      · exact .inr rfl
      · exact .inl (hbusy.stored id hmem)
    exact hbusy'.stable hu
  · cases he

/-- What was read may be written over: nothing has ended the run. -/
theorem not_terminal {status : RunStatus} {a : Act} {u : Update} (ha : a = .updateRun u)
    (hstatus : status ≠ .cancelled) (h : Unended quiet s) (hread : Read k status s)
    (hundisturbed : quiet = true → Undisturbed k a s) :
    quiet = true → s.row.status.terminal = false := by
  intro hquiet
  subst ha
  have hsame := hread.status (hundisturbed hquiet)
  obtain ⟨hcompleted, hfailed⟩ := h hquiet
  cases hrow : s.row.status with
  | pending => rfl
  | running => rfl
  | completed => exact absurd hrow hcompleted
  | failed => exact absurd hrow hfailed
  | cancelled => exact absurd (hsame.symm.trans hrow) hstatus

/-- An execution writes the status it has read. -/
theorem keeps_updateRun {status : RunStatus} {u : Update} {good : Unit → State → Prop}
    (hstatus : status ≠ .cancelled)
    (hcompleted : u.status = .completed → ∀ t, Busy quiet stored t → ∀ id ∈ B.ids, id ∈ t.results.keys)
    (hgood : ∀ t v, Busy quiet stored t → Rely quiet (.worker n) { t with row := t.row.update u } v →
      good () v)
    (h : Busy quiet stored s) (hread : Read (.worker n) status s) :
    Keeps B quiet (.worker n) good (fun _ => Busy quiet stored) (updateRun u) s := by
  have hstable : ∀ {s t : State}, Busy quiet stored s ∧ Read (.worker n) status s →
      Rely quiet (.worker n) s t → Busy quiet stored t ∧ Read (.worker n) status t :=
    fun h ht => ⟨h.1.stable ht, h.2.stable ht⟩
  refine (keeps_act hstable ?_ ?_ ⟨h, hread⟩).mono (fun _ _ h => h) fun _ _ h => h.1
  · rintro t r t' ⟨hbusy, hread⟩ - ⟨-, hundisturbed⟩
    exact ⟨fun hu => hcompleted hu t hbusy,
      not_terminal rfl hstatus hbusy.unended hread hundisturbed, (by intro hk; cases hk)⟩
  · rintro t ⟨⟩ t' ⟨hbusy, -⟩ - hdoes v hv
    obtain ⟨-, -, rfl⟩ | ⟨⟨e, he⟩, -⟩ := hdoes
    · exact hgood t v hbusy hv
    · cases he

/-! ## The programs -/

theorem keeps_pure {α : Type} {x : α} {P : State → Prop} {bad : BenchmarkError → State → Prop}
    (hP : ∀ {t}, Rely quiet k s t → P t) : Keeps B quiet k (fun _ => P) bad (pure x : Work α) s :=
  fun _ ht => hP ht

theorem keeps_attempts {case : Case} {remaining calls : ℕ} {error : Option String}
    (h : Busy quiet stored s) :
    Keeps B quiet (.worker n) (fun _ => Busy quiet stored) (fun _ => Busy quiet stored)
      (attempts B case remaining calls error) s := by
  induction remaining generalizing calls error s with
  | zero => exact keeps_pure fun ht => h.stable ht
  | succ remaining ih =>
      unfold attempts
      split
      · exact keeps_pure fun ht => h.stable ht
      · refine (keeps_extract h).bind fun answer t ht => ?_
        cases answer with
        | ok features => exact keeps_pure fun hu => ht.stable hu
        | error message => exact ih ht

theorem keeps_raised {α : Type} {result : Except BenchmarkError α} (h : Busy quiet stored s) :
    Keeps B quiet (.worker n) (fun _ => Busy quiet stored) (fun _ => Busy quiet stored)
      (raised result) s := by
  cases result with
  | ok x => exact fun t ht => h.stable ht
  | error e => exact fun t ht => h.stable ht

theorem keeps_reportProgress {index : ℕ} (h : Busy quiet stored s) :
    Keeps B quiet (.worker n) (fun _ => Busy quiet stored) (fun _ => Busy quiet stored)
      (reportProgress index) s := by
  unfold reportProgress
  refine (keeps_getRun h).bind fun row t ⟨hbusy, hread⟩ => ?_
  split
  · exact keeps_pure fun ht => hbusy.stable ht
  · rename_i hstatus
    refine keeps_updateRun hstatus (by intro hu; cases hu) ?_ hbusy hread
    intro u v hu hv
    have hrunning : Busy quiet stored
        { u with row := u.row.update { status := .running, progressCompleted := index } } :=
      ⟨fun _ => ⟨RunStatus.noConfusion, RunStatus.noConfusion⟩, hu.stored⟩
    exact hrunning.stable hv

/-- The ids of the cases from here on are ids of the run, and all others are stored. -/
structure Onward (B : Bench) (rest : List Case) (index : ℕ) (stored : List String) : Prop where
  ids : ∀ id ∈ storedIds rest index, id ∈ B.ids
  others : ∀ id ∈ B.ids, id ∈ stored ∨ id ∈ storedIds rest index

theorem Keeps.weaken_bad {α : Type} {good : α → State → Prop} {p : Work α}
    (hp : Keeps B quiet k good (fun _ => Busy quiet stored) p s) :
    Keeps B quiet k good (fun _ => Unended quiet) p s :=
  Upholds.mono (fun _ _ h => h) (fun _ _ h => h.unended) hp

/-- An execution that was not cancelled has stored the results of all cases. -/
theorem keeps_executeCases {rest : List Case} {index calls : ℕ} {results : List Evaluation}
    (honward : Onward B rest index stored) (h : Busy quiet stored s) :
    Keeps B quiet (.worker n)
      (fun execution t => Unended quiet t ∧
        (execution.cancelled = false → ∀ id ∈ B.ids, id ∈ t.results.keys))
      (fun _ => Unended quiet) (executeCases B rest index calls results) s := by
  induction rest generalizing index calls results stored s with
  | nil =>
      refine fun t ht => ⟨h.unended.stable ht, fun _ id hid => ?_⟩
      rcases honward.others id hid with hstored | hnil
      · exact (h.stable ht).stored id hstored
      · cases hnil
  | cons case rest ih =>
      unfold executeCases
      refine (keeps_getRun h).weaken_bad.bind fun row t ⟨hbusy, _⟩ => ?_
      split
      · exact fun u hu => ⟨hbusy.unended.stable hu, fun hc => Bool.noConfusion hc⟩
      refine (keeps_attempts hbusy).weaken_bad.bind fun tried t hbusy => ?_
      refine (keeps_raised hbusy).weaken_bad.bind fun evaluated t hbusy => ?_
      have hid : Text.strip (case.id index) ∈ B.ids := honward.ids _ List.mem_cons_self
      have hsaved : Keeps B quiet (.worker n)
          (fun _ => Busy quiet (Text.strip (case.id index) :: stored)) (fun _ => Unended quiet)
          (saveCase (case.id index) index evaluated) t := by
        unfold saveCase
        refine (keeps_addCaseResult hid hbusy).weaken_bad.bind fun _ u hu => ?_
        exact (keeps_reportProgress hu).weaken_bad
      refine hsaved.bind fun _ u hu => ih ⟨?_, ?_⟩ hu
      · exact fun id hmem => honward.ids id (List.mem_cons_of_mem _ hmem)
      · intro id hmem
        rcases honward.others id hmem with hstored | hmem
        · exact .inl (List.mem_cons_of_mem _ hstored)
        · rcases List.mem_cons.mp hmem with rfl | hmem
          · exact .inl List.mem_cons_self
          · exact .inr hmem

theorem keeps_complete {execution : Execution} (h : Unended quiet s)
    (hstored : execution.cancelled = false → ∀ id ∈ B.ids, id ∈ s.results.keys) :
    Keeps B quiet (.worker n) (fun _ _ => True) (fun _ => Unended quiet) (complete B execution) s := by
  unfold complete
  split
  · exact keeps_pure fun _ => trivial
  · rename_i hexecution
    have hbusy : Busy quiet B.ids s := ⟨h, hstored (Bool.not_eq_true _ ▸ hexecution)⟩
    refine (keeps_getRun hbusy).weaken_bad.bind fun row t ⟨hbusy, hread⟩ => ?_
    split
    · exact keeps_pure fun _ => trivial
    · rename_i hstatus
      refine (keeps_updateRun hstatus (fun _ t ht => ht.stored) ?_ hbusy hread).weaken_bad
      exact fun _ _ _ _ => trivial

theorem keeps_executeSuite (h : Busy quiet [] s) {status : RunStatus}
    (hread : Read (.worker n) status s) (hstatus : status ≠ .cancelled) :
    Keeps B quiet (.worker n) (fun _ _ => True) (fun _ => Unended quiet) (executeSuite B) s := by
  have hsuite : Keeps B quiet (.worker n)
      (fun _ t => Busy quiet [] t ∧ Read (.worker n) status t) (fun _ => Unended quiet) getSuite s := by
    refine Upholds.mono (fun _ _ h => h) (fun _ _ h => h.1.unended)
      (keeps_act (P := fun t => Busy quiet [] t ∧ Read (.worker n) status t)
        (fun h ht => ⟨h.1.stable ht, h.2.stable ht⟩) (fun _ _ _ _ _ _ => trivial) ?_ ⟨h, hread⟩)
    rintro t cases t' ⟨hbusy, hread⟩ - hdoes u hu
    obtain ⟨-, rfl⟩ | ⟨⟨e, he⟩, -⟩ := hdoes
    · exact ⟨hbusy.stable hu, hread.stable hu⟩
    · cases he
  unfold executeSuite
  refine hsuite.bind fun _ t ⟨hbusy, hread⟩ => ?_
  split
  · exact fun u hu => hbusy.unended.stable hu
  have hupdate : Keeps B quiet (.worker n) (fun _ => Busy quiet []) (fun _ => Busy quiet [])
      (updateRun { status := .running, progressCompleted := 0 }) t := by
    refine keeps_updateRun hstatus (fun hu => RunStatus.noConfusion hu) ?_ hbusy hread
    intro u v hu hv
    have hrunning : Busy quiet []
        { u with row := u.row.update { status := .running, progressCompleted := 0 } } :=
      ⟨fun _ => ⟨RunStatus.noConfusion, RunStatus.noConfusion⟩, hu.stored⟩
    exact hrunning.stable hv
  refine hupdate.weaken_bad.bind fun _ u hu => ?_
  refine (keeps_executeCases ⟨fun _ h => h, fun _ h => .inr h⟩ hu).bind fun execution v hv => ?_
  exact keeps_complete hv.1 hv.2

theorem keeps_recordFailure {e : BenchmarkError} (h : Unended quiet s) :
    Keeps B quiet (.worker n) (fun _ _ => True) (fun _ _ => True) (recordFailure e) s := by
  have hbusy : Busy quiet [] s := ⟨h, fun _ hid => absurd hid List.not_mem_nil⟩
  unfold recordFailure
  refine Upholds.mono (fun _ _ h => h) (fun _ _ _ => trivial)
    ((keeps_getRun hbusy).bind fun row t ⟨hbusy, hread⟩ => ?_)
  split
  · exact keeps_pure fun _ => trivial
  · rename_i hstatus
    exact keeps_updateRun hstatus (fun hu => RunStatus.noConfusion hu) (fun _ _ _ _ => trivial) hbusy hread

/-- What has just been read is known, and an open run has not been ended. -/
theorem keeps_firstRead {good : Unit → State → Prop} {bad : BenchmarkError → State → Prop}
    {f : RunRow → Work Unit}
    (hbad : ∀ e t, bad e t)
    (hf : ∀ row t, Read k row.status t → t.row.status = row.status → Keeps B quiet k good bad (f row) t) :
    Keeps B quiet k good bad (getRun >>= f) s := by
  refine upholds_call_bind fun t _ r t' hr => ⟨trivial, ?_⟩
  cases r with
  | error e => exact fun u _ => hbad e u
  | ok row =>
      obtain ⟨hrow, rfl⟩ | ⟨⟨e, he⟩, -⟩ := hr.2.1
      · obtain rfl := Except.ok.inj hrow
        exact hf _ _ ⟨(Function.update_self k t.row.version t.seen).le, fun _ => rfl⟩ rfl
      · cases he

theorem keeps_executeRun :
    Keeps B quiet (.worker n) (fun _ _ => True) (fun _ _ => True) (executeRun B) s := by
  unfold executeRun
  refine keeps_firstRead (fun _ _ => trivial) fun row t hread hrow => ?_
  split
  · exact keeps_pure fun _ => trivial
  · rename_i hopen
    have hstatus : row.status ≠ .completed ∧ row.status ≠ .failed ∧ row.status ≠ .cancelled := by
      revert hopen
      cases row.status <;> decide
    have hbusy : Busy quiet [] t := by
      refine ⟨fun _ => ?_, fun _ hid => absurd hid List.not_mem_nil⟩
      rw [hrow]
      exact ⟨hstatus.1, hstatus.2.1⟩
    exact Upholds.tryCatch (Rely.refl quiet _)
      ((keeps_executeSuite hbusy hread hstatus.2.2).mono (fun _ _ h => h)
        fun _ _ h => keeps_recordFailure h)

theorem keeps_cancelRun :
    Keeps B quiet (.canceller n) (fun _ _ => True) (fun _ _ => True) cancelRun s := by
  unfold cancelRun
  refine keeps_firstRead (fun _ _ => trivial) fun row t hread _ => ?_
  split
  · exact fun _ _ => trivial
  · rename_i hopen
    intro u hu r u' hr
    have hread := hread.stable hu
    refine ⟨⟨fun hc => RunStatus.noConfusion hc, fun hquiet => ?_, fun _ => rfl⟩, ?_⟩
    · rw [hread.status (hr.2.2 hquiet)]
      exact Bool.not_eq_true _ ▸ hopen
    · cases r <;> exact fun _ _ => trivial

theorem contract_sound (B : Bench) (quiet : Bool) : (contract B quiet).Sound (system B quiet) where
  refl := Rely.refl quiet
  trans _ _ _ _ h h' := h.trans h'
  start k ks s s' hinv hstart := by
    obtain ⟨hfresh, rfl, halone⟩ := hstart
    refine ⟨hinv, fun j hj => ⟨⟨?_, ?_⟩, ⟨?_, ?_⟩, Rely.refl quiet j s'⟩, ?_⟩
    · rintro rfl
      exact hfresh hj
    · intro hquiet hjworker
      cases hk : k.isWorker with
      | false => rfl
      | true => exact Bool.noConfusion ((halone hquiet hk j hj).symm.trans hjworker)
    · rintro rfl
      exact hfresh hj
    · exact fun hquiet hk => halone hquiet hk j hj
    · cases k with
      | worker n => exact keeps_executeRun
      | canceller n => exact keeps_cancelRun
  act k a s r s' hinv hdoes hguar := does_sound hinv hdoes.1 hguar
  finish k r s next s' hinv hfinish _ := by
    obtain ⟨rfl, rfl⟩ := hfinish
    exact ⟨hinv, fun j _ => Rely.refl quiet j s', (by intro p hp; cases hp)⟩
  die gone s s' hinv hdies := by
    obtain rfl : s' = s := hdies
    exact ⟨hinv, fun j _ => Rely.refl quiet j s'⟩

/-! ## The budget -/

/-- A part of an execution that keeps to what is left of the budget. -/
abbrev KeepsTo {α : Type} (good : α → ℕ → Prop) (p : Work α) (n : ℕ) : Prop :=
  p.Affords Act.isExtract good (fun _ _ => True) n

theorem KeepsTo.bind {α β : Type} {p : Work α} {f : α → Work β} {mid : α → ℕ → Prop}
    {good : β → ℕ → Prop} {n : ℕ} (hp : KeepsTo mid p n)
    (hf : ∀ x m, mid x m → KeepsTo good (f x) m) : KeepsTo good (p >>= f) n :=
  Affords.bind (hp.mono hf fun _ _ h => h)

theorem keepsTo_pure {α : Type} {good : α → ℕ → Prop} {x : α} {n : ℕ} (h : good x n) :
    KeepsTo good (pure x : Work α) n := by
  intro m hm
  rw [← hm]
  exact h

/-- An action that calls no model. -/
theorem keepsTo_act {a : Act} (ha : a.isExtract = false) (n : ℕ) :
    KeepsTo (fun _ m => m = n) (Program.call a : Work (Ans a)) n := by
  intro m hm r m' hr
  subst hm
  refine ⟨fun h => Bool.noConfusion (ha.symm.trans h), ?_⟩
  have hsame : m' = n := by
    rw [hr, ha]
    rfl
  cases r with
  | ok x => exact fun u hu => hu.symm.trans hsame
  | error e => exact fun _ _ => trivial

theorem keepsTo_extract (case : Case) (n : ℕ) :
    KeepsTo (fun _ m => m = n) (extract case) (n + 1) := by
  intro m hm r m' hr
  subst hm
  refine ⟨fun _ => Nat.succ_pos n, ?_⟩
  have hspent : m' = n := hr
  cases r with
  | ok x => exact fun u hu => hu.symm.trans hspent
  | error e => exact fun _ _ => trivial

theorem keepsTo_attempts (hreal : B.mode = .real) {case : Case} {remaining calls n : ℕ}
    {error : Option String} (h : calls + n = B.budgetUnits) :
    KeepsTo (fun tried m => tried.calls + m = B.budgetUnits) (attempts B case remaining calls error) n := by
  have hcounts : B.countsCalls = true := decide_eq_true hreal
  induction remaining generalizing calls error n with
  | zero => exact keepsTo_pure h
  | succ remaining ih =>
      unfold attempts
      split
      · exact keepsTo_pure h
      · rename_i hbudget
        rw [not_and] at hbudget
        obtain ⟨n, rfl⟩ : ∃ m, n = m + 1 := Nat.exists_eq_add_one.mpr (by have := hbudget hcounts; omega)
        have hcounted : B.counted calls + n = B.budgetUnits := by
          unfold Bench.counted
          rw [if_pos hcounts]
          omega
        refine (keepsTo_extract case n).bind fun answer m hm => ?_
        subst hm
        cases answer with
        | ok features => exact keepsTo_pure hcounted
        | error message => exact ih hcounted

theorem keepsTo_raised {α : Type} {result : Except BenchmarkError α} {n : ℕ} :
    KeepsTo (fun _ m => m = n) (raised result) n := by
  cases result with
  | ok x => exact keepsTo_pure rfl
  | error e => exact fun _ _ => trivial

theorem keepsTo_reportProgress {index n : ℕ} :
    KeepsTo (fun _ m => m = n) (reportProgress index) n := by
  unfold reportProgress
  refine (keepsTo_act rfl n).bind fun row m hm => ?_
  subst hm
  split
  · exact keepsTo_pure rfl
  · exact keepsTo_act rfl m

theorem keepsTo_executeCases (hreal : B.mode = .real) {rest : List Case} {index calls n : ℕ}
    {results : List Evaluation} (h : calls + n = B.budgetUnits) :
    KeepsTo (fun _ _ => True) (executeCases B rest index calls results) n := by
  induction rest generalizing index calls n results with
  | nil => exact keepsTo_pure trivial
  | cons case rest ih =>
      unfold executeCases
      refine (keepsTo_act rfl n).bind fun row m hm => ?_
      subst hm
      split
      · exact keepsTo_pure trivial
      refine (keepsTo_attempts hreal h).bind fun tried m hm => ?_
      refine keepsTo_raised.bind fun evaluated m' hm' => ?_
      subst hm'
      have hsaved : KeepsTo (fun _ m => m = m') (saveCase (case.id index) index evaluated) m' := by
        unfold saveCase
        refine (keepsTo_act rfl m').bind fun _ m hm => ?_
        subst hm
        exact keepsTo_reportProgress
      refine hsaved.bind fun _ m hm => ?_
      subst hm
      exact ih hm

/-- What calls no model is done with any budget. -/
theorem keepsTo_complete {execution : Execution} {n : ℕ} :
    KeepsTo (fun _ _ => True) (complete B execution) n := by
  unfold complete
  split
  · exact keepsTo_pure trivial
  refine (keepsTo_act rfl n).bind fun row m hm => ?_
  split
  · exact keepsTo_pure trivial
  · exact (keepsTo_act rfl m).mono (fun _ _ _ => trivial) fun _ _ h => h

theorem keepsTo_recordFailure {e : BenchmarkError} {n : ℕ} :
    KeepsTo (fun _ _ => True) (recordFailure e) n := by
  unfold recordFailure
  refine (keepsTo_act rfl n).bind fun row m hm => ?_
  split
  · exact keepsTo_pure trivial
  · exact (keepsTo_act rfl m).mono (fun _ _ _ => trivial) fun _ _ h => h

theorem keepsTo_executeRun (hreal : B.mode = .real) :
    KeepsTo (fun _ _ => True) (executeRun B) B.budgetUnits := by
  have hsuite : ∀ n, n = B.budgetUnits → KeepsTo (fun _ _ => True) (executeSuite B) n := by
    rintro n rfl
    unfold executeSuite
    refine (keepsTo_act rfl B.budgetUnits).bind fun _ m hm => ?_
    split
    · exact fun _ _ => trivial
    refine (keepsTo_act rfl m).bind fun _ m' hm' => ?_
    refine (keepsTo_executeCases hreal (by omega)).bind fun execution _ _ => ?_
    exact keepsTo_complete
  unfold executeRun
  refine (keepsTo_act rfl B.budgetUnits).bind fun row m hm => ?_
  split
  · exact keepsTo_pure trivial
  · exact Affords.tryCatch
      ((hsuite m hm).mono (fun _ _ h => h) fun _ _ _ => keepsTo_recordFailure)

/-! ## Every run -/

abbrev Runs (B : Bench) (quiet : Bool) : Pool Caller Act Ans BenchmarkError Unit State →
    Pool Caller Act Ans BenchmarkError Unit State → Prop := (system B quiet).Run

theorem holds_created (B : Bench) (quiet : Bool) :
    (contract B quiet).Holds (system B quiet) created :=
  Contract.holds_idle ⟨fun _ hid => absurd hid List.not_mem_nil,
    fun h => RunStatus.noConfusion h, fun _ => Nat.zero_le _⟩

/-- One step of a quiet system leaves a status that has ended the run. -/
theorem step_final {c c' : Pool Caller Act Ans BenchmarkError Unit State}
    (h : (contract B true).Holds (system B true) c) (hstep : (system B true).Step c c')
    (hterminal : c.state.row.status.terminal = true) :
    c'.state.row.status = c.state.row.status := by
  cases hstep with
  | start k hstart => rw [hstart.2.1]
  | @act s s' before after k a next r hdoes =>
      obtain ⟨hguar, -⟩ := h.guar (contract_sound B true) hdoes
      cases a with
      | getRun =>
          obtain ⟨-, rfl⟩ | ⟨-, rfl⟩ := hdoes.1 <;> rfl
      | getSuite =>
          obtain ⟨-, rfl⟩ | ⟨-, rfl⟩ := hdoes.1 <;> rfl
      | updateRun u => exact Bool.noConfusion ((hguar.2.1 rfl).symm.trans hterminal)
      | addCaseResult caseId result =>
          obtain ⟨-, -, rfl⟩ | ⟨-, rfl⟩ := hdoes.1 <;> rfl
      | extract case =>
          obtain ⟨-, rfl⟩ := hdoes.1
          rfl
  | leave hfinish => rw [hfinish.2]
  | again hfinish => cases hfinish.1
  | die gone hdies => rw [show _ = _ from hdies]

theorem run_final {c c' : Pool Caller Act Ans BenchmarkError Unit State}
    (h : (contract B true).Holds (system B true) c) (hrun : Runs B true c c')
    (hterminal : c.state.row.status.terminal = true) :
    c'.state.row.status = c.state.row.status := by
  induction hrun with
  | refl => rfl
  | tail hrun hstep ih =>
      have hmid := h.run (contract_sound B true) hrun
      rw [← ih]
      exact step_final hmid hstep (ih ▸ hterminal)

/-- In a quiet run a status that ends the run stays.  In every run a completed run has
stored the result of each of its cases, as many as there are cases where the cases have
ids of their own; and an execution in real mode performs no more model calls than its
budget allows. -/
theorem benchmark_runs (B : Bench) :
    (∀ c c', Runs B true created c → Runs B true c c' → c.state.row.status.terminal = true →
      c'.state.row.status = c.state.row.status) ∧
    (∀ c, Runs B false created c → c.state.row.status = .completed →
      (∀ id ∈ B.ids, id ∈ c.state.results.keys) ∧
        (c.state.results.keys.length = B.selected.length ↔ B.ids.Nodup)) ∧
    (B.mode = .real → ∀ acts, (executeRun B).Performs acts →
      acts.countP Act.isExtract ≤ B.budgetUnits) := by
  refine ⟨fun c c' hrun hrun' hterminal => ?_, fun c hrun hcompleted => ?_, fun hreal acts hacts => ?_⟩
  · exact run_final ((holds_created B true).run (contract_sound B true) hrun) hrun' hterminal
  · have hinv := ((holds_created B false).run (contract_sound B false) hrun).inv
    have hstored := hinv.completed hcompleted
    refine ⟨hstored, ?_⟩
    have hlength : B.ids.length = B.selected.length := length_storedIds B.selected 1
    have hperm : B.ids.dedup.Perm c.state.results.keys := by
      refine (List.perm_ext_iff_of_nodup (List.nodup_dedup _) c.state.results.nodup).mpr fun id => ?_
      rw [List.mem_dedup]
      exact ⟨hstored id, hinv.results id⟩
    rw [← hperm.length_eq, ← hlength]
    constructor
    · intro h
      rw [← (List.dedup_sublist B.ids).eq_of_length h]
      exact List.nodup_dedup B.ids
    · intro h
      rw [h.dedup]
  · exact (keepsTo_executeRun hreal).count_le hacts

/-! ## A cancellation that is written over -/

def oneCase : Bench where
  cases := [{}]
  mode := .fake
  caseLimit := 1
  retryCount := 0
  budgetUnits := 0
  hasRealExtractor := false
  evaluate _ _ _ := .ok ⟨true, true, true, true, none⟩
  normalizeCaseResults _ _ := ""

/-- The transactions where none fails; the extractor finds nothing. -/
def answered (B : Bench) (k : Caller) :
    (a : Act) → State → Except BenchmarkError (Ans a) × State
  | .getRun, s => (.ok s.row, { s with seen := Function.update s.seen k s.row.version })
  | .getSuite, s => (.ok B.cases, s)
  | .updateRun u, s =>
      if u.progressCompleted ≤ B.cases.length then (.ok (), { s with row := s.row.update u })
      else (.error progressInvalid, s)
  | .addCaseResult caseId result, s =>
      if caseId ≠ "" then (.ok (), { s with results := s.results.set caseId result })
      else (.error caseIdMissing, s)
  | .extract _, s => (.ok (.ok "[]"), s)

theorem does_answered (B : Bench) (k : Caller) (a : Act) (s : State) :
    (system B false).does k a s (answered B k a s).1 (answered B k a s).2 := by
  refine ⟨?_, (by intro h; cases h)⟩
  cases a with
  | getRun => exact .inl ⟨rfl, rfl⟩
  | getSuite => exact .inl ⟨rfl, rfl⟩
  | updateRun u =>
      by_cases hprogress : u.progressCompleted ≤ B.cases.length
      · simp only [answered, if_pos hprogress]
        exact .inl ⟨hprogress, rfl, rfl⟩
      · simp only [answered, if_neg hprogress]
        exact .inr ⟨⟨_, rfl⟩, rfl⟩
  | addCaseResult caseId result =>
      by_cases hid : caseId ≠ ""
      · simp only [answered, if_pos hid]
        exact .inl ⟨hid, rfl, rfl⟩
      · simp only [answered, if_neg hid]
        exact .inr ⟨⟨_, rfl⟩, rfl⟩
  | extract case => exact ⟨⟨_, rfl⟩, rfl⟩

/-- An execution and someone who cancels. -/
def both (B : Bench) : Pool Caller Act Ans BenchmarkError Unit State :=
  ⟨{}, [(.worker 0, executeRun B), (.canceller 0, cancelRun)]⟩

theorem run_both (B : Bench) : Runs B false created (both B) := by
  have hworker : (system B false).start (.worker 0) [] {} {} :=
    ⟨List.not_mem_nil, rfl, (by intro h; cases h)⟩
  have hcanceller : (system B false).start (.canceller 0) [.worker 0] {} {} :=
    ⟨by simp, rfl, (by intro h; cases h)⟩
  have hfirst : (system B false).Step ⟨{}, []⟩ ⟨{}, [] ++ [(.worker 0, executeRun B)]⟩ :=
    System.Step.start (Caller.worker 0) hworker
  have hsecond : (system B false).Step ⟨{}, [(.worker 0, executeRun B)]⟩
      ⟨{}, [(.worker 0, executeRun B)] ++ [(.canceller 0, cancelRun)]⟩ :=
    System.Step.start (Caller.canceller 0) hcanceller
  exact (Relation.ReflTransGen.single hfirst).tail hsecond

/-- The run is cancelled after the execution has read its status and before it writes
its progress. -/
theorem cancelled_run_resumes : ¬∀ (B : Bench) (c c' : Pool Caller Act Ans BenchmarkError Unit State),
    Runs B false created c → Runs B false c c' → c.state.row.status.terminal = true →
    c'.state.row.status = c.state.row.status := by
  intro h
  let cancelled := System.turns (answered oneCase) (both oneCase) [0, 0, 0, 0, 0, 0, 0, 1, 1]
  have hrun := System.run_turns (Y := system oneCase false) (does_answered oneCase) (both oneCase)
    [0, 0, 0, 0, 0, 0, 0, 1, 1]
  have hnext := System.run_turns (Y := system oneCase false) (does_answered oneCase) cancelled [0]
  have hterminal : cancelled.state.row.status.terminal = true := by decide +kernel
  have hsame := h oneCase cancelled _ ((run_both oneCase).trans hrun) hnext hterminal
  revert hsame
  decide +kernel

end LogRisk.Benchmark
