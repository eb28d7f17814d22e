import LogRisk.Semantic.Store
import LogRisk.Library.Transaction

/-!
# Which versions become active

Publishing compares the stored report with the content of the version.  Rolling back
compares nothing: it activates any stored version, also one that was never validated.
Where every rollback goes to the first version or to one that has passed, the active
version of each dictionary is the first one or had passed before it was activated.
-/

namespace LogRisk.Semantic

open LogRisk.Library LogRisk.Library.Transaction

variable (rt : Runtime) {s s' : Store} {id : String}

/-- The hash of the combined rules of a version. -/
def Runtime.contentHash (s : Store) (id : String) (version : ℤ) : Except Exn String :=
  match rt.builtin id with
  | none => .error "语义词典不存在"
  | some builtin => (rt.content s builtin id version).map (·.2.contentHash)

/-- A passing report of exactly the content that the version has. -/
structure Passes (s : Store) (id : String) (v : ℤ) (r : Report) : Prop where
  dictionaryId : r.dictionaryId = id
  version : r.version = v
  valid : r.valid = true
  contentHash : rt.contentHash s id v = .ok r.contentHash

/-- The last activation of a dictionary made the version active, and a passing report had been
recorded before it. -/
def ValidatedBefore (s : Store) (id : String) (version : ℤ) : Prop :=
  ∃ before e after, s.history = before ++ .activated e :: after ∧
    e.dictionaryId = id ∧ e.version = version ∧
    (∀ e', .activated e' ∈ after → e'.dictionaryId ≠ id) ∧
    ∃ r, .validated r ∈ before ∧ Passes rt s id version r

/-- The active version of every dictionary is the first one or had passed before. -/
def ActiveValidated (s : Store) : Prop :=
  ∀ id metadata, rt.items s id = some metadata →
    metadata.activeVersion = 1 ∨ ValidatedBefore rt s id metadata.activeVersion

/-- The version a rollback goes to is the first one or has passed. -/
def RollsBackToPassed (s : Store) : Call → Prop
  | .rollback id version _ => version = 1 ∨ ∃ r, .validated r ∈ s.history ∧ Passes rt s id version r
  | _ => True

structure Inv (s : Store) : Prop where
  stored : ∀ id metadata, rt.items s id = some metadata →
    (∀ v ∈ metadata.versions, v ≤ metadata.latestVersion) ∧ metadata.activeVersion ∈ metadata.versions
  reports : ∀ id version r, s.validations id version = some r →
    .validated r ∈ s.history ∧ r.dictionaryId = id ∧ r.version = version
  active : ActiveValidated rt s

variable {rt}

theorem contentHash_congr {version : ℤ}
    (h : s'.payloads id version = s.payloads id version) :
    rt.contentHash s' id version = rt.contentHash s id version := by
  unfold Runtime.contentHash Runtime.content Runtime.customRules
  rw [h]

theorem Passes.congr {version : ℤ} {r : Report} (h : Passes rt s id version r)
    (hsame : s'.payloads id version = s.payloads id version) : Passes rt s' id version r :=
  ⟨h.dictionaryId, h.version, h.valid, (contentHash_congr hsame).trans h.contentHash⟩

/-- The history grows by an entry that activates no version of the dictionary. -/
theorem ValidatedBefore.append {version : ℤ} {entries : List Entry}
    (h : ValidatedBefore rt s id version) (hhistory : s'.history = s.history ++ entries)
    (hother : ∀ e, .activated e ∈ entries → e.dictionaryId ≠ id)
    (hsame : s'.payloads id version = s.payloads id version) :
    ValidatedBefore rt s' id version := by
  obtain ⟨before, e, after, hlog, hid, hversion, hlast, r, hr, hpasses⟩ := h
  refine ⟨before, e, after ++ entries, ?_, hid, hversion, fun e' he' => ?_, r, hr,
    hpasses.congr hsame⟩
  · rw [hhistory, hlog, List.append_assoc, List.cons_append]
  · rcases List.mem_append.mp he' with he' | he'
    · exact hlast e' he'
    · exact hother e' he'

/-! ## Calls -/

/-- The items of a catalogue that was written with the default ones. -/
theorem items_of_catalog {f : String → Option Metadata} (s : Store) (id : String)
    (hcatalog : s'.catalog = some f) (hdefault : f id = none → rt.items s id = none) : rt.items s' id = f id := by
  unfold Runtime.items
  rw [hcatalog]
  cases hf : f id with
  | some metadata => simp [hf]
  | none =>
      have hitems := hdefault hf
      unfold Runtime.items at hitems
      cases hbuiltin : (rt.builtin id).isSome with
      | false => simp [hf]
      | true =>
          rw [hbuiltin] at hitems
          cases hfile : s.catalog.bind fun items => items id with
          | none => simp [hfile] at hitems
          | some metadata => simp [hfile] at hitems

theorem items_empty {metadata : Metadata} (h : rt.items {} id = some metadata) :
    (rt.builtin id).isSome ∧ metadata = {} := by
  change (if (rt.builtin id).isSome then some ({} : Metadata) else none) = _ at h
  split at h
  · rename_i hbuiltin
    exact ⟨hbuiltin, (Option.some.inj h).symm⟩
  · cases h

theorem snapshot_ok {version : ℤ} {snapshot : Snapshot}
    (h : rt.snapshot s id version = .ok snapshot) :
    ∃ metadata, rt.items s id = some metadata ∧ version ∈ metadata.versions ∧
      rt.contentHash s id version = .ok snapshot.dictionary.contentHash := by
  unfold Runtime.snapshot at h
  split at h
  · rename_i builtin metadata hbuiltin hitems
    split at h
    · cases h
    · rename_i hmem
      obtain ⟨content, hcontent, h⟩ := bind_eq_ok.mp h
      refine ⟨metadata, hitems, not_not.mp hmem, ?_⟩
      unfold Runtime.contentHash
      rw [hbuiltin]
      change (rt.content s builtin id version).map _ = _
      rw [hcontent, ← pure_eq_ok.mp h]
      rfl
  · cases h

/-- A draft continues the versions of its dictionary. -/
structure IsDraft (rt : Runtime) (s : Store) (id : String) (draft : Runtime.Draft) : Prop where
  metadata : rt.items s id = some draft.metadata
  version : draft.version = draft.metadata.latestVersion + 1

theorem candidateDraft_ok {customRules : Option (List Rule)} {draft : Runtime.Draft}
    (h : rt.candidateDraft s id customRules = .ok draft) : IsDraft rt s id draft := by
  unfold Runtime.candidateDraft at h
  split at h
  · rename_i builtin metadata hbuiltin hitems
    obtain ⟨custom, _, h⟩ := bind_eq_ok.mp h
    obtain ⟨dictionary, _, h⟩ := bind_eq_ok.mp h
    obtain rfl := pure_eq_ok.mp h
    exact ⟨hitems, rfl⟩
  · cases h

theorem versionDraft_ok {expected : ℤ} {customRules : List Rule} {draft : Runtime.Draft}
    (h : rt.versionDraft s id expected customRules = .ok draft) : IsDraft rt s id draft := by
  unfold Runtime.versionDraft at h
  split at h
  · rename_i builtin metadata hbuiltin hitems
    split at h
    · cases h
    split at h
    · cases h
    obtain ⟨dictionary, _, h⟩ := bind_eq_ok.mp h
    obtain rfl := pure_eq_ok.mp h
    exact ⟨hitems, rfl⟩
  · cases h

theorem activation_ok {version : ℤ} {payload : Confirmation} {action : ActivationKind}
    {snapshot : Snapshot} (h : rt.activation s id version payload action = .ok snapshot) :
    rt.snapshot s id version = .ok snapshot ∧ (action = .publish → ∃ validation,
      s.validations id version = some validation ∧ validation.valid = true ∧
        validation.contentHash = snapshot.dictionary.contentHash) := by
  unfold Runtime.activation at h
  split at h
  · cases h
  obtain ⟨snapshot', hsnapshot, h⟩ := bind_eq_ok.mp h
  split at h
  · split at h
    · cases h
    · rename_i validation hvalidation
      split at h
      · cases h
      · rename_i hpassed
        obtain rfl := pure_eq_ok.mp h
        simp only [not_or, not_not] at hpassed
        exact ⟨hsnapshot, fun _ => ⟨validation, hvalidation, hpassed.1, hpassed.2⟩⟩
  · rename_i haction
    obtain rfl := pure_eq_ok.mp h
    exact ⟨hsnapshot, fun hpublish => absurd hpublish haction⟩

namespace Inv

/-- A version of the catalogue keeps its rules when another one is written. -/
theorem payloads_withVersion (h : Inv rt s) {draft : Runtime.Draft}
    (hdraft : IsDraft rt s id draft) {id' : String} {metadata : Metadata} {version : ℤ}
    (hitems : rt.items s id' = some metadata) (hversion : version ∈ metadata.versions) :
    (rt.withVersion s id draft.metadata draft.version draft.custom).payloads id' version =
      s.payloads id' version := by
  refine if_neg fun hwritten => ?_
  obtain ⟨rfl, rfl⟩ := hwritten
  have hle := (h.stored _ _ hitems).1 _ hversion
  rw [Option.some.inj (hitems.symm.trans hdraft.metadata), hdraft.version] at hle
  omega

theorem withVersion (h : Inv rt s) {draft : Runtime.Draft} (hdraft : IsDraft rt s id draft) :
    Inv rt (rt.withVersion s id draft.metadata draft.version draft.custom) := by
  have hitems : ∀ id', rt.items (rt.withVersion s id draft.metadata draft.version draft.custom) id' =
      if id' = id then some { draft.metadata with
        latestVersion := draft.version, versions := draft.metadata.versions ++ [draft.version] }
      else rt.items s id' := by
    refine fun id' => items_of_catalog s id' (f := fun id' => if id' = id then _ else rt.items s id')
      rfl fun hnone => ?_
    split at hnone
    · cases hnone
    · exact hnone
  obtain ⟨hle, hmem⟩ := h.stored id draft.metadata hdraft.metadata
  refine ⟨fun id' metadata hmeta => ?_, h.reports, fun id' metadata hmeta => ?_⟩
  · rw [hitems] at hmeta
    split at hmeta
    · rw [← Option.some.inj hmeta]
      refine ⟨fun v hv => ?_, List.mem_append_left _ hmem⟩
      rcases List.mem_append.mp hv with hv | hv
      · have hv := hle v hv
        have hnext := hdraft.version
        change v ≤ draft.version
        omega
      · exact (List.mem_singleton.mp hv).le
    · exact h.stored id' metadata hmeta
  · rw [hitems] at hmeta
    split at hmeta
    · rename_i hid
      subst hid
      rw [← Option.some.inj hmeta]
      refine (h.active id' draft.metadata hdraft.metadata).imp_right fun hactive => ?_
      exact hactive.append (List.append_nil _).symm (fun _ hnil => absurd hnil List.not_mem_nil)
        (h.payloads_withVersion hdraft hdraft.metadata hmem)
    · refine (h.active id' metadata hmeta).imp_right fun hactive => ?_
      exact hactive.append (List.append_nil _).symm (fun _ hnil => absurd hnil List.not_mem_nil)
        (h.payloads_withVersion hdraft hmeta (h.stored id' metadata hmeta).2)

theorem save (h : Inv rt s) {draft : Except Exn Runtime.Draft}
    (hdraft : ∀ d, draft = .ok d → IsDraft rt s id d) : Inv rt (rt.save s id draft).2 := by
  cases draft with
  | error e => exact h
  | ok d => exact h.withVersion (hdraft d rfl)

theorem record (h : Inv rt s) (r : Report) : Inv rt (Runtime.record s r) where
  stored := h.stored
  reports id version r' hr' := by
    change (if id = r.dictionaryId ∧ version = r.version then some r else _) = some r' at hr'
    change Entry.validated r' ∈ s.history ++ [.validated r] ∧ _
    split at hr'
    · rename_i hsame
      rw [← Option.some.inj hr']
      exact ⟨by simp, hsame.1.symm, hsame.2.symm⟩
    · obtain ⟨hmem, hkey⟩ := h.reports id version r' hr'
      exact ⟨List.mem_append_left _ hmem, hkey⟩
  active id metadata hmeta := by
    refine (h.active id metadata hmeta).imp_right fun hactive => ?_
    exact hactive.append rfl (fun e he => by simp at he) rfl

theorem activated (h : Inv rt s) {e : Event} (hid : e.dictionaryId = id)
    {metadata : Metadata} (hmeta : rt.items s id = some metadata)
    (hmem : e.version ∈ metadata.versions)
    (hpassed : e.version = 1 ∨ ∃ r, .validated r ∈ s.history ∧ Passes rt s id e.version r) :
    Inv rt (rt.activated s id e) := by
  have hitems : ∀ id', rt.items (rt.activated s id e) id' =
      if id' = id then (rt.items s id).map fun metadata => { metadata with activeVersion := e.version }
      else rt.items s id' := by
    refine fun id' => items_of_catalog s id' (f := fun id' => if id' = id then _ else rt.items s id')
      rfl fun hnone => ?_
    split at hnone
    · rename_i hsame
      rw [hsame]
      exact Option.map_eq_none_iff.mp hnone
    · exact hnone
  refine ⟨fun id' metadata' hmeta' => ?_, fun id' version r hr => ?_, fun id' metadata' hmeta' => ?_⟩
  · rw [hitems, hmeta] at hmeta'
    split at hmeta'
    · rw [← Option.some.inj hmeta']
      exact ⟨(h.stored id metadata hmeta).1, hmem⟩
    · exact h.stored id' metadata' hmeta'
  · obtain ⟨hr, hkey⟩ := h.reports id' version r hr
    exact ⟨List.mem_append_left _ hr, hkey⟩
  · rw [hitems, hmeta] at hmeta'
    split at hmeta'
    · rename_i hsame
      rw [← Option.some.inj hmeta', hsame]
      refine hpassed.imp_right fun ⟨r, hr, hpasses⟩ => ?_
      exact ⟨s.history, e, [], rfl, hid, rfl, fun _ hnil => absurd hnil List.not_mem_nil, r, hr,
        hpasses.congr rfl⟩
    · rename_i hother
      refine (h.active id' metadata' hmeta').imp_right fun hactive => ?_
      refine hactive.append rfl (fun e' he' => ?_) rfl
      rw [List.mem_singleton, Entry.activated.injEq] at he'
      rw [he', hid]
      exact fun hsame => hother hsame.symm

theorem activate (h : Inv rt s) {version : ℤ} {payload : Confirmation} {action : ActivationKind}
    (hrollback : action = .rollback →
      version = 1 ∨ ∃ r, .validated r ∈ s.history ∧ Passes rt s id version r) :
    Inv rt (rt.activate s id version payload action).2 := by
  unfold Runtime.activate
  split
  · exact h
  · rename_i snapshot hok
    obtain ⟨hsnapshot, hpublish⟩ := activation_ok hok
    obtain ⟨metadata, hmeta, hmem, hhash⟩ := snapshot_ok hsnapshot
    refine h.activated rfl hmeta hmem ?_
    cases action with
    | rollback => exact hrollback rfl
    | publish =>
        obtain ⟨r, hr, hvalid, hcontent⟩ := hpublish rfl
        obtain ⟨hhistory, hid, hversion⟩ := h.reports id version r hr
        exact .inr ⟨r, hhistory, hid, hversion, hvalid, hcontent ▸ hhash⟩

theorem step (h : Inv rt s) {call : Call} (hcall : RollsBackToPassed rt s call) :
    Inv rt (rt.step s call) := by
  cases call with
  | createCandidate id customRules => exact h.save fun _ => candidateDraft_ok
  | saveVersion id expected customRules => exact h.save fun _ => versionDraft_ok
  | validateVersion id version =>
      change Inv rt (rt.validateVersion s id version).2
      unfold Runtime.validateVersion
      split
      · exact h
      · exact h.record _
  | publish id version payload => exact h.activate fun hpublish => by cases hpublish
  | rollback id version payload => exact h.activate fun _ => hcall

end Inv

theorem empty_inv (rt : Runtime) : Inv rt {} where
  stored id metadata hmeta := by
    obtain ⟨_, rfl⟩ := items_empty hmeta
    exact ⟨by simp, by simp⟩
  reports _ _ _ hr := by cases hr
  active id metadata hmeta := by
    obtain ⟨_, rfl⟩ := items_empty hmeta
    exact .inl rfl

/-! ## Runs -/

/-- The stores that calls lead to from the empty one. -/
abbrev Reachable (rt : Runtime) (permits : Store → Call → Prop) : Type :=
  { s : Store // Relation.ReflTransGen
    (fun s s' => ∃ call, permits s call ∧ s' = rt.step s call) {} s }

theorem reachable_inv (rt : Runtime) (s : Reachable rt (RollsBackToPassed rt)) : Inv rt s.val := by
  obtain ⟨s, hs⟩ := s
  induction hs with
  | refl => exact empty_inv rt
  | tail _ hstep ih =>
      obtain ⟨call, hcall, rfl⟩ := hstep
      exact ih.step hcall

/-- Where rollbacks go to the first version or to one that has passed, every active version is the
first one or had passed before it was activated. -/
theorem active_validated (rt : Runtime) (s : Reachable rt (RollsBackToPassed rt)) :
    ActiveValidated rt s.val :=
  (reachable_inv rt s).active

/-! ## A rollback to a version that was never validated -/

namespace Unvalidated

def host : Host where
  compile _ := .ok []
  search _ _ := none
  int _ := none
  digest _ := ""

def builtin : Dictionary where
  dictionaryId := "aa"
  name := "a"
  version := 1
  rules := []
  contentHash := ""

def runtime : Runtime := ⟨host, [builtin]⟩

def store : Store :=
  [Call.createCandidate "aa" none, .rollback "aa" 2 { confirmed := true }].foldl runtime.step {}

theorem store_active : runtime.items store "aa" =
    some { latestVersion := 2, activeVersion := 2, versions := [1, 2] } := by rfl

theorem store_history : store.history = [.activated
    { dictionaryId := "aa", version := 2, contentHash := "", action := .rollback,
      operator := "local-operator" }] := by rfl

end Unvalidated

theorem run_calls (rt : Runtime) (s : Store) (calls : List Call) : Relation.ReflTransGen
    (fun s s' => ∃ call, True ∧ s' = rt.step s call) s (calls.foldl rt.step s) := by
  induction calls generalizing s with
  | nil => exact .refl
  | cons call calls ih => exact .head ⟨call, trivial, rfl⟩ (ih (rt.step s call))

theorem unvalidated_active : ∃ s : Reachable Unvalidated.runtime fun _ _ => True,
    ¬ ActiveValidated Unvalidated.runtime s.val := by
  refine ⟨⟨Unvalidated.store, run_calls _ _ _⟩, fun h => ?_⟩
  rcases h "aa" _ Unvalidated.store_active with
    hone | ⟨before, e, after, hhistory, _, _, _, r, hr, _⟩
  · exact absurd hone (by decide)
  · rw [Unvalidated.store_history] at hhistory
    cases before with
    | nil => exact absurd hr List.not_mem_nil
    | cons entry before => simp at hhistory

end LogRisk.Semantic
