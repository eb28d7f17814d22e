import LogRisk.ServerRisk.Submission

/-!
# Every fact is stored once

Over any sequence of submissions the table of observations holds, under each fact and revision,
the first row that was accepted for it; a batch that was accepted has no effect when it comes
again; and one that contradicts what is stored, or itself, is refused as a whole.
-/

namespace LogRisk.ServerRisk

open LogRisk.Library LogRisk.Library.Text LogRisk.Library.Transaction

variable {ι α : Type} {H : SubmissionHost ι α} {T T' : SubmissionTables ι α} {call : Submission ι}

/-! ## Keys -/

theorem batch_ne_fact (a b : String) : "batch:" ++ a ≠ "fact:" ++ b := by
  intro h
  have hlist := congrArg String.toList h
  rw [String.toList_append, String.toList_append] at hlist
  cases hlist

/-- The first row with a key. -/
def firstRow (rows : List (StoredObservation ι)) (k : String × String) :
    Option (StoredObservation ι) := rows.find? fun row => row.key = k

theorem firstRow_append (rows rows' : List (StoredObservation ι)) (k : String × String) :
    firstRow (rows ++ rows') k = (firstRow rows k).or (firstRow rows' k) := List.find?_append

/-! ## One fact -/

/-- Facts are added and none is changed; receipts stay; each row that comes is stored, or one with
its digest is. -/
structure Stores (T T' : SubmissionTables ι α) (rows : List (StoredObservation ι)) : Prop where
  first : ∀ k, T'.observations.get? k = (T.observations.get? k).or (firstRow rows k)
  receipts : ∀ k, T'.projection.get? ("batch:" ++ k) = T.projection.get? ("batch:" ++ k)
  agrees : ∀ row ∈ rows, ∃ stored, T'.observations.get? row.key = some stored ∧
    stored.payloadDigest = row.payloadDigest

theorem Stores.nil (T : SubmissionTables ι α) : Stores T T [] :=
  ⟨fun _ => Option.or_none.symm, fun _ => rfl, fun _ h => absurd h List.not_mem_nil⟩

theorem storeFact_stores {now : String} {row : StoredObservation ι}
    (h : storeFact now T row = .ok T') : Stores T T' [row] := by
  unfold storeFact at h
  obtain ⟨observations, hobservations, h⟩ := bind_eq_ok.mp h
  obtain rfl := pure_eq_ok.mp h
  have hreceipts : ∀ k, (T.projection.set ("fact:" ++ row.sourceFactKey)
      (factState now T row)).get? ("batch:" ++ k) = T.projection.get? ("batch:" ++ k) := by
    intro k
    rw [Dict.get?_set, if_neg (batch_ne_fact k row.sourceFactKey).symm]
  have hone : ∀ k, firstRow [row] k = if row.key = k then some row else none := by
    intro k
    unfold firstRow
    rw [List.find?_singleton]
    simp only [decide_eq_true_eq]
  unfold insertFact at hobservations
  split at hobservations
  · rename_i old hold
    obtain ⟨hdigest, hobservations⟩ := require_bind_eq_ok.mp hobservations
    obtain rfl := pure_eq_ok.mp hobservations
    refine ⟨fun k => ?_, hreceipts, fun r hr => ?_⟩
    · rw [hone]
      split
      · rename_i hk
        rw [← hk, hold]
        rfl
      · rw [Option.or_none]
    · obtain rfl := List.mem_singleton.mp hr
      exact ⟨old, hold, hdigest⟩
  · rename_i hnone
    obtain ⟨_, hobservations⟩ := require_bind_eq_ok.mp hobservations
    obtain rfl := pure_eq_ok.mp hobservations
    refine ⟨fun k => ?_, hreceipts, fun r hr => ?_⟩
    · rw [Dict.get?_set, hone]
      split
      · rename_i hk
        rw [← hk, hnone]
        rfl
      · rw [Option.or_none]
    · obtain rfl := List.mem_singleton.mp hr
      exact ⟨r, Dict.get?_set_self _ _ _, rfl⟩

theorem Stores.trans {T₁ T₂ T₃ : SubmissionTables ι α} {rows rows' : List (StoredObservation ι)}
    (h : Stores T₁ T₂ rows) (h' : Stores T₂ T₃ rows') : Stores T₁ T₃ (rows ++ rows') where
  first k := by rw [h'.first, h.first, firstRow_append, Option.or_assoc]
  receipts k := (h'.receipts k).trans (h.receipts k)
  agrees row hrow := by
    rcases List.mem_append.mp hrow with hrow | hrow
    · obtain ⟨stored, hstored, hdigest⟩ := h.agrees row hrow
      refine ⟨stored, ?_, hdigest⟩
      rw [h'.first, hstored]
      rfl
    · exact h'.agrees row hrow

theorem storeFacts_stores {now : String} {rows : List (StoredObservation ι)}
    (h : rows.foldlM (storeFact now) T = .ok T') : Stores T T' rows := by
  have hstep : ∀ seen row (s s' : SubmissionTables ι α), Stores T s seen →
      storeFact now s row = .ok s' → Stores T s' (seen ++ [row]) :=
    fun _ _ _ _ hs hrow => hs.trans (storeFact_stores hrow)
  exact foldlM_invariant hstep (.nil T) h

/-- The assessment writes tables of its own. -/
theorem persistNodes_keeps {now : String} {nodes : List (String × String)}
    (h : nodes.foldlM (persistNode H now) T = .ok T') :
    T'.observations = T.observations ∧ T'.projection = T.projection := by
  have hstep : ∀ (seen : List (String × String)) node (s s' : SubmissionTables ι α),
      (s.observations = T.observations ∧ s.projection = T.projection) →
      persistNode H now s node = .ok s' →
      s'.observations = T.observations ∧ s'.projection = T.projection := by
    intro seen node s s' hs hnode
    unfold persistNode at hnode
    obtain ⟨derived, _, hnode⟩ := bind_eq_ok.mp hnode
    obtain rfl := pure_eq_ok.mp hnode
    exact hs
  exact @foldlM_invariant _ _ _ _ (fun _ s => s.observations = T.observations ∧
    s.projection = T.projection) hstep [] _ _ _ ⟨rfl, rfl⟩ h

/-! ## One submission -/

theorem replayed_eq_ok {previous : ProjectionState} {receipt : SubmissionReceipt}
    (h : replayed H T call previous = .ok (receipt, T')) :
    previous.inputRevision = batchDigest H call.payload ∧ receipt.idempotentReplay = true ∧
      T' = T := by
  unfold replayed at h
  obtain ⟨hsame, h⟩ := require_bind_eq_ok.mp h
  have hpair := pure_eq_ok.mp h
  cases hpair
  exact ⟨hsame, rfl, rfl⟩

/-- The transaction of a batch without a receipt. -/
structure Accepts (H : SubmissionHost ι α) (T T' : SubmissionTables ι α) (call : Submission ι)
    (rows : List (StoredObservation ι)) : Prop where
  first : ∀ k, T'.observations.get? k = (T.observations.get? k).or (firstRow rows k)
  receipts : ∀ k, T'.projection.get? ("batch:" ++ k) =
    if "batch:" ++ k = receiptKey H call.payload then some (completed H call rows)
    else T.projection.get? ("batch:" ++ k)
  agrees : ∀ row ∈ rows, ∃ stored, T'.observations.get? row.key = some stored ∧
    stored.payloadDigest = row.payloadDigest

theorem store_accepts {rows : List (StoredObservation ι)} {receipt : SubmissionReceipt}
    (hfree : T.projection.get? (receiptKey H call.payload) = none)
    (h : store H T call rows = .ok (receipt, T')) :
    receipt.idempotentReplay = false ∧ Accepts H T T' call rows := by
  unfold store at h
  dsimp only at h
  rw [hfree] at h
  obtain ⟨stored, hstored, h⟩ := bind_eq_ok.mp h
  obtain ⟨last, hlast, h⟩ := bind_eq_ok.mp h
  have hpair := pure_eq_ok.mp h
  cases hpair
  have hstores := storeFacts_stores hstored
  have hkeeps : T'.observations = stored.observations ∧ T'.projection =
      stored.projection.set (receiptKey H call.payload) (completed H call rows) := by
    unfold assessed at hlast
    split at hlast
    · cases hlast
      exact ⟨rfl, rfl⟩
    · exact persistNodes_keeps hlast
  refine ⟨rfl, fun k => ?_, fun k => ?_, fun row hrow => ?_⟩
  · rw [hkeeps.1]
    exact hstores.first k
  · rw [hkeeps.2, Dict.get?_set]
    split
    · rename_i hk
      rw [if_pos hk.symm]
    · rename_i hk
      rw [if_neg fun heq => hk heq.symm, hstores.receipts]
      exact Dict.get?_set_of_ne hk
  · rw [hkeeps.1]
    exact hstores.agrees row hrow

/-- A submission that succeeds repeats a batch with a receipt, or stores its rows. -/
theorem submit_cases {receipt : SubmissionReceipt} (h : submit H T call = .ok (receipt, T')) :
    (receipt.idempotentReplay = true ∧ T' = T ∧ ∃ previous,
      T.projection.get? (receiptKey H call.payload) = some previous ∧
      previous.inputRevision = batchDigest H call.payload) ∨
    receipt.idempotentReplay = false ∧ T.projection.get? (receiptKey H call.payload) = none ∧
      ∃ source rows, admission H call = .ok source ∧ incoming H T call source = .ok rows ∧
        Accepts H T T' call rows := by
  unfold submit at h
  obtain ⟨source, hsource, h⟩ := bind_eq_ok.mp h
  split at h
  · rename_i previous hprevious
    obtain ⟨hsame, hreplay, hT⟩ := replayed_eq_ok h
    exact .inl ⟨hreplay, hT, previous, hprevious, hsame⟩
  · rename_i hfree
    obtain ⟨rows, hrows, h⟩ := bind_eq_ok.mp h
    obtain ⟨hreplay, haccepts⟩ := store_accepts hfree h
    exact .inr ⟨hreplay, hfree, source, rows, hsource, hrows, haccepts⟩

/-! ## The rows of a batch -/

/-- The facts that a call is about. -/
def callKeys (H : SubmissionHost ι α) (call : Submission ι) : List String :=
  match call.physicalKeys with
  | none => call.payload.observations.map (factKey H call.payload)
  | some keys => keys.map ("committed:" ++ ·)

theorem validate_spec {now : String} {batch : SubmittedBatch ι} {source : Registration}
    {item : SubmittedItem ι} {v : Validated ι} (h : validate H T now batch source item = .ok v) :
    v.payload = item ∧ v.sourceFactKey = factKey H batch item ∧
      v.payloadDigest = H.digest (.payload item) := by
  unfold validate at h
  obtain ⟨_, h⟩ := require_bind_eq_ok.mp h
  obtain ⟨_, h⟩ := require_bind_eq_ok.mp h
  obtain ⟨_, h⟩ := require_bind_eq_ok.mp h
  obtain ⟨_, h⟩ := require_bind_eq_ok.mp h
  obtain ⟨_, h⟩ := require_bind_eq_ok.mp h
  obtain ⟨_, h⟩ := require_bind_eq_ok.mp h
  obtain ⟨ends, _, h⟩ := bind_eq_ok.mp h
  obtain ⟨_, h⟩ := require_bind_eq_ok.mp h
  obtain ⟨_, h⟩ := require_bind_eq_ok.mp h
  obtain ⟨_, h⟩ := require_bind_eq_ok.mp h
  obtain rfl := pure_eq_ok.mp h
  exact ⟨rfl, rfl, rfl⟩

theorem map_eq_of_forall₂ {β γ δ : Type} {R : β → γ → Prop} {f : γ → δ} {g : β → δ}
    (hR : ∀ x y, R x y → f y = g x) {xs : List β} {ys : List γ} (h : List.Forall₂ R xs ys) :
    ys.map f = xs.map g := by
  induction h with
  | nil => rfl
  | cons hxy _ ih => rw [List.map_cons, List.map_cons, hR _ _ hxy, ih]

/-- The rows are the observations under the facts of the call, which are distinct. -/
structure RowsOf (H : SubmissionHost ι α) (call : Submission ι) (rows : List (StoredObservation ι)) :
    Prop where
  payloads : rows.map StoredObservation.payload = call.payload.observations
  keys : rows.map StoredObservation.sourceFactKey = callKeys H call
  distinct : (callKeys H call).Nodup
  revision : ∀ row ∈ rows, row.configRevision = call.payload.configRevision
  digests : ∀ row ∈ rows, row.payloadDigest = H.digest (.payload row.payload)

theorem identified_spec {source : Registration} {validated items : List (Validated ι)}
    (hkeys : validated.map Validated.sourceFactKey =
      call.payload.observations.map (factKey H call.payload))
    (h : identified H call source validated = .ok items) :
    items.map Validated.sourceFactKey = callKeys H call ∧
      items.map (fun v => (v.payload, v.payloadDigest)) =
        validated.map fun v => (v.payload, v.payloadDigest) := by
  unfold identified at h
  unfold callKeys
  cases hphysical : call.physicalKeys with
  | none =>
    rw [hphysical] at h
    obtain rfl := Except.ok.inj h
    exact ⟨hkeys, rfl⟩
  | some keys =>
    rw [hphysical] at h
    obtain ⟨hlength, h⟩ := require_bind_eq_ok.mp h
    obtain rfl := pure_eq_ok.mp h
    dsimp only
    rw [List.map_map, List.map_map]
    constructor
    · have hsnd : (validated.zip keys).map Prod.snd = keys := List.map_snd_zip hlength.le
      conv_rhs => rw [← hsnd, List.map_map]
      rfl
    · have hfst : (validated.zip keys).map Prod.fst = validated := List.map_fst_zip hlength.ge
      conv_rhs => rw [← hfst, List.map_map]
      rfl

theorem incoming_spec {source : Registration} {rows : List (StoredObservation ι)}
    (h : incoming H T call source = .ok rows) : RowsOf H call rows := by
  unfold incoming at h
  obtain ⟨validated, hvalidated, h⟩ := bind_eq_ok.mp h
  obtain ⟨items, hitems, h⟩ := bind_eq_ok.mp h
  obtain ⟨hdistinct, h⟩ := require_bind_eq_ok.mp h
  obtain rfl := pure_eq_ok.mp h
  have hall := mapM_eq_ok.mp hvalidated
  have hkeys := map_eq_of_forall₂ (f := Validated.sourceFactKey) (g := factKey H call.payload)
    (fun _ _ hv => (validate_spec hv).2.1) hall
  have hpayloads := map_eq_of_forall₂ (f := fun v : Validated ι => (v.payload, v.payloadDigest))
    (g := fun item => (item, H.digest (.payload item)))
    (fun _ _ hv => Prod.ext (validate_spec hv).1 (validate_spec hv).2.2) hall
  obtain ⟨hnames, hpairs⟩ := identified_spec hkeys hitems
  rw [hpayloads] at hpairs
  refine ⟨?_, ?_, hnames ▸ hdistinct, ?_, ?_⟩
  · have hfirst := congrArg (List.map Prod.fst) hpairs
    rw [List.map_map, List.map_map] at hfirst
    rw [List.map_map]
    exact hfirst.trans (List.map_id _)
  · rw [List.map_map, ← hnames]
    rfl
  · intro row hrow
    obtain ⟨v, _, rfl⟩ := List.mem_map.mp hrow
    rfl
  · intro row hrow
    obtain ⟨v, hv, rfl⟩ := List.mem_map.mp hrow
    have hpair : (v.payload, v.payloadDigest) ∈
        call.payload.observations.map fun item => (item, H.digest (.payload item)) :=
      hpairs ▸ List.mem_map_of_mem hv
    obtain ⟨item, _, heq⟩ := List.mem_map.mp hpair
    obtain ⟨hpayload, hdigest⟩ := Prod.mk.injEq _ _ _ _ ▸ heq
    show v.payloadDigest = H.digest (.payload v.payload)
    rw [← hdigest, hpayload]

/-! ## Sequences of submissions -/

/-- The tables with all rows and batches that were accepted so far. -/
structure Submissions (ι α : Type) where
  tables : SubmissionTables ι α
  rows : List (StoredObservation ι) := []
  batches : List (SubmittedBatch ι) := []

/-- The rows of a call, where it gets so far. -/
def incomingRows (H : SubmissionHost ι α) (T : SubmissionTables ι α) (call : Submission ι) :
    List (StoredObservation ι) :=
  match admission H call with
  | .error _ => []
  | .ok source =>
      match incoming H T call source with
      | .error _ => []
      | .ok rows => rows

/-- A call that fails changes nothing. -/
def stepSubmission (H : SubmissionHost ι α) (s : Submissions ι α) (call : Submission ι) :
    Submissions ι α :=
  match submit H s.tables call with
  | .error _ => s
  | .ok (receipt, T) =>
      if receipt.idempotentReplay then { s with tables := T }
      else
        { tables := T
          rows := s.rows ++ incomingRows H s.tables call
          batches := s.batches ++ [call.payload] }

structure SubmissionsInv (H : SubmissionHost ι α) (s : Submissions ι α) : Prop where
  first : ∀ k, s.tables.observations.get? k = firstRow s.rows k
  digests : ∀ row ∈ s.rows, row.payloadDigest = H.digest (.payload row.payload)
  same : ∀ row ∈ s.rows, ∃ stored, s.tables.observations.get? row.key = some stored ∧
    stored.payload = row.payload
  receipts : ∀ batch ∈ s.batches, ∃ state,
    s.tables.projection.get? (receiptKey H batch) = some state ∧
      state.inputRevision = batchDigest H batch
  known : ∀ k state, s.tables.projection.get? ("batch:" ++ k) = some state →
    ∃ batch ∈ s.batches, state.inputRevision = batchDigest H batch

theorem SubmissionsInv.accept {s : Submissions ι α} (h : SubmissionsInv H s)
    {rows : List (StoredObservation ι)} (hrows : RowsOf H call rows)
    (hfree : s.tables.projection.get? (receiptKey H call.payload) = none)
    (haccepts : Accepts H s.tables T' call rows) :
    SubmissionsInv H ⟨T', s.rows ++ rows, s.batches ++ [call.payload]⟩ := by
  have hfirst : ∀ k, T'.observations.get? k = firstRow (s.rows ++ rows) k := by
    intro k
    rw [haccepts.first, h.first, firstRow_append]
  have hdigests : ∀ row ∈ s.rows ++ rows, row.payloadDigest = H.digest (.payload row.payload) := by
    intro row hrow
    exact (List.mem_append.mp hrow).elim (h.digests row) (hrows.digests row)
  refine ⟨hfirst, hdigests, fun row hrow => ?_, fun batch hbatch => ?_, fun k state hstate => ?_⟩
  · rcases List.mem_append.mp hrow with hrow | hrow
    · obtain ⟨stored, hstored, hpayload⟩ := h.same row hrow
      refine ⟨stored, ?_, hpayload⟩
      show T'.observations.get? row.key = some stored
      rw [haccepts.first, hstored]
      rfl
    · obtain ⟨stored, hstored, hdigest⟩ := haccepts.agrees row hrow
      refine ⟨stored, hstored, ?_⟩
      have hmem : stored ∈ s.rows ++ rows := List.mem_of_find?_eq_some ((hfirst _).symm.trans hstored)
      rw [hdigests stored hmem, hrows.digests row hrow] at hdigest
      exact Digested.payload.inj (H.digest_injective hdigest)
  · dsimp only
    unfold receiptKey
    rw [haccepts.receipts]
    rcases List.mem_append.mp hbatch with hbatch | hbatch
    · obtain ⟨state, hstate, hrevision⟩ := h.receipts batch hbatch
      have hne : receiptKey H batch ≠ receiptKey H call.payload := by
        intro heq
        rw [heq, hfree] at hstate
        cases hstate
      refine ⟨state, ?_, hrevision⟩
      rw [if_neg (by exact hne)]
      exact hstate
    · obtain rfl := List.mem_singleton.mp hbatch
      exact ⟨_, if_pos rfl, rfl⟩
  · dsimp only at hstate
    rw [haccepts.receipts] at hstate
    split at hstate
    · cases hstate
      exact ⟨call.payload, List.mem_append_right _ (List.mem_singleton_self _), rfl⟩
    · obtain ⟨batch, hbatch, hrevision⟩ := h.known k state hstate
      exact ⟨batch, List.mem_append_left _ hbatch, hrevision⟩

theorem SubmissionsInv.step {s : Submissions ι α} (h : SubmissionsInv H s) (call : Submission ι) :
    SubmissionsInv H (stepSubmission H s call) := by
  unfold stepSubmission
  split
  · exact h
  · rename_i receipt T hsubmit
    rcases submit_cases hsubmit with ⟨hreplay, rfl, _⟩ | ⟨hreplay, hfree, source, rows, hsource,
      hrows, haccepts⟩
    · rw [hreplay, if_pos rfl]
      exact h
    · have hincoming : incomingRows H s.tables call = rows := by
        unfold incomingRows
        rw [hsource]
        dsimp only
        rw [hrows]
      rw [hreplay, if_neg Bool.false_ne_true, hincoming]
      exact h.accept (incoming_spec hrows) hfree haccepts

/-- A call that names a fact twice, or one that is stored with other content. -/
def Conflicts (H : SubmissionHost ι α) (T : SubmissionTables ι α) (call : Submission ι) : Prop :=
  ¬ (callKeys H call).Nodup ∨
    ∃ pair ∈ (callKeys H call).zip call.payload.observations, ∃ stored,
      T.observations.get? (pair.1, call.payload.configRevision) = some stored ∧
        stored.payload ≠ pair.2

/-- What holds after any sequence of submissions. -/
structure FactsOnce (H : SubmissionHost ι α) (s : Submissions ι α) : Prop where
  /-- A fact in a revision is stored as its first accepted row, and all rows that were accepted
  for it have that content. -/
  first : ∀ k, s.tables.observations.get? k = firstRow s.rows k
  same : ∀ row ∈ s.rows, ∃ stored, s.tables.observations.get? row.key = some stored ∧
    stored.payload = row.payload
  replay : ∀ call, call.payload ∈ s.batches → stepSubmission H s call = s
  conflict : ∀ call, Conflicts H s.tables call → call.payload ∉ s.batches →
    ∃ e, submit H s.tables call = .error e

theorem stepSubmission_replay {s : Submissions ι α} (h : SubmissionsInv H s)
    (hbatch : call.payload ∈ s.batches) : stepSubmission H s call = s := by
  unfold stepSubmission
  split
  · rfl
  · rename_i receipt T hsubmit
    rcases submit_cases hsubmit with ⟨hreplay, rfl, _⟩ | ⟨_, hfree, _⟩
    · rw [hreplay, if_pos rfl]
    · obtain ⟨state, hstate, _⟩ := h.receipts call.payload hbatch
      rw [hfree] at hstate
      cases hstate

theorem not_conflicts {s : Submissions ι α} (h : SubmissionsInv H s)
    {rows : List (StoredObservation ι)} (hrows : RowsOf H call rows)
    (haccepts : Accepts H s.tables T' call rows) : ¬ Conflicts H s.tables call := by
  rintro (htwice | ⟨pair, hpair, stored, hstored, hne⟩)
  · exact htwice hrows.distinct
  · rw [← hrows.keys, ← hrows.payloads, List.zip_map'] at hpair
    obtain ⟨row, hrow, rfl⟩ := List.mem_map.mp hpair
    obtain ⟨found, hfound, hdigest⟩ := haccepts.agrees row hrow
    have hkey : row.key = (row.sourceFactKey, call.payload.configRevision) :=
      Prod.ext rfl (hrows.revision row hrow)
    rw [haccepts.first, hkey, hstored, Option.some_or, Option.some.injEq] at hfound
    obtain rfl := hfound
    have hmem : stored ∈ s.rows := List.mem_of_find?_eq_some ((h.first _).symm.trans hstored)
    rw [h.digests stored hmem, hrows.digests row hrow] at hdigest
    exact hne (Digested.payload.inj (H.digest_injective hdigest))

end LogRisk.ServerRisk
