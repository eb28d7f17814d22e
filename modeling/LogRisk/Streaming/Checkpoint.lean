import LogRisk.Streaming.Run

/-!
# Checkpoints move forward

Going forward means: no partition of a Kafka cursor is lost or falls back, and
neither the offset nor the line of a file cursor does.  The store's own
comparison is weaker.  For Kafka cursors that both hold locked end offsets it
looks at these only, and for file cursors a higher offset outweighs a lower line.
A run goes forward wherever the store accepts nothing the pipeline's comparison
would not keep.
-/

namespace LogRisk.Streaming

open LogRisk.Library LogRisk.Library.Transaction

/-! ## Forward -/

/-- The checkpoint `incoming` lies on or ahead of `current`. -/
def Forward (current incoming : SourceCursor) : Prop :=
  current.kind ≠ "" → incoming.kind = current.kind ∧
    (current.kind = "file" → current.offset ≤ incoming.offset ∧ current.line ≤ incoming.line) ∧
    (current.kind = "kafka" → (cursorOffsets incoming).Covers (cursorOffsets current))

theorem Forward.refl (c : SourceCursor) : Forward c c := fun _ =>
  ⟨rfl, fun _ => ⟨le_refl _, le_refl _⟩, fun _ => OffsetMap.Covers.refl _⟩

theorem Forward.trans {a b c : SourceCursor} (hab : Forward a b) (hbc : Forward b c) :
    Forward a c := by
  intro hkind
  obtain ⟨hkab, hfile, hkafka⟩ := hab hkind
  obtain ⟨hkbc, hfile', hkafka'⟩ := hbc (hkab ▸ hkind)
  refine ⟨hkbc.trans hkab, fun h => ?_, fun h => ?_⟩
  · have hleft := hfile h
    have hright := hfile' (hkab.trans h)
    exact ⟨hleft.1.trans hright.1, hleft.2.trans hright.2⟩
  · exact (hkafka' (hkab.trans h)).trans (hkafka h)

/-! ## The two comparisons -/

/-- The new cursor has the shape of the stored one: an old single-partition
cursor is followed by another one. -/
def SameShape (incoming current : SourceCursor) : Prop :=
  current.value.partitions = none → current.value.offset.isSome →
    incoming.value.partitions = none ∧ incoming.value.offset.isSome

/-- The line does not go back where the offset goes forward. -/
def LineKept (incoming current : SourceCursor) : Prop :=
  current.offset < incoming.offset → current.line ≤ incoming.line

/-- What the store's comparison accepts, the pipeline's comparison keeps. -/
def GuardsAgree (incoming current : SourceCursor) : Prop :=
  cursorIsAtLeast incoming current = true →
    cursorAtLeast incoming current = .ok incoming ∧
      (current.kind = "kafka" → SameShape incoming current) ∧
      (current.kind = "file" → LineKept incoming current)

instance (incoming current : SourceCursor) : Decidable (SameShape incoming current) :=
  inferInstanceAs (Decidable (_ → _))

instance (incoming current : SourceCursor) : Decidable (LineKept incoming current) :=
  inferInstanceAs (Decidable (_ → _))

instance (incoming current : SourceCursor) : Decidable (GuardsAgree incoming current) :=
  inferInstanceAs (Decidable (_ → _))

theorem kind_of_cursorIsAtLeast {incoming current : SourceCursor}
    (h : cursorIsAtLeast incoming current = true) (hkind : current.kind ≠ "") :
    incoming.kind = current.kind := by
  by_contra hne
  rw [cursorIsAtLeast, if_pos (Or.inr hne)] at h
  exact hkind (of_decide_eq_true h)

theorem file_cursorIsAtLeast {incoming current : SourceCursor} (hcurrent : current.kind = "file")
    (hincoming : incoming.kind = "file") (h : cursorIsAtLeast incoming current = true) :
    current.offset < incoming.offset ∨
      current.offset = incoming.offset ∧ current.line ≤ incoming.line := by
  rw [cursorIsAtLeast, hcurrent, hincoming] at h
  simpa [Prod.Lex.toLex_le_toLex] using h

theorem mapFallsBehind_eq_false {candidate current : OffsetMap}
    (h : mapFallsBehind candidate current = .ok false) : candidate.Covers current := by
  unfold mapFallsBehind at h
  split at h
  · cases h
  split at h
  · cases h
  split at h
  · rename_i hlow hsub
    intro key hkey
    have hmem : key ∈ candidate := Finmap.mem_keys.mp (hsub hkey)
    refine ⟨hmem, ?_⟩
    by_contra hlt
    exact hlow ⟨key, hkey, hmem, not_le.mp hlt⟩
  · cases h

theorem fieldFallsBehind_eq_false {candidate : Option OffsetMap} {current : OffsetMap}
    (h : fieldFallsBehind candidate (some current) = .ok false) :
    ∃ m, candidate = some m ∧ m.Covers current := by
  cases candidate with
  | none => cases h
  | some m => exact ⟨m, rfl, mapFallsBehind_eq_false h⟩

/-- What it takes for the pipeline to keep a Kafka cursor other than the stored
one. -/
theorem kafka_cursorAtLeast {incoming current : SourceCursor} (hcurrent : current.kind = "kafka")
    (hincoming : incoming.kind = "kafka") (hne : incoming ≠ current)
    (h : cursorAtLeast incoming current = .ok incoming) :
    fieldFallsBehind incoming.value.partitions current.value.partitions = .ok false ∧
      offsetFallsBehind incoming current = false := by
  have hbehind : kafkaFallsBehind incoming current = .ok false := by
    simp only [cursorAtLeast, hcurrent, hincoming] at h
    obtain ⟨behind, hbehind, hkept⟩ := bind_eq_ok.mp h
    cases behind with
    | true => exact absurd (Except.ok.inj hkept).symm hne
    | false => exact hbehind
  obtain ⟨behind, hpartitions, h⟩ := bind_eq_ok.mp hbehind
  cases behind with
  | true => cases h
  | false =>
      obtain ⟨high, _, h⟩ := bind_eq_ok.mp h
      have hboth := Except.ok.inj h
      rw [Bool.or_eq_false_iff] at hboth
      exact ⟨hpartitions, hboth.2⟩

theorem offsetFallsBehind_eq_false {candidate current : SourceCursor}
    (hc : current.value.offset.isSome) (hi : candidate.value.offset.isSome)
    (h : offsetFallsBehind candidate current = false) :
    candidate.value.partition = current.value.partition ∧ current.offset ≤ candidate.offset := by
  simpa [offsetFallsBehind, hc, hi] using h

theorem covers_singleton {partition : String} {a b : ℤ} (hab : a ≤ b) :
    OffsetMap.Covers (Finmap.singleton partition b) (Finmap.singleton partition a) := by
  intro key hkey
  rw [Finmap.mem_keys, Finmap.mem_singleton] at hkey
  subst hkey
  simpa [OffsetMap.offset] using hab

/-- A Kafka cursor the pipeline keeps loses no partition and moves none back. -/
theorem covers_of_kept {incoming current : SourceCursor} (hcurrent : current.kind = "kafka")
    (hincoming : incoming.kind = "kafka") (hshape : SameShape incoming current)
    (h : cursorAtLeast incoming current = .ok incoming) :
    (cursorOffsets incoming).Covers (cursorOffsets current) := by
  by_cases hne : incoming = current
  · rw [hne]
    exact OffsetMap.Covers.refl _
  obtain ⟨hpartitions, hoffset⟩ := kafka_cursorAtLeast hcurrent hincoming hne h
  cases hmap : current.value.partitions with
  | some m =>
      rw [hmap] at hpartitions
      obtain ⟨m', hm', hcovers⟩ := fieldFallsBehind_eq_false hpartitions
      simpa [cursorOffsets, hmap, hm'] using hcovers
  | none =>
      -- the stored cursor names at most one partition
      cases hc : current.value.offset with
      | none =>
          intro key hkey
          cases hp : current.value.partition <;> simp [cursorOffsets, hmap, hc, hp] at hkey
      | some n =>
          have hcsome : current.value.offset.isSome := by simp [hc]
          obtain ⟨hnone, hisome⟩ := hshape hmap hcsome
          obtain ⟨hsame, hle⟩ := offsetFallsBehind_eq_false hcsome hisome hoffset
          obtain ⟨n', hi⟩ := Option.isSome_iff_exists.mp hisome
          cases hp : current.value.partition with
          | none =>
              intro key hkey
              simp [cursorOffsets, hmap, hp] at hkey
          | some p =>
              have hn : n ≤ n' := by simpa [SourceCursor.offset, hc, hi] using hle
              simpa [cursorOffsets, hmap, hnone, hc, hi, hp, hsame] using covers_singleton hn

/-- The step of the argument: an accepted cursor on which the guards agree lies
ahead of the stored one. -/
theorem forward_of_guardsAgree {incoming current : SourceCursor}
    (hagree : GuardsAgree incoming current) (h : cursorIsAtLeast incoming current = true) :
    Forward current incoming := by
  intro hkind
  have hsame := kind_of_cursorIsAtLeast h hkind
  obtain ⟨hkept, hshape, hline⟩ := hagree h
  refine ⟨hsame, fun hfile => ?_, fun hkafka => ?_⟩
  · rcases file_cursorIsAtLeast hfile (hsame.trans hfile) h with hlt | ⟨heq, hle⟩
    · exact ⟨hlt.le, hline hfile hlt⟩
    · exact ⟨heq.le, hle⟩
  · exact covers_of_kept hkafka (hsame.trans hkafka) (hshape hkafka) hkept

/-! ## Runs -/

variable {ω Λ ρ : Type}

/-- Every window this call records anew has a cursor on which the guards agree. -/
def CommitsAgree (store : Store ω Λ) (call : Call ω ρ) : Prop :=
  ∀ now taskId request t, call = .commitWindow now taskId request →
    store.tasks.get? taskId = some t → t.hasCommit request.windowId = none →
      GuardsAgree request.cursor t.task.cursor

/-- What a commit owes to the checkpoint of its task. -/
structure CommitForward (env : Env ω Λ ρ) (store : Store ω Λ) (now taskId : String)
    (request : CommitRequest ω ρ) (t : TaskTables ω) : Prop where
  /-- A window that is recorded moves the checkpoint to its cursor, forward. -/
  advances : ∀ store', store.commitWindow env now taskId request = .ok (true, store') →
    Forward t.task.cursor request.cursor ∧
      ∃ t', store'.tasks.get? taskId = some t' ∧ t'.task.cursor = request.cursor
  /-- A new window whose cursor lies behind raises. -/
  raises : ¬Forward t.task.cursor request.cursor → t.hasCommit request.windowId = none →
    ∃ error, store.commitWindow env now taskId request = .error error
  /-- A commit whose cursor lies behind leaves the rows of the task alone. -/
  unchanged : ¬Forward t.task.cursor request.cursor →
    (Call.apply env store (.commitWindow now taskId request)).tasks.get? taskId = some t

def CommitsForward (env : Env ω Λ ρ) (store : Store ω Λ) (call : Call ω ρ) : Prop :=
  ∀ now taskId request t, call = .commitWindow now taskId request →
    store.tasks.get? taskId = some t → CommitForward env store now taskId request t

/-- Every task of `store` is still there, its checkpoint has not gone back and
its commits have only been added to. -/
def StoreForward (store store' : Store ω Λ) : Prop :=
  ∀ taskId t, store.tasks.get? taskId = some t → ∃ t', store'.tasks.get? taskId = some t' ∧
    Forward t.task.cursor t'.task.cursor ∧ t.commits <+: t'.commits

theorem StoreForward.refl (store : Store ω Λ) : StoreForward store store := fun _ t ht =>
  ⟨t, ht, .refl _, List.prefix_rfl⟩

theorem StoreForward.trans {a b c : Store ω Λ} (hab : StoreForward a b)
    (hbc : StoreForward b c) : StoreForward a c := by
  intro taskId t ht
  obtain ⟨t', ht', hforward, hinitial⟩ := hab taskId t ht
  obtain ⟨t'', ht'', hforward', hprefix'⟩ := hbc taskId t' ht'
  exact ⟨t'', ht'', hforward.trans hforward', hinitial.trans hprefix'⟩

variable {env : Env ω Λ ρ}

theorem NewCommit.forward {store : Store ω Λ} {call : Call ω ρ} {taskId now : String}
    {request : CommitRequest ω ρ} {prepared : PreparedCommit ω} {t t' : TaskTables ω}
    (hagree : CommitsAgree store call) (ht : store.tasks.get? taskId = some t)
    (h : NewCommit env call taskId now request prepared t t') :
    Forward t.task.cursor request.cursor ∧ t'.task.cursor = request.cursor ∧
      t.commits <+: t'.commits := by
  obtain ⟨_, hleast, recordCount, _, rfl⟩ := TaskTables.commitNew_cases h.written
  exact ⟨forward_of_guardsAgree (hagree now taskId request t h.hcall ht h.absent) hleast, rfl,
    List.prefix_append _ _⟩

/-- One call. -/
theorem storeForward_apply {store : Store ω Λ} {call : Call ω ρ}
    (hagree : CommitsAgree store call) : StoreForward store (call.apply env store) := by
  intro taskId t ht
  have hstep := call.taskStep env store taskId
  rw [ht] at hstep
  obtain ⟨t', ht', hsame | ⟨now, request, prepared, hnew⟩⟩ := hstep.progress
  · refine ⟨t', ht', ?_, ?_⟩
    · rw [hsame.cursor]
      exact .refl _
    · rw [hsame.commits]
  · obtain ⟨hforward, hcursor, hinitial⟩ := hnew.forward hagree ht
    exact ⟨t', ht', hcursor ▸ hforward, hinitial⟩

theorem commitsForward_of_agree {store : Store ω Λ} {call : Call ω ρ}
    (hagree : CommitsAgree store call) : CommitsForward env store call := by
  rintro now taskId request t rfl ht
  -- the three ways a commit can end
  have hcases : ∀ fresh store', store.commitWindow env now taskId request = .ok (fresh, store') →
      (fresh = false ∧ store'.tasks.get? taskId = some t ∧
          t.hasCommit request.windowId ≠ none) ∨
        (fresh = true ∧ Forward t.task.cursor request.cursor ∧
          ∃ t', store'.tasks.get? taskId = some t' ∧ t'.task.cursor = request.cursor) := by
    intro fresh store' h
    obtain ⟨prepared, hprepared, h⟩ := bind_eq_ok.mp h
    obtain ⟨u, t', ledger, hu, hcommit, rfl⟩ := Store.onTask_eq_ok.mp h
    obtain rfl : t = u := Option.some.inj (ht.symm.trans hu)
    obtain ⟨hheld, _, ⟨hfresh, rfl, existing, hexisting, _⟩ | ⟨hfresh, habsent, hwritten⟩⟩ :=
      TaskTables.commitWindow_cases hcommit
    · exact .inl ⟨hfresh, Dict.get?_set_self .., by simp [hexisting]⟩
    · have hnew : NewCommit env (.commitWindow now taskId request) taskId now request prepared
          t t' := ⟨rfl, hprepared, hheld, habsent, hwritten⟩
      obtain ⟨hforward, hcursor, _⟩ := hnew.forward hagree ht
      exact .inr ⟨hfresh, hforward, t', Dict.get?_set_self .., hcursor⟩
  refine ⟨fun store' h => ?_, fun hbehind habsent => ?_, fun hbehind => ?_⟩
  · obtain ⟨hfalse, _⟩ | ⟨_, hforward, hstored⟩ := hcases true store' h
    · cases hfalse
    · exact ⟨hforward, hstored⟩
  · cases h : store.commitWindow env now taskId request with
    | error e => exact ⟨e, rfl⟩
    | ok r =>
        obtain ⟨_, _, hpresent⟩ | ⟨_, hforward, _⟩ := hcases r.1 r.2 h
        · exact absurd habsent hpresent
        · exact absurd hforward hbehind
  · rw [Call.apply, Call.run]
    cases h : store.commitWindow env now taskId request with
    | error e => exact ht
    | ok r =>
        obtain ⟨_, hsame, _⟩ | ⟨_, hforward, _⟩ := hcases r.1 r.2 h
        · exact hsame
        · exact absurd hforward hbehind

/-- In a run whose commits all meet the condition, every commit moves its
checkpoint forward or leaves its task alone, and so does the run as a whole. -/
theorem run_moves_forward (env : Env ω Λ ρ) (store : Store ω Λ) (calls : List (Call ω ρ))
    (hrun : Along (Call.apply env) CommitsAgree store calls) :
    Along (Call.apply env) (CommitsForward env) store calls ∧
      StoreForward store (exec (Call.apply env) store calls) :=
  ⟨hrun.imp fun _ _ h => commitsForward_of_agree h,
    exec_mono StoreForward.refl (fun _ _ _ => StoreForward.trans)
      (fun _ _ h => storeForward_apply h) hrun⟩

/-! ## Two Kafka commits -/

def kafkaCursor (next highWater : ℤ) : SourceCursor where
  kind := "kafka"
  value :=
    { partitions := some (Finmap.singleton "0" next)
      highWater := some (Finmap.singleton "0" highWater) }

def kafkaCommit (windowId : String) (cursor : SourceCursor) : Call Unit Unit :=
  .commitWindow "now" "task"
    { windowId := windowId, cursor := cursor, templates := [], fencingToken := some "token" }

/-- A task is created and claimed and commits two windows. -/
def kafkaCalls (first second : SourceCursor) : List (Call Unit Unit) :=
  [.createOrLoad "now" "" ⟨"kafka", [], []⟩ "config" (some "task"),
    .claimTask "now" "token" "task", kafkaCommit "w1" first, kafkaCommit "w2" second]

theorem run_moves_forward_kafka :
    StoreForward (⟨∅, ()⟩ : Store Unit Unit)
      (exec (Call.apply bareEnv) ⟨∅, ()⟩ (kafkaCalls (kafkaCursor 5 20) (kafkaCursor 10 20))) := by
  have hrun : Along (Call.apply bareEnv) CommitsAgree ⟨∅, ()⟩
      (kafkaCalls (kafkaCursor 5 20) (kafkaCursor 10 20)) := by
    refine ⟨?_, ?_, ?_, ?_, trivial⟩ <;> rintro now taskId request t h ht - <;> cases h
    · cases ht
      change GuardsAgree (kafkaCursor 5 20) SourceCursor.empty
      decide
    · cases ht
      change GuardsAgree (kafkaCursor 10 20) (kafkaCursor 5 20)
      decide
  exact (run_moves_forward bareEnv _ _ hrun).2

/-- With equal end offsets the second commit is accepted though its only
partition falls back from 10 to 5. -/
theorem commit_moves_backward :
    ¬∀ (store : Store Unit Unit) (calls : List (Call Unit Unit)),
      Along (Call.apply bareEnv) (CommitsForward bareEnv) store calls := by
  intro h
  have hrun := h ⟨∅, ()⟩ (kafkaCalls (kafkaCursor 10 20) (kafkaCursor 5 20))
  have hsecond := hrun.2.2.2.1 _ _ _ _ rfl rfl
  have hforward := (hsecond.advances _ rfl).1
  have hcovers := (hforward (by decide)).2.2 rfl
  revert hcovers
  decide

end LogRisk.Streaming
