import LogRisk.Results.Fold
import LogRisk.Streaming.Rules

/-!
# Several builders of a generation

Workers build at the same time, one transaction at a time: a worker whose lease is gone
may still be at it when another one has claimed the task.  The lease is looked at in the
first transaction and in the last, but the pages are folded in between.
-/

namespace LogRisk.Results

open LogRisk.Library LogRisk.Library.Transaction LogRisk.Windows LogRisk.Streaming

variable {ν σ : Type}

/-! ## Workers -/

/-- What a worker knows after the first transaction. -/
structure Job where
  request : Request
  generation : String
  frontier : SourceCursor

inductive Phase where
  | idle
  | folding (job : Job) (after : Position)
  | scoring (job : Job) (after : String)
  | finishing (job : Job)
  | done (generation : String)
  | raised (error : BuildError)

structure State (ν σ : Type) where
  tables : Tables ν σ
  phase : ℕ → Phase

def State.initial (source : TaskTables (Window ν)) : State ν σ := ⟨⟨source, ∅⟩, fun _ => .idle⟩

/-- Worker `w` goes on to a phase, with new tables. -/
def State.enter (s : State ν σ) (w : ℕ) (result : Phase × Tables ν σ) : State ν σ :=
  ⟨result.2, Function.update s.phase w result.1⟩

/-- The first transaction of a build. -/
def started (generated : String) (request : Request) (t : Tables ν σ) : Phase × Tables ν σ :=
  match t.begin generated request with
  | .ok (.ready generation, t') => (.done generation, t')
  | .ok (.building generation after, t') =>
      (.folding ⟨request, generation, t.source.row.cursor⟩ after, t')
  | .error e => (.raised e, t)

section Act

variable [LinearOrder σ] (repository : Repository ν) (rules : Rules σ)

/-- The next transaction of a build; one that raises ends the build. -/
def advanced (t : Tables ν σ) : Phase → Phase × Tables ν σ
  | .folding job after =>
      match t.page repository rules job.generation after with
      | .ok (some after, t') => (.folding job after, t')
      | .ok (none, t') => (.scoring job "", t')
      | .error e => (.raised e, t)
  | .scoring job after =>
      match t.entityPage repository rules job.generation after with
      | (some after, t') => (.scoring job after, t')
      | (none, t') => (.finishing job, t')
  | .finishing job =>
      match t.finish job.generation job.frontier job.request with
      | .ok (_, t') => (.done job.generation, t')
      | .error e => (.raised e, t)
  | phase => (phase, t)

/-- A worker begins, goes on or is gone; a task is interrupted or claimed. -/
inductive Action where
  | begin (w : ℕ) (generated : String) (request : Request)
  | advance (w : ℕ)
  | crash (w : ℕ)
  | markInterrupted (now : String)
  | claim (now token : String)

def act (s : State ν σ) : Action → State ν σ
  | .begin w generated request => s.enter w (started generated request s.tables)
  | .advance w => s.enter w (advanced repository rules s.tables (s.phase w))
  | .crash w => s.enter w (.idle, s.tables)
  | .markInterrupted now =>
      { s with tables := { s.tables with
        source := settled s.tables.source (s.tables.source.markInterrupted now) } }
  | .claim now token =>
      { s with tables := { s.tables with
        source := settled s.tables.source (s.tables.source.claim now token) } }

end Act

/-- The generation a worker folds pages of, and where it has got to by its own account. -/
def Phase.place : Phase → Option (String × Position)
  | .folding job after => some (job.generation, after)
  | _ => none

/-- A page is read from where the generation has got to. -/
def UpToDate (s : State ν σ) : Action → Prop
  | .advance w => ∀ place ∈ (s.phase w).place,
      (s.tables.generations.get? place.1).map ResultGeneration.after = some place.2
  | _ => True

instance (s : State ν σ) : (a : Action) → Decidable (UpToDate s a)
  | .advance w => inferInstanceAs (Decidable (∀ place ∈ (s.phase w).place,
      (s.tables.generations.get? place.1).map ResultGeneration.after = some place.2))
  | .begin _ _ _ => isTrue trivial
  | .crash _ => isTrue trivial
  | .markInterrupted _ => isTrue trivial
  | .claim _ _ => isTrue trivial

/-! ## What a generation holds -/

variable {repository : Repository ν} {rules : Rules σ}

/-- No window is left behind the place a generation has got to. -/
def Complete (items : List (BatchWindow (Window ν))) (g : ResultGeneration ν σ) : Prop :=
  Paging.remaining position g.after items = []

/-- The windows up to where a generation has got to. -/
def foldedItems (items : List (BatchWindow (Window ν))) (g : ResultGeneration ν σ) :
    List (Window ν) :=
  (Paging.passed position g.after items).map BatchWindow.window

/-- All committed windows, in the order in which they are read. -/
def committedWindows (items : List (BatchWindow (Window ν))) : List (Window ν) :=
  (Paging.ordered position items).map BatchWindow.window

variable [LinearOrder σ]

/-- Each window up to the stored place is folded once; entities are scored over all of
them. -/
structure Exact (repository : Repository ν) (rules : Rules σ)
    (items : List (BatchWindow (Window ν))) (g : ResultGeneration ν σ) : Prop where
  folded : repository.foldWindows rules (foldedItems items g) = .ok g.windows
  entities : ∀ key e, g.entities.get? key = some e →
    Complete items g ∧ Tables.entityOf rules g key = some e
  ready : g.status = .ready →
    Complete items g ∧ ∀ key ∈ Tables.entityKeys g, key ∈ g.entities.keys

/-- What is known of a worker from its phase. -/
def PhaseHolds (repository : Repository ν) (t : Tables ν σ) : Phase → Prop
  | .folding job _ => ∃ g, t.generations.get? job.generation = some g
  | .scoring job after => ∃ g, t.generations.get? job.generation = some g ∧
      Complete t.source.batchWindows g ∧
      ∀ key ∈ Tables.entityKeys g, repository.entityText key ≤ after → key ∈ g.entities.keys
  | .finishing job => ∃ g, t.generations.get? job.generation = some g ∧
      Complete t.source.batchWindows g ∧ ∀ key ∈ Tables.entityKeys g, key ∈ g.entities.keys
  | .done generation => ∃ g, t.generations.get? generation = some g ∧ g.status = .ready
  | _ => True

structure Coordinated (repository : Repository ν) (rules : Rules σ) (s : State ν σ) : Prop where
  keys : (s.tables.source.batchWindows.map position).Nodup
  exact : ∀ generation g, s.tables.generations.get? generation = some g →
    Exact repository rules s.tables.source.batchWindows g
  phases : ∀ w, PhaseHolds repository s.tables (s.phase w)

/-! ## Scoring entities -/

theorem exists_entityOf (rules : Rules σ) {g : ResultGeneration ν σ} {key : EntityKey}
    (hkey : key ∈ Tables.entityKeys g) : ∃ entity, Tables.entityOf rules g key = some entity := by
  unfold Tables.entityKeys at hkey
  obtain ⟨row, hrow, rfl⟩ := List.mem_map.mp (List.mem_dedup.mp hkey)
  have hmem : row.score ∈ (Tables.windowsOf g row.entityKey).map ResultWindow.score :=
    List.mem_map_of_mem (List.mem_filter.mpr ⟨hrow, by simp⟩)
  cases hmax : ((Tables.windowsOf g row.entityKey).map ResultWindow.score).max? with
  | none =>
      rw [List.max?_eq_none_iff.mp hmax] at hmem
      cases hmem
  | some peak =>
      unfold Tables.entityOf
      rw [hmax]
      exact ⟨_, rfl⟩

theorem scoreEntity_spec (rules : Rules σ) (g : ResultGeneration ν σ) (key : EntityKey) :
    ∃ entities, Tables.scoreEntity rules g key = { g with entities := entities } ∧
      (∀ other e, entities.get? other = some e →
        g.entities.get? other = some e ∨ Tables.entityOf rules g other = some e) ∧
      (∀ other, other ∈ g.entities.keys → other ∈ entities.keys) ∧
      (key ∈ Tables.entityKeys g → key ∈ entities.keys) := by
  unfold Tables.scoreEntity
  cases hentity : Tables.entityOf rules g key with
  | none =>
      refine ⟨g.entities, rfl, fun other e he => Or.inl he, fun other h => h, fun hkey => ?_⟩
      obtain ⟨entity, h⟩ := exists_entityOf rules hkey
      rw [hentity] at h
      cases h
  | some entity =>
      refine ⟨g.entities.set key entity, rfl, fun other e he => ?_, fun other h => ?_, fun _ => ?_⟩
      · by_cases hother : key = other
        · subst hother
          rw [Dict.get?_set_self] at he
          exact Or.inr (hentity.trans he)
        · rw [Dict.get?_set_of_ne hother] at he
          exact Or.inl he
      · exact Dict.mem_keys_alter.mpr (Or.inl h)
      · exact Dict.mem_keys_alter.mpr (Or.inr rfl)

/-- A page of entities leaves the windows alone; what it writes are the scores. -/
theorem scoreEntities_spec (rules : Rules σ) (g : ResultGeneration ν σ) (keys : List EntityKey) :
    ∃ entities, keys.foldl (Tables.scoreEntity rules) g = { g with entities := entities } ∧
      (∀ key e, entities.get? key = some e →
        g.entities.get? key = some e ∨ Tables.entityOf rules g key = some e) ∧
      (∀ key, key ∈ g.entities.keys → key ∈ entities.keys) ∧
      ∀ key ∈ keys, key ∈ Tables.entityKeys g → key ∈ entities.keys := by
  induction keys generalizing g with
  | nil => exact ⟨g.entities, rfl, fun key e h => Or.inl h, fun key h => h, by simp⟩
  | cons key keys ih =>
      obtain ⟨entities, hscored, hvalues, hkept, hwritten⟩ := scoreEntity_spec rules g key
      obtain ⟨entities', hrest, hvalues', hkept', hwritten'⟩ := ih { g with entities := entities }
      refine ⟨entities', ?_, ?_, fun other h => hkept' other (hkept other h), ?_⟩
      · rw [List.foldl_cons, hscored]
        exact hrest
      · intro other e he
        rcases hvalues' other e he with hold | hnew
        · exact hvalues other e hold
        · exact Or.inr hnew
      · intro other hmem hkey
        rcases List.mem_cons.mp hmem with rfl | hmem
        · exact hkept' other (hwritten hkey)
        · exact hwritten' other hmem hkey

/-! ## What a transaction changes -/

/-- What stays of a generation when something is written to it. -/
structure Grows (items : List (BatchWindow (Window ν))) (g g' : ResultGeneration ν σ) : Prop where
  windows : Complete items g → g'.windows = g.windows ∧ g'.after = g.after
  entities : ∀ key, key ∈ g.entities.keys → key ∈ g'.entities.keys
  ready : g.status = .ready → g'.status = .ready

theorem Grows.refl (items : List (BatchWindow (Window ν))) (g : ResultGeneration ν σ) :
    Grows items g g := ⟨fun _ => ⟨rfl, rfl⟩, fun _ h => h, fun h => h⟩

structure TablesGrow (t t' : Tables ν σ) : Prop where
  items : t'.source.batchWindows = t.source.batchWindows
  generations : ∀ generation g, t.generations.get? generation = some g →
    ∃ g', t'.generations.get? generation = some g' ∧ Grows t.source.batchWindows g g'

theorem TablesGrow.refl (t : Tables ν σ) : TablesGrow t t :=
  ⟨rfl, fun _ g hg => ⟨g, hg, Grows.refl _ g⟩⟩

theorem TablesGrow.set {t : Tables ν σ} {generation : String} {g' : ResultGeneration ν σ}
    (h : ∀ g, t.generations.get? generation = some g → Grows t.source.batchWindows g g') :
    TablesGrow t (t.setGeneration generation g') := by
  refine ⟨rfl, fun other g hg => ?_⟩
  show ∃ _, (t.generations.set generation g').get? other = _ ∧ _
  by_cases hother : generation = other
  · subst hother
    exact ⟨g', Dict.get?_set_self .., h g hg⟩
  · exact ⟨g, (Dict.get?_set_of_ne hother).trans hg, Grows.refl _ g⟩

theorem entityKeys_congr {g g' : ResultGeneration ν σ} (h : g'.windows = g.windows) :
    Tables.entityKeys g' = Tables.entityKeys g := by
  unfold Tables.entityKeys
  rw [h]

theorem entityOf_congr {g g' : ResultGeneration ν σ} (h : g'.windows = g.windows)
    (key : EntityKey) : Tables.entityOf rules g' key = Tables.entityOf rules g key := by
  unfold Tables.entityOf Tables.windowsOf
  rw [h]

theorem Complete.grows {items : List (BatchWindow (Window ν))} {g g' : ResultGeneration ν σ}
    (h : Complete items g) (hgrows : Grows items g g') : Complete items g' := by
  unfold Complete
  rw [(hgrows.windows h).2]
  exact h

theorem PhaseHolds.mono {t t' : Tables ν σ} {phase : Phase} (h : PhaseHolds repository t phase)
    (hgrow : TablesGrow t t') : PhaseHolds repository t' phase := by
  cases phase with
  | idle => trivial
  | folding job after =>
      obtain ⟨g, hg⟩ := h
      obtain ⟨g', hg', -⟩ := hgrow.generations _ g hg
      exact ⟨g', hg'⟩
  | scoring job after =>
      obtain ⟨g, hg, hcomplete, hkeys⟩ := h
      obtain ⟨g', hg', hgrows⟩ := hgrow.generations _ g hg
      have hsame := entityKeys_congr (hgrows.windows hcomplete).1
      refine ⟨g', hg', hgrow.items ▸ hcomplete.grows hgrows, fun key hkey hle => ?_⟩
      exact hgrows.entities key (hkeys key (hsame ▸ hkey) hle)
  | finishing job =>
      obtain ⟨g, hg, hcomplete, hkeys⟩ := h
      obtain ⟨g', hg', hgrows⟩ := hgrow.generations _ g hg
      have hsame := entityKeys_congr (hgrows.windows hcomplete).1
      refine ⟨g', hg', hgrow.items ▸ hcomplete.grows hgrows, fun key hkey => ?_⟩
      exact hgrows.entities key (hkeys key (hsame ▸ hkey))
  | done generation =>
      obtain ⟨g, hg, hready⟩ := h
      obtain ⟨g', hg', hgrows⟩ := hgrow.generations _ g hg
      exact ⟨g', hg', hgrows.ready hready⟩
  | raised error => trivial

theorem Coordinated.enter {s : State ν σ} (h : Coordinated repository rules s) (w : ℕ)
    {phase : Phase} {t' : Tables ν σ} (hgrow : TablesGrow s.tables t')
    (hexact : ∀ generation g, t'.generations.get? generation = some g →
      Exact repository rules t'.source.batchWindows g)
    (hphase : PhaseHolds repository t' phase) :
    Coordinated repository rules (s.enter w (phase, t')) := by
  refine ⟨hgrow.items ▸ h.keys, hexact, fun w' => ?_⟩
  show PhaseHolds repository t' (Function.update s.phase w phase w')
  by_cases hw : w' = w
  · rw [hw, Function.update_self]
    exact hphase
  · rw [Function.update_of_ne hw]
    exact (h.phases w').mono hgrow

theorem exact_setGeneration {t : Tables ν σ} {generation : String} {g' : ResultGeneration ν σ}
    (h : ∀ generation g, t.generations.get? generation = some g →
      Exact repository rules t.source.batchWindows g)
    (hexact : Exact repository rules t.source.batchWindows g') (other : String)
    (g : ResultGeneration ν σ) (hg : (t.setGeneration generation g').generations.get? other = some g) :
    Exact repository rules t.source.batchWindows g := by
  change (t.generations.set generation g').get? other = some g at hg
  by_cases hother : generation = other
  · subst hother
    rw [Dict.get?_set_self] at hg
    exact Option.some.inj hg ▸ hexact
  · rw [Dict.get?_set_of_ne hother] at hg
    exact h other g hg

/-! ## Beginning -/

theorem start_lt_position (row : BatchWindow (Window ν)) : Position.start < position row := by
  unfold Position.start position
  rw [Prod.Lex.toLex_lt_toLex]
  rcases (Text.empty_le row.windowId).lt_or_eq with hlt | heq
  · exact Or.inl hlt
  · exact Or.inr ⟨heq, by show (-1 : ℤ) < _; omega⟩

theorem exact_newGeneration (items : List (BatchWindow (Window ν))) (rulesHash : String)
    (frontier : SourceCursor) :
    Exact repository rules items (Tables.newGeneration rulesHash frontier) := by
  refine ⟨?_, fun key e h => (by cases h), fun h => (by cases h)⟩
  unfold foldedItems
  rw [show (Tables.newGeneration rulesHash frontier : ResultGeneration ν σ).after = Position.start
    from rfl, Paging.passed_eq_nil fun row _ => start_lt_position row]
  rfl

omit [LinearOrder σ] in
theorem mem_of_generationFor {t : Tables ν σ} {rulesHash generation : String}
    {frontier : SourceCursor} {g : ResultGeneration ν σ}
    (h : t.generationFor rulesHash frontier = some (generation, g)) :
    t.generations.get? generation = some g := by
  unfold Tables.generationFor at h
  rw [Dict.get?_eq_some]
  exact Paging.mem_ordered.mp (List.mem_of_find?_eq_some h)

omit [LinearOrder σ] in
/-- The first transaction finds a generation, ready or not, or makes one. -/
theorem begin_cases {t t' : Tables ν σ} {generated : String} {request : Request}
    {found : Tables.Found} (h : t.begin generated request = .ok (found, t')) :
    (∃ generation old, t.generations.get? generation = some old ∧ old.status = .ready ∧
      found = .ready generation ∧ t' = t.setGeneration generation { old with
        integrity := some (request.evidence.integrity request.leaseToken) }) ∨
    (∃ generation old, t.generations.get? generation = some old ∧
      found = .building generation old.after ∧ t' = t) ∨
    (t.generations.get? generated = none ∧ found = .building generated Position.start ∧
      t' = t.setGeneration generated
        (Tables.newGeneration request.rulesHash t.source.row.cursor)) := by
  unfold Tables.begin at h
  obtain ⟨-, h⟩ := require_bind_eq_ok.mp h
  dsimp only at h
  cases hfound : t.generationFor request.rulesHash t.source.row.cursor with
  | none =>
      rw [hfound] at h
      obtain ⟨hfree, h⟩ := require_bind_eq_ok.mp h
      cases h
      exact Or.inr (Or.inr ⟨hfree, rfl, rfl⟩)
  | some row =>
      obtain ⟨generation, old⟩ := row
      rw [hfound] at h
      dsimp only at h
      by_cases hready : old.status = .ready
      · rw [if_pos hready] at h
        cases h
        exact Or.inl ⟨generation, old, mem_of_generationFor hfound, hready, rfl, rfl⟩
      · rw [if_neg hready] at h
        cases h
        exact Or.inr (Or.inl ⟨generation, old, mem_of_generationFor hfound, rfl, rfl⟩)

omit [LinearOrder σ] in
theorem exists_begin {t : Tables ν σ} {generated : String} {request : Request}
    (hleased : t.Leased request.leaseToken) (hfresh : t.generations.get? generated = none) :
    ∃ found t', t.begin generated request = .ok (found, t') := by
  have hbegin : ∃ r, t.begin generated request = .ok r := by
    unfold Tables.begin
    dsimp only
    cases t.generationFor request.rulesHash t.source.row.cursor with
    | none =>
        exact ⟨_, require_bind_eq_ok.mpr ⟨hleased, require_bind_eq_ok.mpr ⟨hfresh, rfl⟩⟩⟩
    | some row =>
        by_cases hready : row.2.status = .ready
        · exact ⟨_, require_bind_eq_ok.mpr ⟨hleased, if_pos hready⟩⟩
        · exact ⟨_, require_bind_eq_ok.mpr ⟨hleased, if_neg hready⟩⟩
  obtain ⟨⟨found, t'⟩, h⟩ := hbegin
  exact ⟨found, t', h⟩

theorem Exact.withIntegrity {items : List (BatchWindow (Window ν))} {g : ResultGeneration ν σ}
    (h : Exact repository rules items g) (integrity : Option Integrity) :
    Exact repository rules items { g with integrity := integrity } :=
  ⟨h.folded, h.entities, h.ready⟩

theorem Coordinated.begin {s : State ν σ} (h : Coordinated repository rules s) (w : ℕ)
    (generated : String) (request : Request) :
    Coordinated repository rules (s.enter w (started generated request s.tables)) := by
  unfold started
  cases hbegin : s.tables.begin generated request with
  | error e => exact h.enter w (TablesGrow.refl _) h.exact trivial
  | ok r =>
      obtain ⟨found, t'⟩ := r
      rcases begin_cases hbegin with ⟨generation, old, hold, hready, rfl, rfl⟩ |
        ⟨generation, old, hold, rfl, rfl⟩ | ⟨hfree, rfl, rfl⟩
      · refine h.enter w (TablesGrow.set fun g hg => ?_)
          (exact_setGeneration h.exact ((h.exact _ _ hold).withIntegrity _))
          ⟨_, Dict.get?_set_self .., hready⟩
        obtain rfl := Option.some.inj (hold.symm.trans hg)
        exact ⟨fun _ => ⟨rfl, rfl⟩, fun _ hkey => hkey, fun hstatus => hstatus⟩
      · exact h.enter w (TablesGrow.refl _) h.exact ⟨old, hold⟩
      · refine h.enter w (TablesGrow.set fun g hg => ?_)
          (exact_setGeneration h.exact (exact_newGeneration _ _ _)) ⟨_, Dict.get?_set_self ..⟩
        rw [hfree] at hg
        cases hg

/-! ## Pages of windows -/

omit [LinearOrder σ] in
theorem page_cases {t t' : Tables ν σ} {generation : String} {after : Position}
    {o : Option Position} (h : t.page repository rules generation after = .ok (o, t')) :
    (o = none ∧ t' = t ∧ Paging.remaining position after t.source.batchWindows = []) ∨
    ∃ g taken rest windows, ∃ hne : taken ≠ [],
      t.generations.get? generation = some g ∧
      Paging.remaining position after t.source.batchWindows = taken ++ rest ∧
      (taken.map BatchWindow.window).foldlM (repository.upsert rules) g.windows = .ok windows ∧
      o = some (position (taken.getLast hne)) ∧
      t' = t.setGeneration generation
        { g with windows := windows, after := position (taken.getLast hne) } := by
  unfold Tables.page at h
  have hsplit := Paging.page_append_drop position after repository.pageRows t.source.batchWindows
  cases hpage : Paging.page position after repository.pageRows t.source.batchWindows with
  | nil =>
      rw [hpage] at h
      cases h
      exact Or.inl ⟨rfl, rfl, (Paging.page_eq_nil_iff repository.pageRows_pos).mp hpage⟩
  | cons row rows =>
      rw [hpage] at h hsplit
      obtain ⟨g, hg, h⟩ := orFail_bind_eq_ok.mp h
      obtain ⟨⟨windows, after'⟩, hfold, h⟩ := bind_eq_ok.mp h
      obtain ⟨taken, rest, hrows, hwindows, hafter, hsome⟩ := foldRows_cases hfold
      have hne : taken ≠ [] := hsome rfl (List.cons_ne_nil _ _)
      rw [List.getLast?_eq_some_getLast hne, Option.map_some, Option.getD_some] at hafter
      subst hafter
      cases h
      rw [hrows, List.append_assoc] at hsplit
      exact Or.inr ⟨g, taken, _, windows, hne, hg, hsplit, hwindows, rfl, rfl⟩

/-- A page read from the stored place folds each of its windows once. -/
theorem Exact.page {items : List (BatchWindow (Window ν))} {g : ResultGeneration ν σ}
    {taken rest : List (BatchWindow (Window ν))} {windows : Dict String (ResultWindow ν σ)}
    (h : Exact repository rules items g) (hkeys : (items.map position).Nodup) (hne : taken ≠ [])
    (hremaining : Paging.remaining position g.after items = taken ++ rest)
    (hwindows : (taken.map BatchWindow.window).foldlM (repository.upsert rules) g.windows =
      .ok windows) :
    Exact repository rules items
      { g with windows := windows, after := position (taken.getLast hne) } := by
  have hincomplete : ¬ Complete items g := by
    intro hcomplete
    rw [show Paging.remaining position g.after items = [] from hcomplete] at hremaining
    exact hne (List.append_eq_nil_iff.mp hremaining.symm).1
  refine ⟨?_, fun key e he => absurd (h.entities key e he).1 hincomplete,
    fun hready => absurd (h.ready hready).1 hincomplete⟩
  unfold foldedItems
  show repository.foldWindows rules
    ((Paging.passed position (position (taken.getLast hne)) items).map BatchWindow.window) = _
  rw [Paging.passed_append_of_prefix hkeys hne hremaining, List.map_append, foldWindows_append]
  exact bind_eq_ok.mpr ⟨g.windows, h.folded, hwindows⟩

theorem Coordinated.page {s : State ν σ} (h : Coordinated repository rules s) {w : ℕ} {job : Job}
    {after : Position} (hphase : s.phase w = .folding job after)
    (hstored : (s.tables.generations.get? job.generation).map ResultGeneration.after = some after) :
    Coordinated repository rules
      (s.enter w (advanced repository rules s.tables (.folding job after))) := by
  obtain ⟨g, hg, rfl⟩ := Option.map_eq_some_iff.mp hstored
  unfold advanced
  dsimp only
  cases hpage : s.tables.page repository rules job.generation g.after with
  | error e => exact h.enter w (TablesGrow.refl _) h.exact trivial
  | ok r =>
      obtain ⟨o, t'⟩ := r
      rcases page_cases hpage with ⟨rfl, rfl, hnone⟩ |
        ⟨g', taken, rest, windows, hne, hg', hremaining, hwindows, rfl, rfl⟩
      · refine h.enter w (TablesGrow.refl _) h.exact ⟨g, hg, hnone, fun key _ hle => ?_⟩
        exact absurd (le_antisymm hle (Text.empty_le _)) (repository.entityText_ne_empty key)
      · obtain rfl := Option.some.inj (hg.symm.trans hg')
        have hexact := (h.exact _ g hg).page h.keys hne hremaining hwindows
        refine h.enter w (TablesGrow.set fun g' hg' => ?_) (exact_setGeneration h.exact hexact)
          ⟨_, Dict.get?_set_self ..⟩
        obtain rfl := Option.some.inj (hg.symm.trans hg')
        refine ⟨fun hcomplete => ?_, fun _ hkey => hkey, fun hready => hready⟩
        rw [show Paging.remaining position g.after s.tables.source.batchWindows = [] from hcomplete]
          at hremaining
        exact absurd (List.append_eq_nil_iff.mp hremaining.symm).1 hne

/-! ## Pages of entities -/

omit [LinearOrder σ] in
theorem nodup_entityTexts (g : ResultGeneration ν σ) :
    ((Tables.entityKeys g).map repository.entityText).Nodup :=
  (List.nodup_dedup _).map repository.entityText_injective

theorem Coordinated.entityPage {s : State ν σ} (h : Coordinated repository rules s) {w : ℕ}
    {job : Job} {after : String} (hphase : s.phase w = .scoring job after) :
    Coordinated repository rules
      (s.enter w (advanced repository rules s.tables (.scoring job after))) := by
  have hholds := h.phases w
  rw [hphase] at hholds
  obtain ⟨g, hg, hcomplete, hkeys⟩ := hholds
  have hexact := h.exact _ g hg
  unfold advanced Tables.entityPage
  dsimp only
  rw [hg]
  dsimp only
  have hsplit := Paging.page_append_drop repository.entityText after repository.pageRows
    (Tables.entityKeys g)
  cases hlast : (Paging.page repository.entityText after repository.pageRows
      (Tables.entityKeys g)).getLast? with
  | none =>
      have hnone := (Paging.page_eq_nil_iff repository.pageRows_pos).mp
        (List.getLast?_eq_none_iff.mp hlast)
      refine h.enter w (TablesGrow.refl _) h.exact ⟨g, hg, hcomplete, fun key hkey => ?_⟩
      refine hkeys key hkey (not_lt.mp fun hlt => ?_)
      have hmem := Paging.mem_remaining.mpr ⟨hkey, hlt⟩
      rw [hnone] at hmem
      cases hmem
  | some last =>
      generalize Paging.page repository.entityText after repository.pageRows
        (Tables.entityKeys g) = keys at hsplit hlast
      obtain ⟨entities, hscored, hvalues, hkept, hwritten⟩ := scoreEntities_spec rules g keys
      have hne : keys ≠ [] := by
        rintro rfl
        cases hlast
      have hpassed := Paging.passed_append_of_prefix (nodup_entityTexts g) hne hsplit
      rw [List.getLast?_eq_some_getLast hne] at hlast
      rw [Option.some.inj hlast] at hpassed
      rw [hscored]
      have hexact' : Exact repository rules s.tables.source.batchWindows
          { g with entities := entities } := by
        refine ⟨hexact.folded, fun key e he => ⟨hcomplete, ?_⟩, fun hready => ⟨hcomplete, ?_⟩⟩
        · rw [entityOf_congr rfl key]
          rcases hvalues key e he with hold | hnew
          · exact (hexact.entities key e hold).2
          · exact hnew
        · exact fun key hkey => hkept key ((hexact.ready hready).2 key hkey)
      refine h.enter w (TablesGrow.set fun g' hg' => ?_) (exact_setGeneration h.exact hexact')
        ⟨_, Dict.get?_set_self .., hcomplete, fun key hkey hle => ?_⟩
      · obtain rfl := Option.some.inj (hg.symm.trans hg')
        exact ⟨fun _ => ⟨rfl, rfl⟩, hkept, fun hready => hready⟩
      · have hmem := Paging.mem_passed.mpr ⟨hkey, hle⟩
        rw [show Tables.entityKeys { g with entities := entities } = Tables.entityKeys g from rfl,
          hpassed] at hmem
        rcases List.mem_append.mp hmem with hold | hnew
        · exact hkept key (hkeys key hkey (Paging.mem_passed.mp hold).2)
        · exact hwritten key hnew hkey

/-! ## The last transaction -/

theorem Coordinated.finish {s : State ν σ} (h : Coordinated repository rules s) {w : ℕ}
    {job : Job} (hphase : s.phase w = .finishing job) :
    Coordinated repository rules
      (s.enter w (advanced repository rules s.tables (.finishing job))) := by
  have hholds := h.phases w
  rw [hphase] at hholds
  obtain ⟨g, hg, hcomplete, hkeys⟩ := hholds
  unfold advanced
  dsimp only
  cases hfinish : s.tables.finish job.generation job.frontier job.request with
  | error e => exact h.enter w (TablesGrow.refl _) h.exact trivial
  | ok r =>
      unfold Tables.finish at hfinish
      obtain ⟨-, hfinish⟩ := require_bind_eq_ok.mp hfinish
      obtain ⟨-, hfinish⟩ := require_bind_eq_ok.mp hfinish
      obtain ⟨-, hfinish⟩ := require_bind_eq_ok.mp hfinish
      rw [hg] at hfinish
      cases hfinish
      have hexact := h.exact _ g hg
      refine h.enter w (TablesGrow.set fun g' hg' => ?_)
        (exact_setGeneration h.exact ⟨hexact.folded, hexact.entities, fun _ => ⟨hcomplete, hkeys⟩⟩)
        ⟨_, Dict.get?_set_self .., rfl⟩
      obtain rfl := Option.some.inj (hg.symm.trans hg')
      exact ⟨fun _ => ⟨rfl, rfl⟩, fun _ hkey => hkey, fun _ => rfl⟩

/-! ## Runs -/

/-- A change of the task row leaves the windows where they are. -/
theorem Coordinated.source {s : State ν σ} (h : Coordinated repository rules s)
    {source : TaskTables (Window ν)}
    (hitems : source.batchWindows = s.tables.source.batchWindows) :
    Coordinated repository rules { s with tables := { s.tables with source := source } } := by
  have hgrow : TablesGrow s.tables { s.tables with source := source } :=
    ⟨hitems, fun _ g hg => ⟨g, hg, Grows.refl _ g⟩⟩
  refine ⟨hitems ▸ h.keys, fun generation g hg => ?_, fun w => (h.phases w).mono hgrow⟩
  show Exact repository rules source.batchWindows g
  rw [hitems]
  exact h.exact generation g hg

omit [LinearOrder σ] in
theorem batchWindows_claim (now token : String) (t : TaskTables (Window ν)) :
    (settled t (t.claim now token)).batchWindows = t.batchWindows := by
  cases h : t.claim now token with
  | error e => rfl
  | ok r =>
      rw [settled_ok, (TaskTables.claim_cases h).2.2]
      rfl

theorem Coordinated.act {s : State ν σ} (h : Coordinated repository rules s) {a : Action}
    (hstored : UpToDate s a) : Coordinated repository rules (act repository rules s a) := by
  cases a with
  | begin w generated request => exact h.begin w generated request
  | crash w => exact h.enter w (TablesGrow.refl _) h.exact trivial
  | markInterrupted now => exact h.source rfl
  | claim now token => exact h.source (batchWindows_claim now token _)
  | advance w =>
      unfold Results.act
      dsimp only
      cases hphase : s.phase w with
      | folding job after =>
          refine h.page hphase (hstored (job.generation, after) ?_)
          rw [hphase]
          rfl
      | scoring job after => exact h.entityPage hphase
      | finishing job => exact h.finish hphase
      | idle => exact h.enter w (TablesGrow.refl _) h.exact trivial
      | done generation =>
          refine h.enter w (TablesGrow.refl _) h.exact ?_
          rw [← hphase]
          exact h.phases w
      | raised error => exact h.enter w (TablesGrow.refl _) h.exact trivial

theorem coordinated_initial (source : TaskTables (Window ν))
    (hkeys : (source.batchWindows.map position).Nodup) :
    Coordinated repository rules (State.initial source) :=
  ⟨hkeys, fun generation g hg => (by cases hg), fun w => trivial⟩

/-- The run rule: pages that start from the stored place fold each window once. -/
theorem coordinated_exec {s : State ν σ} (h : Coordinated repository rules s) {actions : List Action}
    (hstored : Along (act repository rules) UpToDate s actions) :
    Coordinated repository rules (exec (act repository rules) s actions) :=
  exec_invariant (fun _ _ h hs => h.act hs) h hstored

end LogRisk.Results
