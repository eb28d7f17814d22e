import LogRisk.Results.Overlap
import LogRisk.Results.Scores

/-!
# Crashes and resumptions

A worker on its own always reads from the stored place: it takes it up when it begins and
stores it with every page.  However often it crashed, the next build that is let run ends
with a ready generation, unless a window exceeds the bytes of a page or two identities have
one digest.
-/

namespace LogRisk.Results

open LogRisk.Library LogRisk.Library.Transaction LogRisk.Windows LogRisk.Streaming

variable {ν σ : Type}

/-! ## One worker -/

/-- No other worker acts. -/
def Action.By (w : ℕ) : Action → Prop
  | .begin w' _ _ => w' = w
  | .advance w' => w' = w
  | .crash w' => w' = w
  | .markInterrupted _ => True
  | .claim _ _ => True

variable {repository : Repository ν} {rules : Rules σ}

/-- The place of a phase is the stored one. -/
def Stored (t : Tables ν σ) (phase : Phase) : Prop :=
  ∀ place ∈ phase.place, (t.generations.get? place.1).map ResultGeneration.after = some place.2

theorem stored_started (generated : String) (request : Request) (t : Tables ν σ) :
    Stored (started generated request t).2 (started generated request t).1 := by
  unfold started
  cases hbegin : t.begin generated request with
  | error e => exact fun place hplace => by cases hplace
  | ok r =>
      obtain ⟨found, t'⟩ := r
      rcases begin_cases hbegin with ⟨generation, old, -, -, rfl, rfl⟩ |
        ⟨generation, old, hold, rfl, rfl⟩ | ⟨-, rfl, rfl⟩
      · exact fun place hplace => by cases hplace
      · intro place hplace
        obtain rfl := Option.some.inj hplace
        show (t'.generations.get? generation).map _ = _
        rw [hold]
        rfl
      · intro place hplace
        obtain rfl := Option.some.inj hplace
        show ((t.generations.set generated _).get? generated).map _ = _
        rw [Dict.get?_set_self]
        rfl

variable [LinearOrder σ]

theorem stored_advanced (t : Tables ν σ) (phase : Phase) :
    Stored (advanced repository rules t phase).2 (advanced repository rules t phase).1 := by
  cases phase with
  | folding job after =>
      unfold advanced
      dsimp only
      cases hpage : t.page repository rules job.generation after with
      | error e => exact fun place hplace => by cases hplace
      | ok r =>
          obtain ⟨o, t'⟩ := r
          rcases page_cases hpage with ⟨rfl, rfl, -⟩ | ⟨g, taken, rest, windows, hne, -, -, -, rfl, rfl⟩
          · exact fun place hplace => by cases hplace
          · intro place hplace
            obtain rfl := Option.some.inj hplace
            show ((t.generations.set job.generation _).get? job.generation).map _ = _
            rw [Dict.get?_set_self]
            rfl
  | scoring job after =>
      unfold advanced
      dsimp only
      cases t.entityPage repository rules job.generation after with
      | mk o t' => cases o <;> exact fun place hplace => by cases hplace
  | finishing job =>
      unfold advanced
      dsimp only
      cases t.finish job.generation job.frontier job.request with
      | error e => exact fun place hplace => by cases hplace
      | ok r => exact fun place hplace => by cases hplace
  | idle => exact fun place hplace => by cases hplace
  | done generation => exact fun place hplace => by cases hplace
  | raised error => exact fun place hplace => by cases hplace

theorem stored_act {s : State ν σ} {w : ℕ} {a : Action} (h : Stored s.tables (s.phase w))
    (ha : a.By w) : Stored (act repository rules s a).tables ((act repository rules s a).phase w) := by
  have hself : ∀ result : Phase × Tables ν σ, (s.enter w result).phase w = result.1 :=
    fun result => Function.update_self ..
  cases a with
  | begin w' generated request =>
      obtain rfl := ha
      unfold Results.act
      dsimp only
      rw [hself]
      exact stored_started generated request s.tables
  | advance w' =>
      obtain rfl := ha
      unfold Results.act
      dsimp only
      rw [hself]
      exact stored_advanced s.tables (s.phase w')
  | crash w' =>
      obtain rfl := ha
      unfold Results.act
      dsimp only
      rw [hself]
      exact fun place hplace => by cases hplace
  | markInterrupted now => exact h
  | claim now token => exact h

/-- Alone, a worker reads every page from the stored place. -/
theorem upToDate_of_stored {s : State ν σ} {w : ℕ} {a : Action} (h : Stored s.tables (s.phase w))
    (ha : a.By w) : UpToDate s a := by
  cases a with
  | advance w' =>
      obtain rfl := ha
      exact h
  | begin w' generated request => trivial
  | crash w' => trivial
  | markInterrupted now => trivial
  | claim now token => trivial

/-- A coordinated state in which a worker knows the stored place. -/
structure Alone (repository : Repository ν) (rules : Rules σ) (w : ℕ) (s : State ν σ) : Prop where
  coordinated : Coordinated repository rules s
  stored : Stored s.tables (s.phase w)

theorem Alone.act {s : State ν σ} {w : ℕ} (h : Alone repository rules w s) {a : Action}
    (ha : a.By w) : Alone repository rules w (act repository rules s a) :=
  ⟨h.coordinated.act (upToDate_of_stored h.stored ha), stored_act h.stored ha⟩

theorem Alone.exec {s : State ν σ} {w : ℕ} (h : Alone repository rules w s) {actions : List Action}
    (hsolo : ∀ a ∈ actions, a.By w) :
    Alone repository rules w (exec (Results.act repository rules) s actions) := by
  induction actions generalizing s with
  | nil => exact h
  | cons a actions ih =>
      exact ih (h.act (hsolo a List.mem_cons_self)) fun b hb => hsolo b (List.mem_cons_of_mem _ hb)

/-! ## Running on -/

/-- A worker that is let go on. -/
def runOn (repository : Repository ν) (rules : Rules σ) (w n : ℕ) (s : State ν σ) : State ν σ :=
  exec (act repository rules) s (List.replicate n (.advance w))

theorem runOn_succ (w n : ℕ) (s : State ν σ) : runOn repository rules w (n + 1) s =
    runOn repository rules w n (act repository rules s (.advance w)) := rfl

theorem runOn_add (w m n : ℕ) (s : State ν σ) : runOn repository rules w (m + n) s =
    runOn repository rules w n (runOn repository rules w m s) := by
  unfold runOn
  rw [List.replicate_add, exec_append]

theorem Alone.runOn {s : State ν σ} {w : ℕ} (h : Alone repository rules w s) (n : ℕ) :
    Alone repository rules w (runOn repository rules w n s) :=
  h.exec fun a ha => List.eq_of_mem_replicate ha ▸ rfl

theorem source_runOn (w n : ℕ) (s : State ν σ) :
    (runOn repository rules w n s).tables.source = s.tables.source := by
  induction n generalizing s with
  | zero => rfl
  | succ n ih => exact (ih _).trans (source_advanced s.tables (s.phase w))

theorem advance_of {s : State ν σ} {w : ℕ} {result : Phase × Tables ν σ}
    (h : advanced repository rules s.tables (s.phase w) = result) :
    (act repository rules s (.advance w)).phase w = result.1 ∧
      (act repository rules s (.advance w)).tables = result.2 := by
  subst h
  exact ⟨Function.update_self .., rfl⟩

theorem advanced_folding {t t' : Tables ν σ} {job : Job} {after : Position} {o : Option Position}
    (h : t.page repository rules job.generation after = .ok (o, t')) :
    advanced repository rules t (.folding job after) =
      (o.elim (.scoring job "") (.folding job), t') := by
  unfold advanced
  dsimp only
  rw [h]
  cases o <;> rfl

omit [LinearOrder σ] in
theorem mem_committedWindows {items : List (BatchWindow (Window ν))} {w : Window ν} :
    w ∈ committedWindows items ↔ ∃ item ∈ items, item.window = w := by
  unfold committedWindows
  rw [List.mem_map]
  constructor
  · rintro ⟨item, hitem, rfl⟩
    exact ⟨item, Paging.mem_ordered.mp hitem, rfl⟩
  · rintro ⟨item, hitem, rfl⟩
    exact ⟨item, Paging.mem_ordered.mpr hitem, rfl⟩

/-- Every window fits into a page, and digests keep the identities apart. -/
structure Buildable (repository : Repository ν) (items : List (BatchWindow (Window ν))) : Prop where
  budget : ∀ item ∈ items, repository.size item.window ≤ pageBytes
  separates : repository.Separates (committedWindows items)

theorem exists_page {t : Tables ν σ} {generation : String} {g : ResultGeneration ν σ}
    (hbuildable : Buildable repository t.source.batchWindows)
    (hg : t.generations.get? generation = some g)
    (hexact : Exact repository rules t.source.batchWindows g) :
    ∃ r, t.page repository rules generation g.after = .ok r := by
  unfold Tables.page
  have hmem : ∀ item ∈ Paging.page position g.after repository.pageRows t.source.batchWindows,
      item ∈ t.source.batchWindows :=
    fun item hitem => (Paging.mem_remaining.mp (List.mem_of_mem_take hitem)).1
  cases hpage : Paging.page position g.after repository.pageRows t.source.batchWindows with
  | nil => exact ⟨_, rfl⟩
  | cons row rows =>
      rw [hpage] at hmem
      have hseparates : repository.Separates
          (foldedItems t.source.batchWindows g ++ (row :: rows).map BatchWindow.window) := by
        have hitems : ∀ v ∈ foldedItems t.source.batchWindows g ++
            (row :: rows).map BatchWindow.window, v ∈ committedWindows t.source.batchWindows := by
          intro v hv
          rcases List.mem_append.mp hv with hv | hv
          · obtain ⟨item, hitem, rfl⟩ := List.mem_map.mp hv
            exact mem_committedWindows.mpr ⟨item, (Paging.mem_passed.mp hitem).1, rfl⟩
          · obtain ⟨item, hitem, rfl⟩ := List.mem_map.mp hv
            exact mem_committedWindows.mpr ⟨item, hmem item hitem, rfl⟩
        exact fun v hv u hu => hbuildable.separates v (hitems v hv) u (hitems u hu)
      obtain ⟨windows, hwindows⟩ := exists_foldWindows hseparates
      rw [foldWindows_append, hexact.folded] at hwindows
      obtain ⟨r, hr⟩ := exists_foldRows (fun item hitem => hbuildable.budget item (hmem item hitem))
        hwindows g.after 0
      exact ⟨_, orFail_bind_eq_ok.mpr ⟨g, hg, bind_eq_ok.mpr ⟨r, hr, rfl⟩⟩⟩

/-- All pages of windows are read. -/
theorem exists_scoring {s : State ν σ} {w : ℕ} {job : Job} {after : Position}
    (h : Alone repository rules w s) (hbuildable : Buildable repository s.tables.source.batchWindows)
    (hphase : s.phase w = .folding job after) :
    ∃ n, (runOn repository rules w n s).phase w = .scoring job "" := by
  generalize hlength : (Paging.remaining position after s.tables.source.batchWindows).length = n
  induction n using Nat.strong_induction_on generalizing s after with
  | h n ih =>
      have hstored := h.stored (job.generation, after) (by rw [hphase]; rfl)
      obtain ⟨g, hg, hafter⟩ := Option.map_eq_some_iff.mp hstored
      dsimp only at hg hafter
      subst hafter
      obtain ⟨⟨o, t'⟩, hpage⟩ :=
        exists_page hbuildable hg (h.coordinated.exact _ g hg)
      have hnext : advanced repository rules s.tables (s.phase w) =
          (o.elim (.scoring job "") (.folding job), t') := by
        rw [hphase]
        exact advanced_folding hpage
      rcases page_cases hpage with ⟨rfl, rfl, -⟩ |
        ⟨g', taken, rest, windows, hne, -, hremaining, -, rfl, rfl⟩
      · exact ⟨1, (advance_of hnext).1⟩
      · have hitems : (act repository rules s (.advance w)).tables.source.batchWindows =
            s.tables.source.batchWindows := items_act s (.advance w)
        have hadvance : Action.By w (.advance w) := rfl
        have hrest := Paging.remaining_prefix_append h.coordinated.keys hne hremaining
        have hshorter : rest.length < n := by
          have hpositive : 0 < taken.length := List.length_pos_of_ne_nil hne
          rw [hremaining, List.length_append] at hlength
          omega
        obtain ⟨m, hm⟩ := ih rest.length hshorter (h.act hadvance) (hitems ▸ hbuildable)
          (advance_of hnext).1 (by rw [hitems, hrest])
        exact ⟨m + 1, hm⟩

/-- All pages of entities are read. -/
theorem exists_finishing {s : State ν σ} {w : ℕ} {job : Job} {after : String}
    (h : Alone repository rules w s) (hphase : s.phase w = .scoring job after) :
    ∃ n, (runOn repository rules w n s).phase w = .finishing job := by
  have hholds := h.coordinated.phases w
  rw [hphase] at hholds
  obtain ⟨g, hg, -, -⟩ := hholds
  generalize hlength :
    (Paging.remaining repository.entityText after (Tables.entityKeys g)).length = n
  induction n using Nat.strong_induction_on generalizing s after g with
  | h n ih =>
      have hadvance : Action.By w (.advance w) := rfl
      have hsplit := Paging.page_append_drop repository.entityText after repository.pageRows
        (Tables.entityKeys g)
      cases hlast : (Paging.page repository.entityText after repository.pageRows
          (Tables.entityKeys g)).getLast? with
      | none =>
          refine ⟨1, (advance_of ?_).1.trans (rfl : (Phase.finishing job, s.tables).1 = _)⟩
          rw [hphase]
          unfold advanced Tables.entityPage
          dsimp only
          rw [hg]
          dsimp only
          rw [hlast]
      | some last =>
          generalize hkeys : Paging.page repository.entityText after repository.pageRows
            (Tables.entityKeys g) = keys at hsplit hlast
          obtain ⟨entities, hscored, -, -, -⟩ := scoreEntities_spec rules g keys
          have hnext : advanced repository rules s.tables (s.phase w) =
              (.scoring job (repository.entityText last),
                s.tables.setGeneration job.generation { g with entities := entities }) := by
            rw [hphase]
            unfold advanced Tables.entityPage
            dsimp only
            rw [hg]
            dsimp only
            rw [hkeys, hlast, hscored]
          have hne : keys ≠ [] := by
            rintro rfl
            cases hlast
          rw [List.getLast?_eq_some_getLast hne] at hlast
          have hrest := Paging.remaining_prefix_append (nodup_entityTexts g) hne hsplit
          rw [Option.some.inj hlast] at hrest
          obtain ⟨hphase', htables⟩ := advance_of hnext
          have hshorter :
              (Paging.remaining repository.entityText (repository.entityText last)
                (Tables.entityKeys g)).length < n := by
            have hpositive : 0 < keys.length := List.length_pos_of_ne_nil hne
            rw [hsplit, List.length_append] at hlength
            rw [hrest]
            omega
          obtain ⟨m, hm⟩ := ih _ hshorter (h.act hadvance) hphase' { g with entities := entities }
            (by rw [htables]; exact Dict.get?_set_self ..) rfl
          exact ⟨m + 1, hm⟩

/-- The last transaction goes through where nothing changed meanwhile. -/
theorem advanced_finishing {t : Tables ν σ} {job : Job} {g : ResultGeneration ν σ}
    (hg : t.generations.get? job.generation = some g)
    (hfrontier : t.source.row.cursor = job.frontier) (hleased : t.Leased job.request.leaseToken)
    (hcommits : t.source.commits.length = job.request.evidence.committedBatches) :
    ∃ t', advanced repository rules t (.finishing job) = (.done job.generation, t') := by
  have hfinish : ∃ t', t.finish job.generation job.frontier job.request = .ok ((), t') := by
    unfold Tables.finish
    rw [hg]
    exact ⟨_, require_bind_eq_ok.mpr ⟨hfrontier, require_bind_eq_ok.mpr ⟨hleased,
      require_bind_eq_ok.mpr ⟨hcommits, rfl⟩⟩⟩⟩
  obtain ⟨t', ht'⟩ := hfinish
  refine ⟨t', ?_⟩
  unfold advanced
  dsimp only
  rw [ht']

/-! ## What a ready generation agrees with -/

/-- The windows merged and scored in memory. -/
structure AgreesWithMemory (rules : Rules σ) (items : List (BatchWindow (Window ν)))
    (g : ResultGeneration ν σ) : Prop where
  windows : ∀ k n, (∃ row ∈ g.windows.values, row.canonical = k ∧ row.count = n) ↔
    ∃ m ∈ mergeTemplateWindows (committedWindows items), m.identity = k ∧ m.count = n
  entities : ∀ key e, g.entities.get? key = some e ↔
    (key, e) ∈ scoreRiskEntities rules (mergeTemplateWindows (committedWindows items))
  total : g.windows.total ResultWindow.count = ((committedWindows items).map Window.count).sum

theorem mem_entityKeys_of_entityOf {g : ResultGeneration ν σ} {key : EntityKey} {e : EntityScore σ}
    (h : Tables.entityOf rules g key = some e) : key ∈ Tables.entityKeys g := by
  unfold Tables.entityOf at h
  obtain ⟨peak, hpeak, -⟩ := Option.map_eq_some_iff.mp h
  obtain ⟨row, hrow, -⟩ := List.mem_map.mp (List.max?_eq_some_iff.mp hpeak).1
  obtain ⟨hrow, hkey⟩ := List.mem_filter.mp hrow
  exact List.mem_dedup.mpr (List.mem_map.mpr ⟨row, hrow, of_decide_eq_true hkey⟩)

theorem Exact.agreesWithMemory {items : List (BatchWindow (Window ν))} {g : ResultGeneration ν σ}
    (h : Exact repository rules items g) (hready : g.status = .ready) :
    AgreesWithMemory rules items g := by
  have honce := h.foldedOnce hready
  have hfolded := folded_foldWindows honce.windows
  have hperm := outlines_perm hfolded
  refine ⟨fun k n => ?_, fun key e => ?_, honce.total⟩
  · constructor
    · rintro ⟨row, hrow, rfl, rfl⟩
      obtain ⟨m, hm, houtline⟩ := List.mem_map.mp (hperm.mem_iff.mp (List.mem_map_of_mem hrow))
      exact ⟨m, hm, congrArg Outline.identity houtline, congrArg Outline.count houtline⟩
    · rintro ⟨m, hm, rfl, rfl⟩
      have hmem : outlineOf rules m ∈
          (mergeTemplateWindows (committedWindows items)).map (outlineOf rules) :=
        List.mem_map_of_mem hm
      obtain ⟨row, hrow, houtline⟩ := List.mem_map.mp (hperm.mem_iff.mpr hmem)
      exact ⟨row, hrow, congrArg Outline.identity houtline, congrArg Outline.count houtline⟩
  · rw [mem_scoreRiskEntities, ← entityOf_eq hfolded]
    constructor
    · exact fun he => (h.entities key e he).2
    · intro he
      obtain ⟨e', he'⟩ := Dict.mem_keys.mp
        ((h.ready hready).2 key (mem_entityKeys_of_entityOf he))
      rw [he']
      exact (h.entities key e' he').2.symm.trans he

/-! ## Every crash is recovered from -/

omit [LinearOrder σ] in
theorem started_cases {generated : String} {request : Request} {t : Tables ν σ}
    (hleased : t.Leased request.leaseToken) (hfresh : t.generations.get? generated = none) :
    (∃ generation, (started generated request t).1 = .done generation) ∨
      ∃ generation after, (started generated request t).1 =
        .folding ⟨request, generation, t.source.row.cursor⟩ after := by
  obtain ⟨found, t', hbegin⟩ := exists_begin hleased hfresh
  unfold started
  rw [hbegin]
  cases found with
  | ready generation => exact Or.inl ⟨generation, rfl⟩
  | building generation after => exact Or.inr ⟨generation, after, rfl⟩

/-- A build that is let run is done some day. -/
theorem exists_done {s : State ν σ} {w : ℕ} {generated : String} {request : Request}
    (h : Alone repository rules w s)
    (hbuildable : Buildable repository s.tables.source.batchWindows)
    (hleased : s.tables.Leased request.leaseToken)
    (hcommits : s.tables.source.commits.length = request.evidence.committedBatches)
    (hfresh : s.tables.generations.get? generated = none) :
    ∃ n generation, (runOn repository rules w n
      (act repository rules s (.begin w generated request))).phase w = .done generation := by
  have hbegin : Action.By w (.begin w generated request) := rfl
  have halone := h.act hbegin
  have hsource : (act repository rules s (.begin w generated request)).tables.source =
      s.tables.source := source_started generated request s.tables
  have hphase : (act repository rules s (.begin w generated request)).phase w =
      (started generated request s.tables).1 := Function.update_self ..
  rcases started_cases hleased hfresh with ⟨generation, hdone⟩ | ⟨generation, after, hfolding⟩
  · exact ⟨0, generation, hphase.trans hdone⟩
  · rw [hfolding] at hphase
    generalize act repository rules s (.begin w generated request) = begun
      at halone hsource hphase ⊢
    obtain ⟨m, hm⟩ := exists_scoring halone (hsource ▸ hbuildable) hphase
    obtain ⟨n, hn⟩ := exists_finishing (halone.runOn m) hm
    rw [← runOn_add] at hn
    have hholds := (halone.runOn (m + n)).coordinated.phases w
    rw [hn] at hholds
    obtain ⟨g, hg, -, -⟩ := hholds
    have hsame : (runOn repository rules w (m + n) begun).tables.source = s.tables.source :=
      (source_runOn w (m + n) begun).trans hsource
    obtain ⟨t', hdone⟩ := advanced_finishing hg (by rw [hsame])
      (by unfold Tables.Leased; rw [hsame]; exact hleased) (by rw [hsame]; exact hcommits)
    refine ⟨m + n + 1, generation, ?_⟩
    rw [runOn_add]
    exact (advance_of (hn.symm ▸ hdone)).1

/-- Whatever came before, a build that holds the lease and is let run leaves a ready
generation that agrees with what is merged and scored in memory. -/
theorem resumed_build_agrees (repository : Repository ν) (rules : Rules σ)
    (source : TaskTables (Window ν)) (hkeys : (source.batchWindows.map position).Nodup)
    (hbuildable : Buildable repository source.batchWindows) (w : ℕ) (history : List Action)
    (hsolo : ∀ a ∈ history, a.By w) {s : State ν σ}
    (hs : s = exec (act repository rules) (State.initial source) history)
    (generated : String) (request : Request) (hleased : s.tables.Leased request.leaseToken)
    (hcommits : s.tables.source.commits.length = request.evidence.committedBatches)
    (hfresh : s.tables.generations.get? generated = none) :
    ∃ n generation g, ∃ final : State ν σ,
      final = runOn repository rules w n (act repository rules s (.begin w generated request)) ∧
      final.phase w = .done generation ∧ final.tables.generations.get? generation = some g ∧
      g.status = .ready ∧ AgreesWithMemory rules source.batchWindows g := by
  have hinitial : Alone repository rules w (State.initial source) :=
    ⟨coordinated_initial source hkeys, fun place hplace => by cases hplace⟩
  have halone : Alone repository rules w s := hs ▸ hinitial.exec hsolo
  have hitems : s.tables.source.batchWindows = source.batchWindows := by
    rw [hs]
    exact items_exec _ history
  obtain ⟨n, generation, hdone⟩ := exists_done halone (hitems.symm ▸ hbuildable) hleased hcommits hfresh
  have hbegin : Action.By w (.begin w generated request) := rfl
  have hcoordinated := ((halone.act hbegin).runOn n).coordinated
  have hholds := hcoordinated.phases w
  rw [hdone] at hholds
  obtain ⟨g, hg, hready⟩ := hholds
  have hexact := hcoordinated.exact generation g hg
  rw [source_runOn, items_act, hitems] at hexact
  exact ⟨n, generation, g, _, rfl, hdone, hg, hready, hexact.agreesWithMemory hready⟩

/-- A build that crashed after its first page, and the task claimed anew. -/
def crashedOnce : List Action :=
  [.claim "now" "a", .begin 0 "g" ⟨"rules", evidenceOnce, "a"⟩, .advance 0, .crash 0,
    .markInterrupted "now", .claim "now" "b"]

theorem resumed_build_agrees_crashed_once :
    ∃ n generation g, ∃ final : State Unit ℕ,
      final = runOn (textual 512) countRules 0 n (act (textual 512) countRules
        (exec (act (textual 512) countRules) (State.initial committedOnce) crashedOnce)
        (.begin 0 "h" ⟨"rules", evidenceOnce, "b"⟩)) ∧
      final.phase 0 = .done generation ∧ final.tables.generations.get? generation = some g ∧
      g.status = .ready ∧ AgreesWithMemory countRules committedOnce.batchWindows g := by
  have hwindows : committedWindows committedOnce.batchWindows = [failedOnce] := rfl
  have hbuildable : Buildable (textual 512) committedOnce.batchWindows := by
    refine ⟨fun item _ => ?_, fun w hw v hv _ => ?_⟩
    · show 512 ≤ pageBytes
      decide
    · rw [hwindows] at hw hv
      rw [List.mem_singleton.mp hw, List.mem_singleton.mp hv]
  exact resumed_build_agrees (textual 512) countRules committedOnce (by decide +kernel) hbuildable 0
    crashedOnce (by unfold crashedOnce; simp [Action.By]) rfl "h" ⟨"rules", evidenceOnce, "b"⟩
    (by decide +kernel) (by decide +kernel) (by decide +kernel)

theorem runOn_raised {s : State ν σ} {w : ℕ} {error : BuildError}
    (h : s.phase w = .raised error) (n : ℕ) :
    (runOn repository rules w n s).phase w = .raised error := by
  induction n generalizing s with
  | zero => exact h
  | succ n ih =>
      have hstays : advanced repository rules s.tables (s.phase w) = (.raised error, s.tables) := by
        rw [h]
        rfl
      exact ih (advance_of hstays).1

/-- A build that began, over a window one byte above the bytes of a page. -/
def begunOversized : State Unit ℕ :=
  exec (act (textual (pageBytes + 1)) countRules) (State.initial committedOnce)
    [.claim "now" "a", .begin 0 "g" ⟨"rules", evidenceOnce, "a"⟩]

/-- It never ends. -/
theorem oversized_window_is_never_ready :
    ¬ ∃ n generation, (runOn (textual (pageBytes + 1)) countRules 0 n begunOversized).phase 0 =
      .done generation := by
  rintro ⟨n, generation, hdone⟩
  cases n with
  | zero => cases hdone
  | succ n =>
      have hraised : (act (textual (pageBytes + 1)) countRules begunOversized (.advance 0)).phase 0 =
          .raised .budget := rfl
      rw [runOn_succ, runOn_raised hraised n] at hdone
      cases hdone

end LogRisk.Results
