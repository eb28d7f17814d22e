import LogRisk.NodeRisk.Projection

/-!
# The ledger's accounts

What an event counts is the sum over the contributions that are current.  A
revision moves a contribution from one event to another; on the way the counts of
these two events are pending, and the refresh settles them.
-/

namespace LogRisk.NodeRisk

open LogRisk.Library LogRisk.Library.Transaction

/-! ## Sums of contributions -/

def weight (eventId : String) (i : Ingestion) : ℕ :=
  if i.eventId = eventId ∧ i.isCurrent = true then i.occurrenceCount else 0

/-- The sum over the current contributions to an event. -/
def currentTotal (t : Tables) (eventId : String) : ℕ := t.ingestions.total (weight eventId)

theorem weight_of_ne {eventId : String} {i : Ingestion} (h : i.eventId ≠ eventId) :
    weight eventId i = 0 := if_neg fun hi => h hi.1

theorem sum_contributionsTo (t : Tables) (eventId : String) :
    ((t.contributionsTo eventId).map (·.occurrenceCount)).sum = currentTotal t eventId := by
  have hsum : ∀ rows : List Ingestion,
      ((rows.filter fun i => i.eventId = eventId ∧ i.isCurrent).map (·.occurrenceCount)).sum =
        (rows.map (weight eventId)).sum := by
    intro rows
    induction rows with
    | nil => rfl
    | cons i rows ih =>
        by_cases hi : i.eventId = eventId ∧ i.isCurrent = true
        · rw [List.filter_cons_of_pos (by simpa using hi), List.map_cons, List.map_cons,
            List.sum_cons, List.sum_cons, ih, weight, if_pos hi]
        · rw [List.filter_cons_of_neg (by simpa using hi), List.map_cons, List.sum_cons, ih, weight,
            if_neg hi, Nat.zero_add]
  exact hsum t.ingestions.values

/-- The event counts what its contributions add up to. -/
structure Counted (total : ℕ) (e : RiskEvent) : Prop where
  current : e.currentOccurrenceCount = some total
  occurrence : e.derivationStatus = .current → e.occurrenceCount = total
  superseded : e.derivationStatus = .superseded → total = 0

/-- All events are counted, apart from those that are pending. -/
structure Booked (t : Tables) (pending : String → Prop) : Prop where
  ids : ∀ id e, t.events.get? id = some e → e.eventId = id
  known : ∀ fp i, t.ingestions.get? fp = some i → i.eventId ∈ t.events.keys
  counted : ∀ id e, t.events.get? id = some e → ¬pending id → Counted (currentTotal t id) e

/-- A physical contribution has one current revision. -/
def PhysicalUnique (t : Tables) : Prop :=
  ∀ key fp fp' i i', t.ingestions.get? fp = some i → t.ingestions.get? fp' = some i' →
    i.physicalKey = some key → i'.physicalKey = some key → i.isCurrent = true →
    i'.isCurrent = true → fp = fp'

theorem Booked.imp {t : Tables} {p q : String → Prop} (h : Booked t p) (hpq : ∀ id, p id → q id) :
    Booked t q :=
  ⟨h.ids, h.known, fun id e he hq => h.counted id e he fun hp => hq (hpq id hp)⟩

theorem Booked.congr {t t' : Tables} {p : String → Prop} (h : Booked t p)
    (hevents : t'.events = t.events) (hingestions : t'.ingestions = t.ingestions) : Booked t' p := by
  refine ⟨hevents ▸ h.ids, hevents ▸ hingestions ▸ h.known, ?_⟩
  intro id e he hp
  rw [currentTotal, hingestions]
  exact h.counted id e (hevents ▸ he) hp

/-! ## Single writes -/

theorem Booked.setEvent {t : Tables} {p : String → Prop} (h : Booked t p) {id : String}
    {e : RiskEvent} (hid : e.eventId = id) : Booked (t.setEvent id e) fun x => p x ∨ x = id := by
  refine ⟨?_, ?_, ?_⟩
  · intro x f hf
    rw [Tables.setEvent_events, Dict.get?_set] at hf
    split at hf
    · rename_i heq
      obtain rfl := Option.some.inj hf
      exact hid.trans heq
    · exact h.ids x f hf
  · intro fp i hi
    exact Dict.mem_keys_alter.mpr (Or.inl (h.known fp i hi))
  · intro x f hf hx
    rw [not_or] at hx
    rw [Tables.setEvent_events, Dict.get?_set_of_ne (Ne.symm hx.2)] at hf
    exact h.counted x f hf hx.1

/-- Writing an event that counts right settles it. -/
theorem Booked.setCounted {t : Tables} {p : String → Prop} (h : Booked t p) {id : String}
    {e : RiskEvent} (hid : e.eventId = id) (hcounted : Counted (currentTotal t id) e) :
    Booked (t.setEvent id e) fun x => p x ∧ x ≠ id := by
  have hbooked := h.setEvent hid
  refine ⟨hbooked.ids, hbooked.known, fun x f hf hx => ?_⟩
  by_cases heq : x = id
  · subst heq
    rw [Tables.setEvent_events, Dict.get?_set_self] at hf
    obtain rfl := Option.some.inj hf
    exact hcounted
  · rw [Tables.setEvent_events, Dict.get?_set_of_ne (Ne.symm heq)] at hf
    exact h.counted x f hf fun hp => hx ⟨hp, heq⟩

theorem refreshed_eventId (e : RiskEvent) (rows : List Ingestion) :
    (refreshed e rows).eventId = e.eventId := by
  rw [refreshed]
  split
  · rfl
  · split <;> rfl

theorem refreshed_counted (t : Tables) (e : RiskEvent) (id : String) :
    Counted (currentTotal t id) (refreshed e (t.contributionsTo id)) := by
  rw [← sum_contributionsTo, refreshed]
  split
  · rename_i hnil
    rw [hnil]
    exact ⟨rfl, (by intro h; cases h), fun _ => rfl⟩
  · split <;> exact ⟨rfl, fun _ => rfl, (by intro h; cases h)⟩

theorem Booked.refreshEvent {t : Tables} {p : String → Prop} (h : Booked t p) (id : String) :
    Booked (refreshEvent t id) fun x => p x ∧ x ≠ id := by
  rw [NodeRisk.refreshEvent]
  split
  · rename_i hnone
    refine ⟨h.ids, h.known, fun x e he hx => h.counted x e he fun hp => hx ⟨hp, ?_⟩⟩
    rintro rfl
    cases hnone.symm.trans he
  · rename_i e he
    exact h.setCounted ((refreshed_eventId e _).trans (h.ids id e he)) (refreshed_counted t e id)

theorem currentTotal_setIngestion_new {t : Tables} {fp : String} (hfp : fp ∉ t.ingestions.keys)
    (i : Ingestion) (id : String) :
    currentTotal (t.setIngestion fp i) id = currentTotal t id + weight id i :=
  Dict.total_set_of_notMem hfp i (weight id)

theorem currentTotal_demoted {t : Tables} {fp : String} {i : Ingestion}
    (hfp : t.ingestions.get? fp = some i) {id : String} (hid : i.eventId ≠ id) :
    currentTotal (t.setIngestion fp { i with isCurrent := false }) id = currentTotal t id := by
  have htotal := Dict.total_set_of_get? hfp { i with isCurrent := false } (weight id)
  rw [weight_of_ne hid, weight_of_ne (by exact hid)] at htotal
  exact htotal

theorem Booked.demoted {t : Tables} {p : String → Prop} (h : Booked t p) {fp : String}
    {i : Ingestion} (hfp : t.ingestions.get? fp = some i) :
    Booked (t.setIngestion fp { i with isCurrent := false }) fun x => p x ∨ x = i.eventId := by
  refine ⟨h.ids, ?_, ?_⟩
  · intro fp' i' hi'
    rw [Tables.setIngestion_ingestions, Dict.get?_set] at hi'
    split at hi'
    · obtain rfl := Option.some.inj hi'
      exact h.known fp i hfp
    · exact h.known fp' i' hi'
  · intro x e he hx
    rw [not_or] at hx
    rw [currentTotal_demoted hfp (Ne.symm hx.2)]
    exact h.counted x e he hx.1

theorem Booked.ingested {t : Tables} {p : String → Prop} (h : Booked t p) {fp : String}
    (hfp : fp ∉ t.ingestions.keys) {i : Ingestion} (hi : i.eventId ∈ t.events.keys) :
    Booked (t.setIngestion fp i) fun x => p x ∨ x = i.eventId := by
  refine ⟨h.ids, ?_, ?_⟩
  · intro fp' i' hi'
    rw [Tables.setIngestion_ingestions, Dict.get?_set] at hi'
    split at hi'
    · obtain rfl := Option.some.inj hi'
      exact hi
    · exact h.known fp' i' hi'
  · intro x e he hx
    rw [not_or] at hx
    rw [currentTotal_setIngestion_new hfp, weight_of_ne (Ne.symm hx.2), Nat.add_zero]
    exact h.counted x e he hx.1

/-! ## Ingesting -/

theorem currentOf_eq_some {t : Tables} {key : Option String} {fp : String} {i : Ingestion}
    (h : t.currentOf key = some (fp, i)) :
    t.ingestions.get? fp = some i ∧ i.physicalKey = key ∧ i.isCurrent = true := by
  cases key with
  | none => cases h
  | some key =>
      have hmem := List.mem_of_find?_eq_some h
      have hfound := List.find?_some h
      simp only [Bool.decide_and, Bool.decide_eq_true, Bool.and_eq_true, decide_eq_true_eq] at hfound
      exact ⟨Dict.get?_eq_some.mpr hmem, hfound.1, hfound.2⟩

theorem currentOf_eq_none {t : Tables} {key fp : String} {i : Ingestion}
    (h : t.currentOf (some key) = none) (hi : t.ingestions.get? fp = some i)
    (hkey : i.physicalKey = some key) : i.isCurrent = false := by
  have hnone := List.find?_eq_none.mp h (fp, i) (Dict.get?_eq_some.mp hi)
  simpa [hkey] using hnone

theorem eventAt_eq_some {t : Tables} {p : String → Prop} (h : Booked t p) {dedup : String}
    {windowStart : IsoTime} {e : RiskEvent} (he : t.eventAt dedup windowStart = some e) :
    t.events.get? e.eventId = some e := by
  obtain ⟨id, hid⟩ := Dict.mem_values.mp (List.mem_of_find?_eq_some he)
  rw [h.ids id e hid]
  exact hid

/-- The event of a contribution, and what is pending once it is written: this
event, apart from the counts it had. -/
theorem upsertEvent_spec {t t' : Tables} {d : Draft} {c : IngestCall}
    {existing : Option RiskEvent} {e : RiskEvent}
    (hok : upsertEvent t d c existing = .ok (e, t')) :
    t' = t.setEvent e.eventId e ∧
      (∀ old ∈ existing, e.eventId = old.eventId ∧ e.derivationStatus = old.derivationStatus ∧
        e.occurrenceCount = old.occurrenceCount + d.count) ∧
      (existing = none → e.eventId ∉ t.events.keys ∧ e.derivationStatus = .current ∧
        e.occurrenceCount = d.count) := by
  cases existing with
  | some old =>
      obtain ⟨rfl, rfl⟩ := Prod.mk.inj (Except.ok.inj hok)
      refine ⟨rfl, fun x hx => ?_, (by intro h; cases h)⟩
      obtain rfl := Option.some.inj hx
      exact ⟨rfl, rfl, rfl⟩
  | none =>
      obtain ⟨hfresh, hok⟩ := require_bind_eq_ok.mp hok
      obtain ⟨rfl, rfl⟩ := Prod.mk.inj (Except.ok.inj hok)
      exact ⟨rfl, (by intro x hx; cases hx), fun _ => ⟨hfresh, rfl, rfl⟩⟩

/-- Where nothing refers to an event, nothing is counted for it. -/
theorem currentTotal_unknown {t : Tables} {p : String → Prop} (h : Booked t p) {id : String}
    (hid : id ∉ t.events.keys) : currentTotal t id = 0 := by
  refine List.sum_eq_zero fun n hn => ?_
  obtain ⟨i, hi, rfl⟩ := List.mem_map.mp hn
  obtain ⟨fp, hfp⟩ := Dict.mem_values.mp hi
  refine weight_of_ne fun heq => hid ?_
  rw [← heq]
  exact h.known fp i hfp

theorem releasePrevious_booked {t : Tables} {p : String → Prop} {now : IsoTime}
    {previous : Option (String × Ingestion)}
    (h : Booked t fun x => p x ∨ ∃ q ∈ previous, x = q.2.eventId) :
    Booked (releasePrevious t now previous) p := by
  cases previous with
  | none =>
      refine h.imp fun x hx => ?_
      rcases hx with hp | ⟨q, hq, -⟩
      · exact hp
      · cases hq
  | some q =>
      have hrefreshed : Booked (refreshEvent t q.2.eventId) p := by
        refine (h.refreshEvent q.2.eventId).imp ?_
        rintro x ⟨hp | ⟨q', hq', rfl⟩, hne⟩
        · exact hp
        · obtain rfl := Option.some.inj hq'
          exact absurd rfl hne
      rw [releasePrevious]
      split
      · exact hrefreshed
      · exact hrefreshed.congr rfl rfl

/-- The event of the previous revision is pending once that revision is demoted. -/
theorem demote_booked {t t' : Tables} {c : IngestCall} {key : Option String}
    (h : Booked t fun _ => False) (hok : demote t c (t.currentOf key) = .ok t') :
    Booked t' (fun x => ∃ q ∈ t.currentOf key, x = q.2.eventId) ∧
      t'.events = t.events ∧ t'.ingestions.keys = t.ingestions.keys := by
  cases hprevious : t.currentOf key with
  | none =>
      rw [hprevious] at hok
      obtain rfl := Except.ok.inj hok
      exact ⟨h.imp fun x hx => hx.elim, rfl, rfl⟩
  | some q =>
      obtain ⟨fp, i⟩ := q
      rw [hprevious] at hok
      obtain ⟨-, hok⟩ := require_bind_eq_ok.mp hok
      obtain rfl := Except.ok.inj hok
      obtain ⟨hget, -, -⟩ := currentOf_eq_some hprevious
      refine ⟨(h.demoted hget).imp ?_, rfl, ?_⟩
      · rintro x (hx | rfl)
        · exact hx.elim
        · exact ⟨_, rfl, rfl⟩
      · rw [Tables.setIngestion_ingestions, Dict.set, Dict.keys_alter,
          if_pos (Dict.mem_keys_of_get? hget)]

theorem contribute_booked {t t' : Tables} {d : Draft} {c : IngestCall} {id : String}
    (h : Booked t fun _ => False) (hfp : d.fingerprint ∉ t.ingestions.keys)
    (hok : contribute t d c = .ok (id, t')) : Booked t' fun _ => False := by
  obtain ⟨t₁, hdemote, hok⟩ := bind_eq_ok.mp hok
  obtain ⟨⟨e, t₂⟩, hupsert, hok⟩ := bind_eq_ok.mp hok
  obtain ⟨rfl, rfl⟩ := Prod.mk.inj (Except.ok.inj hok)
  refine Booked.congr (p := fun _ => False) (releasePrevious_booked ?_) rfl rfl
  obtain ⟨hbooked, -, hkeys⟩ := demote_booked h hdemote
  have hfp₁ : d.fingerprint ∉ t₁.ingestions.keys := hkeys ▸ hfp
  have hexisting : ∀ old ∈ t₁.eventAt d.dedupKey d.windowStart,
      t₁.events.get? old.eventId = some old := fun old hold => eventAt_eq_some hbooked hold
  obtain ⟨rfl, hmerged, hopened⟩ := upsertEvent_spec hupsert
  have hkey : e.eventId ∈ (t₁.setEvent e.eventId e).events.keys :=
    Dict.mem_keys_alter.mpr (Or.inr rfl)
  have hwritten : Booked (t₁.setEvent e.eventId e) _ := hbooked.setEvent rfl
  have hingested : Booked ((t₁.setEvent e.eventId e).setIngestion d.fingerprint
      (contribution d c e.eventId)) _ := hwritten.ingested hfp₁ hkey
  by_cases hrefresh : (t.currentOf d.physicalKey).isSome = true ∨
      (t₁.eventAt d.dedupKey d.windowStart).any (fun old => old.derivationStatus = .superseded) = true
  · rw [if_pos hrefresh]
    refine (hingested.refreshEvent e.eventId).imp ?_
    rintro x ⟨(hx | rfl) | rfl, hne⟩
    · exact Or.inr hx
    · exact absurd rfl hne
    · exact absurd rfl hne
  · rw [if_neg hrefresh]
    rw [not_or] at hrefresh
    obtain ⟨hprevious, hcurrent⟩ := hrefresh
    rw [Bool.not_eq_true, Option.isSome_eq_false_iff, Option.isNone_iff_eq_none] at hprevious
    have hnothing : Booked t₁ fun _ => False := by
      refine hbooked.imp ?_
      rintro x ⟨q, hq, -⟩
      rw [hprevious] at hq
      cases hq
    have hderivation : e.derivationStatus = .current ∧
        e.occurrenceCount = currentTotal t₁ e.eventId + d.count := by
      cases hat : t₁.eventAt d.dedupKey d.windowStart with
      | none =>
          obtain ⟨hfresh, hstatus, hcount⟩ := hopened hat
          rw [currentTotal_unknown hnothing hfresh, Nat.zero_add]
          exact ⟨hstatus, hcount⟩
      | some old =>
          obtain ⟨hid, hstatus, hcount⟩ := hmerged old hat
          have hold : old.derivationStatus = .current := by
            rw [hat] at hcurrent
            cases hderived : old.derivationStatus with
            | current => rfl
            | superseded => exact absurd (by simp [hderived]) hcurrent
          have hcounted := hnothing.counted old.eventId old (hexisting old hat) not_false
          rw [hid, hcount, hcounted.occurrence hold, hstatus]
          exact ⟨hold, rfl⟩
    have htotal : currentTotal ((t₁.setEvent e.eventId e).setIngestion d.fingerprint
        (contribution d c e.eventId)) e.eventId = e.occurrenceCount := by
      have hnew : d.fingerprint ∉ (t₁.setEvent e.eventId e).ingestions.keys := hfp₁
      rw [currentTotal_setIngestion_new hnew, hderivation.2]
      exact congrArg _ (if_pos ⟨rfl, rfl⟩)
    let counted : RiskEvent := { e with currentOccurrenceCount := some e.occurrenceCount }
    have hid : counted.eventId = e.eventId := rfl
    have hcounted : Counted (currentTotal ((t₁.setEvent e.eventId e).setIngestion d.fingerprint
        (contribution d c e.eventId)) e.eventId) counted := by
      rw [htotal]
      exact ⟨rfl, fun _ => rfl, fun hs => absurd (hs.symm.trans hderivation.1) (by decide)⟩
    refine (hingested.setCounted hid hcounted).imp ?_
    · rintro x ⟨(hx | rfl) | rfl, hne⟩
      · exact Or.inr hx
      · exact absurd rfl hne
      · exact absurd rfl hne

/-! ## Physical contributions -/

@[simp] theorem refreshEvent_ingestions (t : Tables) (id : String) :
    (refreshEvent t id).ingestions = t.ingestions := by
  rw [refreshEvent]
  split <;> rfl

@[simp] theorem releasePrevious_ingestions (t : Tables) (now : IsoTime)
    (previous : Option (String × Ingestion)) :
    (releasePrevious t now previous).ingestions = t.ingestions := by
  cases previous with
  | none => rfl
  | some q =>
      rw [releasePrevious]
      split
      · exact refreshEvent_ingestions t q.2.eventId
      · exact refreshEvent_ingestions t q.2.eventId

theorem contribute_ingestions {t t' : Tables} {d : Draft} {c : IngestCall} {id : String}
    (hok : contribute t d c = .ok (id, t')) :
    ∃ t₁, demote t c (t.currentOf d.physicalKey) = .ok t₁ ∧
      t'.ingestions = t₁.ingestions.set d.fingerprint (contribution d c id) := by
  obtain ⟨t₁, hdemote, hok⟩ := bind_eq_ok.mp hok
  obtain ⟨⟨e, t₂⟩, hupsert, hok⟩ := bind_eq_ok.mp hok
  obtain ⟨rfl, rfl⟩ := Prod.mk.inj (Except.ok.inj hok)
  obtain ⟨rfl, -, -⟩ := upsertEvent_spec hupsert
  refine ⟨t₁, hdemote, ?_⟩
  rw [Tables.markDirty_ingestions, releasePrevious_ingestions]
  split
  · rw [refreshEvent_ingestions]
    rfl
  · rfl

theorem demote_physical {t t₁ : Tables} {c : IngestCall} {key : Option String}
    (hunique : PhysicalUnique t) (hok : demote t c (t.currentOf key) = .ok t₁) :
    PhysicalUnique t₁ ∧
      ∀ k fp i, key = some k → t₁.ingestions.get? fp = some i → i.physicalKey = some k →
        i.isCurrent = false := by
  cases hprevious : t.currentOf key with
  | none =>
      rw [hprevious] at hok
      obtain rfl := Except.ok.inj hok
      refine ⟨hunique, ?_⟩
      rintro k fp i rfl hi hk
      exact currentOf_eq_none hprevious hi hk
  | some q =>
      obtain ⟨fp₀, i₀⟩ := q
      rw [hprevious] at hok
      obtain ⟨-, hok⟩ := require_bind_eq_ok.mp hok
      obtain rfl := Except.ok.inj hok
      obtain ⟨hget, hkey, hcurrent⟩ := currentOf_eq_some hprevious
      have hrow : ∀ fp i, (t.setIngestion fp₀ { i₀ with isCurrent := false }).ingestions.get? fp = some i →
          i.isCurrent = true → fp ≠ fp₀ ∧ t.ingestions.get? fp = some i := by
        intro fp i hi hcur
        rw [Tables.setIngestion_ingestions, Dict.get?_set] at hi
        split at hi
        · obtain rfl := Option.some.inj hi
          cases hcur
        · rename_i hne
          exact ⟨Ne.symm hne, hi⟩
      constructor
      · intro k fp fp' i i' hi hi' hk hk' hcur hcur'
        exact hunique k fp fp' i i' (hrow fp i hi hcur).2 (hrow fp' i' hi' hcur').2 hk hk' hcur hcur'
      · rintro k fp i rfl hi hk
        by_contra hcur
        rw [Bool.not_eq_false] at hcur
        obtain ⟨hne, hi⟩ := hrow fp i hi hcur
        exact hne (hunique k fp fp₀ i i₀ hi hget hk hkey hcur hcurrent)

theorem contribute_physical {t t' : Tables} {d : Draft} {c : IngestCall} {id : String}
    (hunique : PhysicalUnique t) (hok : contribute t d c = .ok (id, t')) : PhysicalUnique t' := by
  obtain ⟨t₁, hdemote, hingestions⟩ := contribute_ingestions hok
  obtain ⟨hunique₁, hnone⟩ := demote_physical hunique hdemote
  have hother : ∀ k fp i, t₁.ingestions.get? fp = some i → i.isCurrent = true →
      i.physicalKey = some k → d.physicalKey ≠ some k := fun k fp i hi hcur hk heq =>
    Bool.noConfusion (hcur.symm.trans (hnone k fp i heq hi hk))
  intro k fp fp' i i' hi hi' hk hk' hcur hcur'
  rw [hingestions, Dict.get?_set] at hi hi'
  split at hi <;> split at hi'
  · rename_i h h'
    exact h.symm.trans h'
  · obtain rfl := Option.some.inj hi
    exact absurd hk (hother k fp' i' hi' hcur' hk')
  · obtain rfl := Option.some.inj hi'
    exact absurd hk' (hother k fp i hi hcur hk)
  · exact hunique₁ k fp fp' i i' hi hi' hk hk' hcur hcur'

/-! ## Runs -/

/-- The transactions of the service; `ingest` and `transition` are followed by a
recalculation. -/
inductive Call where
  | ingest (c : IngestCall)
  | transition (c : TransitionCall)
  | recalculate (node : String × String) (now : IsoTime)

def step (env : NodeRiskEnv) (model : ScoreModel) (t : Tables) : Call → Tables
  | .ingest c => settled t (ingest env t c)
  | .transition c => settled t (transition t c)
  | .recalculate node now => settled t (recalculate model t node now)

/-- A new contribution, or a replay that leaves everything as it is. -/
theorem ingest_eq_ok {env : NodeRiskEnv} {t t' : Tables} {c : IngestCall} {r : String × Bool}
    (hok : ingest env t c = .ok (r, t')) :
    ∃ d, draft env c = .ok d ∧
      ((d.fingerprint ∈ t.ingestions.keys ∧ r.2 = true ∧ t' = t) ∨
        (d.fingerprint ∉ t.ingestions.keys ∧ r.2 = false ∧ contribute t d c = .ok (r.1, t'))) := by
  obtain ⟨d, hdraft, hok⟩ := bind_eq_ok.mp hok
  refine ⟨d, hdraft, ?_⟩
  split at hok
  · rename_i replay hreplay
    obtain ⟨rfl, rfl⟩ := Prod.mk.inj (Except.ok.inj hok)
    exact .inl ⟨Dict.mem_keys_of_get? hreplay, rfl, rfl⟩
  · rename_i hnone
    obtain ⟨⟨id, t₁⟩, hcontribute, hok⟩ := bind_eq_ok.mp hok
    obtain ⟨rfl, rfl⟩ := Prod.mk.inj (Except.ok.inj hok)
    exact .inr ⟨Dict.get?_eq_none.mp hnone, rfl, hcontribute⟩

theorem transition_eq_ok {t t' : Tables} {c : TransitionCall} {r : Option RiskEvent}
    (hok : transition t c = .ok (r, t')) :
    (r = none ∧ t' = t) ∨
      ∃ e, t.events.get? c.eventId = some e ∧ r = some e ∧
        t' = (t.setEvent c.eventId (transitioned c e)).markDirty e.node c.now := by
  obtain ⟨-, hok⟩ := require_bind_eq_ok.mp hok
  obtain ⟨e, he, hok⟩ := orFail_bind_eq_ok.mp hok
  obtain ⟨-, hok⟩ := require_bind_eq_ok.mp hok
  split at hok
  · obtain ⟨rfl, rfl⟩ := Prod.mk.inj (Except.ok.inj hok)
    exact .inl ⟨rfl, rfl⟩
  · obtain ⟨-, hok⟩ := require_bind_eq_ok.mp hok
    obtain ⟨rfl, rfl⟩ := Prod.mk.inj (Except.ok.inj hok)
    exact .inr ⟨e, he, rfl, rfl⟩

theorem project_frame {t t' : Tables} {p : Projection} (hok : project t p = .ok ((), t')) :
    t'.events = t.events ∧ t'.ingestions = t.ingestions ∧ t'.daily = t.daily := by
  obtain ⟨revisions, -, hok⟩ := bind_eq_ok.mp hok
  obtain ⟨-, rfl⟩ := Prod.mk.inj (Except.ok.inj hok)
  exact ⟨rfl, rfl, rfl⟩

theorem recalculate_eq_ok {model : ScoreModel} {t t' : Tables} {node : String × String}
    {now : IsoTime} (hok : recalculate model t node now = .ok ((), t')) :
    ∃ p t₁, readProjection model t node now = .ok p ∧ project t p = .ok ((), t₁) ∧
      t' = refreshDaily t₁ p := by
  obtain ⟨p, hread, hok⟩ := bind_eq_ok.mp hok
  obtain ⟨⟨⟨⟩, t₁⟩, hproject, hok⟩ := bind_eq_ok.mp hok
  obtain ⟨-, rfl⟩ := Prod.mk.inj (Except.ok.inj hok)
  exact ⟨p, t₁, hread, hproject, rfl⟩

theorem recalculate_frame {model : ScoreModel} {t t' : Tables} {node : String × String}
    {now : IsoTime} (hok : recalculate model t node now = .ok ((), t')) :
    t'.events = t.events ∧ t'.ingestions = t.ingestions := by
  obtain ⟨p, t₁, -, hproject, rfl⟩ := recalculate_eq_ok hok
  obtain ⟨hevents, hingestions, -⟩ := project_frame hproject
  exact ⟨hevents, hingestions⟩

theorem transitioned_counted {total : ℕ} {c : TransitionCall} {e : RiskEvent} (h : Counted total e) :
    Counted total (transitioned c e) := by
  rw [transitioned]
  split <;> exact ⟨h.current, h.occurrence, h.superseded⟩

/-- Every event is counted and every physical contribution is current once. -/
structure Accounted (t : Tables) : Prop where
  booked : Booked t fun _ => False
  physical : PhysicalUnique t

theorem accounted_empty : Accounted .empty :=
  ⟨⟨(by intro id e h; cases h), (by intro fp i h; cases h), (by intro id e h; cases h)⟩,
    (by intro key fp fp' i i' h; cases h)⟩

theorem step_accounted {env : NodeRiskEnv} {model : ScoreModel} {t : Tables} (call : Call)
    (h : Accounted t) : Accounted (step env model t call) := by
  cases call with
  | ingest c =>
      refine settled_induction h fun r t' hok => ?_
      obtain ⟨d, -, ⟨-, -, rfl⟩ | ⟨hnew, -, hcontribute⟩⟩ := ingest_eq_ok hok
      · exact h
      · exact ⟨contribute_booked h.booked hnew hcontribute, contribute_physical h.physical hcontribute⟩
  | transition c =>
      refine settled_induction h fun r t' hok => ?_
      obtain ⟨-, rfl⟩ | ⟨e, he, -, rfl⟩ := transition_eq_ok hok
      · exact h
      · refine ⟨?_, h.physical⟩
        have hid : (transitioned c e).eventId = c.eventId := by
          rw [← h.booked.ids c.eventId e he, transitioned]
          split <;> rfl
        have hcounted := h.booked.counted c.eventId e he not_false
        refine ((h.booked.setCounted hid (transitioned_counted hcounted)).imp ?_).congr rfl rfl
        exact fun x hx => hx.1
  | recalculate node now =>
      refine settled_induction h fun r t' hok => ?_
      obtain ⟨hevents, hingestions⟩ := recalculate_frame hok
      refine ⟨h.booked.congr hevents hingestions, ?_⟩
      rw [PhysicalUnique, hingestions]
      exact h.physical

/-! ## Replays -/

/-- The same contribution: only the clock and the drawn id may differ. -/
def SameContribution (c c' : IngestCall) : Prop :=
  c' = { c with now := c'.now, newId := c'.newId }

theorem draft_same {env : NodeRiskEnv} {c c' : IngestCall} (h : SameContribution c c') :
    draft env c' = draft env c := by
  rw [h]
  rfl

theorem step_fingerprints {env : NodeRiskEnv} {model : ScoreModel} {t : Tables} {fp : String}
    (call : Call) (h : fp ∈ t.ingestions.keys) : fp ∈ (step env model t call).ingestions.keys := by
  cases call with
  | ingest c =>
      refine settled_induction (P := fun t : Tables => fp ∈ t.ingestions.keys) h fun r t' hok => ?_
      obtain ⟨d, -, ⟨-, -, rfl⟩ | ⟨-, -, hcontribute⟩⟩ := ingest_eq_ok hok
      · exact h
      · obtain ⟨t₁, hdemote, hingestions⟩ := contribute_ingestions hcontribute
        rw [hingestions]
        refine Dict.mem_keys_alter.mpr (Or.inl ?_)
        cases hprevious : t.currentOf d.physicalKey with
        | none =>
            rw [hprevious] at hdemote
            obtain rfl := Except.ok.inj hdemote
            exact h
        | some q =>
            rw [hprevious] at hdemote
            obtain ⟨-, hdemote⟩ := require_bind_eq_ok.mp hdemote
            obtain rfl := Except.ok.inj hdemote
            exact Dict.mem_keys_alter.mpr (Or.inl h)
  | transition c =>
      refine settled_induction (P := fun t : Tables => fp ∈ t.ingestions.keys) h fun r t' hok => ?_
      obtain ⟨-, rfl⟩ | ⟨e, -, -, rfl⟩ := transition_eq_ok hok
      · exact h
      · exact h
  | recalculate node now =>
      refine settled_induction (P := fun t : Tables => fp ∈ t.ingestions.keys) h fun r t' hok => ?_
      rw [(recalculate_frame hok).2]
      exact h

theorem ingest_replay {env : NodeRiskEnv} {t : Tables} {c : IngestCall} {d : Draft}
    (hdraft : draft env c = .ok d) (hfp : d.fingerprint ∈ t.ingestions.keys) :
    ∃ id, ingest env t c = .ok ((id, true), t) := by
  obtain ⟨i, hi⟩ := Dict.mem_keys.mp hfp
  exact ⟨i.eventId, by rw [ingest, hdraft]; simp [bind, Except.bind, hi]⟩

/-- In every run: what an event counts is the sum over its current contributions,
and so is its occurrence count, unless it is superseded; a physical contribution
has one current revision; and what was ingested once writes nothing again. -/
theorem ledger_accounts (env : NodeRiskEnv) (model : ScoreModel) (calls : List Call) :
    let t := exec (step env model) .empty calls
    (∀ id e, t.events.get? id = some e → Counted (currentTotal t id) e) ∧
      PhysicalUnique t ∧
      ∀ before after c c' r, calls = before ++ .ingest c :: after →
        ingest env (exec (step env model) .empty before) c = .ok r → SameContribution c c' →
        ∃ id, ingest env t c' = .ok ((id, true), t) := by
  intro t
  have haccounted : Accounted t :=
    exec_invariant' (fun s call hs => step_accounted call hs) accounted_empty calls
  refine ⟨fun id e he => haccounted.booked.counted id e he not_false, haccounted.physical, ?_⟩
  rintro before after c c' ⟨r, t₀⟩ rfl hok hsame
  obtain ⟨d, hdraft, hcases⟩ := ingest_eq_ok hok
  have hnow : d.fingerprint ∈ t₀.ingestions.keys := by
    rcases hcases with ⟨hknown, -, rfl⟩ | ⟨-, -, hcontribute⟩
    · exact hknown
    · obtain ⟨t₁, -, hingestions⟩ := contribute_ingestions hcontribute
      rw [hingestions]
      exact Dict.mem_keys_alter.mpr (Or.inr rfl)
  have hstep : step env model (exec (step env model) .empty before) (.ingest c) = t₀ := by
    rw [step, hok]
    rfl
  refine ingest_replay ((draft_same hsame).trans hdraft) ?_
  change d.fingerprint ∈ (exec (step env model) .empty (before ++ .ingest c :: after)).ingestions.keys
  rw [exec_append, exec_cons, hstep]
  exact exec_invariant' (I := fun t : Tables => d.fingerprint ∈ t.ingestions.keys)
    (fun s call hs => step_fingerprints call hs) hnow after

/-! ## A superseded event -/

/-- Hashing keeps the text, and one time is known. -/
def plainEnv : NodeRiskEnv where
  sha256 := id
  parse := fun _ => some ⟨0, 0⟩
  isoformat := fun _ => "now"

def zeroScore : ScoreModel := fun _ _ _ => ⟨0, "low", 0, .unknown, .null⟩

/-- One physical contribution, first as risk `a`, then revised to risk `b`. -/
def revisedCalls : List Call :=
  let record : SourceRecord :=
    { node := some "n", timestamp := some "t", sourceNamespace := some "s",
      sourceBatchId := some "b", sourceItemId := some "i" }
  let event (risk : String) : SemanticEvent :=
    { riskType := risk, domain := "d", category := "c", severity := "high", baseScore := 1,
      confidence := 1, semanticRuleId := "r", semanticRuleVersion := 1, keyFields := ["risk_type"] }
  [.ingest { event := event "a", now := ⟨0, 0⟩, newId := "first",
             record := { record with semanticRevision := some (.num 1) } },
   .ingest { event := event "b", now := ⟨0, 0⟩, newId := "second",
             record := { record with semanticRevision := some (.num 2),
                                     expectedCurrentRevision := some (.num 1) } }]

theorem superseded_event_keeps_count : ¬∀ (env : NodeRiskEnv) (model : ScoreModel)
    (calls : List Call) (id : String) (e : RiskEvent),
    (exec (step env model) .empty calls).events.get? id = some e →
      e.occurrenceCount = currentTotal (exec (step env model) .empty calls) id := by
  intro h
  have hcount := h plainEnv zeroScore revisedCalls "first" _ rfl
  exact absurd hcount (by decide)

end LogRisk.NodeRisk
