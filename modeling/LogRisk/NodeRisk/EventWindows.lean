import LogRisk.NodeRisk.Accounting

/-!
# The windows of events

Contributions with one deduplication key are merged where the texts of their
window starts agree.  A window start keeps the offset of the contribution it was
computed from, so contributions that were written with different offsets are never
merged.  Within an event all offsets agree, and there the texts are ordered like
the instants.
-/

namespace LogRisk.NodeRisk

open LogRisk.Library LogRisk.Library.Transaction

/-! ## What events are merged by -/

/-- The deduplication key and the window start of an event. -/
def mergeKey (t : Tables) (id : String) : Option (String × IsoTime) :=
  (t.events.get? id).map fun e => (e.dedupKey, e.windowStart)

theorem mergeKey_of_get? {t : Tables} {id : String} {e : RiskEvent}
    (he : t.events.get? id = some e) : mergeKey t id = some (e.dedupKey, e.windowStart) := by
  rw [mergeKey, he]
  rfl

theorem mergeKey_setEvent (t : Tables) (id : String) (e : RiskEvent) (x : String) :
    mergeKey (t.setEvent id e) x =
      if id = x then some (e.dedupKey, e.windowStart) else mergeKey t x := by
  unfold mergeKey
  rw [Tables.setEvent_events, Dict.get?_set]
  split <;> rfl

/-- An event that is written again under its key. -/
theorem mergeKey_rewritten {t : Tables} {id : String} {e : RiskEvent}
    (he : mergeKey t id = some (e.dedupKey, e.windowStart)) :
    mergeKey (t.setEvent id e) = mergeKey t := by
  funext x
  rw [mergeKey_setEvent]
  split
  · rename_i heq
    rw [← heq, he]
  · rfl

theorem refreshed_keys (e : RiskEvent) (rows : List Ingestion) :
    (refreshed e rows).dedupKey = e.dedupKey ∧ (refreshed e rows).windowStart = e.windowStart := by
  rw [refreshed]
  split
  · exact ⟨rfl, rfl⟩
  · split <;> exact ⟨rfl, rfl⟩

theorem mergeKey_refreshEvent (t : Tables) (id : String) :
    mergeKey (refreshEvent t id) = mergeKey t := by
  rw [refreshEvent]
  split
  · rfl
  · rename_i e he
    refine mergeKey_rewritten ?_
    obtain ⟨hdedup, hstart⟩ := refreshed_keys e (t.contributionsTo id)
    rw [mergeKey_of_get? he, hdedup, hstart]

theorem mergeKey_releasePrevious (t : Tables) (now : IsoTime)
    (previous : Option (String × Ingestion)) :
    mergeKey (releasePrevious t now previous) = mergeKey t := by
  cases previous with
  | none => rfl
  | some q =>
      rw [releasePrevious]
      split <;> exact mergeKey_refreshEvent t q.2.eventId

theorem demote_events {t t' : Tables} {c : IngestCall} {previous : Option (String × Ingestion)}
    (hok : demote t c previous = .ok t') : t'.events = t.events := by
  cases previous with
  | none =>
      obtain rfl := Except.ok.inj hok
      rfl
  | some q =>
      obtain ⟨-, hok⟩ := require_bind_eq_ok.mp hok
      obtain rfl := Except.ok.inj hok
      rfl

theorem eventAt_keys {t : Tables} {dedup : String} {windowStart : IsoTime} {e : RiskEvent}
    (he : t.eventAt dedup windowStart = some e) :
    e.dedupKey = dedup ∧ e.windowStart = windowStart := by
  have hfound := List.find?_some he
  simpa using hfound

theorem eventAt_none {t : Tables} {dedup : String} {windowStart : IsoTime}
    (h : t.eventAt dedup windowStart = none) (id : String) :
    mergeKey t id ≠ some (dedup, windowStart) := by
  intro hkey
  obtain ⟨e, he, hpair⟩ := Option.map_eq_some_iff.mp hkey
  obtain ⟨hdedup, hstart⟩ := Prod.mk.inj hpair
  have hnone := List.find?_eq_none.mp h e (Dict.mem_values.mpr ⟨id, he⟩)
  simp [hdedup, hstart] at hnone

theorem mergeKey_settled (p : Prop) [Decidable p] {t : Tables} {e : RiskEvent}
    (he : mergeKey t e.eventId = some (e.dedupKey, e.windowStart)) :
    mergeKey (if p then refreshEvent t e.eventId else settleCount t e) = mergeKey t := by
  split
  · exact mergeKey_refreshEvent t e.eventId
  · exact mergeKey_rewritten he

/-- The key of the event that a contribution is written to, and what was there
before. -/
theorem upserted_keys {t t' : Tables} {d : Draft} {c : IngestCall} {e : RiskEvent}
    (hids : ∀ id e, t.events.get? id = some e → e.eventId = id)
    (hok : upsertEvent t d c (t.eventAt d.dedupKey d.windowStart) = .ok (e, t')) :
    e.dedupKey = d.dedupKey ∧ e.windowStart = d.windowStart ∧
      (mergeKey t e.eventId = some (d.dedupKey, d.windowStart) ∨
        mergeKey t e.eventId = none ∧ ∀ x, mergeKey t x ≠ some (d.dedupKey, d.windowStart)) := by
  cases hat : t.eventAt d.dedupKey d.windowStart with
  | some old =>
      rw [hat] at hok
      obtain ⟨rfl, -⟩ := Prod.mk.inj (Except.ok.inj hok)
      obtain ⟨hdedup, hstart⟩ := eventAt_keys hat
      refine ⟨hdedup, hstart, .inl ?_⟩
      obtain ⟨x, hx⟩ := Dict.mem_values.mp (List.mem_of_find?_eq_some hat)
      change mergeKey t old.eventId = _
      rw [hids x old hx, mergeKey_of_get? hx, hdedup, hstart]
  | none =>
      rw [hat] at hok
      obtain ⟨hfresh, hok⟩ := require_bind_eq_ok.mp hok
      obtain ⟨rfl, -⟩ := Prod.mk.inj (Except.ok.inj hok)
      refine ⟨rfl, rfl, .inr ⟨?_, eventAt_none hat⟩⟩
      change mergeKey t c.newId = none
      rw [mergeKey, Dict.get?_eq_none.mpr hfresh]
      rfl

/-- A contribution goes to the event of its key; where there is none, it opens
one. -/
theorem contribute_mergeKey {t t' : Tables} {d : Draft} {c : IngestCall} {id : String}
    (hids : ∀ id e, t.events.get? id = some e → e.eventId = id)
    (hok : contribute t d c = .ok (id, t')) :
    mergeKey t' id = some (d.dedupKey, d.windowStart) ∧
      (∀ x, x ≠ id → mergeKey t' x = mergeKey t x) ∧
      (mergeKey t id = some (d.dedupKey, d.windowStart) ∨
        mergeKey t id = none ∧ ∀ x, mergeKey t x ≠ some (d.dedupKey, d.windowStart)) := by
  obtain ⟨t₁, hdemote, hok⟩ := bind_eq_ok.mp hok
  obtain ⟨⟨e, t₂⟩, hupsert, hok⟩ := bind_eq_ok.mp hok
  obtain ⟨rfl, rfl⟩ := Prod.mk.inj (Except.ok.inj hok)
  have hevents : t₁.events = t.events := demote_events hdemote
  have hkeys : mergeKey t₁ = mergeKey t := by
    unfold mergeKey
    rw [hevents]
  have hids₁ : ∀ id e, t₁.events.get? id = some e → e.eventId = id := by
    rw [hevents]
    exact hids
  obtain ⟨hdedup, hstart, hbefore⟩ := upserted_keys hids₁ hupsert
  rw [hkeys] at hbefore
  obtain ⟨ht₂, -, -⟩ := upsertEvent_spec hupsert
  have hstored : mergeKey (t₂.setIngestion d.fingerprint (contribution d c e.eventId)) e.eventId =
      some (e.dedupKey, e.windowStart) := by
    change mergeKey t₂ e.eventId = _
    rw [ht₂, mergeKey_setEvent, if_pos rfl]
  refine ⟨?_, fun x hx => ?_, hbefore⟩
  · change mergeKey (releasePrevious _ _ _) _ = _
    rw [mergeKey_releasePrevious, mergeKey_settled _ hstored, hstored, hdedup, hstart]
  · change mergeKey (releasePrevious _ _ _) _ = _
    rw [mergeKey_releasePrevious, mergeKey_settled _ hstored]
    change mergeKey t₂ x = _
    rw [ht₂, mergeKey_setEvent, if_neg (Ne.symm hx), hkeys]

/-- Events of one key are one event. -/
def Separate (t : Tables) : Prop :=
  ∀ x y key, mergeKey t x = some key → mergeKey t y = some key → x = y

theorem transitioned_keys (c : TransitionCall) (e : RiskEvent) :
    (transitioned c e).dedupKey = e.dedupKey ∧ (transitioned c e).windowStart = e.windowStart := by
  rw [transitioned]
  split <;> exact ⟨rfl, rfl⟩

/-- A call leaves the keys alone, or contributes. -/
theorem step_mergeKey (env : NodeRiskEnv) (model : ScoreModel) (t : Tables) (call : Call) :
    mergeKey (step env model t call) = mergeKey t ∨
      ∃ c d id, draft env c = .ok d ∧
        contribute t d c = .ok (id, step env model t call) := by
  cases call with
  | ingest c =>
      have hstep : step env model t (.ingest c) = settled t (ingest env t c) := rfl
      rw [hstep]
      cases hok : ingest env t c with
      | error err => exact .inl rfl
      | ok r =>
          obtain ⟨r, t'⟩ := r
          obtain ⟨d, hdraft, ⟨-, -, rfl⟩ | ⟨-, -, hcontribute⟩⟩ := ingest_eq_ok hok
          · exact .inl rfl
          · exact .inr ⟨c, d, r.1, hdraft, hcontribute⟩
  | transition c =>
      refine .inl (settled_induction (P := fun t' : Tables => mergeKey t' = mergeKey t) rfl ?_)
      intro r t' hok
      obtain ⟨-, rfl⟩ | ⟨e, he, -, rfl⟩ := transition_eq_ok hok
      · rfl
      · obtain ⟨hdedup, hstart⟩ := transitioned_keys c e
        have hkey : mergeKey t c.eventId =
            some ((transitioned c e).dedupKey, (transitioned c e).windowStart) := by
          rw [mergeKey_of_get? he, hdedup, hstart]
        exact mergeKey_rewritten hkey
  | recalculate node now =>
      refine .inl (settled_induction (P := fun t' : Tables => mergeKey t' = mergeKey t) rfl ?_)
      intro r t' hok
      unfold mergeKey
      rw [(recalculate_frame hok).1]

/-- An event keeps its key. -/
theorem step_keeps {env : NodeRiskEnv} {model : ScoreModel} {t : Tables} (call : Call)
    (h : Accounted t) {x : String} {key : String × IsoTime} (hx : mergeKey t x = some key) :
    mergeKey (step env model t call) x = some key := by
  obtain hsame | ⟨c, d, id, -, hcontribute⟩ := step_mergeKey env model t call
  · rw [hsame, hx]
  · obtain ⟨hid, hother, hbefore⟩ := contribute_mergeKey h.booked.ids hcontribute
    by_cases heq : x = id
    · subst heq
      rcases hbefore with hmerged | ⟨hfresh, -⟩
      · rw [hid, ← hmerged, hx]
      · cases hfresh.symm.trans hx
    · rw [hother x heq, hx]

theorem step_separate {env : NodeRiskEnv} {model : ScoreModel} {t : Tables} (call : Call)
    (h : Accounted t) (hsep : Separate t) : Separate (step env model t call) := by
  obtain hsame | ⟨c, d, id, -, hcontribute⟩ := step_mergeKey env model t call
  · unfold Separate
    rw [hsame]
    exact hsep
  · obtain ⟨hid, hother, hbefore⟩ := contribute_mergeKey h.booked.ids hcontribute
    -- no other event has the key of the one that is written
    have halone : ∀ y, y ≠ id →
        mergeKey (step env model t call) y ≠ some (d.dedupKey, d.windowStart) := by
      intro y hy heq
      rw [hother y hy] at heq
      rcases hbefore with hmerged | ⟨-, hfresh⟩
      · exact hy (hsep y id _ heq hmerged)
      · exact hfresh y heq
    intro x y key hx hy
    by_cases hxid : x = id <;> by_cases hyid : y = id
    · rw [hxid, hyid]
    · subst hxid
      obtain rfl := Option.some.inj (hid.symm.trans hx)
      exact absurd hy (halone y hyid)
    · subst hyid
      obtain rfl := Option.some.inj (hid.symm.trans hy)
      exact absurd hx (halone x hxid)
    · rw [hother x hxid] at hx
      rw [hother y hyid] at hy
      exact hsep x y key hx hy

/-! ## First and last seen -/

/-- The instants of the current contributions to an event. -/
def instants (t : Tables) (id : String) : Set ℤ :=
  {x | ∃ i ∈ t.contributionsTo id, ∃ k ∈ i.contribution, k.timestamp.instant = x}

/-- An event is seen from the first to the last of these instants, and superseded
where there are none. -/
structure Seen (S : Set ℤ) (e : RiskEvent) : Prop where
  current : e.derivationStatus = .current →
    IsLeast S e.firstSeen.instant ∧ IsGreatest S e.lastSeen.instant
  superseded : e.derivationStatus = .superseded → S = ∅

theorem mem_contributionsTo {t : Tables} {id : String} {i : Ingestion} :
    i ∈ t.contributionsTo id ↔
      ∃ fp, t.ingestions.get? fp = some i ∧ i.eventId = id ∧ i.isCurrent = true := by
  unfold Tables.contributionsTo
  rw [List.mem_filter, Dict.mem_values]
  simp

theorem instants_congr {t t' : Tables} (h : t'.ingestions = t.ingestions) (id : String) :
    instants t' id = instants t id := by
  unfold instants Tables.contributionsTo
  rw [h]

/-- Rows of other events are not looked at. -/
theorem instants_setIngestion_of_ne {t : Tables} {fp id : String} {i : Ingestion}
    (hi : i.eventId ≠ id) (hold : ∀ old, t.ingestions.get? fp = some old → old.eventId ≠ id) :
    instants (t.setIngestion fp i) id = instants t id := by
  have hrows : ∀ row, row ∈ (t.setIngestion fp i).contributionsTo id ↔ row ∈ t.contributionsTo id := by
    intro row
    rw [mem_contributionsTo, mem_contributionsTo]
    constructor
    · rintro ⟨fp', hget, hid, hcurrent⟩
      rw [Tables.setIngestion_ingestions, Dict.get?_set] at hget
      split at hget
      · obtain rfl := Option.some.inj hget
        exact absurd hid hi
      · exact ⟨fp', hget, hid, hcurrent⟩
    · rintro ⟨fp', hget, hid, hcurrent⟩
      refine ⟨fp', ?_, hid, hcurrent⟩
      have hne : fp ≠ fp' := by
        rintro rfl
        exact hold row hget hid
      rw [Tables.setIngestion_ingestions, Dict.get?_set_of_ne hne]
      exact hget
  ext x
  simp only [instants, Set.mem_ofPred_eq, hrows]

theorem instants_setIngestion_new {t : Tables} {fp : String} {i : Ingestion} {k : Contribution}
    (hfp : fp ∉ t.ingestions.keys) (hcurrent : i.isCurrent = true) (hk : i.contribution = some k) :
    instants (t.setIngestion fp i) i.eventId =
      insert k.timestamp.instant (instants t i.eventId) := by
  ext x
  constructor
  · rintro ⟨row, hrow, k', hk', rfl⟩
    obtain ⟨fp', hget, hid, hcur⟩ := mem_contributionsTo.mp hrow
    rw [Tables.setIngestion_ingestions, Dict.get?_set] at hget
    split at hget
    · obtain rfl := Option.some.inj hget
      obtain rfl := Option.some.inj (hk.symm.trans hk')
      exact Set.mem_insert _ _
    · exact Set.mem_insert_of_mem _ ⟨row, mem_contributionsTo.mpr ⟨fp', hget, hid, hcur⟩, k', hk', rfl⟩
  · rintro (rfl | ⟨row, hrow, k', hk', rfl⟩)
    · refine ⟨i, mem_contributionsTo.mpr ⟨fp, ?_, rfl, hcurrent⟩, k, hk, rfl⟩
      rw [Tables.setIngestion_ingestions, Dict.get?_set_self]
    · obtain ⟨fp', hget, hid, hcur⟩ := mem_contributionsTo.mp hrow
      refine ⟨row, mem_contributionsTo.mpr ⟨fp', ?_, hid, hcur⟩, k', hk', rfl⟩
      have hne : fp ≠ fp' := by
        rintro rfl
        exact hfp (Dict.mem_keys_of_get? hget)
      rw [Tables.setIngestion_ingestions, Dict.get?_set_of_ne hne]
      exact hget

/-! ### Extremes of texts -/

theorem isLeast_min?_instant {times : List IsoTime} {m : IsoTime} {offset : ℤ}
    (hoffset : ∀ τ ∈ times, τ.offset = offset) (hm : times.min? = some m) :
    IsLeast {x | ∃ τ ∈ times, τ.instant = x} m.instant := by
  obtain ⟨hmem, hle⟩ := List.min?_eq_some_iff.mp hm
  refine ⟨⟨m, hmem, rfl⟩, ?_⟩
  rintro x ⟨τ, hτ, rfl⟩
  have hsame : m.offset = τ.offset := (hoffset m hmem).trans (hoffset τ hτ).symm
  exact IsoTime.instant_le_of_le hsame (hle τ hτ)

theorem isGreatest_max?_instant {times : List IsoTime} {m : IsoTime} {offset : ℤ}
    (hoffset : ∀ τ ∈ times, τ.offset = offset) (hm : times.max? = some m) :
    IsGreatest {x | ∃ τ ∈ times, τ.instant = x} m.instant := by
  obtain ⟨hmem, hle⟩ := List.max?_eq_some_iff.mp hm
  refine ⟨⟨m, hmem, rfl⟩, ?_⟩
  rintro x ⟨τ, hτ, rfl⟩
  have hsame : τ.offset = m.offset := (hoffset τ hτ).trans (hoffset m hmem).symm
  exact IsoTime.instant_le_of_le hsame (hle τ hτ)

theorem mapM_contribution {rows : List Ingestion} (h : ∀ i ∈ rows, i.contribution.isSome = true) :
    ∃ values, rows.mapM (·.contribution) = some values ∧
      ∀ k, k ∈ values ↔ ∃ i ∈ rows, i.contribution = some k := by
  induction rows with
  | nil => exact ⟨[], rfl, by simp⟩
  | cons i rows ih =>
      obtain ⟨values, hvalues, hmem⟩ := ih fun j hj => h j (List.mem_cons_of_mem _ hj)
      obtain ⟨k, hk⟩ := Option.isSome_iff_exists.mp (h i List.mem_cons_self)
      refine ⟨k :: values, ?_, fun k' => ?_⟩
      · rw [List.mapM_cons, hk, hvalues]
        rfl
      · rw [List.mem_cons, hmem, List.exists_mem_cons_iff, hk, Option.some.injEq, eq_comm]

/-- The refresh takes minimum and maximum of texts, which within one offset are
those of the instants. -/
theorem refreshed_seen {t : Tables} {id : String} (e : RiskEvent) {offset : ℤ}
    (hrows : ∀ i ∈ t.contributionsTo id, ∃ k, i.contribution = some k ∧ k.timestamp.offset = offset) :
    Seen (instants t id) (refreshed e (t.contributionsTo id)) := by
  by_cases hnil : t.contributionsTo id = []
  · rw [refreshed, if_pos hnil]
    refine ⟨(by intro h; cases h), fun _ => ?_⟩
    unfold instants
    rw [hnil]
    simp
  · have hsome : ∀ i ∈ t.contributionsTo id, i.contribution.isSome = true := by
      intro i hi
      obtain ⟨k, hk, -⟩ := hrows i hi
      rw [hk]
      rfl
    obtain ⟨values, hvalues, hmem⟩ := mapM_contribution hsome
    have htimes : {x | ∃ τ ∈ values.map (·.timestamp), τ.instant = x} = instants t id := by
      ext x
      simp only [List.mem_map, Set.mem_ofPred_eq, instants, hmem]
      constructor
      · rintro ⟨τ, ⟨k, ⟨i, hi, hk⟩, rfl⟩, rfl⟩
        exact ⟨i, hi, k, hk, rfl⟩
      · rintro ⟨i, hi, k, hk, rfl⟩
        exact ⟨_, ⟨k, ⟨i, hi, hk⟩, rfl⟩, rfl⟩
    have hoffset : ∀ τ ∈ values.map (·.timestamp), τ.offset = offset := by
      intro τ hτ
      obtain ⟨k, hk, rfl⟩ := List.mem_map.mp hτ
      obtain ⟨i, hi, hik⟩ := (hmem k).mp hk
      obtain ⟨k', hk', hoff⟩ := hrows i hi
      obtain rfl := Option.some.inj (hik.symm.trans hk')
      exact hoff
    have hne : values.map (·.timestamp) ≠ [] := by
      intro hempty
      obtain ⟨i, hi⟩ := List.exists_mem_of_ne_nil _ hnil
      obtain ⟨k, hk, -⟩ := hrows i hi
      have hkv := (hmem k).mpr ⟨i, hi, hk⟩
      rw [List.map_eq_nil_iff.mp hempty] at hkv
      cases hkv
    obtain ⟨first, hfirst⟩ := Option.ne_none_iff_exists'.mp (mt List.min?_eq_none_iff.mp hne)
    obtain ⟨last, hlast⟩ := Option.ne_none_iff_exists'.mp (mt List.max?_eq_none_iff.mp hne)
    rw [refreshed, if_neg hnil, hvalues]
    refine ⟨fun _ => ?_, (by intro h; cases h)⟩
    dsimp only
    rw [hfirst, hlast, ← htimes]
    exact ⟨isLeast_min?_instant hoffset hfirst, isGreatest_max?_instant hoffset hlast⟩

/-! ### One contribution -/

theorem instant_earlier (a b : IsoTime) : (IsoTime.earlier a b).instant = min b.instant a.instant := by
  unfold IsoTime.earlier
  split <;> omega

theorem instant_later (a b : IsoTime) : (IsoTime.later a b).instant = max b.instant a.instant := by
  unfold IsoTime.later
  split <;> omega

/-- A contribution names the offset of its event, and what is not pending is seen. -/
structure Dated (t : Tables) (pending : String → Prop) : Prop where
  rows : ∀ fp i, t.ingestions.get? fp = some i → ∃ k key, i.contribution = some k ∧
    mergeKey t i.eventId = some key ∧ k.timestamp.offset = key.2.offset
  seen : ∀ id e, t.events.get? id = some e → ¬pending id → Seen (instants t id) e

theorem Dated.imp {t : Tables} {p q : String → Prop} (h : Dated t p) (hpq : ∀ id, p id → q id) :
    Dated t q :=
  ⟨h.rows, fun id e he hq => h.seen id e he fun hp => hq (hpq id hp)⟩

theorem Dated.congr {t t' : Tables} {p : String → Prop} (h : Dated t p)
    (hevents : t'.events = t.events) (hingestions : t'.ingestions = t.ingestions) : Dated t' p := by
  constructor
  · intro fp i hi
    unfold mergeKey
    rw [hevents]
    exact h.rows fp i (hingestions ▸ hi)
  · intro id e he hp
    rw [instants_congr hingestions]
    exact h.seen id e (hevents ▸ he) hp

/-- The rows of an event are of one offset. -/
theorem Dated.offset {t : Tables} {p : String → Prop} (h : Dated t p) {id : String}
    {key : String × IsoTime} (hkey : mergeKey t id = some key) :
    ∀ i ∈ t.contributionsTo id, ∃ k, i.contribution = some k ∧ k.timestamp.offset = key.2.offset := by
  intro i hi
  obtain ⟨fp, hget, rfl, -⟩ := mem_contributionsTo.mp hi
  obtain ⟨k, key', hk, hkey', hoffset⟩ := h.rows fp i hget
  obtain rfl := Option.some.inj (hkey.symm.trans hkey')
  exact ⟨k, hk, hoffset⟩

/-- An event that is written under its key, or anew, is pending. -/
theorem Dated.setEvent {t : Tables} {p : String → Prop} (h : Dated t p) {id : String}
    {e : RiskEvent}
    (hkey : ∀ key, mergeKey t id = some key → (e.dedupKey, e.windowStart) = key) :
    Dated (t.setEvent id e) fun x => p x ∨ x = id := by
  constructor
  · intro fp i hi
    obtain ⟨k, key, hk, hkey', hoffset⟩ := h.rows fp i hi
    refine ⟨k, key, hk, ?_, hoffset⟩
    rw [mergeKey_setEvent]
    split
    · rename_i heq
      rw [hkey key (heq ▸ hkey')]
    · exact hkey'
  · intro x f hf hx
    rw [not_or] at hx
    rw [Tables.setEvent_events, Dict.get?_set_of_ne (Ne.symm hx.2)] at hf
    exact h.seen x f hf hx.1

/-- Writing an event as it is seen settles it. -/
theorem Dated.setSeen {t : Tables} {p : String → Prop} (h : Dated t p) {id : String}
    {e : RiskEvent} (hkey : ∀ key, mergeKey t id = some key → (e.dedupKey, e.windowStart) = key)
    (hseen : Seen (instants t id) e) : Dated (t.setEvent id e) fun x => p x ∧ x ≠ id := by
  refine ⟨(h.setEvent hkey).rows, fun x f hf hx => ?_⟩
  by_cases heq : x = id
  · subst heq
    rw [Tables.setEvent_events, Dict.get?_set_self] at hf
    obtain rfl := Option.some.inj hf
    exact hseen
  · rw [Tables.setEvent_events, Dict.get?_set_of_ne (Ne.symm heq)] at hf
    exact h.seen x f hf fun hp => hx ⟨hp, heq⟩

theorem Dated.refreshEvent {t : Tables} {p : String → Prop} (h : Dated t p) (id : String) :
    Dated (refreshEvent t id) fun x => p x ∧ x ≠ id := by
  rw [NodeRisk.refreshEvent]
  split
  · rename_i hnone
    refine ⟨h.rows, fun x e he hx => h.seen x e he fun hp => hx ⟨hp, ?_⟩⟩
    rintro rfl
    cases hnone.symm.trans he
  · rename_i e he
    have hkey := mergeKey_of_get? he
    refine h.setSeen (fun key hk => ?_) (refreshed_seen e (h.offset hkey))
    obtain ⟨hdedup, hstart⟩ := refreshed_keys e (t.contributionsTo id)
    rw [hdedup, hstart]
    exact Option.some.inj (hkey.symm.trans hk)

/-- The row of a contribution, new or no longer current. -/
theorem Dated.setIngestion {t : Tables} {p : String → Prop} (h : Dated t p) {fp : String}
    {i : Ingestion} (hold : ∀ old, t.ingestions.get? fp = some old → old.eventId = i.eventId)
    (hrow : ∃ k key, i.contribution = some k ∧ mergeKey t i.eventId = some key ∧
      k.timestamp.offset = key.2.offset) :
    Dated (t.setIngestion fp i) fun x => p x ∨ x = i.eventId := by
  constructor
  · intro fp' i' hi'
    rw [Tables.setIngestion_ingestions, Dict.get?_set] at hi'
    split at hi'
    · obtain rfl := Option.some.inj hi'
      exact hrow
    · exact h.rows fp' i' hi'
  · intro x e he hx
    rw [not_or] at hx
    have hsame : instants (t.setIngestion fp i) x = instants t x := by
      refine instants_setIngestion_of_ne (Ne.symm hx.2) fun old hget => ?_
      rw [hold old hget]
      exact Ne.symm hx.2
    rw [hsame]
    exact h.seen x e he hx.1

theorem Dated.demote {t t' : Tables} {c : IngestCall} {key : Option String}
    (h : Dated t fun _ => False) (hok : demote t c (t.currentOf key) = .ok t') :
    Dated t' fun x => ∃ q ∈ t.currentOf key, x = q.2.eventId := by
  cases hprevious : t.currentOf key with
  | none =>
      rw [hprevious] at hok
      obtain rfl := Except.ok.inj hok
      exact h.imp fun x hx => hx.elim
  | some q =>
      obtain ⟨fp, i⟩ := q
      rw [hprevious] at hok
      obtain ⟨-, hok⟩ := require_bind_eq_ok.mp hok
      obtain rfl := Except.ok.inj hok
      obtain ⟨hget, -, -⟩ := currentOf_eq_some hprevious
      have hrow := h.rows fp i hget
      refine (h.setIngestion (i := { i with isCurrent := false }) ?_ hrow).imp ?_
      · intro old hold
        rw [← Option.some.inj (hget.symm.trans hold)]
      · rintro x (hx | rfl)
        · exact hx.elim
        · exact ⟨_, rfl, rfl⟩

theorem Dated.releasePrevious {t : Tables} {p : String → Prop} {now : IsoTime}
    {previous : Option (String × Ingestion)}
    (h : Dated t fun x => p x ∨ ∃ q ∈ previous, x = q.2.eventId) :
    Dated (releasePrevious t now previous) p := by
  cases previous with
  | none =>
      refine h.imp fun x hx => ?_
      rcases hx with hp | ⟨q, hq, -⟩
      · exact hp
      · cases hq
  | some q =>
      have hrefreshed : Dated (NodeRisk.refreshEvent t q.2.eventId) p := by
        refine (h.refreshEvent q.2.eventId).imp ?_
        rintro x ⟨hp | ⟨q', hq', rfl⟩, hne⟩
        · exact hp
        · obtain rfl := Option.some.inj hq'
          exact absurd rfl hne
      rw [NodeRisk.releasePrevious]
      split
      · exact hrefreshed
      · exact hrefreshed.congr rfl rfl

/-- Nothing is known of an event without a row. -/
theorem Dated.instants_unknown {t : Tables} {p : String → Prop} (h : Dated t p) {id : String}
    (hid : mergeKey t id = none) : instants t id = ∅ := by
  rw [Set.eq_empty_iff_forall_notMem]
  rintro x ⟨i, hi, -⟩
  obtain ⟨fp, hget, rfl, -⟩ := mem_contributionsTo.mp hi
  obtain ⟨k, key, -, hkey, -⟩ := h.rows fp i hget
  cases hid.symm.trans hkey

theorem opened_seen (d : Draft) (c : IngestCall) :
    Seen (insert d.timestamp.instant ∅) (opened d c) := by
  refine ⟨fun _ => ?_, (by intro h; cases h)⟩
  rw [insert_empty_eq]
  exact ⟨isLeast_singleton, isGreatest_singleton⟩

theorem merged_seen {S : Set ℤ} {e : RiskEvent} (d : Draft) (c : IngestCall) (h : Seen S e)
    (hcurrent : e.derivationStatus = .current) :
    Seen (insert d.timestamp.instant S) (merged d c e) := by
  obtain ⟨hleast, hgreatest⟩ := h.current hcurrent
  constructor
  · intro _
    change IsLeast _ (IsoTime.earlier e.firstSeen d.timestamp).instant ∧
      IsGreatest _ (IsoTime.later e.lastSeen d.timestamp).instant
    rw [instant_earlier, instant_later]
    exact ⟨hleast.insert _, hgreatest.insert _⟩
  · intro hsuperseded
    cases hcurrent.symm.trans hsuperseded

theorem Seen.settle {S : Set ℤ} {e : RiskEvent} (h : Seen S e) (count : ℕ) :
    Seen S { e with currentOccurrenceCount := some count } :=
  ⟨h.current, h.superseded⟩

/-- The event that a contribution without a previous revision goes to. -/
theorem upserted_seen {t t' : Tables} {d : Draft} {c : IngestCall} {e : RiskEvent}
    (hbooked : Booked t fun _ => False) (h : Dated t fun _ => False)
    (hupsert : upsertEvent t d c (t.eventAt d.dedupKey d.windowStart) = .ok (e, t'))
    (hcurrent : ∀ old, t.eventAt d.dedupKey d.windowStart = some old →
      old.derivationStatus = .current) :
    Seen (insert d.timestamp.instant (instants t e.eventId)) e := by
  cases hat : t.eventAt d.dedupKey d.windowStart with
  | none =>
      rw [hat] at hupsert
      obtain ⟨hfresh, hupsert⟩ := require_bind_eq_ok.mp hupsert
      obtain ⟨rfl, -⟩ := Prod.mk.inj (Except.ok.inj hupsert)
      have hnone : mergeKey t c.newId = none := by
        rw [mergeKey, Dict.get?_eq_none.mpr hfresh]
        rfl
      have hempty : instants t (opened d c).eventId = ∅ := h.instants_unknown hnone
      rw [hempty]
      exact opened_seen d c
  | some old =>
      have hseen := h.seen old.eventId old (eventAt_eq_some hbooked hat) not_false
      rw [hat] at hupsert
      obtain ⟨rfl, -⟩ := Prod.mk.inj (Except.ok.inj hupsert)
      exact merged_seen d c hseen (hcurrent old hat)

theorem contribute_dated {t t' : Tables} {d : Draft} {c : IngestCall} {id : String}
    (hbooked : Booked t fun _ => False) (h : Dated t fun _ => False)
    (hfp : d.fingerprint ∉ t.ingestions.keys) (hoffset : d.timestamp.offset = d.windowStart.offset)
    (hok : contribute t d c = .ok (id, t')) : Dated t' fun _ => False := by
  obtain ⟨t₁, hdemote, hok⟩ := bind_eq_ok.mp hok
  obtain ⟨⟨e, t₂⟩, hupsert, hok⟩ := bind_eq_ok.mp hok
  obtain ⟨rfl, rfl⟩ := Prod.mk.inj (Except.ok.inj hok)
  refine Dated.congr (p := fun _ => False) (Dated.releasePrevious ?_) rfl rfl
  obtain ⟨hbooked₁, hevents, hkeys⟩ := demote_booked hbooked hdemote
  have hdated₁ := h.demote hdemote
  have hfp₁ : d.fingerprint ∉ t₁.ingestions.keys := hkeys ▸ hfp
  obtain ⟨hdedup, hstart, hbefore⟩ := upserted_keys hbooked₁.ids hupsert
  obtain ⟨rfl, -, -⟩ := upsertEvent_spec hupsert
  have hrewritten : ∀ key, mergeKey t₁ e.eventId = some key →
      (e.dedupKey, e.windowStart) = key := by
    intro key hkey
    rw [hdedup, hstart]
    rcases hbefore with hsome | ⟨hnone, -⟩
    · exact Option.some.inj (hsome.symm.trans hkey)
    · cases hnone.symm.trans hkey
  let t₃ := (t₁.setEvent e.eventId e).setIngestion d.fingerprint (contribution d c e.eventId)
  have hstored : mergeKey t₃ e.eventId = some (e.dedupKey, e.windowStart) :=
    (mergeKey_setEvent t₁ e.eventId e e.eventId).trans (if_pos rfl)
  have hingested : Dated t₃ fun x =>
      ((∃ q ∈ t.currentOf d.physicalKey, x = q.2.eventId) ∨ x = e.eventId) ∨ x = e.eventId := by
    refine (hdated₁.setEvent hrewritten).setIngestion ?_ ?_
    · intro old hold
      exact absurd (Dict.mem_keys_of_get? hold) hfp₁
    · exact ⟨_, _, rfl, hstored, hstart ▸ hoffset⟩
  have hreleased : ∀ x, (((∃ q ∈ t.currentOf d.physicalKey, x = q.2.eventId) ∨ x = e.eventId) ∨
      x = e.eventId) ∧ x ≠ e.eventId → False ∨ ∃ q ∈ t.currentOf d.physicalKey, x = q.2.eventId := by
    rintro x ⟨(hx | rfl) | rfl, hne⟩
    · exact Or.inr hx
    · exact absurd rfl hne
    · exact absurd rfl hne
  split
  · exact (hingested.refreshEvent e.eventId).imp hreleased
  · rename_i hrefresh
    rw [not_or] at hrefresh
    obtain ⟨hprevious, hcurrent⟩ := hrefresh
    rw [Bool.not_eq_true, Option.isSome_eq_false_iff, Option.isNone_iff_eq_none] at hprevious
    have hnothing : ∀ x, (∃ q ∈ t.currentOf d.physicalKey, x = q.2.eventId) → False := by
      rintro x ⟨q, hq, -⟩
      rw [hprevious] at hq
      cases hq
    have hold : ∀ old, t₁.eventAt d.dedupKey d.windowStart = some old →
        old.derivationStatus = .current := by
      intro old hat
      rw [hat] at hcurrent
      cases hderived : old.derivationStatus with
      | current => rfl
      | superseded => exact absurd (by simp [hderived]) hcurrent
    have hseen := upserted_seen (hbooked₁.imp hnothing) (hdated₁.imp hnothing) hupsert hold
    have hinstants : instants t₃ e.eventId =
        insert d.timestamp.instant (instants t₁ e.eventId) :=
      instants_setIngestion_new (t := t₁.setEvent e.eventId e)
        (i := contribution d c e.eventId) hfp₁ rfl rfl
    refine (hingested.setSeen (e := { e with currentOccurrenceCount := some e.occurrenceCount })
      ?_ ?_).imp hreleased
    · intro key hkey
      exact Option.some.inj (hstored.symm.trans hkey)
    · rw [hinstants]
      exact hseen.settle _

/-! ## Runs -/

/-- The length of the window that a contribution asks for. -/
def IngestCall.windowSeconds (c : IngestCall) : ℤ :=
  if c.event.windowSeconds = 0 then 300 else c.event.windowSeconds

theorem draft_windowStart {env : NodeRiskEnv} {c : IngestCall} {d : Draft}
    (h : draft env c = .ok d) : d.windowStart = d.timestamp.floorTo c.windowSeconds := by
  obtain ⟨-, h⟩ := require_bind_eq_ok.mp h
  obtain ⟨-, h⟩ := require_bind_eq_ok.mp h
  obtain ⟨-, h⟩ := require_bind_eq_ok.mp h
  obtain ⟨text, -, h⟩ := orFail_bind_eq_ok.mp h
  obtain ⟨timestamp, -, h⟩ := orFail_bind_eq_ok.mp h
  obtain rfl := Except.ok.inj h
  rfl

theorem draft_offset {env : NodeRiskEnv} {c : IngestCall} {d : Draft} (h : draft env c = .ok d) :
    d.timestamp.offset = d.windowStart.offset := by
  rw [draft_windowStart h, IsoTime.floorTo_offset]

theorem transitioned_seen {S : Set ℤ} {c : TransitionCall} {e : RiskEvent} (h : Seen S e) :
    Seen S (transitioned c e) := by
  rw [transitioned]
  split <;> exact ⟨h.current, h.superseded⟩

theorem step_dated {env : NodeRiskEnv} {model : ScoreModel} {t : Tables} (call : Call)
    (haccounted : Accounted t) (h : Dated t fun _ => False) :
    Dated (step env model t call) fun _ => False := by
  cases call with
  | ingest c =>
      refine settled_induction (P := fun t : Tables => Dated t fun _ => False) h fun r t' hok => ?_
      obtain ⟨d, hdraft, ⟨-, -, rfl⟩ | ⟨hnew, -, hcontribute⟩⟩ := ingest_eq_ok hok
      · exact h
      · exact contribute_dated haccounted.booked h hnew (draft_offset hdraft) hcontribute
  | transition c =>
      refine settled_induction (P := fun t : Tables => Dated t fun _ => False) h fun r t' hok => ?_
      obtain ⟨-, rfl⟩ | ⟨e, he, -, rfl⟩ := transition_eq_ok hok
      · exact h
      · have hkey : ∀ key, mergeKey t c.eventId = some key →
            ((transitioned c e).dedupKey, (transitioned c e).windowStart) = key := by
          intro key hkey
          obtain ⟨hdedup, hstart⟩ := transitioned_keys c e
          rw [hdedup, hstart]
          exact Option.some.inj ((mergeKey_of_get? he).symm.trans hkey)
        have hseen := transitioned_seen (c := c) (h.seen c.eventId e he not_false)
        exact ((h.setSeen hkey hseen).imp fun x hx => hx.1).congr rfl rfl
  | recalculate node now =>
      refine settled_induction (P := fun t : Tables => Dated t fun _ => False) h fun r t' hok => ?_
      obtain ⟨hevents, hingestions⟩ := recalculate_frame hok
      exact h.congr hevents hingestions

/-- What holds of the tables of every run. -/
structure Windowed (t : Tables) : Prop where
  accounted : Accounted t
  separate : Separate t
  dated : Dated t fun _ => False

theorem windowed_empty : Windowed .empty :=
  ⟨accounted_empty, (by intro x y key h; cases h),
    ⟨(by intro fp i h; cases h), (by intro id e h; cases h)⟩⟩

theorem step_windowed {env : NodeRiskEnv} {model : ScoreModel} {t : Tables} (call : Call)
    (h : Windowed t) : Windowed (step env model t call) :=
  ⟨step_accounted call h.accounted, step_separate call h.accounted h.separate,
    step_dated call h.accounted h.dated⟩

theorem exec_windowed (env : NodeRiskEnv) (model : ScoreModel) (calls : List Call) :
    Windowed (exec (step env model) .empty calls) :=
  exec_invariant' (fun _ call h => step_windowed call h) windowed_empty calls

theorem exec_keeps {env : NodeRiskEnv} {model : ScoreModel} {t : Tables} (h : Windowed t)
    {x : String} {key : String × IsoTime} (hx : mergeKey t x = some key) (calls : List Call) :
    mergeKey (exec (step env model) t calls) x = some key := by
  induction calls generalizing t with
  | nil => exact hx
  | cons call calls ih => exact ih (step_windowed call h) (step_keeps call h.accounted hx)

/-- In the run the call contributes to the event, as a new contribution. -/
def Contributed (env : NodeRiskEnv) (model : ScoreModel) (calls : List Call) (c : IngestCall)
    (d : Draft) (id : String) : Prop :=
  ∃ before after t', calls = before ++ .ingest c :: after ∧ draft env c = .ok d ∧
    ingest env (exec (step env model) .empty before) c = .ok ((id, false), t')

/-- The event of a contribution keeps the key it was found by. -/
theorem contributed_mergeKey {env : NodeRiskEnv} {model : ScoreModel} {calls : List Call}
    {c : IngestCall} {d : Draft} {id : String} (h : Contributed env model calls c d id) :
    mergeKey (exec (step env model) .empty calls) id =
      some (d.dedupKey, d.timestamp.floorTo c.windowSeconds) := by
  obtain ⟨before, after, t', rfl, hdraft, hok⟩ := h
  have hbefore := exec_windowed env model before
  have hstep : step env model (exec (step env model) .empty before) (.ingest c) = t' := by
    rw [step, hok]
    rfl
  have hafter : Windowed t' := hstep ▸ step_windowed (.ingest c) hbefore
  obtain ⟨d', hdraft', ⟨-, hreplay, -⟩ | ⟨-, -, hcontribute⟩⟩ := ingest_eq_ok hok
  · cases hreplay
  · obtain rfl := Except.ok.inj (hdraft.symm.trans hdraft')
    obtain ⟨hid, -, -⟩ := contribute_mergeKey hbefore.accounted.booked.ids hcontribute
    rw [exec_append, exec_cons, hstep]
    rw [draft_windowStart hdraft] at hid
    exact exec_keeps hafter hid after

/-! ## Absolute windows -/

/-- Both times lie in one window of one length. -/
def SameWindow (τ : IsoTime) (seconds : ℤ) (τ' : IsoTime) (seconds' : ℤ) : Prop :=
  seconds = seconds' ∧ τ.windowOf seconds = τ'.windowOf seconds'

/-- Times of one window are written with one offset, and the whole seconds of both
stay in it or leave it; the whole seconds of times of one offset and different
windows are not in windows that start together. -/
def Aligned (τ : IsoTime) (seconds : ℤ) (τ' : IsoTime) (seconds' : ℤ) : Prop :=
  (SameWindow τ seconds τ' seconds' →
      τ.offset = τ'.offset ∧ (τ.Spills seconds ↔ τ'.Spills seconds')) ∧
    (¬SameWindow τ seconds τ' seconds' → τ.offset = τ'.offset →
      τ.slot seconds * seconds ≠ τ'.slot seconds' * seconds')

theorem floorTo_eq_iff_sameWindow {τ τ' : IsoTime} {seconds seconds' : ℤ} (hs : 0 < seconds)
    (hs' : 0 < seconds') :
    (τ.floorTo seconds = τ'.floorTo seconds' ↔ SameWindow τ seconds τ' seconds') ↔
      Aligned τ seconds τ' seconds' := by
  rw [IsoTime.floorTo_eq_iff hs hs']
  constructor
  · intro h
    refine ⟨fun hsame => ?_, fun hne hoffset hstart => hne (h.mp ⟨hoffset, hstart⟩)⟩
    obtain ⟨hoffset, hstart⟩ := h.mpr hsame
    obtain ⟨rfl, hwindow⟩ := hsame
    have hslot := mul_right_cancel₀ hs.ne' hstart
    refine ⟨hoffset, ?_⟩
    unfold IsoTime.slot at hslot
    by_cases hleft : τ.Spills seconds <;> by_cases hright : τ'.Spills seconds
    · exact iff_of_true hleft hright
    · rw [if_pos hleft, if_neg hright] at hslot
      omega
    · rw [if_neg hleft, if_pos hright] at hslot
      omega
    · exact iff_of_false hleft hright
  · rintro ⟨hsame, hother⟩
    constructor
    · rintro ⟨hoffset, hstart⟩
      by_contra hne
      exact hother hne hoffset hstart
    · intro hwindow
      obtain ⟨hoffset, hspills⟩ := hsame hwindow
      obtain ⟨rfl, hnumber⟩ := hwindow
      refine ⟨hoffset, ?_⟩
      unfold IsoTime.slot
      rw [hnumber, if_congr hspills rfl rfl]

/-- In every run: two contributions of one deduplication key are merged exactly
when they share a window, if and only if they are aligned; and an event is seen
from the first to the last instant of its current contributions, all of which are
known. -/
theorem event_windows (env : NodeRiskEnv) (model : ScoreModel) (calls : List Call) :
    (∀ c d id c' d' id', Contributed env model calls c d id →
      Contributed env model calls c' d' id' → d.dedupKey = d'.dedupKey →
      0 < c.windowSeconds → 0 < c'.windowSeconds →
      ((id = id' ↔
          SameWindow d.timestamp c.windowSeconds d'.timestamp c'.windowSeconds) ↔
        Aligned d.timestamp c.windowSeconds d'.timestamp c'.windowSeconds)) ∧
      ∀ id e, (exec (step env model) .empty calls).events.get? id = some e →
        (∀ i ∈ (exec (step env model) .empty calls).contributionsTo id,
          i.contribution.isSome = true) ∧
        ((instants (exec (step env model) .empty calls) id).Nonempty →
          IsLeast (instants (exec (step env model) .empty calls) id) e.firstSeen.instant ∧
            IsGreatest (instants (exec (step env model) .empty calls) id) e.lastSeen.instant) := by
  have hwindowed := exec_windowed env model calls
  constructor
  · intro c d id c' d' id' hc hc' hdedup hs hs'
    have hkey := contributed_mergeKey hc
    have hkey' := contributed_mergeKey hc'
    have hmerged : id = id' ↔
        d.timestamp.floorTo c.windowSeconds = d'.timestamp.floorTo c'.windowSeconds := by
      constructor
      · rintro rfl
        exact (Prod.mk.inj (Option.some.inj (hkey.symm.trans hkey'))).2
      · intro hstart
        rw [hdedup, hstart] at hkey
        exact hwindowed.separate id id' _ hkey hkey'
    rw [hmerged]
    exact floorTo_eq_iff_sameWindow hs hs'
  · intro id e he
    have hseen := hwindowed.dated.seen id e he not_false
    refine ⟨fun i hi => ?_, fun hne => ?_⟩
    · obtain ⟨k, hk, -⟩ := hwindowed.dated.offset (mergeKey_of_get? he) i hi
      rw [hk]
      rfl
    · refine hseen.current ?_
      cases hderived : e.derivationStatus with
      | current => rfl
      | superseded =>
          rw [hseen.superseded hderived] at hne
          cases hne.ne_empty rfl

/-- The epoch as it is written in UTC and in an offset of eight hours. -/
def twoZones : NodeRiskEnv where
  sha256 := id
  parse := fun text =>
    if text = "1970-01-01T08:00:00+08:00" then
      some ⟨8 * 3600 * IsoTime.second, 8 * 3600 * IsoTime.second⟩
    else some ⟨0, 0⟩
  isoformat := fun _ => "now"

/-- One risk of one node, contributed by a batch at this time. -/
def zoneCall (batch timestamp newId : String) : IngestCall where
  event := { riskType := "a", domain := "d", category := "c", severity := "high", baseScore := 1,
             confidence := 1, semanticRuleId := "r", semanticRuleVersion := 1,
             keyFields := ["node_id", "risk_type"] }
  record := { node := some "n", timestamp := some timestamp, sourceBatchId := some batch }
  now := ⟨0, 0⟩
  newId

def utcCall : IngestCall := zoneCall "first" "1970-01-01T00:00:00Z" "event-utc"

def localCall : IngestCall := zoneCall "second" "1970-01-01T08:00:00+08:00" "event-local"

theorem contributed_of_result {env : NodeRiskEnv} {model : ScoreModel} {before after : List Call}
    {c : IngestCall} {d : Draft} {id : String} (hdraft : draft env c = .ok d)
    (hresult : (ingest env (exec (step env model) .empty before) c).toOption.map Prod.fst =
      some (id, false)) : Contributed env model (before ++ .ingest c :: after) c d id := by
  obtain ⟨⟨r, t'⟩, hok, hr⟩ := Option.map_eq_some_iff.mp hresult
  refine ⟨before, after, t', rfl, hdraft, ?_⟩
  cases hingest : ingest env (exec (step env model) .empty before) c with
  | error err =>
      rw [hingest] at hok
      cases hok
  | ok result =>
      rw [hingest] at hok
      obtain rfl := Option.some.inj hok
      rw [← hr]

/-- One instant, written with two offsets. -/
theorem one_instant_two_events : ¬∀ (env : NodeRiskEnv) (model : ScoreModel) (calls : List Call)
    (c : IngestCall) (d : Draft) (id : String) (c' : IngestCall) (d' : Draft) (id' : String),
    Contributed env model calls c d id → Contributed env model calls c' d' id' →
    d.dedupKey = d'.dedupKey → 0 < c.windowSeconds → 0 < c'.windowSeconds →
    (id = id' ↔ SameWindow d.timestamp c.windowSeconds d'.timestamp c'.windowSeconds) := by
  intro h
  have hutc : Contributed twoZones zeroScore ([] ++ .ingest utcCall :: [.ingest localCall])
      utcCall _ "event-utc" := contributed_of_result rfl (by decide +kernel)
  have hlocal : Contributed twoZones zeroScore ([.ingest utcCall] ++ .ingest localCall :: [])
      localCall _ "event-local" := contributed_of_result rfl (by decide +kernel)
  have hdedup : dedupKey twoZones utcCall.event utcCall.record =
      dedupKey twoZones localCall.event localCall.record := by decide +kernel
  have hsame := (h _ _ _ _ _ _ _ _ _ hutc hlocal hdedup (by decide) (by decide)).mpr
    ⟨rfl, by decide +kernel⟩
  exact absurd hsame (by decide)

end LogRisk.NodeRisk
