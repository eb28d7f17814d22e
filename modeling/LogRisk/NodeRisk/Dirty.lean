import LogRisk.NodeRisk.Accounting

/-!
# Which nodes a write makes dirty

A contribution changes events of the node it names and of the node whose event
lost the previous revision.  Both are marked dirty, provided that the event it is
merged into belongs to the node it names.
-/

namespace LogRisk.NodeRisk

open LogRisk.Library LogRisk.Library.Transaction

def revisionOf (t : Tables) (node : String × String) : ℕ :=
  (t.revisions.get? node).elim 0 (·.revision)

def projectedOf (t : Tables) (node : String × String) : ℕ :=
  (t.revisions.get? node).elim 0 (·.projectedRevision)

/-- The node has been written since it was last projected. -/
def Dirty (t : Tables) (node : String × String) : Prop := projectedOf t node < revisionOf t node

/-- No revision is projected before it is there. -/
def Ordered (t : Tables) : Prop := ∀ node, projectedOf t node ≤ revisionOf t node

/-- The revision has moved on, and what was projected has not. -/
def Marked (t t' : Tables) (node : String × String) : Prop :=
  revisionOf t node < revisionOf t' node ∧ projectedOf t' node = projectedOf t node

theorem markDirty_marked (t : Tables) (node : String × String) (now : IsoTime) :
    Marked t (t.markDirty node now) node := by
  cases hr : t.revisions.get? node with
  | none => simp [Marked, revisionOf, projectedOf, Tables.markDirty, hr]
  | some r => simp [Marked, revisionOf, projectedOf, Tables.markDirty, hr]

theorem markDirty_of_ne {t : Tables} {node other : String × String} (h : node ≠ other)
    (now : IsoTime) : (t.markDirty node now).revisions.get? other = t.revisions.get? other :=
  Dict.get?_alter_of_ne h

theorem Marked.markDirty {t t' : Tables} {node : String × String} (h : Marked t t' node)
    (other : String × String) (now : IsoTime) : Marked t (t'.markDirty other now) node := by
  by_cases heq : other = node
  · subst heq
    have hmarked := markDirty_marked t' other now
    exact ⟨h.1.trans hmarked.1, hmarked.2.trans h.2⟩
  · rw [Marked, revisionOf, projectedOf, revisionOf, projectedOf, markDirty_of_ne heq]
    exact h

theorem Marked.of_revisions {t₀ t t' : Tables} {node : String × String} (h : Marked t t' node)
    (hsame : t.revisions.get? node = t₀.revisions.get? node) : Marked t₀ t' node := by
  have hrevision : revisionOf t node = revisionOf t₀ node := by rw [revisionOf, hsame]; rfl
  have hprojected : projectedOf t node = projectedOf t₀ node := by rw [projectedOf, hsame]; rfl
  exact ⟨hrevision ▸ h.1, h.2.trans hprojected⟩

/-- Where the events of a node change, the node is marked; other nodes are left alone. -/
def Marks (t t' : Tables) : Prop :=
  ∀ node, (t'.eventsOf node = t.eventsOf node ∧ t'.revisions.get? node = t.revisions.get? node) ∨
    Marked t t' node

theorem Marks.refl (t : Tables) : Marks t t := fun _ => .inl ⟨rfl, rfl⟩

theorem Marks.ordered {t t' : Tables} (h : Marks t t') (hordered : Ordered t) : Ordered t' := by
  intro node
  rcases h node with ⟨-, hsame⟩ | ⟨hlt, hprojected⟩
  · rw [projectedOf, revisionOf, hsame]
    exact hordered node
  · exact hprojected.trans_le ((hordered node).trans hlt.le)

theorem Marks.dirty {t t' : Tables} (h : Marks t t') {node : String × String} (hdirty : Dirty t node) :
    Dirty t' node := by
  rcases h node with ⟨-, hsame⟩ | ⟨hlt, hprojected⟩
  · rw [Dirty, projectedOf, revisionOf, hsame]
    exact hdirty
  · exact hprojected.trans_lt (hdirty.trans hlt)

theorem Marked.dirty {t t' : Tables} (hordered : Ordered t) {node : String × String}
    (h : Marked t t' node) : Dirty t' node :=
  h.2.trans_lt ((hordered node).trans_lt h.1)

theorem Marks.changes {t t' : Tables} (h : Marks t t') (hordered : Ordered t)
    (node : String × String) : t'.eventsOf node = t.eventsOf node ∨ Dirty t' node :=
  (h node).imp And.left (Marked.dirty hordered)

/-! ## The events of another node -/

theorem eventsOf_setEvent {t : Tables} {id : String} {e : RiskEvent} {node : String × String}
    (hold : ∀ old, t.events.get? id = some old → old.node ≠ node) (hnew : e.node ≠ node) :
    (t.setEvent id e).eventsOf node = t.eventsOf node :=
  Dict.filter_values_set (fun old h => by simpa using hold old h) (by simpa using hnew)

theorem refreshed_node (e : RiskEvent) (rows : List Ingestion) : (refreshed e rows).node = e.node := by
  rw [refreshed]
  split
  · rfl
  · split <;> rfl

theorem eventsOf_refreshEvent {t : Tables} {id : String} {node : String × String}
    (h : ∀ e, t.events.get? id = some e → e.node ≠ node) :
    (refreshEvent t id).eventsOf node = t.eventsOf node := by
  rw [refreshEvent]
  split
  · rfl
  · rename_i e he
    refine eventsOf_setEvent h ?_
    rw [refreshed_node]
    exact h e he

theorem refreshEvent_get? {t : Tables} {id : String} {e : RiskEvent}
    (h : t.events.get? id = some e) :
    (refreshEvent t id).events.get? id = some (refreshed e (t.contributionsTo id)) := by
  rw [refreshEvent]
  simp only [h, Tables.setEvent_events, Dict.get?_set_self]

@[simp] theorem refreshEvent_revisions (t : Tables) (id : String) :
    (refreshEvent t id).revisions = t.revisions := by
  rw [refreshEvent]
  split <;> rfl

theorem releasePrevious_marks (t : Tables) (now : IsoTime) (previous : Option (String × Ingestion)) :
    Marks t (releasePrevious t now previous) := by
  cases previous with
  | none => exact .refl t
  | some q =>
      cases he : t.events.get? q.2.eventId with
      | none =>
          have hrefresh : refreshEvent t q.2.eventId = t := by rw [refreshEvent, he]
          have hrelease : releasePrevious t now (some q) = t := by
            rw [releasePrevious]
            simp only [hrefresh, he]
          rw [hrelease]
          exact .refl t
      | some e =>
          have hrelease : releasePrevious t now (some q) =
              (refreshEvent t q.2.eventId).markDirty e.node now := by
            rw [releasePrevious]
            simp only [refreshEvent_get? he, refreshed_node]
          rw [hrelease]
          intro node
          by_cases hnode : e.node = node
          · right
            rw [← hnode]
            refine (markDirty_marked (refreshEvent t q.2.eventId) e.node now).of_revisions ?_
            rw [refreshEvent_revisions]
          · left
            rw [markDirty_of_ne hnode, refreshEvent_revisions]
            refine ⟨eventsOf_refreshEvent (t := t) fun e' he' => ?_, rfl⟩
            obtain rfl := Option.some.inj (he.symm.trans he')
            exact hnode

/-! ## Contributions and transitions -/

/-- The event a contribution is merged into is one of the node it names. -/
def MergesOwn (t : Tables) (d : Draft) : Prop :=
  ∀ e ∈ t.eventAt d.dedupKey d.windowStart, e.node = d.node

theorem demote_frame {t t' : Tables} {c : IngestCall} {previous : Option (String × Ingestion)}
    (hok : demote t c previous = .ok t') : t'.events = t.events ∧ t'.revisions = t.revisions := by
  cases previous with
  | none =>
      obtain rfl := Except.ok.inj hok
      exact ⟨rfl, rfl⟩
  | some q =>
      obtain ⟨-, hok⟩ := require_bind_eq_ok.mp hok
      obtain rfl := Except.ok.inj hok
      exact ⟨rfl, rfl⟩

theorem upsertEvent_node {t t' : Tables} {d : Draft} {c : IngestCall} {existing : Option RiskEvent}
    {e : RiskEvent} (hown : ∀ old ∈ existing, old.node = d.node)
    (hok : upsertEvent t d c existing = .ok (e, t')) : e.node = d.node := by
  cases existing with
  | some old =>
      obtain ⟨rfl, -⟩ := Prod.mk.inj (Except.ok.inj hok)
      exact hown old rfl
  | none =>
      obtain ⟨-, hok⟩ := require_bind_eq_ok.mp hok
      obtain ⟨rfl, -⟩ := Prod.mk.inj (Except.ok.inj hok)
      rfl

theorem contribute_marks {t t' : Tables} {d : Draft} {c : IngestCall} {id : String}
    (hids : ∀ id e, t.events.get? id = some e → e.eventId = id) (hown : MergesOwn t d)
    (hok : contribute t d c = .ok (id, t')) : Marks t t' := by
  obtain ⟨t₁, hdemote, hok⟩ := bind_eq_ok.mp hok
  obtain ⟨⟨e, t₂⟩, hupsert, hok⟩ := bind_eq_ok.mp hok
  obtain ⟨rfl, rfl⟩ := Prod.mk.inj (Except.ok.inj hok)
  obtain ⟨hevents, hrevisions⟩ := demote_frame hdemote
  have hat : t₁.eventAt d.dedupKey d.windowStart = t.eventAt d.dedupKey d.windowStart := by
    rw [Tables.eventAt, Tables.eventAt, hevents]
  have hnode : e.node = d.node := upsertEvent_node (fun old hold => hown old (hat ▸ hold)) hupsert
  obtain ⟨rfl, hmerged, hopened⟩ := upsertEvent_spec hupsert
  -- whatever stood under this id before is of the same node
  have hbefore : ∀ node, node ≠ d.node → ∀ old, t₁.events.get? e.eventId = some old → old.node ≠ node := by
    intro node hne old hold heq
    cases hexisting : t₁.eventAt d.dedupKey d.windowStart with
    | none =>
        obtain ⟨hfresh, -⟩ := hopened hexisting
        exact hfresh (Dict.mem_keys_of_get? hold)
    | some found =>
        obtain ⟨hid, -⟩ := hmerged found hexisting
        rw [hat] at hexisting
        obtain ⟨id, hget⟩ := Dict.mem_values.mp (List.mem_of_find?_eq_some hexisting)
        rw [hid, hids id found hget, hevents, hget] at hold
        obtain rfl := Option.some.inj hold
        exact hne (heq.symm.trans (hown found hexisting))
  set t₃ := (t₁.setEvent e.eventId e).setIngestion d.fingerprint (contribution d c e.eventId)
  set t₄ := if (t.currentOf d.physicalKey).isSome = true ∨
      (t₁.eventAt d.dedupKey d.windowStart).any (fun old => old.derivationStatus = .superseded) = true then
    refreshEvent t₃ e.eventId else settleCount t₃ e
  have hget₃ : ∀ f, t₃.events.get? e.eventId = some f → f.node = d.node := by
    intro f hf
    obtain rfl := Option.some.inj ((Dict.get?_set_self t₁.events e.eventId e).symm.trans hf)
    exact hnode
  have hrevisions₄ : t₄.revisions = t.revisions := by
    rw [← hrevisions]
    simp only [t₄]
    split
    · exact refreshEvent_revisions t₃ e.eventId
    · rfl
  have hevents₄ : ∀ node, node ≠ d.node → t₄.eventsOf node = t.eventsOf node := by
    intro node hne
    have h₃ : t₃.eventsOf node = t.eventsOf node := by
      refine (eventsOf_setEvent (t := t₁) (hbefore node hne) (hnode ▸ Ne.symm hne)).trans ?_
      rw [Tables.eventsOf, Tables.eventsOf, hevents]
    rw [← h₃]
    simp only [t₄]
    split
    · exact eventsOf_refreshEvent fun f hf => (hget₃ f hf) ▸ Ne.symm hne
    · exact eventsOf_setEvent (fun f hf => (hget₃ f hf) ▸ Ne.symm hne) (hnode ▸ Ne.symm hne)
  intro node
  have hreleased : (_ ∧ _) ∨ Marked t (releasePrevious t₄ c.now (t.currentOf d.physicalKey)) node :=
    (releasePrevious_marks t₄ c.now (t.currentOf d.physicalKey) node).imp_right fun h =>
      h.of_revisions (by rw [hrevisions₄])
  by_cases hne : node = d.node
  · right
    rw [hne] at hreleased ⊢
    rcases hreleased with ⟨-, hsame⟩ | hreleased
    · refine (markDirty_marked _ d.node c.now).of_revisions ?_
      rw [hsame, hrevisions₄]
    · exact hreleased.markDirty _ _
  · rcases hreleased with ⟨hevents, hsame⟩ | hreleased
    · left
      rw [markDirty_of_ne (Ne.symm hne), hsame, hrevisions₄]
      exact ⟨Eq.trans hevents (hevents₄ node hne), rfl⟩
    · exact .inr (hreleased.markDirty _ _)

theorem transitioned_node (c : TransitionCall) (e : RiskEvent) : (transitioned c e).node = e.node := by
  rw [transitioned]
  split <;> rfl

theorem transition_marks {t t' : Tables} {c : TransitionCall} {r : Option RiskEvent}
    (hok : transition t c = .ok (r, t')) : Marks t t' := by
  obtain ⟨-, rfl⟩ | ⟨e, he, -, rfl⟩ := transition_eq_ok hok
  · exact .refl _
  · intro node
    by_cases hnode : e.node = node
    · right
      rw [← hnode]
      exact markDirty_marked (t.setEvent c.eventId (transitioned c e)) e.node c.now
    · left
      rw [markDirty_of_ne hnode]
      refine ⟨eventsOf_setEvent (t := t) (fun old hold => ?_) ((transitioned_node c e).trans_ne hnode), rfl⟩
      obtain rfl := Option.some.inj (he.symm.trans hold)
      exact hnode

/-! ## What only a recalculation writes -/

theorem contribute_daily {t t' : Tables} {d : Draft} {c : IngestCall} {id : String}
    (hok : contribute t d c = .ok (id, t')) : t'.daily = t.daily ∧ t'.snapshots = t.snapshots := by
  obtain ⟨t₁, hdemote, hok⟩ := bind_eq_ok.mp hok
  obtain ⟨⟨e, t₂⟩, hupsert, hok⟩ := bind_eq_ok.mp hok
  obtain ⟨rfl, rfl⟩ := Prod.mk.inj (Except.ok.inj hok)
  obtain ⟨rfl, -, -⟩ := upsertEvent_spec hupsert
  have hrefresh : ∀ (t : Tables) id, (refreshEvent t id).daily = t.daily ∧
      (refreshEvent t id).snapshots = t.snapshots := by
    intro t id
    rw [refreshEvent]
    split <;> exact ⟨rfl, rfl⟩
  have hrelease : ∀ (t : Tables) previous, (releasePrevious t c.now previous).daily = t.daily ∧
      (releasePrevious t c.now previous).snapshots = t.snapshots := by
    intro t previous
    cases previous with
    | none => exact ⟨rfl, rfl⟩
    | some q =>
        rw [releasePrevious]
        split
        · exact hrefresh t _
        · exact hrefresh t _
  have hfirst : t₁.daily = t.daily ∧ t₁.snapshots = t.snapshots := by
    cases hprevious : t.currentOf d.physicalKey with
    | none =>
        rw [hprevious] at hdemote
        obtain rfl := Except.ok.inj hdemote
        exact ⟨rfl, rfl⟩
    | some q =>
        rw [hprevious] at hdemote
        obtain ⟨-, hdemote⟩ := require_bind_eq_ok.mp hdemote
        obtain rfl := Except.ok.inj hdemote
        exact ⟨rfl, rfl⟩
  rw [← hfirst.1, ← hfirst.2]
  change (releasePrevious _ c.now _).daily = _ ∧ (releasePrevious _ c.now _).snapshots = _
  rw [(hrelease _ _).1, (hrelease _ _).2]
  split
  · exact hrefresh _ _
  · exact ⟨rfl, rfl⟩

theorem transition_daily {t t' : Tables} {c : TransitionCall} {r : Option RiskEvent}
    (hok : transition t c = .ok (r, t')) : t'.daily = t.daily ∧ t'.snapshots = t.snapshots := by
  obtain ⟨-, rfl⟩ | ⟨e, -, -, rfl⟩ := transition_eq_ok hok
  · exact ⟨rfl, rfl⟩
  · exact ⟨rfl, rfl⟩

end LogRisk.NodeRisk
