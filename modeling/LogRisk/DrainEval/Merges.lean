import LogRisk.DrainEval.TemplateStore
import LogRisk.Library.Links
import LogRisk.Library.Transaction
import Mathlib.Data.List.Pairwise

/-!
# Merged templates

A merge records the target and copies its text of that moment.  Later calls on either
template look at neither: a template may be merged into one that leads back to it, an
edited template keeps its link, and a template into which others are merged may change its
text.  Where no call does so, every merged template leads to one that is not merged and
has its text.
-/

namespace LogRisk.DrainEval

open LogRisk.Library LogRisk.Library.Links LogRisk.Library.Transaction

/-- Where a template has been merged into. -/
def Store.link (s : Store) (hash : String) : Option String :=
  (s.items.get? hash).bind (·.mergedInto)

/-- Merged templates, and no others, lead to one that is not merged and has their text. -/
structure Resolved (s : Store) : Prop where
  acyclic : Acyclic s.link
  ends : ∀ hash item, s.items.get? hash = some item → item.status = .merged →
    ∃ last target, Leads s.link hash last ∧ s.items.get? last = some target ∧
      target.status ≠ .merged ∧ target.mergedInto = none ∧
      target.effectiveTemplate = item.effectiveTemplate
  unlinked : ∀ hash item, s.items.get? hash = some item → item.status ≠ .merged →
    item.mergedInto = none

/-- A rollback restores what every event of the version recorded. -/
def RestoresRecorded (s : Store) : Prop :=
  ∀ hash target expected confirmed operator now item s',
    s.rollback hash target expected confirmed operator now = .ok (item, s') →
      s'.items.get? hash = some item ∧
        ∀ e ∈ s.events, e.templateHash = hash → e.after.version = target →
          item = { e.after with version := item.version, updatedAt := item.updatedAt }

/-! ## The condition -/

/-- Whatever is merged into the template would still have its text. -/
def KeepsText (s : Store) (hash : String) (current : Item) (text : String) : Prop :=
  text = current.effectiveTemplate ∨ ∀ other, s.link other ≠ some hash

/-- What a change may do to a template. -/
def MayChange (s : Store) (hash : String) (current : Item) : Change → Prop
  | .edit template => current.status ≠ .merged ∧
      ∀ text, template = some text → KeepsText s hash current (Text.strip text)
  | .ignore => current.status ≠ .merged
  | .delete => current.status ≠ .merged
  | .restore => KeepsText s hash current current.originalTemplate
  | .merge target => ∀ hash' other, target = some hash' → s.items.get? hash' = some other →
      ¬ Leads s.link hash' hash ∧ KeepsText s hash current other.effectiveTemplate

/-- What a rollback may bring back: a merge only where its target still has the text. -/
def MayRestore (s : Store) (hash : String) (current recorded : Item) : Prop :=
  KeepsText s hash current recorded.effectiveTemplate ∧
    ∀ target, recorded.mergedInto = some target → ¬ Leads s.link target hash ∧
      ∀ other, s.items.get? target = some other →
        other.effectiveTemplate = recorded.effectiveTemplate

/-- The template has its texts, and its count is a number. -/
def Importable (source : Template) : Prop := (Store.texts source).isSome ∧ source.count ≠ some none

/-- No import fails once it has recorded a new template, and every accepted change or rollback
is one that may be done. -/
def Permitted (s : Store) : Call → Prop
  | .importTemplates templates _ => ∀ before source after, templates = before ++ source :: after →
      (∀ x ∈ before, Importable x) → ¬ Importable source →
      ∀ x ∈ before, ∀ t, Store.texts x = some t → s.items.get? t.1 ≠ none
  | .change hash payload _ => ∀ current action, s.items.get? hash = some current →
      payload.confirmed = true → payload.expectedVersion = current.version →
      payload.action = some action → MayChange s hash current action
  | .rollback hash target expected confirmed _ _ => ∀ current recorded,
      s.items.get? hash = some current → confirmed = true → current.version = expected →
      s.recorded hash target = some recorded → MayRestore s hash current recorded

/-! ## What the calls keep -/

structure Inv (s : Store) : Prop where
  linked : ∀ hash item, s.items.get? hash = some item →
    (item.status = .merged ↔ item.mergedInto ≠ none)
  texts : ∀ hash item target, s.items.get? hash = some item → item.mergedInto = some target →
    ∃ other, s.items.get? target = some other ∧ other.effectiveTemplate = item.effectiveTemplate
  acyclic : Acyclic s.link
  recorded : ∀ e ∈ s.events, (e.after.status = .merged ↔ e.after.mergedInto ≠ none) ∧
    (∀ target, e.after.mergedInto = some target → s.items.get? target ≠ none) ∧
    ∃ item, s.items.get? e.templateHash = some item ∧ e.after.version ≤ item.version
  distinct : s.events.Pairwise fun e e' =>
    e.templateHash = e'.templateHash → e.after.version ≠ e'.after.version

variable {s s' : Store} {hash : String} {current item : Item}

theorem get?_setItem (s : Store) (hash : String) (item : Item) (hash' : String) :
    (s.setItem hash item).items.get? hash' =
      if hash = hash' then some item else s.items.get? hash' := Dict.get?_set ..

theorem get?_setItem_ne_none {hash' : String} (h : s.items.get? hash' ≠ none) :
    (s.setItem hash item).items.get? hash' ≠ none := by
  rw [get?_setItem]
  split
  · exact Option.some_ne_none _
  · exact h

theorem link_setItem (s : Store) (hash : String) (item : Item) :
    (s.setItem hash item).link hash = item.mergedInto := by
  unfold Store.link
  rw [get?_setItem, if_pos rfl]
  rfl

theorem link_setItem_of_ne {hash' : String} (h : hash' ≠ hash) :
    (s.setItem hash item).link hash' = s.link hash' := by
  unfold Store.link
  rw [get?_setItem, if_neg (Ne.symm h)]

theorem link_eq_some {hash target : String} :
    s.link hash = some target ↔ ∃ item, s.items.get? hash = some item ∧
      item.mergedInto = some target :=
  Option.bind_eq_some_iff

/-- What a template must be for the catalogue to hold it in the place of the old one. -/
structure Fits (s : Store) (hash : String) (item : Item) : Prop where
  linked : item.status = .merged ↔ item.mergedInto ≠ none
  target : ∀ target, item.mergedInto = some target → ¬ Leads s.link target hash ∧
    ∃ other, s.items.get? target = some other ∧ other.effectiveTemplate = item.effectiveTemplate
  /-- Nothing is merged into a template that is not there. -/
  kept : ∀ current, s.items.get? hash = some current → KeepsText s hash current item.effectiveTemplate

/-- The merges after a template was put in its place. -/
theorem Inv.fits (h : Inv s) (hfits : Fits s hash item) :
    (∀ hash' item', (s.setItem hash item).items.get? hash' = some item' →
      (item'.status = .merged ↔ item'.mergedInto ≠ none)) ∧
    (∀ hash' item' target, (s.setItem hash item).items.get? hash' = some item' →
      item'.mergedInto = some target → ∃ other, (s.setItem hash item).items.get? target = some other ∧
        other.effectiveTemplate = item'.effectiveTemplate) ∧
    Acyclic (s.setItem hash item).link := by
  refine ⟨fun hash' item' hitem' => ?_, fun hash' item' target hitem' htarget => ?_, ?_⟩
  · rw [get?_setItem] at hitem'
    split at hitem'
    · obtain rfl := Option.some.inj hitem'
      exact hfits.linked
    · exact h.linked hash' item' hitem'
  · rw [get?_setItem] at hitem'
    rw [get?_setItem]
    split at hitem'
    · rename_i hself
      subst hself
      obtain rfl := Option.some.inj hitem'
      obtain ⟨hnot, other, hother, htext⟩ := hfits.target target htarget
      have hne : hash ≠ target := by
        rintro rfl
        exact hnot .refl
      exact ⟨other, (if_neg hne).trans hother, htext⟩
    · obtain ⟨other, hother, htext⟩ := h.texts hash' item' target hitem' htarget
      split
      · rename_i hself
        subst hself
        refine ⟨item, rfl, ?_⟩
        rcases hfits.kept other hother with hsame | hnone
        · exact hsame.trans htext
        · exact absurd (link_eq_some.mpr ⟨item', hitem', htarget⟩) (hnone hash')
      · exact ⟨other, hother, htext⟩
  · refine h.acyclic.update (fun x hx => link_setItem_of_ne hx) fun target htarget => ?_
    rw [link_setItem] at htarget
    exact (hfits.target target htarget).1

/-- A template that is imported again. -/
theorem Inv.refresh (h : Inv s) (hitem : s.items.get? hash = some current) (source : Template)
    (count : ℤ) (now : String) : Inv (s.setItem hash (current.refresh source count now)) := by
  have hfits : Fits s hash (current.refresh source count now) := by
    refine ⟨h.linked hash current hitem, fun target htarget => ⟨?_, ?_⟩, fun old hold => .inl ?_⟩
    · exact h.acyclic hash target (link_eq_some.mpr ⟨current, hitem, htarget⟩)
    · exact h.texts hash current target hitem htarget
    · rw [Option.some.inj (hitem.symm.trans hold)]
      rfl
  obtain ⟨hlinked, htexts, hacyclic⟩ := h.fits hfits
  refine ⟨hlinked, htexts, hacyclic, fun e he => ?_, h.distinct⟩
  obtain ⟨hmerged, htargets, old, hold, hversion⟩ := h.recorded e he
  refine ⟨hmerged, fun target htarget => get?_setItem_ne_none (htargets target htarget), ?_⟩
  rw [get?_setItem]
  split
  · rename_i hself
    subst hself
    refine ⟨_, rfl, ?_⟩
    obtain rfl := Option.some.inj (hitem.symm.trans hold)
    exact hversion
  · exact ⟨old, hold, hversion⟩

/-- A new version of a template with its event. -/
theorem Inv.advance (h : Inv s) (hfits : Fits s hash item)
    (hversion : ∀ old, s.items.get? hash = some old → old.version < item.version)
    (action : EventKind) (operator : String) (before : Option Item) :
    Inv ((s.setItem hash item).record hash action operator before item) := by
  obtain ⟨hlinked, htexts, hacyclic⟩ := h.fits hfits
  refine ⟨hlinked, htexts, hacyclic, fun e he => ?_, List.pairwise_append.mpr
    ⟨h.distinct, List.pairwise_singleton _ _, fun e he e' he' hsame => ?_⟩⟩
  · change _ ∧ (∀ target, _ → (s.setItem hash item).items.get? target ≠ none) ∧
      ∃ item', (s.setItem hash item).items.get? e.templateHash = some item' ∧ _
    rcases List.mem_append.mp he with he | he
    · obtain ⟨hmerged, htargets, old, hold, hle⟩ := h.recorded e he
      refine ⟨hmerged, fun target htarget => get?_setItem_ne_none (htargets target htarget), ?_⟩
      rw [get?_setItem]
      split
      · rename_i hself
        subst hself
        exact ⟨item, rfl, hle.trans (hversion old hold).le⟩
      · exact ⟨old, hold, hle⟩
    · obtain rfl := List.mem_singleton.mp he
      refine ⟨hfits.linked, fun target htarget => ?_, item, ?_, le_rfl⟩
      · obtain ⟨_, other, hother, _⟩ := hfits.target target htarget
        refine get?_setItem_ne_none ?_
        rw [hother]
        exact Option.some_ne_none _
      · rw [get?_setItem, if_pos rfl]
  · obtain rfl := List.mem_singleton.mp he'
    obtain ⟨_, _, old, hold, hle⟩ := h.recorded e he
    exact (hle.trans_lt (hversion old ((show e.templateHash = hash from hsame) ▸ hold))).ne

/-! ## Imports -/

theorem countOf_ok {source : Template} {n count : ℤ} (h : Store.countOf source n = .ok count) :
    source.count ≠ some none := by
  intro hcount
  unfold Store.countOf at h
  rw [hcount] at h
  cases h

/-- A template that is imported was there before, or is new. -/
theorem importTemplate_ok {now : String} {source : Template}
    (h : s.importTemplate now source = .ok s') :
    Importable source ∧ ∃ hash template count, Store.texts source = some (hash, template) ∧
      ((∃ current, s.items.get? hash = some current ∧
          s' = s.setItem hash (current.refresh source count now)) ∨
        (s.items.get? hash = none ∧
          s' = (s.setItem hash (.imported hash template source count now)).record hash .imported
            "system" none (.imported hash template source count now))) := by
  unfold Store.importTemplate at h
  split at h
  · cases h
  · rename_i hash template htexts
    have himportable : ∀ {n count}, Store.countOf source n = .ok count → Importable source :=
      fun hcount => ⟨by rw [htexts]; rfl, countOf_ok hcount⟩
    split at h
    · rename_i current hcurrent
      obtain ⟨count, hcount, h⟩ := bind_eq_ok.mp h
      exact ⟨himportable hcount, hash, template, count, htexts,
        .inl ⟨current, hcurrent, (pure_eq_ok.mp h).symm⟩⟩
    · rename_i hnew
      obtain ⟨count, hcount, h⟩ := bind_eq_ok.mp h
      exact ⟨himportable hcount, hash, template, count, htexts, .inr ⟨hnew, (pure_eq_ok.mp h).symm⟩⟩

theorem importTemplate_error {now : String} {source : Template} {e : Exn}
    (h : s.importTemplate now source = .error e) : ¬ Importable source := by
  rintro ⟨htexts, hcount⟩
  have hok : ∀ n, ∃ count, Store.countOf source n = .ok count := by
    intro n
    unfold Store.countOf
    split
    · exact ⟨n, rfl⟩
    · rename_i hbad
      exact absurd hbad hcount
    · exact ⟨_, rfl⟩
  unfold Store.importTemplate at h
  split at h
  · rename_i hnone
    rw [hnone] at htexts
    cases htexts
  · split at h
    · rename_i current _
      obtain ⟨count, hcount⟩ := hok current.count
      rw [hcount] at h
      cases h
    · obtain ⟨count, hcount⟩ := hok 0
      rw [hcount] at h
      cases h

theorem Inv.importTemplate (h : Inv s) {now : String} {source : Template}
    (hok : s.importTemplate now source = .ok s') : Inv s' := by
  obtain ⟨_, hash, template, count, _, ⟨current, hcurrent, rfl⟩ | ⟨hnew, rfl⟩⟩ := importTemplate_ok hok
  · exact h.refresh hcurrent source count now
  · refine h.advance ⟨?_, fun target htarget => ?_, fun old hold => ?_⟩ (fun old hold => ?_) _ _ _
    · exact iff_of_false (fun hstatus => by cases hstatus) fun hlink => hlink rfl
    · cases htarget
    · rw [hnew] at hold
      cases hold
    · rw [hnew] at hold
      cases hold

theorem Inv.importEach {now : String} {templates : List Template} (h : Inv s) :
    Inv (Store.importEach now s templates).1 := by
  induction templates generalizing s with
  | nil => exact h
  | cons source rest ih =>
      unfold Store.importEach
      split
      · exact h
      · rename_i s' hok
        exact ih (h.importTemplate hok)

/-- Where an import fails, some template is not importable and all before it are. -/
theorem importEach_failed {now : String} {templates : List Template} {e : Exn}
    (h : (Store.importEach now s templates).2 = some e) :
    ∃ before source after, templates = before ++ source :: after ∧
      (∀ x ∈ before, Importable x) ∧ ¬ Importable source := by
  induction templates generalizing s with
  | nil => cases h
  | cons source rest ih =>
      unfold Store.importEach at h
      split at h
      · rename_i hbad
        exact ⟨[], source, rest, rfl, fun _ hx => absurd hx List.not_mem_nil,
          importTemplate_error hbad⟩
      · rename_i s' hok
        obtain ⟨before, bad, after, rfl, hbefore, hbad⟩ := ih h
        refine ⟨source :: before, bad, after, rfl, fun x hx => ?_, hbad⟩
        rcases List.mem_cons.mp hx with rfl | hx
        · exact (importTemplate_ok hok).1
        · exact hbefore x hx

/-- An import that fails and was permitted has recorded nothing. -/
theorem importEach_events {now : String} {templates : List Template} {e : Exn}
    (hpermitted : Permitted s (.importTemplates templates now))
    (h : (Store.importEach now s templates).2 = some e) :
    (Store.importEach now s templates).1.events = s.events := by
  induction templates generalizing s with
  | nil => rfl
  | cons source rest ih =>
      unfold Store.importEach at h ⊢
      split at h
      · rfl
      · rename_i s' hok
        obtain ⟨himportable, hash, template, count, htexts, hcases⟩ := importTemplate_ok hok
        have himportables : ∀ {before : List Template}, (∀ x ∈ before, Importable x) →
            ∀ x ∈ source :: before, Importable x := by
          intro before hbefore x hx
          rcases List.mem_cons.mp hx with rfl | hx
          · exact himportable
          · exact hbefore x hx
        obtain ⟨before, bad, after, rfl, hbefore, hbad⟩ := importEach_failed h
        have hknown := hpermitted (source :: before) bad after rfl (himportables hbefore) hbad source
          List.mem_cons_self _ htexts
        obtain ⟨current, _, rfl⟩ := hcases.resolve_right fun hnew => hknown hnew.1
        refine ih (fun before' bad' after' hsplit hbefore' hbad' x hx t ht => ?_) h
        refine get?_setItem_ne_none ?_
        exact hpermitted (source :: before') bad' after' (by rw [hsplit]; rfl)
          (himportables hbefore') hbad' x (List.mem_cons_of_mem _ hx) t ht

theorem Inv.importTemplates {templates : List Template} {now : String} (h : Inv s)
    (hpermitted : Permitted s (.importTemplates templates now)) :
    Inv (s.importTemplates templates now).2 := by
  have hinv : Inv (Store.importEach now s templates).1 := h.importEach
  have hevents : ∀ e, (Store.importEach now s templates).2 = some e →
      (Store.importEach now s templates).1.events = s.events :=
    fun _ => importEach_events hpermitted
  unfold Store.importTemplates
  split
  · rename_i s' hall
    rw [hall] at hinv
    exact hinv
  · rename_i s' e hfailed
    rw [hfailed] at hevents
    rw [show s'.events = s.events from hevents e rfl]
    exact h

/-! ## Changes and rollbacks -/

theorem change_ok {payload : Payload} {now : String} {r : Item × Store}
    (h : s.change hash payload now = .ok r) : ∃ current action item,
      s.items.get? hash = some current ∧ payload.confirmed = true ∧
        payload.expectedVersion = current.version ∧ payload.action = some action ∧
        s.changed hash current action = .ok item ∧
        r = s.advance hash action.kind payload.operator current item now := by
  unfold Store.change at h
  split at h
  · cases h
  rename_i hconfirmed
  split at h
  · cases h
  rename_i action haction
  split at h
  · cases h
  rename_i current hcurrent
  split at h
  · cases h
  rename_i hversion
  obtain ⟨item, hitem, h⟩ := bind_eq_ok.mp h
  exact ⟨current, action, item, hcurrent, not_not.mp hconfirmed, not_not.mp hversion, haction, hitem,
    (pure_eq_ok.mp h).symm⟩

theorem rollback_ok {target expected : ℤ} {confirmed : Bool} {operator now : String}
    {r : Item × Store} (h : s.rollback hash target expected confirmed operator now = .ok r) :
    ∃ current item, s.items.get? hash = some current ∧ confirmed = true ∧
      current.version = expected ∧ s.recorded hash target = some item ∧
      r = s.advance hash .rollback operator current item now := by
  unfold Store.rollback at h
  split at h
  · cases h
  rename_i hconfirmed
  split at h
  · cases h
  rename_i current hcurrent
  split at h
  · cases h
  rename_i hversion
  split at h
  · cases h
  rename_i item hrecorded
  exact ⟨current, item, hcurrent, not_not.mp hconfirmed, not_not.mp hversion, hrecorded,
    (pure_eq_ok.mp h).symm⟩

/-- What a permitted change makes of a template fits. -/
theorem fits_changed {action : Change} (h : Inv s) (hcurrent : s.items.get? hash = some current)
    (hmay : MayChange s hash current action) (hok : s.changed hash current action = .ok item) :
    Fits s hash item := by
  have hkept : ∀ {text : String}, KeepsText s hash current text →
      ∀ old, s.items.get? hash = some old → KeepsText s hash old text := by
    intro text htext old hold
    rwa [← Option.some.inj (hcurrent.symm.trans hold)]
  have hlinked := h.linked hash current hcurrent
  have hplain : current.status ≠ .merged → current.mergedInto = none := fun hnot =>
    not_not.mp fun hlink => hnot (hlinked.mpr hlink)
  cases action with
  | edit template =>
      unfold Store.changed at hok
      cases template with
      | none => cases hok
      | some template =>
          change (if (Text.strip template).isEmpty = true then _ else _) = _ at hok
          split at hok
          · cases hok
          obtain rfl := pure_eq_ok.mp hok
          have hnone := hplain hmay.1
          refine ⟨iff_of_false (fun hstatus => by cases hstatus) fun hlink => hlink hnone,
            fun target htarget => ?_, hkept (hmay.2 template rfl)⟩
          rw [show current.mergedInto = some target from htarget] at hnone
          cases hnone
  | ignore =>
      obtain rfl := pure_eq_ok.mp hok
      have hnone := hplain hmay
      refine ⟨iff_of_false (fun hstatus => by cases hstatus) fun hlink => hlink hnone,
        fun target htarget => ?_, hkept (.inl rfl)⟩
      rw [show current.mergedInto = some target from htarget] at hnone
      cases hnone
  | delete =>
      obtain rfl := pure_eq_ok.mp hok
      have hnone := hplain hmay
      refine ⟨iff_of_false (fun hstatus => by cases hstatus) fun hlink => hlink hnone,
        fun target htarget => ?_, hkept (.inl rfl)⟩
      rw [show current.mergedInto = some target from htarget] at hnone
      cases hnone
  | restore =>
      obtain rfl := pure_eq_ok.mp hok
      exact ⟨iff_of_false (fun hstatus => by cases hstatus) fun hlink => hlink rfl,
        fun target htarget => (by cases htarget), hkept hmay⟩
  | merge target =>
      unfold Store.changed at hok
      cases target with
      | none => cases hok
      | some target =>
          change (if target = hash then _ else _) = _ at hok
          split at hok
          · cases hok
          split at hok
          · cases hok
          rename_i other hother
          obtain rfl := pure_eq_ok.mp hok
          obtain ⟨hnot, htext⟩ := hmay target other rfl hother
          refine ⟨iff_of_true rfl (Option.some_ne_none _), fun target' htarget' => ?_, hkept htext⟩
          obtain rfl := Option.some.inj htarget'
          exact ⟨hnot, other, hother, rfl⟩

theorem recorded_mem {target : ℤ} (h : s.recorded hash target = some item) :
    ∃ e ∈ s.events, e.templateHash = hash ∧ e.after = item ∧ item.version = target := by
  obtain ⟨e, he, rfl⟩ := Option.map_eq_some_iff.mp h
  obtain ⟨hmem, hhash⟩ := List.mem_filter.mp (List.mem_of_find?_eq_some he)
  have hversion := List.find?_some he
  exact ⟨e, hmem, of_decide_eq_true hhash, rfl, of_decide_eq_true hversion⟩

theorem fits_recorded {target : ℤ} (h : Inv s) (hcurrent : s.items.get? hash = some current)
    (hrecorded : s.recorded hash target = some item) (hmay : MayRestore s hash current item) :
    Fits s hash item := by
  obtain ⟨e, he, _, rfl, _⟩ := recorded_mem hrecorded
  obtain ⟨hlinked, htargets, _⟩ := h.recorded e he
  refine ⟨hlinked, fun target htarget => ?_, fun old hold => ?_⟩
  · obtain ⟨hnot, htext⟩ := hmay.2 target htarget
    obtain ⟨other, hother⟩ := Option.ne_none_iff_exists'.mp (htargets target htarget)
    exact ⟨hnot, other, hother, htext other hother⟩
  · rw [← Option.some.inj (hcurrent.symm.trans hold)]
    exact hmay.1

theorem Inv.next (h : Inv s) (hcurrent : s.items.get? hash = some current)
    (hfits : Fits s hash item) (action : EventKind) (operator now : String) :
    Inv (s.advance hash action operator current item now).2 := by
  have hnext : Fits s hash { item with version := current.version + 1, updatedAt := now } :=
    ⟨hfits.linked, hfits.target, hfits.kept⟩
  refine h.advance hnext (fun old hold => ?_) action operator (some current)
  rw [Option.some.inj (hcurrent.symm.trans hold)]
  exact Int.lt_succ old.version

theorem Inv.step {call : Call} (h : Inv s) (hpermitted : Permitted s call) : Inv (s.step call) := by
  cases call with
  | importTemplates templates now => exact h.importTemplates hpermitted
  | change hash payload now =>
      unfold Store.step
      dsimp only
      split
      · rename_i r hok
        obtain ⟨current, action, item, hcurrent, hconfirmed, hversion, haction, hitem, rfl⟩ :=
          change_ok hok
        have hmay := hpermitted current action hcurrent hconfirmed hversion haction
        exact h.next hcurrent (fits_changed h hcurrent hmay hitem) _ _ _
      · exact h
  | rollback hash target expected confirmed operator now =>
      unfold Store.step
      dsimp only
      split
      · rename_i r hok
        obtain ⟨current, item, hcurrent, hconfirmed, hversion, hrecorded, rfl⟩ := rollback_ok hok
        have hmay := hpermitted current item hcurrent hconfirmed hversion hrecorded
        exact h.next hcurrent (fits_recorded h hcurrent hrecorded hmay) _ _ _
      · exact h

/-! ## Runs -/

/-- The stores that calls lead to from the empty one. -/
abbrev Reachable (permits : Store → Call → Prop) : Type :=
  { s : Store // Relation.ReflTransGen (fun s s' => ∃ call, permits s call ∧ s' = s.step call) {} s }

theorem empty_inv : Inv {} where
  linked _ _ h := by cases h
  texts _ _ _ h := by cases h
  acyclic _ _ h := by cases h
  recorded _ h := absurd h List.not_mem_nil
  distinct := .nil

theorem reachable_inv (s : Reachable Permitted) : Inv s.val := by
  obtain ⟨s, hs⟩ := s
  induction hs with
  | refl => exact empty_inv
  | tail _ hstep ih =>
      obtain ⟨call, hpermitted, rfl⟩ := hstep
      exact ih.step hpermitted

theorem Inv.resolved (h : Inv s) : Resolved s where
  acyclic := h.acyclic
  unlinked hash item hitem hnot :=
    not_not.mp fun hlink => hnot ((h.linked hash item hitem).mpr hlink)
  ends hash item hitem _ := by
    have hkeys : ∀ x y, s.link x = some y → x ∈ s.items.keys.toFinset := by
      intro x y hxy
      obtain ⟨found, hfound, _⟩ := link_eq_some.mp hxy
      exact List.mem_toFinset.mpr (Dict.mem_keys_of_get? hfound)
    obtain ⟨last, hlast, hend⟩ := h.acyclic.exists_end s.items.keys.toFinset hkeys hash
    -- every link leads to a template with the same text
    obtain ⟨target, htarget, htext⟩ := Leads.carries
      (P := fun x => ∃ found, s.items.get? x = some found ∧
        found.effectiveTemplate = item.effectiveTemplate) hlast (by
        rintro x y hxy ⟨found, hfound, htext⟩
        obtain ⟨found', hfound', hlink⟩ := link_eq_some.mp hxy
        obtain rfl := Option.some.inj (hfound.symm.trans hfound')
        obtain ⟨other, hother, hsame⟩ := h.texts x found y hfound hlink
        exact ⟨other, hother, hsame.trans htext⟩) ⟨item, hitem, rfl⟩
    have hnone : target.mergedInto = none := by
      unfold Store.link at hend
      rw [htarget] at hend
      exact hend
    exact ⟨last, target, hlast, htarget, fun hstatus =>
      (h.linked last target htarget).mp hstatus hnone, hnone, htext⟩

theorem Inv.restores (h : Inv s) : RestoresRecorded s := by
  intro hash target expected confirmed operator now item s' hok
  obtain ⟨current, recorded, _, _, _, hrecorded, hr⟩ := rollback_ok hok
  obtain ⟨rfl, rfl⟩ := Prod.mk.inj hr
  refine ⟨?_, fun e he hhash hversion => ?_⟩
  · change (s.setItem hash _).items.get? hash = _
    rw [get?_setItem, if_pos rfl]
  · obtain ⟨e', he', hhash', rfl, hversion'⟩ := recorded_mem hrecorded
    have hsame : e' = e := by
      by_contra hne
      have : Std.Symm fun e e' : Event =>
          e.templateHash = e'.templateHash → e.after.version ≠ e'.after.version :=
        ⟨fun _ _ hother hsame heq => hother hsame.symm heq.symm⟩
      have hdistinct := h.distinct.forall he' he hne
      exact hdistinct (hhash'.trans hhash.symm) (hversion'.trans hversion.symm)
    rw [hsame]

/-- Where no call disturbs the merges, they resolve in every store of a run, and what a rollback
restores is what was recorded. -/
theorem merges_resolve (s : Reachable Permitted) : Resolved s.val ∧ RestoresRecorded s.val :=
  ⟨(reachable_inv s).resolved, (reachable_inv s).restores⟩

/-! ## Two templates merged into each other -/

namespace Circle

def template (hash : String) : Template := { templateHash := some hash, template := some "t" }

def merge (target : String) (version : ℤ) : Payload :=
  { confirmed := true, action := some (.merge (some target)), expectedVersion := version }

def store : Store :=
  [Call.importTemplates [template "a", template "b"] "", .change "a" (merge "b" 1) "",
    .change "b" (merge "a" 1) ""].foldl Store.step {}

theorem link_a : store.link "a" = some "b" := by decide +kernel

theorem link_b : store.link "b" = some "a" := by decide +kernel

end Circle

theorem run_calls (s : Store) (calls : List Call) : Relation.ReflTransGen
    (fun s s' => ∃ call, True ∧ s' = s.step call) s (calls.foldl Store.step s) := by
  induction calls generalizing s with
  | nil => exact .refl
  | cons call calls ih => exact .head ⟨call, trivial, rfl⟩ (ih (s.step call))

theorem merged_circle : ¬ ∀ s : Reachable fun _ _ => True, Resolved s.val ∧ RestoresRecorded s.val := by
  intro h
  have hresolved := (h ⟨Circle.store, run_calls _ _⟩).1
  exact hresolved.acyclic "a" "b" Circle.link_a (.single Circle.link_b)

end LogRisk.DrainEval
