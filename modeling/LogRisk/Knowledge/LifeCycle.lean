import LogRisk.Knowledge.Assets
import LogRisk.Library.Transaction

/-!
# The life cycle of knowledge assets

A disabled asset is materialized, fails or is retired, and is never disabled again.  What
it was materialized into stays recorded, and neither a failed nor a retired asset is ever
materialized.  A call that fails writes its failure over whatever it finds: a materialized
asset keeps its status where no call on it is still under way.
-/

namespace LogRisk.Knowledge

open LogRisk.Library LogRisk.Library.Transaction

/-- What a later reading of an asset shows. -/
structure Later (row row' : AssetRow) : Prop where
  target : row.status ≠ .disabled → row'.target = row.target
  settled : row.status ≠ .disabled → row'.status ≠ .disabled
  notNew : row.status ≠ .disabled → row'.status = .materialized → row.status = .materialized

namespace Later

variable {row row' row'' : AssetRow}

theorem refl (row : AssetRow) : Later row row := ⟨fun _ => rfl, id, fun _ => id⟩

theorem trans (h : Later row row') (h' : Later row' row'') : Later row row'' where
  target hrow := (h'.target (h.settled hrow)).trans (h.target hrow)
  settled hrow := h'.settled (h.settled hrow)
  notNew hrow hlater := h.notNew hrow (h'.notNew (h.settled hrow) hlater)

theorem of_disabled (h : row.status = .disabled) : Later row row' :=
  ⟨fun hrow => absurd h hrow, fun hrow => absurd h hrow, fun hrow => absurd h hrow⟩

theorem fail (errorCode errorMessage : String) : Later row (row.fail errorCode errorMessage) where
  target _ := rfl
  settled _ := by
    change AssetStatus.failed ≠ .disabled
    decide
  notNew _ h := by cases h

theorem retire : Later row row.retire := by
  unfold AssetRow.retire
  split
  · rename_i hdisabled
    exact .of_disabled hdisabled
  · exact .refl row

end Later

/-! ## Transactions -/

structure Inv (db : Db) : Prop where
  known : ∀ k row, db.assets k = some row → (db.versions k.version).isSome
  retired : ∀ k version row, db.versions k.version = some version → version.status = .retired →
    db.assets k = some row → row.status ≠ .disabled

/-- The action writes a failure over the asset. -/
def Action.Fails (k : AssetKey) : Action → Prop
  | .markAssetFailed k' _ _ => k' = k
  | _ => False

/-- What comes of the rows of a database, those of the `spared` assets being written by no failure. -/
structure Follows (spared : AssetKey → Prop) (db db' : Db) : Prop where
  versions : ∀ v, (db.versions v).isSome → (db'.versions v).isSome
  assets : ∀ k row, db.assets k = some row → ∃ row', db'.assets k = some row' ∧ Later row row' ∧
    (spared k → row.status = .materialized → row' = row)
  /-- No asset is added to a version. -/
  absent : ∀ k, (db.versions k.version).isSome → db.assets k = none → db'.assets k = none

variable {spared spared' : AssetKey → Prop} {db db' db'' : Db}

theorem Follows.refl (db : Db) : Follows spared db db :=
  ⟨fun _ => id, fun _ row h => ⟨row, h, .refl row, fun _ _ => rfl⟩, fun _ _ => id⟩

theorem Follows.trans (h : Follows spared db db') (h' : Follows spared db' db'') :
    Follows spared db db'' where
  versions v hv := h'.versions v (h.versions v hv)
  assets k row hrow := by
    obtain ⟨row', hrow', hlater, hsame⟩ := h.assets k row hrow
    obtain ⟨row'', hrow'', hlater', hsame'⟩ := h'.assets k row' hrow'
    refine ⟨row'', hrow'', hlater.trans hlater', fun hk hrow => ?_⟩
    have hrow' : row' = row := hsame hk hrow
    exact (hsame' hk (hrow' ▸ hrow)).trans hrow'
  absent k hv hk := h'.absent k (h.versions _ hv) (h.absent k hv hk)

/-- What a transaction does to a database that satisfies the invariant. -/
def Keeps (spared : AssetKey → Prop) (db db' : Db) : Prop :=
  Inv db → Inv db' ∧ Follows spared db db'

theorem Keeps.refl (db : Db) : Keeps spared db db := fun h => ⟨h, .refl db⟩

theorem Keeps.of_eq (h : db' = db) : Keeps spared db db' := by
  rw [h]
  exact .refl db

theorem Keeps.trans (h : Keeps spared db db') (h' : Keeps spared db' db'') :
    Keeps spared db db'' := by
  intro hinv
  obtain ⟨hinv', hfollows⟩ := h hinv
  obtain ⟨hinv'', hfollows'⟩ := h' hinv'
  exact ⟨hinv'', hfollows.trans hfollows'⟩

theorem Keeps.mono (h : Keeps spared db db') (hspared : ∀ k, spared' k → spared k) :
    Keeps spared' db db' := by
  intro hinv
  obtain ⟨hinv', hfollows⟩ := h hinv
  refine ⟨hinv', hfollows.versions, fun k row hrow => ?_, hfollows.absent⟩
  obtain ⟨row', hrow', hlater, hsame⟩ := hfollows.assets k row hrow
  exact ⟨row', hrow', hlater, fun hk => hsame (hspared k hk)⟩

section Updates

variable (db)

@[simp] theorem setAsset_versions (k : AssetKey) (row : AssetRow) :
    (db.setAsset k row).versions = db.versions := rfl

@[simp] theorem setAsset_self (k : AssetKey) (row : AssetRow) :
    (db.setAsset k row).assets k = some row := by
  unfold Db.setAsset
  exact Function.update_self ..

theorem setAsset_other {k k' : AssetKey} (row : AssetRow) (h : k' ≠ k) :
    (db.setAsset k row).assets k' = db.assets k' := by
  unfold Db.setAsset
  exact Function.update_of_ne h ..

@[simp] theorem setVersion_self (v : VersionKey) (row : VersionRow) :
    (db.setVersion v row).versions v = some row := by
  unfold Db.setVersion
  exact Function.update_self ..

theorem setVersion_other {v v' : VersionKey} (row : VersionRow) (h : v' ≠ v) :
    (db.setVersion v row).versions v' = db.versions v' := by
  unfold Db.setVersion
  exact Function.update_of_ne h ..

end Updates

theorem setVersion_isSome {v v' : VersionKey} {row : VersionRow} (h : (db.versions v').isSome) :
    ((db.setVersion v row).versions v').isSome := by
  by_cases hv : v' = v
  · rw [hv, setVersion_self]
    rfl
  · rw [setVersion_other db row hv]
    exact h

theorem keeps_setAsset {k : AssetKey} {row row' : AssetRow} (hrow : db.assets k = some row)
    (hlater : Later row row') (hnot : row'.status ≠ .disabled)
    (hsame : spared k → row.status = .materialized → row' = row) :
    Keeps spared db (db.setAsset k row') := by
  intro hinv
  refine ⟨⟨fun k' x hx => ?_, fun k' version x hv hretired hx => ?_⟩,
    ⟨fun _ => id, fun k' x hx => ?_, fun k' hv hx => ?_⟩⟩
  · by_cases hk : k' = k
    · rw [hk]
      exact hinv.known k row hrow
    · rw [setAsset_other db row' hk] at hx
      exact hinv.known k' x hx
  · by_cases hk : k' = k
    · rw [hk, setAsset_self] at hx
      rw [← Option.some.inj hx]
      exact hnot
    · rw [setAsset_other db row' hk] at hx
      exact hinv.retired k' version x hv hretired hx
  · by_cases hk : k' = k
    · subst hk
      rw [← Option.some.inj (hrow.symm.trans hx)]
      exact ⟨row', setAsset_self db k' row', hlater, hsame⟩
    · exact ⟨x, (setAsset_other db row' hk).trans hx, .refl x, fun _ _ => rfl⟩
  · by_cases hk : k' = k
    · rw [hk, hrow] at hx
      cases hx
    · exact (setAsset_other db row' hk).trans hx

theorem materializeAsset_ok {k : AssetKey} {target : Target} {r : AssetRow × Db}
    (h : db.materializeAsset k target = .ok r) :
    r.2 = db ∨ ∃ row, db.assets k = some row ∧ row.status = .disabled ∧
      r.2 = db.setAsset k (row.materialize target) := by
  unfold Db.materializeAsset at h
  split at h
  · cases h
  · rename_i row hrow
    split at h
    · obtain rfl := pure_eq_ok.mp h
      exact .inl rfl
    · split at h
      · rename_i hdisabled
        obtain rfl := pure_eq_ok.mp h
        exact .inr ⟨row, hrow, hdisabled, rfl⟩
      · cases h

theorem keeps_materializeAsset {k : AssetKey} {target : Target} {r : AssetRow × Db}
    (h : db.materializeAsset k target = .ok r) : Keeps spared db r.2 := by
  rcases materializeAsset_ok h with hr | ⟨row, hrow, hdisabled, hr⟩
  · exact .of_eq hr
  · rw [hr]
    refine keeps_setAsset hrow (.of_disabled hdisabled) ?_ fun _ hrow => ?_
    · change AssetStatus.materialized ≠ .disabled
      decide
    · exact absurd (hdisabled.symm.trans hrow) (by decide)

theorem keeps_markAssetFailed {k : AssetKey} (errorCode errorMessage : String)
    (hk : ¬ spared k) : Keeps spared db (db.markAssetFailed k errorCode errorMessage) := by
  unfold Db.markAssetFailed
  split
  · exact .refl db
  · rename_i row hrow
    refine keeps_setAsset hrow (.fail errorCode errorMessage) ?_ fun h => absurd h hk
    change AssetStatus.failed ≠ .disabled
    decide

theorem retireVersion_ok {v : VersionKey} (h : db.retireVersion v = .ok db') :
    ∃ row, db' = (db.setVersion v row).retireAssets v := by
  unfold Db.retireVersion at h
  split at h
  · cases h
  · split at h
    · exact ⟨_, (pure_eq_ok.mp h).symm⟩
    · cases h

theorem AssetRow.retire_status (row : AssetRow) : row.retire.status ≠ .disabled := by
  unfold AssetRow.retire
  split
  · change AssetStatus.retired ≠ .disabled
    decide
  · assumption

theorem AssetRow.retire_materialized {row : AssetRow} (h : row.status = .materialized) :
    row.retire = row := by
  unfold AssetRow.retire
  rw [if_neg (by rw [h]; decide)]

/-- A row of the assets after a version was retired. -/
theorem retireAssets_some {v : VersionKey} {k : AssetKey} {row : AssetRow}
    (h : (db.retireAssets v).assets k = some row) :
    ∃ row₀, db.assets k = some row₀ ∧ row = if k.version = v then row₀.retire else row₀ := by
  obtain ⟨row₀, hrow₀, hrow⟩ := Option.map_eq_some_iff.mp h
  exact ⟨row₀, hrow₀, hrow.symm⟩

theorem keeps_retireVersion {v : VersionKey} (h : db.retireVersion v = .ok db') :
    Keeps spared db db' := by
  obtain ⟨version, rfl⟩ := retireVersion_ok h
  intro hinv
  refine ⟨⟨fun k x hx => ?_, fun k version' x hv hretired hx => ?_⟩,
    ⟨fun v' hv => setVersion_isSome hv, fun k x hx => ?_, fun k hv hx => ?_⟩⟩
  · obtain ⟨row, hrow, _⟩ := retireAssets_some hx
    exact setVersion_isSome (hinv.known k row hrow)
  · obtain ⟨row, hrow, hx⟩ := retireAssets_some hx
    rw [hx]
    split
    · exact row.retire_status
    · rename_i hother
      exact hinv.retired k version' row ((setVersion_other db _ hother).symm.trans hv) hretired hrow
  · refine ⟨if k.version = v then x.retire else x, congrArg (Option.map _) hx, ?_, fun _ hm => ?_⟩
    · split
      · exact .retire
      · exact .refl x
    · split
      · exact AssetRow.retire_materialized hm
      · rfl
  · exact congrArg (Option.map _) hx

theorem insertAsset_ok {v : VersionKey} {a : AssetManifest} (h : db.insertAsset v a = .ok db') :
    db.assets ⟨v, a.assetId⟩ = none ∧
      db' = db.setAsset ⟨v, a.assetId⟩ { assetType := a.type, assetPath := a.path } := by
  unfold Db.insertAsset at h
  split at h
  · cases h
  · rename_i habsent
    exact ⟨Option.not_isSome_iff_eq_none.mp habsent, (pure_eq_ok.mp h).symm⟩

/-- The tables while the assets of a new version are inserted. -/
structure Installing (spared : AssetKey → Prop) (db : Db) (v : VersionKey) (db' : Db) : Prop where
  inv : Inv db'
  follows : Follows spared db db'
  installed : ∃ row, db'.versions v = some row ∧ row.status = .installed

theorem Installing.setVersion {v : VersionKey} {version : VersionRow} (hinv : Inv db)
    (hinstalled : version.status = .installed) :
    Installing spared db v (db.setVersion v version) where
  inv := by
    refine ⟨fun k row hrow => setVersion_isSome (hinv.known k row hrow),
      fun k version' row hv hretired hrow => ?_⟩
    by_cases hk : k.version = v
    · rw [hk, setVersion_self] at hv
      rw [← Option.some.inj hv, hinstalled] at hretired
      cases hretired
    · exact hinv.retired k version' row ((setVersion_other db _ hk).symm.trans hv) hretired hrow
  follows := ⟨fun _ => setVersion_isSome, fun _ row h => ⟨row, h, .refl row, fun _ _ => rfl⟩,
    fun _ _ => id⟩
  installed := ⟨version, setVersion_self db v version, hinstalled⟩

theorem Installing.insertAsset {v : VersionKey} {a : AssetManifest} (hnew : db.versions v = none)
    (h : Installing spared db v db') (hinsert : db'.insertAsset v a = .ok db'') :
    Installing spared db v db'' := by
  obtain ⟨habsent, rfl⟩ := insertAsset_ok hinsert
  obtain ⟨version, hversion, hinstalled⟩ := h.installed
  refine ⟨⟨fun k row hrow => ?_, fun k version' row hv hretired hrow => ?_⟩,
    ⟨h.follows.versions, fun k row hrow => ?_, fun k hv hk => ?_⟩, version, hversion, hinstalled⟩
  · by_cases hk : k = ⟨v, a.assetId⟩
    · rw [hk, setAsset_versions, hversion]
      rfl
    · rw [setAsset_other db' _ hk] at hrow
      exact h.inv.known k row hrow
  · by_cases hk : k = ⟨v, a.assetId⟩
    · subst hk
      rw [← Option.some.inj (hversion.symm.trans hv), hinstalled] at hretired
      cases hretired
    · rw [setAsset_other db' _ hk] at hrow
      exact h.inv.retired k version' row hv hretired hrow
  · obtain ⟨row', hrow', hlater⟩ := h.follows.assets k row hrow
    have hk : k ≠ ⟨v, a.assetId⟩ := by
      rintro rfl
      rw [habsent] at hrow'
      cases hrow'
    exact ⟨row', (setAsset_other db' _ hk).trans hrow', hlater⟩
  · have hother : k ≠ ⟨v, a.assetId⟩ := by
      rintro rfl
      rw [hnew] at hv
      cases hv
    exact (setAsset_other db' _ hother).trans (h.follows.absent k hv hk)

theorem keeps_createInstallation {m : PackageManifest} (h : db.createInstallation m = .ok db') :
    Keeps spared db db' := by
  unfold Db.createInstallation at h
  split at h
  · split at h
    · cases h
    · exact .of_eq (pure_eq_ok.mp h).symm
  · rename_i hnew
    intro hinv
    have hfirst : Installing spared db m.key (db.setVersion m.key
        { packageSha256 := m.packageSha256, artifactPath := m.artifactPath }) :=
      .setVersion hinv rfl
    have hloop := @foldlM_invariant _ _ _ _ (fun _ db' => Installing spared db m.key db')
      (fun _ a s s' hs hstep => hs.insertAsset hnew hstep) [] m.assets _ _ hfirst h
    exact ⟨hloop.inv, hloop.follows⟩

/-! ## Runs -/

theorem commit_db {w w' : World} {t : Except Exn Db} {r : Except Exn Unit}
    (h : (r, w') = w.commit t) : w'.db = w.db ∨ t = .ok w'.db := by
  unfold World.commit at h
  split at h
  · exact .inr (by rw [(Prod.mk.inj h).2])
  · exact .inl (by rw [(Prod.mk.inj h).2])

theorem record_db {w w' : World} {t : Except Exn (AssetRow × Db)} {r : Except Exn AssetRow}
    (h : (r, w') = w.record t) : w'.db = w.db ∨ ∃ row, t = .ok (row, w'.db) := by
  unfold World.record at h
  split at h
  · exact .inr ⟨_, by rw [(Prod.mk.inj h).2]⟩
  · exact .inl (by rw [(Prod.mk.inj h).2])

theorem perform_keeps {a : Action} {w w' : World} {r : Except Exn a.Answer}
    (h : perform a w r w') : Keeps (fun k => ¬ a.Fails k) w.db w'.db := by
  cases a with
  | createInstallation m => exact (commit_db h).elim .of_eq keeps_createInstallation
  | getAsset k => exact .of_eq (congrArg World.db h.2)
  | getVersion v => exact .of_eq (congrArg World.db h.2)
  | readArtifact artifactPath assetPath => exact .of_eq (congrArg World.db h)
  | adapt k asset content =>
      have hw : w' = { w with invoked := w.invoked ++ [k] } := h
      exact .of_eq (by rw [hw])
  | materializeAsset k target =>
      rcases record_db h with hsame | ⟨row, hok⟩
      · exact .of_eq hsame
      · exact keeps_materializeAsset hok
  | markAssetFailed k errorCode errorMessage =>
      rcases commit_db h with hsame | hok
      · exact .of_eq hsame
      · rw [← Except.ok.inj hok]
        exact keeps_markAssetFailed errorCode errorMessage fun h => h rfl
  | retireVersion v => exact (commit_db h).elim .of_eq keeps_retireVersion

/-- What a run does, whatever it fails. -/
theorem run_keeps {c c' : Pool Caller Action Action.Answer Exn Unit World}
    (h : workers.Run c c') : Keeps (fun _ => False) c.state.db c'.state.db :=
  System.unrestricted_run (R := fun w w' => Keeps (fun _ => False) w.db w'.db)
    (fun w => .refl w.db) (fun _ _ _ => Keeps.trans)
    (fun _ _ _ _ _ h => (perform_keeps h).mono fun _ hk => hk.elim) h

theorem empty_inv : Inv noPackages.state.db where
  known _ _ h := by cases h
  retired _ _ _ h := by cases h

theorem reachable_inv (c : workers.Reachable noPackages) : Inv c.val.state.db :=
  (run_keeps c.property empty_inv).1

/-! ## Calls under way -/

theorem uses_attempt {only : Action → Prop} (hread : ∀ p q, only (.readArtifact p q))
    {k : AssetKey} (hadapt : ∀ asset content, only (.adapt k asset content))
    (hmaterialize : ∀ target, only (.materializeAsset k target)) (asset : AssetRow)
    (version : VersionRow) : (Service.attempt k asset version).Uses only := by
  unfold Service.attempt Service.ask
  refine Program.Uses.bind ((Program.uses_call _).mpr (hread _ _)) fun content => ?_
  refine Program.Uses.bind ((Program.uses_call _).mpr (hadapt _ _)) fun target => ?_
  exact (Program.uses_call _).mpr (hmaterialize target)

/-- Only a call on an asset writes a failure over it. -/
def OwnFailures (caller : Caller) (a : Action) : Prop :=
  ∀ k, a.Fails k → caller = .materialize k

theorem uses_entry (caller : Caller) : (entry caller).Uses (OwnFailures caller) := by
  cases caller with
  | install m => exact (Program.uses_call _).mpr fun _ h => h.elim
  | retire v => exact (Program.uses_call _).mpr fun _ h => h.elim
  | materialize k =>
      refine Program.Uses.bind ?_ fun _ => Program.uses_pure _
      unfold Service.materializeAsset
      refine Program.Uses.bind ((Program.uses_call _).mpr fun _ h => h.elim) fun asset => ?_
      split
      · exact Program.uses_throw _
      split
      · exact Program.uses_pure _
      refine Program.Uses.bind ((Program.uses_call _).mpr fun _ h => h.elim) fun version => ?_
      split
      · exact Program.uses_throw _
      refine Program.Uses.tryCatch (uses_attempt (fun _ _ _ h => h.elim) (fun _ _ _ h => h.elim)
        (fun _ _ h => h.elim) _ _) fun e => ?_
      refine Program.Uses.bind ?_ fun _ => Program.uses_throw _
      unfold Service.markAssetFailed
      split
      · exact Program.uses_throw _
      · exact (Program.uses_call _).mpr fun _ h => congrArg Caller.materialize h

/-- While the asset has this row, no action writes a failure over it. -/
def steadyContract (k : AssetKey) (row : AssetRow) :
    Contract Caller Action Action.Answer Exn Unit World where
  inv w := w.db.assets k = some row ∧ Inv w.db
  beside _ _ := True
  rely _ _ _ := True
  guar _ a _ _ _ := ¬ a.Fails k
  good _ _ _ := True
  bad _ _ _ := True

variable {k : AssetKey} {row : AssetRow}

theorem meets_of_uses {caller : Caller} {p : Exec Unit} (hp : p.Uses (OwnFailures caller))
    (hother : caller ≠ .materialize k) (w : World) :
    (steadyContract k row).Meets workers caller p w :=
  hp.upholds (fun _ _ _ _ => trivial)
    (fun _ _ _ _ ha _ _ => ⟨fun hfails => hother (ha k hfails), trivial⟩) trivial

theorem meets_entry (hrow : row.status = .materialized) (caller : Caller) (w : World) :
    (steadyContract k row).Meets workers caller (entry caller) w := by
  by_cases hcaller : caller = .materialize k
  · subst hcaller
    refine Program.Upholds.bind (fun _ => trivial) ?_
    unfold Service.materializeAsset
    refine Program.upholds_call_bind fun t _ r t' hr => ?_
    obtain ⟨⟨hasset, _⟩, hr, _⟩ := hr
    rw [hr, hasset]
    refine ⟨id, ?_⟩
    change Program.Upholds _ _ _ _ _ (if row.status = .materialized then _ else _) t'
    rw [if_pos hrow]
    exact Program.upholds_pure fun _ _ => Program.upholds_pure fun _ _ => trivial
  · exact meets_of_uses (uses_entry caller) hcaller w

theorem steadyContract_sound (hrow : row.status = .materialized) :
    (steadyContract k row).Sound workers where
  refl _ _ := trivial
  trans _ _ _ _ _ _ := trivial
  start caller _ w w' hinv h := by
    rw [show w' = w from h]
    exact ⟨hinv, fun _ _ => ⟨trivial, trivial, trivial⟩, meets_entry hrow caller w⟩
  act _ a w r w' hinv h hfails := by
    obtain ⟨hinv', hfollows⟩ := perform_keeps h hinv.2
    obtain ⟨row', hrow', _, hsame⟩ := hfollows.assets k row hinv.1
    exact ⟨⟨hsame hfails hrow ▸ hrow', hinv'⟩, fun _ _ => trivial⟩
  finish _ _ w _ w' hinv h _ := by
    rw [h.2]
    exact ⟨hinv, fun _ _ => trivial, fun _ hp => by rw [h.1] at hp; cases hp⟩
  die _ w w' hinv h := by
    rw [show w' = w from h]
    exact ⟨hinv, fun _ _ => trivial⟩

/-- A materialized asset on which no call is under way. -/
theorem run_steady (hrow : row.status = .materialized) (c : workers.Reachable noPackages)
    (hasset : c.val.state.db.assets k = some row)
    (hidle : ∀ x ∈ c.val.threads, x.1 ≠ .materialize k) (c' : workers.Reachable c.val) :
    c'.val.state.db.assets k = some row := by
  have huses := System.unrestricted_uses uses_entry c.property
    fun x hx => absurd hx List.not_mem_nil
  have hholds : (steadyContract k row).Holds workers c.val :=
    ⟨⟨hasset, reachable_inv c⟩, List.pairwise_of_forall fun _ _ => ⟨trivial, trivial⟩,
      fun x hx => meets_of_uses (huses x hx) (hidle x hx) _⟩
  exact (hholds.reachable (steadyContract_sound hrow) c').inv.1

/-! ## The life cycle -/

structure LifeCycle (c c' : Pool Caller Action Action.Answer Exn Unit World) : Prop where
  /-- What an asset was materialized into stays recorded. -/
  target : ∀ k row, c.state.db.assets k = some row → row.status = .materialized →
    ∃ row', c'.state.db.assets k = some row' ∧ row'.target = row.target
  /-- A materialized asset on which no call is under way does not change. -/
  steady : ∀ k row, c.state.db.assets k = some row → row.status = .materialized →
    (∀ x ∈ c.threads, x.1 ≠ .materialize k) → c'.state.db.assets k = some row
  /-- No asset of a retired version becomes materialized. -/
  retired : ∀ k version row', c.state.db.versions k.version = some version →
    version.status = .retired → c'.state.db.assets k = some row' → row'.status = .materialized →
    ∃ row, c.state.db.assets k = some row ∧ row.status = .materialized
  /-- A failed asset is never materialized. -/
  failed : ∀ k row row', c.state.db.assets k = some row → row.status = .failed →
    c'.state.db.assets k = some row' → row'.status ≠ .materialized

namespace Twice

def manifest : PackageManifest where
  key := ⟨"p", "1"⟩
  packageSha256 := ""
  artifactPath := ""
  assets := [⟨"a", "t", "f"⟩]

def asset : AssetKey := ⟨⟨"p", "1"⟩, "a"⟩

/-- The archive cannot be read once an adapter has been invoked. -/
def ask (_ : Caller) : (a : Action) → World → Except Exn a.Answer × World
  | .createInstallation m, w => w.commit (w.db.createInstallation m)
  | .getAsset k, w => (.ok (w.db.assets k), w)
  | .getVersion v, w => (.ok (w.db.versions v), w)
  | .readArtifact _ _, w => (if w.invoked.isEmpty then .ok [] else .error { message := "e" }, w)
  | .adapt k _ _, w => (.ok ⟨"t", "r", "1"⟩, { w with invoked := w.invoked ++ [k] })
  | .materializeAsset k target, w => w.record (w.db.materializeAsset k target)
  | .markAssetFailed k errorCode errorMessage, w =>
      w.commit (.ok (w.db.markAssetFailed k errorCode errorMessage))
  | .retireVersion v, w => w.commit (w.db.retireVersion v)

theorem asks (k : Caller) (a : Action) (w : World) : perform a w (ask k a w).1 (ask k a w).2 := by
  cases a with
  | getAsset k => exact ⟨rfl, rfl⟩
  | getVersion v => exact ⟨rfl, rfl⟩
  | _ => rfl

/-- Both calls have read the asset, and the first has materialized it. -/
def materializedPool : Pool Caller Action Action.Answer Exn Unit World :=
  [.inl (.install manifest), .inr 0, .inl (.materialize asset), .inl (.materialize asset),
    .inr 1, .inr 1, .inr 2, .inr 2, .inr 1, .inr 1, .inr 1].foldl (System.scene entry ask) noPackages

/-- The second call has failed. -/
def failedPool : Pool Caller Action Action.Answer Exn Unit World :=
  [.inr 2, .inr 2].foldl (System.scene entry ask) materializedPool

theorem materialized_asset : (materializedPool.state.db.assets asset).map (·.status) =
    some .materialized := by rfl

theorem failed_asset : (failedPool.state.db.assets asset).map (·.status) = some .failed := by rfl

end Twice

end LogRisk.Knowledge
