import LogRisk.Ledger.Run

/-!
# Roots are completed with their members

Along every run of calls a root is completed exactly when as many members as it
expects are registered and all of them are completed.
-/

namespace LogRisk.Ledger

open LogRisk.Library LogRisk.Library.Transaction

variable {env : LedgerEnv} {ledger ledger' : LedgerTables}

/-! ## The members of a root -/

theorem LedgerTables.mem_membersOf {rootId : String} {m : Member} :
    m ∈ ledger.membersOf rootId ↔
      ∃ id, ledger.members.get? id = some m ∧ m.analysisRunId = rootId := by
  rw [membersOf, List.mem_filter, Dict.mem_values]
  simp

/-- What holds of every member of a root after one member row is written. -/
theorem LedgerTables.forall_membersOf_set {memberId : String} {member : Member} {rootId : String}
    {P : Member → Prop} (hmembers : ledger'.members = ledger.members.set memberId member)
    (howner : member.analysisRunId = rootId) : (∀ m ∈ ledger'.membersOf rootId, P m) ↔
      P member ∧ ∀ id m, id ≠ memberId → ledger.members.get? id = some m →
        m.analysisRunId = rootId → P m := by
  constructor
  · intro h
    refine ⟨h member (mem_membersOf.mpr ⟨memberId, ?_, howner⟩), fun id m hid hm hroot => ?_⟩
    · rw [hmembers, Dict.get?_set_self]
    · refine h m (mem_membersOf.mpr ⟨id, ?_, hroot⟩)
      rw [hmembers, Dict.get?_set_of_ne (Ne.symm hid), hm]
  · rintro ⟨hmember, hothers⟩ m hm
    obtain ⟨id, hget, hroot⟩ := mem_membersOf.mp hm
    rw [hmembers, Dict.get?_set] at hget
    split at hget
    · cases hget
      exact hmember
    · rename_i hne
      exact hothers id m (Ne.symm hne) hget hroot

/-- A member row written in place leaves the number of members as it was. -/
theorem LedgerTables.length_membersOf_update {memberId : String} {member old : Member}
    (hmembers : ledger'.members = ledger.members.set memberId member)
    (hold : ledger.members.get? memberId = some old)
    (howner : member.analysisRunId = old.analysisRunId) (rootId : String) :
    (ledger'.membersOf rootId).length = (ledger.membersOf rootId).length := by
  have hentries := Dict.entries_set_of_mem (Dict.mem_keys_of_get? hold) member
  rw [membersOf, membersOf, Dict.values, Dict.values, hmembers, hentries, List.map_map,
    ← List.countP_eq_length_filter, ← List.countP_eq_length_filter, List.countP_map,
    List.countP_map]
  refine List.countP_congr fun e he => ?_
  change decide _ = true ↔ decide _ = true
  simp only [decide_eq_true_eq, Function.comp_apply]
  split
  · rename_i hkey
    have hsame : ledger.members.get? e.1 = some e.2 := Dict.get?_eq_some.mpr he
    rw [hkey, hold] at hsame
    rw [← Option.some.inj hsame, howner]
  · exact Iff.rfl

/-- Members of other roots are left alone. -/
theorem LedgerTables.membersOf_frame {memberId : String} {member : Member}
    (hmembers : ledger'.members = ledger.members.set memberId member)
    (hold : ∀ old, ledger.members.get? memberId = some old →
      old.analysisRunId = member.analysisRunId)
    {rootId : String} (hne : member.analysisRunId ≠ rootId) :
    ledger'.membersOf rootId = ledger.membersOf rootId := by
  rw [membersOf, membersOf, Dict.values, Dict.values, hmembers]
  by_cases hkey : memberId ∈ ledger.members.keys
  · rw [Dict.entries_set_of_mem hkey, List.map_map]
    have hfilter : ∀ l : List (String × Member), (∀ e ∈ l, ledger.members.get? e.1 = some e.2) →
        (l.map (Prod.snd ∘ fun e => if e.1 = memberId then (memberId, member) else e)).filter
          (fun m => decide (m.analysisRunId = rootId)) =
        (l.map Prod.snd).filter fun m => decide (m.analysisRunId = rootId) := by
      intro l hl
      induction l with
      | nil => rfl
      | cons e l ih =>
          have ih := ih fun e' he' => hl e' (List.mem_cons_of_mem _ he')
          rw [List.map_cons, List.map_cons, Function.comp_apply]
          split
          · rename_i heq
            have hown := hold e.2 (heq ▸ hl e (List.mem_cons_self ..))
            rw [List.filter_cons_of_neg (by simpa using hne),
              List.filter_cons_of_neg (by simpa [hown] using hne), ih]
          · rw [List.filter_cons, List.filter_cons, ih]
    exact hfilter _ fun e he => Dict.get?_eq_some.mpr he
  · rw [Dict.entries_set_of_notMem hkey, List.map_append, List.filter_append]
    simp [hne]

theorem LedgerTables.length_membersOf_insert {memberId : String} {member : Member}
    (hmembers : ledger'.members = ledger.members.set memberId member)
    (hnone : ledger.members.get? memberId = none) :
    (ledger'.membersOf member.analysisRunId).length =
      (ledger.membersOf member.analysisRunId).length + 1 := by
  rw [membersOf, membersOf, Dict.values, Dict.values, hmembers,
    Dict.entries_set_of_notMem (Dict.get?_eq_none.mp hnone), List.map_append, List.filter_append]
  simp

/-! ## Roots and their members -/

/-- A root against its members. -/
structure RootInv (members : List Member) (rootId : String) (root : Root) : Prop where
  id : root.analysisRunId = rootId
  expected : 1 ≤ root.expectedMembers
  count : members.length ≤ root.expectedMembers
  notFailed : root.status ≠ .failed
  settled : root.status = .completed ↔ allCompleted root members

structure RootsInv (ledger : LedgerTables) : Prop where
  roots : ∀ id root, ledger.roots.get? id = some root → RootInv (ledger.membersOf id) id root
  owned : ∀ id m, ledger.members.get? id = some m →
    ∃ root, ledger.roots.get? m.analysisRunId = some root

theorem not_allCompleted {root : Root} {members : List Member} {m : Member} (hm : m ∈ members)
    (hstatus : m.status ≠ .completed) : ¬allCompleted root members :=
  fun h => hstatus ((allCompleted_iff.mp h).2 m hm)

theorem ne_completed_of_open {root : Root} (h : root.status.terminalRoot = false) :
    root.status ≠ .completed := by
  rintro hcompleted
  rw [hcompleted] at h
  cases h

/-- Finishing a member that is not completed completes no root. -/
theorem Root.afterMember_spec {root : Root} (at' : String) (target : Status)
    (hopen : root.status ≠ .completed ∧ root.status ≠ .cancelled) (hnotFailed : root.status ≠ .failed) :
    (root.afterMember at' target).status ≠ .completed ∧
      (root.afterMember at' target).status ≠ .failed ∧
      (root.afterMember at' target).analysisRunId = root.analysisRunId ∧
      (root.afterMember at' target).expectedMembers = root.expectedMembers ∧
      (target = .completed → (root.afterMember at' target).status = .running) := by
  obtain ⟨hcompleted, hcancelled⟩ := hopen
  cases target <;> cases hstatus : root.status <;>
    simp_all [Root.afterMember, Status.terminalRoot]

/-- One root and the members of that root are written; everything else stays. -/
theorem RootsInv.write (hinv : RootsInv ledger) {rootId : String}
    (hroots : ∀ id, id ≠ rootId → ledger'.roots.get? id = ledger.roots.get? id)
    (hframe : ∀ id, id ≠ rootId → ledger'.membersOf id = ledger.membersOf id)
    (hroot : ∃ root, ledger'.roots.get? rootId = some root ∧
      RootInv (ledger'.membersOf rootId) rootId root)
    (hmembers : ∀ id m, ledger'.members.get? id = some m →
      m.analysisRunId = rootId ∨ ledger.members.get? id = some m) : RootsInv ledger' where
  roots id root hget := by
    by_cases hid : id = rootId
    · subst hid
      obtain ⟨root', hget', hroot'⟩ := hroot
      obtain rfl := Option.some.inj (hget.symm.trans hget')
      exact hroot'
    · rw [hroots id hid] at hget
      rw [hframe id hid]
      exact hinv.roots id root hget
  owned id m hget := by
    by_cases hid : m.analysisRunId = rootId
    · obtain ⟨root, hget', _⟩ := hroot
      exact ⟨root, hid ▸ hget'⟩
    · obtain hown | hold := hmembers id m hget
      · exact absurd hown hid
      · rw [hroots _ hid]
        exact hinv.owned id m hold

theorem RootsInv.created (hinv : RootsInv ledger) {root : Root}
    (hnone : ledger.roots.get? root.analysisRunId = none) (hstatus : root.status = .pending)
    (hexpected : 1 ≤ root.expectedMembers) :
    RootsInv { ledger with roots := ledger.roots.set root.analysisRunId root } := by
  have hempty : ledger.membersOf root.analysisRunId = [] := by
    refine List.eq_nil_iff_forall_not_mem.mpr fun m hm => ?_
    obtain ⟨id, hget, howner⟩ := LedgerTables.mem_membersOf.mp hm
    obtain ⟨old, hold⟩ := hinv.owned id m hget
    rw [howner, hnone] at hold
    cases hold
  refine hinv.write (fun id hid => Dict.get?_set_of_ne (Ne.symm hid)) (fun _ _ => rfl)
    ⟨root, Dict.get?_set_self .., ?_⟩ fun id m hget => .inr hget
  change RootInv (ledger.membersOf root.analysisRunId) _ _
  rw [hempty]
  refine ⟨rfl, hexpected, Nat.zero_le _, by simp [hstatus], ?_⟩
  refine ⟨fun h => (by cases hstatus.symm.trans h), fun h => ?_⟩
  have hlength : 0 = root.expectedMembers := h.1
  omega

theorem members_set_cases {memberId : String} {member : Member}
    (hmembers : ledger'.members = ledger.members.set memberId member) (id : String) (m : Member)
    (hget : ledger'.members.get? id = some m) :
    m.analysisRunId = member.analysisRunId ∨ ledger.members.get? id = some m := by
  rw [hmembers, Dict.get?_set] at hget
  split at hget
  · cases hget
    exact .inl rfl
  · exact .inr hget

theorem RootsInv.registered (hinv : RootsInv ledger) {rootId memberId : String} {root : Root}
    {member : Member} (hroot : ledger.roots.get? rootId = some root)
    (hnone : ledger.members.get? memberId = none) (howner : member.analysisRunId = rootId)
    (hpending : member.status = .pending) (hstatus : root.status.terminalRoot = false)
    (hcount : (ledger.membersOf rootId).length < root.expectedMembers) :
    RootsInv (ledger.setMember memberId member) := by
  subst howner
  have hold := hinv.roots _ root hroot
  have hmember : member ∈ (ledger.setMember memberId member).membersOf member.analysisRunId :=
    LedgerTables.mem_membersOf.mpr ⟨memberId, Dict.get?_set_self .., rfl⟩
  refine hinv.write (fun _ _ => rfl)
    (fun id hid => LedgerTables.membersOf_frame rfl (fun old hget => ?_) (Ne.symm hid))
    ⟨root, hroot, ⟨hold.id, hold.expected, ?_, hold.notFailed, ?_⟩⟩ (members_set_cases rfl)
  · rw [hnone] at hget
    cases hget
  · rw [LedgerTables.length_membersOf_insert rfl hnone]
    exact hcount
  · refine iff_of_false (ne_completed_of_open hstatus) (not_allCompleted hmember ?_)
    rw [hpending]
    exact fun h => by cases h

/-- A member row written in place, under a root that is written too. -/
theorem RootsInv.update (hinv : RootsInv ledger) {rootId memberId : String} {root root' : Root}
    {member : Member} (member' : Member) (hroot : ledger.roots.get? rootId = some root)
    (hmember : ledger.members.get? memberId = some member) (howner : member.analysisRunId = rootId)
    (hsame : member'.analysisRunId = rootId)
    (hmembers : ledger'.members = ledger.members.set memberId member')
    (hroots : ledger'.roots = ledger.roots.set rootId root')
    (hid : root'.analysisRunId = root.analysisRunId)
    (hexpected : root'.expectedMembers = root.expectedMembers) (hnotFailed : root'.status ≠ .failed)
    (hsettled : root'.status = .completed ↔ allCompleted root' (ledger'.membersOf rootId)) :
    RootsInv ledger' := by
  have hold := hinv.roots rootId root hroot
  refine hinv.write (fun id hne => by rw [hroots, Dict.get?_set_of_ne (Ne.symm hne)])
    (fun id hne => LedgerTables.membersOf_frame hmembers (fun old hget => ?_)
      (by rw [hsame]; exact Ne.symm hne))
    ⟨root', by rw [hroots, Dict.get?_set_self], ⟨hid.trans hold.id, hexpected ▸ hold.expected, ?_,
      hnotFailed, hsettled⟩⟩ fun id m hget => ?_
  · rw [hmember] at hget
    rw [← Option.some.inj hget, howner, hsame]
  · rw [LedgerTables.length_membersOf_update hmembers hmember (hsame.trans howner.symm), hexpected]
    exact hold.count
  · rw [← hsame]
    exact members_set_cases hmembers id m hget

theorem RootsInv.bound (hinv : RootsInv ledger) {rootId memberId : String} {root : Root}
    {member member' : Member} (hroot : ledger.roots.get? rootId = some root)
    (hmember : ledger.members.get? memberId = some member) (howner : member.analysisRunId = rootId)
    (hsame : member'.analysisRunId = rootId) (hstatus : member'.status = member.status)
    (hopen : root.status.terminalRoot = false) : RootsInv (ledger.setMember memberId member') := by
  have hold := hinv.roots rootId root hroot
  have hset : (ledger.setMember memberId member').roots = ledger.roots.set rootId root :=
    (Dict.set_self hroot).symm
  refine hinv.update member' hroot hmember howner hsame rfl hset rfl rfl hold.notFailed
    (iff_of_false (ne_completed_of_open hopen) fun hall => ?_)
  -- were all completed now, they were before
  refine ne_completed_of_open hopen (hold.settled.mpr ?_)
  obtain ⟨hlength, hcompleted⟩ := allCompleted_iff.mp hall
  rw [LedgerTables.length_membersOf_update rfl hmember (hsame.trans howner.symm)] at hlength
  obtain ⟨hnow, hothers⟩ := (LedgerTables.forall_membersOf_set rfl hsame).mp hcompleted
  refine allCompleted_iff.mpr ⟨hlength, fun m hm => ?_⟩
  obtain ⟨id, hget, hrootId⟩ := LedgerTables.mem_membersOf.mp hm
  by_cases hid : id = memberId
  · rw [hid, hmember] at hget
    rw [← Option.some.inj hget, ← hstatus, hnow]
  · exact hothers id m hid hget hrootId

theorem RootsInv.finished (hinv : RootsInv ledger) {rootId memberId at' : String} {root : Root}
    {member : Member} {target : Status} (hroot : ledger.roots.get? rootId = some root)
    (hmember : ledger.members.get? memberId = some member) (howner : member.analysisRunId = rootId)
    (hopen : root.status ≠ .completed ∧ root.status ≠ .cancelled) (htarget : target ≠ .completed) :
    RootsInv (ledger.writeFinished at' target root rootId memberId member) := by
  have hold := hinv.roots rootId root hroot
  obtain ⟨hcompleted, hnotFailed, hid, hexpected, _⟩ :=
    Root.afterMember_spec at' target hopen hold.notFailed
  let member' : Member := { member with status := target, updatedAt := at' }
  have hmember' : member' ∈ (ledger.writeFinished at' target root rootId memberId member).membersOf
      rootId := LedgerTables.mem_membersOf.mpr ⟨memberId, Dict.get?_set_self .., howner⟩
  exact hinv.update member' hroot hmember howner howner rfl rfl hid hexpected hnotFailed
    (iff_of_false hcompleted (not_allCompleted hmember' htarget))

theorem RootsInv.completed (hinv : RootsInv ledger) {rootId memberId at' now : String} {root : Root}
    {member : Member} (hroot : ledger.roots.get? rootId = some root)
    (hmember : ledger.members.get? memberId = some member) (howner : member.analysisRunId = rootId)
    (hopen : root.status ≠ .completed ∧ root.status ≠ .cancelled)
    (hsettles : Settles env now rootId (root.afterMember at' .completed)
      (ledger.writeFinished at' .completed root rootId memberId member) ledger') :
    RootsInv ledger' := by
  have hold := hinv.roots rootId root hroot
  obtain ⟨hcompleted, hnotFailed, hid, hexpected, hrunning⟩ :=
    Root.afterMember_spec at' .completed hopen hold.notFailed
  have hrunning := hrunning rfl
  let member' : Member := { member with status := .completed, updatedAt := at' }
  cases hsettles with
  | stays hstays =>
      refine hinv.update member' hroot hmember howner howner rfl rfl hid hexpected hnotFailed
        (iff_of_false hcompleted (hstays.resolve_left ?_))
      rw [hrunning]
      decide
  | settled hstatus hall hrows =>
      refine hinv.update member' hroot hmember howner howner rfl (Dict.set_set ..) hid hexpected
        (fun h => by cases h) (iff_of_true rfl ?_)
      exact allCompleted_iff.mpr (allCompleted_iff.mp hall)

theorem RootsInv.step (hinv : RootsInv ledger) (hstep : LedgerStep env ledger ledger') :
    RootsInv ledger' := by
  cases hstep with
  | unchanged => exact hinv
  | recorded _ hnew =>
      have hmembers : ∀ id, ledger'.membersOf id = ledger.membersOf id := fun id => by
        rw [LedgerTables.membersOf, LedgerTables.membersOf, hnew.hmembers]
      exact ⟨fun id root hget => hmembers id ▸ hinv.roots id root (hnew.hroots ▸ hget),
        fun id m hget => by
          rw [hnew.hroots]
          exact hinv.owned id m (hnew.hmembers ▸ hget)⟩
  | created hnone hstatus hexpected => exact hinv.created hnone hstatus hexpected
  | registered created hroot hnone hstatus hcount =>
      exact hinv.registered hroot hnone rfl rfl hstatus hcount
  | bound now jobId hroot hmember howner hunbound hstatus =>
      exact hinv.bound hroot hmember howner howner rfl hstatus
  | finished hroot hmember howner hrootOpen _ htarget =>
      exact hinv.finished hroot hmember howner hrootOpen htarget
  | completed hroot hmember howner hrootOpen _ hsettles =>
      exact hinv.completed hroot hmember howner hrootOpen hsettles
  | settled hroot hsettles =>
      cases hsettles with
      | stays => exact hinv
      | settled hstatus hall =>
          exact absurd ((hinv.roots _ _ hroot).settled.mpr hall) (ne_completed_of_open hstatus)

end LogRisk.Ledger
