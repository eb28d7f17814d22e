import LogRisk.Agentic.WorkflowRows

/-!
# Runs of a workflow

Any number of executions, workers and calls work on one workflow run, and each may die at any
point.  No action touches a completed node again, so what a node depends on is done for good
when the node is claimed, and the child of a node is told the final results.
-/

namespace LogRisk.Agentic.Workflow

open LogRisk.Library LogRisk.Library.Transaction

variable {V : Type}

/-! ## Actions -/

section Actions

variable {a : Act V} {w w' : World V}

/-- The actions of the callers finish a node only in one of the finished states. -/
def Allowed : Act V → Prop
  | .finishNode _ status .. => status ∈ finished
  | _ => True

theorem commit_cases {r : Except Exn Unit} {x : Except Exn (Db V)} (h : (r, w') = w.commit x) :
    w' = w ∨ x = .ok w'.db ∧ w' = { w with db := w'.db } := by
  unfold World.commit at h
  cases x with
  | ok db =>
      obtain ⟨-, rfl⟩ := Prod.mk.inj h
      exact .inr ⟨rfl, rfl⟩
  | error e => exact .inl (Prod.mk.inj h).2

theorem commit_change {r : Except Exn Unit} {x : Except Exn (Db V)} (h : (r, w') = w.commit x)
    (hx : ∀ db, x = .ok db → Change a w.db db) : Change a w.db w'.db := by
  rcases commit_cases h with rfl | ⟨hok, -⟩
  · exact .nothing a _
  · exact hx _ hok

theorem perform_change {r : Except Exn a.Answer} (hids : (w.db.nodes.map (·.nodeId)).Nodup)
    (hallowed : Allowed a) (h : perform a w r w') : Change a w.db w'.db := by
  cases a with
  | getRun => exact h.2 ▸ .nothing _ _
  | transitionRun => exact commit_change h fun _ hok => transitionRun_change hok
  | claimNode => exact commit_change h fun _ hok => claimNode_change hids hok
  | attachChildRun =>
      apply commit_change h
      rintro db hok
      cases hok
      exact attachChildRun_change _ _
  | finishNode => exact commit_change h fun _ hok => finishNode_change hids hallowed hok
  | requeueNode => exact commit_change h fun _ hok => requeueNode_change hids hok
  | resetNode =>
      obtain ⟨reserved, h⟩ := h
      exact commit_change h fun _ hok => resetNode_change hids hok
  | recoverRun =>
      obtain ⟨reserved, h⟩ := h
      apply commit_change h
      intro db hok
      unfold Db.recoverRun at hok
      split at hok
      · cases hok
        exact recover_change reserved
      · cases hok
  | recoverActiveRuns =>
      obtain ⟨reserved, h⟩ := h
      apply commit_change h
      intro db hok
      cases hok
      unfold Db.recoverActiveRuns
      split
      · exact recover_change reserved
      · exact .nothing _ _
  | monotonic => exact h.1 ▸ .nothing _ _
  | submit =>
      obtain ⟨-, rfl⟩ := h
      exact .nothing _ _
  | await => exact (show w' = w from h) ▸ .nothing _ _
  | check => exact (show w' = w from h) ▸ .nothing _ _
  | createChild =>
      obtain rfl : w' = _ := h
      exact .nothing _ _
  | executeChild => exact (show w' = w from h) ▸ .nothing _ _

/-- Beside the rows, an action hands a node over or launches a child. -/
structure Beside (a : Act V) (w w' : World V) : Prop where
  submitted : w'.submitted = w.submitted ∨
    ∃ nodeId, a = .submit nodeId ∧ w'.submitted = nodeId :: w.submitted
  launches : w'.launches = w.launches ∨ ∃ nodeId attempt inputs,
    a = .createChild nodeId attempt inputs ∧ w'.launches = w.launches ++ [⟨nodeId, attempt, inputs⟩]

theorem commit_beside {r : Except Exn Unit} {x : Except Exn (Db V)} (h : (r, w') = w.commit x) :
    Beside a w w' := by
  rcases commit_cases h with rfl | ⟨-, heq⟩
  · exact ⟨.inl rfl, .inl rfl⟩
  · rw [heq]
    exact ⟨.inl rfl, .inl rfl⟩

theorem perform_beside {r : Except Exn a.Answer} (h : perform a w r w') : Beside a w w' := by
  cases a with
  | getRun => exact h.2 ▸ ⟨.inl rfl, .inl rfl⟩
  | transitionRun => exact commit_beside h
  | claimNode => exact commit_beside h
  | attachChildRun => exact commit_beside h
  | finishNode => exact commit_beside h
  | requeueNode => exact commit_beside h
  | resetNode => exact commit_beside h.choose_spec
  | recoverRun => exact commit_beside h.choose_spec
  | recoverActiveRuns => exact commit_beside h.choose_spec
  | monotonic => exact h.1 ▸ ⟨.inl rfl, .inl rfl⟩
  | submit nodeId =>
      obtain ⟨-, rfl⟩ := h
      exact ⟨.inr ⟨nodeId, rfl, rfl⟩, .inl rfl⟩
  | await => exact (show w' = w from h) ▸ ⟨.inl rfl, .inl rfl⟩
  | check => exact (show w' = w from h) ▸ ⟨.inl rfl, .inl rfl⟩
  | createChild nodeId attempt inputs =>
      obtain rfl : w' = _ := h
      exact ⟨.inl rfl, .inr ⟨nodeId, attempt, inputs, rfl, rfl⟩⟩
  | executeChild => exact (show w' = w from h) ▸ ⟨.inl rfl, .inl rfl⟩

/-! ## The contract -/

/-- The node has been claimed. -/
def Claimed (db : Db V) (nodeId : String) : Prop :=
  ∀ n ∈ db.nodes, n.nodeId = nodeId → 0 < n.attempt

/-- All that the node depends on is completed. -/
def Awaited (db : Db V) (nodeId : String) : Prop :=
  ∀ n ∈ db.nodes, n.nodeId = nodeId → db.Done n.dependencies

theorem Claimed.grows {s t : Db V} {nodeId : String} (h : Claimed s nodeId) (hst : s.Grows t) :
    Claimed t nodeId := by
  intro m hm hid
  obtain ⟨n, hn, hnm⟩ := hst.back hm
  exact lt_of_lt_of_le (h n hn (hnm.nodeId ▸ hid)) hnm.attempt

theorem Awaited.grows {s t : Db V} {nodeId : String} (h : Awaited s nodeId) (hst : s.Grows t) :
    Awaited t nodeId := by
  intro m hm hid
  obtain ⟨n, hn, hnm⟩ := hst.back hm
  rw [hnm.dependencies]
  exact (h n hn (hnm.nodeId ▸ hid)).grows hst

/-- A child was launched for a claimed node and told what its dependencies have ended with. -/
def Informed (db : Db V) (l : Launch V) : Prop :=
  ∃ n ∈ db.nodes, n.nodeId = l.nodeId ∧ 0 < n.attempt ∧
    l.inputs = db.dependencyArtifacts n.dependencies

structure Inv (w : World V) : Prop where
  settled : Settled w.db
  recounts : Recounts w.db
  submitted : ∀ nodeId ∈ w.submitted, Claimed w.db nodeId
  informed : ∀ l ∈ w.launches, Informed w.db l

theorem Informed.grows {s t : Db V} {l : Launch V} (h : Informed s l) (hs : Settled s)
    (hst : s.Grows t) : Informed t l := by
  obtain ⟨n, hn, hid, hpos, hinputs⟩ := h
  obtain ⟨m, hm, hnm⟩ := hst.forth hn
  refine ⟨m, hm, hnm.nodeId.trans hid, lt_of_lt_of_le hpos hnm.attempt, ?_⟩
  rw [hinputs, hnm.dependencies]
  exact (dependencyArtifacts_grows hs.ids (hs.done n hn hpos) hst).symm

/-- What a caller guarantees of an action. -/
def Guaranteed (a : Act V) (w : World V) : Prop :=
  match a with
  | .claimNode nodeId => Awaited w.db nodeId
  | .submit nodeId => Claimed w.db nodeId
  | .createChild nodeId attempt inputs => Informed w.db ⟨nodeId, attempt, inputs⟩
  | .finishNode _ status .. => status ∈ finished
  | _ => True

theorem Guaranteed.allowed (h : Guaranteed a w) : Allowed a := by
  cases a with
  | finishNode => exact h
  | _ => exact trivial

theorem perform_grows {r : Except Exn a.Answer} (hinv : Inv w) (hguar : Guaranteed a w)
    (h : perform a w r w') : w.db.Grows w'.db :=
  (perform_change hinv.settled.ids hguar.allowed h).grows hinv.settled.ids

theorem Inv.perform {r : Except Exn a.Answer} (hinv : Inv w) (hguar : Guaranteed a w)
    (h : perform a w r w') : Inv w' := by
  have hchange := perform_change hinv.settled.ids hguar.allowed h
  have hgrows := hchange.grows hinv.settled.ids
  obtain ⟨hsubmitted, hlaunches⟩ := perform_beside h
  refine ⟨?_, hinv.recounts.change hinv.settled.ids hchange, ?_, ?_⟩
  · apply hinv.settled.change hchange
    rintro nodeId rfl
    exact hguar
  · intro nodeId hmem
    rcases hsubmitted with heq | ⟨nodeId', rfl, heq⟩
    · exact (hinv.submitted nodeId (heq ▸ hmem)).grows hgrows
    · rw [heq] at hmem
      rcases List.mem_cons.mp hmem with rfl | hmem
      · exact Claimed.grows hguar hgrows
      · exact (hinv.submitted nodeId hmem).grows hgrows
  · intro l hmem
    rcases hlaunches with heq | ⟨nodeId, attempt, inputs, rfl, heq⟩
    · exact (hinv.informed l (heq ▸ hmem)).grows hinv.settled hgrows
    · rw [heq] at hmem
      rcases List.mem_append.mp hmem with hmem | hmem
      · exact (hinv.informed l hmem).grows hinv.settled hgrows
      · obtain rfl := List.mem_singleton.mp hmem
        exact Informed.grows hguar hinv.settled hgrows

def contract : Contract Caller (Act V) Act.Answer Exn Unit (World V) where
  inv := Inv
  beside _ _ := True
  rely _ w w' := w.db.Grows w'.db
  guar _ a w _ _ := Guaranteed a w
  good _ _ _ := True
  bad _ _ _ := True

end Actions

/-! ## The programs keep it -/

section Programs

variable {α β : Type} {good : β → World V → Prop} {w : World V}

/-- The program keeps to the contract, whoever its caller is. -/
def Keeps (p : Exec V α) (good : α → World V → Prop) (w : World V) : Prop :=
  p.Upholds (fun w w' => w.db.Grows w'.db) (fun a w r w' => Inv w ∧ perform a w r w')
    (fun a w _ _ => Guaranteed a w) good (fun _ _ => True) w

theorem keeps_done {r : Except Exn β} (h : ∀ x, r = .ok x → ∀ t, w.db.Grows t.db → good x t) :
    Keeps (.done r) good w := by
  cases r with
  | ok x => exact h x rfl
  | error e => exact fun _ _ => trivial

theorem keeps_error (e : Exn) : Keeps (.done (.error e) : Exec V β) good w := fun _ _ => trivial

theorem keeps_ask_bind {a : Act V} {f : a.Answer → Exec V β}
    (hguar : ∀ t, w.db.Grows t.db → Inv t → Guaranteed a t)
    (hf : ∀ t, w.db.Grows t.db → Inv t → ∀ x t', perform a t (.ok x) t' → Keeps (f x) good t') :
    Keeps (ask a >>= f) good w := by
  refine Program.upholds_call_bind fun t ht r t' hr => ⟨hguar t ht hr.1, ?_⟩
  cases r with
  | ok x => exact hf t ht hr.1 x t' hr.2
  | error e => exact fun _ _ => trivial

theorem keeps_getRun_bind {f : Db V → Exec V β}
    (hf : ∀ t, w.db.Grows t.db → Inv t → Keeps (f t.db) good t) :
    Keeps (ask .getRun >>= f) good w := by
  apply keeps_ask_bind (a := .getRun) fun _ _ _ => trivial
  rintro t ht hinv db t' ⟨hdb, rfl⟩
  obtain rfl := Except.ok.inj hdb
  exact hf _ ht hinv

/-- Actions that nothing has to be known for. -/
def Plain (a : Act V) : Prop := ∀ w : World V, Guaranteed a w

theorem plain_bind {s : Db V} {p : Exec V α} {f : α → Exec V β} (hp : p.Uses Plain)
    (hw : s.Grows w.db) (hf : ∀ x t, s.Grows t.db → Keeps (f x) good t) :
    Keeps (p >>= f) good w := by
  have hact : ∀ (a : Act V) (t : World V) (r : Except Exn a.Answer) (t' : World V), Plain a →
      s.Grows t.db → Inv t ∧ perform a t r t' → Guaranteed a t ∧ s.Grows t'.db := by
    rintro a t r t' ha hs ⟨hinv, hperform⟩
    exact ⟨ha t, hs.trans (perform_grows hinv (ha t) hperform)⟩
  exact hp.upholds_bind (fun t : World V => Db.Grows.refl t.db)
    (fun _ _ ht hs => Db.Grows.trans hs ht) hact (fun _ _ _ => trivial) hw hf

theorem keeps_plain {p : Exec V β} (hp : p.Uses Plain) (w : World V) :
    Keeps p (fun _ _ => True) w :=
  hp.upholds (P := fun _ => True) (fun _ _ _ _ => trivial)
    (fun _ t _ _ ha _ _ => ⟨ha t, trivial⟩) trivial

def Act.isPlain : Act V → Bool
  | .claimNode _ => false
  | .submit _ => false
  | .createChild .. => false
  | .finishNode _ status .. => status ∈ finished
  | _ => true

theorem plain_of_isPlain {a : Act V} (h : a.isPlain = true) : Plain a := by
  intro w
  cases a with
  | claimNode => cases h
  | submit => cases h
  | createChild => cases h
  | finishNode => exact of_decide_eq_true (p := _ ∈ finished) h
  | _ => trivial

theorem uses_ite {only : Act V → Prop} {c : Prop} [Decidable c] {p q : Exec V α}
    (hp : p.Uses only) (hq : q.Uses only) : (if c then p else q).Uses only := by
  by_cases hc : c
  · rwa [if_pos hc]
  · rwa [if_neg hc]

theorem uses_ask (a : Act V) (h : a.isPlain = true) : (ask a).Uses Plain :=
  ⟨plain_of_isPlain h, fun _ => trivial⟩

/-- A plain action and what follows it. -/
theorem uses_ask_bind (a : Act V) {f : a.Answer → Exec V β} (h : a.isPlain = true)
    (hf : ∀ x, (f x).Uses Plain) : (ask a >>= f).Uses Plain :=
  Program.Uses.bind (uses_ask a h) hf

theorem keeps_bind {p : Exec V α} {f : α → Exec V β} {mid : α → World V → Prop}
    (hp : Keeps p mid w) (hf : ∀ x t, mid x t → Keeps (f x) good t) : Keeps (p >>= f) good w :=
  Program.Upholds.bind (fun t => .refl t.db) (Program.Upholds.mono hf (fun _ _ _ => trivial) hp)

theorem uses_settle (maxAttempts : ℤ) (nodeId : String) (outcome : Outcome V) :
    (settle maxAttempts nodeId outcome).Uses Plain := by
  have hfinish : ∀ (status : NodeStatus) (used : ℕ) (result : Option (Summary V))
      (code : Option String), status ∈ finished →
      (ask (.finishNode nodeId status used result code)).Uses Plain := by
    intro status used result code h
    exact uses_ask (.finishNode ..) (decide_eq_true h)
  unfold settle
  apply uses_ask_bind .getRun rfl
  intro current
  split
  · trivial
  · dsimp only
    apply uses_ite
    · trivial
    · apply uses_ite
      · exact uses_ite (hfinish .failed _ _ _ (by decide)) (uses_ask (.requeueNode _) rfl)
      · apply uses_ite
        · exact hfinish .cancelled _ _ _ (by decide)
        · apply uses_ite
          · exact hfinish .completed _ _ _ (by decide)
          · apply uses_ask_bind .getRun rfl
            intro fresh
            apply Program.Uses.bind (hfinish .failed _ _ _ (by decide))
            intro _
            apply uses_ite
            · trivial
            · split
              · trivial
              · exact uses_ite (uses_ask (.resetNode ..) rfl) trivial

theorem uses_collect (maxAttempts : ℤ) (n : ℕ) (outstanding : List String) :
    (collect (V := V) maxAttempts n outstanding).Uses Plain := by
  induction n generalizing outstanding with
  | zero => trivial
  | succ n ih =>
      apply uses_ask_bind (.await _) rfl
      intro done
      exact Program.Uses.bind (uses_settle _ _ _) fun _ => ih _

theorem claimed_of_perform {t t' : World V} {nodeId : String} {x : Unit} (hinv : Inv t)
    (h : perform (.claimNode nodeId) t (.ok x) t') : Claimed t'.db nodeId := by
  have hcommit : (Except.ok x, t') = t.commit (t.db.claimNode nodeId) := h
  unfold World.commit at hcommit
  split at hcommit
  · rename_i db hok
    obtain ⟨-, rfl⟩ := Prod.mk.inj hcommit
    obtain ⟨db', hdb', hdb⟩ := bind_eq_ok.mp hok
    obtain rfl := Except.ok.inj hdb
    obtain ⟨row, hrow, rfl, -, rfl⟩ := updateNode_ok hinv.settled.ids hdb'
    intro m hm hid
    obtain ⟨n, hn, rfl⟩ := List.mem_map.mp hm
    split
    · exact Nat.succ_pos _
    · rename_i hne
      rw [if_neg hne] at hid
      exact absurd hid hne
  · cases (Prod.mk.inj hcommit).1

/-- Nodes that wait for nothing more are claimed; what holds beside it stays. -/
theorem keeps_claimAll {P : Db V → Prop} (hP : ∀ s t, Db.Grows s t → P s → P t)
    {nodeIds : List String} (hw : P w.db) (h : ∀ nodeId ∈ nodeIds, Awaited w.db nodeId) :
    Keeps (claimAll nodeIds)
      (fun _ t => P t.db ∧ ∀ nodeId ∈ nodeIds, Claimed t.db nodeId) w := by
  induction nodeIds generalizing w P with
  | nil => exact fun t ht => ⟨hP _ _ ht hw, by simp⟩
  | cons nodeId rest ih =>
      apply keeps_ask_bind
      · exact fun t ht _ => (h nodeId List.mem_cons_self).grows ht
      · intro t ht hinv x t' hperform
        have hguar : Guaranteed (.claimNode nodeId) t := (h nodeId List.mem_cons_self).grows ht
        have hgrows := ht.trans (perform_grows hinv hguar hperform)
        have hrest := ih (w := t') (P := fun s => P s ∧ Claimed s nodeId)
          (fun s s' hs hsP => ⟨hP s s' hs hsP.1, hsP.2.grows hs⟩)
          ⟨hP _ _ hgrows hw, claimed_of_perform hinv hperform⟩
          fun id hid => (h id (List.mem_cons_of_mem nodeId hid)).grows hgrows
        refine Program.Upholds.mono ?_ (fun _ _ _ => trivial) hrest
        rintro _ u ⟨⟨hu, hclaimed⟩, hothers⟩
        exact ⟨hu, List.forall_mem_cons.mpr ⟨hclaimed, hothers⟩⟩

theorem keeps_submitAll {nodeIds : List String} (h : ∀ nodeId ∈ nodeIds, Claimed w.db nodeId) :
    Keeps (submitAll nodeIds) (fun _ _ => True) w := by
  induction nodeIds generalizing w with
  | nil => exact fun _ _ => trivial
  | cons nodeId rest ih =>
      apply keeps_ask_bind
      · exact fun t ht _ => (h nodeId List.mem_cons_self).grows ht
      · rintro t ht _ x t' ⟨-, rfl⟩
        exact ih fun id hid => (h id (List.mem_cons_of_mem nodeId hid)).grows ht

theorem keeps_dispatch {maxAttempts : ℤ} {nodeIds : List String}
    (h : ∀ nodeId ∈ nodeIds, Awaited w.db nodeId) :
    Keeps (dispatch maxAttempts nodeIds) (fun _ _ => True) w := by
  apply keeps_bind (keeps_claimAll (P := fun _ => True) (fun _ _ _ _ => trivial) trivial h)
  rintro _ t ⟨-, hclaimed⟩
  apply keeps_bind (keeps_submitAll hclaimed)
  rintro _ u -
  exact keeps_plain (uses_collect _ _ _) u

theorem mem_of_mem_admitted {remaining : ℤ} {reserved : ℕ} {nodes : List (Node V)} {n : Node V}
    (h : n ∈ admitted remaining reserved nodes) : n ∈ nodes := by
  induction nodes generalizing reserved with
  | nil => exact h
  | cons m rest ih =>
      unfold admitted at h
      split at h
      · rcases List.mem_cons.mp h with rfl | h
        · exact List.mem_cons_self
        · exact List.mem_cons_of_mem m (ih h)
      · exact List.mem_cons_of_mem m (ih h)

/-- What a ready node depends on is completed. -/
theorem awaited_of_ready {db : Db V} (hids : (db.nodes.map (·.nodeId)).Nodup) {n : Node V}
    (h : n ∈ db.readyNodes) : Awaited db n.nodeId := by
  unfold Db.readyNodes at h
  obtain ⟨hn, hready⟩ := List.mem_filter.mp h
  obtain ⟨-, hdependencies⟩ := (Bool.and_eq_true _ _).mp hready
  intro m hm hid d hd
  obtain rfl := eq_of_nodeId hids hm hn hid
  have hmem := of_decide_eq_true (List.all_eq_true.mp hdependencies d hd)
  unfold Db.completedIds at hmem
  obtain ⟨k, hk, hkd⟩ := List.mem_map.mp hmem
  obtain ⟨hk, hdone⟩ := List.mem_filter.mp hk
  exact ⟨k, hk, hkd, of_decide_eq_true hdone⟩

theorem keeps_pass (db : Db V) : Keeps (pass db) (fun _ _ => True) w := by
  unfold pass
  dsimp only
  split
  · exact keeps_error _
  · split
    · exact keeps_error _
    · split
      · split
        · exact keeps_error _
        · apply keeps_ask_bind (a := .transitionRun _ _ _) fun _ _ _ => trivial
          exact fun _ _ _ _ _ _ => keeps_done fun _ _ _ _ => trivial
      · apply keeps_getRun_bind
        intro t _ hinv
        split
        · exact keeps_error _
        · split
          · exact keeps_error _
          · refine keeps_bind (keeps_dispatch ?_) fun _ _ _ => keeps_done fun _ _ _ _ => trivial
            · intro nodeId hmem
              obtain ⟨n, hn, rfl⟩ := List.mem_map.mp hmem
              have hready := List.mem_of_mem_take (mem_of_mem_admitted hn)
              exact awaited_of_ready hinv.settled.ids hready

theorem keeps_loop (started : ℚ) (fuel : ℕ) :
    Keeps (V := V) (loop started fuel) (fun _ _ => True) w := by
  induction fuel generalizing w with
  | zero => exact fun _ _ => trivial
  | succ fuel ih =>
      apply keeps_getRun_bind
      intro t _ _
      split
      · exact keeps_done fun _ _ _ _ => trivial
      · apply keeps_ask_bind (a := .monotonic) fun _ _ _ => trivial
        intro _ _ _ now t' _
        split
        · exact keeps_error _
        · apply keeps_bind (keeps_pass t.db)
          intro left u _
          split
          · exact keeps_done fun _ _ _ _ => trivial
          · exact ih

theorem keeps_execute (fuel : ℕ) : Keeps (V := V) (execute fuel) (fun _ _ => True) w := by
  apply keeps_getRun_bind
  intro t _ _
  split
  · exact keeps_done fun _ _ _ _ => trivial
  · apply keeps_ask_bind (a := .monotonic) fun _ _ _ => trivial
    intro _ _ _ started t' _
    have hstart : (setRunning t.db).Uses Plain := uses_ite (uses_ask (.transitionRun ..) rfl) trivial
    have hbody : Keeps (do
        setRunning t.db
        loop started fuel) (fun _ _ => True) t' :=
      plain_bind (s := t'.db) hstart (.refl _) fun _ u _ => keeps_loop started fuel
    refine Program.Upholds.tryCatch (fun t => .refl t.db)
      (Program.Upholds.mono (fun _ _ _ => trivial) ?_ hbody)
    intro e u _
    apply keeps_plain
    apply Program.Uses.tryCatch (uses_ask (.transitionRun ..) rfl)
    exact fun _ => trivial

theorem keeps_executeNode {nodeId : String} (h : Claimed w.db nodeId) :
    Keeps (executeNode nodeId) (fun _ _ => True) w := by
  apply keeps_getRun_bind
  intro t ht hinv
  split
  · exact keeps_error _
  · rename_i node hfind
    have hnode : node ∈ t.db.nodes := List.mem_of_find?_eq_some hfind
    have hid : node.nodeId = nodeId := by simpa using List.find?_some hfind
    have hpos : 0 < node.attempt := h.grows ht node hnode hid
    split
    · exact keeps_done fun _ _ _ _ => trivial
    · have hend : ∀ (child : String) (u : World V), Keeps (do
          let _ : Unit ← ask (.attachChildRun nodeId child)
          ask (.executeChild child)) (fun _ _ => True) u := by
        intro child u
        exact keeps_plain
          (uses_ask_bind (.attachChildRun ..) rfl fun _ => uses_ask (.executeChild _) rfl) u
      refine plain_bind (s := t.db) (uses_ask .check rfl) (.refl _) fun _ u hu => ?_
      unfold childOf
      split
      · rename_i child _
        refine plain_bind (s := u.db) (p := do
          let _ : Unit ← ask .check
          return child) (uses_ask_bind .check rfl fun _ => trivial) (.refl _) fun child v _ => hend child v
      · apply keeps_ask_bind (a := .createChild _ _ _)
        · intro v hv hinv'
          obtain ⟨m, hm, hgrows⟩ := (hu.trans hv).forth hnode
          refine ⟨m, hm, hgrows.nodeId, lt_of_lt_of_le hpos hgrows.attempt, ?_⟩
          rw [hgrows.dependencies]
          exact (dependencyArtifacts_grows hinv.settled.ids (hinv.settled.done node hnode hpos)
            (hu.trans hv)).symm
        · exact fun _ _ _ child v _ => hend child v

theorem keeps_entry {k : Caller} (h : ∀ nodeId, k = .worker nodeId → Claimed w.db nodeId) :
    Keeps (V := V) (entry k) (fun _ _ => True) w := by
  cases k with
  | execute fuel => exact keeps_execute fuel
  | worker nodeId =>
      exact keeps_bind (keeps_executeNode (h nodeId rfl)) fun _ _ _ => keeps_done fun _ _ _ _ => trivial
  | pause key =>
      exact keeps_plain (uses_ask_bind .getRun rfl fun _ =>
        uses_ask_bind .check rfl fun _ => uses_ask (.transitionRun ..) rfl) w
  | resume key => exact keeps_plain (uses_ask (.transitionRun ..) rfl) w
  | cancel key =>
      exact keeps_plain (uses_ask_bind .getRun rfl fun _ =>
        uses_ask_bind .check rfl fun _ => uses_ask (.transitionRun ..) rfl) w
  | retryNode nodeId key =>
      refine keeps_plain (uses_ask_bind (.resetNode ..) rfl fun _ =>
        uses_ask_bind .getRun rfl fun db => ?_) w
      exact uses_ite (uses_ask (.transitionRun ..) rfl) trivial
  | recoverRun => exact keeps_plain (uses_ask .recoverRun rfl) w
  | recoverActiveRuns => exact keeps_plain (uses_ask .recoverActiveRuns rfl) w

end Programs

theorem contract_sound : (contract (V := V)).Sound system where
  refl _ w := .refl w.db
  trans _ _ _ _ h h' := h.trans h'
  start k _ w w' hinv h := by
    obtain ⟨rfl, hsubmitted⟩ := h
    refine ⟨hinv, fun _ _ => ⟨trivial, trivial, .refl _⟩, ?_⟩
    exact keeps_entry fun nodeId hk => hinv.submitted nodeId (hsubmitted nodeId hk)
  act _ _ _ _ _ hinv hdoes hguar :=
    ⟨hinv.perform hguar hdoes, fun _ _ => perform_grows hinv hguar hdoes⟩
  finish _ _ w next w' hinv h _ := by
    obtain ⟨rfl, rfl⟩ := h
    exact ⟨hinv, fun _ _ => .refl _, fun _ hp => by cases hp⟩
  die _ w w' hinv h := by
    obtain rfl : w' = w := h
    exact ⟨hinv, fun _ _ => .refl _⟩

/-! ## Runs of a compiled workflow -/

section Compiled

variable {H : Compiler.Host} {roles : Compiler.RoleRegistry} {limits : Compiler.WorkflowLimits}
  {value : Value} {workflow : Compiler.CompiledWorkflow}

theorem nodup_nodeIds (h : Compiler.compileWorkflow H roles limits value = .ok workflow) :
    (workflow.nodes.map (·.nodeId)).Nodup := by
  obtain ⟨s, budget, attempts, nodes, layers, -, -, hnodes, hchecks, hlayers, rfl⟩ :=
    Compiler.compileWorkflow_eq_ok.mp h
  obtain ⟨xs, -, hchecked, hrealizes⟩ := Compiler.readNodes_spec hnodes
  let x : Compiler.WorkflowDefinition := ⟨xs, 0, 0, 0, 0, 0⟩
  have hids : x.identifiers.Nodup := hchecked.nodup
  have hknown := (Compiler.checks_iff (x := x) hrealizes).mp hchecks
  have hgraph := Compiler.graph_wellFormed hids fun node hnode => (hknown node hnode).2.2
  have harranged : Compiler.Arranged x (Compiler.assemble H s budget attempts nodes layers) :=
    Compiler.arranged_of_layers hrealizes hgraph hlayers
  rw [harranged.nodes]
  exact harranged.perm.nodup_iff.mpr hids

theorem inv_created (h : (workflow.nodes.map (·.nodeId)).Nodup) :
    Inv ({ db := created workflow } : World V) := by
  have hnew : ∀ n ∈ (created workflow : Db V).nodes,
      n.status = .pending ∧ n.attempt = 0 ∧ n.usedToolCalls = 0 := by
    intro n hn
    obtain ⟨d, -, rfl⟩ := List.mem_map.mp hn
    exact ⟨rfl, rfl, rfl⟩
  refine ⟨⟨?_, ?_, ?_⟩, ⟨?_, ?_, ?_, List.nodup_nil⟩, by simp, by simp⟩
  · have hids : (created workflow : Db V).nodes.map (·.nodeId) = workflow.nodes.map (·.nodeId) := by
      unfold created
      rw [List.map_map]
      rfl
    rw [hids]
    exact h
  · exact fun n hn hstatus => absurd (hnew n hn).1 hstatus
  · exact fun n hn hpos => absurd (hnew n hn).2.1 hpos.ne'
  · intro n hn
    rw [(hnew n hn).2.1]
    rfl
  · intro n hn
    rw [(hnew n hn).1]
    rfl
  · refine (List.sum_eq_zero fun used hused => ?_).symm
    obtain ⟨n, hn, rfl⟩ := List.mem_map.mp hused
    exact (hnew n hn).2.2

theorem run_grows {c c' : Pool Caller (Act V) Act.Answer Exn Unit (World V)}
    (h : contract.Holds system c) (hrun : System.Run system c c') :
    c.state.db.Grows c'.state.db := by
  induction hrun with
  | refl => exact .refl _
  | @tail d d' hrun hstep ih =>
      apply ih.trans
      have hd := h.run contract_sound hrun
      cases hstep with
      | start k hstart => exact hstart.1 ▸ .refl _
      | act hdoes => exact perform_grows hd.inv (hd.guar contract_sound hdoes).1 hdoes
      | leave hfinish => exact hfinish.2 ▸ .refl _
      | again hfinish => cases hfinish.1
      | die gone hdies => exact (show _ = _ from hdies) ▸ .refl _

theorem holds_created (h : Compiler.compileWorkflow H roles limits value = .ok workflow)
    {c : Pool Caller (Act V) Act.Answer Exn Unit (World V)}
    (hrun : System.Run system ⟨{ db := created workflow }, []⟩ c) : contract.Holds system c :=
  (Contract.holds_idle (inv_created (nodup_nodeIds h))).run contract_sound hrun

/-- However executions, workers and calls take turns and die: all that a claimed node depends on
is completed, the children of a node are told what is there of it now, and a completed row never
changes again. -/
theorem dependencies_final (h : Compiler.compileWorkflow H roles limits value = .ok workflow)
    {c : Pool Caller (Act V) Act.Answer Exn Unit (World V)}
    (hrun : System.Run system ⟨{ db := created workflow }, []⟩ c) :
    (∀ n ∈ c.state.db.nodes, n.status ≠ .pending ∨ 0 < n.attempt →
      c.state.db.Done n.dependencies) ∧
    (∀ l ∈ c.state.launches, ∃ n ∈ c.state.db.nodes, n.nodeId = l.nodeId ∧
      c.state.db.Done n.dependencies ∧ l.inputs = c.state.db.dependencyArtifacts n.dependencies) ∧
    ∀ c', System.Run system c c' → ∀ n ∈ c.state.db.nodes, n.status = .completed →
      n ∈ c'.state.db.nodes := by
  have hholds := holds_created h hrun
  have hsettled := hholds.inv.settled
  refine ⟨?_, ?_, ?_⟩
  · rintro n hn (hstatus | hpos)
    · exact hsettled.done n hn (hsettled.claimed n hn hstatus)
    · exact hsettled.done n hn hpos
  · intro l hl
    obtain ⟨n, hn, hid, hpos, hinputs⟩ := hholds.inv.informed l hl
    exact ⟨n, hn, hid, hsettled.done n hn hpos, hinputs⟩
  · intro c' hrun' n hn hdone
    exact (run_grows hholds hrun').mem hn hdone

/-- However they take turns: the events tell every claim of a node and that it was completed
at most once, the calls of the run are the calls of its nodes, and no key takes effect twice. -/
theorem events_recount (h : Compiler.compileWorkflow H roles limits value = .ok workflow)
    {c : Pool Caller (Act V) Act.Answer Exn Unit (World V)}
    (hrun : System.Run system ⟨{ db := created workflow }, []⟩ c) : Recounts c.state.db :=
  (holds_created h hrun).inv.recounts

end Compiled

/-! ## A run of two nodes -/

def twoNodes : Compiler.CompiledWorkflow where
  schemaVersion := "1.0"
  name := "n"
  description := "d"
  nodes := [⟨"evidence", "evidence_specialist", [], [], 3, 4, 120⟩,
    ⟨"feature", "evidence_specialist", ["evidence"], [], 3, 4, 120⟩]
  budget := ⟨6, 2, 18, .finite 300⟩
  maxAttempts := 2
  topologicalOrder := ["evidence", "feature"]
  parallelLayers := [["evidence"], ["feature"]]

theorem compiles_twoNodes : Compiler.compileWorkflow Compiler.plainHost Compiler.specialist {}
    (Compiler.definitionOf 2 [Compiler.nodeNamed "evidence" [],
      Compiler.nodeNamed "feature" ["evidence"]]) = .ok twoNodes :=
  eq_ok_of_toOption (by decide +kernel)

/-- Every child completes with two calls and leaves an artifact. -/
def answer (_ : Caller) : (a : Act String) → World String → Except Exn a.Answer × World String
  | .getRun, w => (.ok w.db, w)
  | .transitionRun status allowedFrom key, w => w.commit (w.db.transitionRun status allowedFrom key)
  | .claimNode nodeId, w => w.commit (w.db.claimNode nodeId)
  | .attachChildRun nodeId child, w => w.commit (.ok (w.db.attachChildRun nodeId child))
  | .finishNode nodeId status used result errorCode, w =>
      w.commit (w.db.finishNode nodeId status used result errorCode)
  | .requeueNode nodeId, w => w.commit (w.db.requeueNode nodeId)
  | .resetNode nodeId key, w => w.commit (w.db.resetNode (fun _ => false) nodeId key)
  | .recoverRun, w => w.commit (w.db.recoverRun fun _ => false)
  | .recoverActiveRuns, w => w.commit (.ok (w.db.recoverActiveRuns fun _ => false))
  | .monotonic, w => (.ok (0 : ℚ), w)
  | .submit nodeId, w => (.ok (), { w with submitted := nodeId :: w.submitted })
  | .await outstanding, w =>
      let nodeId := outstanding.headD ""
      (.ok (nodeId, .ok
        { status := .completed, childAgentRunId := some ("child of " ++ nodeId),
          usedToolCalls := 2, artifacts := ["opinion of " ++ nodeId] }), w)
  | .check, w => (.ok (), w)
  | .createChild nodeId attempt inputs, w =>
      (.ok ("child of " ++ nodeId), { w with launches := w.launches ++ [⟨nodeId, attempt, inputs⟩] })
  | .executeChild _, w => (.ok { status := .completed }, w)

theorem performs_answer (k : Caller) (a : Act String) (w : World String) :
    perform a w (answer k a w).1 (answer k a w).2 := by
  cases a with
  | getRun => exact ⟨rfl, rfl⟩
  | resetNode => exact ⟨fun _ => false, rfl⟩
  | recoverRun => exact ⟨fun _ => false, rfl⟩
  | recoverActiveRuns => exact ⟨fun _ => false, rfl⟩
  | monotonic => exact ⟨rfl, (0 : ℚ), rfl⟩
  | submit => exact ⟨rfl, rfl⟩
  | _ => rfl

abbrev Threads := Pool Caller (Act String) Act.Answer Exn Unit (World String)

def Pool.enter (c : Threads) (k : Caller) : Threads := ⟨c.state, c.threads ++ [(k, entry k)]⟩

theorem run_enter (c : Threads) {k : Caller}
    (h : ∀ nodeId, k = .worker nodeId → nodeId ∈ c.state.submitted) :
    System.Run system c (Pool.enter c k) :=
  .single (.start k ⟨rfl, h⟩)

def atFirst : Threads := ⟨{ db := created twoNodes }, []⟩

/-- The execution up to where the second node is handed over. -/
def handedOver : Threads :=
  System.turns answer (Pool.enter atFirst (.execute 4)) (List.replicate 16 0)

/-- Then its worker, and the execution to its end. -/
def ended : Threads :=
  System.turns answer (Pool.enter handedOver (.worker "feature"))
    ([1, 1, 1, 1, 1] ++ List.replicate 7 0)

theorem run_ended : System.Run system atFirst ended := by
  have hfirst : System.Run system atFirst handedOver :=
    (run_enter atFirst fun _ h => by cases h).trans (System.run_turns performs_answer _ _)
  have hsubmitted : "feature" ∈ handedOver.state.submitted := by decide +kernel
  have hworker : System.Run system handedOver (Pool.enter handedOver (.worker "feature")) := by
    apply run_enter
    intro nodeId h
    exact Caller.worker.inj h ▸ hsubmitted
  exact (hfirst.trans hworker).trans (System.run_turns performs_answer _ _)

/-- The child of the second node was told the final result of the first. -/
theorem feature_informed :
    ended.state.launches.map (·.inputs.map fun input => (input.1, input.2.map (·.artifacts))) =
        [[("evidence", some ["opinion of evidence"])]] ∧
      ended.state.db.nodes.map (·.status) = [.completed, .completed] ∧
      ∀ n ∈ ended.state.db.nodes, n.status ≠ .pending ∨ 0 < n.attempt →
        ended.state.db.Done n.dependencies :=
  ⟨by decide +kernel, by decide +kernel, (dependencies_final compiles_twoNodes run_ended).1⟩

theorem recount_ended :
    ended.state.db.events.map (·.kind) = [.runCreated, .run .running, .node .running,
        .node .completed, .node .running, .node .completed, .run .awaitingHuman] ∧
      Recounts ended.state.db :=
  ⟨by decide +kernel, events_recount compiles_twoNodes run_ended⟩

end LogRisk.Agentic.Workflow
