import LogRisk.RiskSemantics.Service

/-!
# What the calls send

What every action that a call sends looks like, whatever the state that it finds.
-/

namespace LogRisk.RiskSemantics

open LogRisk.Library LogRisk.Library.Transaction

variable {host : Host} {id : String} {k : Caller}

/-- New content has been validated, and only `publish` publishes. -/
def Sent (host : Host) (k : Caller) : Action → Prop
  | .insert snapshot => snapshot.status = .draft ∧ checkRule host snapshot = .ok ()
  | .update id expected updated =>
      expected < updated.version ∧ updated.id = id ∧ checkRule host updated = .ok ()
  | .publish id _ => ∃ expected confirmed, k = .publish id expected confirmed
  | .seedBuiltins rules => ∀ rule ∈ rules, checkRule host rule = .ok ()
  | _ => True

theorem validateRule_ok {rule validated : Rule} (h : validateRule host rule = .ok validated) :
    validated = normalized rule ∧ checkRule host validated = .ok () := by
  unfold validateRule at h
  obtain ⟨_, hcheck, h⟩ := bind_eq_ok.mp h
  obtain rfl := pure_eq_ok.mp h
  exact ⟨rfl, hcheck⟩

theorem uses_getRule {only : Action → Prop} (hread : only (.getRule id)) :
    (Service.getRule id).Uses only := by
  refine Program.Uses.bind ((Program.uses_call _).mpr hread) fun row => ?_
  cases row with
  | none => exact Program.uses_throw _
  | some rule => exact Program.uses_pure _

theorem uses_insert {rule : Rule} (hdraft : rule.status = .draft) :
    (Service.insert host rule).Uses (Sent host k) := by
  unfold Service.insert
  split
  · exact Program.uses_throw _
  · rename_i snapshot hvalid
    obtain ⟨rfl, hcheck⟩ := validateRule_ok hvalid
    exact Program.Uses.bind ((Program.uses_call _).mpr ⟨hdraft, hcheck⟩) fun _ => uses_getRule trivial

theorem uses_updateRule (id : String) (changes : Changes) (expected : ℤ) :
    (Service.updateRule host id changes expected).Uses (Sent host k) := by
  unfold Service.updateRule
  refine Program.Uses.bind (uses_getRule trivial) fun current => ?_
  split
  · exact Program.uses_throw _
  split
  · exact Program.uses_throw _
  rename_i hversion
  split
  · exact Program.uses_throw _
  rename_i updated hvalid
  obtain ⟨rfl, hcheck⟩ := validateRule_ok hvalid
  have hlater : expected < (normalized (Service.nextVersion current changes id)).version := by
    change expected < if current.version + 1 = 0 then 1 else current.version + 1
    have hcurrent : current.version = expected := not_not.mp hversion
    split <;> omega
  exact Program.Uses.bind ((Program.uses_call _).mpr ⟨hlater, rfl, hcheck⟩) fun _ =>
    uses_getRule trivial

theorem uses_rollback (id : String) (target expected : ℤ) (confirmed : Bool) :
    (Service.rollback host id target expected confirmed).Uses (Sent host k) := by
  unfold Service.rollback
  split
  · exact Program.uses_throw _
  refine Program.Uses.bind (uses_getRule trivial) fun current => ?_
  split
  · exact Program.uses_throw _
  refine Program.Uses.bind (uses_getRule trivial) fun _ => ?_
  refine Program.Uses.bind ((Program.uses_call _).mpr trivial) fun content => ?_
  cases content with
  | none => exact Program.uses_throw _
  | some content => exact uses_updateRule _ _ _

theorem uses_restoreDefault (builtinId : String) (expected : ℤ) (confirmed : Bool) :
    (Service.restoreDefault builtinId expected confirmed).Uses (Sent host k) := by
  unfold Service.restoreDefault
  split
  · exact Program.uses_throw _
  refine Program.Uses.bind ((Program.uses_call _).mpr trivial) fun row => ?_
  cases row with
  | none => exact Program.uses_throw _
  | some id =>
      refine Program.Uses.bind (uses_getRule trivial) fun current => ?_
      split
      · exact Program.uses_throw _
      · exact Program.Uses.bind ((Program.uses_call _).mpr trivial) fun _ => uses_getRule trivial

theorem uses_disable (id : String) (expected : ℤ) (confirmed : Bool) :
    (Service.disable id expected confirmed).Uses (Sent host k) := by
  unfold Service.disable
  split
  · exact Program.uses_throw _
  refine Program.Uses.bind (uses_getRule trivial) fun current => ?_
  split
  · exact Program.uses_throw _
  split
  · exact Program.uses_throw _
  · exact Program.Uses.bind ((Program.uses_call _).mpr trivial) fun _ => uses_getRule trivial

theorem uses_delete (id : String) (confirmed : Bool) (operator reason : String) :
    (Service.delete id confirmed operator reason).Uses (Sent host k) := by
  refine Program.Uses.bind (uses_getRule trivial) fun current => ?_
  split
  · exact Program.uses_throw _
  split
  · exact Program.uses_throw _
  · exact Program.Uses.bind ((Program.uses_call _).mpr trivial) fun _ => Program.uses_pure _

theorem uses_publish (id : String) (expected : ℤ) (confirmed : Bool) :
    (Service.publish host id expected confirmed).Uses
      (Sent host (.publish id expected confirmed)) := by
  unfold Service.publish
  split
  · exact Program.uses_throw _
  refine Program.Uses.bind (uses_getRule trivial) fun current => ?_
  split
  · exact Program.uses_throw _
  split
  · exact Program.uses_throw _
  split
  · exact Program.uses_throw _
  · exact Program.Uses.bind ((Program.uses_call _).mpr ⟨expected, confirmed, rfl⟩) fun _ =>
      uses_getRule trivial

theorem uses_start (catalogue : List Rule) :
    (Service.start host catalogue).Uses (Sent host k) := by
  unfold Service.start
  split
  · exact Program.uses_throw _
  · rename_i rules hvalid
    refine (Program.uses_call _).mpr fun rule hrule => ?_
    obtain ⟨_, _, hrule⟩ := exists_of_mem_results (mapM_eq_ok.mp hvalid) hrule
    exact (validateRule_ok hrule).2

theorem uses_entry (k : Caller) : (entry host k).Uses (Sent host k) := by
  have hpure : ∀ {α : Type} {k : Caller} {p : Exec α}, p.Uses (Sent host k) →
      (p >>= fun _ => (pure () : Exec Unit)).Uses (Sent host k) :=
    fun h => h.bind fun _ => Program.uses_pure _
  cases k with
  | createRule payload => exact hpure (uses_insert rfl)
  | createOverride builtinId changes =>
      refine hpure (Program.Uses.bind (uses_getRule trivial) fun builtin => ?_)
      split
      · exact Program.uses_throw _
      · exact uses_insert rfl
  | importRule item => exact hpure (uses_insert rfl)
  | updateRule id changes expected => exact hpure (uses_updateRule id changes expected)
  | publish id expected confirmed => exact hpure (uses_publish id expected confirmed)
  | restoreDefault builtinId expected confirmed =>
      exact hpure (uses_restoreDefault builtinId expected confirmed)
  | rollback id target expected confirmed => exact hpure (uses_rollback id target expected confirmed)
  | disable id expected confirmed => exact hpure (uses_disable id expected confirmed)
  | delete id confirmed operator reason => exact uses_delete id confirmed operator reason
  | start catalogue => exact uses_start catalogue

end LogRisk.RiskSemantics
