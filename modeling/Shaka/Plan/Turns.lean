import Shaka.Plan.Readiness

namespace Shaka.Plan
open Shaka.Core Queue CheckedSteps

variable {encoding : StoreEncoding} {tx : PlanTx} {rows rows' : PlanRows} {task : TaskRecord}
  {done : List PlanStepId} {x : PlanStepId} {step : PlanStep} {reference : PlanTaskReference}
  {claimContext : PlanClaimContext} {now : Time}

-- A plan that is worked off step by step: `done` have succeeded, each in its first
-- run, and the others wait.
structure Underway (encoding : StoreEncoding) (done : List PlanStepId) (rows : PlanRows) : Prop where
  wellFormed : Sealed encoding rows
  listed : rows.steps.keys.Perm rows.plan.stepIds
  state : rows.state = if done = [] then .approved else .running
  steps : ∀ x ∈ rows.plan.stepIds, rows.stepState x = some (if x ∈ done then .succeeded else .pending)
  attempts : ∀ x ∈ rows.plan.stepIds, rows.attemptsOf x = if x ∈ done then 1 else 0
  limits : ∀ x row, rows.steps.lookup x = some row → row.maxAttempts ≤ maxU32
  unused : ∀ x ∈ rows.plan.stepIds, x ∉ done → Unused encoding.toEncoding (view rows) (turnKeys x)
  unfinished : Unused encoding.toEncoding (view rows) [.plan .finishSucceeded]

theorem stepState_listed (listed : rows.steps.keys.Perm rows.plan.stepIds) {state : PlanStepState}
    (found : rows.stepState x = some state) : x ∈ rows.plan.stepIds := by
  obtain ⟨row,stored,_⟩ := Option.map_eq_some_iff.mp found
  refine listed.mem_iff.mp (AList.mem_keys.mp (AList.lookup_isSome.mp ?_))
  rw [stored]
  rfl

theorem Sealed.key (wellFormed : Sealed encoding rows) (listed : x ∈ rows.plan.stepIds) :
    validatePlanKey x.text "step_id" = .ok () := by
  obtain ⟨step,present,rfl⟩ := List.mem_map.mp listed
  exact validateStep_key ((validateStructure_steps wellFormed.structured).2.2 step present).1

theorem Sealed.statesLoaded (wellFormed : Sealed encoding rows)
    (listed : rows.steps.keys.Perm rows.plan.stepIds) :
    loadStepStatesTx rows = .ok rows.stepStates := by
  refine bind_ok.mpr ⟨(),checkEach_ok.mpr fun x present => liftCore_ok.mpr (wellFormed.key ?_),rfl⟩
  obtain ⟨state,found⟩ := Option.isSome_iff_exists.mp (mem_sortedStepIds.mp present)
  exact stepState_listed listed found

theorem Underway.startable (underway : Underway encoding done rows) (listed : x ∈ rows.plan.stepIds)
    (left : x ∉ done) : Startable encoding rows x where
  plan := by
    rw [underway.state]
    split
    · exact .inl rfl
    · exact .inr rfl
  pending := by rw [underway.steps x listed,if_neg left]
  unstarted := by rw [underway.attempts x listed,if_neg left]
  revision := (validateStructure_steps underway.wellFormed.structured).1
  plain := validatePlanKey_plain (underway.wellFormed.key listed)
  short := validatePlanKey_short (underway.wellFormed.key listed)
  unused := underway.unused x listed left

-- A claim finds a step whose dependencies are done while one is left.
theorem Underway.selects (underway : Underway encoding done rows) (approved : ApprovedAt rows now)
    (unconditional : ∀ step ∈ rows.plan.steps, step.preconditions = [])
    (left : ∃ x ∈ rows.plan.stepIds, x ∉ done) :
    ∃ step, selectStep encoding (snapshotOf rows) task rows.stepStates
      (loadApprovalsTx rows (snapshotOf rows)) claimContext now = some step := by
  obtain ⟨step,present,undone,ready⟩ := ready_step underway.wellFormed.structured left
  have listed : step.stepId ∈ rows.plan.stepIds := List.mem_map_of_mem present
  have needs := (validateStructure_steps underway.wellFormed.structured).2.2 step present
  have succeeded : ∀ dependency ∈ step.dependsOn, rows.stepState dependency = some .succeeded :=
    fun dependency needed => by
      rw [underway.steps dependency (needs.2 dependency needed),if_pos (ready dependency needed)]
  refine Option.isSome_iff_exists.mp (List.find?_isSome.mpr ⟨step,?_,?_⟩)
  · refine mem_stepCandidates.mpr ⟨present,.inr ?_,fun compensating => ?_⟩
    · rw [lookup_stepStates,underway.steps _ listed,if_neg undone]
    · rw [snapshotOf_state,underway.state] at compensating
      split at compensating <;> cases compensating
  · simp only [Bool.and_eq_true,List.all_eq_true,List.contains_iff_mem,mem_succeededSteps]
    exact ⟨succeeded,underway.wellFormed.stepReady approved present (unconditional step present) succeeded⟩

theorem Sealed.restated (wellFormed : Sealed encoding rows) (plan : rows'.plan = rows.plan)
    (open_ : rows'.state.isTerminal = false) : Sealed encoding rows' := by
  have same : snapshotOf rows' = {snapshotOf rows with state:=rows'.state} := by
    rw [snapshotOf,snapshotOf,plan]
  exact ⟨by rw [same]; exact wellFormed.structured,by
    rw [same]; exact verifyPlan_restated wellFormed.clean open_⟩

-- What a claim of `x` leaves: the plan runs, and `x` in it.
structure Claimed (encoding : StoreEncoding) (done : List PlanStepId) (x : PlanStepId) (claimAt : Time)
    (rows rows' : PlanRows) : Prop where
  underway : Underway encoding done rows
  present : x ∈ rows.plan.stepIds
  left : x ∉ done
  same : SameSpec rows rows'
  reached : view rows' = (view rows).writes (claimWrites encoding.toEncoding (view rows) x claimAt)

-- The claim binds that step.
theorem Underway.claims (underway : Underway encoding done tx.rows) (approved : ApprovedAt tx.rows now)
    (unconditional : ∀ step ∈ tx.rows.plan.steps, step.preconditions = [])
    (left : ∃ x ∈ tx.rows.plan.stepIds, x ∉ done)
    (loaded : loadPlanTx encoding tx.rows task.tenantId reference = .ok (snapshotOf tx.rows))
    (taskId : tx.rows.plan.taskId = task.taskId) (mode : tx.rows.plan.mode = .dryRun)
    (unbound : task.planStepId = none) (digest : SoundDigest claimContext.stateDigest) :
    ∃ step tx', preparePlannedClaimTx encoding tx task reference claimContext now = .ok (some (step,tx')) ∧
      step ∈ tx.rows.plan.steps ∧ (∀ dependency ∈ step.dependsOn, dependency ∈ done) ∧
      Claimed encoding done step.stepId now tx.rows tx'.rows := by
  obtain ⟨step,selected⟩ := @Underway.selects encoding tx.rows task done claimContext now underway approved
      unconditional left
  have claimable : isClaimable tx.rows.state = true := by
    rw [underway.state]
    split <;> rfl
  have granted : Granted encoding tx task reference claimContext now step :=
    ⟨loaded,taskId,mode,unbound,claimable,underway.wellFormed.statesLoaded underway.listed,
      underway.wellFormed.preflight approved,selected⟩
  obtain ⟨present,state,needs,_⟩ := granted.step
  have listed : step.stepId ∈ tx.rows.plan.stepIds := List.mem_map_of_mem present
  have undone : step.stepId ∉ done := by
    intro finished
    rw [underway.steps _ listed,if_pos finished] at state
    simp at state
  obtain ⟨tx',bound⟩ := @bindStepTx_done encoding tx now step claimContext
    (underway.startable listed undone).bindable digest
  have ran := bindStepTx_writes.ran bound
  refine ⟨step,tx',preparePlannedClaimTx_ok.mpr ⟨granted,bound⟩,present,fun dependency needed => ?_,
    underway,listed,undone,ran.edits.same,ran.reached⟩
  have succeeded := needs dependency needed
  rw [underway.steps _ (stepState_listed underway.listed succeeded)] at succeeded
  split at succeeded
  · assumption
  · simp at succeeded

section Claimed
variable {claimAt : Time} (claimed : Claimed encoding done x claimAt rows rows')
include claimed

theorem Claimed.state : rows'.state = .running := by
  rw [← view_plan,claimed.reached,claimWrites_plan,view_plan,claimed.underway.state]
  by_cases first : done = [] <;> simp [first]

theorem Claimed.steps (y : PlanStepId) :
    rows'.stepState y = if y = x then some .running else rows.stepState y := by
  rw [← view_steps,claimed.reached,claimWrites_steps,view_steps]

theorem Claimed.listed {now : Time} : (keysOf (claimWrites encoding.toEncoding (view rows) x claimAt ++
    [finishWrite encoding.toEncoding x now])).Sublist ((turnKeys x).map (·.text encoding.toEncoding)) :=
  turnWrites_listed (claimed.underway.startable claimed.present claimed.left).pending
    (claimed.underway.startable claimed.present claimed.left).unstarted

theorem Claimed.fresh {now : Time} :
    Fresh (view rows) (claimWrites encoding.toEncoding (view rows) x claimAt ++
    [finishWrite encoding.toEncoding x now]) := by
  obtain ⟨_,pending,unstarted,_,plain,_,unused⟩ := claimed.underway.startable claimed.present claimed.left
  exact turnWrites_fresh plain pending unstarted unused

theorem Claimed.attempts (y : PlanStepId) : rows'.attemptsOf y = if y = x then 1 else rows.attemptsOf y := by
  rw [← view_attempts,claimed.reached,claimWrites_attempts,view_attempts]
  split
  · next here => rw [here,(claimed.underway.startable claimed.present claimed.left).unstarted]
  · rfl

-- The whole turn leaves other keys unused, and so does its first half.
theorem Claimed.unused {now : Time} {keys : List StoreKey}
    (unused : Unused encoding.toEncoding (view rows) keys)
    (apart : ∀ a ∈ turnKeys x, ∀ b ∈ keys, a.text encoding.toEncoding ≠ b.text encoding.toEncoding) :
    Unused encoding.toEncoding ((view rows').writes [finishWrite encoding.toEncoding x now]) keys := by
  rw [claimed.reached,← writes_append]
  exact unused_writes unused claimed.listed apart

theorem Claimed.plain : Plain x := (claimed.underway.startable claimed.present claimed.left).plain

theorem Claimed.finishApart : ∀ a ∈ turnKeys x, ∀ b ∈ [StoreKey.plan .finishSucceeded],
    a.text encoding.toEncoding ≠ b.text encoding.toEncoding := by
  intro stored listed key among
  rw [List.mem_singleton.mp among]
  exact finishKey_apart claimed.plain stored listed

theorem Claimed.finishable : Finishable encoding rows' x where
  plan := claimed.state
  running := by rw [claimed.steps,if_pos rfl]
  revision := by
    rw [claimed.same.plan]
    exact (claimed.underway.startable claimed.present claimed.left).revision
  plain := claimed.plain
  short := (claimed.underway.startable claimed.present claimed.left).short
  unused := by
    rw [claimed.reached]
    exact (Fresh.append.mp (@Claimed.fresh _ _ _ _ _ _ claimed claimAt)).2.step
  unfinished := by
    refine Unused.earlier (@Claimed.unused _ _ _ _ _ _ claimed claimAt _ claimed.underway.unfinished ?_) _
      List.mem_cons_self
    exact claimed.finishApart

theorem Claimed.wellFormed : Sealed encoding rows' :=
  claimed.underway.wellFormed.restated claimed.same.plan (by rw [claimed.state]; rfl)

theorem Claimed.keys : rows'.steps.keys.Perm rows'.plan.stepIds := by
  rw [claimed.same.plan]
  exact claimed.same.keys.trans claimed.underway.listed

-- A successful finish of the claimed step takes the plan on.
theorem Claimed.next {now : Time} {final : PlanRows} (same : SameSpec rows' final)
    (reached : view final = (view rows').writes [finishWrite encoding.toEncoding x now]) :
    Underway encoding (done ++ [x]) final := by
  have whole := claimed.same.trans same
  have states : ∀ y, final.stepState y = if y = x then some .succeeded else rows.stepState y := by
    intro y
    rw [← view_steps,reached,writes_cons,writes_nil,finishWrite,write_step,view_steps,claimed.steps]
    split <;> rfl
  have attempts : ∀ y, final.attemptsOf y = if y = x then 1 else rows.attemptsOf y := by
    intro y
    rw [← view_attempts,reached,writes_cons,writes_nil,finishWrite,write_step_attempts,view_attempts,
      claimed.attempts]
  have state : final.state = .running := by
    rw [← view_plan,reached]
    exact claimed.state
  refine ⟨claimed.underway.wellFormed.restated whole.plan (by rw [state]; rfl),?_,?_,?_,?_,?_,?_,?_⟩
  · rw [whole.plan]
    exact whole.keys.trans claimed.underway.listed
  · rw [state,if_neg (by simp)]
  · intro y listed
    rw [whole.plan] at listed
    rw [states,claimed.underway.steps y listed]
    by_cases here : y = x <;> simp [here]
  · intro y listed
    rw [whole.plan] at listed
    rw [attempts,claimed.underway.attempts y listed]
    by_cases here : y = x <;> simp [here]
  · intro y row stored
    have limit := whole.limits y
    rw [stored] at limit
    obtain ⟨old,stored',same⟩ := Option.map_eq_some_iff.mp limit.symm
    exact le_of_eq_of_le same.symm (claimed.underway.limits y old stored')
  · intro y listed left
    rw [whole.plan] at listed
    simp only [List.mem_append,List.mem_singleton,not_or] at left
    rw [reached]
    refine claimed.unused (claimed.underway.unused y listed left.1) (turnKeys_disjoint claimed.plain ?_
      (Ne.symm left.2))
    exact validatePlanKey_plain (claimed.underway.wellFormed.key listed)
  · rw [reached]
    exact claimed.unused claimed.underway.unfinished claimed.finishApart

-- The finish of the claimed step is judged a success.
theorem Claimed.judged {tx : PlanTx} {step : PlanStep} {report : FinishReport} (stored : tx.rows = rows')
    (present : step ∈ rows.plan.steps) (named : step.stepId = x) (unconditional : step.postconditions = [])
    (success : report.error = none) :
    judgeStep encoding tx (snapshotOf tx.rows) task x report claimContext now = .ok none := by
  subst stored
  rw [← claimed.same.plan] at present
  have executable := @Sealed.postStep encoding tx.rows task now step claimContext claimed.wellFormed
      present unconditional
  rw [named] at executable
  unfold judgeStep
  rw [success]
  simp only [claimed.wellFormed.statesLoaded claimed.keys,ok_bind,executable,if_true]
  rfl

theorem Claimed.finishes {tx : PlanTx} {step : PlanStep} {report : FinishReport} (stored : tx.rows = rows')
    (present : step ∈ rows.plan.steps) (named : step.stepId = x) (unconditional : step.postconditions = [])
    (loaded : loadPlanTx encoding tx.rows task.tenantId reference = .ok (snapshotOf tx.rows))
    (bound : task.planStepId = some x)
    (unrequested : ¬ (task.cancelRequested = true ∨ task.status = .cancelRequested))
    (success : report.error = none) :
    finishPlannedStepTx encoding tx task reference report claimContext now =
      finishSucceededTx encoding tx (snapshotOf tx.rows) task x 1 report claimContext now := by
  subst stored
  have state := claimed.finishable.running
  obtain ⟨row,stored,running⟩ := Option.map_eq_some_iff.mp state
  have count : row.attempts = 1 := by
    have attempts := claimed.attempts x
    rwa [if_pos rfl,PlanRows.attemptsOf,stored] at attempts
  have limit : row.maxAttempts ≤ maxU32 := by
    have same := claimed.same.limits x
    rw [stored] at same
    obtain ⟨old,stored',equal⟩ := Option.map_eq_some_iff.mp same.symm
    exact le_of_eq_of_le equal.symm (claimed.underway.limits x old stored')
  unfold finishPlannedStepTx
  rw [loaded,ok_bind,bound,orFail,ok_bind,stored,orFail,ok_bind,require_pos _ ⟨by rw [count]; decide,
    limit⟩,ok_bind,require_pos _ (.inl running),ok_bind,if_neg unrequested,
    claimed.judged rfl present named unconditional success,ok_bind,count]

end Claimed

end Shaka.Plan
