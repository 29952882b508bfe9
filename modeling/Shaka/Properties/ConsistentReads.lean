import Shaka.Properties.TornReads

namespace Shaka.Properties
open Shaka.Core Queue Plan Store CheckedSteps GuardedRuns

variable {encoding : StoreEncoding} {s : QueueStore} {view : Snapshots} {tenantId : TenantId}
  {planId : PlanId} {plan : PlanSpec}

def momentsRead (view : Snapshots) : List QueueStore :=
  [view.plan,view.state,view.transitions,view.checkpoints,view.steps]

-- The stored log of the plan leads to the stored states, and its checkpoints are in sequence.
def MomentConsistent (encoding : StoreEncoding) (s : QueueStore) (tenantId : TenantId) (planId : PlanId)
    (plan : PlanSpec) : Prop :=
  ∃ rows, loadReducerRows (.same s) (planId,plan.revision) tenantId = .ok rows ∧
    diagnose encoding plan rows = none

-- `resume_plan` takes the branch of `force_unknown`.
def Quarantines (encoding : StoreEncoding) (view : Snapshots) (tenantId : TenantId) (planId : PlanId) :
    Prop :=
  ∃ plan rows fault, readForResume encoding view tenantId planId = .ok (plan,rows) ∧
    resumeVerdict encoding plan rows = .quarantine fault

-- The state and the step states are the same where they are read as where the log is read.
def OneMoment (view : Snapshots) (tenantId : TenantId) (key : PlanKey) : Prop :=
  readPlanState view.state key tenantId = readPlanState view.transitions key tenantId ∧
    readStepStates view.steps key = readStepStates view.transitions key

theorem diagnose_split {rows : PlanReducerRows} : diagnose encoding plan rows = none ↔
    (∃ cursor, replayTransitions encoding plan rows.transitions = .ok cursor ∧
      cursor.state = ⟨rows.planState,rows.stepStates⟩) ∧
      checkCheckpointSequence rows.checkpoints = true := by
  unfold diagnose
  cases replayTransitions encoding plan rows.transitions with
  | error fault => simp
  | ok cursor => by_cases state : cursor.state = ⟨rows.planState,rows.stepStates⟩ <;> simp [state]

-- The reads of a consistent moment.
theorem loadReducerRows_moment {key : PlanKey} {rows : PlanReducerRows}
    (loaded : loadReducerRows (.same s) key tenantId = .ok rows) :
    readPlanState s key tenantId = .ok rows.planState ∧ readStepStates s key = .ok rows.stepStates ∧
      readTransitions s key = rows.transitions ∧ readCheckpoints s key = rows.checkpoints := by
  simp only [loadReducerRows,Snapshots.same,bind_ok,pure_ok] at loaded
  obtain ⟨state,read,steps,reads,rfl⟩ := loaded
  exact ⟨read,reads,rfl,rfl⟩

-- Each read answers, and the log replays: all that can differ is the states that it is compared with.
theorem consistent_diagnosed
    (consistent : ∀ s ∈ momentsRead view, MomentConsistent encoding s tenantId planId plan) :
    ∃ rows, loadReducerRows view (planId,plan.revision) tenantId = .ok rows ∧
      (diagnose encoding plan rows = none ↔ OneMoment view tenantId (planId,plan.revision)) := by
  obtain ⟨atState,loaded,_⟩ := consistent view.state (by simp [momentsRead])
  obtain ⟨atLog,loaded₁,replays⟩ := consistent view.transitions (by simp [momentsRead])
  obtain ⟨atCheckpoints,loaded₂,numbered⟩ := consistent view.checkpoints (by simp [momentsRead])
  obtain ⟨atSteps,loaded₃,_⟩ := consistent view.steps (by simp [momentsRead])
  obtain ⟨state,_⟩ := loadReducerRows_moment loaded
  obtain ⟨state',steps',log,_⟩ := loadReducerRows_moment loaded₁
  obtain ⟨_,_,_,checkpoints⟩ := loadReducerRows_moment loaded₂
  obtain ⟨_,steps,_⟩ := loadReducerRows_moment loaded₃
  obtain ⟨⟨cursor,replayed,reached⟩,_⟩ := diagnose_split.mp replays
  refine ⟨⟨atLog.transitions,atCheckpoints.checkpoints,atState.planState,atSteps.stepStates⟩,?_,?_⟩
  · simp only [loadReducerRows,state,steps,log,checkpoints,ok_bind]
    rfl
  · rw [diagnose_split,OneMoment,state,state',steps,steps',Except.ok.injEq,Except.ok.injEq]
    constructor
    · rintro ⟨⟨cursor',replayed',reached'⟩,_⟩
      obtain rfl := Except.ok.inj (replayed.symm.trans replayed')
      have same := reached.symm.trans reached'
      exact ⟨(congrArg ReducerState.plan same).symm,(congrArg ReducerState.steps same).symm⟩
    · rintro ⟨plans,steps⟩
      exact ⟨⟨cursor,replayed,by rw [reached,plans,steps]⟩,(diagnose_split.mp numbered).2⟩

-- Whatever other processes commit between the reads, as long as the plan is replay-consistent each time: the
-- plan is reported inconsistent, and is quarantined, exactly when the states are read at another moment of
-- its life than the log.
theorem reads_consistent (found : loadPlan encoding view.plan planId tenantId = .ok plan)
    (consistent : ∀ s ∈ momentsRead view, MomentConsistent encoding s tenantId planId plan) :
    (∃ report, inspectSnapshots encoding view tenantId planId = .ok report ∧
      (report.status ≠ .inconsistent ↔ OneMoment view tenantId (planId,plan.revision))) ∧
    (¬ Quarantines encoding view tenantId planId ↔ OneMoment view tenantId (planId,plan.revision)) := by
  obtain ⟨rows,loaded,sound⟩ := consistent_diagnosed consistent
  have read : readForResume encoding view tenantId planId = .ok (plan,rows) :=
    bind_ok.mpr ⟨_,found,bind_ok.mpr ⟨_,loaded,rfl⟩⟩
  constructor
  · refine ⟨_,bind_ok.mpr ⟨_,found,bind_ok.mpr ⟨_,loaded,rfl⟩⟩,?_⟩
    rw [← sound]
    cases diagnose encoding plan rows with
    | none => simp
    | some fault => simp
  · rw [← sound]
    constructor
    · intro never
      cases diagnosed : diagnose encoding plan rows with
      | none => rfl
      | some fault => exact absurd ⟨plan,rows,fault,read,by rw [resumeVerdict,diagnosed]⟩ never
    · rintro none ⟨_,_,fault,read',verdict⟩
      cases Except.ok.inj (read.symm.trans read')
      simp only [resumeVerdict,none] at verdict
      by_cases active : isActivePlan rows.planState = true ∨ activeSteps rows.stepStates ≠ []
      · rw [if_pos active] at verdict
        cases verdict
      · rw [if_neg active] at verdict
        cases verdict

-- A claim commits between the read of the state and that of the log.
theorem tornClaim_consistent :
    ∃ plan, loadPlan trialEncoding tornClaim.plan ⟨7⟩ trialAdmin.tenantId = .ok plan ∧
    (∀ s ∈ momentsRead tornClaim, MomentConsistent trialEncoding s trialAdmin.tenantId ⟨7⟩ plan) ∧
    ¬ OneMoment tornClaim trialAdmin.tenantId (⟨7⟩,plan.revision) := by
  have answered : ((loadPlan trialEncoding tornClaim.plan ⟨7⟩ trialAdmin.tenantId).toOption.map fun plan =>
      ((momentsRead tornClaim).all fun s =>
        ((loadReducerRows (.same s) (⟨7⟩,plan.revision) trialAdmin.tenantId).toOption.map fun rows =>
          diagnose trialEncoding plan rows) == some none,
        readPlanState tornClaim.state (⟨7⟩,plan.revision) trialAdmin.tenantId |>.toOption,
        readPlanState tornClaim.transitions (⟨7⟩,plan.revision) trialAdmin.tenantId |>.toOption)) =
      some (true,some .approved,some .running) := by decide +kernel
  obtain ⟨plan,found,parts⟩ := Option.map_eq_some_iff.mp answered
  simp only [Prod.mk.injEq] at parts
  obtain ⟨consistent,before,after⟩ := parts
  refine ⟨plan,toOption_ok found,fun s listed => ?_,fun one => ?_⟩
  · have same := eq_of_beq (List.all_eq_true.mp consistent s listed)
    obtain ⟨rows,loaded,none⟩ := Option.map_eq_some_iff.mp same
    exact ⟨rows,toOption_ok loaded,none⟩
  · rw [one.1,after] at before
    exact absurd before (by decide)

theorem reads_consistent_torn :
    ∃ report, inspectSnapshots trialEncoding tornClaim trialAdmin.tenantId ⟨7⟩ = .ok report ∧
    report.status = .inconsistent ∧ Quarantines trialEncoding tornClaim trialAdmin.tenantId ⟨7⟩ := by
  obtain ⟨plan,found,consistent,torn⟩ := tornClaim_consistent
  obtain ⟨⟨report,inspected,status⟩,quarantines⟩ := reads_consistent found consistent
  refine ⟨report,inspected,?_,?_⟩
  · by_contra other
    exact torn (status.mp other)
  · by_contra never
    exact torn (quarantines.mp never)

-- So a plan is taken for corrupt that is replay-consistent before and after the claim.
theorem reads_torn : ¬ ∀ (encoding : StoreEncoding) (view : Snapshots) (tenantId : TenantId)
    (planId : PlanId) (plan : PlanSpec)
    (report : PlanInspectionReport), ReadInOrder encoding view →
    loadPlan encoding view.plan planId tenantId = .ok plan →
    (∀ s ∈ momentsRead view, MomentConsistent encoding s tenantId planId plan) →
    inspectSnapshots encoding view tenantId planId = .ok report →
    report.status ≠ .inconsistent ∧ ¬ Quarantines encoding view tenantId planId := by
  intro all
  obtain ⟨plan,found,consistent,torn⟩ := tornClaim_consistent
  obtain ⟨rows,loaded,sound⟩ := consistent_diagnosed consistent
  have never := (all trialEncoding tornClaim trialAdmin.tenantId ⟨7⟩ plan _ tornClaim_reads found consistent
    (bind_ok.mpr ⟨_,found,bind_ok.mpr ⟨_,loaded,rfl⟩⟩)).2
  cases diagnosed : diagnose trialEncoding plan rows with
  | none => exact torn (sound.mp diagnosed)
  | some fault =>
    exact never ⟨plan,rows,fault,
      bind_ok.mpr ⟨_,found,bind_ok.mpr ⟨_,loaded,rfl⟩⟩,by rw [resumeVerdict,diagnosed]⟩

end Shaka.Properties
