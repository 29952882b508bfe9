import Shaka.Plan.Progress
import Shaka.Plan.StepOrder

namespace Shaka.Plan
open Shaka.Core Queue CheckedSteps

variable {encoding : StoreEncoding} {rows : PlanRows} {task : TaskRecord} {now : Time}

-- What the verifier makes of a plan without conditions.

-- The checks on a plan as a whole do not depend on how far it has come.
theorem verifyPlan_restated {verifier : PlanVerifier} {plan : PlanSpec} {state : PlanState}
    (clean : verifier.verifyPlan encoding.toEncoding plan = []) (open_ : state.isTerminal = false) :
    verifier.verifyPlan encoding.toEncoding {plan with state:=state} = [] := by
  simp only [PlanVerifier.verifyPlan,List.append_eq_nil_iff] at clean ⊢
  obtain ⟨⟨⟨digest,limit⟩,shape⟩,_⟩ := clean
  exact ⟨⟨⟨digest,limit⟩,shape⟩,by simp [open_]⟩

-- Where the plan needs an approval, one that is stored is valid for it.
def ApprovedAt (rows : PlanRows) (now : Time) : Prop :=
  rows.plan.requiredApproval = .none ∨ ∃ row ∈ rows.approvals, ValidApproval row.approval rows.plan now

theorem ValidApproval.restated {approval : PlanApproval} {plan : PlanSpec} (state : PlanState)
    (valid : ValidApproval approval plan now) : ValidApproval approval {plan with state:=state} now :=
  ⟨valid.decided,valid.unrevoked,valid.unexpired,valid.separated,valid.samePlan,valid.sameDigest,
    valid.sameRevision,valid.sameTenant,valid.isGlobal,valid.role,valid.level⟩

theorem ApprovedAt.loaded (approved : ApprovedAt rows now) : (snapshotOf rows).requiredApproval = .none ∨
    ∃ approval ∈ loadApprovalsTx rows (snapshotOf rows), ValidApproval approval (snapshotOf rows) now := by
  rcases approved with needless | ⟨row,stored,valid⟩
  · exact .inl needless
  · refine .inr ⟨row.approval,?_,ValidApproval.restated rows.state valid⟩
    simp only [loadApprovalsTx,List.mem_map,List.mem_insertionSort,List.mem_filter]
    exact ⟨row,⟨stored,by simp [snapshotOf,valid.sameTenant,valid.unrevoked]⟩,rfl⟩

-- A plan on which the checks of the whole plan have nothing to report.
structure Sealed (encoding : StoreEncoding) (rows : PlanRows) : Prop where
  structured : (snapshotOf rows).validateStructure = .ok ()
  clean : PlanVerifier.default.verifyPlan encoding.toEncoding (snapshotOf rows) = []

theorem Sealed.preflight (sealed_ : Sealed encoding rows) (approved : ApprovedAt rows now) :
    isExecutable encoding (snapshotOf rows) (preflightContext (loadApprovalsTx rows (snapshotOf rows)) now)
      = true :=
  verify_executable.mpr ⟨sealed_.structured,sealed_.clean,verifyPreflightApproval_clean.mpr approved.loaded⟩

theorem verifyStepApproval_clean {plan : PlanSpec} {step : PlanStep} {context : PlanVerificationContext}
    (listed : step ∈ plan.steps) (approved : plan.requiredApproval = .none ∨
      ∃ approval ∈ context.approvals, ValidApproval approval plan context.now) :
    verifyStepApproval plan step context = [] := by
  refine if_pos ?_
  rcases approved with needless | valid
  · exact .inl (le_antisymm (needless ▸ step_requiredApproval_le listed) (PlanApprovalRequirement.none_le _))
  · exact .inr (.inr (hasValidApproval_global.mpr valid))

theorem validateStep_key {step : PlanStep} {u : Unit} (valid : step.validate = .ok u) :
    validatePlanKey step.stepId.text "step_id" = .ok () := by
  obtain ⟨_,key,_⟩ := bind_ok.mp valid
  exact key

variable {step : PlanStep}

theorem Sealed.stepReady {claimContext : PlanClaimContext} (sealed_ : Sealed encoding rows)
    (approved : ApprovedAt rows now) (listed : step ∈ rows.plan.steps)
    (unconditional : step.preconditions = [])
    (ready : ∀ dependency ∈ step.dependsOn, rows.stepState dependency = some .succeeded) :
    isExecutable encoding (snapshotOf rows) (stepReadyContext task rows.stepStates
      (loadApprovalsTx rows (snapshotOf rows)) claimContext now step.stepId) = true := by
  refine verify_executable.mpr ⟨sealed_.structured,sealed_.clean,?_⟩
  have found := step?_listed (validateStructure_steps sealed_.structured).2.1 listed
  simp only [verifyPhase,stepReadyContext,withTargetStep,PlanVerificationContext.new,found,
    List.append_eq_nil_iff]
  refine ⟨⟨verifyDependencies_clean.mpr fun dependency needed =>
    mem_succeededSteps.mpr (ready dependency needed),?_⟩,
    verifyStepApproval_clean listed approved.loaded⟩
  rw [unconditional]
  exact verifyConditions_clean.mpr (by simp)

theorem Sealed.postStep {claimContext : PlanClaimContext} (sealed_ : Sealed encoding rows)
    (listed : step ∈ rows.plan.steps) (unconditional : step.postconditions = []) :
    isExecutable encoding (snapshotOf rows) (postStepContext task rows.stepStates
      (loadApprovalsTx rows (snapshotOf rows)) claimContext now step.stepId) = true := by
  refine verify_executable.mpr ⟨sealed_.structured,sealed_.clean,?_⟩
  have found := step?_listed (validateStructure_steps sealed_.structured).2.1 listed
  simp only [verifyPhase,postStepContext,withTargetStep,PlanVerificationContext.new,found]
  rw [unconditional]
  exact verifyConditions_clean.mpr (by simp)

end Shaka.Plan
