import Mathlib.Data.Countable.Basic
import Mathlib.Logic.Equiv.List
import Mathlib.Tactic.DeriveCountable
import Shaka.Store.Runs

namespace Shaka.Properties
open Shaka.Core Queue Store CheckedSteps

variable {encoding : Encoding} {plan other : PlanSpec} {steps steps' : List PlanStep}

-- The content of a plan: all but its state, its time of creation, its digest and
-- the order its steps are listed in.
structure SameContent (plan other : PlanSpec) : Prop where
  planId : other.planId = plan.planId
  taskId : other.taskId = plan.taskId
  tenantId : other.tenantId = plan.tenantId
  operatorId : other.operatorId = plan.operatorId
  revision : other.revision = plan.revision
  mode : other.mode = plan.mode
  risk : other.risk = plan.risk
  approval : other.approval = plan.approval
  budget : other.budget = plan.budget
  steps : other.steps.Perm plan.steps

-- The steps in the order of their identifiers, as the digest is taken of them.
def inOrder (steps : List PlanStep) : List PlanStep :=
  steps.insertionSort fun left right => PlanStepId.le left.stepId right.stepId

instance stepOrder_total : Std.Total fun left right : PlanStep => PlanStepId.le left.stepId right.stepId :=
  ⟨fun left right => le_total left.stepId.text right.stepId.text⟩

instance stepOrder_trans : IsTrans PlanStep fun left right => PlanStepId.le left.stepId right.stepId :=
  ⟨fun _ _ _ first second => @IsTrans.trans _ PlanStepId.le _ _ _ _ first second⟩

theorem inOrder_perm (steps : List PlanStep) : (inOrder steps).Perm steps := List.perm_insertionSort _ _

theorem inOrder_eq (distinct : (steps.map (·.stepId)).Nodup) :
    inOrder steps = inOrder steps' ↔ steps.Perm steps' := by
  constructor
  · intro same
    exact (inOrder_perm steps).symm.trans (same ▸ inOrder_perm steps')
  · intro perm
    have between : (inOrder steps).Perm (inOrder steps') :=
      (inOrder_perm steps).trans (perm.trans (inOrder_perm steps').symm)
    refine between.eq_of_pairwise (fun left right here there first second => ?_)
      (List.pairwise_insertionSort _ _) (List.pairwise_insertionSort _ _)
    have same : left.stepId = right.stepId := @antisymm _ PlanStepId.le _ _ _ first second
    exact List.inj_on_of_nodup_map distinct ((inOrder_perm steps).mem_iff.mp here)
      (perm.mem_iff.mpr ((inOrder_perm steps').mem_iff.mp there)) same

theorem validateStructure_distinct {u : Unit} (valid : plan.validateStructure = .ok u) :
    plan.stepIds.Nodup := by
  simp only [PlanSpec.validateStructure,bind_ok,require_ok,exists_const] at valid
  exact valid.2.2.2.2.2.2.1

-- Where neither the text of a plan nor its hash is shared, the digest of a plan binds
-- its content and nothing else.
theorem digest_binds (json : Function.Injective encoding.planJson)
    (hash : Function.Injective encoding.sha256Hex) (valid : plan.validateStructure = .ok ()) :
    (plan.calculateDigest encoding = other.calculateDigest encoding ↔ SameContent plan other) ∧
    ∀ steps, steps.Perm plan.steps →
      ({plan with steps:=steps} : PlanSpec).calculateDigest encoding = plan.calculateDigest encoding := by
  have distinct := validateStructure_distinct valid
  have binds : ∀ other : PlanSpec, plan.calculateDigest encoding = other.calculateDigest encoding ↔
      SameContent plan other := by
    intro other
    rw [PlanSpec.calculateDigest,PlanSpec.calculateDigest,hash.eq_iff,json.eq_iff]
    constructor
    · intro same
      injection same with planId taskId tenantId operatorId revision mode risk approval budget ordered
      exact ⟨planId.symm,taskId.symm,tenantId.symm,operatorId.symm,revision.symm,mode.symm,risk.symm,
        approval.symm,budget.symm,((inOrder_eq distinct).mp ordered).symm⟩
    · rintro ⟨planId,taskId,tenantId,operatorId,revision,mode,risk,approval,budget,perm⟩
      have ordered : inOrder plan.steps = inOrder other.steps := (inOrder_eq distinct).mpr perm.symm
      rw [planId,taskId,tenantId,operatorId,revision,mode,risk,approval,budget]
      exact congrArg (fun ordered =>
        ({plan with digest:="",state:=.draft,createdAt:=0,steps:=ordered} : PlanSpec)) ordered
  refine ⟨binds other,fun steps perm => ((binds _).mpr ?_).symm⟩
  exact ⟨rfl,rfl,rfl,rfl,rfl,rfl,rfl,rfl,rfl,perm⟩

-- Every plan has a text of its own, as there are countably many plans.
instance char_countable : Countable Char :=
  Function.Injective.countable fun (a b : Char) (same : a.toNat = b.toNat) => Char.toNat_inj.mp same

instance string_countable : Countable String :=
  Function.Injective.countable fun (a b : String) (same : a.toList = b.toList) => String.toList_inj.mp same

deriving instance Countable for TaskId, PlanId, TenantId, OperatorId, PlanStepId, PlanMode, PlanRisk,
  PlanApprovalRequirement, PlanState, ExecutionBudget, PlanTaskState, Capability, PlanCondition,
  PlanAction, PlanStep,PlanSpec

theorem planJson_exists : ∃ encoding : Encoding, Function.Injective encoding.planJson ∧
    Function.Injective encoding.sha256Hex := by
  obtain ⟨number,distinct⟩ := exists_injective_nat PlanSpec
  refine ⟨{trialEncoding.toEncoding with
    sha256Hex:=id
    planJson:=fun plan => String.ofList (List.replicate (number plan) '1')},fun plan other same =>
      ?_,fun _ _ => id⟩
  exact distinct (by simpa using congrArg String.length same)

def backwards : PlanSpec := trialPlan 7 [trialStep "b" ["a"] none,trialStep "a" [] none]

-- The steps in the other order have the same digest; another dependency has not.
theorem digest_binds_backwards : ∃ encoding : Encoding,
    ({backwards with steps:=backwards.steps.reverse} : PlanSpec).calculateDigest encoding =
      backwards.calculateDigest encoding ∧
    backwards.calculateDigest encoding ≠
      ({backwards with steps:=[trialStep "b" [] none,trialStep "a" [] none]} : PlanSpec).calculateDigest
        encoding := by
  obtain ⟨encoding,json,hash⟩ := planJson_exists
  have valid : backwards.validateStructure = .ok () := by decide +kernel
  refine ⟨encoding,?_,fun same => ?_⟩
  · exact (@digest_binds _ _ backwards json hash valid).2 _ (List.reverse_perm _)
  · have content := ((digest_binds json hash valid).1.mp same).steps
    exact absurd content (by decide)

end Shaka.Properties
