import Shaka.Core.PlanSpec

namespace Shaka.Core
open CheckedSteps

inductive PlanVerificationPhase where
  | preflight
  | stepReady
  | postStep
  deriving DecidableEq, Repr

structure PlanVerificationContext where
  phase : PlanVerificationPhase
  targetStep : Option PlanStepId
  taskState : Option PlanTaskState
  succeededSteps : List PlanStepId
  grantedCapabilities : List Capability
  circuitClosed : Bool
  remainingBudget : ExecutionBudget
  artifacts : List (String × String)
  usedIdempotencyKeys : List String
  stateDigest : Option String
  approvals : List PlanApproval
  now : Time

-- `now` is the clock read by the constructor.
def PlanVerificationContext.new (phase : PlanVerificationPhase) (now : Time) : PlanVerificationContext :=
  ⟨phase,none,none,[],[],false,ExecutionBudget.default,[],[],none,[],now⟩

inductive PlanVerificationStatus where
  | valid
  | requiresApproval
  | invalid
  deriving DecidableEq, Repr

inductive PlanViolationCode where
  | structureInvalid
  | digestInvalid
  | planStateInvalid
  | limitExceeded
  | missingReference
  | dependencyNotSatisfied
  | conditionContextMissing
  | conditionUnsatisfied
  | approvalRequired
  deriving DecidableEq, Repr

structure PlanViolation where
  code : PlanViolationCode
  stepId : Option PlanStepId
  conditionIndex : Option Nat
  detail : String
  deriving DecidableEq, Repr

structure PlanVerificationReport where
  planId : PlanId
  planDigest : String
  phase : PlanVerificationPhase
  status : PlanVerificationStatus
  violations : List PlanViolation
  deriving DecidableEq, Repr

def PlanVerificationReport.isExecutable (report : PlanVerificationReport) : Bool :=
  report.status == .valid

def PlanVerificationReport.push (maxViolations : Nat) (report : PlanVerificationReport)
    (violation : PlanViolation) : PlanVerificationReport :=
  if report.violations.length < max maxViolations 1 then
    {report with violations:=report.violations ++ [violation]}
  else report

def PlanVerificationReport.pushEach (report : PlanVerificationReport) (maxViolations : Nat)
    (violations : List PlanViolation) : PlanVerificationReport :=
  violations.foldl (PlanVerificationReport.push maxViolations) report

def PlanVerificationReport.hasBlockingViolation (report : PlanVerificationReport) : Bool :=
  report.violations.any fun violation => violation.code != .approvalRequired

structure PlanVerifier where
  maxSteps : Nat
  maxDependenciesPerStep : Nat
  maxConditionsPerStep : Nat
  maxViolations : Nat

def PlanVerifier.default : PlanVerifier := ⟨128,32,64,64⟩

inductive ConditionResult where
  | satisfied
  | approvalRequired
  | missingContext
  | unsatisfied
  deriving DecidableEq, Repr

def ConditionResult.ofBool (holds : Bool) : ConditionResult :=
  if holds then .satisfied else .unsatisfied

def budgetAtLeast (available required : ExecutionBudget) : Bool :=
  available.maxSteps ≥ required.maxSteps && available.maxToolCalls ≥ required.maxToolCalls &&
  available.maxElapsedMs ≥ required.maxElapsedMs && available.maxCostMicrounits ≥ required.maxCostMicrounits

def safeErrorDetail : CoreError → String
  | .planInvalid detail | .planApprovalInvalid detail => String.ofList (detail.toList.take 160)
  | _ => "falha de validação do contrato do plano"

def hasValidApproval (plan : PlanSpec) (stepId : Option PlanStepId) (context : PlanVerificationContext) :
    Bool :=
  context.approvals.any fun approval => (approval.validateFor plan stepId context.now).isOk

def evaluateCondition (plan : PlanSpec) (condition : PlanCondition) (context : PlanVerificationContext) :
    ConditionResult :=
  match condition with
  | .taskStateIs state => match context.taskState with
    | none => .missingContext
    | some actual => .ofBool (actual == state)
  | .stepSucceeded stepId => .ofBool (context.succeededSteps.contains stepId)
  | .approvalExists stepId =>
    if hasValidApproval plan stepId context then .satisfied else .approvalRequired
  | .capabilityGranted capability => .ofBool (context.grantedCapabilities.contains capability)
  | .circuitClosed => .ofBool context.circuitClosed
  | .budgetRemainingAtLeast budget => .ofBool (budgetAtLeast context.remainingBudget budget)
  | .artifactDigestMatches artifact sha256 => match context.artifacts.lookup artifact with
    | none => .missingContext
    | some actual => .ofBool (actual == sha256)
  | .idempotencyKeyUnused keyRef => .ofBool (!context.usedIdempotencyKeys.contains keyRef)
  | .stateDigestMatches sha256 => match context.stateDigest with
    | none => .missingContext
    | some actual => .ofBool (actual == sha256)

-- The violations each check pushes, in the order in which it pushes them.

def conditionReference : PlanCondition → Option PlanStepId
  | .stepSucceeded stepId => some stepId
  | .approvalExists stepId => stepId
  | _ => none

def PlanVerifier.verifyStepShape (verifier : PlanVerifier) (plan : PlanSpec) (step : PlanStep) :
    List PlanViolation :=
  (if step.dependsOn.length > verifier.maxDependenciesPerStep then
    [⟨.limitExceeded,some step.stepId,none,"quantidade de dependências excede o limite"⟩] else []) ++
  (if step.preconditions.length > verifier.maxConditionsPerStep ∨
      step.postconditions.length > verifier.maxConditionsPerStep then
    [⟨.limitExceeded,some step.stepId,none,"quantidade de condições excede o limite"⟩] else []) ++
  (step.preconditions ++ step.postconditions).zipIdx.filterMap fun (condition,index) =>
    match conditionReference condition with
    | none => none
    | some referenced =>
      if referenced ∈ plan.stepIds then none
      else some ⟨.missingReference,some step.stepId,some index,"condição referencia etapa inexistente"⟩

def verifyPreflightApproval (plan : PlanSpec) (context : PlanVerificationContext) : List PlanViolation :=
  if plan.requiredApproval = .none ∨ hasValidApproval plan none context then []
  else [⟨.approvalRequired,none,none,"aprovação humana global ainda não foi comprovada"⟩]

def verifyDependencies (step : PlanStep) (context : PlanVerificationContext) : List PlanViolation :=
  step.dependsOn.filterMap fun dependency =>
    if dependency ∈ context.succeededSteps then none
    else some ⟨.dependencyNotSatisfied,some step.stepId,none,
      "dependência ainda não foi comprovada como concluída"⟩

def conditionViolation (plan : PlanSpec) (step : PlanStep) (context : PlanVerificationContext)
    (condition : PlanCondition) (index : Nat) : Option PlanViolation :=
  match evaluateCondition plan condition context with
  | .satisfied => none
  | .approvalRequired => some ⟨.approvalRequired,some step.stepId,some index,
      "condição de aprovação ainda não foi satisfeita"⟩
  | .missingContext => some ⟨.conditionContextMissing,some step.stepId,some index,
      "fato necessário não foi fornecido pelo host"⟩
  | .unsatisfied => some ⟨.conditionUnsatisfied,some step.stepId,some index,"condição não satisfeita"⟩

def verifyConditions (plan : PlanSpec) (step : PlanStep) (conditions : List PlanCondition)
    (context : PlanVerificationContext) : List PlanViolation :=
  conditions.zipIdx.filterMap fun (condition,index) => conditionViolation plan step context condition index

def verifyStepApproval (plan : PlanSpec) (step : PlanStep) (context : PlanVerificationContext) :
    List PlanViolation :=
  if step.requiredApproval = .none ∨ hasValidApproval plan (some step.stepId) context ∨
      hasValidApproval plan none context then []
  else [⟨.approvalRequired,some step.stepId,none,"aprovação humana da etapa ainda não foi comprovada"⟩]

-- The two phases about one step: the target must be given and belong to the plan.
def withTargetStep (plan : PlanSpec) (context : PlanVerificationContext) (absent : String)
    (checks : PlanStep → List PlanViolation) : List PlanViolation :=
  match context.targetStep with
  | none => [⟨.missingReference,none,none,absent⟩]
  | some stepId => match plan.step? stepId with
    | none => [⟨.missingReference,some stepId,none,"etapa alvo não existe no plano"⟩]
    | some step => checks step

def verifyPhase (plan : PlanSpec) (context : PlanVerificationContext) : List PlanViolation :=
  match context.phase with
  | .preflight => verifyPreflightApproval plan context
  | .stepReady => withTargetStep plan context "step-ready exige uma etapa alvo" fun step =>
      verifyDependencies step context ++ verifyConditions plan step step.preconditions context ++
      verifyStepApproval plan step context
  | .postStep => withTargetStep plan context "post-step exige uma etapa alvo" fun step =>
      verifyConditions plan step step.postconditions context

def PlanVerifier.verifyPlan (verifier : PlanVerifier) (encoding : Encoding) (plan : PlanSpec) :
    List PlanViolation :=
  (match plan.verifyDigest encoding with
    | .error error => [⟨.digestInvalid,none,none,safeErrorDetail error⟩]
    | .ok () => []) ++
  (if plan.steps.length > verifier.maxSteps then
    [⟨.limitExceeded,none,none,"quantidade de etapas excede o limite do verificador"⟩] else []) ++
  plan.steps.flatMap (verifier.verifyStepShape plan) ++
  (if plan.state.isTerminal then
    [⟨.planStateInvalid,none,none,"plano está em estado terminal"⟩] else [])

-- The status of a report after its last check.
def PlanVerificationReport.settle (report : PlanVerificationReport) : PlanVerificationReport :=
  if report.hasBlockingViolation then {report with status:=.invalid}
  else if report.violations.any fun violation => violation.code == .approvalRequired then
    {report with status:=.requiresApproval}
  else report

def PlanVerifier.verify (verifier : PlanVerifier) (encoding : Encoding) (plan : PlanSpec)
    (context : PlanVerificationContext) : PlanVerificationReport :=
  let report : PlanVerificationReport := ⟨plan.planId,plan.digest,context.phase,.valid,[]⟩
  match plan.validateStructure with
  | .error error =>
    {report.push verifier.maxViolations ⟨.structureInvalid,none,none,safeErrorDetail error⟩ with
      status:=.invalid}
  | .ok () =>
    let report := report.pushEach verifier.maxViolations (verifier.verifyPlan encoding plan)
    if report.hasBlockingViolation then {report with status:=.invalid}
    else (report.pushEach verifier.maxViolations (verifyPhase plan context)).settle

theorem push_status (report : PlanVerificationReport) :
    (report.push limit violation).status = report.status := by
  unfold PlanVerificationReport.push
  split <;> rfl

theorem pushEach_status (violations : List PlanViolation) (report : PlanVerificationReport) :
    (report.pushEach limit violations).status = report.status := by
  induction violations generalizing report with
  | nil => rfl
  | cons violation rest ih => exact (ih _).trans (push_status report)

-- The bound on retained violations is at least one, so it never hides the first one.
theorem push_retained (report : PlanVerificationReport) :
    (report.push limit violation).violations ≠ [] := by
  unfold PlanVerificationReport.push
  split
  · simp
  · next full =>
    intro empty
    rw [empty] at full
    exact full (Nat.lt_of_lt_of_le Nat.zero_lt_one (Nat.le_max_right _ _))

theorem pushEach_clean (violations : List PlanViolation) (report : PlanVerificationReport) :
    (report.pushEach limit violations).violations = [] ↔ report.violations = [] ∧ violations = [] := by
  induction violations generalizing report with
  | nil => simp [PlanVerificationReport.pushEach]
  | cons violation rest ih =>
    constructor
    · intro empty
      exact absurd ((ih (report.push limit violation)).mp empty).1 (push_retained report)
    · rintro ⟨_,absurdity⟩
      cases absurdity

theorem clean_not_blocking {report : PlanVerificationReport} (clean : report.violations = []) :
    report.hasBlockingViolation = false := by simp [PlanVerificationReport.hasBlockingViolation,clean]

theorem settle_executable (report : PlanVerificationReport) (fresh : report.status = .valid) :
    report.settle.isExecutable = true ↔ report.violations = [] := by
  unfold PlanVerificationReport.settle
  constructor
  · intro executable
    split at executable
    · simp [PlanVerificationReport.isExecutable] at executable
    · next unblocked =>
      split at executable
      · simp [PlanVerificationReport.isExecutable] at executable
      · next unapproved =>
        -- neither a blocking violation nor a missing approval is left
        by_contra present
        obtain ⟨violation,listed⟩ := List.exists_mem_of_ne_nil _ present
        by_cases approval : violation.code = .approvalRequired
        · exact unapproved (List.any_eq_true.mpr ⟨violation,listed,by simpa using approval⟩)
        · exact unblocked (List.any_eq_true.mpr ⟨violation,listed,by simpa using approval⟩)
  · intro clean
    rw [if_neg (by simp [clean_not_blocking clean]),if_neg (by simp [clean])]
    simp [PlanVerificationReport.isExecutable,fresh]

-- A plan is executable exactly when no check has anything to report.
theorem verify_executable {verifier : PlanVerifier} {encoding : Encoding} {plan : PlanSpec}
    {context : PlanVerificationContext} :
    (verifier.verify encoding plan context).isExecutable = true ↔
      plan.validateStructure = .ok () ∧ verifier.verifyPlan encoding plan = [] ∧
      verifyPhase plan context = [] := by
  unfold PlanVerifier.verify
  cases structured : plan.validateStructure with
  | error error => simp [PlanVerificationReport.isExecutable]
  | ok u =>
    have settled := settle_executable ((PlanVerificationReport.pushEach
      ⟨plan.planId,plan.digest,context.phase,.valid,[]⟩ verifier.maxViolations
      (verifier.verifyPlan encoding plan)).pushEach verifier.maxViolations (verifyPhase plan context))
      (by simp only [pushEach_status])
    simp only [pushEach_clean,true_and] at settled
    simp only [true_and]
    split
    · next blocked =>
      simp only [PlanVerificationReport.isExecutable,reduceCtorEq,beq_iff_eq,false_iff]
      rintro ⟨shapeClean,_⟩
      rw [clean_not_blocking (by simp [pushEach_clean,shapeClean])] at blocked
      cases blocked
    · exact settled

theorem verify_not_terminal {verifier : PlanVerifier} {encoding : Encoding} {plan : PlanSpec}
    (clean : verifier.verifyPlan encoding plan = []) : plan.state.isTerminal = false := by
  simp only [PlanVerifier.verifyPlan,List.append_eq_nil_iff] at clean
  cases terminal : plan.state.isTerminal with
  | false => rfl
  | true => simp [terminal] at clean

theorem hasValidApproval_global {plan : PlanSpec} {context : PlanVerificationContext} :
    hasValidApproval plan none context = true ↔
      ∃ approval ∈ context.approvals, ValidApproval approval plan context.now := by
  simp only [hasValidApproval,List.any_eq_true]
  refine exists_congr fun approval => and_congr_right fun _ => ?_
  cases checked : approval.validateFor plan none context.now with
  | ok u => simp [Except.isOk,Except.toBool,validateFor_global.mp checked]
  | error error =>
    simp only [Except.isOk,Except.toBool,Bool.false_eq_true,false_iff]
    intro valid
    rw [validateFor_global (u := ()) |>.mpr valid] at checked
    cases checked

-- The preflight check: either no approval is needed or a valid global one is there.
theorem verifyPreflightApproval_clean {plan : PlanSpec} {context : PlanVerificationContext} :
    verifyPreflightApproval plan context = [] ↔
      plan.requiredApproval = .none ∨
        ∃ approval ∈ context.approvals, ValidApproval approval plan context.now := by
  rw [← hasValidApproval_global]
  unfold verifyPreflightApproval
  split <;> simp_all

theorem verifyDependencies_clean {step : PlanStep} {context : PlanVerificationContext} :
    verifyDependencies step context = [] ↔ ∀ dependency ∈ step.dependsOn,
    dependency ∈ context.succeededSteps := by
  simp only [verifyDependencies,List.filterMap_eq_nil_iff]
  refine forall₂_congr fun dependency _ => ?_
  split <;> simp_all

theorem conditionViolation_none {plan : PlanSpec} {step : PlanStep} {context : PlanVerificationContext}
    {condition : PlanCondition} {index : Nat} :
    conditionViolation plan step context condition index = none ↔
      evaluateCondition plan condition context = .satisfied := by
  unfold conditionViolation
  split <;> simp_all

theorem verifyConditions_clean {plan : PlanSpec} {step : PlanStep} {conditions : List PlanCondition}
    {context : PlanVerificationContext} :
    verifyConditions plan step conditions context = [] ↔
      ∀ condition ∈ conditions, evaluateCondition plan condition context = .satisfied := by
  simp only [verifyConditions,List.filterMap_eq_nil_iff,conditionViolation_none]
  constructor
  · intro clean condition present
    obtain ⟨index,bound,rfl⟩ := List.mem_iff_getElem.mp present
    exact clean (conditions[index],index) (by simp [List.mem_zipIdx_iff_getElem?])
  · rintro satisfied ⟨condition,index⟩ present
    exact satisfied condition (List.fst_mem_of_mem_zipIdx present)

end Shaka.Core
