import Shaka.Store.Runs
import Shaka.Plan.Readiness
import Mathlib.Data.List.TakeWhile

namespace Shaka.Properties
open Shaka.Core Plan Store CheckedSteps

variable {verifier : PlanVerifier} {encoding : Encoding} {plan : PlanSpec} {context : PlanVerificationContext}

def Approved (plan : PlanSpec) (context : PlanVerificationContext) (stepId : Option PlanStepId) : Prop :=
  ∃ approval ∈ context.approvals, approval.validateFor plan stepId context.now = .ok ()

-- What a condition of a step asks of the facts that the host has given.
def Holds (plan : PlanSpec) (context : PlanVerificationContext) : PlanCondition → Prop
  | .taskStateIs state => context.taskState = some state
  | .stepSucceeded stepId => stepId ∈ context.succeededSteps
  | .approvalExists stepId => Approved plan context stepId
  | .capabilityGranted capability => capability ∈ context.grantedCapabilities
  | .circuitClosed => context.circuitClosed = true
  | .budgetRemainingAtLeast budget => budget.maxSteps ≤ context.remainingBudget.maxSteps ∧
      budget.maxToolCalls ≤ context.remainingBudget.maxToolCalls ∧
      budget.maxElapsedMs ≤ context.remainingBudget.maxElapsedMs ∧
      budget.maxCostMicrounits ≤ context.remainingBudget.maxCostMicrounits
  | .artifactDigestMatches artifact sha256 => context.artifacts.lookup artifact = some sha256
  | .idempotencyKeyUnused keyRef => keyRef ∉ context.usedIdempotencyKeys
  | .stateDigestMatches sha256 => context.stateDigest = some sha256

structure WithinLimits (verifier : PlanVerifier) (plan : PlanSpec) (step : PlanStep) : Prop where
  dependencies : step.dependsOn.length ≤ verifier.maxDependenciesPerStep
  preconditions : step.preconditions.length ≤ verifier.maxConditionsPerStep
  postconditions : step.postconditions.length ≤ verifier.maxConditionsPerStep
  references : ∀ condition ∈ step.preconditions ++ step.postconditions, ∀ referenced,
    conditionReference condition = some referenced → referenced ∈ plan.stepIds

def PhaseMet (plan : PlanSpec) (context : PlanVerificationContext) : Prop :=
  match context.phase with
  | .preflight => plan.requiredApproval ≠ .none → Approved plan context none
  | .stepReady => ∃ step ∈ plan.steps, context.targetStep = some step.stepId ∧
      (∀ dependency ∈ step.dependsOn, dependency ∈ context.succeededSteps) ∧
      (∀ condition ∈ step.preconditions, Holds plan context condition) ∧
      (step.requiredApproval ≠ .none → Approved plan context (some step.stepId) ∨ Approved plan context none)
  | .postStep => ∃ step ∈ plan.steps, context.targetStep = some step.stepId ∧
      ∀ condition ∈ step.postconditions, Holds plan context condition

-- What has to be so in every phase before the verifier may let a plan be executed.
structure Presentable (verifier : PlanVerifier) (encoding : Encoding) (plan : PlanSpec) : Prop where
  structured : plan.validateStructure = .ok ()
  digested : plan.digest = plan.calculateDigest encoding
  bounded : plan.steps.length ≤ verifier.maxSteps
  limited : ∀ step ∈ plan.steps, WithinLimits verifier plan step
  unfinished : plan.state.isTerminal = false

structure Verified (verifier : PlanVerifier) (encoding : Encoding) (plan : PlanSpec)
    (context : PlanVerificationContext) : Prop extends Presentable verifier encoding plan where
  phase : PhaseMet plan context

theorem hasValidApproval_exact {stepId : Option PlanStepId} :
    hasValidApproval plan stepId context = true ↔ Approved plan context stepId := by
  simp only [hasValidApproval,List.any_eq_true,Approved]
  refine exists_congr fun approval => and_congr_right fun _ => ?_
  cases approval.validateFor plan stepId context.now with
  | ok u => simp [Except.isOk,Except.toBool]
  | error error => simp [Except.isOk,Except.toBool]

theorem ofBool_satisfied {holds : Bool} : ConditionResult.ofBool holds = .satisfied ↔ holds = true := by
  cases holds <;> simp [ConditionResult.ofBool]

theorem evaluateCondition_exact {condition : PlanCondition} :
    evaluateCondition plan condition context = .satisfied ↔ Holds plan context condition := by
  cases condition with
  | taskStateIs state =>
    cases told : context.taskState <;> simp [evaluateCondition,Holds,told,ofBool_satisfied]
  | stepSucceeded stepId => simp [evaluateCondition,Holds,ofBool_satisfied]
  | approvalExists stepId =>
    rw [Holds,← hasValidApproval_exact]
    cases found : hasValidApproval plan stepId context <;> simp [evaluateCondition,found]
  | capabilityGranted capability => simp [evaluateCondition,Holds,ofBool_satisfied]
  | circuitClosed => simp [evaluateCondition,Holds,ofBool_satisfied]
  | budgetRemainingAtLeast budget => simp [evaluateCondition,Holds,ofBool_satisfied,budgetAtLeast,and_assoc]
  | artifactDigestMatches artifact sha256 =>
    cases told : context.artifacts.lookup artifact <;> simp [evaluateCondition,Holds,told,ofBool_satisfied]
  | idempotencyKeyUnused keyRef => simp [evaluateCondition,Holds,ofBool_satisfied]
  | stateDigestMatches sha256 =>
    cases told : context.stateDigest <;> simp [evaluateCondition,Holds,told,ofBool_satisfied]

theorem conditions_exact {step : PlanStep} {conditions : List PlanCondition} :
    verifyConditions plan step conditions context = [] ↔ ∀ condition ∈ conditions,
    Holds plan context condition :=
  verifyConditions_clean.trans (forall₂_congr fun _ _ => evaluateCondition_exact)

-- What is reported about a list of numbered items, when it is not the number that decides.
theorem reported_none {items : List α} {report : α × Nat → Option β} (absent : α → Prop)
    (decided : ∀ item index, report (item,index) = none ↔ absent item) :
    items.zipIdx.filterMap report = [] ↔ ∀ item ∈ items, absent item := by
  rw [List.filterMap_eq_nil_iff]
  constructor
  · intro silent item present
    obtain ⟨index,bound,rfl⟩ := List.mem_iff_getElem.mp present
    exact (decided _ index).mp (silent (items[index],index) (by simp [List.mem_zipIdx_iff_getElem?]))
  · rintro all ⟨item,index⟩ present
    exact (decided item index).mpr (all item (List.fst_mem_of_mem_zipIdx present))

theorem stepShape_exact {step : PlanStep} :
    verifier.verifyStepShape plan step = [] ↔ WithinLimits verifier plan step := by
  unfold PlanVerifier.verifyStepShape
  rw [List.append_eq_nil_iff,List.append_eq_nil_iff,reported_none
    fun condition => ∀ referenced, conditionReference condition = some referenced → referenced ∈ plan.stepIds]
  · constructor
    · rintro ⟨⟨dependencies,conditions⟩,references⟩
      simp only [ite_eq_right_iff,List.cons_ne_nil,imp_false,not_or,Nat.not_lt] at dependencies conditions
      exact ⟨dependencies,conditions.1,conditions.2,references⟩
    · intro within
      refine ⟨⟨if_neg (Nat.not_lt.mpr within.dependencies),if_neg ?_⟩,within.references⟩
      rintro (tooMany | tooMany)
      · exact Nat.not_lt.mpr within.preconditions tooMany
      · exact Nat.not_lt.mpr within.postconditions tooMany
  · intro condition index
    dsimp only
    split
    · next unreferring => simp [unreferring]
    · next referenced refers => by_cases known : referenced ∈ plan.stepIds <;> simp [refers,known]

theorem verifyPlan_exact : verifier.verifyPlan encoding plan = [] ↔
    plan.digest = plan.calculateDigest encoding ∧ plan.steps.length ≤ verifier.maxSteps ∧
    (∀ step ∈ plan.steps, WithinLimits verifier plan step) ∧ plan.state.isTerminal = false := by
  simp only [PlanVerifier.verifyPlan,List.append_eq_nil_iff,List.flatMap_eq_nil_iff,stepShape_exact,
    ite_eq_right_iff,List.cons_ne_nil,imp_false,Nat.not_lt,Bool.not_eq_true,and_assoc]
  refine and_congr_left fun _ => ?_
  cases checked : plan.verifyDigest encoding with
  | ok u => simp [require_ok.mp checked]
  | error error => simp [(require_error.mp checked).1]

-- The checks about a target step are silent when there is such a step and they find no fault in it.
theorem withTargetStep_clean {absent : String} {checks : PlanStep → List PlanViolation}
    (distinct : plan.stepIds.Nodup) : withTargetStep plan context absent checks = [] ↔
      ∃ step ∈ plan.steps, context.targetStep = some step.stepId ∧ checks step = [] := by
  unfold withTargetStep
  constructor
  · intro clean
    split at clean
    · cases clean
    next stepId target =>
    split at clean
    · cases clean
    next step found =>
    obtain rfl : step.stepId = stepId := by simpa using List.find?_some found
    exact ⟨step,List.mem_of_find?_eq_some found,target,clean⟩
  · rintro ⟨step,listed,target,clean⟩
    simp only [target,step?_listed distinct listed]
    exact clean

theorem phase_exact (distinct : plan.stepIds.Nodup) :
    verifyPhase plan context = [] ↔ PhaseMet plan context := by
  unfold verifyPhase PhaseMet
  cases context.phase with
  | preflight =>
    show verifyPreflightApproval plan context = [] ↔ _
    simp only [verifyPreflightApproval,hasValidApproval_exact,ite_eq_left_iff,List.cons_ne_nil,
      imp_false,not_not,or_iff_not_imp_left,ne_eq]
  | stepReady =>
    show withTargetStep plan context _ _ = [] ↔ _
    rw [withTargetStep_clean distinct]
    refine exists_congr fun step => and_congr_right fun _ => and_congr_right fun _ => ?_
    simp only [List.append_eq_nil_iff,verifyDependencies_clean,conditions_exact,verifyStepApproval,
      hasValidApproval_exact,ite_eq_left_iff,List.cons_ne_nil,imp_false,not_not,and_assoc]
    refine and_congr_right fun _ => and_congr_right fun _ => ?_
    rw [or_iff_not_imp_left]
  | postStep =>
    show withTargetStep plan context _ _ = [] ↔ _
    rw [withTargetStep_clean distinct]
    exact exists_congr fun step => and_congr_right fun _ => and_congr_right fun _ => conditions_exact

theorem presentable_iff : Presentable verifier encoding plan ↔
    plan.validateStructure = .ok () ∧ verifier.verifyPlan encoding plan = [] := by
  rw [verifyPlan_exact]
  constructor
  · intro presentable
    exact ⟨presentable.structured,presentable.digested,presentable.bounded,presentable.limited,
      presentable.unfinished⟩
  · rintro ⟨structured,digested,bounded,limited,unfinished⟩
    exact ⟨structured,digested,bounded,limited,unfinished⟩

theorem verified_iff : (verifier.verify encoding plan context).isExecutable = true ↔
    Verified verifier encoding plan context := by
  rw [verify_executable,← and_assoc,← presentable_iff]
  constructor
  · rintro ⟨presentable,phase⟩
    exact ⟨presentable,(phase_exact (validateStructure_steps presentable.structured).2.1).mp phase⟩
  · intro verified
    exact ⟨verified.toPresentable,
      (phase_exact (validateStructure_steps verified.structured).2.1).mpr verified.phase⟩

theorem verifier_sound_complete (verifier : PlanVerifier) (encoding : Encoding) (plan : PlanSpec)
    (context : PlanVerificationContext) :
    ((verifier.verify encoding plan context).isExecutable = true ↔ Verified verifier encoding plan context) ∧
    ∀ limit, (({verifier with maxViolations:=limit} : PlanVerifier).verify encoding plan
      context).isExecutable = (verifier.verify encoding plan context).isExecutable := by
  refine ⟨verified_iff,fun limit => Bool.eq_iff_iff.mpr ?_⟩
  -- nothing that has to be so depends on how many violations a report keeps
  rw [verified_iff,verified_iff]
  constructor
  · intro verified
    exact {verified with limited:=fun step listed => {verified.limited step listed with}}
  · intro verified
    exact {verified with limited:=fun step listed => {verified.limited step listed with}}

-- Every fault that the checks find, however many of them a report keeps.
def faults (verifier : PlanVerifier) (encoding : Encoding) (plan : PlanSpec)
    (context : PlanVerificationContext) : List PlanViolation :=
  match plan.validateStructure with
  | .error error => [⟨.structureInvalid,none,none,safeErrorDetail error⟩]
  | .ok () => verifier.verifyPlan encoding plan ++ verifyPhase plan context

def Blocking (violation : PlanViolation) : Bool := violation.code != .approvalRequired

-- The status that the faults of a plan call for.
structure Classified (status : PlanVerificationStatus) (faults : List PlanViolation) : Prop where
  invalid : status = .invalid ↔ ∃ fault ∈ faults, fault.code ≠ .approvalRequired
  requiresApproval : status = .requiresApproval ↔ faults ≠ [] ∧ ∀ fault ∈ faults,
    fault.code = .approvalRequired
  valid : status = .valid ↔ faults = []

def classOf (faults : List PlanViolation) : PlanVerificationStatus :=
  if faults.any Blocking then .invalid else if faults = [] then .valid else .requiresApproval

theorem classOf_invalid {faults : List PlanViolation} :
    classOf faults = .invalid ↔ ∃ fault ∈ faults, fault.code ≠ .approvalRequired := by
  simp only [classOf,List.any_eq_true,Blocking,bne_iff_ne]
  split
  · next blocked => simp [blocked]
  · next unblocked => split <;> simp [unblocked]

theorem classOf_valid {faults : List PlanViolation} : classOf faults = .valid ↔ faults = [] := by
  unfold classOf
  cases faults with
  | nil => simp
  | cons fault rest => split <;> simp

theorem classOf_classified (faults : List PlanViolation) : Classified (classOf faults) faults := by
  refine ⟨classOf_invalid,?_,classOf_valid⟩
  have third : classOf faults = .requiresApproval ↔ ¬ classOf faults = .valid ∧
      ¬ classOf faults = .invalid := by
    cases classOf faults <;> simp
  rw [third,classOf_valid,classOf_invalid]
  push Not
  rfl

-- A status is determined by the faults that it is right about.
theorem classified_iff {status : PlanVerificationStatus} {faults : List PlanViolation} :
    Classified status faults ↔ status = classOf faults := by
  have expected := classOf_classified faults
  constructor
  · intro right
    cases status with
    | valid => exact (expected.valid.mpr (right.valid.mp rfl)).symm
    | requiresApproval => exact (expected.requiresApproval.mpr (right.requiresApproval.mp rfl)).symm
    | invalid => exact (expected.invalid.mpr (right.invalid.mp rfl)).symm
  · rintro rfl
    exact expected

theorem take_any (p : α → Bool) (items : List α) (limit : Nat) :
    (items.take limit).any p = (items.any p && decide ((items.takeWhile fun item =>
      !p item).length < limit)) := by
  induction items generalizing limit with
  | nil => simp
  | cons item rest ih =>
    cases limit with
    | zero => simp
    | succ limit =>
      cases holds : p item with
      | true => simp [holds]
      | false => simp [holds,ih]

theorem pushEach_retained (violations : List PlanViolation) (report : PlanVerificationReport) (limit : Nat)
    (room : report.violations.length ≤ max limit 1) : (report.pushEach limit violations).violations =
      (report.violations ++ violations).take (max limit 1) := by
  induction violations generalizing report with
  | nil => simp [PlanVerificationReport.pushEach,List.take_of_length_le room]
  | cons violation rest ih =>
    show ((report.push limit violation).pushEach limit rest).violations = _
    unfold PlanVerificationReport.push
    split
    · next free =>
      rw [ih _ (by simpa using Nat.succ_le_of_lt free)]
      simp
    · next full =>
      have exact_ : report.violations.length = max limit 1 := by omega
      rw [ih _ room,List.take_append_of_le_length exact_.ge,List.take_append_of_le_length exact_.ge]

theorem settle_status (report : PlanVerificationReport) (fresh : report.status = .valid) :
    report.settle.status = classOf report.violations := by
  unfold PlanVerificationReport.settle classOf
  split
  · next blocked => exact (if_pos blocked).symm
  next unblocked =>
  rw [if_neg (show ¬ report.violations.any Blocking = true from unblocked)]
  split
  · next wanting =>
    rw [if_neg]
    rintro none
    simp [none] at wanting
  · next wanting =>
    rw [if_pos,fresh]
    -- what is left neither blocks nor wants an approval
    refine List.eq_nil_iff_forall_not_mem.mpr fun violation listed => ?_
    by_cases approval : violation.code = .approvalRequired
    · exact wanting (List.any_eq_true.mpr ⟨violation,listed,by simpa using approval⟩)
    · exact unblocked (List.any_eq_true.mpr ⟨violation,listed,by simpa using approval⟩)

theorem stepShape_blocking {step : PlanStep} :
    ∀ violation ∈ verifier.verifyStepShape plan step, Blocking violation = true := by
  intro violation listed
  simp only [PlanVerifier.verifyStepShape,List.mem_append,List.mem_filterMap] at listed
  rcases listed with (listed | listed) | ⟨⟨condition,index⟩,_,reported⟩
  · split at listed <;> simp_all [Blocking]
  · split at listed <;> simp_all [Blocking]
  · dsimp only at reported
    split at reported
    · cases reported
    · split at reported
      · cases reported
      · obtain rfl := Option.some.inj reported
        rfl

-- The checks that are made before any phase report nothing that an approval could cure.
theorem verifyPlan_blocking : ∀ violation ∈ verifier.verifyPlan encoding plan, Blocking violation = true := by
  intro violation listed
  simp only [PlanVerifier.verifyPlan,List.mem_append,List.mem_flatMap] at listed
  rcases listed with ((listed | listed) | ⟨step,_,listed⟩) | listed
  · split at listed <;> simp_all [Blocking]
  · split at listed <;> simp_all [Blocking]
  · exact stepShape_blocking violation listed
  · split at listed <;> simp_all [Blocking]

-- The status is the class of those faults that the report has kept.
theorem verify_status : (verifier.verify encoding plan context).status =
    classOf ((faults verifier encoding plan context).take (max verifier.maxViolations 1)) := by
  have capped : 1 ≤ max verifier.maxViolations 1 := Nat.le_max_right _ _
  unfold PlanVerifier.verify faults
  cases plan.validateStructure with
  | error error =>
    rw [List.take_of_length_le (show [_].length ≤ _ from capped)]
    rfl
  | ok u =>
    dsimp only
    have shaped := pushEach_retained (verifier.verifyPlan encoding plan)
      ⟨plan.planId,plan.digest,context.phase,.valid,[]⟩ verifier.maxViolations (Nat.zero_le _)
    rw [List.nil_append] at shaped
    cases found : verifier.verifyPlan encoding plan with
    | nil =>
      have phased := pushEach_retained (verifyPhase plan context)
        ⟨plan.planId,plan.digest,context.phase,.valid,[]⟩ verifier.maxViolations (Nat.zero_le _)
      rw [if_neg (by simp [PlanVerificationReport.pushEach,PlanVerificationReport.hasBlockingViolation]),
        settle_status _ (by simp only [pushEach_status])]
      exact congrArg classOf phased
    | cons first rest =>
      have blocks : Blocking first = true := verifyPlan_blocking first (found ▸ List.mem_cons_self)
      obtain ⟨room,fits⟩ := Nat.exists_eq_add_of_le' capped
      rw [found,fits] at shaped
      have blocked : (PlanVerificationReport.pushEach ⟨plan.planId,plan.digest,context.phase,.valid,[]⟩
          verifier.maxViolations (first :: rest)).hasBlockingViolation = true := by
        unfold PlanVerificationReport.hasBlockingViolation
        rw [shaped,List.take_succ_cons,List.any_cons]
        exact Bool.or_eq_true_iff.mpr (Or.inl blocks)
      rw [if_pos blocked]
      exact (classOf_invalid.mpr ⟨first,by rw [fits]; simp,by simpa [Blocking] using blocks⟩).symm

-- A condition that fails for want of a fact, and one that only wants an approval.

def Unmet (plan : PlanSpec) (context : PlanVerificationContext) (condition : PlanCondition) : Bool :=
  evaluateCondition plan condition context == .missingContext ||
  evaluateCondition plan condition context == .unsatisfied

def Awaiting (plan : PlanSpec) (context : PlanVerificationContext) (condition : PlanCondition) : Bool :=
  evaluateCondition plan condition context == .approvalRequired

-- The first condition that fails stands behind as many that only want an approval as a report holds.
def Crowded (limit : Nat) (plan : PlanSpec) (context : PlanVerificationContext)
    (conditions : List PlanCondition) :
    Prop :=
  (∃ condition ∈ conditions, Unmet plan context condition = true) ∧
  limit ≤ (conditions.takeWhile fun condition => !Unmet plan context condition).countP (Awaiting plan context)

def HidesFault (verifier : PlanVerifier) (encoding : Encoding) (plan : PlanSpec)
    (context : PlanVerificationContext) : Prop :=
  Presentable verifier encoding plan ∧
  match context.phase with
  | .preflight => False
  | .stepReady => ∃ step ∈ plan.steps, context.targetStep = some step.stepId ∧
      (∀ dependency ∈ step.dependsOn, dependency ∈ context.succeededSteps) ∧
      Crowded verifier.maxViolations plan context step.preconditions
  | .postStep => ∃ step ∈ plan.steps, context.targetStep = some step.stepId ∧
      Crowded verifier.maxViolations plan context step.postconditions

-- Some fault blocks, but none of the first `limit`.
def Hidden (limit : Nat) (faults : List PlanViolation) : Prop :=
  faults.any Blocking = true ∧ limit ≤ (faults.takeWhile fun fault => !Blocking fault).length

theorem hidden_iff {limit : Nat} {faults : List PlanViolation} (least : 1 ≤ limit) :
    classOf (faults.take limit) = classOf faults ↔ ¬ Hidden limit faults := by
  have kept : faults.take limit = [] ↔ faults = [] := by
    rw [List.take_eq_nil_iff]
    constructor
    · rintro (none | none)
      · omega
      · exact none
    · exact Or.inr
  simp only [classOf,take_any,kept,Hidden,Bool.and_eq_true,decide_eq_true_eq]
  by_cases blocked : faults.any Blocking = true
  · have present : faults ≠ [] := by rintro rfl; simp at blocked
    simp only [blocked,true_and,if_true,present,if_false,not_le]
    split <;> simp_all
  · simp [blocked]

theorem hidden_cons {limit : Nat} {fault : PlanViolation} {rest : List PlanViolation}
    (approval : Blocking fault = false) : Hidden limit (fault :: rest) ↔ Hidden (limit - 1) rest := by
  simp [Hidden,approval]

theorem hidden_blocking {limit : Nat} {fault : PlanViolation} {rest : List PlanViolation}
    (blocks : Blocking fault = true) : Hidden limit (fault :: rest) ↔ limit = 0 := by
  simp [Hidden,blocks]

theorem hidden_append {limit : Nat} {first rest : List PlanViolation}
    (approvals : ∀ fault ∈ rest, Blocking fault = false) :
    Hidden limit (first ++ rest) ↔ Hidden limit first := by
  have unblocked : rest.any Blocking = false := by simpa using approvals
  unfold Hidden
  rw [List.any_append,unblocked,Bool.or_false]
  refine and_congr_right fun blocked => ?_
  -- the first fault that blocks is among the first ones
  obtain ⟨fault,listed,blocks⟩ := List.any_eq_true.mp blocked
  rw [List.takeWhile_append,if_neg]
  intro whole
  have clean := List.takeWhile_eq_self_iff.mp ((List.takeWhile_prefix _).eq_of_length whole) fault listed
  simp [blocks] at clean

theorem conditions_hidden {step : PlanStep} {conditions : List PlanCondition} {limit start : Nat} :
    Hidden limit ((conditions.zipIdx start).filterMap fun (condition,index) =>
      conditionViolation plan step context condition index) ↔ Crowded limit plan context conditions := by
  induction conditions generalizing limit start with
  | nil => simp [Hidden,Crowded]
  | cons condition rest ih =>
    rw [List.zipIdx_cons,List.filterMap_cons]
    dsimp only
    cases evaluated : evaluateCondition plan condition context with
    | satisfied => simpa [conditionViolation,Crowded,Unmet,Awaiting,evaluated] using ih
    | approvalRequired =>
      rw [show conditionViolation plan step context condition start =
        some _ by rw [conditionViolation,evaluated]]
      exact (hidden_cons rfl).trans (ih.trans (by simp [Crowded,Unmet,Awaiting,evaluated]))
    | missingContext =>
      rw [show conditionViolation plan step context condition start =
        some _ by rw [conditionViolation,evaluated]]
      exact (hidden_blocking rfl).trans (by simp [Crowded,Unmet,evaluated])
    | unsatisfied =>
      rw [show conditionViolation plan step context condition start =
        some _ by rw [conditionViolation,evaluated]]
      exact (hidden_blocking rfl).trans (by simp [Crowded,Unmet,evaluated])

-- A fault that blocks and that every report holds hides no other.
theorem hidden_head {limit : Nat} {faults : List PlanViolation} (least : 1 ≤ limit) (present : faults ≠ [])
    (blocking : ∀ fault ∈ faults, Blocking fault = true) (rest : List PlanViolation) :
    ¬ Hidden limit (faults ++ rest) := by
  obtain ⟨fault,others,rfl⟩ := List.exists_cons_of_ne_nil present
  rw [List.cons_append,hidden_blocking (blocking fault List.mem_cons_self)]
  omega

theorem withTargetStep_hidden {limit : Nat} {absent : String} {checks : PlanStep → List PlanViolation}
    (least : 1 ≤ limit) (distinct : plan.stepIds.Nodup) :
    Hidden limit (withTargetStep plan context absent checks) ↔
      ∃ step ∈ plan.steps, context.targetStep = some step.stepId ∧ Hidden limit (checks step) := by
  unfold withTargetStep
  constructor
  · intro hidden
    split at hidden
    · exact absurd ((hidden_blocking rfl).mp hidden) (by omega)
    next stepId target =>
    split at hidden
    · exact absurd ((hidden_blocking rfl).mp hidden) (by omega)
    next step found =>
    obtain rfl : step.stepId = stepId := by simpa using List.find?_some found
    exact ⟨step,List.mem_of_find?_eq_some found,target,hidden⟩
  · rintro ⟨step,listed,target,hidden⟩
    simp only [target,step?_listed distinct listed]
    exact hidden

theorem dependencies_blocking {step : PlanStep} :
    ∀ violation ∈ verifyDependencies step context, Blocking violation = true := by
  intro violation listed
  obtain ⟨dependency,_,reported⟩ := List.mem_filterMap.mp listed
  split at reported
  · cases reported
  · obtain rfl := Option.some.inj reported
    rfl

theorem stepApproval_unblocking {step : PlanStep} :
    ∀ violation ∈ verifyStepApproval plan step context, Blocking violation = false := by
  intro violation listed
  unfold verifyStepApproval at listed
  split at listed <;> simp_all [Blocking]

theorem phase_hidden (least : 1 ≤ verifier.maxViolations) (presentable : Presentable verifier encoding plan) :
    Hidden verifier.maxViolations (verifyPhase plan context) ↔ HidesFault verifier encoding plan context := by
  have distinct := (validateStructure_steps presentable.structured).2.1
  unfold verifyPhase HidesFault
  rw [and_iff_right presentable]
  cases context.phase with
  | preflight =>
    show Hidden _ (verifyPreflightApproval plan context) ↔ False
    unfold verifyPreflightApproval
    split <;> simp [Hidden,Blocking]
  | stepReady =>
    show Hidden _ (withTargetStep plan context _ _) ↔ _
    rw [withTargetStep_hidden least distinct]
    refine exists_congr fun step => and_congr_right fun _ => and_congr_right fun _ => ?_
    rw [hidden_append stepApproval_unblocking,← conditions_hidden]
    by_cases succeeded : verifyDependencies step context = []
    · rw [succeeded,List.nil_append,and_iff_right (verifyDependencies_clean.mp succeeded)]
      exact Iff.rfl
    · constructor
      · intro hidden
        exact absurd hidden (hidden_head least succeeded dependencies_blocking _)
      · rintro ⟨clean,_⟩
        exact absurd (verifyDependencies_clean.mpr clean) succeeded
  | postStep =>
    show Hidden _ (withTargetStep plan context _ _) ↔ _
    rw [withTargetStep_hidden least distinct]
    exact exists_congr fun step => and_congr_right fun _ => and_congr_right fun _ => conditions_hidden

theorem faults_hidden (least : 1 ≤ verifier.maxViolations) :
    Hidden verifier.maxViolations (faults verifier encoding plan context) ↔
    HidesFault verifier encoding plan context := by
  unfold faults
  cases structured : plan.validateStructure with
  | error error =>
    constructor
    · intro hidden
      exact absurd ((hidden_blocking rfl).mp hidden) (by omega)
    · intro hides
      exact absurd hides.1.structured (by simp [structured])
  | ok u =>
    by_cases clean : verifier.verifyPlan encoding plan = []
    · dsimp only
      rw [clean,List.nil_append]
      exact phase_hidden least (presentable_iff.mpr ⟨structured,clean⟩)
    · constructor
      · intro hidden
        exact absurd hidden (hidden_head least clean verifyPlan_blocking _)
      · intro hides
        exact absurd (presentable_iff.mp hides.1).2 clean

theorem status_classified (least : 1 ≤ verifier.maxViolations) :
    Classified (verifier.verify encoding plan context).status (faults verifier encoding plan context) ↔
      ¬ HidesFault verifier encoding plan context := by
  rw [classified_iff,verify_status,Nat.max_eq_left least,hidden_iff least,faults_hidden least]

theorem status_cap_free (verifier : PlanVerifier) (encoding : Encoding) (plan : PlanSpec)
    (context : PlanVerificationContext) (other : Nat) (least : 1 ≤ verifier.maxViolations)
    (otherLeast : 1 ≤ other) :
    (({verifier with maxViolations:=other} : PlanVerifier).verify encoding plan context).status =
        (verifier.verify encoding plan context).status ∧
      Classified (verifier.verify encoding plan context).status (faults verifier encoding plan context) ↔
    ¬ HidesFault verifier encoding plan context ∧
      ¬ HidesFault {verifier with maxViolations:=other} encoding plan context := by
  rw [← status_classified least,← @status_classified {verifier with maxViolations:=other} _ _ _ otherLeast]
  -- the faults are the same under either bound
  have same : faults {verifier with maxViolations:=other} encoding plan context =
      faults verifier encoding plan context := rfl
  rw [same]
  constructor
  · rintro ⟨equal,right⟩
    exact ⟨right,equal ▸ right⟩
  · rintro ⟨right,otherRight⟩
    exact ⟨(classified_iff.mp otherRight).trans (classified_iff.mp right).symm,right⟩

-- A step with an approval that nobody has given and a breaker that is not closed: a
-- report of one violation asks for the approval and says nothing of the breaker.

def guardedStep : PlanStep :=
  {trialStep "a" [] none with preconditions:=[.approvalExists none,.circuitClosed]}

def guardedContext : PlanVerificationContext :=
  {PlanVerificationContext.new .stepReady 0 with targetStep:=some ⟨"a"⟩}

theorem status_cap_free_masked : ¬ ∀ (verifier : PlanVerifier) (encoding : Encoding) (plan : PlanSpec)
    (context : PlanVerificationContext) (other : Nat), 1 ≤ verifier.maxViolations → 1 ≤ other →
    (({verifier with maxViolations:=other} : PlanVerifier).verify encoding plan context).status =
      (verifier.verify encoding plan context).status := by
  intro free
  have same := free .default trialEncoding.toEncoding (trialPlan 7 [guardedStep]) guardedContext 1
      (by decide) (by decide)
  have evaluated : (PlanVerifier.verify {PlanVerifier.default with maxViolations:=1} trialEncoding.toEncoding
      (trialPlan 7 [guardedStep]) guardedContext).status = .requiresApproval := by decide +kernel
  have whole : (PlanVerifier.default.verify trialEncoding.toEncoding
      (trialPlan 7 [guardedStep]) guardedContext).status = .invalid := by decide +kernel
  rw [evaluated,whole] at same
  cases same

theorem status_cap_free_plain :
    (PlanVerifier.verify {PlanVerifier.default with maxViolations:=1} trialEncoding.toEncoding
      (trialPlan 7 [guardedStep])
      {guardedContext with circuitClosed:=true}).status = .requiresApproval := by
  have plain : ¬ ∃ condition ∈ guardedStep.preconditions,
      Unmet (trialPlan 7 [guardedStep]) {guardedContext with circuitClosed:=true} condition =
        true := by decide +kernel
  have unhidden :
      ∀ limit, ¬ HidesFault {PlanVerifier.default with maxViolations:=limit} trialEncoding.toEncoding
      (trialPlan 7 [guardedStep]) {guardedContext with circuitClosed:=true} := by
    rintro limit ⟨_,step,listed,_,_,crowded⟩
    obtain rfl := List.mem_singleton.mp listed
    exact plain crowded.1
  have free := (status_cap_free .default trialEncoding.toEncoding (trialPlan 7 [guardedStep])
    {guardedContext with circuitClosed:=true} 1 (by decide) (by decide)).mpr ⟨unhidden 64,unhidden 1⟩
  exact free.1.trans (by decide +kernel)

end Shaka.Properties
