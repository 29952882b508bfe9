import Shaka.Plan.ClaimMoves
import Shaka.Queue.Admission

namespace Shaka.Plan
open Shaka.Core Queue CheckedSteps

-- The way to `Approved` from a state in which a plan can be admitted.
def admissionWrites (key : PlanState → String) (now : Time) : PlanState → List Write
  | .draft => [.plan (key .proposed) .proposed now,.plan (key .validated) .validated now,
      .plan (key .approved) .approved now]
  | .proposed => [.plan (key .validated) .validated now,.plan (key .approved) .approved now]
  | .validated | .awaitingApproval => [.plan (key .approved) .approved now]
  | _ => []

def admissionKey : PlanState → String
  | .proposed => "admission:proposed"
  | .validated => "admission:validated"
  | _ => "admission:approved"

section Admission
variable {encoding : StoreEncoding} {tx : PlanTx} {principal : Principal} {envelope : TaskEnvelope}
  {reference : PlanTaskReference} {verifyNow now : Time}

@[simp] theorem admissionWrites_steps (key : PlanState → String) (v : View) (state : PlanState) :
    (v.writes (admissionWrites key now state)).steps = v.steps := by
  cases state <;> rfl

@[simp] theorem admissionWrites_attempts (key : PlanState → String) (v : View) (state : PlanState) :
    (v.writes (admissionWrites key now state)).attempts = v.attempts := by
  cases state <;> rfl

@[simp] theorem admissionWrites_overwrites (key : PlanState → String) (v : View) (state : PlanState) :
    (v.writes (admissionWrites key now state)).overwrites = v.overwrites := by
  cases state <;> rfl

theorem admissionWrites_plan {key : PlanState → String} {v : View} (admissible : isAdmissible v.plan = true) :
    (v.writes (admissionWrites key now v.plan)).plan = .approved := by
  cases state : v.plan <;> simp_all [isAdmissible,admissionWrites]

theorem appendWhen_writes {plan : PlanSpec} {origin target state : PlanState} {key : String} :
    Writes encoding tx (if state = origin then [.plan key target now] else [])
      (fun result tx' => result = (tx',if state = origin then target else state))
      (appendWhen encoding plan origin target key now tx state) := by
  unfold appendWhen
  split
  · exact Writes.last appendPlan_writes fun _ _ => .pure rfl
  · exact .pure rfl

-- What an admission has checked.
structure Verified (encoding : StoreEncoding) (rows : PlanRows) (principal : Principal)
    (envelope : TaskEnvelope) (reference : PlanTaskReference) (now : Time) : Prop where
  loaded : loadPlanTx encoding rows principal.tenantId reference = .ok (snapshotOf rows)
  taskId : rows.plan.taskId = envelope.taskId
  operatorId : rows.plan.operatorId = principal.operatorId
  mode : rows.plan.mode = .dryRun
  admissible : isAdmissible rows.state = true
  preflight : isExecutable encoding (snapshotOf rows)
    (preflightContext (loadApprovalsTx rows (snapshotOf rows)) now) = true

theorem verifyPlanAdmissionTx_ok {rows : PlanRows} {plan : PlanSpec} :
    verifyPlanAdmissionTx encoding rows principal envelope reference now = .ok plan ↔
      plan = snapshotOf rows ∧ Verified encoding rows principal envelope reference now := by
  simp only [verifyPlanAdmissionTx,bind_ok,require_ok,pure_ok,exists_const]
  constructor
  · rintro ⟨plan',loaded,⟨taskId,operatorId⟩,mode,admissible,preflight,rfl⟩
    obtain rfl := (loadPlanTx_ok.mp loaded).1
    exact ⟨rfl,loaded,taskId,operatorId,mode,admissible,preflight⟩
  · rintro ⟨rfl,loaded,taskId,operatorId,mode,admissible,preflight⟩
    exact ⟨_,loaded,⟨taskId,operatorId⟩,mode,admissible,preflight,rfl⟩

theorem verifyPlanAdmissionTx_keyless {rows : PlanRows} :
    Keyless (verifyPlanAdmissionTx encoding rows principal envelope reference now) := by
  unfold verifyPlanAdmissionTx
  exact .bind loadPlanTx_keyless fun _ => .bind (keyless_require.mpr (.inr (by simp))) fun _ =>
    .bind (keyless_require.mpr (.inr (by simp))) fun _ =>
        .bind (keyless_require.mpr (.inr (by simp))) fun _ =>
    .bind (keyless_require.mpr (.inr (by simp))) fun _ => keyless_pure

-- The way to `Approved`, one conditional append after the other.
theorem admissionWrites_appends (key : PlanState → String) (state : PlanState) :
    admissionWrites key now state = (if state = .draft then [.plan (key .proposed) .proposed now] else []) ++
      ((if (if state = .draft then .proposed else state) = .proposed
        then [.plan (key .validated) .validated now] else []) ++
      (if (if (if state = .draft then .proposed else state) = .proposed then .validated
          else if state = .draft then .proposed else state) = PlanState.validated ∨
        (if (if state = .draft then .proposed else state) = .proposed then .validated
          else if state = .draft then .proposed else state) = .awaitingApproval
        then [.plan (key .approved) .approved now] else [])) := by
  cases state <;> rfl

theorem recordPlanAdmissionTx_writes :
    Writes encoding tx (admissionWrites admissionKey now tx.rows.state)
      (fun result tx' => result.2 = tx' ∧ Verified encoding tx.rows principal envelope reference verifyNow)
      (recordPlanAdmissionTx encoding tx principal envelope reference verifyNow now) := by
  unfold recordPlanAdmissionTx
  refine .check verifyPlanAdmissionTx_keyless fun plan loaded => ?_
  obtain ⟨rfl,verified⟩ := verifyPlanAdmissionTx_ok.mp loaded
  rw [admissionWrites_appends]
  refine Writes.andThen appendWhen_writes fun _ proposed same ran => ?_
  subst same
  refine Writes.andThen appendWhen_writes fun _ validated same ran => ?_
  subst same
  refine Writes.last (WritesTx.stepIf fun _ => appendPlan_writes) fun approved _ => ?_
  exact Writes.last insertCheckpoint_writes fun _ _ => .pure ⟨rfl,verified⟩

end Admission

section Approval
variable {encoding : StoreEncoding} {tx : PlanTx} {approval : PlanApproval} {now : Time}

def approvalKey (id : String) : PlanState → String
  | .proposed => s!"approval:proposed:{id}"
  | .validated => s!"approval:validated:{id}"
  | .approved => s!"approval:approved:{id}"
  | _ => s!"approval:rejected:{id}"

-- What a decision writes to a plan in a given state.
def decisionWrites (encoding : Encoding) (approval : PlanApproval) (now : Time) (state : PlanState) :
    List Write :=
  let id := encoding.uuidText approval.approvalId
  match approval.decision with
  | .approved => if approval.stepId.isSome then [] else admissionWrites (approvalKey id) now state
  | .rejected => [.plan (approvalKey id .rejected) .rejected now]

def isUndecided : PlanState → Bool
  | .draft | .proposed | .validated | .awaitingApproval => true
  | _ => false

section Effect
variable {v : View} {encoding : Encoding} {approval : PlanApproval} {now : Time} {state : PlanState}

@[simp] theorem decisionWrites_steps :
    (v.writes (decisionWrites encoding approval now state)).steps = v.steps := by
  unfold decisionWrites
  split
  · split <;> simp
  · rfl

@[simp] theorem decisionWrites_overwrites :
    (v.writes (decisionWrites encoding approval now state)).overwrites = v.overwrites := by
  unfold decisionWrites
  split
  · split <;> simp
  · rfl

theorem decisionWrites_plan (undecided : isUndecided v.plan = true ∨ (approval.decision = .approved ∧
    approval.stepId.isSome)) : (v.writes (decisionWrites encoding approval now v.plan)).plan = v.plan ∨
      (v.writes (decisionWrites encoding approval now v.plan)).plan = .approved ∨
      (v.writes (decisionWrites encoding approval now v.plan)).plan = .rejected := by
  unfold decisionWrites
  cases approval.decision with
  | approved =>
    simp only
    split
    · exact .inl rfl
    · next whole =>
      have undecided := undecided.resolve_right fun both => whole both.2
      exact .inr (.inl (admissionWrites_plan
        (by cases state : v.plan <;> simp_all [isUndecided,isAdmissible])))
  | rejected => exact .inr (.inr rfl)

end Effect

theorem decideApprovalTx_writes :
    Writes encoding tx (decisionWrites encoding.toEncoding approval now tx.rows.state)
      (fun result tx' => result.2 = tx' ∧
        (isUndecided tx.rows.state = true ∨ (approval.decision = .approved ∧ approval.stepId.isSome)))
      (decideApprovalTx encoding tx (snapshotOf tx.rows) approval now) := by
  unfold decideApprovalTx decisionWrites
  cases approval.decision with
  | approved =>
    simp only
    split
    · next stepwise => exact .pure ⟨rfl,.inr ⟨trivial,stepwise⟩⟩
    rw [admissionWrites_appends]
    refine Writes.andThen appendWhen_writes fun _ proposed same ran => ?_
    subst same
    refine Writes.andThen appendWhen_writes fun _ validated same ran => ?_
    subst same
    refine .check (keyless_require.mpr (.inr (by simp))) fun _ awaiting => ?_
    rw [require_ok] at awaiting
    rw [if_pos awaiting]
    refine Writes.last appendPlan_writes fun approved _ => .pure ⟨rfl,.inl ?_⟩
    simp only at awaiting
    cases state : tx.rows.state <;> simp_all [isUndecided]
  | rejected =>
    refine .check (keyless_require.mpr (.inr (by simp))) fun _ undecided => ?_
    rw [require_ok,snapshotOf_state] at undecided
    refine Writes.last appendPlan_writes fun rejected _ => .pure ⟨rfl,.inl ?_⟩
    rcases undecided with state | state | state | state <;> rw [state] <;> rfl

end Approval

end Shaka.Plan
