import Shaka.Plan.AdmissionMoves

namespace Shaka.Plan
open Shaka.Core Queue CheckedSteps

-- The errors that only the queue itself reports, and no operation on a plan.
def ofQueue : QueueError → Bool
  | .leaseLost | .rateLimited _ => true
  | _ => false

section Reports
variable {encoding : StoreEncoding} {e : QueueError} (queue : ofQueue e = true)
include queue

theorem require_spares {p : Prop} [Decidable p] {error : QueueError} (other : ofQueue error = false) :
    require p error ≠ .error e := by
  intro failed
  obtain ⟨_,rfl⟩ := require_error.mp failed
  rw [other] at queue
  cases queue

theorem orFail_spares {α : Type} {value : Option α} {error : QueueError} (other : ofQueue error = false) :
    orFail value error ≠ .error e := by
  intro failed
  obtain ⟨_,rfl⟩ := orFail_error.mp failed
  rw [other] at queue
  cases queue

theorem liftCore_spares {α : Type} {result : Except CoreError α} : liftCore result ≠ .error e := by
  intro failed
  obtain ⟨_,_,rfl⟩ := liftCore_error.mp failed
  cases queue

theorem error_spares {α : Type} {error : QueueError} (other : ofQueue error = false) :
    (.error error : Except QueueError α) ≠ .error e := by
  rintro ⟨⟩
  rw [other] at queue
  cases queue

theorem appendTransitionTx_spares {tx : PlanTx} {plan : PlanSpec} {entity : PlanTransitionEntity}
    {entityId : Option PlanStepId} {origin target : PlanTransitionState} {key : String} {now : Time} :
    appendTransitionTx encoding tx plan entity entityId origin target key now ≠ .error e := by
  refine spares_bind ?_ fun transition _ => spares_bind ?_ fun rows _ => spares_bind ?_ fun rows _ => by simp
  · refine spares_bind (require_spares queue rfl) fun _ _ => spares_bind (require_spares queue rfl) fun _ _ =>
      spares_bind ?_ fun _ _ => by simp
    unfold validateTransitionShape
    split
    · simp
    · simp
    · exact error_spares queue rfl
  · unfold applyTransitionTx
    split
    · exact spares_bind (require_spares queue rfl) fun _ _ =>
        spares_bind (liftCore_spares queue) fun _ _ => by simp
    · exact spares_bind (orFail_spares queue rfl) fun _ _ => spares_bind (orFail_spares queue rfl) fun _ _ =>
        spares_bind (require_spares queue rfl) fun _ _ =>
          spares_bind (liftCore_spares queue) fun _ _ => by simp
    · exact error_spares queue rfl
  · exact spares_bind (require_spares queue rfl) fun _ _ =>
      spares_bind (require_spares queue rfl) fun _ _ => by simp

theorem insertCheckpointTx_spares {tx : PlanTx} {stepId : Option PlanStepId} {phase : PlanCheckpointPhase}
    {status : PlanCheckpointStatus} {stateDigest : Option String} {now : Time} :
    insertCheckpointTx tx stepId phase status stateDigest now ≠ .error e := by
  refine spares_bind ?_ fun _ _ => by simp
  cases stateDigest with
  | none => simp [checkOption]
  | some digest => exact require_spares queue rfl

theorem loadPlanTx_spares {rows : PlanRows} {tenantId : TenantId} {reference : PlanTaskReference} :
    loadPlanTx encoding rows tenantId reference ≠ .error e :=
  spares_bind (require_spares queue rfl) fun _ _ => spares_bind (require_spares queue rfl) fun _ _ =>
    spares_bind (require_spares queue rfl) fun _ _ => spares_bind (liftCore_spares queue) fun _ _ =>
    spares_bind (liftCore_spares queue) fun _ _ => by simp

theorem loadStepStatesTx_spares {rows : PlanRows} : loadStepStatesTx rows ≠ .error e := by
  refine spares_bind ?_ fun _ _ => by simp
  intro failed
  obtain ⟨stepId,_,stopped⟩ := checkEach_error failed
  exact liftCore_spares queue stopped

theorem reference_spares {planId : PlanId} {revision : Nat} {digest : String} :
    PlanTaskReference.new planId revision digest ≠ .error e :=
  spares_bind (require_spares queue rfl) fun _ _ => spares_bind (require_spares queue rfl) fun _ _ => by simp

theorem taskReference_spares {task : TaskRecord} : taskReference task ≠ .error e := by
  unfold taskReference
  split
  · exact reference_spares queue
  · exact error_spares queue rfl

theorem appendWhen_spares {plan : PlanSpec} {origin target : PlanState} {key : String} {now : Time}
    {tx : PlanTx} {state : PlanState} :
    appendWhen encoding plan origin target key now tx state ≠ .error e := by
  unfold appendWhen
  split
  · exact spares_bind (appendTransitionTx_spares queue) fun _ _ => by simp
  · simp

theorem recordPlanAdmissionTx_spares {tx : PlanTx} {principal : Principal} {envelope : TaskEnvelope}
    {reference : PlanTaskReference} {verifyNow now : Time} :
    recordPlanAdmissionTx encoding tx principal envelope reference verifyNow now ≠ .error e := by
  have verified : verifyPlanAdmissionTx encoding tx.rows principal envelope reference verifyNow ≠ .error e :=
    spares_bind (loadPlanTx_spares queue) fun _ _ => spares_bind (require_spares queue rfl) fun _ _ =>
      spares_bind (require_spares queue rfl) fun _ _ => spares_bind (require_spares queue rfl) fun _ _ =>
      spares_bind (require_spares queue rfl) fun _ _ => by simp
  exact spares_bind verified fun _ _ => spares_bind (appendWhen_spares queue) fun _ _ =>
    spares_bind (appendWhen_spares queue) fun _ _ =>
      spares_bind (stepIf_spares (appendTransitionTx_spares queue))
      fun _ _ => spares_bind (insertCheckpointTx_spares queue) fun _ _ => by simp

theorem loadTask_spares {s : QueueStore} {taskId : TaskId} {tenantId : TenantId} :
    loadTask encoding s taskId tenantId ≠ .error e := by
  refine spares_bind (orFail_spares queue rfl) fun row _ => spares_bind ?_ fun _ _ => by simp
  refine spares_bind (require_spares queue rfl) fun _ _ => spares_bind ?_ fun _ _ =>
    spares_bind (require_spares queue rfl)
    fun _ _ => spares_bind (require_spares queue rfl) fun _ _ =>
    spares_bind (require_spares queue rfl) fun _ _ =>
    spares_bind (require_spares queue rfl) fun _ _ => require_spares queue rfl
  cases row.planStepId with
  | none => simp [checkOption]
  | some stepId => exact liftCore_spares queue

end Reports

end Shaka.Plan
