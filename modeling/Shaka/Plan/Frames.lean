import Shaka.Plan.AdmissionMoves
import Shaka.Plan.RecoveryMoves

namespace Shaka.Plan
open Shaka.Core Queue CheckedSteps

-- Without any assumption on the stored rows, what the transactions write, one
-- write after the other. `may` tells which plan transitions out of `Unknown` there are.
inductive Reworks (encoding : StoreEncoding) (may : PlanState → String → Prop) : PlanRows → PlanRows → Prop
  | refl (rows : PlanRows) : Reworks encoding may rows rows
  | trans : Reworks encoding may first middle → Reworks encoding may middle last →
      Reworks encoding may first last
  | plan {tx tx' : PlanTx} : (origin = .unknown → may target key) →
      appendPlanTransitionTx encoding tx plan origin target key now = .ok tx' →
      Reworks encoding may tx.rows tx'.rows
  | step {tx tx' : PlanTx} : appendStepTransitionTx encoding tx plan stepId origin target key now = .ok tx' →
      Reworks encoding may tx.rows tx'.rows
  | recovery {tx tx' : PlanTx} : origin ≠ .plan .unknown →
      insertRecoveryTransitionTx encoding tx plan entity entityId origin target keyOf now = .ok tx' →
      Reworks encoding may tx.rows tx'.rows
  | checkpoints (rows : PlanRows) : Reworks encoding may rows {rows with checkpoints:=checkpoints}
  | attempt (rows : PlanRows) : Reworks encoding may rows (rows.updateStep stepId bumpAttempts)
  | overwritePlan (rows : PlanRows) : Reworks encoding may rows {rows with state:=.unknown}
  | overwriteStep (rows : PlanRows) : Reworks encoding may rows (rows.setStep stepId state)
  | counted (rows : PlanRows) :
      rows.rawOverwrites ≤ count → Reworks encoding may rows {rows with rawOverwrites:=count}

section Frames
variable {encoding : StoreEncoding} {may : PlanState → String → Prop} {tx tx' : PlanTx} {plan : PlanSpec}
  {task : TaskRecord} {now : Time} {rows rows' : PlanRows}

-- No transaction changes what a plan was saved with.
theorem Reworks.same (reworks : Reworks encoding may rows rows') : SameSpec rows rows' := by
  induction reworks with
  | refl rows => exact .refl rows
  | trans _ _ one two => exact one.trans two
  | plan _ ok | step ok => exact (Edit.append ok).same
  | recovery _ ok =>
    rw [(insertRecovery_appends ok).1]
    exact ⟨rfl,rfl,rfl,.refl _,fun _ => rfl,fun _ => rfl,rfl,Nat.le_refl _⟩
  | checkpoints rows | overwritePlan rows =>
    exact ⟨rfl,rfl,rfl,.refl _,fun _ => rfl,fun _ => rfl,rfl,Nat.le_refl _⟩
  | attempt rows => exact updateStep_same rows _ (fun _ => rfl) fun _ => rfl
  | overwriteStep rows => exact setStep_same rows _ _
  | counted rows more => exact ⟨rfl,rfl,rfl,.refl _,fun _ => rfl,fun _ => rfl,rfl,more⟩

-- What is added to a journal: no key twice, and no plan leaves `Unknown` but as it may.
structure Extends (may : PlanState → String → Prop) (journal journal' added : List PlanStoreTransition) :
    Prop where
  joined : journal' = journal ++ added
  keys : (journal.map (·.idempotencyKey)).Nodup → (journal'.map (·.idempotencyKey)).Nodup
  left : ∀ transition ∈ added, transition.fromState = .plan .unknown →
    ∃ target, transition.toState = .plan target ∧ may target transition.idempotencyKey

theorem Extends.none (same : journal' = journal) : Extends may journal journal' [] :=
  ⟨by rw [same,List.append_nil],by rw [same]; exact id,by simp⟩

theorem Extends.trans (early : Extends may journal journal' added)
    (late : Extends may journal' journal'' added') : Extends may journal journal'' (added ++ added') := by
  refine ⟨by rw [late.joined,early.joined,List.append_assoc],fun distinct =>
    late.keys (early.keys distinct),?_⟩
  intro transition listed
  rcases List.mem_append.mp listed with before | after
  · exact early.left transition before
  · exact late.left transition after

theorem Extends.one {transition : PlanStoreTransition} (joined : journal' = journal ++ [transition])
    (fresh : transition.idempotencyKey ∉ journal.map (·.idempotencyKey))
    (left : transition.fromState = .plan .unknown → ∃ target, transition.toState = .plan target ∧
      may target transition.idempotencyKey) : Extends may journal journal' [transition] := by
  refine ⟨joined,fun distinct => ?_,by simpa using left⟩
  rw [joined,List.map_append]
  refine List.nodup_append.mpr ⟨distinct,List.nodup_singleton _,fun key before other last => ?_⟩
  rintro rfl
  simp only [List.map_cons,List.map_nil,List.mem_singleton] at last
  exact fresh (last ▸ before)

theorem Reworks.extends (reworks : Reworks encoding may rows rows') :
    ∃ added, Extends may rows.transitions rows'.transitions added := by
  induction reworks with
  | refl rows => exact ⟨[],.none rfl⟩
  | trans _ _ one two =>
    obtain ⟨added,early⟩ := one
    obtain ⟨added',late⟩ := two
    exact ⟨added ++ added',early.trans late⟩
  | plan permitted ok =>
    obtain ⟨transition,_,_,origin,target,key,_,appending⟩ := appendTransitionTx_ok ok
    obtain ⟨rows,applied,same⟩ := appending.written
    refine ⟨[transition],.one ?_ appending.fresh fun unknown => ⟨_,target,?_⟩⟩
    · rw [same,← (applyTransitionTx_same applied).2.1]
    · rw [origin] at unknown
      rw [key]
      exact permitted (PlanTransitionState.plan.inj unknown)
  | step ok =>
    obtain ⟨transition,_,_,origin,_,_,_,appending⟩ := appendTransitionTx_ok ok
    obtain ⟨rows,applied,same⟩ := appending.written
    refine ⟨[transition],.one ?_ appending.fresh fun unknown => ?_⟩
    · rw [same,← (applyTransitionTx_same applied).2.1]
    · rw [origin] at unknown
      cases unknown
  | recovery other ok =>
    simp only [insertRecoveryTransitionTx,bind_ok,insertTransitionTx,require_ok,pure_ok,exists_const] at ok
    obtain ⟨transition,made,_,⟨_,_,fresh,rfl⟩,rfl⟩ := ok
    refine ⟨[transition],.one rfl fresh fun unknown => absurd unknown ?_⟩
    rw [transitionNew_material made]
    exact other
  | checkpoints | overwritePlan | counted => exact ⟨[],.none rfl⟩
  | attempt rows => exact ⟨[],.none (updateStep_transitions _)⟩
  | overwriteStep rows => exact ⟨[],.none (updateStep_transitions _)⟩

-- An approval that would let the whole plan through, were it still valid.
def Releases (row : PlanApprovalRow) : Prop := row.approval.decision = .approved ∧ row.approval.stepId = none

-- A plan that was decided on stays so, and no decision lets it through once more.
structure DecidedOnce (rows rows' : PlanRows) : Prop where
  state : isUndecided rows.state = false → isUndecided rows'.state = false
  approvals : isUndecided rows.state = false → ∀ row ∈ rows'.approvals, Releases row → row ∈ rows.approvals

theorem DecidedOnce.refl (rows : PlanRows) : DecidedOnce rows rows := ⟨id,fun _ _ stored _ => stored⟩

theorem DecidedOnce.trans {first middle last : PlanRows} (early : DecidedOnce first middle)
    (late : DecidedOnce middle last) : DecidedOnce first last :=
  ⟨fun decided => late.state (early.state decided),fun decided row stored releases =>
    early.approvals decided row (late.approvals (early.state decided) row stored releases) releases⟩

theorem isUndecided_stage (state : PlanState) : isUndecided state = false ↔ 4 ≤ stage state := by
  cases state <;> decide

theorem permits_decided {origin target : PlanState} (permitted : origin.permits target = true)
    (decided : isUndecided origin = false) : isUndecided target = false := by
  rw [isUndecided_stage] at decided ⊢
  exact decided.trans (stage_permits permitted).1

theorem applyTransitionTx_decided {transition : PlanStoreTransition}
    (applied : applyTransitionTx rows transition = .ok rows') (decided : isUndecided rows.state = false) :
    isUndecided rows'.state = false := by
  obtain ⟨target,_,_,_,permitted,rfl⟩ | ⟨stepId,_,target,_,_,_,_,_,_,rfl⟩ := applyTransitionTx_ok applied
  · exact permits_decided permitted decided
  · rwa [PlanRows.setStep,updateStep_state]

theorem appendTransitionTx_decided {entity : PlanTransitionEntity} {entityId : Option PlanStepId}
    {origin target : PlanTransitionState} {key : String}
    (ok : appendTransitionTx encoding tx plan entity entityId origin target key now = .ok tx')
    (decided : isUndecided tx.rows.state = false) : isUndecided tx'.rows.state = false := by
  obtain ⟨_,_,_,_,_,_,_,appending⟩ := appendTransitionTx_ok ok
  obtain ⟨rows,applied,same⟩ := appending.written
  have state := applyTransitionTx_decided applied decided
  rw [same]
  exact state

theorem Reworks.decidedOnce (reworks : Reworks encoding may rows rows') : DecidedOnce rows rows' := by
  refine ⟨fun decided => ?_,fun _ row stored _ => reworks.same.approvals ▸ stored⟩
  induction reworks with
  | refl | checkpoints | counted => exact decided
  | trans _ _ one two => exact two (one decided)
  | plan _ ok | step ok => exact appendTransitionTx_decided ok decided
  | recovery _ ok =>
    rw [(insertRecovery_appends ok).1]
    exact decided
  | attempt rows => rwa [updateStep_state]
  | overwritePlan => rfl
  | overwriteStep rows => rwa [PlanRows.setStep,updateStep_state]

theorem Reworks.leave {origin target : PlanState} {key : String} (other : origin ≠ .unknown)
    (ok : appendPlanTransitionTx encoding tx plan origin target key now = .ok tx') :
    Reworks encoding may tx.rows tx'.rows := .plan (fun unknown => absurd unknown other) ok

theorem insertCheckpoint_reworks {stepId : Option PlanStepId} {phase : PlanCheckpointPhase}
    {status : PlanCheckpointStatus} {digest : Option String}
    (ok : insertCheckpointTx tx stepId phase status digest now = .ok tx') :
    Reworks encoding may tx.rows tx'.rows := by
  rw [insertCheckpointTx_ok ok]
  exact .checkpoints _

theorem stepIf_reworks {condition : Prop} [Decidable condition] {action : Except QueueError PlanTx}
    (each : condition → action = .ok tx' → Reworks encoding may tx.rows tx'.rows)
    (ok : stepIf condition action tx = .ok tx') : Reworks encoding may tx.rows tx'.rows := by
  rcases stepIf_ok.mp ok with ⟨holds,ran⟩ | ⟨_,rfl⟩
  · exact each holds ran
  · exact .refl _

theorem foldEach_reworks {α : Type} {action : PlanTx → α → Except QueueError PlanTx} {items : List α}
    (each : ∀ middle item next, action middle item = .ok next → Reworks encoding may middle.rows next.rows)
    (ok : foldEach action tx items = .ok tx') : Reworks encoding may tx.rows tx'.rows :=
  foldEach_preserves (motive := fun reached => Reworks encoding may tx.rows reached.rows)
    (fun middle item next _ reworks ran => reworks.trans (each middle item next ran)) (.refl _) ok

theorem markPlanStateUnknownTx_reworks (ok : markPlanStateUnknownTx encoding tx plan now = .ok tx') :
    Reworks encoding may tx.rows tx'.rows := by
  unfold markPlanStateUnknownTx at ok
  split at ok
  · cases ok; exact .refl _
  next known =>
  split at ok
  · exact .leave known ok
  · cases ok
    have marked : Reworks encoding may tx.rows {tx.rows with state:=.unknown} := .overwritePlan tx.rows
    exact marked.trans (.counted _ (Nat.le_succ _))

theorem markNamedStepUnknownTx_reworks {stepId : Option PlanStepId}
    (ok : markNamedStepUnknownTx encoding tx plan stepId now = .ok tx') :
    Reworks encoding may tx.rows tx'.rows := by
  unfold markNamedStepUnknownTx markStepStateUnknownTx at ok
  split at ok
  · split at ok
    · cases ok; exact .refl _
    split at ok
    · cases ok; exact .refl _
    split at ok
    · exact .step ok
    · cases ok
      refine (Reworks.overwriteStep tx.rows).trans (.counted _ ?_)
      rw [PlanRows.setStep,updateStep_rawOverwrites]
      exact Nat.le_succ _
  · cases ok; exact .refl _

theorem markPlanUnknownTx_reworks {stepId : Option PlanStepId} {digest : Option String}
    (ok : markPlanUnknownTx encoding tx plan stepId digest now = .ok tx') :
    Reworks encoding may tx.rows tx'.rows := by
  simp only [markPlanUnknownTx,bind_ok] at ok
  obtain ⟨marked,planned,named,stepped,noted⟩ := ok
  exact ((markPlanStateUnknownTx_reworks planned).trans (markNamedStepUnknownTx_reworks stepped)).trans
    (insertCheckpoint_reworks noted)

theorem appendWhen_reworks {origin target state : PlanState} {key : String} {answer : PlanTx × PlanState}
    (other : origin ≠ .unknown) (ok : appendWhen encoding plan origin target key now tx state = .ok answer) :
    Reworks encoding may tx.rows answer.1.rows := by
  unfold appendWhen at ok
  split at ok
  · obtain ⟨appended,ran,done⟩ := bind_ok.mp ok
    cases done
    exact .leave other ran
  · cases ok
    exact .refl _

theorem recordPlanAdmissionTx_reworks {principal : Principal} {envelope : TaskEnvelope}
    {reference : PlanTaskReference} {verifyNow : Time} {answer : Option Uuid × PlanTx}
    (ok : recordPlanAdmissionTx encoding tx principal envelope reference verifyNow now = .ok answer) :
    Reworks encoding may tx.rows answer.2.rows := by
  simp only [recordPlanAdmissionTx,bind_ok,pure_ok] at ok
  obtain ⟨plan,_,⟨proposed,_⟩,first,⟨validated,state⟩,second,approved,third,noted,checkpoint,rfl⟩ := ok
  have before : Reworks encoding may tx.rows validated.rows :=
    (appendWhen_reworks (by simp) first).trans (appendWhen_reworks (by simp) second)
  refine (before.trans (stepIf_reworks (fun held ran => .leave ?_ ran) third)).trans
    (insertCheckpoint_reworks checkpoint)
  simp only at held
  rcases held with held | held <;> simp [held]

theorem decideApprovalTx_reworks {approval : PlanApproval} {answer : PlanApprovalOutcome × PlanTx}
    (ok : decideApprovalTx encoding tx plan approval now = .ok answer) :
    Reworks encoding may tx.rows answer.2.rows := by
  unfold decideApprovalTx at ok
  simp only at ok
  split at ok
  · split at ok
    · cases ok; exact .refl _
    · simp only [bind_ok,pure_ok,require_ok] at ok
      obtain ⟨⟨proposed,_⟩,first,⟨validated,state⟩,second,_,held,approved,third,rfl⟩ := ok
      have before : Reworks encoding may tx.rows validated.rows :=
        (appendWhen_reworks (by simp) first).trans (appendWhen_reworks (by simp) second)
      refine before.trans (.leave ?_ third)
      simp only at held
      rcases held with held | held <;> simp [held]
  · simp only [bind_ok,pure_ok,require_ok] at ok
    obtain ⟨_,held,rejected,ran,rfl⟩ := ok
    refine .leave ?_ ran
    rcases held with held | held | held | held <;> simp [held]

theorem bindStepTx_reworks {states : StepStates} {selected : PlanStep} {claimContext : PlanClaimContext}
    (ok : bindStepTx encoding tx plan states selected claimContext now = .ok tx') :
    Reworks encoding may tx.rows tx'.rows := by
  simp only [bindStepTx,bind_ok] at ok
  obtain ⟨started,first,_,_,_,_,_,_,readied,second,bound,third,noted⟩ := ok
  have before : Reworks encoding may tx.rows bound.rows :=
    ((stepIf_reworks (fun _ ran => .leave (by simp) ran) first).trans (stepIf_reworks (fun _ ran =>
      .step ran) second)).trans (.step third)
  exact (before.trans (.attempt bound.rows)).trans (insertCheckpoint_reworks noted)

theorem completeCompensationTx_reworks {stepId : PlanStepId} {result : Option String} {effect : FinishEffect}
    (ok : completeCompensationTx encoding tx plan stepId result now = .ok effect) :
    Reworks encoding may tx.rows effect.2.1.rows := by
  simp only [completeCompensationTx,bind_ok] at ok
  obtain ⟨completed,ran,noted,checkpoint,ok⟩ := ok
  have before : Reworks encoding may tx.rows noted.rows :=
    (foldEach_reworks (fun _ _ _ ran => .step ran) ran).trans
    (insertCheckpoint_reworks checkpoint)
  split at ok
  · obtain ⟨closed,ended,ok⟩ := bind_ok.mp ok
    cases ok
    exact before.trans (.leave (by simp) ended)
  · cases ok
    exact before

theorem finishSucceededTx_reworks {stepId : PlanStepId} {attempts : Nat} {report : FinishReport}
    {claimContext : PlanClaimContext} {effect : FinishEffect}
    (ok : finishSucceededTx encoding tx plan task stepId attempts report claimContext now = .ok effect) :
    Reworks encoding may tx.rows effect.2.1.rows := by
  simp only [finishSucceededTx,bind_ok] at ok
  obtain ⟨stepped,ran,noted,checkpoint,ok⟩ := ok
  have before : Reworks encoding may tx.rows noted.rows :=
    (Reworks.step ran).trans (insertCheckpoint_reworks checkpoint)
  split at ok
  · exact before.trans (completeCompensationTx_reworks ok)
  split at ok
  · obtain ⟨closed,ended,ok⟩ := bind_ok.mp ok
    cases ok
    exact before.trans (.leave (by simp) ended)
  · cases ok
    exact before

theorem finishFailedTx_reworks {stepId : PlanStepId} {attempts maxAttempts : Nat} {safeError : String}
    {report : FinishReport} {claimContext : PlanClaimContext} {effect : FinishEffect}
    (ok : finishFailedTx encoding tx plan task stepId attempts maxAttempts safeError report claimContext now =
      .ok effect) : Reworks encoding may tx.rows effect.2.1.rows := by
  simp only [finishFailedTx,bind_ok] at ok
  obtain ⟨stepped,ran,noted,checkpoint,ok⟩ := ok
  have before : Reworks encoding may tx.rows noted.rows :=
    (Reworks.step ran).trans (insertCheckpoint_reworks checkpoint)
  split at ok
  · obtain ⟨marked,ended,ok⟩ := bind_ok.mp ok
    cases ok
    exact before.trans (markPlanUnknownTx_reworks ended)
  split at ok
  · obtain ⟨readied,ended,ok⟩ := bind_ok.mp ok
    cases ok
    exact before.trans (.step ended)
  · obtain ⟨closed,ended,ok⟩ := bind_ok.mp ok
    cases ok
    exact before.trans (stepIf_reworks (fun _ ran => .leave (by simp) ran) ended)

theorem finishPlannedStepTx_reworks {reference : PlanTaskReference} {report : FinishReport}
    {claimContext : PlanClaimContext} {effect : FinishEffect}
    (ok : finishPlannedStepTx encoding tx task reference report claimContext now = .ok effect) :
    Reworks encoding may tx.rows effect.2.1.rows := by
  simp only [finishPlannedStepTx,bind_ok] at ok
  obtain ⟨plan,_,stepId,_,row,_,_,_,_,_,ok⟩ := ok
  split at ok
  · simp only [finishCancelledTx,bind_ok] at ok
    obtain ⟨marked,ended,ok⟩ := ok
    cases ok
    exact markPlanUnknownTx_reworks ended
  · obtain ⟨judgement,_,ok⟩ := bind_ok.mp ok
    split at ok
    · exact finishSucceededTx_reworks ok
    · exact finishFailedTx_reworks ok

theorem cancelPlannedTaskTx_reworks {reference : PlanTaskReference}
    (ok : cancelPlannedTaskTx encoding tx task reference now = .ok tx') :
    Reworks encoding may tx.rows tx'.rows := by
  simp only [cancelPlannedTaskTx,bind_ok] at ok
  obtain ⟨plan,_,_,known,ok⟩ := ok
  rw [require_ok] at known
  split at ok
  · simp only [bind_ok] at ok
    obtain ⟨requested,first,states,_,cancelled,second,third⟩ := ok
    exact ((stepIf_reworks (fun _ ran => .leave known.1 ran) first).trans
      (foldEach_reworks (fun _ _ _ ran => .step ran) second)).trans (stepIf_reworks (fun _ ran =>
        .leave (by simp) ran) third)
  · exact stepIf_reworks (fun _ ran => .leave (by simp) ran) ok

theorem recoverExpiredPlanLeaseTx_reworks {reference : PlanTaskReference} {update : TaskUpdate}
    (ok : recoverExpiredPlanLeaseTx encoding tx task reference now = .ok (tx',update)) :
    Reworks encoding may tx.rows tx'.rows := by
  simp only [recoverExpiredPlanLeaseTx,bind_ok] at ok
  obtain ⟨plan,_,marked,ended,ok⟩ := ok
  cases ok
  exact markPlanUnknownTx_reworks ended

theorem startSource_reworks {key : String} {source : CompensationSource} {middle : PlanTx}
    (ok : startSource encoding plan key now middle source = .ok tx') :
    Reworks encoding may middle.rows tx'.rows := by
  unfold startSource at ok
  split at ok
  · cases ok; exact .refl _
  · exact .step ok

theorem readyTarget_reworks {key : String} {states : StepStates} {target : PlanStepId} {middle : PlanTx}
    (ok : readyTarget encoding plan key now states middle target = .ok tx') :
    Reworks encoding may middle.rows tx'.rows := by
  unfold readyTarget at ok
  split at ok
  · split at ok
    · exact .step ok
    · cases ok; exact .refl _
  · cases ok; exact .refl _

-- A decision is what leads a plan out of `Unknown`, under its key.
theorem resolveDecisionTx_reworks {request : ResolutionRequest}
    (permitted : may request.decision.target request.idempotencyKey)
    (ok : resolveDecisionTx encoding tx plan request now = .ok tx') :
    Reworks encoding may tx.rows tx'.rows := by
  unfold resolveDecisionTx at ok
  split at ok
  · next decision =>
    simp only [resumeUnknownTx,bind_ok] at ok
    obtain ⟨states,_,readied,first,second⟩ := ok
    rw [decision] at permitted
    exact (foldEach_reworks (fun _ _ _ ran => .step ran) first).trans (.plan (fun _ => permitted) second)
  · next decision =>
    simp only [compensateUnknownTx,bind_ok] at ok
    obtain ⟨states,_,_,_,started,first,states',_,readied,second,third⟩ := ok
    rw [decision] at permitted
    exact ((foldEach_reworks (fun _ _ _ => startSource_reworks) first).trans
      (foldEach_reworks (fun _ _ _ => readyTarget_reworks) second)).trans (.plan (fun _ => permitted) third)
  · next decision =>
    simp only [cancelUnknownTx,bind_ok] at ok
    obtain ⟨states,_,_,_,cancelled,first,second⟩ := ok
    rw [decision] at permitted
    exact (foldEach_reworks (fun _ _ _ ran => .step ran) first).trans (.plan (fun _ => permitted) second)

theorem markUnknown_reworks (active : StepStates) (rows : PlanRows) :
    Reworks encoding may rows (markUnknown rows active) := by
  induction active generalizing rows with
  | nil => exact .refl _
  | cons entry rest ih => exact (Reworks.overwriteStep rows).trans (ih _)

theorem markUnknown_rawOverwrites (active : StepStates) (rows : PlanRows) :
    (markUnknown rows active).rawOverwrites = rows.rawOverwrites := by
  induction active generalizing rows with
  | nil => rfl
  | cons entry rest ih => exact (ih _).trans (updateStep_rawOverwrites _)

theorem overwriteUnknown_reworks (rows : PlanRows) : Reworks encoding may rows (overwriteUnknown rows) :=
  (Reworks.overwritePlan rows).trans (markUnknown_reworks (activeSteps rows.stepStates)
    {rows with state:=.unknown})

theorem recoverUnknownTx_reworks {state : PlanState} {active : StepStates}
    (ok : recoverUnknownTx encoding tx plan state active now = .ok tx') :
    Reworks encoding may tx.rows tx'.rows := by
  unfold recoverUnknownTx appendRecoveryTransitionsTx at ok
  split at ok
  · cases ok; exact .refl _
  · simp only [bind_ok,pure_ok] at ok
    obtain ⟨_,_,_,_,recovered,⟨planned,first,second⟩,rfl⟩ := ok
    have before : Reworks encoding may tx.rows recovered.rows :=
      (stepIf_reworks (fun known ran =>
        .recovery (fun same => known (PlanTransitionState.plan.inj same)) ran) first).trans
        (foldEach_reworks (fun _ _ _ ran => .recovery (by simp) ran) second)
    exact (before.trans (overwriteUnknown_reworks _)).trans (.checkpoints _)

theorem forceUnknownTx_reworks : Reworks encoding may tx.rows (forceUnknownTx tx now).rows := by
  have counted : Reworks encoding may tx.rows
      {overwriteUnknown tx.rows with rawOverwrites:=tx.rows.rawOverwrites + 1} := by
    refine (overwriteUnknown_reworks tx.rows).trans (.counted _ ?_)
    exact (markUnknown_rawOverwrites _ _).le.trans (Nat.le_succ _)
  simp only [forceUnknownTx]
  split
  · exact counted
  · exact counted.trans (.checkpoints _)

end Frames

end Shaka.Plan
