import Shaka.Store.Turns

namespace Shaka.Properties
open Shaka.Core Queue Plan Store CheckedSteps Precedence

-- One turn of a worker: a claim, and the end of its lease with what it hands out.
structure Turn where
  claimAt : Time
  leaseFor : Time
  claimContext : PlanClaimContext
  finishAt : Time
  report : FinishReport
  finishContext : PlanClaimContext

-- Each turn starts after the one before has ended, and ends before its lease does.
inductive Timely : Time → List Turn → Prop
  | nil : Timely since []
  | cons : since ≤ turn.claimAt → turn.claimAt ≤ turn.finishAt →
      turn.finishAt < turn.claimAt + turn.leaseFor → Timely turn.finishAt rest → Timely since (turn :: rest)

-- The run of a step succeeds, and what it reports of the state is a digest.
structure Successful (turn : Turn) : Prop where
  success : turn.report.error = none
  claimDigest : SoundDigest turn.claimContext.stateDigest
  finishDigest : SoundDigest turn.finishContext.stateDigest

-- Turns taken at one task, with the steps that they run.
inductive Turns (encoding : StoreEncoding) (taskId : TaskId) :
    QueueStore → List Turn → List PlanStepId → QueueStore → Prop
  | none : Turns encoding taskId s [] [] s
  | one : claimNextWithPlanContext encoding s turn.claimAt turn.leaseFor turn.claimContext =
      .ok (some claimed,middle) →
      claimed.taskId = taskId → claimed.planStepId = some x → claimed.leaseToken = some token →
      finishTaskWithLeaseToken encoding middle taskId claimed.tenantId token turn.report turn.finishAt
        turn.finishContext = .ok (outcome,next) →
      Turns encoding taskId next rest order s' → Turns encoding taskId s (turn :: rest) (x :: order) s'

-- The plan and its task when every step has been run.
def Completed (s : QueueStore) (taskId : TaskId) (plan : PlanSpec) : Prop :=
  ∃ task rows, s.tasks.lookup taskId = some task ∧ task.status = .succeeded ∧
    s.plans.lookup (plan.planId,plan.revision) = some rows ∧ rows.state = .succeeded ∧
    ∀ x ∈ plan.stepIds, rows.stepState x = some .succeeded ∧ rows.attemptsOf x = 1

variable {encoding : StoreEncoding} {s s' : QueueStore} {task : TaskRecord} {rows : PlanRows}
  {done : List PlanStepId} {since now : Time}

-- A submission that takes a plan to its work.

theorem recordPlanAdmissionTx_digest {tx : PlanTx} {principal : Principal} {envelope : TaskEnvelope}
    {reference : PlanTaskReference} {verifyNow : Time} {answer : Option Uuid × PlanTx}
    (ok : recordPlanAdmissionTx encoding tx principal envelope reference verifyNow now = .ok answer) :
    isSha256Text tx.rows.plan.digest = true := by
  simp only [recordPlanAdmissionTx,bind_ok] at ok
  obtain ⟨plan,verified,_,_,_,_,_,_,_,noted,_⟩ := ok
  obtain ⟨rfl,_⟩ := verifyPlanAdmissionTx_ok.mp verified
  simp only [insertCheckpointTx,bind_ok,checkOption_ok,Queue.validateSha256,require_ok] at noted
  obtain ⟨_,sound,_⟩ := noted
  exact sound _ rfl

theorem submit_rests {allowed : QueueStore → Operation → Prop} {request : SubmitRequest} {clock : SubmitClock}
    {reference : PlanTaskReference} (run : Run encoding allowed s)
    (named : request.planReference = some reference)
    (ok : submitTaskGoverned encoding s request clock = .ok ((.created,task),s'))
    (alone : ∀ taskId other, s'.tasks.lookup taskId = some other → other.status = .queued →
      taskId = task.taskId) : ∃ rows, s'.plans.lookup (reference.planId,reference.revision) = some rows ∧
      Resting encoding s' task rows [] clock.now := by
  have linked := run_linked run
  have committed : Linked encoding s' :=
    @Linked.committed _ _ _ (.submit request clock) linked (storeOf_ok.mpr ⟨_,ok⟩)
  rcases submit_parts ok with ⟨existing,_⟩ | ⟨limits,admitted,envelope,created,submitted⟩
  · cases existing
  obtain rfl : task = newTask request envelope clock.now := congrArg Prod.snd created
  obtain ⟨_,limited,_,_,⟨approvalId,admission⟩,_,taskId,_,absent,checked,rfl⟩ := submitted
  simp only [named,admitReference] at admission
  obtain ⟨tx,begun,admission⟩ := bind_ok.mp admission
  obtain ⟨⟨_,tx'⟩,recorded,stored⟩ := bind_ok.mp admission
  cases stored
  obtain ⟨rows,found,rfl⟩ := beginPlan_ok begun
  have sound := recordPlanAdmissionTx_digest recorded
  obtain ⟨_,ran,rfl,verified⟩ := recordPlanAdmissionTx_writes.done _ recorded
  obtain ⟨_,own,_,planId,revision,_,digest,structured,_⟩ := loadPlanTx_ok.mp verified.loaded
  have filed := linked.filed _ _ found
  -- no task refers to the plan before this one does
  have unreferred : Unreferred s (reference.planId,reference.revision) := by
    intro other row listed refers
    obtain ⟨rows',stored',joined⟩ := linked.joined other row _ listed refers
    obtain rfl := Option.some.inj (found.symm.trans stored')
    refine absent (AList.lookup_isSome.mp ?_)
    have same : envelope.taskId = other := by
      rw [taskId,← (linked.rowed other row listed).taskId,← joined.taskId,verified.taskId]
    show (s.tasks.lookup envelope.taskId).isSome = true
    rw [same,listed]
    rfl
  have unstarted : Unstarted rows := by
    rcases run_unstirred run _ rows found unreferred with unknown | unstarted
    · have admissible := verified.admissible
      rw [unknown] at admissible
      cases admissible
    · exact unstarted
  have same := ran.edits.same
  refine ⟨tx'.rows,AList.lookup_insert _,committed,?_,AList.lookup_insert _,rfl,rfl,le_refl _,alone,?_,
    ?_,rfl,rfl,unstarted.underway filed verified ran.edits ran.reached,List.nodup_nil,by simp,respects_nil⟩
  · exact run_tenants run _ _ limited
  · have nonzero : rows.plan.revision ≠ 0 := (validateStructure_steps structured).1
    rw [revision] at nonzero
    rw [digest] at sound
    simp only [taskReference,newTask,named,Option.map_some,PlanTaskReference.new]
    refine bind_ok.mpr ⟨(),require_pos _ nonzero,bind_ok.mpr ⟨(),require_pos _ sound,?_⟩⟩
    rw [referenceOf,same.plan,planId,revision,digest]
    rfl
  · rw [same.plan,planId,revision]
    exact AList.lookup_insert _

-- A turn runs one more step: then the task rests again, or all is complete.
theorem turn_taken {turn : Turn} (resting : Resting encoding s task rows done since)
    (few : done.length < rows.plan.stepIds.length) (later : since ≤ turn.claimAt)
    (unexpired : turn.finishAt < turn.claimAt + turn.leaseFor) (ordered : turn.claimAt ≤ turn.finishAt)
    (approved : ApprovedAt rows turn.claimAt) (successful : Successful turn)
    (unconditional : ∀ step ∈ rows.plan.steps, step.preconditions = [] ∧ step.postconditions = []) :
    ∃ claimed middle x token outcome next,
      claimNextWithPlanContext encoding s turn.claimAt turn.leaseFor turn.claimContext = .ok (some claimed,
        middle) ∧
      claimed.taskId = task.taskId ∧ claimed.planStepId = some x ∧ claimed.leaseToken = some token ∧
      finishTaskWithLeaseToken encoding middle task.taskId claimed.tenantId token turn.report turn.finishAt
        turn.finishContext = .ok (outcome,next) ∧
      (done ++ [x]).Nodup ∧ (∀ y ∈ done ++ [x], y ∈ rows.plan.stepIds) ∧
      Respects (needsOf rows.plan.steps) (done ++ [x]) ∧
      if done.length + 1 < rows.plan.stepIds.length then
        ∃ task' rows', Resting encoding next task' rows' (done ++ [x]) turn.finishAt ∧
          task'.taskId = task.taskId ∧ rows'.plan = rows.plan ∧ rows'.approvals = rows.approvals
      else Completed next task.taskId rows.plan := by
  have leased : 0 < turn.leaseFor := (lt_add_iff_pos_right turn.claimAt).mp (lt_of_le_of_lt ordered unexpired)
  obtain ⟨step,rows',token,middle,claims,holding⟩ := resting.claims approved
    (fun step listed => (unconditional step listed).1) few later leased successful.claimDigest
  have free := (unconditional step holding.member).2
  by_cases more : done.length + 1 < rows.plan.stepIds.length
  · obtain ⟨outcome,next,task',rows'',ended,rests⟩ :=
      holding.rests free successful.success unexpired successful.finishDigest more
    refine ⟨_,_,_,token,outcome,next,claims,rfl,rfl,rfl,ended,holding.distinct,holding.planned,
      holding.ordered,?_⟩
    rw [if_pos more]
    exact ⟨task',rows'',rests⟩
  · obtain ⟨outcome,next,task',rows'',ended,complete⟩ :=
      holding.completes free successful.success unexpired successful.finishDigest (by omega)
    refine ⟨_,_,_,token,outcome,next,claims,rfl,rfl,rfl,ended,holding.distinct,holding.planned,
      holding.ordered,?_⟩
    rw [if_neg more]
    exact ⟨task',rows'',complete⟩

-- However many turns are left to take, each can be taken.
theorem turns_taken {turns : List Turn} (resting : Resting encoding s task rows done since)
    (few : done.length < rows.plan.stepIds.length)
    (enough : done.length + turns.length ≤ rows.plan.stepIds.length) (timely : Timely since turns)
    (approved : ∀ turn ∈ turns, ApprovedAt rows turn.claimAt) (successful : ∀ turn ∈ turns, Successful turn)
    (unconditional : ∀ step ∈ rows.plan.steps, step.preconditions = [] ∧ step.postconditions = []) :
    ∃ order s', Turns encoding task.taskId s turns order s' ∧ order.length = turns.length ∧
    (done ++ order).Nodup ∧
      (∀ x ∈ done ++ order, x ∈ rows.plan.stepIds) ∧ Respects (needsOf rows.plan.steps) (done ++ order) ∧
      if done.length + turns.length < rows.plan.stepIds.length then
        ∃ task' rows' now, Resting encoding s' task' rows' (done ++ order) now ∧ task'.taskId = task.taskId ∧
          rows'.plan = rows.plan
      else Completed s' task.taskId rows.plan := by
  induction turns generalizing s task rows done since with
  | nil =>
    refine ⟨[],s,.none,rfl,?_⟩
    rw [List.append_nil,List.length_nil,Nat.add_zero,if_pos few]
    exact ⟨resting.distinct,resting.planned,resting.ordered,task,rows,since,resting,rfl,rfl⟩
  | cons turn rest ih =>
    cases timely with
    | cons later inOrder unexpired timely =>
    obtain ⟨claimed,middle,x,token,outcome,next,claims,taskId,step,lease,ended,distinct,planned,
        ordered,after⟩ :=
      turn_taken resting few later unexpired inOrder (approved turn List.mem_cons_self)
        (successful turn List.mem_cons_self) unconditional
    rw [List.length_cons] at enough
    split at after
    · next more =>
      obtain ⟨task',rows',rests,same,plan,approvals⟩ := after
      have grown : (done ++ [x]).length = done.length + 1 := by simp
      obtain ⟨order,s',turns,length,final⟩ := @ih next task' rows' (done ++ [x]) turn.finishAt rests
        (by rw [grown,plan]; exact more) (by rw [grown,plan]; omega) timely
        (fun other listed => by
          have valid := approved other (List.mem_cons_of_mem _ listed)
          rwa [ApprovedAt,← plan,← approvals] at valid)
        (fun other listed => successful other (List.mem_cons_of_mem _ listed))
          (by rw [plan]; exact unconditional)
      rw [plan,same,grown,List.append_assoc,List.singleton_append,Nat.add_assoc,Nat.add_comm 1] at final
      refine ⟨x :: order,s',.one claims taskId step lease ended (same ▸ turns),by
        rw [List.length_cons,length]; rfl,?_⟩
      exact final
    · next last =>
      obtain rfl : rest = [] := List.eq_nil_of_length_eq_zero (by omega)
      refine ⟨[x],next,.one claims taskId step lease ended .none,rfl,distinct,planned,ordered,?_⟩
      rw [List.length_singleton,if_neg last]
      exact after

-- The submitted task is worked off in as many turns as its plan has steps, each
-- step once and after the steps that it depends on.
theorem planned_completion {allowed : QueueStore → Operation → Prop} {request : SubmitRequest}
    {clock : SubmitClock} {reference : PlanTaskReference} {turns : List Turn} (run : Run encoding allowed s)
    (named : request.planReference = some reference)
    (submitted : submitTaskGoverned encoding s request clock = .ok ((.created,task),s'))
    (alone : ∀ taskId other, s'.tasks.lookup taskId = some other → other.status = .queued →
      taskId = task.taskId) (stored : s'.plans.lookup (reference.planId,reference.revision) = some rows)
    (unconditional : ∀ step ∈ rows.plan.steps, step.preconditions = [] ∧ step.postconditions = [])
    (timely : Timely clock.now turns) (approved : ∀ turn ∈ turns, ApprovedAt rows turn.claimAt)
    (successful : ∀ turn ∈ turns, Successful turn) (enough : turns.length ≤ rows.plan.steps.length) :
    ∃ order final, Turns encoding task.taskId s' turns order final ∧ order.length = turns.length ∧
    order.Nodup ∧ (∀ x ∈ order, x ∈ rows.plan.stepIds) ∧ Respects (needsOf rows.plan.steps) order ∧
      if turns.length < rows.plan.steps.length then
        ∃ task' rows', final.tasks.lookup task.taskId = some task' ∧ task'.status = .queued ∧
          final.plans.lookup (reference.planId,reference.revision) = some rows' ∧ rows'.state ≠ .succeeded
      else order.Perm rows.plan.stepIds ∧ Completed final task.taskId rows.plan := by
  obtain ⟨rows',stored',resting⟩ := submit_rests run named submitted alone
  obtain rfl := Option.some.inj (stored.symm.trans stored')
  have size : rows.plan.stepIds.length = rows.plan.steps.length := List.length_map _
  have structured := resting.underway.wellFormed.structured
  have some : 0 < rows.plan.stepIds.length := by
    simp only [PlanSpec.validateStructure,bind_ok,require_ok,exists_const] at structured
    rw [size]
    exact List.length_pos_of_ne_nil structured.2.1.1
  obtain ⟨order,final,taken,length,distinct,planned,ordered,after⟩ := turns_taken resting some
    (by rw [size,List.length_nil,Nat.zero_add]; exact enough) timely approved successful unconditional
  rw [List.nil_append] at distinct planned ordered
  rw [List.length_nil,Nat.zero_add,size,List.nil_append] at after
  refine ⟨order,final,taken,length,distinct,planned,ordered,?_⟩
  split at after
  · next more =>
    obtain ⟨task',rows',now,rests,same,plan⟩ := after
    obtain ⟨planId,revision,_⟩ := resting.linked.filed _ _ stored
    rw [if_pos more]
    refine ⟨task',rows',same ▸ rests.listed,rests.queued,?_,?_⟩
    · have found := rests.stored
      rwa [plan,planId,revision] at found
    · rw [rests.underway.state]
      split <;> simp
  · next all =>
    rw [if_neg all]
    refine ⟨(List.subperm_of_subset distinct planned).perm_of_length_le ?_,after⟩
    rw [length,size]
    omega

-- A plan whose first step waits for its second.
def orderedPlan : PlanSpec := trialPlan 7 [trialStep "a" ["b"] none,trialStep "b" [] none]

def orderedOpen : List Operation := [.bootstrapPrincipal trialAdmin,.createSession trialAdmin,
  .savePlan orderedPlan]

def trialTurn (count : Nat) : Turn :=
  ⟨second count,second 2,.default,second (count + 1),⟨none,none,false,0,0⟩,.default⟩

def orderedRequest : SubmitRequest := ⟨0,trialAdmin,"task-7","fingerprint",⟨⟨7⟩,trialAdmin.tenantId,
  trialAdmin.operatorId,.default,true,.fromPrincipal trialAdmin⟩,0,1,some ⟨⟨7⟩,1,trialDigest 7⟩,none⟩

-- What the submission of the plan leaves, from what was evaluated of it.
theorem ordered_submission :
    ∃ task s' rows, submitTaskGoverned trialEncoding (trial orderedOpen) orderedRequest
      ⟨second 1,second 1,second 1⟩ = .ok ((.created,task),s') ∧
    (∀ taskId other, s'.tasks.lookup taskId = some other → other.status = .queued → taskId = task.taskId) ∧
    s'.plans.lookup (⟨7⟩,1) = some rows ∧ rows.plan = orderedPlan := by
  have evaluated : (submitTaskGoverned trialEncoding (trial orderedOpen) orderedRequest
      ⟨second 1,second 1,second 1⟩).toOption.map (fun answer =>
      (answer.1.1,answer.1.2.taskId,answer.2.tasks.keys,
        (answer.2.plans.lookup (⟨7⟩,1)).map (·.plan))) = some (.created,⟨7⟩,[⟨7⟩],
        some orderedPlan) := by decide +kernel
  generalize submitTaskGoverned trialEncoding (trial orderedOpen) orderedRequest ⟨second 1,second 1,
    second 1⟩ = result at evaluated
  cases result with
  | error e => cases evaluated
  | ok answer =>
    obtain ⟨⟨outcome,task⟩,s'⟩ := answer
    simp only [Except.toOption,Option.map_some,Option.some.injEq,Prod.mk.injEq] at evaluated
    obtain ⟨rfl,taskId,keys,plan⟩ := evaluated
    obtain ⟨rows,stored,same⟩ := Option.map_eq_some_iff.mp plan
    refine ⟨task,s',rows,rfl,fun other row found _ => ?_,stored,same⟩
    have listed : other ∈ s'.tasks.keys := AList.mem_keys.mp (AList.lookup_isSome.mp (by rw [found]; rfl))
    rw [keys,List.mem_singleton] at listed
    rw [listed,taskId]

theorem planned_completion_ordered :
    ∃ task s' order final, submitTaskGoverned trialEncoding (trial orderedOpen)
      orderedRequest ⟨second 1,second 1,second 1⟩ = .ok ((.created,task),s') ∧
    Turns trialEncoding task.taskId s' [trialTurn 2,trialTurn 4] order final ∧
    Respects (needsOf orderedPlan.steps) order ∧ order.Perm [⟨"a"⟩,⟨"b"⟩] ∧
    Completed final task.taskId orderedPlan := by
  obtain ⟨task,s',rows,submitted,alone,stored,plan⟩ := ordered_submission
  have run : Run trialEncoding (fun _ _ => True) (trial orderedOpen) :=
    GuardedRuns.play_reaches (GuardedRuns.admitted_always fun _ _ _ => trivial)
  have timely : Timely (second 1) [trialTurn 2,trialTurn 4] := .cons (by decide) (by decide) (by decide)
    (.cons (by decide) (by decide) (by decide) .nil)
  have successful : ∀ turn ∈ [trialTurn 2,trialTurn 4], Successful turn := by
    intro turn listed
    simp only [List.mem_cons,List.not_mem_nil,or_false] at listed
    rcases listed with rfl | rfl <;> exact ⟨rfl,by simp [SoundDigest,trialTurn,PlanClaimContext.default],
      by simp [SoundDigest,trialTurn,PlanClaimContext.default]⟩
  obtain ⟨order,final,taken,_,_,_,ordered,after⟩ := planned_completion run rfl submitted alone stored
    (by rw [plan]; decide) timely (fun _ _ => .inl (by rw [plan]; decide)) successful (by rw [plan]; decide)
  rw [plan] at ordered after
  rw [if_neg (by decide)] at after
  exact ⟨task,s',order,final,submitted,taken,ordered,after.1,after.2⟩

end Shaka.Properties
