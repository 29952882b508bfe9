import Shaka.Api.Gateway
import Shaka.Store.Inspections
import Shaka.Store.Linked

namespace Shaka.Api
open Shaka.Core Queue Plan Store CheckedSteps KeptState

variable {encoding : ApiEncoding} {server : Server} {who : Principal} {g g' : Gateway}
  {moment : RequestMoment}

def LiveAllowed (server : Server) (who : Principal) : Prop :=
  server.liveEnabled = true ∧ server.liveConfirmation = true ∧ who.allows .runExternal = true

-- The operations that a request makes on behalf of a principal.
inductive Commanded (server : Server) (who : Principal) : Operation → Prop where
  | createSession : Commanded server who (.createSession who)
  | submit : request.principal = who →
      (request.envelope.dryRun = true ∨ LiveAllowed server who ∧ request.planReference = none) →
      Commanded server who (.submit request clock)
  | savePlan : plan.tenantId = who.tenantId → plan.operatorId = who.operatorId → plan.mode = .dryRun →
      plan.state = .draft → Commanded server who (.savePlan plan)
  | approvePlan : Commanded server who (.approvePlan who approval key now)
  | resolve : request.principal = who → request.decision ≠ .compensate →
      Commanded server who (.resolvePlanUnknown request now)
  | cancel : Commanded server who (.requestCancel taskId who.tenantId now)

def SignedBy (who : Principal) (line : AuditLine) : Prop := line.tenantId = who.tenantId ∧
    line.operatorId = who.operatorId

-- What becomes of the state that the handlers share: it is left alone, or only looked at, or the queue
-- makes one transaction; in the last two cases the trail says so, if it takes the record.
inductive Carried (encoding : ApiEncoding) (server : Server) (who : Principal) (moment : RequestMoment)
    (g : Gateway) : Gateway → Prop where
  | untouched : Carried encoding server who moment g g
  | looked {line : AuditLine} : SignedBy who line →
      Carried encoding server who moment g {g with audits:=g.audits ++ recordLine moment line}
  | acted {op : Operation} {queue : QueueStore} {line : AuditLine} {signals : List TaskId} :
      Commanded server who op →
      transaction encoding.toStoreEncoding op g.database.queue = .ok ((),queue) → SignedBy who line →
      Carried encoding server who moment g
        {g.setQueue queue with audits:=g.audits ++ recordLine moment line,signals:=signals}

-- How a handler goes on.

theorem holds_consult {motive : Gateway → Prop} {read : QueueStore → Except QueueError α} {f : α → Handler β}
    (stopped : motive g) (rest : ∀ a, read g.database.queue = .ok a → motive (f a g).2) :
    motive ((consult read >>= f) g).2 := by
  apply holds_given stopped
  intro a ok
  exact rest a (mapError_ok.mp ok)

theorem holds_answered {motive : Gateway → Prop} {read : QueueStore → Except QueueError α}
    {f : α → Handler β} {a : α} (ok : read g.database.queue = .ok a) (rest : motive (f a g).2) :
    motive ((consult read >>= f) g).2 := by
  have same : (consult read >>= f) g = f a g := by
    change (given ((read g.database.queue).mapError HttpError.ofQueue) >>= f) g = _
    rw [bind_given,ok]
    rfl
  rw [same]
  exact rest

theorem holds_enact {motive : Gateway → Prop} {transaction : QueueStore → Except QueueError (α × QueueStore)}
    {f : α → Handler β} (stopped : motive g)
    (rest : ∀ a queue, transaction g.database.queue = .ok (a,queue) → motive (f a (g.setQueue queue)).2) :
    motive ((enact transaction >>= f) g).2 := by
  apply @bind_ends _ _ _ _ (enact transaction) f g fun after => motive after.2
  · intro e s' failed
    unfold enact at failed
    cases ran : transaction g.database.queue <;> rw [ran] at failed <;> cases failed
    exact stopped
  · intro a s' answered
    unfold enact at answered
    cases ran : transaction g.database.queue <;> rw [ran] at answered <;> cases answered
    exact rest _ _ ran

theorem holds_refuse {motive : Gateway → Prop} {p : Prop} [Decidable p] {e : HttpError} {f : Unit → Handler β}
    (stopped : motive g) (rest : ¬ p → motive (f () g).2) : motive ((refuse p e >>= f) g).2 := by
  apply holds_given stopped
  intro a ok
  exact rest (require_ok.mp ok)

-- The reads that follow a transaction find what it has left.

theorem inspects_after {op : Operation} {queue : QueueStore} {planId : PlanId} {tenantId : TenantId}
    {plan : PlanSpec} (linked : Linked encoding.toStoreEncoding g.database.queue)
    (loaded : loadPlan encoding.toStoreEncoding g.database.queue planId tenantId = .ok plan)
    (ran : transaction encoding.toStoreEncoding op g.database.queue = .ok ((),queue)) :
    ∃ report, inspectPlan encoding.toStoreEncoding queue tenantId planId = .ok report := by
  have linked' := exec_linked linked op
  have carries := exec_carries encoding.toStoreEncoding g.database.queue op
  rw [exec_ok ran] at linked' carries
  obtain ⟨key,rows,found,_⟩ := loadPlan_parts loaded
  obtain ⟨rows',stored,_,tenant,_⟩ := carries.kept key rows found.stored
  obtain ⟨_,_,report,_,inspected,_⟩ := inspectPlan_stored linked'.filed stored
  have owner := tenant.trans ((linked.filed key rows found.stored).tenantId.trans found.tenantId)
  have named : key.1 = planId := (congrArg Prod.fst found.key).trans found.planId
  rw [owner,named] at inspected
  exact ⟨report,inspected⟩

theorem signed {taskId : Option TaskId} {action outcome : String} :
    SignedBy who ⟨who.tenantId,who.operatorId,taskId,action,outcome⟩ := ⟨rfl,rfl⟩

-- A handler after its authorization.
def Serves (encoding : ApiEncoding) (server : Server) (who : Principal) (moment : RequestMoment)
    (p : Handler α) : Prop :=
  ∀ g, Linked encoding.toStoreEncoding g.database.queue → Carried encoding server who moment g (p g).2

theorem createSession_serves (metadataSize : Nat) :
    Serves encoding server who moment (createSessionHandler who metadataSize moment) := by
  intro g linked
  apply holds_refuse .untouched
  intro _
  apply holds_enact .untouched
  intro sessionId queue ran
  exact .acted .createSession (by rw [transaction,ran]; rfl) signed

theorem getSession_serves (sessionId : Uuid) :
    Serves encoding server who moment (getSessionHandler encoding who sessionId) :=
  fun _ _ => .untouched

-- What a submission passes before the queue sees it.
theorem submission_commanded {key requestId : String} {body : SubmitBody}
    {reference : Option PlanTaskReference} {drawn : Uuid} {clock : SubmitClock}
    (checked : checkSubmission server who body = .ok reference) :
    Commanded server who (.submit (submission encoding who key requestId body reference drawn) clock) := by
  simp only [checkSubmission,bind_ok,require_ok,exists_const] at checked
  obtain ⟨_,_,live,planned⟩ := checked
  refine .submit rfl ?_
  rcases live with dry | live
  · exact .inl dry
  · by_cases dry : body.dryRun.getD true = true
    · exact .inl dry
    refine .inr ⟨live,?_⟩
    unfold planReference at planned
    split at planned
    · simp only [bind_ok,require_ok,exists_const] at planned
      obtain ⟨_,_,_,_,_,_,_,also,_⟩ := planned
      exact absurd also dry
    · cases planned
      rfl

theorem submitTask_serves (headers : RequestHeaders) (requestId : String) (body : SubmitBody)
    (moment : RequestMoment) :
    Serves encoding server who moment (submitTaskHandler encoding server who headers requestId body
      moment) := by
  intro g linked
  apply holds_given .untouched
  intro key _
  apply holds_consult .untouched
  intro _ _
  apply holds_given .untouched
  intro reference checked
  apply holds_enact .untouched
  rintro ⟨outcome,task⟩ queue ran
  have made : transaction encoding.toStoreEncoding
      (.submit (submission encoding who key requestId body reference moment.drawn) moment.clock)
        g.database.queue = .ok ((),queue) := by
    rw [transaction,ran]
    rfl
  rcases submit_parts ran with ⟨existing,same⟩ | ⟨_,_,_,created,_⟩
  · obtain rfl : outcome = .existing := existing
    subst same
    exact .untouched
  · obtain rfl : outcome = .created := congrArg Prod.fst created
    exact .acted (submission_commanded checked) made signed

theorem getTask_serves (taskId : TaskId) :
    Serves encoding server who moment (getTaskHandler encoding who taskId) := by
  intro g linked
  apply holds_consult .untouched
  intro _ _
  exact .untouched

theorem cancelTask_serves (taskId : TaskId) :
    Serves encoding server who moment (cancelTaskHandler encoding who taskId moment) := by
  intro g linked
  apply holds_enact .untouched
  intro task queue ran
  exact .acted .cancel (by rw [transaction,ran]; rfl) signed

theorem createPlan_serves (input : PlanSpecInput) :
    Serves encoding server who moment (createPlanHandler encoding who input moment) := by
  intro g linked
  apply holds_refuse .untouched
  intro own
  apply holds_refuse .untouched
  intro mode
  apply holds_given .untouched
  intro plan specified
  apply holds_enact .untouched
  intro persisted queue ran
  simp only [not_or,not_not] at own mode
  have fresh : plan.tenantId = input.tenantId ∧ plan.operatorId = input.operatorId ∧ plan.mode = input.mode ∧
      plan.state = .draft := by
    have specified' := mapError_ok.mp specified
    simp only [PlanSpec.new,bind_ok,pure_ok] at specified'
    obtain ⟨_,_,_,_,rfl⟩ := specified'
    exact ⟨rfl,rfl,rfl,rfl⟩
  obtain ⟨tenant,operator,mode',draft⟩ := fresh
  exact .acted (.savePlan (tenant.trans own.1) (operator.trans own.2) (mode'.trans mode) draft)
    (by rw [transaction,ran]; rfl) signed

theorem getPlan_serves (planId : PlanId) :
    Serves encoding server who moment (getPlanHandler encoding who planId moment) := by
  intro g linked
  apply holds_consult .untouched
  intro _ _
  exact .looked signed

theorem validatePlan_serves (planId : PlanId) :
    Serves encoding server who moment (validatePlanHandler encoding who planId moment) := by
  intro g linked
  apply holds_consult .untouched
  intro _ _
  exact .looked signed

theorem planCheckpoints_serves (planId : PlanId) :
    Serves encoding server who moment (planCheckpointsHandler encoding who planId moment) := by
  intro g linked
  apply holds_consult .untouched
  intro _ _
  exact .looked signed

theorem approvePlan_serves (headers : RequestHeaders) (body : ApprovalBody) :
    Serves encoding server who moment (approvePlanHandler encoding who headers body moment) := by
  intro g linked
  apply holds_given .untouched
  intro key _
  apply holds_consult .untouched
  intro plan loaded
  apply holds_refuse .untouched
  intro _
  apply holds_given .untouched
  intro required _
  apply holds_enact .untouched
  intro outcome queue ran
  have made : transaction encoding.toStoreEncoding
      (.approvePlan who (approvalOf encoding who plan key body required
      (moment.now + body.expiresInSeconds.getD 3600 * nanosPerSecond)) key moment.now) g.database.queue =
        .ok ((),queue) := by
    rw [transaction,ran]
    rfl
  obtain ⟨report,inspected⟩ := inspects_after linked loaded made
  apply @holds_answered (g.setQueue queue) _ _ _ _ _ report inspected
  apply holds_consult
  · exact .acted .approvePlan made signed
  · intro _ _
    exact .acted .approvePlan made signed

theorem resumePlan_serves (headers : RequestHeaders) (planId : PlanId) (evidenceDigest : String) :
    Serves encoding server who moment (resumePlanHandler encoding who headers planId evidenceDigest
      moment) := by
  intro g linked
  apply holds_given .untouched
  intro key _
  apply holds_enact .untouched
  intro outcome queue ran
  have made : transaction encoding.toStoreEncoding
      (.resolvePlanUnknown ⟨who,planId,.resume,key,some evidenceDigest⟩ moment.now) g.database.queue =
        .ok ((),queue) := by
    rw [transaction,ran]
    rfl
  have resolved :
      Commanded server who (.resolvePlanUnknown ⟨who,planId,.resume,key,some evidenceDigest⟩ moment.now) :=
    .resolve rfl (by simp)
  simp only [resolvePlanUnknown,bind_ok] at ran
  obtain ⟨_,_,plan,loaded,_⟩ := ran
  obtain ⟨report,inspected⟩ := inspects_after linked loaded made
  apply @holds_answered (g.setQueue queue) _ _ _ _ _ report inspected
  apply holds_consult
  · exact .acted resolved made signed
  · intro _ _
    exact .acted resolved made signed

-- A resolution that changes anything leaves the task of its plan where it can be read.
theorem resolution_task {request : ResolutionRequest} {now : Time} {plan : PlanSpec}
    {outcome : PlanResolutionOutcome} {s queue : QueueStore} (linked : Linked encoding.toStoreEncoding s)
    (loaded : loadPlan encoding.toStoreEncoding s request.planId request.principal.tenantId = .ok plan)
    (ran : resolvePlanUnknown encoding.toStoreEncoding s request now = .ok (outcome,queue)) : queue = s ∨
    ∃ task, loadTask encoding.toStoreEncoding queue plan.taskId request.principal.tenantId = .ok task := by
  rcases resolve_rows linked ran with same | ⟨key,rows,row,found,_,listed,refers,tenant,_,tasks⟩
  · exact .inl same
  obtain ⟨key',rows',found',rfl⟩ := loadPlan_parts loaded
  obtain ⟨rfl,rfl⟩ := Prod.ext_iff.mp (Option.some.inj (found.latest.symm.trans found'.latest))
  obtain ⟨joined,stored,join⟩ := linked.joined _ _ _ listed refers
  obtain rfl := Option.some.inj (found.stored.symm.trans stored)
  have inserted : queue.tasks.lookup row.taskId = some (resolvedRow request.decision now row) := by
    rw [tasks]
    exact AList.lookup_insert _
  have made : exec encoding.toStoreEncoding s (.resolvePlanUnknown request now) = queue := by
    apply exec_ok
    rw [transaction,ran]
    rfl
  have linked' := exec_linked linked (.resolvePlanUnknown request now)
  rw [made] at linked'
  have identity := (resolvedRow_identity request.decision now row).1
  refine .inr ⟨_,loadTask_ok.mpr ⟨?_,identity.tenantId.trans tenant,(linked'.rowed _ _ inserted).checked⟩⟩
  rw [← inserted]
  exact congrArg (AList.lookup · queue.tasks) join.taskId

theorem cancelPlan_serves (headers : RequestHeaders) (planId : PlanId) :
    Serves encoding server who moment (cancelPlanHandler encoding who headers planId moment) := by
  intro g linked
  apply holds_given .untouched
  intro key _
  apply holds_consult .untouched
  intro plan loaded
  have finished : ∀ op queue (task : TaskRecord), Commanded server who op →
      transaction encoding.toStoreEncoding op g.database.queue = .ok ((),queue) →
      Carried encoding server who moment g ((do
        let inspection ← consult fun s => inspectPlan encoding.toStoreEncoding s who.tenantId planId
        cancelRunning task.taskId
        auditPrincipal moment who (some task.taskId) "plan.cancel" "success"
        let detail ← consult (planDetail encoding inspection)
        pure (TaskResponse.ofRecord task,detail) :
            Handler (TaskResponse × PlanDetail)) (g.setQueue queue)).2 := by
    intro op queue task commanded made
    obtain ⟨report,inspected⟩ := inspects_after linked loaded made
    apply @holds_answered (g.setQueue queue) _ _ _ _ _ report inspected
    apply holds_consult
    · exact .acted commanded made signed
    · intro _ _
      exact .acted commanded made signed
  unfold cancelPlanned
  split
  · rw [bind_assoc]
    apply holds_enact .untouched
    intro outcome queue ran
    have made : transaction encoding.toStoreEncoding (.resolvePlanUnknown ⟨who,planId,.cancel,key,
        none⟩ moment.now) g.database.queue = .ok ((),queue) := by
      rw [transaction,ran]
      rfl
    rcases resolution_task linked loaded ran with rfl | ⟨task,read⟩
    · apply holds_consult
      · exact .untouched
      · intro task _
        exact finished _ _ task (.resolve rfl (by simp)) made
    · apply @holds_answered (g.setQueue queue) _ _ _ _ _ task read
      exact finished _ _ task (.resolve rfl (by simp)) made
  · apply holds_enact .untouched
    intro task queue ran
    exact finished _ _ task .cancel (by rw [transaction,ran]; rfl)

theorem respond_serves (request : HttpRequest) (moment : RequestMoment) :
    Serves encoding server who moment (respond encoding server who request moment) := by
  intro g linked
  unfold respond
  cases request.route with
  | createSession metadataSize => exact holds_pure _ (createSession_serves metadataSize g linked)
  | getSession sessionId => exact holds_pure _ (getSession_serves sessionId g linked)
  | submitTask body =>
    exact holds_pure _ (submitTask_serves request.headers request.requestId body moment g linked)
  | getTask taskId => exact holds_pure _ (getTask_serves taskId g linked)
  | cancelTask taskId => exact holds_pure _ (cancelTask_serves taskId g linked)
  | createPlan input => exact holds_pure _ (createPlan_serves input g linked)
  | getPlan planId => exact holds_pure _ (getPlan_serves planId g linked)
  | validatePlan planId => exact holds_pure _ (validatePlan_serves planId g linked)
  | approvePlan body => exact holds_pure _ (approvePlan_serves request.headers body g linked)
  | resumePlan planId evidenceDigest =>
    exact holds_pure _ (resumePlan_serves request.headers planId evidenceDigest g linked)
  | cancelPlan planId => exact holds_pure _ (cancelPlan_serves request.headers planId g linked)
  | planCheckpoints planId => exact holds_pure _ (planCheckpoints_serves planId g linked)

end Shaka.Api
