import Shaka.Api.Correlation
import Shaka.Properties.GatewayProvenance
import Shaka.Properties.Idempotency

namespace Shaka.Properties
open Shaka.Core Queue Store Api CheckedSteps KeptState GuardedRuns

variable {encoding : ApiEncoding} {server : Server} {who : Principal} {request : HttpRequest}
  {body : SubmitBody} {moment : RequestMoment} {g : Gateway} {s : QueueStore}

-- A token stands for one principal.
theorem vouched_unique {site : Site} {headers : RequestHeaders} {now : Time} {other : Principal}
    (books : BooksKept encoding.toEncoding site.ledger) (one : Vouched encoding server site headers now who)
    (two : Vouched encoding server site headers now other) : who = other := by
  unfold Vouched at one two
  cases named : headers.authorization.bind stripBearer with
  | some token =>
    rw [named] at one two
    rcases one with ⟨key,same⟩ | ⟨unkeyed,_,_,issue,force,hash,same⟩ <;>
      rcases two with ⟨key',same'⟩ | ⟨unkeyed',_,_,issue',force',hash',same'⟩
    · exact same.trans same'.symm
    · exact absurd key unkeyed'
    · exact absurd key' unkeyed
    · rw [same,same',List.inj_on_of_nodup_map (issued_distinct books).2 force.1 force'.1
        (hash.trans hash'.symm)]
  | none =>
    rw [named] at one two
    exact one.2.2.trans two.2.2.symm

-- A submission that the queue answers, with the checks that it passes before.
structure Accepted (encoding : ApiEncoding) (server : Server) (who : Principal) (request : HttpRequest)
    (body : SubmitBody) (moment : RequestMoment) (s : QueueStore) (key : String)
    (reference : Option PlanTaskReference) (outcome : SubmitOutcome) (row : TaskRecord)
    (queue : QueueStore) : Prop where
  keyed : request.headers.idempotencyKey = some key
  session : ∃ session, touchSession encoding body.sessionId who.tenantId s = .ok session
  checked : checkSubmission server who body = .ok reference
  answered : submitTaskGoverned encoding.toStoreEncoding s
    (submission encoding who key request.requestId body reference moment.drawn) moment.clock =
      .ok ((outcome,row),queue)

def submitAudits (moment : RequestMoment) (who : Principal) (outcome : SubmitOutcome) (row : TaskRecord) :
    List AuditLine :=
  if outcome = .created then recordLine moment ⟨who.tenantId,who.operatorId,some row.taskId,
    "api.task.submit","success"⟩
  else []

theorem submit_accepted {key : String} {reference : Option PlanTaskReference} {outcome : SubmitOutcome}
    {row : TaskRecord}
    {queue : QueueStore}
    (accepted : Accepted encoding server who request body moment g.database.queue key reference outcome
      row queue) :
    submitTaskHandler encoding server who request.headers request.requestId body moment g =
      (.ok (outcome,.ofRecord row),
        {g.setQueue queue with audits:=g.audits ++ submitAudits moment who outcome row}) := by
  obtain ⟨keyed,⟨session,touched⟩,checked,answered⟩ := accepted
  unfold submitTaskHandler
  rw [keyed]
  change (consult _ >>= _) g = _
  rw [bind_of_ok (show consult (touchSession encoding body.sessionId who.tenantId) g = (.ok session,g) by
    change (Except.mapError _ (touchSession encoding body.sessionId who.tenantId g.database.queue),g) = _
    rw [touched]
    rfl)]
  rw [checked]
  change (enact _ >>= _) g = _
  rw [bind_of_ok (show enact _ g = (.ok (outcome,row),g.setQueue queue) by simp only [enact,answered])]
  cases outcome with
  | created => rfl
  | existing =>
    simp only [submitAudits,reduceCtorEq,if_false,List.append_nil]
    rfl

-- A submission that is refused changes nothing.
theorem submit_cases (encoding : ApiEncoding) (server : Server) (who : Principal) (request : HttpRequest)
    (body : SubmitBody) (moment : RequestMoment) (g : Gateway) :
    (∃ e, submitTaskHandler encoding server who request.headers request.requestId body moment g =
      (.error e,g)) ∨ ∃ key reference outcome row queue,
      Accepted encoding server who request body moment g.database.queue key reference outcome row queue := by
  cases keyed : request.headers.idempotencyKey with
  | none =>
    refine .inl ⟨.badRequest "header Idempotency-Key é obrigatório",?_⟩
    unfold submitTaskHandler
    rw [keyed]
    rfl
  | some key =>
    cases touched : touchSession encoding body.sessionId who.tenantId g.database.queue with
    | error e =>
      refine .inl ⟨.ofQueue e,?_⟩
      unfold submitTaskHandler
      rw [keyed]
      change (consult _ >>= _) g = _
      rw [bind_of_error (show consult (touchSession encoding body.sessionId who.tenantId) g =
          (.error (.ofQueue e),g) by
        change (Except.mapError _ (touchSession encoding body.sessionId who.tenantId g.database.queue),g) = _
        rw [touched]
        rfl)]
    | ok session =>
      have consulted : consult (touchSession encoding body.sessionId who.tenantId) g = (.ok session,g) := by
        change (Except.mapError _ (touchSession encoding body.sessionId who.tenantId g.database.queue),g) = _
        rw [touched]
        rfl
      cases checked : checkSubmission server who body with
      | error e =>
        refine .inl ⟨e,?_⟩
        unfold submitTaskHandler
        rw [keyed]
        change (consult _ >>= _) g = _
        rw [bind_of_ok consulted,checked]
        rfl
      | ok reference =>
        cases answered : submitTaskGoverned encoding.toStoreEncoding g.database.queue
            (submission encoding who key request.requestId body reference moment.drawn) moment.clock with
        | ok answer =>
          exact .inr ⟨key,reference,answer.1.1,answer.1.2,answer.2,keyed,⟨session,touched⟩,checked,answered⟩
        | error e =>
          refine .inl ⟨.ofQueue e,?_⟩
          unfold submitTaskHandler
          rw [keyed]
          change (consult _ >>= _) g = _
          rw [bind_of_ok consulted,checked]
          change (enact _ >>= _) g = _
          rw [bind_of_error (show enact _ g = (.error (.ofQueue e),g) by simp only [enact,answered])]

-- What a request leaves of the state that it does not act on.
structure Undisturbed (site : Site) (g : Gateway) : Prop where
  queue : g.database.queue = site.queue
  audits : g.audits = site.gateway.audits
  signals : g.signals = site.gateway.signals

theorem vouched_handle {site : Site} (books : BooksKept encoding.toEncoding site.ledger)
    (vouched : Vouched encoding server site request.headers moment.now who) :
    ∃ g, Undisturbed site g ∧
      handle encoding server request moment site.gateway = respond encoding server who request moment g := by
  rcases authorize_cases books server request.headers moment.now with ⟨auth,g,authorized⟩ | ⟨nobody,_⟩
  · refine ⟨g,⟨authorized.queue,authorized.audits,authorized.signals⟩,?_⟩
    rw [vouched_unique books vouched authorized.vouched]
    exact bind_of_ok authorized.answered
  · exact absurd vouched (nobody who)

theorem respond_submits (routed : request.route = .submitTask body) :
    respond encoding server who request moment g =
      (submitTaskHandler encoding server who request.headers request.requestId
      body moment >>= fun answer => pure (.submitted answer.1 answer.2)) g := by
  unfold respond
  rw [routed]

theorem accepted_handled {site : Site} {key : String} {reference : Option PlanTaskReference}
    {outcome : SubmitOutcome}
    {row : TaskRecord} {queue : QueueStore} (books : BooksKept encoding.toEncoding site.ledger)
    (vouched : Vouched encoding server site request.headers moment.now who)
    (routed : request.route = .submitTask body)
    (accepted : Accepted encoding server who request body moment site.queue key reference outcome row queue) :
    ∃ g, Undisturbed site g ∧ handle encoding server request moment site.gateway =
      (.ok (.submitted outcome (.ofRecord row)),
        {g.setQueue queue with audits:=g.audits ++ submitAudits moment who outcome row}) := by
  obtain ⟨g,undisturbed,handled⟩ := @vouched_handle _ _ _ request moment site books vouched
  refine ⟨g,undisturbed,?_⟩
  rw [handled,respond_submits routed,bind_of_ok (submit_accepted (undisturbed.queue ▸ accepted))]
  rfl

theorem submission_outcome {site : Site} (books : BooksKept encoding.toEncoding site.ledger)
    (vouched : Vouched encoding server site request.headers moment.now who)
    (routed : request.route = .submitTask body) :
    (∃ e g, Undisturbed site g ∧ handle encoding server request moment site.gateway = (.error e,g)) ∨
    ∃ key reference outcome row queue,
      Accepted encoding server who request body moment site.queue key reference outcome row queue := by
  obtain ⟨g,undisturbed,handled⟩ := @vouched_handle _ _ _ request moment site books vouched
  rcases submit_cases encoding server who request body moment g with ⟨e,failed⟩ | ⟨key,reference,outcome,
    row,queue,accepted⟩
  · refine .inl ⟨e,g,undisturbed,?_⟩
    rw [handled,respond_submits routed,bind_of_error failed]
  · exact .inr ⟨key,reference,outcome,row,queue,undisturbed.queue ▸ accepted⟩

-- The row of a new task.
structure EnteredRow (s queue : QueueStore) (request : SubmitRequest) (now : Time) (row : TaskRecord) :
    Prop where
  valid : validateSubmit request = .ok ()
  limited : s.limits.lookup request.principal.tenantId ≠ none
  made : ∃ approvalId, row = newTask request {request.envelope with
    executionContext:=(ExecutionContext.fromPrincipal request.principal).withProvenance request.requestId
      approvalId} now
  stored : queue.tasks.lookup request.envelope.taskId = some row

theorem submission_entry {base : StoreEncoding} {queue : QueueStore} {request : SubmitRequest}
    {clock : SubmitClock} {row : TaskRecord}
    (ok : submitTaskGoverned base s request clock = .ok ((.created,row),queue)) :
    EnteredRow s queue request clock.now row := by
  simp only [submitTaskGoverned,bind_ok,require_ok,exists_const,orFail_ok] at ok
  obtain ⟨_,valid,_,_,_,limits,limited,ok⟩ := ok
  split at ok
  · simp only [bind_ok,require_ok,pure_ok,exists_const,Prod.mk.injEq,reduceCtorEq,false_and,and_false] at ok
    exact ok.elim fun _ never => never.elim
  · simp only [bind_ok,require_ok,pure_ok,exists_const,Prod.mk.injEq,true_and] at ok
    obtain ⟨_,_,⟨approvalId,admitted⟩,_,_,_,_,record,loaded,rfl,rfl⟩ := ok
    obtain ⟨found,_,_⟩ := loadTask_ok.mp loaded
    refine ⟨valid,limited ▸ Option.some_ne_none _,⟨approvalId,?_⟩,found⟩
    rw [AList.lookup_insert,Option.some.injEq] at found
    exact found.symm

theorem limits_kept (base : StoreEncoding) (op : Operation) {tenantId : TenantId}
    (limited : s.limits.lookup tenantId ≠ none) : (exec base s op).limits.lookup tenantId ≠ none := by
  have registered := exec_registry base s op
  generalize exec base s op = after at registered
  have same : registry after = registry s → after.limits = s.limits := fun same => congrArg (·.2.1) same
  cases registered with
  | kept kept => exact same kept ▸ limited
  | bootstrapped _ made =>
    subst made
    rw [lookup_insert_eq]
    split
    · exact Option.some_ne_none _
    · exact limited
  | limited _ made =>
    subst made
    rw [lookup_insert_eq]
    split
    · exact Option.some_ne_none _
    · exact limited
  | counted _ made => exact (show after.limits = s.limits from congrArg (·.2.1) made) ▸ limited
  | opened made => exact made ▸ limited

-- A task keeps what it was submitted with, whatever is asked of the site afterwards.
structure Persists (encoding : ApiEncoding) (server : Server) (taskId : TaskId) (row : TaskRecord)
    (tenantId : TenantId) (later : Site) : Prop where
  served : Served encoding server later
  row : ∃ row', later.queue.tasks.lookup taskId = some row' ∧ SameIdentity row row'
  limited : later.queue.limits.lookup tenantId ≠ none

theorem row_persists {site later : Site} {taskId : TaskId} {row : TaskRecord} {tenantId : TenantId}
    (served : Served encoding server site)
    (onward : Reaches (Site.next encoding server) InService site later)
    (stored : site.queue.tasks.lookup taskId = some row)
    (limited : site.queue.limits.lookup tenantId ≠ none) :
    Persists encoding server taskId row tenantId later := by
  apply onward.invariant
  · exact ⟨served,⟨row,stored,SameIdentity.refl row⟩,limited⟩
  · rintro site event ⟨served,⟨row',found,same⟩,limited⟩ guard
    obtain ⟨books,moved⟩ := site_moves served guard
    rcases moved with still | ⟨op,may,made⟩
    · exact ⟨⟨books,still ▸ served.queue⟩,⟨row',still ▸ found,same⟩,still ▸ limited⟩
    · have change := exec_rows (run_linked served.queue) op taskId
      rw [found,← made] at change
      refine ⟨⟨books,made ▸ Reaches.step served.queue may⟩,?_,made ▸ limits_kept _ op limited⟩
      generalize (site.next encoding server event).queue.tasks.lookup taskId = after at change
      cases change with
      | kept => exact ⟨row',rfl,same⟩
      | stepped step => exact ⟨_,rfl,same.trans step.identity⟩

-- A submission of the same material passes the same checks.

theorem checkSubmission_material {other : SubmitBody} (same : other.material = body.material) :
    checkSubmission server who other = checkSubmission server who body := by
  simp only [SubmitBody.material,FingerprintMaterial.mk.injEq] at same
  obtain ⟨objective,priority,_,dryRun,_,taskId,planId,planRevision,planDigest⟩ := same
  simp only [checkSubmission,planReference,objective,priority,dryRun,taskId,planId,planRevision,planDigest]

theorem correlation_validates {requestId : String} (id : IsCorrelationId requestId) :
    validateKey requestId "request_id" 128 = .ok () := by
  obtain ⟨filled,short,named⟩ := id
  refine require_ok.mpr ⟨?_,short⟩
  by_contra spaces
  simp only [blank,Bool.not_eq_false,List.all_eq_true] at spaces named
  obtain ⟨c,listed⟩ := List.exists_mem_of_ne_nil requestId.toList (by simpa using filled)
  exact Bool.false_ne_true ((correlation_visible (named c listed)).symm.trans (spaces c listed))

theorem submission_again {other : SubmitBody} {key requestId requestId' : String}
    {reference reference' : Option PlanTaskReference} {drawn drawn' : Uuid}
    (same : other.material = body.material) (id : IsCorrelationId requestId')
    (valid : validateSubmit (submission encoding who key requestId body reference drawn) = .ok ()) :
    validateSubmit (submission encoding who key requestId' other reference' drawn') = .ok () := by
  simp only [SubmitBody.material,FingerprintMaterial.mk.injEq] at same
  obtain ⟨objective,priority,maxAttempts,dryRun,budget,taskId,planId,planRevision,planDigest⟩ := same
  simp only [validateSubmit,submission,submitEnvelope,fingerprint,SubmitBody.material,checkOption,bind_ok,
    objective,priority,maxAttempts,dryRun,budget,taskId,planId,planRevision,planDigest] at valid ⊢
  obtain ⟨_,keyed,_,printed,_,_,_,most,_,costed,own⟩ := valid
  exact ⟨(),keyed,(),printed,(),correlation_validates id,(),most,(),costed,own⟩

theorem answered_entitled {base : StoreEncoding} {queue : QueueStore} {submitted : SubmitRequest}
    {clock : SubmitClock} {answer : SubmitOutcome × TaskRecord}
    (ok : submitTaskGoverned base s submitted clock = .ok (answer,queue)) :
    Entitled s submitted := by
  simp only [submitTaskGoverned,bind_ok,require_ok,exists_const,orFail_ok] at ok
  obtain ⟨_,valid,session,held,operator,limits,limited,_⟩ := ok
  rw [Option.filter_eq_some_iff,beq_iff_eq] at held
  obtain ⟨found,tenant⟩ := held
  obtain ⟨_,_⟩ := session
  simp only at tenant operator
  subst tenant operator
  exact ⟨valid,found,limited ▸ Option.some_ne_none _⟩

-- A submission that made a task, and whatever was asked of the site between it and a later state.
structure FirstSubmission (encoding : ApiEncoding) (server : Server) (who : Principal) (key : String)
    (body : SubmitBody) (request : HttpRequest) (moment : RequestMoment) (task : TaskResponse)
    (site later : Site) : Prop where
  run : SiteRun encoding server site
  vouched : Vouched encoding server site request.headers moment.now who
  keyed : request.headers.idempotencyKey = some key
  routed : request.route = .submitTask body
  created : (handle encoding server request moment site.gateway).1 = .ok (.submitted .created task)
  onward : Reaches (Site.next encoding server) InService
    (site.next encoding server (.request request moment)) later

structure SecondSubmission (encoding : ApiEncoding) (server : Server) (who : Principal) (key : String)
    (body : SubmitBody) (request : HttpRequest) (moment : RequestMoment) (later : Site) : Prop where
  vouched : Vouched encoding server later request.headers moment.now who
  keyed : request.headers.idempotencyKey = some key
  routed : request.route = .submitTask body

-- What the first submission is known by ever after.
structure Remembered (encoding : ApiEncoding) (server : Server) (who : Principal) (key : String)
    (body : SubmitBody) (task : TaskResponse) (later : Site) (requestId : String) (row : TaskRecord) :
    Prop where
  served : Served encoding server later
  stored : later.queue.tasks.lookup task.taskId = some row
  taskId : row.taskId = task.taskId
  tenant : row.tenantId = who.tenantId
  keyed : row.idempotencyKey = key
  printed : row.requestFingerprint = fingerprint encoding body key
  reference : ∃ reference, checkSubmission server who body = .ok reference ∧ SameReference row reference
  valid : ∃ reference drawn, validateSubmit (submission encoding who key requestId body reference drawn) =
    .ok ()
  correlated : row.envelope.executionContext.provenance.requestId = some requestId
  limited : later.queue.limits.lookup who.tenantId ≠ none

theorem first_remembered {key : String} {task : TaskResponse} {site later : Site}
    (first : FirstSubmission encoding server who key body request moment task site later) :
    ∃ row, Remembered encoding server who key body task later request.requestId row := by
  obtain ⟨run,vouched,keyed,routed,created,onward⟩ := first
  have served := site_served run
  rcases @submission_outcome _ _ _ request body moment _ served.books vouched routed with
    ⟨e,g,_,failed⟩ | ⟨key',reference,outcome,row,queue,accepted⟩
  · rw [failed] at created
    cases created
  obtain ⟨g,undisturbed,handled⟩ := accepted_handled served.books vouched routed accepted
  rw [handled] at created
  cases created
  obtain rfl := Option.some.inj (keyed.symm.trans accepted.keyed)
  obtain ⟨valid,limited,⟨approvalId,made⟩,stored⟩ := submission_entry accepted.answered
  have next : (site.next encoding server (.request request moment)).queue = queue := by
    change (handle encoding server request moment site.gateway).2.database.queue = _
    rw [handled]
    rfl
  have served' : Served encoding server (site.next encoding server (.request request moment)) :=
    site_served (Reaches.step run (show InService site (.request request moment) from trivial))
  have known : queue.limits.lookup who.tenantId ≠ none := by
    have ran : transaction encoding.toStoreEncoding
        (.submit (submission encoding who key request.requestId body reference
        moment.drawn) moment.clock) site.queue = .ok ((),queue) := by
      rw [transaction,accepted.answered]
      rfl
    rw [← exec_ok ran]
    exact limits_kept _ _ limited
  have taskId :
      row.taskId = (submission encoding who key request.requestId body reference
      moment.drawn).envelope.taskId := by
    rw [made]
    rfl
  obtain ⟨later_served,⟨row',found,same⟩,later_limited⟩ :=
    row_persists served' onward (next ▸ stored) (next ▸ known)
  refine ⟨row',later_served,?_,same.taskId,?_,?_,?_,⟨reference,accepted.checked,?_⟩,⟨_,_,valid⟩,?_,
    later_limited⟩
  · rw [show (TaskResponse.ofRecord row).taskId = row.taskId from rfl,taskId]
    exact found
  · rw [same.tenantId,made]
    rfl
  · rw [same.idempotencyKey,made]
    rfl
  · rw [same.fingerprint,made]
    rfl
  · refine ⟨?_,?_,?_⟩
    · rw [same.planId,made]
      rfl
    · rw [same.planRevision,made]
      rfl
    · rw [same.planDigest,made]
      rfl
  · rw [same.envelope,made]
    rfl

-- A submission that the queue answers under a key that is taken finds what the first one made.
theorem accepted_again {key requestId : String} {task : TaskResponse} {later : Site} {row found : TaskRecord}
    {other : SubmitBody} {reference : Option PlanTaskReference} {outcome : SubmitOutcome} {queue : QueueStore}
    (remembered : Remembered encoding server who key body task later requestId row)
    (accepted : Accepted encoding server who request other moment later.queue key reference outcome
      found queue) :
    outcome = .existing ∧ found = row ∧ queue = later.queue ∧
    fingerprint encoding other key = fingerprint encoding body key := by
  have rowed := (run_linked remembered.served.queue).rowed _ row remembered.stored
  have taken := @submit_taken encoding.toStoreEncoding _ _ moment.clock (run_unique remembered.served.queue)
    (answered_entitled accepted.answered) _ _ rowed remembered.stored remembered.tenant remembered.keyed
  rw [accepted.answered] at taken
  obtain ⟨_,agreed,same⟩ := bind_ok.mp taken.symm
  cases same
  exact ⟨rfl,rfl,rfl,(require_ok.mp agreed).1.symm.trans remembered.printed⟩

-- The repetition of a submission, with an identifier of its own and in a session of the same operator.
structure Repeats (who : Principal) (body other : SubmitBody) (again : HttpRequest) (later : Site) :
    Prop where
  material : other.material = body.material
  named : IsCorrelationId again.requestId
  session : later.queue.sessions.lookup other.sessionId = some ⟨who.tenantId,who.operatorId⟩

theorem repeated_accepted {key requestId : String} {task : TaskResponse} {later : Site} {row : TaskRecord}
    {other : SubmitBody} (remembered : Remembered encoding server who key body task later requestId row)
    (keyed : request.headers.idempotencyKey = some key) (repeats : Repeats who body other request later) :
    ∃ reference, Accepted encoding server who request other moment later.queue key reference .existing row
      later.queue := by
  obtain ⟨served,stored,_,tenant,key',printed,⟨reference,checked,referred⟩,⟨_,_,valid⟩,_,limited⟩ :=
    remembered
  obtain ⟨same,id,session⟩ := repeats
  have rowed := (run_linked served.queue).rowed _ row stored
  have entitled :
      Entitled later.queue (submission encoding who key request.requestId other reference moment.drawn) :=
    ⟨submission_again same id valid,session,limited⟩
  have taken := @submit_taken encoding.toStoreEncoding _ _ moment.clock (run_unique served.queue) entitled
    _ _ rowed stored tenant key'
  have material : row.requestFingerprint = fingerprint encoding other key := by
    rw [printed,fingerprint,fingerprint,same]
  rw [require_pos _ ⟨material,(samePlanReference_iff rowed reference).mpr referred⟩] at taken
  refine ⟨reference,keyed,⟨⟨who.tenantId,who.operatorId⟩,?_⟩,(checkSubmission_material same).trans checked,
    taken⟩
  rw [touchSession,session,orFail_ok]
  exact Option.filter_eq_some_iff.mpr ⟨rfl,beq_iff_eq.mpr rfl⟩

-- However late it comes and whatever was asked of the site meanwhile, a second submission under the key of
-- the first changes nothing that others see. It is answered with the task that the first one made or
-- refused; a repetition is answered, and nothing else than the first submission ever is.
theorem http_retry {key : String} {task : TaskResponse} {site later : Site} {again : HttpRequest}
    {moment' : RequestMoment} {other : SubmitBody}
    (first : FirstSubmission encoding server who key body request moment task site later)
    (second : SecondSubmission encoding server who key other again moment' later) :
    ∃ answer g, handle encoding server again moment' later.gateway = (answer,g) ∧ Undisturbed later g ∧
      ((∃ e, answer = .error e) ∨ ∃ task', answer = .ok (.submitted .existing task') ∧
        task'.taskId = task.taskId) ∧
      (Repeats who body other again later → ∃ task', answer = .ok (.submitted .existing task')) ∧
      (fingerprint encoding other key ≠ fingerprint encoding body key → ∃ e, answer = .error e) := by
  obtain ⟨row,remembered⟩ := first_remembered first
  have served := remembered.served
  by_cases answered : ∃ reference outcome found queue,
      Accepted encoding server who again other moment' later.queue key reference outcome found queue
  · obtain ⟨reference,outcome,found,queue,accepted⟩ := answered
    obtain ⟨rfl,rfl,rfl,printed⟩ := accepted_again remembered accepted
    obtain ⟨g,undisturbed,handled⟩ := accepted_handled served.books second.vouched second.routed accepted
    refine ⟨_,_,handled,⟨rfl,?_,undisturbed.signals⟩,.inr ⟨_,rfl,remembered.taskId⟩,fun _ => ⟨_,rfl⟩,
      fun differs => ?_⟩
    · simp only [submitAudits,reduceCtorEq,if_false,List.append_nil]
      exact undisturbed.audits
    · exact absurd printed differs
  · rcases @submission_outcome _ _ _ again other moment' _ served.books second.vouched second.routed with
      ⟨e,g,undisturbed,refused⟩ | ⟨key',reference,outcome,found,queue,accepted⟩
    · refine ⟨_,g,refused,undisturbed,.inl ⟨e,rfl⟩,fun repeats => ?_,fun _ => ⟨e,rfl⟩⟩
      obtain ⟨reference,accepted⟩ :=
        @repeated_accepted _ _ _ again body moment' _ _ _ _ _ _ remembered second.keyed repeats
      exact absurd ⟨reference,_,_,_,accepted⟩ answered
    · obtain rfl := Option.some.inj (second.keyed.symm.trans accepted.keyed)
      exact absurd ⟨reference,outcome,found,queue,accepted⟩ answered

-- The live task is submitted again after it was cancelled.

def openSite : Site := play (Site.next siteEncoding siteServer) .empty
  [.administer (.bootstrap trialAdmin) (second 0),.request openSession siteMoment]

def cancelledSite : Site := play (Site.next siteEncoding siteServer)
  (openSite.next siteEncoding siteServer (.request liveTask siteMoment)) [.request ⟨keyed,"cancel",
    .cancelTask ⟨70⟩⟩ siteMoment]

def repeatedTask : HttpRequest := {liveTask with requestId:="again"}

def createdTask : Except HttpError Answer → Option TaskId
  | .ok (.submitted .created task) => some task.taskId
  | _ => none

theorem createdTask_some {answer : Except HttpError Answer} {taskId : TaskId}
    (created : createdTask answer = some taskId) :
    ∃ task, answer = .ok (.submitted .created task) ∧ task.taskId = taskId := by
  unfold createdTask at created
  split at created
  · next task => exact ⟨task,rfl,Option.some.inj created⟩
  · cases created

theorem cancelled_first :
    ∃ task, FirstSubmission siteEncoding siteServer trialAdmin "once" ⟨0,"objective",0,none,some false,
    none,none,none,none,none⟩ liveTask siteMoment task openSite cancelledSite ∧ task.taskId = ⟨70⟩ := by
  have run : SiteRun siteEncoding siteServer openSite := by
    refine play_reaches (admitted_always fun event listed site => ?_)
    simp only [List.mem_cons,List.not_mem_nil,or_false] at listed
    rcases listed with rfl | rfl <;> trivial
  have onward : Reaches (Site.next siteEncoding siteServer) InService
      (openSite.next siteEncoding siteServer (.request liveTask siteMoment)) cancelledSite := by
    refine play_reaches (admitted_always fun event listed site => ?_)
    simp only [List.mem_cons,List.not_mem_nil,or_false] at listed
    subst listed
    trivial
  have answered :
      createdTask (handle siteEncoding siteServer liveTask siteMoment openSite.gateway).1 = some ⟨70⟩ := by
    decide +kernel
  obtain ⟨task,created,named⟩ := createdTask_some answered
  exact ⟨task,⟨run,keyed_vouched openSite _,rfl,rfl,created,onward⟩,named⟩

theorem http_retry_cancelled : ∃ task g, task.taskId = ⟨70⟩ ∧ Undisturbed cancelledSite g ∧
    handle siteEncoding siteServer repeatedTask siteMoment cancelledSite.gateway =
      (.ok (.submitted .existing task),g) := by
  have session :
      cancelledSite.queue.sessions.lookup 0 = some ⟨trialAdmin.tenantId,trialAdmin.operatorId⟩ := by
    decide +kernel
  obtain ⟨task,first,named⟩ := cancelled_first
  have second :
      SecondSubmission siteEncoding siteServer trialAdmin "once" _ repeatedTask siteMoment cancelledSite :=
    ⟨keyed_vouched cancelledSite _,rfl,rfl⟩
  obtain ⟨answer,g,handled,undisturbed,one,repeated,_⟩ := http_retry first second
  obtain ⟨task',rfl⟩ := repeated ⟨rfl,by decide,session⟩
  rcases one with ⟨_,failed⟩ | ⟨task'',same,own⟩
  · cases failed
  · cases same
    exact ⟨task',g,own.trans named,undisturbed,handled⟩

end Shaka.Properties
