import Shaka.Properties.GatewayRequests

namespace Shaka.Properties
open Shaka.Core Queue Store Api CheckedSteps KeptState GuardedRuns

variable {encoding : ApiEncoding} {server : Server} {known wider : Principal → Prop} {s s' : QueueStore}
  {op : Operation}

-- Whom a site knows: the principal that it was started for, and those with a token.
def Known (server : Server) (site : Site) (who : Principal) : Prop :=
  who = server.principal ∨ ∃ issue ∈ site.issued, who = issue.principal

-- What a submission leaves of its envelope.
structure Entrusted (server : Server) (who : Principal) (row : TaskRecord) : Prop where
  tenantId : row.tenantId = who.tenantId
  owner : row.envelope.tenantId = who.tenantId
  operatorId : row.envelope.operatorId = who.operatorId
  context : ∃ requestId approvalId, row.envelope.executionContext =
    (ExecutionContext.fromPrincipal who).withProvenance requestId approvalId
  live : row.envelope.dryRun = false → LiveAllowed server who ∧ row.planId = none

structure Provenance (server : Server) (known : Principal → Prop) (s : QueueStore) : Prop where
  sessions : ∀ sessionId row, s.sessions.lookup sessionId = some row →
    ∃ who, known who ∧ row = ⟨who.tenantId,who.operatorId⟩
  plans : ∀ key rows, s.plans.lookup key = some rows → ∃ who, known who ∧ rows.plan.tenantId = who.tenantId ∧
    rows.plan.operatorId = who.operatorId ∧ rows.plan.mode = .dryRun
  tasks : ∀ taskId row, s.tasks.lookup taskId = some row → ∃ who, known who ∧ Entrusted server who row

theorem Provenance.weaken (provenance : Provenance server known s) (included : ∀ who, known who → wider who) :
    Provenance server wider s := by
  refine ⟨fun sessionId row found => ?_,fun key rows found => ?_,fun taskId row found => ?_⟩
  · obtain ⟨who,old,same⟩ := provenance.sessions sessionId row found
    exact ⟨who,included who old,same⟩
  · obtain ⟨who,old,same⟩ := provenance.plans key rows found
    exact ⟨who,included who old,same⟩
  · obtain ⟨who,old,same⟩ := provenance.tasks taskId row found
    exact ⟨who,included who old,same⟩

theorem Entrusted.carried {who : Principal} {row row' : TaskRecord} (entrusted : Entrusted server who row)
    (same : SameIdentity row row') : Entrusted server who row' := by
  obtain ⟨tenant,owner,operator,context,live⟩ := entrusted
  refine ⟨same.tenantId.trans tenant,?_,?_,?_,?_⟩
  · rw [same.envelope]
    exact owner
  · rw [same.envelope]
    exact operator
  · rw [same.envelope]
    exact context
  · rw [same.envelope,same.planId]
    exact live

-- The row that a submission enters.
theorem submit_enters {request : SubmitRequest} {clock : SubmitClock} {base : StoreEncoding}
    (ran : submitTaskGoverned base s request clock = .ok (answer,s')) : s' = s ∨
    ∃ approvalId, s'.tasks = s.tasks.insert request.envelope.taskId (newTask request {request.envelope with
      executionContext:=(ExecutionContext.fromPrincipal request.principal).withProvenance request.requestId
        approvalId}
      clock.now) ∧ validateSubmit request = .ok () := by
  simp only [submitTaskGoverned,bind_ok,require_ok,exists_const,orFail_ok] at ran
  obtain ⟨_,valid,_,_,_,limits,_,ran⟩ := ran
  split at ran
  · simp only [bind_ok,require_ok,pure_ok,exists_const,Prod.mk.injEq] at ran
    obtain ⟨_,_,_,rfl,rfl⟩ := ran
    exact .inl rfl
  · simp only [bind_ok,require_ok,pure_ok,exists_const,Prod.mk.injEq] at ran
    obtain ⟨_,_,⟨approvalId,admitted⟩,admission,_,_,_,_,_,_,rfl⟩ := ran
    have kept : admitted.tasks = s.tasks :=
      (admitReference_tasks admission).trans (countSubmission_tables s request.principal limits clock.now).2
    exact .inr ⟨approvalId,by rw [← kept],valid⟩

theorem submission_entrusted {who : Principal} {request : SubmitRequest} {now : Time}
    {approvalId : Option Uuid} (own : request.principal = who) (valid : validateSubmit request = .ok ())
    (live : request.envelope.dryRun = true ∨ LiveAllowed server who ∧ request.planReference = none) :
    Entrusted server who (newTask request {request.envelope with
      executionContext:=(ExecutionContext.fromPrincipal request.principal).withProvenance request.requestId
          approvalId} now) := by
  subst own
  simp only [validateSubmit,bind_ok,require_ok,exists_const] at valid
  obtain ⟨_,_,_,_,_,_,_,_,_,tenant,operator⟩ := valid
  refine ⟨rfl,tenant,operator,⟨_,_,rfl⟩,fun acts => ?_⟩
  rcases live with dry | ⟨allowed,direct⟩
  · cases dry.symm.trans acts
  · exact ⟨allowed,by rw [newTask,direct]; rfl⟩

-- What the operations of a site leave of the provenance; background operations enter nothing.
theorem exec_provenance {base : StoreEncoding} (linked : Linked base s)
    (may : Background op ∨ ∃ who, known who ∧ Commanded server who op)
    (provenance : Provenance server known s) : Provenance server known (exec base s op) := by
  have registered := exec_registry base s op
  have carries := exec_carries base s op
  have rows := exec_rows linked op
  refine ⟨?_,fun key rows found => ?_,fun taskId row' found => ?_⟩
  · generalize exec base s op = after at registered
    have same : registry after = registry s → after.sessions = s.sessions := fun same => congrArg (·.1) same
    cases registered with
    | kept kept => exact same kept ▸ provenance.sessions
    | bootstrapped _ made => exact made ▸ provenance.sessions
    | limited _ made => exact made ▸ provenance.sessions
    | counted _ made =>
      exact (show after.sessions = s.sessions from congrArg (·.1) made) ▸ provenance.sessions
    | @opened principal made =>
      rcases may with nothing | ⟨who,old,commanded⟩
      · exact absurd nothing not_false
      cases commanded
      subst made
      intro sessionId row found
      by_cases fresh : sessionId = s.nextUuid
      · subst fresh
        exact ⟨principal,old,(Option.some.inj ((AList.lookup_insert _).symm.trans found)).symm⟩
      · exact provenance.sessions sessionId row ((AList.lookup_insert_ne fresh).symm.trans found)
  · rcases carries.origin key rows found with ⟨before,stored,same⟩ | saving
    · rw [same]
      exact provenance.plans key before stored
    · subst saving
      rcases may with nothing | ⟨who,old,commanded⟩
      · exact absurd nothing not_false
      cases commanded with
      | savePlan tenant operator mode _ => exact ⟨who,old,tenant,operator,mode⟩
  · have change := rows taskId
    rw [found] at change
    generalize before : s.tasks.lookup taskId = was at change
    cases change with
    | kept => exact provenance.tasks taskId row' before
    | stepped step =>
      obtain ⟨who,old,entrusted⟩ := provenance.tasks taskId _ before
      exact ⟨who,old,entrusted.carried step.identity⟩
    | @entered request envelope clock _ _ =>
      rcases may with nothing | ⟨who,old,commanded⟩
      · exact absurd nothing not_false
      cases commanded with
      | submit own live =>
        refine ⟨who,old,?_⟩
        rcases exec_cases base s (.submit request clock) with same | ran
        · rw [same,before] at found
          cases found
        obtain ⟨answer,ran⟩ := storeOf_ok.mp ran
        rcases submit_enters ran with same | ⟨approvalId,tasks,valid⟩
        · rw [same,before] at found
          cases found
        rw [tasks,lookup_insert_eq] at found
        split at found
        · rw [← Option.some.inj found]
          exact submission_entrusted own valid live
        · rw [before] at found
          cases found

theorem empty_provenance : Provenance server known .empty := by
  refine ⟨fun _ _ found => ?_,fun _ _ found => ?_,fun _ _ found => ?_⟩
  · cases found
  · cases found
  · cases found

-- A site forgets nobody.
theorem known_kept {site : Site} {who : Principal} (event : SiteEvent) (old : Known server site who) :
    Known server (site.next encoding server event) who := by
  rcases old with own | ⟨issue,issued,holder⟩
  · exact .inl own
  refine .inr ⟨issue,?_,holder⟩
  cases event with
  | request request moment => exact issued
  | background op => exact issued
  | administer call now =>
    change issue ∈ (record encoding.toEncoding site.ledger (call,now)).issued
    cases call with
    | issueToken operatorId expiresAt drawn =>
      simp only [record]
      split
      · exact List.mem_append_left _ issued
      · exact issued
    | revokeToken tokenId =>
      simp only [record]
      split <;> exact issued
    | bootstrap => exact issued
    | createTenant => exact issued
    | createUser => exact issued
    | authenticate => exact issued

theorem vouched_known {site : Site} {headers : RequestHeaders} {now : Time} {who : Principal}
    (vouched : Vouched encoding server site headers now who) : Known server site who := by
  unfold Vouched at vouched
  split at vouched
  · rcases vouched with ⟨_,same⟩ | ⟨_,_,_,issue,force,_,same⟩
    · exact .inl same
    · exact .inr ⟨issue,force.1,same⟩
  · exact .inl vouched.2.2

-- In every state of a site all sessions, plans and tasks are those of principals that it was started
-- for or gave a token to: the plans are dry runs, the tasks run with the role of whoever submitted
-- them, and a task that is no dry run follows no plan and is an administrator's whom the
-- configuration lets act. The queue itself is always one that its operations lead to without any
-- recovery of plans, so that whatever holds of such runs holds here.
theorem site_provenance {site : Site} (run : SiteRun encoding server site) :
    Provenance server (Known server site) site.queue ∧ Run encoding.toStoreEncoding Ordinary site.queue := by
  refine ⟨?_,(site_served run).queue.weaken fun _ _ may => inSite_ordinary may⟩
  apply run.invariant_under (fun _ reached => site_served reached)
  · exact empty_provenance
  · intro site event served provenance guard
    have linked := run_linked served.queue
    have kept := provenance.weaken fun who old => @known_kept encoding server site who event old
    cases event with
    | request request moment =>
      change Provenance server _ (handle encoding server request moment site.gateway).2.database.queue
      rcases handle_cases served.books linked request moment with ⟨who,g,vouched,queue,_,carried,
        _⟩ | ⟨_,refused⟩
      · generalize (handle encoding server request moment site.gateway).2 = after at carried kept
        cases carried with
        | untouched => exact queue ▸ kept
        | looked => exact queue ▸ kept
        | @acted op made line signals commanded ran _ =>
          rw [queue] at ran
          change Provenance server _ made
          rw [← exec_ok ran]
          exact exec_provenance linked (.inr ⟨who,vouched_known vouched,commanded⟩) provenance
      · rw [refused]
        exact provenance
    | administer call now =>
      change Provenance server _ (record encoding.toEncoding site.ledger (call,now)).database.queue
      rcases administered encoding.toStoreEncoding site.ledger call now with same | ⟨principal,made⟩
      · rw [same]
        exact kept
      · rw [made]
        exact exec_provenance linked (.inl trivial) kept
    | background op => exact exec_provenance linked (.inl guard) kept

-- An administrator's live task.
def liveTask : HttpRequest :=
  ⟨keyed,"request",.submitTask ⟨0,"objective",0,none,some false,none,none,none,none,none⟩⟩

def liveSite : Site := play (Site.next siteEncoding siteServer) .empty
  [.administer (.bootstrap trialAdmin) (second 0),.request openSession siteMoment,
    .request liveTask siteMoment]

theorem liveSite_run : SiteRun siteEncoding siteServer liveSite := by
  refine play_reaches (admitted_always fun event listed site => ?_)
  simp only [List.mem_cons,List.not_mem_nil,or_false] at listed
  rcases listed with rfl | rfl | rfl <;> trivial

theorem site_provenance_live :
    ∃ row who, liveSite.queue.tasks.lookup ⟨70⟩ = some row ∧ row.envelope.dryRun = false ∧
    Known siteServer liveSite who ∧ Entrusted siteServer who row := by
  have submitted : (liveSite.queue.tasks.lookup ⟨70⟩).map (·.envelope.dryRun) = some false := by
    decide +kernel
  obtain ⟨row,found,live⟩ := Option.map_eq_some_iff.mp submitted
  obtain ⟨provenance,_⟩ := site_provenance liveSite_run
  obtain ⟨who,known,entrusted⟩ := provenance.tasks _ row found
  exact ⟨row,who,found,live,known,entrusted⟩

end Shaka.Properties
