import Shaka.Store.TenantViews

namespace Shaka.Store
open Shaka.Core Queue Plan CheckedSteps

variable {encoding : StoreEncoding} {tenantId owner : TenantId} {ours : OperatorId → Prop} {s s' : QueueStore}

-- The tenant on whose behalf an operation is made; claims and the recovery of leases
-- are for all of them.
def onBehalfOf : Operation → Option TenantId
  | .bootstrapPrincipal principal | .createSession principal | .approvePlan principal _ _ _ =>
    some principal.tenantId
  | .setLimits tenantId _ | .requestCancel _ tenantId _ | .resumePlan tenantId _ _ => some tenantId
  | .finish _ tenantId _ _ _ _ => some tenantId
  | .savePlan plan => some plan.tenantId
  | .submit request _ => some request.principal.tenantId
  | .resolvePlanUnknown request _ => some request.principal.tenantId
  | .claim .. | .recoverExpiredLeases _ => none

def SubmitsAs (operators : OperatorId → Prop) : Operation → Prop
  | .submit request _ => operators request.principal.operatorId
  | _ => True

-- The session, task, plan or approval that the operation would enter is not one of
-- another tenant.
def Apart (s : QueueStore) : Operation → Prop
  | .createSession principal =>
    ∀ row, s.sessions.lookup s.nextUuid = some row → row.tenantId = principal.tenantId
  | .submit request _ =>
    ∀ row, s.tasks.lookup request.envelope.taskId = some row → row.tenantId = request.principal.tenantId
  | .savePlan plan =>
    ∀ rows, s.plans.lookup (plan.planId,plan.revision) = some rows → rows.tenantId = plan.tenantId
  | .approvePlan principal approval _ _ => ∀ rows ∈ s.planRows,
      approval.approvalId ∈ rows.approvals.map (·.approval.approvalId) → rows.tenantId = principal.tenantId
  | _ => True

-- What an operation for one tenant leaves of the rows of another.

theorem plans_aside {key : PlanKey} {rows : PlanRows} {tx' : PlanTx} (differs : owner ≠ tenantId)
    (stored : s.plans.lookup key = some rows) (own : rows.tenantId = owner)
    (same : tx'.rows.tenantId = rows.tenantId) (plans : s'.plans = s.plans.insert key tx'.rows) :
    Tables.AgreeOn (fun rows => rows.tenantId == tenantId) s'.plans s.plans := by
  rw [plans]
  refine .aside (fun old found => ?_) (by simp [same,own,differs])
  obtain rfl := Option.some.inj (stored.symm.trans found)
  simp [own,differs]

theorem admitReference_aside {principal : Principal} {envelope : TaskEnvelope}
    {reference : Option PlanTaskReference} {clock : SubmitClock} {approvalId : Option Uuid}
    (differs : principal.tenantId ≠ tenantId)
    (ok : admitReference encoding s principal envelope reference clock = .ok (approvalId,s')) :
    Tables.AgreeOn (fun rows => rows.tenantId == tenantId) s'.plans s.plans := by
  unfold admitReference at ok
  split at ok
  · cases ok
    exact .refl _
  · obtain ⟨tx,begun,ok⟩ := bind_ok.mp ok
    obtain ⟨⟨_,tx'⟩,recorded,ok⟩ := bind_ok.mp ok
    cases ok
    obtain ⟨rows,stored,rfl⟩ := beginPlan_ok begun
    obtain ⟨_,ran,rfl,verified⟩ := recordPlanAdmissionTx_writes.done _ recorded
    exact plans_aside differs stored (loadPlanTx_ok.mp verified.loaded).2.1 ran.edits.same.tenantId rfl

theorem exec_plans_aside {op : Operation} (behalf : onBehalfOf op = some owner) (differs : owner ≠ tenantId) :
    Tables.AgreeOn (fun rows => rows.tenantId == tenantId) (exec encoding s op).plans s.plans := by
  rcases exec_cases encoding s op with same | ok
  · rw [same]
    exact .refl _
  generalize exec encoding s op = s' at ok
  cases op with
  | bootstrapPrincipal principal =>
    simp only [transaction,bootstrapPrincipal,bind_ok] at ok
    obtain ⟨_,_,_,_,ok⟩ := ok
    split at ok <;> cases ok <;> exact .refl _
  | setLimits _ limits =>
    simp only [transaction,storeOf_ok,setLimits,bind_ok,pure_ok,Prod.mk.injEq] at ok
    obtain ⟨_,_,_,_,_,_,rfl⟩ := ok
    exact .refl _
  | createSession principal =>
    cases ok
    exact .refl _
  | savePlan plan =>
    cases behalf
    obtain ⟨answer,ok⟩ := storeOf_ok.mp ok
    rcases savePlan_parts ok with rfl | ⟨steps,_,_,absent,_,rfl⟩
    · exact .refl _
    · exact .aside (fun old found => by rw [absent] at found; cases found) (by simp [freshRows,differs])
  | submit request clock =>
    cases behalf
    obtain ⟨answer,ok⟩ := storeOf_ok.mp ok
    rcases submit_parts ok with ⟨_,rfl⟩ | ⟨limits,admitted,envelope,_,submitted⟩
    · exact .refl _
    · obtain ⟨_,_,_,_,⟨_,admission⟩,_,_,_,_,_,rfl⟩ := submitted
      exact (admitReference_aside differs admission).trans
        (.of_eq (countSubmission_tables s request.principal limits clock.now).1)
  | approvePlan principal approval key now =>
    cases behalf
    obtain ⟨answer,ok⟩ := storeOf_ok.mp ok
    rcases approvePlan_parts ok with rfl | ⟨rows,tx',stored,own,decided,rfl⟩
    · exact .refl _
    · exact plans_aside differs stored own (SameSpec.decided decided.edits.same).2.1 rfl
  | claim now leaseFor planContext => cases behalf
  | finish taskId _ leaseToken report now planContext =>
    cases behalf
    obtain ⟨answer,ok⟩ := storeOf_ok.mp ok
    rcases finish_parts ok with rfl | ⟨task,_,tenant,_,_,_,⟨_,rfl⟩ | ⟨reference,rows,outcome,tx',update,_,
      stored,ran,rfl⟩⟩
    · exact .refl _
    · exact .of_eq (updateTask_plans _ _)
    · have same := (@finishPlannedStepTx_reworks _ (fun _ _ => False) _ _ _ _ _ _ _ ran).same
      simp only [finishPlannedStepTx,bind_ok] at ran
      obtain ⟨_,loaded,_⟩ := ran
      exact plans_aside differs stored ((loadPlanTx_ok.mp loaded).2.1.trans tenant) same.tenantId
        (updateTask_plans _ _)
  | requestCancel taskId _ now =>
    cases behalf
    obtain ⟨answer,ok⟩ := storeOf_ok.mp ok
    rcases requestCancel_parts ok with ⟨_,rfl⟩ | ⟨task,_,tenant,_,⟨_,rfl⟩ | ⟨reference,rows,tx',_,
      stored,ran,rfl⟩⟩
    · exact .refl _
    · exact .of_eq (updateTask_plans _ _)
    · have same := (@cancelPlannedTaskTx_reworks _ (fun _ _ => False) _ _ _ _ _ ran).same
      simp only [cancelPlannedTaskTx,bind_ok] at ran
      obtain ⟨_,loaded,_⟩ := ran
      exact plans_aside differs stored ((loadPlanTx_ok.mp loaded).2.1.trans tenant) same.tenantId
        (updateTask_plans _ _)
  | recoverExpiredLeases now => cases behalf
  | resolvePlanUnknown request now =>
    cases behalf
    obtain ⟨answer,ok⟩ := storeOf_ok.mp ok
    rcases resolvePlanUnknown_parts ok with rfl | ⟨key,rows,task,tx',noted,update,resolution⟩
    · exact .refl _
    · have same := (@Resolution.reworks _ _ _ (fun _ _ => True) _ _ _ _ _ _ _ _ resolution trivial).same
      exact plans_aside differs resolution.loaded.stored resolution.loaded.own same.tenantId resolution.plans
  | resumePlan _ planId now =>
    cases behalf
    cases ok
    rcases resumePlan_parts encoding s owner planId now with same | ⟨key,rows,loaded,resumption⟩
    · rw [same]
      exact .refl _
    generalize (resumePlan encoding s owner planId now).2 = s' at resumption ⊢
    cases resumption with
    | quarantined =>
      exact plans_aside differs loaded.stored loaded.own (@forceUnknownTx_reworks encoding (fun _ _ =>
        False) ⟨rows,s.nextUuid⟩ _).same.tenantId rfl
    | recovered _ _ ok =>
      exact plans_aside differs loaded.stored loaded.own (@recoverUnknownTx_reworks _ (fun _ _ =>
        False) _ _ _ _ _ _ ok).same.tenantId rfl

theorem exec_tasks_aside {op : Operation} (linked : Linked encoding s) (behalf : onBehalfOf op = some owner)
    (differs : owner ≠ tenantId) :
    Tables.AgreeOn (fun row => row.tenantId == tenantId) (exec encoding s op).tasks s.tasks := by
  intro taskId
  have change := exec_rows linked op taskId
  generalize s.tasks.lookup taskId = was at change
  generalize (exec encoding s op).tasks.lookup taskId = now at change
  cases change with
  | kept => rfl
  | entered =>
    cases behalf
    simp [newTask,differs]
  | @stepped _ row row' step =>
    have same := step.identity.tenantId
    have own : row.tenantId = owner := by
      cases step with
      | claimed | recovered | expired => cases behalf
      | finished | cancelled => exact Option.some.inj behalf
      | resolved _ tenant => exact tenant.trans (Option.some.inj behalf)
    simp [Option.filter_some,same,own,differs]

-- The scopes in which the requests of other operators of other tenants are counted.

theorem tenantScope_unique {a b : String} (same : s!"tenant:{a}:submit" = s!"tenant:{b}:submit") : a = b := by
  have letters := congrArg String.toList same
  simp only [toString,String.toList_append] at letters
  exact String.toList_inj.mp (List.append_cancel_left (List.append_cancel_right letters))

theorem operatorScope_unique {a b : String} (same : s!"operator:{a}:submit" = s!"operator:{b}:submit") :
    a = b := by
  have letters := congrArg String.toList same
  simp only [toString,String.toList_append] at letters
  exact String.toList_inj.mp (List.append_cancel_left (List.append_cancel_right letters))

theorem scopes_differ (a b : String) : s!"tenant:{a}:submit" ≠ s!"operator:{b}:submit" := by
  intro same
  have letters := congrArg String.toList same
  simp [toString] at letters

theorem submitScopes_disjoint {principal other : Principal} (tenants : principal.tenantId ≠ other.tenantId)
    (operators : principal.operatorId ≠ other.operatorId) :
    ∀ scope ∈ submitScopes principal, scope ∉ submitScopes other := by
  intro scope listed listed'
  simp only [submitScopes,List.mem_cons,List.not_mem_nil,or_false] at listed listed'
  rcases listed with rfl | rfl <;> rcases listed' with same | same
  · exact tenants (congrArg TenantId.mk (tenantScope_unique same))
  · exact scopes_differ _ _ same
  · exact scopes_differ _ _ same.symm
  · exact operators (congrArg OperatorId.mk (operatorScope_unique same))

theorem windowCount_others {principal : Principal} {limits : TenantLimits} {now : Time} {scope : String}
    (unlisted : scope ∉ submitScopes principal) (start : Time) :
    windowCount (countSubmission s principal limits now) scope start = windowCount s scope start := by
  simp only [submitScopes,List.mem_cons,List.not_mem_nil,or_false,not_or] at unlisted
  simp only [countSubmission,submitScopes,List.foldl_cons,List.foldl_nil,windowCount_countRequest,
    Prod.mk.injEq,unlisted.1,unlisted.2,false_and,if_false,Nat.add_zero]

theorem exec_aside {op : Operation} (linked : Linked encoding s) (behalf : onBehalfOf op = some owner)
    (differs : owner ≠ tenantId) (apart : Apart s op)
    (operators : SubmitsAs (fun operatorId => ¬ ours operatorId) op) :
    Alike tenantId ours (exec encoding s op) s := by
  have plans := @exec_plans_aside encoding tenantId owner s op behalf differs
  have tasks := exec_tasks_aside linked behalf differs
  have change := exec_registry encoding s op
  generalize exec encoding s op = s' at change plans tasks
  cases change with
  | kept same =>
    refine ⟨.of_eq (congrArg (·.1) same),congrArg (·.2.1.lookup tenantId) same,fun _ _ _ scope _ start =>
      ?_,tasks,plans⟩
    exact windowCount_registry same scope start
  | bootstrapped _ made | limited _ made =>
    cases behalf
    subst made
    exact ⟨.refl _,AList.lookup_insert_ne differs.symm,fun _ _ _ _ _ _ => rfl,tasks,plans⟩
  | opened made =>
    cases behalf
    subst made
    refine ⟨.aside (fun old found => ?_) (by simpa using differs),rfl,fun _ _ _ _ _ _ => rfl,tasks,plans⟩
    simp [apart old found,differs]
  | counted _ counted =>
    cases behalf
    refine ⟨.of_eq (congrArg (·.1) counted),congrArg (·.2.1.lookup tenantId) counted,
      fun principal tenant our scope listed start => ?_,tasks,plans⟩
    rw [windowCount_registry counted,windowCount_others]
    refine submitScopes_disjoint (fun same => differs (same.symm.trans tenant)) (fun same =>
      operators (same ▸ our)) scope listed

end Shaka.Store
