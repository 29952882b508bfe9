import Shaka.Store.Linked

namespace Shaka.Store
open Shaka.Core Queue Plan CheckedSteps GuardedRuns

variable {encoding : StoreEncoding} {s s' : QueueStore}

-- The tables that neither a plan nor a worker writes.
def registry (s : QueueStore) :
    (AList fun _ : Uuid => SessionRow) × (AList fun _ : TenantId => TenantLimits) ×
    (AList fun _ : String × Time => Nat) := (s.sessions,s.limits,s.rateWindows)

@[simp] theorem storePlan_registry (s : QueueStore) (key : PlanKey) (tx : PlanTx) :
    registry (s.storePlan key tx) = registry s := rfl

@[simp] theorem updateTask_registry (s : QueueStore) (update : TaskUpdate) :
    registry (s.updateTask update) = registry s := by
  unfold QueueStore.updateTask
  split
  · split <;> rfl
  · rfl

theorem admitReference_registry {principal : Principal} {envelope : TaskEnvelope}
    {reference : Option PlanTaskReference} {clock : SubmitClock} {approvalId : Option Uuid}
    (ok : admitReference encoding s principal envelope reference clock = .ok (approvalId,s')) :
    registry s' = registry s := by
  unfold admitReference at ok
  split at ok
  · cases ok
    rfl
  · obtain ⟨tx,_,ok⟩ := bind_ok.mp ok
    obtain ⟨_,_,ok⟩ := bind_ok.mp ok
    cases ok
    rfl

theorem Submitted.tables {limits : TenantLimits} {request : SubmitRequest} {clock : SubmitClock}
    {admitted : QueueStore} {envelope : TaskEnvelope}
    (submitted : Submitted encoding s s' request clock limits admitted envelope) :
    admitted.tasks = s.tasks ∧ s.tasks.lookup envelope.taskId = none ∧
      s'.tasks = s.tasks.insert envelope.taskId (newTask request envelope clock.now) ∧
      registry s' = registry (countSubmission s request.principal limits clock.now) := by
  obtain ⟨_,_,_,_,⟨_,admission⟩,_,_,_,absent,_,rfl⟩ := submitted
  have kept : admitted.tasks = s.tasks :=
    (admitReference_tasks admission).trans (countSubmission_tables s request.principal limits clock.now).2
  have counted := admitReference_registry admission
  refine ⟨kept,?_,by rw [← kept],counted⟩
  rw [← kept]
  exact AList.lookup_eq_none.mpr absent

theorem claim_registry {now leaseFor : Time} {planContext : PlanClaimContext} {answer : Option TaskRecord}
    (ok : claimNextWithPlanContext encoding s now leaseFor planContext = .ok (answer,s')) :
    registry s' = registry s := by
  simp only [claimNextWithPlanContext,bind_ok,require_ok,exists_const] at ok
  rcases claimFirst_parts ok.2 with ⟨_,rfl,_⟩ | ⟨_,candidate,_,task,bound,prepared,claimed,_,_,
    preparation,leased,_⟩
  · rfl
  have lease : registry s' = registry prepared := by
    simp only [leaseTask,bind_ok,pure_ok,Prod.mk.injEq] at leased
    obtain ⟨_,_,_,rfl⟩ := leased
    rw [updateTask_registry]
    rfl
  rw [lease]
  obtain ⟨_,_,_,⟨_,_,rfl⟩ | ⟨reference,rows,step,tx',_,_,_,_,rfl⟩⟩ := prepareCandidate_parts preparation
  · rfl
  · rfl

theorem recover_registry {now : Time} {answer : Nat}
    (ok : recoverExpiredLeases encoding s now = .ok (answer,s')) :
    registry s' = registry s := by
  simp only [recoverExpiredLeases,bind_ok,pure_ok,Prod.mk.injEq] at ok
  obtain ⟨_,ran,_,rfl⟩ := ok
  refine foldEach_preserves (motive := fun s' =>
    registry s' = registry s) (fun s₁ candidate s₂ _ kept ok => ?_) rfl ran
  rw [← kept]
  obtain ⟨task,_,⟨_,rfl⟩ | ⟨_,_,_,_,_,_,_,rfl⟩⟩ := recoverCandidate_parts ok <;> simp

theorem resume_registry (encoding : StoreEncoding) (s : QueueStore) (tenantId : TenantId) (planId : PlanId)
    (now : Time) : registry (resumePlan encoding s tenantId planId now).2 = registry s := by
  rcases resumePlan_parts encoding s tenantId planId now with same | ⟨key,rows,loaded,resumption⟩
  · rw [same]
  generalize (resumePlan encoding s tenantId planId now).2 = s' at resumption ⊢
  cases resumption <;> rfl

-- What each operation makes of the registry.
inductive RegistryChange (s s' : QueueStore) : Operation → Prop
  | kept : registry s' = registry s → RegistryChange s s' op
  | bootstrapped : s.limits.lookup principal.tenantId = none →
      s' = {s with limits:=s.limits.insert principal.tenantId defaultLimits} →
      RegistryChange s s' (.bootstrapPrincipal principal)
  | limited : validateLimits limits = .ok () → s' = {s with limits:=s.limits.insert tenantId limits} →
      RegistryChange s s' (.setLimits tenantId limits)
  | opened : s' = {s with
      sessions:=s.sessions.insert s.nextUuid ⟨principal.tenantId,principal.operatorId⟩
      nextUuid:=s.nextUuid + 1} → RegistryChange s s' (.createSession principal)
  | counted : s.limits.lookup request.principal.tenantId = some limits →
      registry s' = registry (countSubmission s request.principal limits clock.now) →
      RegistryChange s s' (.submit request clock)

theorem exec_registry (encoding : StoreEncoding) (s : QueueStore) (op : Operation) :
    RegistryChange s (exec encoding s op) op := by
  rcases exec_cases encoding s op with same | ok
  · rw [same]
    exact .kept rfl
  generalize exec encoding s op = s' at ok
  cases op with
  | bootstrapPrincipal principal =>
    simp only [transaction,bootstrapPrincipal,bind_ok] at ok
    obtain ⟨_,_,_,_,ok⟩ := ok
    split at ok
    · cases ok
      exact .kept rfl
    · next absent =>
      cases ok
      exact .bootstrapped absent rfl
  | setLimits tenantId limits =>
    simp only [transaction,storeOf_ok,setLimits,bind_ok,pure_ok,Prod.mk.injEq] at ok
    obtain ⟨_,_,valid,_,_,_,rfl⟩ := ok
    exact .limited valid rfl
  | createSession principal =>
    cases ok
    exact .opened rfl
  | savePlan plan =>
    obtain ⟨answer,ok⟩ := storeOf_ok.mp ok
    rcases savePlan_parts ok with rfl | ⟨_,_,_,_,_,rfl⟩ <;> exact .kept rfl
  | submit request clock =>
    obtain ⟨answer,ok⟩ := storeOf_ok.mp ok
    rcases submit_parts ok with ⟨_,rfl⟩ | ⟨limits,admitted,envelope,_,submitted⟩
    · exact .kept rfl
    · obtain ⟨_,limited,_,_,⟨_,admission⟩,_,_,_,_,_,rfl⟩ := submitted
      have counted := admitReference_registry admission
      exact .counted limited counted
  | approvePlan principal approval key now =>
    obtain ⟨answer,ok⟩ := storeOf_ok.mp ok
    rcases approvePlan_parts ok with rfl | ⟨_,_,_,_,_,rfl⟩ <;> exact .kept rfl
  | claim now leaseFor planContext =>
    obtain ⟨answer,ok⟩ := storeOf_ok.mp ok
    exact .kept (claim_registry ok)
  | finish taskId tenantId leaseToken report now planContext =>
    obtain ⟨answer,ok⟩ := storeOf_ok.mp ok
    rcases finish_parts ok with rfl | ⟨_,_,_,_,_,_,⟨_,rfl⟩ | ⟨_,_,_,_,_,_,_,_,rfl⟩⟩ <;> exact .kept (by simp)
  | requestCancel taskId tenantId now =>
    obtain ⟨answer,ok⟩ := storeOf_ok.mp ok
    rcases requestCancel_parts ok with ⟨_,rfl⟩ | ⟨_,_,_,_,⟨_,rfl⟩ | ⟨_,_,_,_,_,_,rfl⟩⟩ <;>
      exact .kept (by simp)
  | recoverExpiredLeases now =>
    obtain ⟨answer,ok⟩ := storeOf_ok.mp ok
    exact .kept (recover_registry ok)
  | resolvePlanUnknown request now =>
    obtain ⟨answer,ok⟩ := storeOf_ok.mp ok
    rcases resolvePlanUnknown_parts ok with rfl | ⟨_,_,_,_,_,_,resolution⟩
    · exact .kept rfl
    · rw [resolution.stored]
      exact .kept (by simp)
  | resumePlan tenantId planId now =>
    cases ok
    exact .kept (resume_registry encoding s tenantId planId now)

-- The windows of a scope.

theorem windowCount_countRequest (start start' : Time) (s : QueueStore) (scope scope' : String) :
    windowCount (countRequest start s scope) scope' start' =
      windowCount s scope' start' + if (scope',start') = (scope,start) then 1 else 0 := by
  simp only [windowCount,countRequest,lookup_insert_eq]
  split
  · next same =>
    obtain ⟨rfl,rfl⟩ := Prod.mk.inj same
    simp
  · rfl

theorem windowCount_registry (same : registry s' = registry s) (scope : String) (start : Time) :
    windowCount s' scope start = windowCount s scope start := by
  have windows : s'.rateWindows = s.rateWindows := congrArg (·.2.2) same
  rw [windowCount,windows,windowCount]

-- The limits of every tenant are ones that were validated.
def LimitsValid (s : QueueStore) : Prop :=
  ∀ tenantId limits, s.limits.lookup tenantId = some limits → validateLimits limits = .ok ()

theorem LimitsValid.insert {tenantId : TenantId} {limits : TenantLimits} (valid : LimitsValid s)
    (checked : validateLimits limits = .ok ()) :
    LimitsValid {s with limits:=s.limits.insert tenantId limits} := by
  intro other limits' found
  rw [lookup_insert_eq] at found
  split at found
  · cases found
    exact checked
  · exact valid other limits' found

theorem run_limits {allowed : QueueStore → Operation → Prop} (run : Run encoding allowed s) :
    LimitsValid s := by
  refine run.invariant (fun tenantId limits found => by cases found) fun s op valid _ => ?_
  have same : ∀ s', s'.limits = s.limits → LimitsValid s' := fun s' limits tenantId found => by
    rw [limits]
    exact valid tenantId found
  have change := exec_registry encoding s op
  generalize exec encoding s op = s' at change
  cases change with
  | kept kept => exact same s' (congrArg (·.2.1) kept)
  | bootstrapped _ made =>
    rw [made]
    exact valid.insert rfl
  | limited checked made =>
    rw [made]
    exact valid.insert checked
  | opened made => exact same s' (by rw [made])
  | counted _ counted => exact same s' (congrArg (·.2.1) counted)

end Shaka.Store
