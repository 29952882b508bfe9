import Shaka.Store.TenantSteps
import Shaka.Store.TenantFrames
import Shaka.Properties.Idempotency

namespace Shaka.Properties
open Shaka.Core Queue Plan Store CheckedSteps PairedSteps GuardedRuns

variable {encoding : StoreEncoding} {tenantId : TenantId} {ours : OperatorId → Prop} {s t : QueueStore}

-- The task that a key of the tenant is taken by.
theorem twin_taken (twin : Twin tenantId ours s t) (unique : KeysUnique t) (key : String) :
    s.taskRows.find? (fun task => task.tenantId == tenantId && task.idempotencyKey == key) =
      t.taskRows.find? fun task => task.tenantId == tenantId && task.idempotencyKey == key := by
  cases first : s.taskRows.find? (fun task => task.tenantId == tenantId && task.idempotencyKey == key) with
  | none =>
    refine (List.find?_eq_none.mpr fun row listed matched => ?_).symm
    obtain ⟨taskId,found⟩ := mem_taskRows.mp listed
    simp only [Bool.and_eq_true] at matched
    have listed' := mem_taskRows.mpr ⟨taskId,twin.tasks.symm.found found matched.1⟩
    exact List.find?_eq_none.mp first row listed' (by simpa using matched)
  | some row =>
    obtain ⟨taskId,found⟩ := mem_taskRows.mp (List.mem_of_find?_eq_some first)
    have matched := List.find?_some first
    simp only [Bool.and_eq_true] at matched
    have found' := twin.tasks.found found matched.1
    cases second : t.taskRows.find? fun task => task.tenantId == tenantId && task.idempotencyKey == key with
    | none =>
      exact absurd (by simpa using matched) (List.find?_eq_none.mp second row (mem_taskRows.mpr ⟨taskId,
        found'⟩))
    | some other =>
      obtain ⟨otherId,present⟩ := mem_taskRows.mp (List.mem_of_find?_eq_some second)
      have matched' := List.find?_some second
      simp only [Bool.and_eq_true,beq_iff_eq] at matched matched'
      have same := unique otherId taskId other row present found' (matched'.1.trans matched.1.symm)
        (matched'.2.trans matched.2.symm)
      rw [same,found'] at present
      exact present

theorem submit_twin {request : SubmitRequest} {clock : SubmitClock} (twin : Twin tenantId ours s t)
    (unique : KeysUnique t) (own : request.principal.tenantId = tenantId)
    (our : ours request.principal.operatorId)
    (apart : ∀ store ∈ [s,t], Apart store (.submit request clock)) :
    Paired (Ends (Twin tenantId ours)) (submitTaskGoverned encoding s request clock)
      (submitTaskGoverned encoding t request clock) := by
  subst own
  refine .same fun _ _ => .orFail (twin.sessions _) fun session _ => .same fun _ _ =>
    .orFail twin.limits fun limits _ => ?_
  rw [twin_taken twin unique]
  cases t.taskRows.find? fun task => task.tenantId == request.principal.tenantId &&
      task.idempotencyKey == request.idempotencyKey with
  | some row =>
    dsimp only
    rw [← twin.loadTask]
    exact .same fun existing _ => .same fun _ _ => .ok ⟨rfl,twin⟩
  | none =>
    refine .checkEach (fun scope listed => ?_) ?_
    · rw [checkRateWindow,checkRateWindow,twin.windows _ rfl our scope listed]
    have counted :=
      (twin.countRequest rfl our (List.mem_cons_self)
      (fixedWindowStart clock.now limits.windowSeconds)).countRequest
      rfl our (List.mem_cons_of_mem _ List.mem_cons_self) (fixedWindowStart clock.now limits.windowSeconds)
    refine .bind (admitReference_twin counted rfl) fun left right ran ran' ends => ?_
    obtain ⟨approvalId,admitted⟩ := left
    obtain ⟨_,admitted'⟩ := right
    obtain ⟨rfl,after⟩ := ends
    dsimp only at ran ran' after ⊢
    rw [after.quotas]
    refine .same fun _ _ => .require ?_ fun _ => ?_
    · rw [← AList.lookup_eq_none,← AList.lookup_eq_none,admitReference_tasks ran,admitReference_tasks ran']
      show s.tasks.lookup request.envelope.taskId = none ↔ t.tasks.lookup request.envelope.taskId = none
      rw [twin.tasks.lookup (fun row found => by simpa using apart s (by simp) row found)
        (fun row found => by simpa using apart t (by simp) row found)]
    · have inserted := after.insertTask request.envelope.taskId (newTask request {request.envelope with
        executionContext:=(ExecutionContext.fromPrincipal request.principal).withProvenance
          request.requestId approvalId} clock.now)
      dsimp only at inserted ⊢
      rw [← inserted.loadTask]
      exact .same fun record _ => .ok ⟨rfl,inserted⟩

theorem storeOf_paired {α : Type} {S : QueueStore → QueueStore → Prop}
    {x y : Except QueueError (α × QueueStore)} (paired : Paired (Ends S) x y) :
    Paired (Ends S) (storeOf x) (storeOf y) := by
  cases paired with
  | ok ends => exact .ok ⟨rfl,ends.2⟩
  | error => exact .error

-- An operation on behalf of the tenant leaves alike what was alike.
theorem exec_twin {op : Operation} (linked : Linked encoding s) (unique : KeysUnique t)
    (twin : Twin tenantId ours s t) (behalf : onBehalfOf op = some tenantId) (operators : SubmitsAs ours op)
    (apart : ∀ store ∈ [s,t], Apart store op) :
    Twin tenantId ours (exec encoding s op) (exec encoding t op) := by
  have committed :
      Paired (Ends (Twin tenantId ours)) (transaction encoding op s) (transaction encoding op t) →
      Twin tenantId ours (exec encoding s op) (exec encoding t op) := fun paired => paired.committed twin
  cases op with
  | bootstrapPrincipal principal => exact committed (bootstrapPrincipal_twin twin (Option.some.inj behalf))
  | setLimits _ limits =>
    cases behalf
    exact committed (storeOf_paired (setLimits_twin twin limits))
  | createSession principal => exact committed (storeOf_paired (createSession_twin twin))
  | savePlan plan =>
    cases behalf
    exact committed (storeOf_paired (savePlan_twin twin apart))
  | submit request clock =>
    exact committed (storeOf_paired (submit_twin twin unique (Option.some.inj behalf) operators apart))
  | approvePlan principal approval key now =>
    cases behalf
    exact committed (storeOf_paired (approvePlan_twin twin rfl apart))
  | claim now leaseFor planContext => cases behalf
  | finish taskId _ leaseToken report now planContext =>
    cases behalf
    exact committed (storeOf_paired (finish_twin linked twin))
  | requestCancel taskId _ now =>
    cases behalf
    exact committed (storeOf_paired (requestCancel_twin twin))
  | recoverExpiredLeases now => cases behalf
  | resolvePlanUnknown request now =>
    exact committed (storeOf_paired (resolve_twin twin (Option.some.inj behalf)))
  | resumePlan _ planId now =>
    cases behalf
    exact resumePlan_twin twin

-- The store as it draws the identifiers of its next operation.
def drawing (uuid : Uuid) (s : QueueStore) : QueueStore := {s with nextUuid:=uuid}

-- Two runs in which the tenant does the same at the same times, and others do
-- anything whatever. Claims and recoveries may differ as long as they make the same
-- of the tasks and plans of the tenant.
inductive TwoRuns (encoding : StoreEncoding) (tenantId : TenantId) (own foreign : Operation → Prop) :
    QueueStore → QueueStore → Prop
  | start : TwoRuns encoding tenantId own foreign .empty .empty
  | both : TwoRuns encoding tenantId own foreign one two → onBehalfOf op = some tenantId → own op →
      Apart (drawing uuid one) op → Apart (drawing uuid two) op →
      TwoRuns encoding tenantId own foreign (exec encoding (drawing uuid one) op)
        (exec encoding (drawing uuid two) op)
  | left : TwoRuns encoding tenantId own foreign one two → onBehalfOf op = some other → other ≠ tenantId →
      foreign op →
      Apart (drawing uuid one) op →
      TwoRuns encoding tenantId own foreign (exec encoding (drawing uuid one) op) two
  | right : TwoRuns encoding tenantId own foreign one two → onBehalfOf op = some other → other ≠ tenantId →
      foreign op →
      Apart (drawing uuid two) op →
      TwoRuns encoding tenantId own foreign one (exec encoding (drawing uuid two) op)
  | served : TwoRuns encoding tenantId own foreign one two → onBehalfOf op = none → onBehalfOf op' = none →
      Tables.AgreeOn (fun row => row.tenantId == tenantId) (exec encoding (drawing uuid one) op).tasks
        (exec encoding (drawing uuid' two) op').tasks →
      Tables.AgreeOn (fun rows => rows.tenantId == tenantId) (exec encoding (drawing uuid one) op).plans
        (exec encoding (drawing uuid' two) op').plans →
      TwoRuns encoding tenantId own foreign (exec encoding (drawing uuid one) op)
        (exec encoding (drawing uuid' two) op')

-- What two such runs have in common.
structure Companions (encoding : StoreEncoding) (tenantId : TenantId) (ours : OperatorId → Prop)
    (s t : QueueStore) : Prop where
  linked : Linked encoding s
  linked' : Linked encoding t
  unique : KeysUnique s
  unique' : KeysUnique t
  alike : Alike tenantId ours s t

theorem linked_drawing (linked : Linked encoding s) (uuid : Uuid) : Linked encoding (drawing uuid s) :=
  ⟨linked.filed,linked.rowed,linked.joined⟩

theorem Companions.twin (companions : Companions encoding tenantId ours s t) (uuid : Uuid) :
    Twin tenantId ours (drawing uuid s) (drawing uuid t) :=
  have alike := companions.alike
  ⟨⟨alike.sessions,alike.limits,alike.windows,alike.tasks,alike.plans⟩,rfl⟩

theorem exec_drawing (linked : Linked encoding s) (unique : KeysUnique s) (uuid : Uuid) (op : Operation) :
    Linked encoding (exec encoding (drawing uuid s) op) ∧ KeysUnique (exec encoding (drawing uuid s) op) :=
  ⟨exec_linked (linked_drawing linked uuid) op,
    @exec_unique encoding (drawing uuid s) (linked_drawing linked uuid) op unique⟩

theorem worker_registry {op : Operation} (worker : onBehalfOf op = none) :
    registry (exec encoding s op) = registry s := by
  have change := exec_registry encoding s op
  generalize exec encoding s op = s' at change
  cases change with
  | kept same => exact same
  | bootstrapped | limited | opened | counted => cases worker

theorem exec_foreign {op : Operation} {other : TenantId} {uuid : Uuid} (linked : Linked encoding s)
    (behalf : onBehalfOf op = some other) (differs : other ≠ tenantId)
    (operators : SubmitsAs (fun operatorId => ¬ ours operatorId) op) (apart : Apart (drawing uuid s) op) :
    Alike tenantId ours (exec encoding (drawing uuid s) op) s := by
  have aside := @exec_aside encoding tenantId other ours (drawing uuid s) op (linked_drawing linked uuid)
      behalf differs apart operators
  exact ⟨aside.sessions,aside.limits,aside.windows,aside.tasks,aside.plans⟩

theorem twoRuns_companions
    (runs : TwoRuns encoding tenantId (SubmitsAs ours) (SubmitsAs fun operatorId => ¬ ours operatorId) s t) :
    Companions encoding tenantId ours s t := by
  induction runs with
  | start =>
    have linked : Linked encoding .empty := @run_linked encoding _ (fun _ _ => True) .start
    have unique : KeysUnique .empty := @run_unique encoding _ (fun _ _ => True) .start
    exact ⟨linked,linked,unique,unique,.refl _⟩
  | @both one two op uuid _ behalf operators apart apart' ih =>
    obtain ⟨linked,unique⟩ := exec_drawing ih.linked ih.unique uuid op
    obtain ⟨linked',unique'⟩ := exec_drawing ih.linked' ih.unique' uuid op
    have apart'' : ∀ store ∈ [drawing uuid one,drawing uuid two], Apart store op := by simp [apart,apart']
    have twin :=
      exec_twin (linked_drawing ih.linked uuid) (show KeysUnique (drawing uuid two) from ih.unique')
      (ih.twin uuid) behalf operators apart''
    exact ⟨linked,linked',unique,unique',twin.toAlike⟩
  | @left one two op other uuid _ behalf differs operators apart ih =>
    obtain ⟨linked,unique⟩ := exec_drawing ih.linked ih.unique uuid op
    exact ⟨linked,ih.linked',unique,ih.unique',
      (exec_foreign ih.linked behalf differs operators apart).trans ih.alike⟩
  | @right one two op other uuid _ behalf differs operators apart ih =>
    obtain ⟨linked',unique'⟩ := exec_drawing ih.linked' ih.unique' uuid op
    exact ⟨ih.linked,linked',ih.unique,unique',
      ih.alike.trans (exec_foreign ih.linked' behalf differs operators apart).symm⟩
  | @served one two op op' uuid uuid' _ worker worker' tasks plans ih =>
    obtain ⟨linked,unique⟩ := exec_drawing ih.linked ih.unique uuid op
    obtain ⟨linked',unique'⟩ := exec_drawing ih.linked' ih.unique' uuid' op'
    have registered := @worker_registry encoding (drawing uuid one) op worker
    have registered' := @worker_registry encoding (drawing uuid' two) op' worker'
    refine ⟨linked,linked',unique,unique',⟨?_,?_,?_,tasks,plans⟩⟩
    · exact (Tables.AgreeOn.of_eq (congrArg (·.1) registered)).trans
        (ih.alike.sessions.trans (.of_eq (congrArg (·.1) registered').symm))
    · exact (congrArg (·.2.1.lookup tenantId) registered).trans
        (ih.alike.limits.trans (congrArg (·.2.1.lookup tenantId) registered').symm)
    · intro principal tenant our scope listed start
      rw [windowCount_registry registered,windowCount_registry registered']
      exact ih.alike.windows principal tenant our scope listed start

theorem submission_isolated {request : SubmitRequest} {clock : SubmitClock} {uuid : Uuid}
    (runs : TwoRuns encoding tenantId (SubmitsAs ours) (SubmitsAs fun operatorId => ¬ ours operatorId) s t)
    (own : request.principal.tenantId = tenantId) (our : ours request.principal.operatorId)
    (apart : Apart s (.submit request clock)) (apart' : Apart t (.submit request clock)) :
    (submitTaskGoverned encoding (drawing uuid s) request clock).map (·.1) =
      (submitTaskGoverned encoding (drawing uuid t) request clock).map (·.1) := by
  have companions := twoRuns_companions runs
  have paired := @submit_twin encoding _ ours _ _ request clock (companions.twin uuid) companions.unique'
      own our (by
    simp only [List.mem_cons,List.not_mem_nil,or_false,forall_eq_or_imp,forall_eq]
    exact ⟨apart,apart'⟩)
  exact paired.answers

-- One tenant alone, and the same with a neighbour who submits a task.

def drawn (operations : List (Uuid × Operation)) : QueueStore :=
  play (fun s drawn => exec trialEncoding (drawing drawn.1 s) drawn.2) .empty operations

def oneRequest : TenantLimits := {defaultLimits with requestsPerWindow:=1}

def aloneRun : List (Uuid × Operation) := [(0,.bootstrapPrincipal trialAdmin),(0,.createSession trialAdmin),
  (1,.setLimits trialAdmin.tenantId oneRequest)]

def neighbour (operatorId : String) : Principal := ⟨⟨operatorId⟩,⟨"other"⟩,.administrator⟩

def neighbourRequest (operatorId : String) : SubmitRequest :=
  ⟨1,neighbour operatorId,"task-9","fingerprint",⟨⟨9⟩,⟨"other"⟩,⟨operatorId⟩,.default,true,
    .fromPrincipal (neighbour operatorId)⟩,0,1,none,none⟩

def neighbourRun (operatorId : String) : List (Uuid × Operation) :=
  [(1,.bootstrapPrincipal (neighbour operatorId)),
  (1,.createSession (neighbour operatorId)),
  (2,.submit (neighbourRequest operatorId) ⟨second 1,second 1,second 1⟩)]

theorem crowded_runs {own foreign : Operation → Prop} {operatorId : String}
    (owned : ∀ drawn ∈ aloneRun, own drawn.2) (allowed : ∀ drawn ∈ neighbourRun operatorId, foreign drawn.2)
    (session : (drawn (aloneRun ++ (neighbourRun operatorId).take 1)).sessions.lookup 1 = none)
    (task : (drawn (aloneRun ++ (neighbourRun operatorId).take 2)).tasks.lookup ⟨9⟩ = none) :
    TwoRuns trialEncoding trialAdmin.tenantId own foreign (drawn (aloneRun ++ neighbourRun operatorId))
      (drawn aloneRun) := by
  have alone : TwoRuns trialEncoding trialAdmin.tenantId own foreign (drawn aloneRun) (drawn aloneRun) := by
    refine .both (.both (.both .start rfl (owned _ (by simp [aloneRun])) trivial trivial) rfl
      (owned _ (by simp [aloneRun])) ?_ ?_) rfl (owned _ (by simp [aloneRun])) trivial trivial
    · intro row found
      cases found
    · intro row found
      cases found
  have apart : (⟨"other"⟩ : TenantId) ≠ trialAdmin.tenantId := by decide
  refine .left (.left (.left alone rfl apart (allowed _ (by simp [neighbourRun])) trivial) rfl apart
    (allowed _ (by simp [neighbourRun])) ?_) rfl apart (allowed _ (by simp [neighbourRun])) ?_
  · intro row found
    exact absurd (session.symm.trans found) (by simp)
  · intro row found
    exact absurd (task.symm.trans found) (by simp)

def aloneRequest :
    SubmitRequest := ⟨0,trialAdmin,"task-7","fingerprint",⟨⟨7⟩,trialAdmin.tenantId,trialAdmin.operatorId,
  .default,true,.fromPrincipal trialAdmin⟩,0,1,none,none⟩

def aloneClock : SubmitClock := ⟨second 2,second 2,second 2⟩

theorem submission_isolated_stranger :
    (submitTaskGoverned trialEncoding (drawing 3 (drawn (aloneRun ++ neighbourRun "stranger")))
      aloneRequest aloneClock).map (·.1) =
      (submitTaskGoverned trialEncoding (drawing 3 (drawn aloneRun)) aloneRequest aloneClock).map (·.1) := by
  have session : (drawn (aloneRun ++ (neighbourRun "stranger").take 1)).sessions.lookup 1 = none := by
    decide +kernel
  have task : (drawn (aloneRun ++ (neighbourRun "stranger").take 2)).tasks.lookup ⟨9⟩ = none := by
    decide +kernel
  have free : (drawn (aloneRun ++ neighbourRun "stranger")).tasks.lookup ⟨7⟩ = none := by decide +kernel
  have free' : (drawn aloneRun).tasks.lookup ⟨7⟩ = none := by decide +kernel
  refine @submission_isolated trialEncoding _ (fun operatorId => operatorId = trialAdmin.operatorId) _ _ _ _ 3
    (crowded_runs (fun drawn listed => ?_) (fun drawn listed => ?_) session task) rfl rfl ?_ ?_
  · simp only [aloneRun,List.mem_cons,List.not_mem_nil,or_false] at listed
    rcases listed with rfl | rfl | rfl <;> trivial
  · simp only [neighbourRun,List.mem_cons,List.not_mem_nil,or_false] at listed
    rcases listed with rfl | rfl | rfl
    · trivial
    · trivial
    · show ¬ (⟨"stranger"⟩ : OperatorId) = trialAdmin.operatorId
      decide
  · intro row found
    exact absurd (free.symm.trans found) (by simp)
  · intro row found
    exact absurd (free'.symm.trans found) (by simp)

-- The neighbour has an operator of the same name, and takes the one request that the
-- operator may make in a minute.
theorem submission_isolated_namesake : ¬ ∀ s t request clock uuid,
    TwoRuns trialEncoding trialAdmin.tenantId (fun _ => True) (fun _ => True) s t →
    request.principal.tenantId = trialAdmin.tenantId → Apart s (.submit request clock) →
    Apart t (.submit request clock) →
    (submitTaskGoverned trialEncoding (drawing uuid s) request clock).map (·.1) =
      (submitTaskGoverned trialEncoding (drawing uuid t) request clock).map (·.1) := by
  intro isolated
  have session : (drawn (aloneRun ++ (neighbourRun "operator").take 1)).sessions.lookup 1 = none := by
    decide +kernel
  have task : (drawn (aloneRun ++ (neighbourRun "operator").take 2)).tasks.lookup ⟨9⟩ = none := by
    decide +kernel
  have free : (drawn (aloneRun ++ neighbourRun "operator")).tasks.lookup ⟨7⟩ = none := by decide +kernel
  have free' : (drawn aloneRun).tasks.lookup ⟨7⟩ = none := by decide +kernel
  have same := isolated _ _ aloneRequest aloneClock 3
    (crowded_runs (fun _ _ => trivial) (fun _ _ => trivial) session task) rfl
    (fun row found => absurd (free.symm.trans found) (by simp)) (fun row found =>
      absurd (free'.symm.trans found) (by simp))
  have crowded :
      (submitTaskGoverned trialEncoding (drawing 3 (drawn (aloneRun ++ neighbourRun "operator"))) aloneRequest
      aloneClock).isOk = false := by decide +kernel
  have alone :
      (submitTaskGoverned trialEncoding (drawing 3 (drawn aloneRun)) aloneRequest aloneClock).isOk =
      true := by
    decide +kernel
  revert same crowded alone
  generalize submitTaskGoverned trialEncoding (drawing 3 (drawn (aloneRun ++ neighbourRun "operator")))
    aloneRequest aloneClock = left
  generalize submitTaskGoverned trialEncoding (drawing 3 (drawn aloneRun)) aloneRequest aloneClock = right
  intro same refused created
  cases left with
  | ok answer => cases refused
  | error e =>
    cases right with
    | error e => cases created
    | ok answer => cases same

end Shaka.Properties
